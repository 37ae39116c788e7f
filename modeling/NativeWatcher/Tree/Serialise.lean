import NativeWatcher.Lib.Scanf
import NativeWatcher.Tree.DirTree

/-!
# `DirTree::write` and the constructor that reads it back

A `FILE` is the bytes it still holds. Every size in the format is a `size_t`
of 64 bits, and each number is followed by a byte that is not a digit.
-/

namespace NativeWatcher

open Scanf

/-! ## Writing -/

/-- `%s` of `c_str()`: the bytes before the first NUL. -/
def cString (s : Str) : Str := s.takeWhile (· != 0)

/-- `fprintf(f, "%zu:%s%" PRIu64 " %d\n", path.size(), path.c_str(), mtime, isDir)`. -/
def DirEntry.write (e : DirEntry) : Str :=
  toDecimal e.path.length ++ 58 :: (cString e.path ++
    (toDecimal e.mtime.toNat ++ 32 :: ((if e.isDir then [49] else [48]) ++ [10])))

/-- `DirTree::write`, with the entries in the order the hash map yields them. -/
def DirTree.write (t : DirTree) (order : List DirEntry) : Str :=
  toDecimal t.entries.pairs.length ++ 10 :: order.flatMap DirEntry.write

/-! ## Reading -/

/-- `path.resize(size)`, then `fread` of `size` bytes into it: the path, whether
all of it was read, and the stream behind. -/
def readPath (size : Nat) (f : Str) : Str × Bool × Str :=
  let got := f.take size
  (got ++ List.replicate (size - got.length) 0, got.length == size, f.drop size)

/-- `fscanf(f, "%" PRIu64 " %d\n", &mtime, &d)`: what is stored, with `isDir` only
when both conversions were made. -/
def readFields (path : Str) (f : Str) : DirEntry × Str :=
  let (mtime, f) := scanDecimal f
  match mtime with
  | none => (⟨path, 0, false⟩, f)
  | some m =>
      let (d, f) := scanDecimal (skipSpace f)
      match d with
      | none => (⟨path, toUnsigned m, false⟩, f)
      | some d => (⟨path, toUnsigned m, toInt d == 1⟩, skipSpace f)

/-- `DirEntry(FILE *f)`. -/
def DirEntry.read (f : Str) : DirEntry × Str :=
  let (size, f) := scanDecimal f
  match size with
  | none => (⟨[], 0, false⟩, f)
  | some size =>
      let (colon, f) := getChar f
      if colon = some 58 then
        let (path, complete, f) := readPath (toUnsigned size).toNat f
        if complete then readFields path f else (⟨path, 0, false⟩, f)
      else (⟨[], 0, false⟩, f)

/-- The loop of the constructor. -/
def DirTree.readEntries : Nat → DirTree → Str → DirTree
  | 0, t, _ => t
  | n + 1, t, f =>
      let (entry, f) := DirEntry.read f
      readEntries n
        (if entry.path.isEmpty then t else t.add entry.path entry.mtime entry.isDir) f

/-- `DirTree(root, f)`. -/
def DirTree.read (root : Str) (f : Str) : DirTree :=
  let empty : DirTree := { DirTree.new root with isComplete := true }
  let (size, f) := scanDecimal f
  match size with
  | none => empty
  | some size => empty.readEntries (toUnsigned size).toNat f

/-! ## Numbers that were written -/

theorem toDecimal_ne_nil (n : Nat) : toDecimal n ≠ [] := by
  unfold toDecimal
  split
  · exact List.cons_ne_nil _ _
  · next hn =>
      intro h
      have hnil : Nat.digits 10 n = [] := List.reverse_eq_nil_iff.mp (List.map_eq_nil_iff.mp h)
      exact hn (Nat.digits_eq_nil_iff_eq_zero.mp hnil)

theorem isDigit_of_mem_toDecimal {n : Nat} {b : UInt8} (h : b ∈ toDecimal n) :
    isDigit b = true := by
  unfold toDecimal at h
  split at h
  · rw [List.mem_singleton.mp h]
    decide
  · exact isDigit_of_mem_digitBytes h

theorem digitsValue_toDecimal (n : Nat) : digitsValue (toDecimal n) = n := by
  unfold toDecimal
  split
  · next hn =>
      rw [hn]
      rfl
  · exact digitsValue_digitBytes n

/-- A written number reads back when no digit follows. -/
theorem scanDecimal_toDecimal (n : Nat) {rest : Str}
    (hrest : ∀ b ∈ rest.head?, isDigit b = false) :
    scanDecimal (toDecimal n ++ rest) = (some (false, n), rest) := by
  rw [scanDecimal_digits (toDecimal_ne_nil n) (fun _ h => isDigit_of_mem_toDecimal h) hrest,
    digitsValue_toDecimal]

/-! ## One entry -/

/-- What a path and its entry are on a 64-bit build: the path is a C string, and its
length a `size_t`. -/
structure Storable (path : Str) : Prop where
  nonempty : path ≠ []
  no_nul : ∀ b ∈ path, b ≠ 0
  size : path.length < 2 ^ 64

theorem cString_of_no_nul {s : Str} (h : ∀ b ∈ s, b ≠ 0) : cString s = s :=
  List.takeWhile_eq_self_iff.mpr fun b hb => bne_iff_ne.mpr (h b hb)

theorem readPath_append (path f : Str) :
    readPath path.length (path ++ f) = (path, true, f) := by
  simp [readPath]

theorem toNat_toUnsigned {n : Nat} (h : n < 2 ^ 64) :
    (toUnsigned (false, n)).toNat = n := by
  rw [toUnsigned_of_lt h]
  exact UInt64.toNat_ofNat_of_lt' h

theorem toUnsigned_mtime (mtime : UInt64) : toUnsigned (false, mtime.toNat) = mtime := by
  rw [toUnsigned_of_lt mtime.toNat_lt]
  exact UInt64.ofNat_toNat

/-- The digit that stands for the kind. -/
theorem scanDecimal_isDir (d : Bool) (rest : Str) :
    scanDecimal ((if d then [49] else [48]) ++ [10] ++ rest) =
      (some (false, if d then 1 else 0), 10 :: rest) := by
  have hdigits : (if d then [49] else [48] : Str) = toDecimal (if d then 1 else 0) := by
    cases d <;> simp [toDecimal]
  rw [hdigits, List.append_assoc]
  exact scanDecimal_toDecimal _ (by simp [isDigit])

theorem readFields_write (e : DirEntry) (rest : Str) :
    readFields e.path (toDecimal e.mtime.toNat ++ 32 ::
      ((if e.isDir then [49] else [48]) ++ [10] ++ rest)) = (e, skipSpace rest) := by
  have hspace : ∀ b ∈ (32 :: ((if e.isDir then [49] else [48]) ++ [10] ++ rest)).head?,
      isDigit b = false := by
    simp [isDigit]
  have hmtime := scanDecimal_toDecimal e.mtime.toNat hspace
  have hdir : scanDecimal (skipSpace (32 ::
      ((if e.isDir then [49] else [48]) ++ [10] ++ rest))) =
      (some (false, if e.isDir then 1 else 0), 10 :: rest) := by
    rw [skipSpace_space (by decide), scanDecimal_skipSpace, scanDecimal_isDir]
  have hkind : (toInt (false, if e.isDir then 1 else 0) == 1) = e.isDir := by
    cases e.isDir <;> decide
  unfold readFields
  rw [hmtime]
  dsimp only
  rw [hdir]
  dsimp only
  rw [toUnsigned_mtime, hkind, skipSpace_space (by decide)]

/-- **A written entry reads back, whatever its path looks like**: the length says
where the path ends. The white space of what follows is skipped too. -/
theorem DirEntry.read_write (e : DirEntry) (h : Storable e.path) (rest : Str) :
    DirEntry.read (e.write ++ rest) = (e, skipSpace rest) := by
  have hwrite : e.write ++ rest = toDecimal e.path.length ++ 58 :: (e.path ++
      (toDecimal e.mtime.toNat ++ 32 ::
        ((if e.isDir then [49] else [48]) ++ [10] ++ rest))) := by
    rw [DirEntry.write, cString_of_no_nul h.no_nul]
    simp only [List.append_assoc, List.cons_append]
  rw [hwrite, DirEntry.read, scanDecimal_toDecimal _ (by simp [isDigit])]
  simp only [getChar, if_pos, toNat_toUnsigned h.size, readPath_append]
  exact readFields_write e rest

/-- The first conversion of an entry skips the white space before it. -/
theorem DirEntry.read_skipSpace (f : Str) : DirEntry.read (skipSpace f) = DirEntry.read f := by
  rw [DirEntry.read, scanDecimal_skipSpace]
  rfl

/-! ## The whole file -/

theorem DirTree.readEntries_skipSpace (n : Nat) (t : DirTree) (f : Str) :
    DirTree.readEntries n t (skipSpace f) = DirTree.readEntries n t f := by
  cases n with
  | zero => rfl
  | succ n => rw [DirTree.readEntries, DirEntry.read_skipSpace, DirTree.readEntries]

/-- Entry after entry, the reader stays at the start of one. -/
theorem DirTree.readEntries_write {order : List DirEntry}
    (h : ∀ e ∈ order, Storable e.path) (t : DirTree) :
    DirTree.readEntries order.length t (order.flatMap DirEntry.write) =
      order.foldl (fun t e => t.add e.path e.mtime e.isDir) t := by
  induction order generalizing t with
  | nil => rfl
  | cons e order ih =>
      have he : Storable e.path := h e List.mem_cons_self
      rw [List.length_cons, List.flatMap_cons, DirTree.readEntries, e.read_write he,
        List.foldl_cons]
      dsimp only
      rw [if_neg (by simpa using he.nonempty), DirTree.readEntries_skipSpace,
        ih fun e' he' => h e' (List.mem_cons_of_mem _ he')]

/-- Adding entries keeps the first of each path. -/
theorem DirTree.find_foldl_add (order : List DirEntry) (t : DirTree) (p : Str) :
    (order.foldl (fun t e => t.add e.path e.mtime e.isDir) t).find p =
      (t.find p).or (order.find? fun e => e.path = p) := by
  induction order generalizing t with
  | nil => exact (Option.or_none).symm
  | cons e order ih =>
      rw [List.foldl_cons, ih, DirTree.find_add]
      by_cases hp : p = e.path
      · rw [if_pos hp, List.find?_cons_of_pos (by simp [hp]), hp]
        cases t.find e.path <;> rfl
      · rw [if_neg hp, List.find?_cons_of_neg (by simpa using Ne.symm hp)]

/-- The entry of a path, in any order of the entries. -/
theorem DirTree.find?_order {t : DirTree} {order : List DirEntry}
    (horder : order.Perm (t.entries.pairs.map Prod.snd)) (p : Str) :
    (order.find? fun e => e.path = p) = t.find p := by
  have hmem : ∀ e, e ∈ order ↔ t.find e.path = some e := by
    intro e
    rw [horder.mem_iff, List.mem_map]
    constructor
    · rintro ⟨⟨k, e'⟩, hpair, rfl⟩
      have hfind : t.find k = some e' := FiniteMap.mem_pairs.mp hpair
      rw [DirTree.path_of_find hfind]
      exact hfind
    · intro hfind
      exact ⟨(e.path, e), FiniteMap.mem_pairs.mpr hfind, rfl⟩
  cases hfound : order.find? fun e => e.path = p with
  | none =>
      symm
      by_contra hne
      obtain ⟨e, he⟩ := Option.ne_none_iff_exists'.mp hne
      have hpath : e.path = p := DirTree.path_of_find he
      have hin : e ∈ order := (hmem e).mpr (hpath.symm ▸ he)
      exact List.find?_eq_none.mp hfound e hin (by simpa using hpath)
  | some e =>
      have hpath : e.path = p := by simpa using List.find?_some hfound
      have he := (hmem e).mp (List.mem_of_find?_eq_some hfound)
      rw [← hpath, he]

/-- **The reader rebuilds what was written**, in whatever order the map yields its
entries. -/
theorem serialised_round_trip (root : Str) (t : DirTree) (order : List DirEntry)
    (horder : order.Perm (t.entries.pairs.map Prod.snd))
    (hpaths : ∀ p e, t.find p = some e → Storable p)
    (hsize : t.entries.pairs.length < 2 ^ 64) (p : Str) :
    (DirTree.read root (t.write order)).find p = t.find p := by
  have hlength : order.length = t.entries.pairs.length := by
    rw [horder.length_eq, List.length_map]
  have hstorable : ∀ e ∈ order, Storable e.path := by
    intro e he
    obtain ⟨⟨k, e'⟩, hpair, rfl⟩ := List.mem_map.mp (horder.mem_iff.mp he)
    have hfind : t.find k = some e' := FiniteMap.mem_pairs.mp hpair
    rw [DirTree.path_of_find hfind]
    exact hpaths k e' hfind
  have hskip : DirTree.readEntries order.length { DirTree.new root with isComplete := true }
      (10 :: order.flatMap DirEntry.write) =
      DirTree.readEntries order.length { DirTree.new root with isComplete := true }
        (order.flatMap DirEntry.write) := by
    rw [← DirTree.readEntries_skipSpace, skipSpace_space (by decide),
      DirTree.readEntries_skipSpace]
  rw [DirTree.read, DirTree.write, scanDecimal_toDecimal _ (by simp [isDigit])]
  dsimp only
  rw [toNat_toUnsigned hsize, ← hlength, hskip, DirTree.readEntries_write hstorable,
    DirTree.find_foldl_add, DirTree.find?_order horder]
  rfl

/-- A digit, a blank and a line break at the ends of paths, in the order opposite to
the order of insertion. -/
theorem serialised_round_trip_digits :
    (DirTree.read [114] ((((DirTree.new [114]).add [55, 58] 42 false).add [10, 32, 57] 43
      true).write [⟨[55, 58], 42, false⟩, ⟨[10, 32, 57], 43, true⟩])).find [10, 32, 57] =
      (((DirTree.new [114]).add [55, 58] 42 false).add [10, 32, 57] 43 true).find
        [10, 32, 57] := by
  apply serialised_round_trip
  · exact List.Perm.swap ..
  · intro p e hfind
    simp only [DirTree.find_add, DirTree.find_new] at hfind
    by_cases h1 : p = [10, 32, 57]
    · subst h1
      exact ⟨by decide, by simp, by decide⟩
    · by_cases h2 : p = [55, 58]
      · subst h2
        exact ⟨by decide, by simp, by decide⟩
      · rw [if_neg h1, if_neg h2] at hfind
        cases hfind
  · decide

end NativeWatcher
