import NativeWatcher.Lib.LexicalPath
import NativeWatcher.Tree.Serialise
import NativeWatcher.Wrapper.JsString

/-!
# `normalizeOptions`

The wrapper turns every ignore entry without a star into the path it means. A path inside the
watched directory becomes a glob relative to it, any other an ignore path; the binding reads
both lists. `resolve` and `relative` of `node:path` are the lexical ones.
-/

namespace NativeWatcher

/-! ## `node:path` -/

namespace NodePath

/-- `path.sep`. -/
abbrev sep : UInt16 := 47

/-- `'.'`. -/
abbrev dot : UInt16 := 46

def isAbsolute (path : JsStr) : Bool := path.head? == some sep

/-- The loop of `resolve`, from the last argument to an absolute one. `process.cwd()` stands
before them all. -/
def resolvedText (cwd : JsStr) : List JsStr → JsStr → JsStr
  | [], resolvedPath => cwd ++ sep :: resolvedPath
  | path :: paths, resolvedPath =>
      if path.isEmpty then resolvedText cwd paths resolvedPath
      else if isAbsolute path then path ++ sep :: resolvedPath
      else resolvedText cwd paths (path ++ sep :: resolvedPath)

def resolvedComponents (cwd : JsStr) (paths : List JsStr) : List JsStr :=
  LexicalPath.normalize dot (LexicalPath.split sep (resolvedText cwd paths.reverse []))

def resolve (cwd : JsStr) (paths : List JsStr) : JsStr :=
  sep :: LexicalPath.join sep (resolvedComponents cwd paths)

def relative (cwd base target : JsStr) : JsStr :=
  LexicalPath.join sep (LexicalPath.relative dot (resolvedComponents cwd [base])
    (resolvedComponents cwd [target]))

end NodePath

/-! ## The wrapper -/

open NodePath

/-- An element of an array, as far as `normalizeOptions` looks at it. -/
inductive JsValue where
  | string (value : JsStr)
  | other

/-- The options of the binding; the fields that nothing here reads are left out. -/
structure NativeOptions where
  ignorePaths : Option (List JsStr) := none
  ignoreGlobs : Option (List JsStr) := none

/-- The options of `subscribe`. Without an array in `ignore` there are no entries. -/
structure SubscribeOptions extends NativeOptions where
  ignore : Option (List JsValue) := none

namespace NativeOptions

/-- `(nativeOptions.ignoreGlobs ??= []).push(value)`. -/
def pushGlob (nativeOptions : NativeOptions) (value : JsStr) : NativeOptions :=
  { nativeOptions with ignoreGlobs := some (nativeOptions.ignoreGlobs.getD [] ++ [value]) }

/-- `(nativeOptions.ignorePaths ??= []).push(value)`. -/
def pushPath (nativeOptions : NativeOptions) (value : JsStr) : NativeOptions :=
  { nativeOptions with ignorePaths := some (nativeOptions.ignorePaths.getD [] ++ [value]) }

end NativeOptions

/-- One turn of the loop over `ignore`; the texts are those of its `TypeError`s. -/
def normalizeEntry (cwd directory inputDirectory : JsStr) (nativeOptions : NativeOptions) :
    JsValue → Except String NativeOptions
  | .other => .error "Expected ignore patterns to be strings"
  | .string value =>
      if value.contains 0 then .error "ignore patterns cannot contain NUL characters"
      else if value.contains 42 then .ok (nativeOptions.pushGlob value)
      else
        let absolutePath := resolve cwd [inputDirectory, value]
        let relativePath := relative cwd inputDirectory absolutePath
        let isInsideRoot := relativePath.isEmpty ||
          (relativePath != [dot, dot] && !([dot, dot, sep].isPrefixOf relativePath) &&
            !isAbsolute relativePath)
        if isInsideRoot && !relativePath.isEmpty then .ok (nativeOptions.pushGlob relativePath)
        else .ok (nativeOptions.pushPath (if isInsideRoot then directory else absolutePath))

def normalizeOptions (cwd directory : JsStr) (options : SubscribeOptions)
    (inputDirectory : JsStr := directory) : Except String NativeOptions :=
  match options.ignore with
  | none => .ok options.toNativeOptions
  | some ignore =>
      ignore.foldlM (normalizeEntry cwd directory inputDirectory) options.toNativeOptions

/-! ## The binding -/

/-- `getIgnorePaths`: what `c_str()` of every string holds. -/
def getIgnorePaths (options : NativeOptions) : List Str :=
  (options.ignorePaths.getD []).map fun item => cString (JsStr.utf8Value item)

def getIgnoreGlobs (options : NativeOptions) : Except String (List Str) :=
  (options.ignoreGlobs.getD []).mapM fun item =>
    let key := JsStr.utf8Value item
    if key.contains 0 then .error "ignoreGlobs cannot contain NUL characters" else .ok key

/-! ## Resolved paths -/

namespace NodePath

open LexicalPath

variable {cwd : JsStr} {ds : List JsStr}

/-- What a path resolves to has names for components. -/
theorem name_of_mem_resolvedComponents {paths : List JsStr} :
    ∀ c ∈ resolvedComponents cwd paths, Name sep dot c :=
  names_foldl_push (fun _ hd => absurd hd List.not_mem_nil) fun _ hd => (mem_split hd).1

/-- A resolved path resolves to itself. -/
theorem resolvedComponents_names (hds : ∀ d ∈ ds, Name sep dot d) :
    resolvedComponents cwd [sep :: join sep ds] = ds := by
  have htext : resolvedText cwd [sep :: join sep ds].reverse [] = sep :: join sep ds ++ [sep] := rfl
  have hjoin := foldl_push_join [] hds []
  rw [resolvedComponents, htext, LexicalPath.normalize, hjoin, List.nil_append, split, List.splitOn_nil,
    List.foldl_cons, push_nil, List.foldl_nil]

variable (cwd) in
/-- Where the components of an entry are read from: the root, or the directory. -/
theorem resolvedComponents_entry (hds : ∀ d ∈ ds, Name sep dot d) (e : JsStr) :
    ∃ start, (start = [] ∨ start = ds) ∧
      resolvedComponents cwd [sep :: join sep ds, e] =
        (split sep (e ++ [sep])).foldl (push dot) start := by
  by_cases hempty : e = []
  · subst hempty
    refine ⟨ds, Or.inr rfl, ?_⟩
    exact foldl_push_join [] hds []
  · by_cases habs : isAbsolute e = true
    · refine ⟨[], Or.inl rfl, ?_⟩
      have htext : resolvedText cwd [sep :: join sep ds, e].reverse [] = e ++ [sep] := by
        show resolvedText cwd [e, sep :: join sep ds] [] = _
        rw [resolvedText, if_neg (by simpa using hempty), if_pos habs]
      rw [resolvedComponents, htext, LexicalPath.normalize]
    · refine ⟨ds, Or.inr rfl, ?_⟩
      have htext : resolvedText cwd [sep :: join sep ds, e].reverse [] =
          sep :: join sep ds ++ sep :: (e ++ [sep]) := by
        show resolvedText cwd [e, sep :: join sep ds] [] = _
        rw [resolvedText, if_neg (by simpa using hempty), if_neg habs]
        rfl
      rw [resolvedComponents, htext, LexicalPath.normalize, foldl_push_join [] hds, List.nil_append]

/-- What an entry enters below the directory is a part of the entry. -/
theorem mem_of_mem_entered {e : JsStr} {rel : List JsStr} (hds : ∀ d ∈ ds, Name sep dot d)
    (hrel : resolvedComponents cwd [sep :: join sep ds, e] = ds ++ rel) :
    ∀ c ∈ rel, ∀ x ∈ c, x ∈ e := by
  obtain ⟨start, hstart, hfold⟩ := resolvedComponents_entry cwd hds e
  obtain ⟨kept, entered, hkept, hentered, heq⟩ := foldl_push_split dot start (split sep (e ++ [sep]))
  have hlength : kept.length ≤ ds.length := by
    have hle := hkept.length_le
    rcases hstart with rfl | rfl
    · exact hle.trans (Nat.zero_le _)
    · exact hle
  have hsub : ∀ c ∈ rel, c ∈ entered := by
    intro c hc
    rw [hfold, heq] at hrel
    rcases List.append_eq_append_iff.mp hrel with ⟨a, _, rfl⟩ | ⟨a, rfl, rfl⟩
    · exact List.mem_append_right a hc
    · have hnil : a = [] := by
        rw [List.length_append] at hlength
        exact List.length_eq_zero_iff.mp (by omega)
      rw [hnil, List.nil_append] at hc
      exact hc
  intro c hc x hx
  obtain ⟨hplain, hpart⟩ := mem_split (hentered c (hsub c hc))
  rcases List.mem_append.mp (hpart x hx) with hmem | hsep
  · exact hmem
  · rw [List.mem_singleton] at hsep
    exact absurd (hsep ▸ hx) hplain

/-- Every unit of a resolved entry is a separator, or comes from the directory or the entry. -/
theorem mem_resolve {e : JsStr} {x : UInt16} (hds : ∀ d ∈ ds, Name sep dot d)
    (hx : x ∈ resolve cwd [sep :: join sep ds, e]) : x = sep ∨ (∃ d ∈ ds, x ∈ d) ∨ x ∈ e := by
  obtain ⟨start, hstart, hfold⟩ := resolvedComponents_entry cwd hds e
  obtain ⟨kept, entered, hkept, hentered, heq⟩ := foldl_push_split dot start (split sep (e ++ [sep]))
  rcases List.mem_cons.mp hx with hx | hx
  · exact Or.inl hx
  · rcases mem_join hx with hx | ⟨c, hc, hxc⟩
    · exact Or.inl hx
    · right
      rw [hfold, heq] at hc
      rcases List.mem_append.mp hc with hc | hc
      · rcases hstart with rfl | rfl
        · exact absurd (hkept.subset hc) List.not_mem_nil
        · exact Or.inl ⟨c, hkept.subset hc, hxc⟩
      · obtain ⟨hplain, hpart⟩ := mem_split (hentered c hc)
        rcases List.mem_append.mp (hpart x hxc) with hmem | hsep
        · exact Or.inr hmem
        · rw [List.mem_singleton] at hsep
          exact absurd (hsep ▸ hxc) hplain

end NodePath

end NativeWatcher
