import NativeWatcher.Linux.ScanSteps

/-!
# What a scan finds

The answers to a scan say which entries it finds and which directories are gone when it
comes to watch or open them; neither depends on the tree. The names in a directory keep
apart what lies below them.
-/

namespace NativeWatcher

open Hierarchy

variable {W : Type}

/-- The errors on which a directory is taken for gone. -/
def isGone (errno : Nat) : Bool := errno == ENOENT || errno == ENOTDIR

/-- The directory is gone when it is watched, or when it is opened. -/
def DirItem.vanishes (item : DirItem) : DirScan → Bool
  | .opendirFails errno =>
      match item.watch with
      | .fails error => isGone error
      | .resolves _ _ => isGone errno
  | .opened _ _ =>
      match item.watch with
      | .fails error => isGone error
      | .resolves _ _ => false

/-- The item is a directory that the scan goes into. -/
def DirItem.entered (w : InotifyWatcher W) (path : Str) (item : DirItem) : Bool :=
  (item.listed w path).any FileStat.isDirectory

/-- The entry of an item that passes the tests. -/
def DirItem.entry (w : InotifyWatcher W) (path : Str) (item : DirItem) : Option DirEntry :=
  (item.listed w path).map fun attributes =>
    ⟨child path item.name, convertTime attributes.st_mtim, attributes.isDirectory⟩

def DirItems.names : DirItems → List Str
  | .nil => []
  | .cons item _ rest => item.name :: rest.names

/-- The entries of the directory itself. -/
def DirItems.entries (w : InotifyWatcher W) (path : Str) : DirItems → List DirEntry
  | .nil => []
  | .cons item _ rest => (item.entry w path).toList ++ rest.entries w path

mutual

/-- The names in a directory are distinct, and none holds a separator. -/
def DirScan.WellNamed : DirScan → Prop
  | .opendirFails _ => True
  | .opened _ items => items.WellNamed

def DirItems.WellNamed : DirItems → Prop
  | .nil => True
  | .cons item below rest =>
      slash ∉ item.name ∧ item.name ∉ rest.names ∧ below.WellNamed ∧ rest.WellNamed

end

mutual

/-- No cancellation is seen. -/
def DirScan.Uncancelled : DirScan → Prop
  | .opendirFails _ => True
  | .opened _ items => items.Uncancelled

def DirItems.Uncancelled : DirItems → Prop
  | .nil => True
  | .cons item below rest =>
      item.cancelled = false ∧ item.cancelledBelow = false ∧ below.Uncancelled ∧
        rest.Uncancelled

end

mutual

/-- The entries that the scan of a directory finds below it. -/
def DirScan.found (w : InotifyWatcher W) (path : Str) : DirScan → List DirEntry
  | .opendirFails _ => []
  | .opened _ items => items.entries w path ++ items.foundBelow w path

/-- Those below the subdirectories. -/
def DirItems.foundBelow (w : InotifyWatcher W) (path : Str) : DirItems → List DirEntry
  | .nil => []
  | .cons item below rest =>
      (if item.entered w path && !item.vanishes below then
        below.found w (child path item.name) else []) ++ rest.foundBelow w path

end

mutual

/-- The directories that are gone when the scan comes to them. -/
def DirScan.vanished (w : InotifyWatcher W) (path : Str) : DirScan → List Str
  | .opendirFails _ => []
  | .opened _ items => items.vanished w path

def DirItems.vanished (w : InotifyWatcher W) (path : Str) : DirItems → List Str
  | .nil => []
  | .cons item below rest =>
      (if item.entered w path then
        if item.vanishes below then [child path item.name]
        else below.vanished w (child path item.name)
      else []) ++ rest.vanished w path

end

theorem DirItems.mem_foundBelow {w : InotifyWatcher W} {path : Str} {item : DirItem}
    {below : DirScan} {rest : DirItems} {e : DirEntry} :
    e ∈ (DirItems.cons item below rest).foundBelow w path ↔
      (item.entered w path = true ∧ item.vanishes below = false ∧
        e ∈ below.found w (child path item.name)) ∨ e ∈ rest.foundBelow w path := by
  rw [DirItems.foundBelow, List.mem_append]
  apply or_congr_left
  cases item.entered w path <;> cases item.vanishes below <;> simp

/-! ## Where they are -/

/-- Two names of one directory have nothing below both. -/
theorem child_apart {path m n p : Str} (hm : slash ∉ m) (hn : slash ∉ n)
    (hpm : Under slash (child path m) p) (hpn : Under slash (child path n) p) : m = n := by
  have key : ∀ {m n : Str}, slash ∉ n → Under slash (child path m) (child path n) → m = n := by
    intro m n hn h
    obtain ⟨s, heq, hs⟩ := under_iff_append.mp h
    have hcancel : n = m ++ s := by simpa [child] using heq
    rcases hs with rfl | ⟨t, rfl⟩
    · simpa using hcancel.symm
    · exact absurd (by simp [hcancel]) hn
  rcases hpm.comparable hpn with h | h
  · exact key hn h
  · exact (key hm h).symm

variable {w : InotifyWatcher W} {path p v : Str} {e : DirEntry}

theorem DirItems.entries_child : ∀ {items : DirItems}, e ∈ items.entries w path →
    ∃ name ∈ items.names, e.path = child path name
  | .cons item _ rest, h => by
      rcases List.mem_append.mp h with h | h
      · obtain ⟨attributes, _, rfl⟩ := Option.map_eq_some_iff.mp (Option.mem_toList.mp h)
        exact ⟨item.name, List.mem_cons_self, rfl⟩
      · obtain ⟨name, hname, hpath⟩ := DirItems.entries_child h
        exact ⟨name, List.mem_cons_of_mem _ hname, hpath⟩

mutual

theorem DirScan.found_below : ∀ {scan : DirScan} {path : Str},
    e ∈ scan.found w path → Below slash path e.path
  | .opened _ items, path, h => by
      unfold DirScan.found at h
      rcases List.mem_append.mp h with h | h
      · obtain ⟨name, _, hpath⟩ := DirItems.entries_child h
        rw [hpath]
        exact below_child path name
      · obtain ⟨name, _, hbelow⟩ := DirItems.foundBelow_below h
        exact (below_child path name).trans hbelow

theorem DirItems.foundBelow_below : ∀ {items : DirItems} {path : Str},
    e ∈ items.foundBelow w path → ∃ name ∈ items.names, Below slash (child path name) e.path
  | .cons item below rest, path, h => by
      rcases DirItems.mem_foundBelow.mp h with ⟨_, _, h⟩ | h
      · exact ⟨item.name, List.mem_cons_self, DirScan.found_below h⟩
      · obtain ⟨name, hname, hbelow⟩ := DirItems.foundBelow_below h
        exact ⟨name, List.mem_cons_of_mem _ hname, hbelow⟩

end

mutual

theorem DirScan.vanished_below : ∀ {scan : DirScan} {path : Str},
    v ∈ scan.vanished w path → Below slash path v
  | .opened _ items, path, h => by
      unfold DirScan.vanished at h
      obtain ⟨name, _, hunder⟩ := DirItems.vanished_under h
      exact (below_child path name).trans_under hunder

theorem DirItems.vanished_under : ∀ {items : DirItems} {path : Str},
    v ∈ items.vanished w path → ∃ name ∈ items.names, Under slash (child path name) v
  | .cons item below rest, path, h => by
      unfold DirItems.vanished at h
      rcases List.mem_append.mp h with h | h
      · refine ⟨item.name, List.mem_cons_self, ?_⟩
        split at h
        · split at h
          · rw [List.mem_singleton.mp h]
            exact .refl _
          · exact (DirScan.vanished_below h).under
        · cases h
      · obtain ⟨name, hname, hunder⟩ := DirItems.vanished_under h
        exact ⟨name, List.mem_cons_of_mem _ hname, hunder⟩

end

theorem DirItems.WellNamed.slash_free : ∀ {items : DirItems}, items.WellNamed →
    ∀ name ∈ items.names, slash ∉ name
  | .cons item _ rest, h, name, hname => by
      rcases List.mem_cons.mp hname with rfl | hname
      · exact h.1
      · exact DirItems.WellNamed.slash_free h.2.2.2 name hname

/-- What is at or below one name of a directory is not so for the names that follow. -/
theorem DirItems.WellNamed.apart {item : DirItem} {below : DirScan} {rest : DirItems}
    (h : (DirItems.cons item below rest).WellNamed) {name : Str} (hname : name ∈ rest.names)
    (hp : Under slash (child path item.name) p) : ¬ Under slash (child path name) p := by
  intro hp'
  have heq := child_apart h.1 (h.2.2.2.slash_free name hname) hp hp'
  exact h.2.1 (heq ▸ hname)

mutual

/-- What is found at or below a directory that is gone is its own entry. -/
theorem DirScan.own : ∀ {scan : DirScan} {path : Str}, scan.WellNamed →
    e ∈ scan.found w path → v ∈ scan.vanished w path → Under slash v e.path → e.path = v
  | .opened _ items, path, hnamed, he, hv, hunder => by
      unfold DirScan.found at he
      unfold DirScan.vanished at hv
      rcases List.mem_append.mp he with he | he
      · obtain ⟨name, hname, hpath⟩ := DirItems.entries_child he
        obtain ⟨name', hname', hv⟩ := DirItems.vanished_under hv
        have hboth := hv.trans hunder
        rw [hpath] at hboth hunder ⊢
        have heq := child_apart (hnamed.slash_free name hname)
          (hnamed.slash_free name' hname') (.refl _) hboth
        rw [← heq] at hv
        exact hv.antisymm hunder
      · exact DirItems.own hnamed he hv hunder

theorem DirItems.own : ∀ {items : DirItems} {path : Str}, items.WellNamed →
    e ∈ items.foundBelow w path → v ∈ items.vanished w path → Under slash v e.path → e.path = v
  | .cons item below rest, path, hnamed, he, hv, hunder => by
      unfold DirItems.vanished at hv
      rcases DirItems.mem_foundBelow.mp he with ⟨hentered, hstays, he⟩ | he
      · rw [if_pos hentered, if_neg (by simp [hstays])] at hv
        rcases List.mem_append.mp hv with hv | hv
        · exact DirScan.own hnamed.2.2.1 he hv hunder
        · obtain ⟨name, hname, hv⟩ := DirItems.vanished_under hv
          exact absurd (hv.trans hunder) (hnamed.apart hname (DirScan.found_below he).under)
      · rcases List.mem_append.mp hv with hv | hv
        · obtain ⟨name, hname, hbelow⟩ := DirItems.foundBelow_below he
          have hv' : v ∈ (DirItems.cons item below .nil).vanished w path := by
            unfold DirItems.vanished
            exact List.mem_append_left _ hv
          obtain ⟨name', hname', hv'⟩ := DirItems.vanished_under hv'
          obtain rfl := List.mem_singleton.mp hname'
          exact absurd hbelow.under (hnamed.apart hname (hv'.trans hunder))
        · exact DirItems.own hnamed.2.2.2 he hv hunder

end

theorem DirItems.entries_inj {e' : DirEntry} : ∀ {items : DirItems}, items.WellNamed →
    e ∈ items.entries w path → e' ∈ items.entries w path → e.path = e'.path → e = e'
  | .cons item _ rest, hnamed, he, he', hpath => by
      have hname : ∀ {e}, e ∈ (item.entry w path).toList → e.path = child path item.name := by
        intro e h
        obtain ⟨_, _, rfl⟩ := Option.map_eq_some_iff.mp (Option.mem_toList.mp h)
        rfl
      have happart : ∀ {e e' : DirEntry}, e.path = child path item.name →
          e' ∈ rest.entries w path → e.path ≠ e'.path := by
        intro e e' he he' heq
        obtain ⟨name, hmem, hchild⟩ := DirItems.entries_child he'
        have hunder : Under slash (child path name) (child path item.name) := by
          rw [← he, heq, hchild]
          exact .refl _
        exact hnamed.apart hmem (.refl _) hunder
      rcases List.mem_append.mp he with he | he
      · rcases List.mem_append.mp he' with he' | he'
        · rw [Option.mem_toList] at he he'
          exact Option.some.inj (he.symm.trans he')
        · exact absurd hpath (happart (hname he) he')
      · rcases List.mem_append.mp he' with he' | he'
        · exact absurd hpath.symm (happart (hname he') he)
        · exact DirItems.entries_inj hnamed.2.2.2 he he' hpath

mutual

/-- Nothing is found twice. -/
theorem DirScan.found_inj {e' : DirEntry} : ∀ {scan : DirScan} {path : Str}, scan.WellNamed →
    e ∈ scan.found w path → e' ∈ scan.found w path → e.path = e'.path → e = e'
  | .opened _ items, path, hnamed, he, he', hpath => by
      have happart : ∀ {e e' : DirEntry}, e ∈ items.entries w path →
          e' ∈ items.foundBelow w path → e.path ≠ e'.path := by
        intro e e' he he' heq
        obtain ⟨m, hm, hchild⟩ := DirItems.entries_child he
        obtain ⟨n, hn, hbelow⟩ := DirItems.foundBelow_below he'
        rw [← heq, hchild] at hbelow
        have hmn := child_apart (hnamed.slash_free m hm) (hnamed.slash_free n hn) (.refl _)
          hbelow.under
        exact hbelow.ne (by rw [hmn])
      unfold DirScan.found at he he'
      rcases List.mem_append.mp he with he | he
      · rcases List.mem_append.mp he' with he' | he'
        · exact DirItems.entries_inj hnamed he he' hpath
        · exact absurd hpath (happart he he')
      · rcases List.mem_append.mp he' with he' | he'
        · exact absurd hpath.symm (happart he' he)
        · exact DirItems.foundBelow_inj hnamed he he' hpath

theorem DirItems.foundBelow_inj {e' : DirEntry} : ∀ {items : DirItems} {path : Str},
    items.WellNamed → e ∈ items.foundBelow w path → e' ∈ items.foundBelow w path →
      e.path = e'.path → e = e'
  | .cons item below rest, path, hnamed, he, he', hpath => by
      have happart : ∀ {e e' : DirEntry}, e ∈ below.found w (child path item.name) →
          e' ∈ rest.foundBelow w path → e.path ≠ e'.path := by
        intro e e' he he' heq
        obtain ⟨name, hname, hbelow⟩ := DirItems.foundBelow_below he'
        rw [← heq] at hbelow
        exact hnamed.apart hname (DirScan.found_below he).under hbelow.under
      rcases DirItems.mem_foundBelow.mp he with ⟨_, _, he⟩ | he
      · rcases DirItems.mem_foundBelow.mp he' with ⟨_, _, he'⟩ | he'
        · exact DirScan.found_inj hnamed.2.2.1 he he' hpath
        · exact absurd hpath (happart he he')
      · rcases DirItems.mem_foundBelow.mp he' with ⟨_, _, he'⟩ | he'
        · exact absurd hpath.symm (happart he' he)
        · exact DirItems.foundBelow_inj hnamed.2.2.2 he he' hpath

end

theorem DirItems.entries_clear : ∀ {items : DirItems},
    e ∈ items.entries w path → w.isIgnored e.path = false
  | .cons item _ rest, h => by
      rcases List.mem_append.mp h with h | h
      · obtain ⟨attributes, hlisted, rfl⟩ := Option.map_eq_some_iff.mp (Option.mem_toList.mp h)
        exact ScanSteps.listed_clear hlisted
      · exact DirItems.entries_clear h

mutual

theorem DirScan.found_clear : ∀ {scan : DirScan} {path : Str},
    e ∈ scan.found w path → w.isIgnored e.path = false
  | .opened _ items, path, h => by
      unfold DirScan.found at h
      rcases List.mem_append.mp h with h | h
      · exact DirItems.entries_clear h
      · exact DirItems.foundBelow_clear h

theorem DirItems.foundBelow_clear : ∀ {items : DirItems} {path : Str},
    e ∈ items.foundBelow w path → w.isIgnored e.path = false
  | .cons item below rest, path, h => by
      rcases DirItems.mem_foundBelow.mp h with ⟨_, _, h⟩ | h
      · exact DirScan.found_clear h
      · exact DirItems.foundBelow_clear h

end

/-! ## A subtree that is stable -/

mutual

/-- Every directory that the scan goes into can be watched and read. -/
def DirScan.Watchable (w : InotifyWatcher W) (path : Str) : DirScan → Prop
  | .opendirFails _ => False
  | .opened fstat items => fstat.isOk = true ∧ items.Watchable w path

def DirItems.Watchable (w : InotifyWatcher W) (path : Str) : DirItems → Prop
  | .nil => True
  | .cons item below rest =>
      (item.entered w path = true →
        (∃ inode fresh, item.watch = .resolves inode fresh) ∧
          below.Watchable w (child path item.name)) ∧
        rest.Watchable w path

end

/-- The answers of a file system that stays as it is to a watcher that is not cancelled. -/
structure DirScan.Stable (w : InotifyWatcher W) (path : Str) (scan : DirScan) : Prop where
  watchable : scan.Watchable w path
  wellNamed : scan.WellNamed
  uncancelled : scan.Uncancelled

theorem DirItem.vanishes_of_watchable {item : DirItem} {below : DirScan}
    (h : (∃ inode fresh, item.watch = .resolves inode fresh) ∧ below.Watchable w path) :
    item.vanishes below = false := by
  obtain ⟨⟨inode, fresh, hwatch⟩, hbelow⟩ := h
  cases below with
  | opendirFails errno => cases hbelow
  | opened fstat items => simp [DirItem.vanishes, hwatch]

mutual

theorem DirScan.vanished_of_watchable : ∀ {scan : DirScan} {path : Str},
    scan.Watchable w path → scan.vanished w path = []
  | .opened .., _, h => DirItems.vanished_of_watchable h.2

theorem DirItems.vanished_of_watchable : ∀ {items : DirItems} {path : Str},
    items.Watchable w path → items.vanished w path = []
  | .nil, _, _ => rfl
  | .cons item below rest, path, h => by
      rw [DirItems.vanished, DirItems.vanished_of_watchable h.2, List.append_nil]
      split
      next hentered =>
          rw [DirItem.vanishes_of_watchable (h.1 hentered), if_neg Bool.false_ne_true]
          exact DirScan.vanished_of_watchable (h.1 hentered).2
      next => rfl

end

end NativeWatcher
