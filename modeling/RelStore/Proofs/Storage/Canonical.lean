/-
Canonical paths.

A file that was opened stands at a path through directories, whose text leads to the file again wherever it is asked
for.

* `Disk.Holds` — a file stands where its path says: below directories, and under names that can be asked for;
* `Disk.holds_of_openFile` — so does a file that was opened;
* `Disk.openFile_of_holds` — a file that stands where its path says is opened under its path, and nothing is made;
* `Disk.Holds.put`, `Disk.walk_put_eq_ok_iff` — bytes that are written to some file change no way to another one.

Design notes.  A text is not longer than the one that was asked for: what is followed on the way only leaves names out.
-/
import RelStore.Storage.HeapFile

namespace RelStore

theorem utf8Length_toList (s : String) : utf8Length s.toList = s.utf8ByteSize := by
  rw [← length_textBytes_ofList, String.ofList_toList]
  rfl

namespace Path

variable {p : Path} {name s : String}

theorem not_mem_of_mem_pieces {c : Char} {piece cs : List Char} (h : piece ∈ pieces c cs) :
    c ∉ piece ∧ ∀ x ∈ piece, x ∈ cs := by
  induction cs generalizing piece with
  | nil =>
    obtain rfl := List.mem_singleton.mp h
    simp
  | cons d cs ih =>
    rw [pieces] at h
    split at h
    · rcases List.mem_cons.mp h with rfl | h
      · simp
      · exact ⟨(ih h).1, fun x hx => List.mem_cons_of_mem _ ((ih h).2 x hx)⟩
    · next hd =>
      split at h
      · obtain rfl := List.mem_singleton.mp h
        simpa using Ne.symm hd
      · next first rest hpieces =>
        rw [hpieces] at ih
        rcases List.mem_cons.mp h with rfl | h
        · obtain ⟨hnot, hsub⟩ := ih List.mem_cons_self
          refine ⟨by simp [hnot, Ne.symm hd], fun x hx => ?_⟩
          rcases List.mem_cons.mp hx with rfl | hx
          · exact List.mem_cons_self
          · exact List.mem_cons_of_mem _ (hsub x hx)
        · obtain ⟨hnot, hsub⟩ := ih (List.mem_cons_of_mem _ h)
          exact ⟨hnot, fun x hx => List.mem_cons_of_mem _ (hsub x hx)⟩

/-- The bytes that some names take in a text, with a slash behind each of them. -/
def weight : List String → Nat
  | [] => 0
  | name :: names => name.utf8ByteSize + 1 + weight names

@[simp] theorem weight_nil : weight [] = 0 := rfl

@[simp] theorem weight_cons (name : String) (names : List String) :
    weight (name :: names) = name.utf8ByteSize + 1 + weight names := rfl

@[simp] theorem weight_append (a b : List String) : weight (a ++ b) = weight a + weight b := by
  induction a with
  | nil => rw [List.nil_append, weight_nil, Nat.zero_add]
  | cons name a ih => rw [List.cons_append, weight_cons, weight_cons, ih, ← Nat.add_assoc]

theorem weight_dropLast_le (names : List String) : weight names.dropLast ≤ weight names := by
  rcases List.eq_nil_or_concat names with rfl | ⟨front, last, rfl⟩
  · exact Nat.le_refl _
  · simp

theorem weight_pieces (cs : List Char) : weight ((pieces '/' cs).map String.ofList) = utf8Length cs + 1 := by
  induction cs with
  | nil => rfl
  | cons c cs ih =>
    rw [pieces, utf8Length]
    split
    · next hc =>
      have hone : c.utf8Size = 1 := by rw [hc]; rfl
      have hempty : (String.ofList []).utf8ByteSize = 0 := rfl
      rw [List.map_cons, weight_cons, ih, hempty, hone]
      omega
    · split
      · next hnil =>
        rw [hnil] at ih
        simp at ih
      · next piece rest hpieces =>
        have hpiece := utf8Length_toList (String.ofList piece)
        have hmore := utf8Length_toList (String.ofList (c :: piece))
        rw [String.toList_ofList] at hpiece hmore
        rw [utf8Length] at hmore
        rw [hpieces, List.map_cons, weight_cons] at ih
        rw [List.map_cons, weight_cons]
        omega

theorem weight_names (s : String) : weight (names s) = s.utf8ByteSize + 1 := by
  rw [names, weight_pieces, utf8Length_toList]

theorem text_cons (name : String) (h : p ≠ []) : text (name :: p) = name ++ "/" ++ text p := by
  cases p with
  | nil => exact absurd rfl h
  | cons next rest => rfl

theorem weight_text (h : p ≠ []) : (text p).utf8ByteSize + 1 = weight p := by
  induction p with
  | nil => exact absurd rfl h
  | cons name rest ih =>
    by_cases hrest : rest = []
    · rw [hrest]
      rfl
    · have hslash : ("/" : String).utf8ByteSize = 1 := rfl
      have := ih hrest
      rw [text_cons name hrest, String.utf8ByteSize_append, String.utf8ByteSize_append, hslash, weight_cons]
      omega

/-- A name that a file or a directory can have. -/
structure IsName (name : String) : Prop where
  proper : isProper name = true
  slash : '/' ∉ name.toList
  zero : '\x00' ∉ name.toList
  short : name.utf8ByteSize ≤ Disk.maxNameBytes

theorem IsName.ne_empty (h : IsName name) : name ≠ "" := by
  rintro rfl
  exact absurd h.proper (by decide)

theorem mem_text {c : Char} (hc : c ≠ '/') (h : c ∈ (text p).toList) : ∃ name ∈ p, c ∈ name.toList := by
  induction p with
  | nil => simp [text] at h
  | cons name rest ih =>
    by_cases hrest : rest = []
    · rw [hrest] at h
      exact ⟨name, List.mem_cons_self, h⟩
    · rw [text_cons name hrest, String.toList_append, String.toList_append, List.mem_append, List.mem_append] at h
      rcases h with (h | h) | h
      · exact ⟨name, List.mem_cons_self, h⟩
      · exact absurd (List.mem_singleton.mp h) hc
      · obtain ⟨n, hn, hmem⟩ := ih h
        exact ⟨n, List.mem_cons_of_mem _ hn, hmem⟩

/-- The text of a path is meant from the root of the disk. -/
theorem isAbsolute_text (h : ∀ name ∈ p, IsName name) : isAbsolute (text p) = false := by
  cases p with
  | nil => rfl
  | cons name rest =>
    obtain ⟨c, cs, hname⟩ := List.exists_cons_of_ne_nil
      (mt String.toList_eq_nil_iff.mp (h name List.mem_cons_self).ne_empty)
    have hc : c ≠ '/' := by
      rintro rfl
      exact (h name List.mem_cons_self).slash (hname ▸ List.mem_cons_self)
    by_cases hrest : rest = []
    · simp [hrest, text, isAbsolute, hname, hc]
    · simp [text_cons name hrest, isAbsolute, hname, hc]

end Path

namespace Disk

variable {d : Disk} {p cur : Path} {ns : List String} {text : String}

@[simp] theorem isDirectory_put (d : Disk) (q : Path) (bytes : SparseBytes) (p : Path) :
    (d.put q bytes).isDirectory p = d.isDirectory p := rfl

@[simp] theorem names_put (d : Disk) (q : Path) (bytes : SparseBytes) (text : String) :
    (d.put q bytes).names text = d.names text := rfl

theorem contains_put (d : Disk) (q : Path) (bytes : SparseBytes) (p : Path) :
    (d.put q bytes).files.contains p = (decide (q = p) || d.files.contains p) := by
  simp only [Assoc.contains, put, Assoc.get?_insert]
  by_cases h : q = p <;> simp [h]

/-- Names of files and directories, each of them in a directory. -/
structure Way (d : Disk) (p : Path) : Prop where
  names : ∀ name ∈ p, Path.IsName name
  above : ∀ q, q <+: p → q ≠ p → d.isDirectory q = true

theorem way_nil (d : Disk) : d.Way [] :=
  ⟨nofun, fun _ hq hne => absurd (List.prefix_nil.mp hq) hne⟩

theorem Way.dropLast (h : d.Way p) : d.Way p.dropLast ∧ d.isDirectory p.dropLast = true := by
  rcases List.eq_nil_or_concat p with rfl | ⟨front, last, rfl⟩
  · exact ⟨d.way_nil, by simp [isDirectory]⟩
  · rw [List.concat_eq_append] at h ⊢
    rw [List.dropLast_concat]
    have hdir : ∀ q, q <+: front → d.isDirectory q = true := fun q hq => by
      refine h.above q (hq.trans (List.prefix_append ..)) ?_
      rintro rfl
      have := hq.length_le
      rw [List.length_append, List.length_singleton] at this
      omega
    exact ⟨⟨fun name hname => h.names name (List.mem_append_left _ hname), fun q hq _ => hdir q hq⟩,
      hdir front (List.prefix_refl front)⟩

theorem Way.concat {name : String} (h : d.Way p) (hdir : d.isDirectory p = true) (hname : Path.IsName name) :
    d.Way (p ++ [name]) := by
  constructor
  · intro n hn
    rcases List.mem_append.mp hn with hn | hn
    · exact h.names n hn
    · rwa [List.mem_singleton.mp hn]
  · intro q hq hne
    have hq := (List.prefix_concat_iff.mp hq).resolve_left hne
    by_cases heq : q = p
    · rwa [heq]
    · exact h.above q hq heq

/-- What the first of some names leads to. -/
theorem walk_cons_eq_ok_iff {name : String} :
    d.walk cur (name :: ns) = .ok p ↔
      (name = "" ∨ name = ".") ∧ d.walk cur ns = .ok p
        ∨ name = ".." ∧ d.walk cur.dropLast ns = .ok p
        ∨ (Path.isProper name = true ∧ name.utf8ByteSize ≤ maxNameBytes)
          ∧ (d.isDirectory (cur ++ [name]) = true ∧ d.walk (cur ++ [name]) ns = .ok p
            ∨ d.isDirectory (cur ++ [name]) = false ∧ ns = [] ∧ p = cur ++ [name]) := by
  rw [walk]
  by_cases hpoint : name = "" ∨ name = "."
  · rw [if_pos hpoint]
    rcases hpoint with rfl | rfl <;> simp [Path.isProper]
  by_cases hpoints : name = ".."
  · rw [if_neg hpoint, if_pos hpoints]
    simp [hpoints, Path.isProper]
  have hproper : Path.isProper name = true := by
    obtain ⟨hempty, hpoint⟩ := not_or.mp hpoint
    simp [Path.isProper, hempty, hpoint, hpoints]
  rw [if_neg hpoint, if_neg hpoints]
  by_cases hshort : maxNameBytes < name.utf8ByteSize
  · rw [if_pos hshort]
    simp [hpoint, hpoints, Nat.not_le.mpr hshort]
  rw [if_neg hshort]
  cases hdir : d.isDirectory (cur ++ [name])
  · by_cases hlast : ns = []
    · simp [hpoint, hpoints, hproper, Nat.not_lt.mp hshort, hdir, hlast, eq_comm]
    · simp only [hpoint, hpoints, hdir, hlast, Bool.false_eq_true, if_false, false_and, and_false, or_false]
      split <;> simp
  · simp [hpoint, hpoints, hproper, Nat.not_lt.mp hshort, hdir]

/-- What is followed ends at a way, whose text is not longer than what was followed. -/
theorem way_of_walk (hway : d.Way cur) (hdir : d.isDirectory cur = true)
    (hns : ∀ name ∈ ns, '/' ∉ name.toList ∧ '\x00' ∉ name.toList) (h : d.walk cur ns = .ok p) :
    d.Way p ∧ Path.weight p ≤ Path.weight cur + Path.weight ns := by
  -- the directory that the names start from changes with every name, and stays a way of directories
  induction ns generalizing cur with
  | nil =>
    cases h
    exact ⟨hway, Nat.le_add_right ..⟩
  | cons name rest ih =>
    obtain ⟨⟨hslash, hzero⟩, hrest⟩ := List.forall_mem_cons.mp hns
    rw [Path.weight_cons]
    rcases walk_cons_eq_ok_iff.mp h with ⟨-, h⟩ | ⟨-, h⟩ | ⟨⟨hproper, hshort⟩, h⟩
    · obtain ⟨hp, hweight⟩ := ih hway hdir hrest h
      exact ⟨hp, by omega⟩
    · obtain ⟨hp, hweight⟩ := ih hway.dropLast.1 hway.dropLast.2 hrest h
      have := Path.weight_dropLast_le cur
      exact ⟨hp, by omega⟩
    · have hnext := hway.concat hdir ⟨hproper, hslash, hzero, hshort⟩
      have hweight : Path.weight (cur ++ [name]) = Path.weight cur + (name.utf8ByteSize + 1) := by simp
      rcases h with ⟨hnextdir, h⟩ | ⟨-, -, rfl⟩
      · obtain ⟨hp, hle⟩ := ih hnext hnextdir hrest h
        exact ⟨hp, by omega⟩
      · exact ⟨hnext, by omega⟩

/-- A way is followed to its end. -/
theorem walk_of_way (h : d.Way (cur ++ ns)) : d.walk cur ns = .ok (cur ++ ns) := by
  induction ns generalizing cur with
  | nil => rw [walk, List.append_nil]
  | cons name rest ih =>
    have hname := h.names name (by simp)
    have happend : cur ++ name :: rest = cur ++ [name] ++ rest := by simp
    refine walk_cons_eq_ok_iff.mpr (.inr (.inr ⟨⟨hname.proper, hname.short⟩, ?_⟩))
    rw [happend] at h ⊢
    -- only the last name may be that of a file
    by_cases hrest : rest = []
    · cases hdir : d.isDirectory (cur ++ [name])
      · exact .inr ⟨rfl, hrest, by rw [hrest, List.append_nil]⟩
      · exact .inl ⟨rfl, ih h⟩
    · exact .inl ⟨h.above _ (List.prefix_append ..) (by simpa using hrest), ih h⟩

/-- Bytes that are written to some file change no way to another one. -/
theorem walk_put_eq_ok_iff {q : Path} {bytes : SparseBytes} :
    (d.put q bytes).walk cur ns = .ok p ↔ d.walk cur ns = .ok p := by
  induction ns generalizing cur with
  | nil => rfl
  | cons name rest ih => simp only [walk_cons_eq_ok_iff, isDirectory_put, ih]

/-- A file stands where its path says: below directories, and under names that can be asked for. -/
structure Holds (d : Disk) (p : Path) : Prop where
  way : d.Way p
  short : (Path.text p).utf8ByteSize ≤ maxTextBytes
  file : d.files.contains p = true
  notDirectory : d.isDirectory p = false

theorem Holds.ne_nil (h : d.Holds p) : p ≠ [] := by
  rintro rfl
  exact absurd h.notDirectory (by simp [isDirectory])

theorem Holds.put (h : d.Holds p) (q : Path) (bytes : SparseBytes) : (d.put q bytes).Holds p where
  way := ⟨h.way.names, h.way.above⟩
  short := h.short
  file := by rw [contains_put, h.file, Bool.or_true]
  notDirectory := h.notDirectory

/-- The root of the disk is at a place that a text can name. -/
structure Mounted (d : Disk) : Prop where
  absolute : d.mount = "" ∨ Path.isAbsolute d.mount = true
  zero : '\x00' ∉ d.mount.toList

theorem isAbsolute_absolute (hmount : d.Mounted) (text : String) : Path.isAbsolute (d.absolute text) = true := by
  rw [absolute]
  split
  · assumption
  rcases hmount.absolute with hempty | habs
  · rw [hempty]
    simp [Path.isAbsolute]
  · rw [Path.isAbsolute] at habs ⊢
    cases hlist : d.mount.toList with
    | nil => simp [hlist] at habs
    | cons c cs =>
      rw [hlist] at habs
      simpa [hlist] using habs

/-- A path that is made absolute leads back to its names. -/
theorem names_absolute (hmount : d.Mounted) (hnames : ∀ name ∈ p, Path.IsName name) (hne : p ≠ [])
    (hshort : (Path.text p).utf8ByteSize ≤ maxTextBytes) : d.names (d.absolute (Path.text p)) = .ok p := by
  have habs := isAbsolute_absolute hmount (Path.text p)
  rw [absolute, Path.isAbsolute_text hnames, if_neg Bool.false_ne_true] at habs ⊢
  have hzero : (d.mount ++ "/" ++ Path.text p).toList.contains '\x00' = false := by
    rw [List.contains_eq_mem, decide_eq_false_iff_not, String.toList_append, String.toList_append, List.mem_append,
      List.mem_append]
    rintro ((h | h) | h)
    · exact hmount.zero h
    · exact absurd (List.mem_singleton.mp h) (by decide)
    · obtain ⟨name, hname, hmem⟩ := Path.mem_text (by decide) h
      exact (hnames name hname).zero hmem
  have hrelative : d.relative? (d.mount ++ "/" ++ Path.text p) = some (Path.text p) := by
    simp only [relative?, habs]
    rw [String.toList_append (s := d.mount ++ "/")]
    simp
  rw [names, hzero, if_neg Bool.false_ne_true, hrelative]
  simp only
  rw [if_neg (Nat.not_lt.mpr hshort), Path.names_text hne fun name hname => (hnames name hname).slash]

/-- A file that stands where its path says is opened under its path, and nothing is made. -/
theorem openFile_of_holds (hmount : d.Mounted) (h : d.Holds p) :
    d.openFile (d.absolute (Path.text p)) = .ok (p, d) := by
  have hlast : p.getLast? ≠ some "" := fun hlast =>
    (h.way.names "" (List.mem_of_getLast? hlast)).ne_empty rfl
  have hnew : d.resolveNew (d.absolute (Path.text p)) = .ok p := by
    rw [resolveNew, names_absolute hmount h.way.names h.ne_nil h.short]
    simp only
    rw [if_neg hlast, walk_of_way (by exact h.way)]
    simp [h.notDirectory]
  rw [openFile, hnew]
  simp [h.file]

theorem walk_of_resolveNew (h : d.resolveNew text = .ok p) :
    ∃ ns, d.names text = .ok ns ∧ ns.getLast? ≠ some "" ∧ d.walk [] ns = .ok p ∧ d.isDirectory p = false := by
  rw [resolveNew] at h
  split at h
  · cases h
  next ns hns =>
  split at h
  · split at h <;> cases h
  next hlast =>
  split at h
  · cases h
  next q hwalk =>
  split at h
  · cases h
  next hdir =>
  cases h
  exact ⟨ns, hns, hlast, hwalk, by simpa using hdir⟩

/-- A place where a file can be made can be read when there is one. -/
theorem resolveFile_of_resolveNew (h : d.resolveNew text = .ok p) : d.resolveFile text = .ok p := by
  obtain ⟨ns, hns, -, hwalk, hdir⟩ := walk_of_resolveNew h
  rw [resolveFile, resolve, hns]
  simp only
  rw [hwalk]
  simp [hdir]

theorem resolveNew_put (h : d.resolveNew text = .ok p) (q : Path) (bytes : SparseBytes) :
    (d.put q bytes).resolveNew text = .ok p := by
  obtain ⟨ns, hns, hlast, hwalk, hdir⟩ := walk_of_resolveNew h
  rw [resolveNew, names_put, hns]
  simp only
  rw [if_neg hlast, walk_put_eq_ok_iff.mpr hwalk]
  simp [hdir]

/-- The names that a text gives are no longer than a text may be, if they are from the root of the disk. -/
theorem weight_of_names (hns : d.names text = .ok ns) :
    ns = [] ∨ Path.weight ns ≤ maxTextBytes + 1 ∧ ∀ name ∈ ns, '/' ∉ name.toList ∧ '\x00' ∉ name.toList := by
  rw [names] at hns
  split at hns
  · cases hns
  next hzero =>
  split at hns
  · next inner hinner =>
    split at hns
    · cases hns
    next hshort =>
    cases hns
    have hsub : ∀ c ∈ inner.toList, c ∈ text.toList := by
      rw [relative?] at hinner
      split at hinner
      · cases hinner
        exact fun _ hc => hc
      · split at hinner <;> cases hinner
        intro c hc
        rw [String.toList_ofList] at hc
        exact List.mem_of_mem_drop hc
    rw [Path.weight_names]
    refine .inr ⟨by omega, fun name hname => ?_⟩
    obtain ⟨piece, hpiece, rfl⟩ := List.mem_map.mp hname
    obtain ⟨hslash, hmem⟩ := Path.not_mem_of_mem_pieces hpiece
    rw [String.toList_ofList]
    refine ⟨hslash, fun hc => hzero ?_⟩
    rw [List.contains_eq_mem, decide_eq_true_eq]
    exact hsub _ (hmem _ hc)
  · split at hns <;> cases hns
    exact .inl rfl

/-- A file that was opened stands where its path says. -/
theorem holds_of_openFile {d' : Disk} (h : d.openFile text = .ok (p, d')) : d'.Holds p := by
  rw [openFile] at h
  split at h
  · cases h
  next q hnew =>
  cases h
  obtain ⟨ns, hns, -, hwalk, hdir⟩ := walk_of_resolveNew hnew
  have hne : p ≠ [] := by
    rintro rfl
    exact absurd hdir (by simp [isDirectory])
  rcases weight_of_names hns with rfl | ⟨hweight, hchars⟩
  · cases hwalk
    exact absurd rfl hne
  obtain ⟨hway, hle⟩ := way_of_walk d.way_nil (by simp [isDirectory]) hchars hwalk
  have hshort : (Path.text p).utf8ByteSize ≤ maxTextBytes := by
    have := Path.weight_text hne
    rw [Path.weight_nil] at hle
    omega
  split
  · next hfile => exact ⟨hway, hshort, hfile, hdir⟩
  · exact ⟨⟨hway.names, hway.above⟩, hshort, by rw [contains_put]; simp, hdir⟩

end Disk

end RelStore
