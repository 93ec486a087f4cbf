/-
Association tables: finite maps that keep their keys in the order of arrival.

* `Assoc.get?` — the value kept under a key;
* `Assoc.insert` — replaces the value in place, or adds the key at the end;
* `Assoc.erase` — removes a key;
* `Assoc.get?_insert`, `Assoc.get?_erase` — what the two changes do to a lookup;
* `Assoc.mem_keys_iff` — the keys are those that a lookup finds;
* `Assoc.mem_entries_iff` — so are the entries, if no key is listed twice.

Design notes.  Every table of the engine (files of a disk, tables of a catalog, cached pages, groups of
an aggregate) is one of these, so that facts about lookups are proved once.
-/

namespace RelStore

/-- A finite map as a list of its entries, oldest key first. -/
structure Assoc (κ ν : Type) where
  entries : List (κ × ν) := []
deriving DecidableEq, Repr

namespace Assoc

variable {κ ν : Type} [DecidableEq κ]

instance : Inhabited (Assoc κ ν) := ⟨⟨[]⟩⟩

/-- The table without entries. -/
def empty : Assoc κ ν := ⟨[]⟩

/-- The value kept under `k`. -/
def get? (m : Assoc κ ν) (k : κ) : Option ν :=
  (m.entries.find? (fun e => e.1 = k)).map (·.2)

/-- Whether a value is kept under `k`. -/
def contains (m : Assoc κ ν) (k : κ) : Bool :=
  (m.get? k).isSome

/-- The entries with the value under `k` replaced in place, or added at the end. -/
def insertEntry (k : κ) (v : ν) : List (κ × ν) → List (κ × ν)
  | [] => [(k, v)]
  | e :: rest => if e.1 = k then (k, v) :: rest else e :: insertEntry k v rest

/-- Keeps `v` under `k`: in the place of the value that was there, or at the end. -/
def insert (m : Assoc κ ν) (k : κ) (v : ν) : Assoc κ ν :=
  ⟨insertEntry k v m.entries⟩

/-- Forgets `k`. -/
def erase (m : Assoc κ ν) (k : κ) : Assoc κ ν :=
  ⟨m.entries.filter (fun e => !decide (e.1 = k))⟩

/-- The keys, oldest first. -/
def keys (m : Assoc κ ν) : List κ :=
  m.entries.map (·.1)

/-- The values, in the order of their keys. -/
def values (m : Assoc κ ν) : List ν :=
  m.entries.map (·.2)

@[simp] theorem get?_empty (k : κ) : (empty : Assoc κ ν).get? k = none := rfl

theorem find?_insertEntry (k k' : κ) (v : ν) (es : List (κ × ν)) :
    ((insertEntry k v es).find? (fun e => e.1 = k')).map (·.2)
      = if k = k' then some v else (es.find? (fun e => e.1 = k')).map (·.2) := by
  induction es with
  | nil => by_cases h : k = k' <;> simp [insertEntry, h]
  | cons e rest ih =>
    by_cases he : e.1 = k
    · by_cases h : k = k' <;> simp_all [insertEntry]
    · by_cases h : e.1 = k'
      · have : ¬ k = k' := fun hk => he (h.trans hk.symm)
        simp_all [insertEntry]
      · simp_all [insertEntry]

@[simp] theorem get?_insert (m : Assoc κ ν) (k k' : κ) (v : ν) :
    (m.insert k v).get? k' = if k = k' then some v else m.get? k' :=
  find?_insertEntry k k' v m.entries

@[simp] theorem get?_erase (m : Assoc κ ν) (k k' : κ) :
    (m.erase k).get? k' = if k = k' then none else m.get? k' := by
  obtain ⟨es⟩ := m
  simp only [get?, erase]
  induction es with
  | nil => simp
  | cons e rest ih =>
    by_cases he : e.1 = k <;> by_cases h : k = k' <;> by_cases h' : e.1 = k' <;>
      simp_all

theorem mem_keys_iff (m : Assoc κ ν) (k : κ) : k ∈ m.keys ↔ ∃ v, m.get? k = some v := by
  obtain ⟨es⟩ := m
  simp only [keys, get?]
  induction es with
  | nil => simp
  | cons e rest ih =>
    by_cases h : e.1 = k
    · simp [h]
    · simp only [List.map_cons, List.mem_cons, ih, List.find?_cons, h, decide_false]
      simp [Ne.symm h]

theorem map_insertEntry (k : κ) (v : ν) (es : List (κ × ν)) :
    (insertEntry k v es).map (·.1)
      = if k ∈ es.map (·.1) then es.map (·.1) else es.map (·.1) ++ [k] := by
  induction es with
  | nil => rfl
  | cons e rest ih =>
    by_cases h : e.1 = k
    · simp [insertEntry, h]
    · have hmem : k ∈ (e :: rest).map (·.1) ↔ k ∈ rest.map (·.1) := by
        simp only [List.map_cons, List.mem_cons, Ne.symm h, false_or]
      rw [insertEntry, if_neg h, List.map_cons, ih]
      by_cases hk : k ∈ rest.map (·.1)
      · rw [if_pos hk, if_pos (hmem.mpr hk), List.map_cons]
      · rw [if_neg hk, if_neg (hk ∘ hmem.mp), List.map_cons, List.cons_append]

/-- A key that is new is added at the end. -/
theorem keys_insert (m : Assoc κ ν) (k : κ) (v : ν) :
    (m.insert k v).keys = if k ∈ m.keys then m.keys else m.keys ++ [k] :=
  map_insertEntry k v m.entries

theorem keys_erase (m : Assoc κ ν) (k : κ) : (m.erase k).keys = m.keys.filter fun k' => !decide (k' = k) := by
  simp only [keys, erase, List.filter_map]
  rfl

/-- No key is listed twice, however the table came about. -/
theorem nodup_keys_insert {m : Assoc κ ν} (h : m.keys.Nodup) (k : κ) (v : ν) : (m.insert k v).keys.Nodup := by
  rw [keys_insert]
  split
  · exact h
  · next hk =>
    refine List.nodup_append.mpr ⟨h, List.pairwise_singleton _ k, fun a ha b hb hab => hk ?_⟩
    rw [← List.mem_singleton.mp hb, ← hab]
    exact ha

theorem nodup_keys_erase {m : Assoc κ ν} (h : m.keys.Nodup) (k : κ) : (m.erase k).keys.Nodup := by
  rw [keys_erase]
  exact h.filter _

/-- The entries are those that a lookup finds. -/
theorem mem_entries_iff {m : Assoc κ ν} (h : m.keys.Nodup) {k : κ} {v : ν} :
    (k, v) ∈ m.entries ↔ m.get? k = some v := by
  obtain ⟨es⟩ := m
  simp only [keys, get?] at h ⊢
  induction es with
  | nil => simp
  | cons e rest ih =>
    obtain ⟨hnew, hrest⟩ := List.nodup_cons.mp h
    by_cases he : e.1 = k
    · have hnot : (k, v) ∉ rest := fun hmem => hnew (List.mem_map.mpr ⟨_, hmem, he.symm⟩)
      simp [← he, Prod.ext_iff, eq_comm, he ▸ hnot]
    · simp [he, ih hrest, Prod.ext_iff, Ne.symm he]

end Assoc

end RelStore
