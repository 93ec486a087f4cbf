/-
Rows and their places.

* `TableContents.fieldsAt` — the row at a page and slot;
* `TableContents.mem_rowsFrom_iff` — the rows of some pages are those at their places;
* `TableContents.mem_accepted_iff` — so are those that are accepted;
* `TableContents.pairwise_rowsFrom` — they come by page and slot.
-/
import RelStore.Proofs.Query.LiveCursor
import RelStore.Proofs.Query.Sifting

namespace RelStore

open Page (Cells)
open HeapCursor (accepted)

variable {f : HeapFile} {schema : Schema} {accepts : List Field → Bool} {pages : TableContents} {n slot : Nat}
  {fields : List Field} {row : Row}

namespace TableContents

/-- The row at a place. -/
def fieldsAt (pages : TableContents) (n slot : Nat) : Option (List Field) :=
  match pages[n]? with
  | some (.ok cells) => cells[slot]?.join
  | _ => none

theorem fieldsAt_eq_some_iff :
    pages.fieldsAt n slot = some fields
      ↔ ∃ cells, pages[n]? = some (.ok cells) ∧ cells[slot]? = some (some fields) := by
  rw [fieldsAt]
  rcases pages[n]? with _ | e | cells
  · simp
  · simp
  · simp [Option.join_eq_some_iff]

/-- The rows of a page by slot. -/
theorem mem_pageRows_iff {page : PageId} {cells : Cells} :
    row ∈ pageRows schema page cells
      ↔ ∃ slot fields, cells[slot]? = some (some fields) ∧ row = ⟨schema, fields, some ⟨page, slot⟩⟩ := by
  simp only [pageRows, List.mem_filterMap, Prod.exists, List.mem_zipIdx_iff_getElem?, Option.map_eq_some_iff]
  constructor
  · rintro ⟨_, slot, hcell, fields, rfl, rfl⟩
    exact ⟨slot, fields, hcell, rfl⟩
  · rintro ⟨slot, fields, hcell, rfl⟩
    exact ⟨_, slot, hcell, fields, rfl, rfl⟩

/-- The rows of pages that can all be read, by page and slot. -/
theorem mem_rowsFrom_iff {table : TableId} (hreadable : ∀ page ∈ pages, Readable page) :
    row ∈ rowsFrom schema table n pages
      ↔ ∃ k slot fields, pages.fieldsAt k slot = some fields
        ∧ row = ⟨schema, fields, some ⟨⟨table, n + k⟩, slot⟩⟩ := by
  induction pages generalizing n with
  | nil => simp [rowsFrom, fieldsAt]
  | cons page pages ih =>
    obtain ⟨cells, rfl⟩ := hreadable page List.mem_cons_self
    have htail := ih (n := n + 1) fun page hpage => hreadable page (List.mem_cons_of_mem _ hpage)
    rw [rowsFrom, List.mem_append, mem_pageRows_iff, htail]
    constructor
    · rintro (⟨slot, fields, hcell, rfl⟩ | ⟨k, slot, fields, hcell, rfl⟩)
      · exact ⟨0, slot, fields, fieldsAt_eq_some_iff.mpr ⟨cells, rfl, hcell⟩, rfl⟩
      · exact ⟨k + 1, slot, fields, hcell, by rw [Nat.add_assoc, Nat.add_comm 1]⟩
    · rintro ⟨_ | k, slot, fields, hcell, rfl⟩
      · obtain ⟨_, ⟨⟩, hcell⟩ := fieldsAt_eq_some_iff.mp hcell
        exact .inl ⟨slot, fields, hcell, rfl⟩
      · exact .inr ⟨k, slot, fields, hcell, by rw [Nat.add_assoc, Nat.add_comm 1]⟩

/-- The rows of a page come by slot. -/
theorem pairwise_pageRows {page : PageId} {cells : Cells} : (pageRows schema page cells).Pairwise Row.Precedes := by
  have hslots : cells.zipIdx.Pairwise fun a b => a.2 < b.2 := by
    rw [← List.pairwise_map (f := Prod.snd), List.zipIdx_map_snd]
    exact List.pairwise_lt_range'
  refine List.pairwise_filterMap.mpr (hslots.imp ?_)
  rintro ⟨cell, i⟩ ⟨cell', i'⟩ hlt x hx y hy
  obtain ⟨_, -, rfl⟩ := Option.map_eq_some_iff.mp hx
  obtain ⟨_, -, rfl⟩ := Option.map_eq_some_iff.mp hy
  exact ⟨_, _, rfl, rfl, .inr ⟨rfl, hlt⟩⟩

/-- The rows of some pages come by page and slot. -/
theorem pairwise_rowsFrom {table : TableId} (hreadable : ∀ page ∈ pages, Readable page) :
    (rowsFrom schema table n pages).Pairwise Row.Precedes := by
  induction pages generalizing n with
  | nil => exact List.Pairwise.nil
  | cons page pages ih =>
    obtain ⟨cells, rfl⟩ := hreadable page List.mem_cons_self
    have hrest : ∀ page ∈ pages, Readable page := fun page hpage => hreadable page (List.mem_cons_of_mem _ hpage)
    refine List.pairwise_append.mpr ⟨pairwise_pageRows, ih hrest, fun x hx y hy => ?_⟩
    obtain ⟨slot, fields, -, rfl⟩ := mem_pageRows_iff.mp hx
    obtain ⟨k, slot', fields', -, rfl⟩ := (mem_rowsFrom_iff hrest).mp hy
    refine ⟨_, _, rfl, rfl, .inl ?_⟩
    show n < n + 1 + k
    omega

/-- The accepted rows of a table, by page and slot. -/
theorem mem_accepted_iff (husable : pages.Usable) :
    row ∈ accepted f schema accepts pages HeapCursor.first
      ↔ ∃ n slot fields, pages.fieldsAt n slot = some fields ∧ accepts fields = true
        ∧ row = ⟨schema, fields, some ⟨⟨f.id, n⟩, slot⟩⟩ := by
  rw [accepted, HeapCursor.left_first, List.mem_filter,
    mem_rowsFrom_iff fun page hpage => (husable.2 page hpage).1]
  constructor
  · rintro ⟨⟨k, slot, fields, hfields, rfl⟩, haccepts⟩
    exact ⟨k, slot, fields, hfields, haccepts, by rw [Nat.zero_add]⟩
  · rintro ⟨k, slot, fields, hfields, haccepts, rfl⟩
    exact ⟨⟨k, slot, fields, hfields, by rw [Nat.zero_add]⟩, haccepts⟩

end TableContents

end RelStore
