/-
Which errors an operation can raise.

* `Fallible.Raises` — all errors of a computation are of one kind, and how that is put together (`Raises.bind` and its
  like);
* `StorageError.OfLoading` — the errors of someone who asks for a page (`Database.raises_loading`);
* `StorageError.OfSchema` — the errors that tell of a schema that does not fit;
* `Database.raises_getPage`, `Database.raises_roomFor`, `Database.raises_deleteRow` — whoever asks for a page, or for
  room for a row, or deletes a row, gets no such error.

Design notes.  Nothing is assumed of the database here.  Where an error of another kind is excluded as well, as by
`Database.Sound.getPage`, the reason lies in the database.
-/
import RelStore.Database

namespace RelStore

namespace Fallible

variable {ε σ α β : Type} {Ok : ε → Prop}

/-- Every error of a computation is of one kind, whatever the state. -/
def Raises (Ok : ε → Prop) (a : Fallible ε σ α) : Prop :=
  ∀ s e, (a.outcome s).1 = .error e → Ok e

theorem raises_pure (x : α) : Raises Ok (pure x : Fallible ε σ α) := by
  intro s e h
  cases h

theorem raises_throw {e : ε} (h : Ok e) : Raises Ok (throw e : Fallible ε σ α) := by
  intro s e' h'
  cases h'
  exact h

theorem raises_ofExcept {r : Except ε α} (h : ∀ e, r = .error e → Ok e) :
    Raises Ok (ofExcept r : Fallible ε σ α) :=
  fun _ => h

theorem raises_get : Raises Ok (get : Fallible ε σ σ) := by
  intro s e h
  cases h

theorem raises_set (s' : σ) : Raises Ok (set s' : Fallible ε σ PUnit) := by
  intro s e h
  cases h

theorem raises_modify (change : σ → σ) : Raises Ok (modify change : Fallible ε σ PUnit) := by
  intro s e h
  cases h

theorem Raises.mono {Ok' : ε → Prop} {a : Fallible ε σ α} (h : Raises Ok a) (hok : ∀ e, Ok e → Ok' e) : Raises Ok' a :=
  fun s e he => hok e (h s e he)

theorem Raises.bind {a : Fallible ε σ α} {f : α → Fallible ε σ β} (ha : Raises Ok a) (hf : ∀ x, Raises Ok (f x)) :
    Raises Ok (a >>= f) := by
  intro s e h
  rw [outcome_bind] at h
  cases hout : a.outcome s with
  | mk r s' =>
    rw [hout] at h
    cases r with
    | ok x => exact hf x s' e h
    | error e' =>
      obtain rfl : e' = e := Except.error.inj h
      exact ha s e' (by rw [hout])

theorem Raises.ite {p : Prop} [Decidable p] {a b : Fallible ε σ α} (ha : Raises Ok a) (hb : Raises Ok b) :
    Raises Ok (if p then a else b) := by
  split
  · exact ha
  · exact hb

/-- An error behind another computation is one of that, or of what goes on with its answer. -/
theorem error_of_follow {r : Except ε α × σ} {next : α → σ → Except ε β × σ} {e : ε}
    (h : (follow r next).1 = .error e) : r.1 = .error e ∨ ∃ x, r.1 = .ok x ∧ (next x r.2).1 = .error e := by
  obtain ⟨e' | x, s⟩ := r
  · obtain rfl : e' = e := Except.error.inj h
    exact .inl rfl
  · exact .inr ⟨x, rfl, h⟩

end Fallible

/-- The error of someone who asks for a page: it is not there, cannot be read, or finds no frame, for which another page
would have to be written. -/
def StorageError.OfLoading : StorageError → Prop
  | disk _ | invalidPageReference _ | corrupt _ | noFreeBuffer | unknownTable _ => True
  | _ => False

/-- The error tells of a schema that does not fit. -/
def StorageError.OfSchema : StorageError → Prop
  | schemaMismatch .. | schema _ => True
  | _ => False

theorem StorageError.OfLoading.not_ofSchema {e : StorageError} (h : e.OfLoading) : ¬ e.OfSchema := by
  cases e <;> first | exact h.elim | exact not_false

theorem Page.decode_error {id : PageId} {schema : Schema} {bytes : List UInt8} {e : StorageError}
    (h : Page.decode id schema bytes = .error e) : e.OfLoading := by
  unfold Page.decode at h
  dsimp only at h
  split at h
  · cases h
  · cases h
    exact trivial

theorem HeapFile.readPage_error {f : HeapFile} {d : Disk} {page : PageId} {e : StorageError}
    (h : f.readPage d page = .error e) : e.OfLoading := by
  unfold HeapFile.readPage at h
  split at h
  · cases h
  · dsimp only at h
    split at h
    · cases hdecode : Page.decode page f.schema (d.readAt f.path (f.pageSize * page.number) f.pageSize) with
      | ok p =>
        rw [hdecode] at h
        cases h
      | error e' =>
        rw [hdecode] at h
        cases h
        exact Page.decode_error hdecode
    · cases h
      exact trivial

namespace Database

open Fallible

theorem raises_tableFile (id : TableId) : Raises (·.OfLoading) (tableFile id) := by
  refine raises_get.bind fun db => raises_ofExcept fun e h => ?_
  unfold Catalog.file Catalog.table at h
  cases htable : db.catalog.tables.get? id with
  | some t =>
    rw [htable] at h
    cases h
  | none =>
    rw [htable] at h
    cases h
    exact trivial

theorem raises_writePage (f : HeapFile) (p : Page) : Raises (·.OfLoading) (writePage f p) := by
  refine raises_get.bind fun db => (raises_ofExcept fun e h => ?_).bind fun d => raises_modify _
  unfold HeapFile.writePage at h
  cases hwrite : db.disk.writeAt f.path (f.pageSize * p.id.number) p.bytes with
  | ok d =>
    rw [hwrite] at h
    cases h
  | error e' =>
    rw [hwrite] at h
    cases h
    exact trivial

theorem raises_writeBack (frame : Nat) : Raises (·.OfLoading) (writeBack frame) := by
  refine raises_get.bind fun db => ?_
  split
  · exact raises_pure _
  · refine Raises.ite ?_ (raises_pure _)
    exact (raises_tableFile _).bind fun f => (raises_writePage _ _).bind fun _ => raises_modify _

theorem raises_findFrame : Raises (·.OfLoading) findFrame := by
  refine raises_get.bind fun db => ?_
  refine (raises_modify _).bind fun _ => ?_
  split
  · exact raises_pure _
  · exact raises_throw trivial

theorem raises_loadPage (page : PageId) : Raises (·.OfLoading) (loadPage page) := by
  refine (raises_tableFile _).bind fun f => ?_
  have hread : Raises (·.OfLoading) (readPage f page) :=
    raises_get.bind fun db => raises_ofExcept fun e h => HeapFile.readPage_error h
  refine hread.bind fun found => ?_
  split
  · exact raises_throw trivial
  · refine raises_findFrame.bind fun frame => (raises_writeBack frame).bind fun _ => raises_get.bind fun db => ?_
    exact (raises_set _).bind fun _ => raises_pure _

/-- Whoever asks for a page gets an error of that kind. -/
theorem raises_loading (page : PageId) : Raises (·.OfLoading) (getPage page) := by
  refine raises_get.bind fun db => ?_
  split
  · exact (raises_set _).bind fun _ => raises_pure _
  · exact raises_loadPage page

/-- So it is none about a schema. -/
theorem raises_getPage (page : PageId) : Raises (¬ ·.OfSchema) (getPage page) :=
  (raises_loading page).mono fun _ => StorageError.OfLoading.not_ofSchema

theorem raises_findRoom (table : TableId) (first count : Nat) :
    Raises (¬ ·.OfSchema) (findRoom table first count) := by
  induction count generalizing first with
  | zero => exact raises_pure _
  | succ count ih => exact (raises_getPage _).bind fun b => Raises.ite (raises_pure _) (ih (first + 1))

/-- Nor does the search for room, or a new page. -/
theorem raises_roomFor (f : HeapFile) : Raises (¬ ·.OfSchema) (roomFor f) := by
  refine raises_get.bind fun db => (raises_findRoom _ _ _).bind fun found => ?_
  split
  · exact raises_pure _
  · refine (raises_ofExcept fun e h => (Page.decode_error h).not_ofSchema).bind fun p => ?_
    have hwrite := (raises_writePage f p).mono fun _ => StorageError.OfLoading.not_ofSchema
    exact hwrite.bind fun _ => raises_pure _

/-- A deletion does not look at schemas at all. -/
theorem raises_deleteRow (txn : TxnId) (row : Row) : Raises (¬ ·.OfSchema) (deleteRow txn row) := by
  unfold deleteRow
  split
  · exact raises_throw not_false
  · next record hrecord =>
    have htable := (raises_tableFile record.page.table).mono fun _ => StorageError.OfLoading.not_ofSchema
    refine htable.bind fun f => Raises.bind ?_ fun _ => raises_modify _
    unfold fileDelete
    rw [hrecord]
    refine raises_get.bind fun db => Raises.ite (raises_throw not_false) ((raises_getPage _).bind fun b => ?_)
    refine (raises_ofExcept fun e h => ?_).bind fun p => (raises_modify _).bind fun _ => raises_pure _
    simp only [Page.delete, hrecord] at h
    split at h
    · cases h
      exact not_false
    · split at h <;> cases h
      exact not_false

end Database

end RelStore
