/-
Why storage fails.

Each error holds its cause; `StorageError.message` words it.

* `StorageError.mismatch` — the error for a schema that is not the expected one;
* `StorageError.mismatch_of_text` — it tells both schemas, if both have a text.

Design notes.  A mismatch tells both schemas by their texts.  A schema from a file may have too few names and
then has no text, so the mismatch is replaced by the reason why there is none.
-/
import RelStore.Disk

namespace RelStore

/-- What can go wrong with pages, files, tables and cursors. -/
inductive StorageError where
  | disk (cause : DiskError)
  | invalidPageReference (page : PageId)
  | schemaMismatch (expected found : String)
  /-- A schema does not have what was asked of it. -/
  | schema (cause : SchemaError)
  | pageFull (page : PageId)
  | notOnPage (record : RecordId) (page : PageId)
  | slotEmpty (page : PageId) (slot : Nat)
  | missingRecordId
  | corrupt (page : PageId)
  | pageTooSmall (pageSize rowSize : Nat)
  | emptyFile
  | noFreeBuffer
  | unknownTable (table : TableId)
  | notOpen
  | noMoreRows
  /-- The fuel of a search ran out before an answer; more fuel may find one. -/
  | outOfFuel
deriving DecidableEq, Repr, Inhabited

/-- The texts of two schemas, if both have one. -/
def schemaTexts (a b : Schema) : Except SchemaError (String × String) := do
  pure (← a.text, ← b.text)

/-- The text of a mismatch of two schemas. -/
def mismatchText (expected found : String) : String :=
  "tuple desc mismatch: expected " ++ expected ++ ", found " ++ found

/-- The error for a schema that is not the expected one. -/
def StorageError.mismatch (expected found : Schema) : StorageError :=
  match schemaTexts expected found with
  | .ok (e, f) => .schemaMismatch e f
  | .error cause => .schema cause

/-- A mismatch tells both schemas by their texts. -/
theorem StorageError.mismatch_of_text {a b : Schema} {e f : String} (ha : a.text = .ok e)
    (hb : b.text = .ok f) : mismatch a b = .schemaMismatch e f := by
  simp only [mismatch, schemaTexts, ha, hb]
  rfl

/-- The text of a storage error. -/
def StorageError.message : StorageError → String
  | disk cause => cause.name
  | invalidPageReference page => "page " ++ page.text ++ " is outside its heap file"
  | schemaMismatch expected found => mismatchText expected found
  | schema cause => cause.message
  | pageFull page => "page " ++ page.text ++ " has no empty slot"
  | notOnPage record page => "record " ++ record.text ++ " is not on page " ++ page.text
  | slotEmpty page slot =>
    "slot " ++ toString slot ++ " of page " ++ page.text ++ " is already empty"
  | missingRecordId => "tuple has no record id"
  | corrupt page => "page " ++ page.text ++ " is corrupt"
  | pageTooSmall pageSize rowSize =>
    s!"page size {pageSize} cannot hold a {rowSize}-byte tuple"
  | emptyFile => "heap file has no pages"
  | noFreeBuffer => "no free buffer available in buffer pool"
  | unknownTable table => "no table with id " ++ table.text
  | notOpen => "iterator is not open"
  | noMoreRows => "no more tuples"
  | outOfFuel => "the search ran out of fuel"

end RelStore
