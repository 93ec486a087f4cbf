/-
Operators that are put together and used while others use the cache.

* `Bench`, `Bench.Reached` — operators over one database: everything that can happen to them and to the cache, the
  catalog and the disk below them;
* `CursorCall.on_safe` — a call on an operator is answered as on one that checks more;
* `Bench.sound_of_reached` — operators stay well typed, and so do the cached pages;
* `Bench.answer_of_reached` — so every row that an operator hands out has its columns, no error tells of a schema, and
  projections find all the fields that they list;
* `Bench.not_fits_of_reached` — unless a table is registered again, with other types, over its cached pages.

Design notes.  An operator that went into another one stays on the bench as it was, so that it may be used on its own
too; this only adds to what can happen.  Tables are registered anew only while no operator uses them, but the cache goes
on serving the pages that it has, with the types that the table had then.  So what is cached must be `Matching`.
-/
import RelStore.Proofs.Query.Assembling
import RelStore.Proofs.Query.Cursor
import RelStore.Proofs.Query.Passes
import RelStore.Proofs.Query.Typing

namespace RelStore

open Database (Typed)
open Running (Keeps)

/-! ### A call on an operator -/

/-- A row that is handed out has the columns of the schema, and no failure tells of a schema. -/
def CursorAnswer.Fits (schema : Schema) : CursorAnswer → Prop
  | row x => x.Under schema
  | failed e => ¬ e.OfSchema
  | done | more _ => True

namespace CursorCall

variable {β : Type} {src chk : Source β} {P : Database → Prop} {schema : Schema} {I : β → Prop} {r : Running β}
  {db : Database}

theorem answered_safe {α : Type} {answer : α → CursorAnswer} {a a' : Step (Running β) α}
    {Q : α → Running β → Prop} (h : Action.Safe (¬ ·.OfSchema) P a a' r Q (Keeps (Row.Under schema) I)) (hdb : P db)
    (hQ : ∀ x r', Q x r' → (answer x).Fits schema ∧ r'.Keeps (Row.Under schema) I) :
    ∃ result r' db', answered answer a r db = (result, r', db') ∧ answered answer a' r db = (result, r', db') ∧ P db'
      ∧ result.Fits schema ∧ r'.Keeps (Row.Under schema) I := by
  obtain ⟨res, r', db', hout, hout', hdb', hres⟩ := h db hdb
  refine ⟨.of answer res, r', db', by rw [answered, hout]; rfl, by rw [answered, hout']; rfl, hdb', ?_⟩
  cases res with
  | ok x => exact hQ x r' hres
  | error e => exact hres

/-- Every call on a safe source is answered as when more is checked, and the answer fits. -/
theorem on_safe (h : src.Safe chk P (¬ ·.OfSchema) (Row.Under schema) I) (hr : r.Keeps (Row.Under schema) I)
    (hdb : P db) (call : CursorCall) :
    ∃ result r' db', call.on src r db = (result, r', db') ∧ call.on chk r db = (result, r', db') ∧ P db'
      ∧ result.Fits schema ∧ r'.Keeps (Row.Under schema) I := by
  cases call with
  | «open» => exact answered_safe (h.open hr) hdb fun _ _ hr' => ⟨trivial, hr'⟩
  | hasNext => exact answered_safe (h.hasNext hr) hdb fun _ _ hr' => ⟨trivial, hr'⟩
  | next => exact answered_safe (h.next hr) hdb fun _ _ hr' => hr'
  | rewind => exact answered_safe (h.rewind hr) hdb fun _ _ hr' => ⟨trivial, hr'⟩
  | close =>
    obtain ⟨heq, hr'⟩ := h.close hr
    exact ⟨.done, _, db, rfl, by rw [on, heq], hdb, trivial, hr'⟩

end CursorCall

/-! ### Operators at work -/

/-- Operators over one database, and the buffers of its cache that somebody holds. -/
structure Bench where
  pool : Pool
  operators : List Operator

namespace Bench

variable {bench : Bench} {o : Operator}

/-- An operator reads the table or stores rows in it. -/
def InUse (bench : Bench) (id : TableId) : Prop :=
  ∃ o ∈ bench.operators, id ∈ o.plan.uses

/-- The cached pages of registered tables have the types of the tables' columns. -/
def Matching (pool : Pool) : Prop :=
  ∀ page b f, pool.db.cache.buffer? page = some b → pool.db.catalog.file page.table = .ok f →
    b.page.schema.types = f.schema.types

/-- What operators and a database can have come to.  With `matching`, no table is registered over cached pages that have
other types. -/
inductive Reached (matching : Prop) : Bench → Prop
  /-- The cache is new and no table is registered.  There may be files. -/
  | start {db : Database} {n : Nat} (hcache : db.cache = PageCache.ofSize n) (hcatalog : db.catalog = Catalog.empty) :
    Reached matching ⟨⟨db, []⟩, []⟩
  /-- Somebody calls the cache, changes files, registers tables or forgets them, but not those in use. -/
  | session {bench : Bench} (h : Reached matching bench) {call : SessionCall} (hcall : call.Proper)
    (hkept : ∀ id, bench.InUse id →
      (Session.step bench.pool call).db.catalog.file id = bench.pool.db.catalog.file id)
    (hmatching : matching → Matching (Session.step bench.pool call)) :
    Reached matching ⟨Session.step bench.pool call, bench.operators⟩
  /-- A constructor makes an operator. -/
  | assemble {bench : Bench} (h : Reached matching bench) {o : Operator}
    (ho : o.Assembled bench.pool.db.catalog Plan.Conforming bench.operators) :
    Reached matching ⟨bench.pool, o :: bench.operators⟩
  /-- An operator is called. -/
  | use {bench : Bench} (h : Reached matching bench) {i : Nat} {o : Operator} (ho : bench.operators[i]? = some o)
    (call : CursorCall) (fuel : Nat) :
    Reached matching ⟨{ bench.pool with db := (call.run fuel o bench.pool.db).2.2 },
      bench.operators.set i (call.run fuel o bench.pool.db).2.1⟩
  /-- An operator is not used any more. -/
  | drop {bench : Bench} (h : Reached matching bench) (i : Nat) :
    Reached matching ⟨bench.pool, bench.operators.eraseIdx i⟩

/-- Tables stand under the ids of their files, cached pages have the types of their tables, and operators fit
together. -/
structure Sound (bench : Bench) : Prop where
  keyed : bench.pool.db.catalog.Keyed
  typed : Typed False bench.pool.db.catalog bench.pool.db
  operators : ∀ o ∈ bench.operators, o.Fits bench.pool.db.catalog Plan.Conforming Shape.typed

/-- A call on an operator keeps all that fits. -/
theorem Sound.run (h : bench.Sound) (ho : o ∈ bench.operators) (call : CursorCall) (fuel : Nat) :
    Typed False bench.pool.db.catalog (call.run fuel o bench.pool.db).2.2
      ∧ (call.run fuel o bench.pool.db).2.1.Fits bench.pool.db.catalog Plan.Conforming Shape.typed := by
  obtain ⟨hplan, hstate⟩ := h.operators o ho
  obtain ⟨result, r', db', hon, -, hdb', -, hr'⟩ := call.on_safe (hplan.safe_typed h.keyed fuel) hstate h.typed
  rw [CursorCall.run_eq_on, hon]
  exact ⟨hdb', hplan, hr'⟩

/-- Whatever happens, all fits, if tables are registered only over pages of their types. -/
theorem sound_of_reached (h : bench.Reached True) : bench.Sound := by
  induction h with
  | @start db n hcache hcatalog =>
    refine ⟨?_, Database.typed_ofSize hcache, nofun⟩
    show db.catalog.Keyed
    rw [hcatalog]
    exact Catalog.keyed_empty
  | session _ hcall hkept hmatching ih =>
    refine ⟨Session.keyed_step ih.keyed ih.typed hcall, Session.typed_step ih.typed hcall fun page b f hb hf => ?_,
      fun o ho => ⟨(ih.operators o ho).plan.congr fun id hid => hkept id ⟨o, ho, hid⟩, (ih.operators o ho).state⟩⟩
    exact ⟨hmatching trivial page b f hb hf, False.elim⟩
  | assemble _ ho ih =>
    exact ⟨ih.keyed, ih.typed, List.forall_mem_cons.mpr ⟨ho.fits ih.keyed ih.operators, ih.operators⟩⟩
  | use _ ho call fuel ih =>
    obtain ⟨htyped, hwell⟩ := ih.run (List.mem_of_getElem? ho) call fuel
    have hcatalog := htyped.catalog
    refine ⟨by rw [hcatalog]; exact ih.keyed, by rw [hcatalog]; exact htyped, fun o' ho' => ?_⟩
    show o'.Fits (CursorCall.run fuel _ _ call).2.2.catalog _ _
    rw [hcatalog]
    rcases List.mem_or_eq_of_mem_set ho' with ho' | rfl
    · exact ih.operators o' ho'
    · exact hwell
  | drop _ i ih => exact ⟨ih.keyed, ih.typed, fun o ho => ih.operators o (List.mem_of_mem_eraseIdx ho)⟩

/-- Calls of the cache leave tables alone. -/
theorem Reached.call (h : bench.Reached True) {call : PoolCall} (hcall : call.Proper) :
    Reached True ⟨bench.pool.step call, bench.operators⟩ := by
  have htyped := Session.typed_poolStep (sound_of_reached h).typed hcall
  have hkept : (Session.step bench.pool (.pool call)).db.catalog = bench.pool.db.catalog := htyped.catalog
  refine @Reached.session _ _ h (.pool call) hcall (fun id _ => by rw [hkept]) fun _ page b f hb hf => ?_
  rw [hkept] at hf
  exact (htyped.agrees hb hf).1

/-- Every row that an operator hands out has its columns, and no call on it fails for a schema.  It does the same when
every projection looks whether a row has all the fields that it lists. -/
theorem answer_of_reached (h : bench.Reached True) (ho : o ∈ bench.operators) (call : CursorCall) (fuel : Nat) :
    (call.run fuel o bench.pool.db).1.Fits o.schema
      ∧ call.on (o.plan.checkedSource fuel) o.state bench.pool.db
        = call.on (o.plan.source fuel) o.state bench.pool.db := by
  have hsound := sound_of_reached h
  obtain ⟨hplan, hstate⟩ := hsound.operators o ho
  obtain ⟨result, r', db', hon, hchecked, -, hfits, -⟩ :=
    call.on_safe (hplan.safe_typed hsound.keyed fuel) hstate hsound.typed
  rw [CursorCall.run_eq_on, hchecked, hon]
  exact ⟨hfits, rfl⟩

/-- One limit. -/
def oneLimit : Plan :=
  .values ⟨[.int], some [some "limit"]⟩ [⟨⟨[.int], none⟩, [.int 5], none⟩]

/-- Every digit with a limit that it is below. -/
def limitedDigits : Plan :=
  .join ⟨0, .less, 0⟩ ⟨[.int, .int], some [some "digits.null", some "limit"]⟩ allDigits oneLimit

/-- The limits of these. -/
def usedLimits : Plan :=
  .project [1] ⟨[.int], some [some "limit"]⟩ limitedDigits

/-- Stores them as digits. -/
def storedLimits : Plan :=
  .insert ⟨1⟩ digitsFile.id digitsFile.schema usedLimits

/-- Operators for all of this, over two digits of which one is below the limit. -/
def limitBench : Bench :=
  ⟨Pool.run [digit 1, digit 7] ⟨digits 4, []⟩,
    [storedLimits, usedLimits, limitedDigits, allDigits, oneLimit].map Operator.ofPlan⟩

theorem reached_limitBench : limitBench.Reached True := by
  have hstart : Reached True ⟨⟨Database.ofPoolSize 4, []⟩, []⟩ := .start rfl rfl
  have hdigits : Reached True ⟨⟨digits 4, []⟩, []⟩ := by
    refine @Reached.session _ _ hstart (.register digitsFile "digits" none) trivial (fun id hid => ?_)
      fun _ page b f hb => ?_
    · obtain ⟨o, ho, -⟩ := hid
      cases ho
    · cases (PageCache.buffer?_ofSize 4 page).symm.trans hb
  have hpool : Reached True ⟨Pool.run [digit 1, digit 7] ⟨digits 4, []⟩, []⟩ :=
    @Reached.call _ (@Reached.call _ hdigits (digit 1) rfl) (digit 7) rfl
  have hcatalog : (Pool.run [digit 1, digit 7] ⟨digits 4, []⟩).db.catalog = (digits 4).catalog := by
    decide +kernel
  have hlimit : ∀ row ∈ [(⟨⟨[.int], none⟩, [.int 5], none⟩ : Row)], row.Under ⟨[.int], some [some "limit"]⟩ :=
    List.forall_mem_singleton.mpr ⟨rfl, rfl⟩
  have hscan : Operator.scanNamed (Pool.run [digit 1, digit 7] ⟨digits 4, []⟩).db.catalog digitsFile.id
      = .ok (Operator.ofPlan allDigits) := by
    rw [hcatalog]
    rfl
  have hinsert : Operator.insert (Pool.run [digit 1, digit 7] ⟨digits 4, []⟩).db.catalog ⟨1⟩
      (Operator.ofPlan usedLimits) digitsFile.id = .ok (Operator.ofPlan storedLimits) := by
    rw [hcatalog]
    rfl
  have hleaves := (hpool.assemble (.values hlimit)).assemble (.scanNamed hscan)
  have hjoin : Operator.join ⟨0, .less, 0⟩ (Operator.ofPlan allDigits) (Operator.ofPlan oneLimit)
      = .ok (Operator.ofPlan limitedDigits) := rfl
  have hproject : Operator.project [1] (Operator.ofPlan limitedDigits) = .ok (Operator.ofPlan usedLimits) := rfl
  have hjoined := hleaves.assemble (.join List.mem_cons_self (List.mem_cons_of_mem _ List.mem_cons_self) hjoin)
  exact (hjoined.assemble (.project List.mem_cons_self hproject)).assemble (.insert List.mem_cons_self hinsert)

/-- The row that tells that a limit was stored fits, and the limits were found where they were looked for. -/
theorem answer_of_reached_limitBench :
    let (_, o, db) := CursorCall.open.run 9 (Operator.ofPlan storedLimits) limitBench.pool.db
    (CursorCall.next.run 9 o db).1 = .row ⟨countSchema, [.int 1], none⟩
      ∧ (CursorAnswer.row ⟨countSchema, [.int 1], none⟩).Fits o.schema
      ∧ CursorCall.next.on (o.plan.checkedSource 9) o.state db = CursorCall.next.on (o.plan.source 9) o.state db := by
  let opened := CursorCall.open.run 9 (Operator.ofPlan storedLimits) limitBench.pool.db
  have hanswer : (CursorCall.next.run 9 opened.2.1 opened.2.2).1 = .row ⟨countSchema, [.int 1], none⟩ := by
    decide +kernel
  have hreached := @Reached.use _ _ reached_limitBench 0 (Operator.ofPlan storedLimits) rfl .open 9
  have hmem : opened.2.1 ∈ limitBench.operators.set 0 opened.2.1 := List.mem_cons_self
  obtain ⟨hfits, hchecked⟩ := answer_of_reached hreached hmem .next 9
  refine ⟨hanswer, ?_, hchecked⟩
  rw [← hanswer]
  exact hfits

/-! ### A table that is registered again -/

/-- The file of the digits, for pairs of them. -/
def pairsFile : HeapFile :=
  { digitsFile with schema := ⟨[.int, .int], none⟩ }

/-- Stores a pair. -/
def storedPair : Plan :=
  .insert ⟨1⟩ pairsFile.id pairsFile.schema (.values pairsFile.schema [⟨pairsFile.schema, [.int 2, .int 3], none⟩])

/-- All pairs. -/
def allPairs : Plan :=
  .scan ⟨pairsFile.id, "digits", some "digits"⟩ pairsFile ⟨[.int, .int], some [some "digits.null", some "digits.null"]⟩

/-- The page of a digit is cached when its file is registered for pairs.  No operator was there then. -/
def staleBench : Bench :=
  ⟨Session.step (Pool.run [digit 1] ⟨digits 4, []⟩) (.register pairsFile "digits" none),
    [allPairs, storedPair, .values pairsFile.schema [⟨pairsFile.schema, [.int 2, .int 3], none⟩]].map Operator.ofPlan⟩

theorem reached_staleBench : staleBench.Reached False := by
  have hstart : Reached False ⟨⟨Database.ofPoolSize 4, []⟩, []⟩ := .start rfl rfl
  have hnone : ∀ {pool : Pool} {id : TableId}, ¬ Bench.InUse ⟨pool, []⟩ id := fun ⟨_, ho, _⟩ => nomatch ho
  have hdigits : Reached False ⟨⟨digits 4, []⟩, []⟩ :=
    @Reached.session _ _ hstart (.register digitsFile "digits" none) trivial (fun _ hid => (hnone hid).elim) False.elim
  have hpool : Reached False ⟨Pool.run [digit 1] ⟨digits 4, []⟩, []⟩ :=
    @Reached.session _ _ hdigits (.pool (digit 1)) rfl (fun _ hid => (hnone hid).elim) False.elim
  have hstale := @Reached.session _ _ hpool (.register pairsFile "digits" none) trivial
    (fun _ hid => (hnone hid).elim) False.elim
  have hrow : ∀ row ∈ [(⟨pairsFile.schema, [.int 2, .int 3], none⟩ : Row)], row.Under pairsFile.schema :=
    List.forall_mem_singleton.mpr ⟨rfl, rfl⟩
  have hcatalog : staleBench.pool.db.catalog = (digits 4).catalog.register pairsFile "digits" none := by decide +kernel
  have hinsert : Operator.insert staleBench.pool.db.catalog ⟨1⟩
      (Operator.values pairsFile.schema [⟨pairsFile.schema, [.int 2, .int 3], none⟩]) pairsFile.id
        = .ok (Operator.ofPlan storedPair) := by
    rw [hcatalog]
    rfl
  have hscan : Operator.scanNamed staleBench.pool.db.catalog pairsFile.id = .ok (Operator.ofPlan allPairs) := by
    rw [hcatalog]
    rfl
  exact ((hstale.assemble (.values hrow)).assemble (.insert List.mem_cons_self hinsert)).assemble (.scanNamed hscan)

/-- Over a page of other types a scan hands out a row with one field under two columns, and an insertion fails for a
schema. -/
theorem not_fits_of_reached :
    (∃ bench : Bench, bench.Reached False ∧ ∃ o ∈ bench.operators,
      (CursorCall.next.run 9 o bench.pool.db).1 = .row ⟨allPairs.schema, [.int 1], some ⟨⟨pairsFile.id, 0⟩, 0⟩⟩
        ∧ ¬ (CursorCall.next.run 9 o bench.pool.db).1.Fits o.schema)
    ∧ ∃ bench : Bench, bench.Reached False ∧ ∃ o ∈ bench.operators,
      (CursorCall.next.run 9 o bench.pool.db).1
          = .failed (.mutation .insert 0 (.mismatch digitsFile.schema pairsFile.schema))
        ∧ ¬ (CursorCall.next.run 9 o bench.pool.db).1.Fits o.schema := by
  let scan := CursorCall.open.run 9 (Operator.ofPlan allPairs) staleBench.pool.db
  let insert := CursorCall.open.run 9 (Operator.ofPlan storedPair) staleBench.pool.db
  have hrow : (CursorCall.next.run 9 scan.2.1 scan.2.2).1
      = .row ⟨allPairs.schema, [.int 1], some ⟨⟨pairsFile.id, 0⟩, 0⟩⟩ := by decide +kernel
  have herror : (CursorCall.next.run 9 insert.2.1 insert.2.2).1
      = .failed (.mutation .insert 0 (.mismatch digitsFile.schema pairsFile.schema)) := by decide +kernel
  refine ⟨⟨_, @Reached.use _ _ reached_staleBench 0 (Operator.ofPlan allPairs) rfl .open 9, scan.2.1,
      List.mem_cons_self, hrow, ?_⟩,
    ⟨_, @Reached.use _ _ reached_staleBench 1 (Operator.ofPlan storedPair) rfl .open 9, insert.2.1,
      List.mem_cons_of_mem _ List.mem_cons_self, herror, ?_⟩⟩
  · intro hfits
    rw [hrow] at hfits
    have hlength : 1 = allPairs.schema.arity := Row.Under.length_fields hfits
    cases hlength
  · intro hfits
    rw [herror] at hfits
    exact hfits trivial

end Bench

end RelStore
