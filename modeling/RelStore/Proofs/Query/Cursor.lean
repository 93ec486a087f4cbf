/-
An operator in use answers like a cursor over a list.

* `CursorCall.run`, `runCursor` — the calls of the protocol on an operator;
* `CursorCall.on` — the same calls on an operator over any source (`CursorCall.run_eq_on`);
* `CursorCall.onList`, `listCursor` — the same calls on a list of rows and a place in it;
* `CursorCall.run_eq_onList` — one call keeps the two together;
* `runCursor_eq_listCursor_of_follows` — and so do all calls;
* `Plan.runCursor_eq_listCursor` — so every tree of reading operators answers like a cursor over the rows that a
  copy of it hands out.

Design notes.  A list cursor is closed or has some rows left.  It never says more about an operator than that, so
whatever an operator keeps between two calls must be forgotten or rebuilt where the list cursor starts over.
-/
import RelStore.Proofs.Query.Meaning

namespace RelStore

open RelStore.Action (Gives)
open Running (IsShut IsLive Stands)
open Database (Reached Steady)

/-- A call of the protocol. -/
inductive CursorCall where
  | open
  | hasNext
  | next
  | rewind
  | close
deriving DecidableEq, Repr

/-- An answer of the protocol. -/
inductive CursorAnswer where
  | done
  | more (more : Bool)
  | row (row : Row)
  | failed (e : ExecError)
deriving DecidableEq, Repr

/-- What a step answered. -/
def CursorAnswer.of {α : Type} (answer : α → CursorAnswer) : Except ExecError α → CursorAnswer
  | .ok x => answer x
  | .error e => failed e

namespace CursorCall

/-- A call on an operator. -/
def run (fuel : Nat) (o : Operator) (db : Database) : CursorCall → CursorAnswer × Operator × Database
  | .open => ((o.open fuel db).map (.of fun _ => .done) id)
  | hasNext => ((o.hasNext fuel db).map (.of .more) id)
  | next => ((o.next fuel db).map (.of .row) id)
  | rewind => ((o.rewind fuel db).map (.of fun _ => .done) id)
  | close => (.done, o.close fuel, db)

section Source

variable {β : Type}

/-- What a step of a source answers. -/
def answered {α : Type} (answer : α → CursorAnswer) (a : Step (Running β) α) (r : Running β) (db : Database) :
    CursorAnswer × Running β × Database :=
  ((a.outcome (r, db)).map (.of answer) id)

/-- A call on an operator over a source. -/
def on (src : Source β) (r : Running β) (db : Database) : CursorCall → CursorAnswer × Running β × Database
  | .open => answered (fun _ => .done) src.open r db
  | hasNext => answered .more src.hasNext r db
  | next => answered .row src.next r db
  | rewind => answered (fun _ => .done) src.rewind r db
  | close => (.done, src.close r, db)

end Source

/-- A call on an operator is a call on its plan's source. -/
theorem run_eq_on (fuel : Nat) (o : Operator) (db : Database) (call : CursorCall) :
    call.run fuel o db = (call.on (o.plan.source fuel) o.state db).map id (·.map (Operator.mk o.plan) id) := by
  cases call <;> rfl

/-- A call on a cursor over the rows `xs`. The cursor is closed, or has some rows left. -/
def onList (xs : List Row) : CursorCall → Option (List Row) → CursorAnswer × Option (List Row)
  | .open, _ => (.done, some xs)
  | close, _ => (.done, none)
  | hasNext, some rest => (.more (!rest.isEmpty), some rest)
  | next, some (x :: rest) => (.row x, some rest)
  | next, some [] => (.failed .noMoreRows, some [])
  | rewind, some _ => (.done, some xs)
  | hasNext, none | next, none | rewind, none => (.failed .notOpen, none)

end CursorCall

/-- The answers of some calls on an operator. -/
def runCursor (fuel : Nat) : List CursorCall → Operator → Database → List CursorAnswer
  | [], _, _ => []
  | call :: calls, o, db =>
    let (answer, o, db) := call.run fuel o db
    answer :: runCursor fuel calls o db

/-- The answers of some calls on a cursor over the rows `xs`. -/
def listCursor (xs : List Row) : List CursorCall → Option (List Row) → List CursorAnswer
  | [], _ => []
  | call :: calls, place =>
    let (answer, place) := call.onList xs place
    answer :: listCursor xs calls place

variable {P : Database → Prop} {p : Plan} {Shut Live : p.Body → Prop} {At : List Row → p.Body → Prop}
  {xs : List Row} {fuel : Nat} {db : Database} {r : Running p.Body}

/-- The operator is closed, or has the given rows still to hand out. -/
def Running.Matches {β : Type} (Shut : β → Prop) (At : List Row → β → Prop) (r : Running β) :
    Option (List Row) → Prop
  | none => IsShut Shut r
  | some rest => Stands At rest r

/-! ### Closed operators -/

namespace Source

variable {β : Type} {src : Source β} {Shut : β → Prop} {r : Running β}

theorem gives_hasNext_of_closed (h : IsShut Shut r) :
    Gives P src.hasNext r (.error .notOpen) (IsShut Shut) := by
  intro db hdb
  rw [outcome_hasNext, h.1]
  exact ⟨r, db, rfl, hdb, h⟩

theorem gives_next_of_closed (h : IsShut Shut r) : Gives P src.next r (.error .notOpen) (IsShut Shut) := by
  intro db hdb
  rw [outcome_next, outcome_hasNext, h.1]
  exact ⟨r, db, rfl, hdb, h⟩

theorem gives_rewind_of_closed (h : IsShut Shut r) :
    Gives P src.rewind r (.error .notOpen) (IsShut Shut) := by
  intro db hdb
  rw [outcome_rewind, h.1]
  exact ⟨r, db, rfl, hdb, h⟩

end Source

namespace CursorCall

/-- What a step of the source answers, the call answers. -/
theorem exists_run_eq {α : Type} {a : Step (Running p.Body) α} {res : Except ExecError α} {Q : Running p.Body → Prop}
    {answer : α → CursorAnswer} (h : Gives P a r res Q) (hdb : P db) :
    ∃ r' db', (let (x, s, db) := a.outcome (r, db); (CursorAnswer.of answer x, (⟨p, s⟩ : Operator), db))
      = (CursorAnswer.of answer res, ⟨p, r'⟩, db') ∧ P db' ∧ Q r' := by
  obtain ⟨r', db', hout, hdb', hr'⟩ := h db hdb
  exact ⟨r', db', by rw [hout], hdb', hr'⟩

/-- One call answers as on the list, and operator and list stay together. -/
theorem run_eq_onList (h : (p.source fuel).Follows P Shut Live At xs none) (call : CursorCall)
    {place : Option (List Row)} (hr : r.Matches Shut At place) (hdb : P db) :
    ∃ r' db', call.run fuel ⟨p, r⟩ db = ((call.onList xs place).1, ⟨p, r'⟩, db') ∧ P db'
      ∧ r'.Matches Shut At (call.onList xs place).2 := by
  have hopens : Running.Opens Shut Live r := by
    cases place with
    | none => exact .inl hr
    | some rest => exact .inr (h.isLive hr)
  cases call with
  | «open» => exact exists_run_eq (h.open hopens) hdb
  | close => exact ⟨_, db, rfl, hdb, h.close hopens⟩
  | hasNext =>
    cases place with
    | none => exact exists_run_eq (Source.gives_hasNext_of_closed hr) hdb
    | some rest =>
      cases rest with
      | nil => exact exists_run_eq (h.hasNext_nil hr) hdb
      | cons x rest => exact exists_run_eq (h.hasNext_stands hr) hdb
  | next =>
    cases place with
    | none => exact exists_run_eq (Source.gives_next_of_closed hr) hdb
    | some rest =>
      cases rest with
      | nil => exact exists_run_eq (h.next_nil rfl hr) hdb
      | cons x rest => exact exists_run_eq (h.next_cons hr) hdb
  | rewind =>
    cases place with
    | none => exact exists_run_eq (Source.gives_rewind_of_closed hr) hdb
    | some rest => exact exists_run_eq (h.rewind (h.isLive hr)) hdb

end CursorCall

/-- A source that hands out `xs` answers all calls like a cursor over `xs`. -/
theorem runCursor_eq_listCursor_of_follows (h : (p.source fuel).Follows P Shut Live At xs none)
    (calls : List CursorCall) {place : Option (List Row)} (hr : r.Matches Shut At place) (hdb : P db) :
    runCursor fuel calls ⟨p, r⟩ db = listCursor xs calls place := by
  -- operator and list go on together, one call at a time
  induction calls generalizing r place db with
  | nil => rfl
  | cons call calls ih =>
    obtain ⟨r', db', hcall, hdb', hr'⟩ := call.run_eq_onList h hr hdb
    rw [runCursor, listCursor, hcall]
    exact congrArg _ (ih hr' hdb')

namespace Plan

/-- A tree of reading operators, a copy of which hands out the rows `xs`, answers every sequence of calls like a
cursor over `xs`, be it called before the copy or after it. -/
theorem runCursor_eq_listCursor (hdb : db.Reached) (hp : p.Reads db.catalog)
    (hfits : ∀ id ∈ p.tables, ∀ page ∈ db.store id, Fits page) :
    ∃ n, ∀ fuel, n ≤ fuel → ∀ xs, (p.readAll fuel db).1 = .ok xs →
      ∀ start ∈ [db, (p.readAll fuel db).2], ∀ calls,
        runCursor fuel calls (Operator.ofPlan p) start = listCursor xs calls none := by
  have hsteady := hdb.ready.steady
  rcases hp.settled hfits with ⟨e, hrefuses⟩ | ⟨xs, err, hyields⟩
  · obtain ⟨n, hn⟩ := hrefuses.readAll
    refine ⟨n, fun fuel hfuel xs hxs => ?_⟩
    obtain ⟨db', hread, -⟩ := hn fuel hfuel db hsteady
    rw [hread] at hxs
    cases hxs
  · obtain ⟨n, hn⟩ := hyields.readAll
    obtain ⟨m, hm⟩ := hyields
    refine ⟨max n m, fun fuel hfuel xs' hxs start hstart calls => ?_⟩
    obtain ⟨db', hread, hdb'⟩ := hn fuel (by omega) db hsteady
    obtain ⟨Shut, Live, At, hfollows, hfresh⟩ := hm fuel (by omega)
    rw [hread] at hxs hstart
    cases err with
    | some e => cases hxs
    | none =>
      cases hxs
      have hclosed : (Running.closed p.fresh).Matches Shut At none := ⟨rfl, hfresh⟩
      simp only [List.mem_cons, List.not_mem_nil, or_false] at hstart
      rcases hstart with rfl | rfl
      · exact runCursor_eq_listCursor_of_follows hfollows calls hclosed hsteady
      · exact runCursor_eq_listCursor_of_follows hfollows calls hclosed hdb'

/-- The number of pairs of notes. -/
def countPairs : Plan :=
  .aggregate ⟨.str, none, 0, .count⟩ ⟨[.int], some [some "count(notes.null)"]⟩ notePairs

/-- A count, asked for again and again. -/
theorem runCursor_eq_listCursor_notes :
    ∃ n, ∀ fuel, n ≤ fuel →
      runCursor fuel [.next, .open, .hasNext, .hasNext, .next, .next, .hasNext, .open, .next, .rewind, .next, .close,
          .rewind] (Operator.ofPlan countPairs) (runCalls storeTwo (CacheCall.notes 1)).2
        = [.failed .notOpen, .done, .more true, .more true, .row ⟨countPairs.schema, [.int 2], none⟩,
            .failed .noMoreRows, .more false, .done, .row ⟨countPairs.schema, [.int 2], none⟩, .done,
            .row ⟨countPairs.schema, [.int 2], none⟩, .done, .failed .notOpen] := by
  have hready := storeTwo_reached.ready
  have hreads : countPairs.Reads (runCalls storeTwo (CacheCall.notes 1)).2.catalog :=
    ⟨rfl, notePairs_built.reads hready.sound.proper⟩
  have hchild := notePairs_built.yields hready.sound.proper hready.typed notePairs_usable
  rw [notePairs_meaning] at hchild
  have hgroups : AggregateSpec.absorbed ⟨.str, none, 0, .count⟩ none {} twoPairs = .ok _ := rfl
  have hyields : countPairs.Yields (Steady _ _) _ _ := hchild.aggregate hgroups
  obtain ⟨m, hm⟩ := hyields.readAll
  obtain ⟨n, hn⟩ := runCursor_eq_listCursor storeTwo_reached hreads
    fun id hid page hpage => ((notePairs_usable id hid).2 page hpage).2
  refine ⟨max m n, fun fuel hfuel => ?_⟩
  obtain ⟨db', hread, -⟩ := hm fuel (by omega) _ hready.steady
  have hxs : (countPairs.readAll fuel (runCalls storeTwo (CacheCall.notes 1)).2).1
      = .ok [⟨countPairs.schema, [.int 2], none⟩] := congrArg Prod.fst hread
  rw [hn fuel (by omega) _ hxs _ List.mem_cons_self]
  rfl

end Plan

end RelStore
