/-
Steps that do the same when more is checked.

* `ExecError.OfSchema` — the errors that tell of a row or a schema that does not fit;
* `Row.Under` — a row has the columns of a schema;
* `Action.Safe` — two steps do the same, with certain errors only; how such steps are put together (`Safe.bind`,
  `Safe.on` and their like);
* `Source.Safe` — two sources do the same, and all that they hand out is as it should be;
* `Source.Safe.open`, `Source.Safe.hasNext`, `Source.Safe.next`, `Source.Safe.rewind` — so do the operators around them;
* `Source.Safe.take` — and whoever asks them for a row.

Design notes.  A step is compared with one that checks more, so that what is never checked by an operator can be stated:
that the check would never fail.  With the same step on both sides `Action.Safe` says what comes of a single one.  What a
row should be, and which errors there may be, is left open: errors that tell of no schema are always among them.
-/
import RelStore.Proofs.Query.Meaning
import RelStore.Proofs.Store.Errors

namespace RelStore

open Fallible (follow)

/-- The error tells of a schema, or of a row, that does not fit; storage may have told so first. -/
def ExecError.OfSchema : ExecError → Prop
  | schemaMismatch .. | schema _ => True
  | storage cause | mutation _ _ cause => cause.OfSchema
  | _ => False

/-- The row has the columns of a schema, as many fields as these, and every field has its type. -/
structure Row.Under (schema : Schema) (row : Row) : Prop where
  agrees : row.schema.types = schema.types
  conforms : row.Conforms schema

theorem Row.Under.length_fields {schema : Schema} {row : Row} (h : row.Under schema) :
    row.fields.length = schema.arity := by
  rw [Schema.arity, ← h.conforms, List.length_map]

/-- A row that may be missing is a row, and it is this one. -/
theorem Row.forall_mem_some {R : Row → Prop} {row : Row} (h : R row) : ∀ x ∈ some row, R x := by
  intro x hx
  obtain rfl := Option.mem_some_iff.mp hx
  exact h

namespace Action

variable {ε ε' σ τ α β : Type} {Ok : ε → Prop} {P : Database → Prop} {a a' : Action ε σ α} {f f' : α → Action ε σ β}
  {s : σ} {Q : α → σ → Prop} {R : β → σ → Prop} {I J : σ → Prop}

/-- What is known of an outcome: of an answer `Q`, together with the state; of an error `Ok`, and of its state `I`. -/
def Result (Ok : ε → Prop) (Q : α → σ → Prop) (I : σ → Prop) : Except ε α → σ → Prop
  | .ok x, s => Q x s
  | .error e, s => Ok e ∧ I s

/-- From state `s` and any database with `P`, both steps do the same.  What comes of it is a `Result`, and a database
with `P`. -/
def Safe (Ok : ε → Prop) (P : Database → Prop) (a a' : Action ε σ α) (s : σ) (Q : α → σ → Prop) (I : σ → Prop) : Prop :=
  ∀ db, P db → ∃ r s' db', a.outcome (s, db) = (r, s', db') ∧ a'.outcome (s, db) = (r, s', db') ∧ P db'
    ∧ Result Ok Q I r s'

theorem Safe.mono {Q' : α → σ → Prop} (h : Safe Ok P a a' s Q I) (hQ : ∀ x s', Q x s' → Q' x s')
    (hI : ∀ s', I s' → J s') : Safe Ok P a a' s Q' J := by
  intro db hdb
  obtain ⟨r, s', db', hout, hout', hdb', hr⟩ := h db hdb
  refine ⟨r, s', db', hout, hout', hdb', ?_⟩
  cases r with
  | ok x => exact hQ x s' hr
  | error e => exact ⟨hr.1, hI s' hr.2⟩

/-- What is known of a step without the one that checks more. -/
theorem Safe.self (h : Safe Ok P a a' s Q I) : Safe Ok P a a s Q I := by
  intro db hdb
  obtain ⟨r, s', db', hout, -, hdb', hr⟩ := h db hdb
  exact ⟨r, s', db', hout, hout, hdb', hr⟩

theorem Safe.bind (ha : Safe Ok P a a' s Q I) (hf : ∀ x s', Q x s' → Safe Ok P (f x) (f' x) s' R I) :
    Safe Ok P (a >>= f) (a' >>= f') s R I := by
  intro db hdb
  obtain ⟨r, s', db', hout, hout', hdb', hr⟩ := ha db hdb
  rw [Fallible.outcome_bind, Fallible.outcome_bind, hout, hout']
  cases r with
  | ok x => exact hf x s' hr db' hdb'
  | error e => exact ⟨.error e, s', db', rfl, rfl, hdb', hr⟩

theorem safe_pure {x : α} (h : Q x s) : Safe Ok P (pure x : Action ε σ α) (pure x) s Q I :=
  fun db hdb => ⟨.ok x, s, db, rfl, rfl, hdb, h⟩

theorem safe_throw {e : ε} (he : Ok e) (hs : I s) :
    Safe Ok P (throw e : Action ε σ α) (throw e) s Q I :=
  fun db hdb => ⟨.error e, s, db, rfl, rfl, hdb, he, hs⟩

theorem safe_ofExcept {r : Except ε α} (h : Result Ok Q I r s) :
    Safe Ok P (Fallible.ofExcept r : Action ε σ α) (Fallible.ofExcept r) s Q I :=
  fun db hdb => ⟨r, s, db, rfl, rfl, hdb, h⟩

theorem safe_state : Safe Ok P (state : Action ε σ σ) state s (fun x s' => x = s ∧ s' = s) I :=
  fun db hdb => ⟨.ok s, s, db, rfl, rfl, hdb, rfl, rfl⟩

theorem safe_database : Safe Ok P (database : Action ε σ Database) database s (fun db s' => P db ∧ s' = s) I :=
  fun db hdb => ⟨.ok db, s, db, rfl, rfl, hdb, hdb, rfl⟩

theorem safe_update {change : σ → σ} {Q : Unit → σ → Prop} (h : Q () (change s)) :
    Safe Ok P (update change : Action ε σ Unit) (update change) s Q I :=
  fun db hdb => ⟨.ok (), change s, db, rfl, rfl, hdb, h⟩

/-- Steps on a part of the state. -/
theorem Safe.on {part : σ → τ} {put : σ → τ → σ} {a a' : Action ε τ α} {T : α → τ → Prop} {K : τ → Prop}
    (h : Safe Ok P a a' (part s) T K) (hT : ∀ x t, T x t → Q x (put s t)) (hK : ∀ t, K t → I (put s t)) :
    Safe Ok P (on part put a) (on part put a') s Q I := by
  intro db hdb
  obtain ⟨r, t, db', hout, hout', hdb', hr⟩ := h db hdb
  refine ⟨r, put s t, db', by rw [outcome_on, hout], by rw [outcome_on, hout'], hdb', ?_⟩
  cases r with
  | ok x => exact hT x t hr
  | error e => exact ⟨hr.1, hK t hr.2⟩

/-- Steps with another kind of error. -/
theorem Safe.wrapError {Ok' : ε' → Prop} {wrap : ε → ε'} (h : Safe Ok P a a' s Q I) (hwrap : ∀ e, Ok e → Ok' (wrap e)) :
    Safe Ok' P (a.wrapError wrap) (a'.wrapError wrap) s Q I := by
  intro db hdb
  obtain ⟨r, s', db', hout, hout', hdb', hr⟩ := h db hdb
  refine ⟨r.mapError wrap, s', db', by rw [outcome_wrapError, hout], by rw [outcome_wrapError, hout'], hdb', ?_⟩
  cases r with
  | ok x => exact hr
  | error e => exact ⟨hwrap e hr.1, hr.2⟩

/-- What is known of an operation on the database. -/
theorem safe_ofDb {wrap : ε → ε'} {op : DbM ε α} {Ok' : ε' → Prop}
    (h : ∀ db, P db → P (op.outcome db).2 ∧ Result (Ok' ∘ wrap) (fun x _ => Q x s) (fun _ => I s) (op.outcome db).1 s) :
    Safe Ok' P (ofDb wrap op : Action ε' σ α) (ofDb wrap op) s Q I := by
  intro db hdb
  obtain ⟨hdb', hr⟩ := h db hdb
  refine ⟨_, s, _, outcome_ofDb wrap op (s, db), outcome_ofDb wrap op (s, db), hdb', ?_⟩
  generalize (op.outcome db).1 = r at hr ⊢
  cases r with
  | ok x => exact hr
  | error e => exact hr

/-- An operation whose error is an answer. -/
theorem safe_attempt {op : DbM ε α} {Ok' : ε' → Prop} {Q : Except ε α → σ → Prop}
    (h : ∀ db, P db → P (op.outcome db).2 ∧ Q (op.outcome db).1 s) :
    Safe Ok' P (attempt op : Action ε' σ (Except ε α)) (attempt op) s Q I :=
  fun db hdb => ⟨_, s, _, outcome_attempt op (s, db), outcome_attempt op (s, db), (h db hdb).1, (h db hdb).2⟩

end Action

open RelStore.Action (Result)

namespace Running

/-- The row that was fetched ahead, if there is one, is as it should be, and so is the state. -/
structure Keeps {β : Type} (R : Row → Prop) (I : β → Prop) (r : Running β) : Prop where
  ahead : ∀ row ∈ r.ahead, R row
  body : I r.body

theorem keeps_closed {β : Type} {R : Row → Prop} {I : β → Prop} {b : β} (h : I b) : (closed b).Keeps R I :=
  ⟨nofun, h⟩

end Running

namespace Source

open Running (Keeps)

variable {β σ α : Type} {src chk : Source β} {P : Database → Prop} {Ok : ExecError → Prop} {R : Row → Prop}
  {I : β → Prop} {r : Running β}

/-- Both sources do the same, from every state with `I`.  They come back to such a state, also when they fail; what they
hand out has `R`, and their errors have `Ok`, like all errors that tell of no schema. -/
structure Safe (src chk : Source β) (P : Database → Prop) (Ok : ExecError → Prop) (R : Row → Prop) (I : β → Prop) :
    Prop where
  lenient : ∀ e, ¬ e.OfSchema → Ok e
  start : ∀ {b}, I b → Action.Safe Ok P src.openBody chk.openBody b (fun _ => I) I
  again : ∀ {b}, I b → Action.Safe Ok P src.rewindBody chk.rewindBody b (fun _ => I) I
  shut : ∀ {b}, I b → chk.closeBody b = src.closeBody b ∧ I (src.closeBody b)
  row : ∀ {b}, I b → Action.Safe Ok P src.fetch chk.fetch b (fun row? b => (∀ row ∈ row?, R row) ∧ I b) I

namespace Safe

variable (h : src.Safe chk P Ok R I)

include h

theorem self : src.Safe src P Ok R I :=
  ⟨h.lenient, fun hb => (h.start hb).self, fun hb => (h.again hb).self, fun hb => ⟨rfl, (h.shut hb).2⟩,
    fun hb => (h.row hb).self⟩

theorem close (hr : r.Keeps R I) : chk.close r = src.close r ∧ (src.close r).Keeps R I := by
  obtain ⟨heq, hshut⟩ := h.shut hr.body
  exact ⟨by rw [Source.close, Source.close, heq], nofun, hshut⟩

theorem «open» (hr : r.Keeps R I) : Action.Safe Ok P src.open chk.open r (fun _ => Keeps R I) (Keeps R I) := by
  intro db hdb
  obtain ⟨hclose, hclosed⟩ := h.close hr
  -- an open operator is closed first
  have hkeeps : (if r.opened then src.close r else r).Keeps R I := by
    split
    · exact hclosed
    · exact hr
  obtain ⟨res, b, db', hout, hout', hdb', hres⟩ := h.start hkeeps.body db hdb
  rw [outcome_open, outcome_open, outcome_inBody, outcome_inBody, hclose, hout, hout']
  cases res with
  | ok u => exact ⟨_, _, db', rfl, rfl, hdb', nofun, hres⟩
  | error e => exact ⟨_, _, db', rfl, rfl, hdb', hres.1, hkeeps.ahead, hres.2⟩

theorem rewind (hr : r.Keeps R I) :
    Action.Safe Ok P src.rewind chk.rewind r (fun _ => Keeps R I) (Keeps R I) := by
  intro db hdb
  rw [outcome_rewind, outcome_rewind]
  split
  · obtain ⟨res, b, db', hout, hout', hdb', hres⟩ := h.again hr.body db hdb
    rw [outcome_inBody, outcome_inBody, hout, hout']
    cases res with
    | ok u => exact ⟨_, _, db', rfl, rfl, hdb', nofun, hres⟩
    | error e => exact ⟨_, _, db', rfl, rfl, hdb', hres.1, hr.ahead, hres.2⟩
  · exact ⟨_, _, db, rfl, rfl, hdb, h.lenient _ not_false, hr⟩

theorem hasNext (hr : r.Keeps R I) :
    Action.Safe Ok P src.hasNext chk.hasNext r (fun _ => Keeps R I) (Keeps R I) := by
  intro db hdb
  rw [outcome_hasNext, outcome_hasNext]
  split
  · cases hahead : r.ahead with
    | some row => exact ⟨_, _, db, rfl, rfl, hdb, hr⟩
    | none =>
      obtain ⟨res, b, db', hout, hout', hdb', hres⟩ := h.row hr.body db hdb
      rw [outcome_inBody, outcome_inBody, hout, hout']
      cases res with
      | ok row? => exact ⟨_, _, db', rfl, rfl, hdb', hres.1, hres.2⟩
      | error e => exact ⟨_, _, db', rfl, rfl, hdb', hres.1, hr.ahead, hres.2⟩
  · exact ⟨_, _, db, rfl, rfl, hdb, h.lenient _ not_false, hr⟩

theorem next (hr : r.Keeps R I) :
    Action.Safe Ok P src.next chk.next r (fun row r => R row ∧ r.Keeps R I) (Keeps R I) := by
  intro db hdb
  obtain ⟨res, r', db', hout, hout', hdb', hres⟩ := h.hasNext hr db hdb
  rw [outcome_next, outcome_next, hout, hout']
  cases res with
  | error e => exact ⟨_, r', db', rfl, rfl, hdb', hres⟩
  | ok more =>
    rw [Fallible.follow_ok]
    split
    · next row hahead =>
      exact ⟨_, _, db', rfl, rfl, hdb', hres.ahead row hahead, nofun, hres.body⟩
    · exact ⟨_, _, db', rfl, rfl, hdb', h.lenient _ not_false, hres⟩

/-- An operator that asks for a row. -/
theorem take {f f' : Row → Step (Running β) α} {g g' : Step (Running β) α} {Q : α → Running β → Prop}
    {J : Running β → Prop} (hr : r.Keeps R I) (hJ : ∀ r, r.Keeps R I → J r)
    (hf : ∀ row r', R row → r'.Keeps R I → Action.Safe Ok P (f row) (f' row) r' Q J)
    (hg : ∀ r', r'.Keeps R I → Action.Safe Ok P g g' r' Q J) :
    Action.Safe Ok P (do if ← src.hasNext then let row ← src.next; f row else g)
      (do if ← chk.hasNext then let row ← chk.next; f' row else g') r Q J := by
  refine Action.Safe.bind ((h.hasNext hr).mono (fun _ _ => id) hJ) fun more r₁ hr₁ => ?_
  cases more with
  | true =>
    refine Action.Safe.bind ((h.next hr₁).mono (fun _ _ => id) hJ) fun row r₂ hr₂ => ?_
    exact hf row r₂ hr₂.1 hr₂.2
  | false => exact hg r₁ hr₁

end Safe

end Source

end RelStore
