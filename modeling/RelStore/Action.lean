/-
Actions: steps of a cursor or an operator.

An action works on a local state beside the database, and answers or fails.

* `Action.ofDb` — an operation on the database as an action;
* `Action.attempt` — the same, with an error as an answer;
* `Action.on` — an action on a part of the local state;
* `Action.outcome_on`, `Action.outcome_ofDb` — what such actions answer and leave behind.
-/
import RelStore.Database

namespace RelStore

/-- A step on a local state and the database. -/
abbrev Action (ε σ α : Type) := Fallible ε (σ × Database) α

namespace Action

variable {ε ε' σ τ α : Type}

/-- An operation on the database, with another kind of error. -/
def ofDb (wrap : ε → ε') (op : DbM ε α) : Action ε' σ α :=
  fun s => ((op.outcome s.2).1.mapError wrap, s.1, (op.outcome s.2).2)

/-- An operation on the database whose error is an answer. -/
def attempt (op : DbM ε α) : Action ε' σ (Except ε α) :=
  fun s => (.ok (op.outcome s.2).1, s.1, (op.outcome s.2).2)

/-- An action on a part of the local state. -/
def on (part : σ → τ) (update : σ → τ → σ) (a : Action ε τ α) : Action ε σ α :=
  fun s =>
    let r := a.outcome (part s.1, s.2)
    (r.1, update s.1 r.2.1, r.2.2)

/-- An action with another kind of error. -/
def wrapError (wrap : ε → ε') (a : Action ε σ α) : Action ε' σ α :=
  fun s => ((a.outcome s).1.mapError wrap, (a.outcome s).2)

/-- The local state. -/
def state : Action ε σ σ :=
  fun s => (.ok s.1, s)

/-- The database. -/
def database : Action ε σ Database :=
  fun s => (.ok s.2, s)

/-- Changes the local state. -/
def update (change : σ → σ) : Action ε σ Unit :=
  fun s => (.ok (), change s.1, s.2)

@[simp] theorem outcome_state (s : σ × Database) :
    (state : Action ε σ σ).outcome s = (.ok s.1, s) := rfl

@[simp] theorem outcome_database (s : σ × Database) :
    (database : Action ε σ Database).outcome s = (.ok s.2, s) := rfl

@[simp] theorem outcome_update (change : σ → σ) (s : σ × Database) :
    (update change : Action ε σ Unit).outcome s = (.ok (), change s.1, s.2) := rfl

theorem outcome_on (part : σ → τ) (update : σ → τ → σ) (a : Action ε τ α) (s : σ × Database) :
    (on part update a).outcome s
      = ((a.outcome (part s.1, s.2)).1, update s.1 (a.outcome (part s.1, s.2)).2.1,
          (a.outcome (part s.1, s.2)).2.2) := rfl

theorem outcome_ofDb (wrap : ε → ε') (op : DbM ε α) (s : σ × Database) :
    (ofDb wrap op : Action ε' σ α).outcome s
      = ((op.outcome s.2).1.mapError wrap, s.1, (op.outcome s.2).2) := rfl

theorem outcome_attempt (op : DbM ε α) (s : σ × Database) :
    (attempt op : Action ε' σ (Except ε α)).outcome s
      = (.ok (op.outcome s.2).1, s.1, (op.outcome s.2).2) := rfl

theorem outcome_wrapError (wrap : ε → ε') (a : Action ε σ α) (s : σ × Database) :
    (wrapError wrap a).outcome s = ((a.outcome s).1.mapError wrap, (a.outcome s).2) := rfl

end Action

end RelStore
