/-
Computations that change a state and may fail.

What such a computation did to the state before it failed stays done.

* `Fallible.outcome` — the answer or the error, and the state afterwards;
* `Fallible.follow` — how one computation continues another;
* `Fallible.outcome_bind` and its like — the outcome of each way to put computations together.

Design notes.  The database, cursors and operators are all written with these, so that a law about one of
them is a law about outcomes, and the `do` blocks are taken apart by one set of simp lemmas.
-/

namespace RelStore

/-- A computation on a state `σ` that answers an `α` or fails with an `ε`. -/
abbrev Fallible (ε σ α : Type) := ExceptT ε (StateM σ) α

namespace Fallible

variable {ε σ α β : Type}

/-- The answer or the error of a computation, and the state afterwards. -/
def outcome (a : Fallible ε σ α) (s : σ) : Except ε α × σ :=
  a s

/-- Goes on with an answer; an error is followed by nothing. -/
def follow (r : Except ε α × σ) (next : α → σ → Except ε β × σ) : Except ε β × σ :=
  match r with
  | (.ok x, s) => next x s
  | (.error e, s) => (.error e, s)

/-- A result that is known already. -/
def ofExcept (r : Except ε α) : Fallible ε σ α :=
  fun s => (r, s)

@[simp] theorem follow_ok (x : α) (s : σ) (next : α → σ → Except ε β × σ) :
    follow (.ok x, s) next = next x s := rfl

@[simp] theorem follow_error (e : ε) (s : σ) (next : α → σ → Except ε β × σ) :
    follow (.error e, s) next = (.error e, s) := rfl

theorem follow_follow {γ : Type} (r : Except ε α × σ) (next : α → σ → Except ε β × σ)
    (next' : β → σ → Except ε γ × σ) :
    follow (follow r next) next' = follow r fun x s => follow (next x s) next' := by
  obtain ⟨x | e, s⟩ := r <;> rfl

/-- An answer behind another computation comes from an answer of that. -/
theorem exists_of_follow_ok {r : Except ε α × σ} {next : α → σ → Except ε β × σ} {y : β}
    (h : (follow r next).1 = .ok y) : ∃ x, r.1 = .ok x ∧ follow r next = next x r.2 := by
  obtain ⟨x | e, s⟩ := r
  · cases h
  · exact ⟨_, rfl, rfl⟩

@[simp] theorem outcome_pure (x : α) (s : σ) :
    (pure x : Fallible ε σ α).outcome s = (.ok x, s) := rfl

@[simp] theorem outcome_throw (e : ε) (s : σ) :
    (throw e : Fallible ε σ α).outcome s = (.error e, s) := rfl

@[simp] theorem outcome_ofExcept (r : Except ε α) (s : σ) :
    (ofExcept r : Fallible ε σ α).outcome s = (r, s) := rfl

@[simp] theorem outcome_get (s : σ) : (get : Fallible ε σ σ).outcome s = (.ok s, s) := rfl

@[simp] theorem outcome_set (s' s : σ) :
    (set s' : Fallible ε σ PUnit).outcome s = (.ok ⟨⟩, s') := rfl

@[simp] theorem outcome_modify (change : σ → σ) (s : σ) :
    (modify change : Fallible ε σ PUnit).outcome s = (.ok ⟨⟩, change s) := rfl

@[simp] theorem outcome_bind (a : Fallible ε σ α) (f : α → Fallible ε σ β) (s : σ) :
    (a >>= f).outcome s = follow (a.outcome s) fun x s => (f x).outcome s := by
  simp only [outcome, bind, ExceptT.bind, ExceptT.mk, StateT.bind, ExceptT.bindCont, follow]
  generalize a s = r
  obtain ⟨x | e, s⟩ := r <;> rfl

@[simp] theorem outcome_map (f : α → β) (a : Fallible ε σ α) (s : σ) :
    (f <$> a).outcome s = follow (a.outcome s) fun x s => (.ok (f x), s) := by
  simp only [outcome, Functor.map, ExceptT.map, ExceptT.mk, bind, StateT.bind, follow]
  generalize a s = r
  obtain ⟨x | e, s⟩ := r <;> rfl

/-- Only the answer is mapped. -/
theorem snd_outcome_map (f : α → β) (a : Fallible ε σ α) (s : σ) : ((f <$> a).outcome s).2 = (a.outcome s).2 := by
  rw [outcome_map]
  obtain ⟨x | e, s⟩ := a.outcome s <;> rfl

@[simp] theorem outcome_ite (p : Prop) [Decidable p] (a b : Fallible ε σ α) (s : σ) :
    (if p then a else b).outcome s = if p then a.outcome s else b.outcome s := by
  split <;> rfl

end Fallible

end RelStore
