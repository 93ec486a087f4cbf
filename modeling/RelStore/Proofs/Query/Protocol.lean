/-
What an operator hands out, and how it can be used.

* `Action.Gives` — a step has a certain answer from a certain state, over every database of a kind, and leaves
  behind a database of that kind;
* `Action.Ends` — the same for a step that comes to the end of some rows, which may be a failure;
* `Source.Follows` — a source hands out a fixed list of rows after every opening and every rewind, and then ends
  or fails;
* `Source.Follows.takeRow`, `Source.Follows.takeNone` — so an operator that asks it for a row gets the next one,
  or comes to their end;
* `Source.Follows.open`, `Source.Follows.hasNext`, `Source.Follows.next`, `Source.Follows.rewind`,
  `Source.Follows.close` — so the protocol around such a source is one over a list, from any state that it may
  be left in;
* `Source.Follows.collect` — all rows that are left.

Design notes.  What stands in the state of a source is different for each operator, so `Follows` speaks of it
through three predicates: `Shut` where it can be opened, `At rest` where `rest` is still to come, and `Live`
where it can be rewound.  After a failure a source is live but at no place.
-/
import RelStore.Operator.Source

namespace RelStore

open Fallible (follow)

namespace Action

variable {ε σ τ α β : Type} {P : Database → Prop} {a : Action ε σ α} {f : α → Action ε σ β}
  {s : σ} {Q R : σ → Prop}

/-- From state `s` and any database with `P`, the step answers `r` and leaves behind a state with `Q` and a
database with `P`. -/
def Gives (P : Database → Prop) (a : Action ε σ α) (s : σ) (r : Except ε α) (Q : σ → Prop) : Prop :=
  ∀ db, P db → ∃ s' db', a.outcome (s, db) = (r, s', db') ∧ P db' ∧ Q s'

theorem Gives.mono {r : Except ε α} (h : Gives P a s r Q) (hQ : ∀ s', Q s' → R s') : Gives P a s r R := by
  intro db hdb
  obtain ⟨s', db', hout, hdb', hs'⟩ := h db hdb
  exact ⟨s', db', hout, hdb', hQ s' hs'⟩

theorem Gives.bind {x : α} {r : Except ε β} (ha : Gives P a s (.ok x) Q)
    (hf : ∀ s', Q s' → Gives P (f x) s' r R) : Gives P (a >>= f) s r R := by
  intro db hdb
  obtain ⟨s', db', hout, hdb', hs'⟩ := ha db hdb
  rw [Fallible.outcome_bind, hout, Fallible.follow_ok]
  exact hf s' hs' db' hdb'

theorem Gives.bind_error {e : ε} (ha : Gives P a s (.error e) Q) : Gives P (a >>= f) s (.error e) Q := by
  intro db hdb
  obtain ⟨s', db', hout, hdb', hs'⟩ := ha db hdb
  exact ⟨s', db', by rw [Fallible.outcome_bind, hout, Fallible.follow_error], hdb', hs'⟩

theorem gives_pure {x : α} (hs : Q s) : Gives P (pure x : Action ε σ α) s (.ok x) Q :=
  fun db hdb => ⟨s, db, rfl, hdb, hs⟩

theorem gives_ofExcept {r : Except ε α} (hs : Q s) : Gives P (Fallible.ofExcept r) s r Q :=
  fun db hdb => ⟨s, db, rfl, hdb, hs⟩

theorem gives_state : Gives P (state : Action ε σ σ) s (.ok s) fun s' => s' = s :=
  fun db hdb => ⟨s, db, rfl, hdb, rfl⟩

theorem gives_update {change : σ → σ} (hs : Q (change s)) :
    Gives P (update change : Action ε σ Unit) s (.ok ()) Q :=
  fun db hdb => ⟨change s, db, rfl, hdb, hs⟩

/-- A step on a part of the state. -/
theorem Gives.on {part : σ → τ} {put : σ → τ → σ} {a : Action ε τ α} {r : Except ε α} {T : τ → Prop}
    (ha : Gives P a (part s) r T) (hput : ∀ t, T t → Q (put s t)) : Gives P (on part put a) s r Q := by
  intro db hdb
  obtain ⟨t, db', hout, hdb', ht⟩ := ha db hdb
  exact ⟨put s t, db', by rw [outcome_on, hout], hdb', hput t ht⟩

/-- A step at the end of some rows. It answers `x` and leaves behind a state with `Q`, unless the rows end in a
failure: then it fails with that, and leaves behind a state with `R`. -/
def Ends (P : Database → Prop) (a : Action ε σ α) (s : σ) (x : α) (err : Option ε) (Q R : σ → Prop) : Prop :=
  match err with
  | none => Gives P a s (.ok x) Q
  | some e => Gives P a s (.error e) R

section Ends

variable {x : α} {y : β} {err err' : Option ε} {L : σ → Prop} {S : σ → Prop}

theorem Ends.mono (h : Ends P a s x err Q L) (hQ : ∀ s', Q s' → R s') (hL : ∀ s', L s' → S s') :
    Ends P a s x err R S := by
  cases err with
  | none => exact Gives.mono h hQ
  | some e => exact Gives.mono h hL

/-- A step that goes on only if the rows did not end in a failure. -/
theorem Ends.bind (ha : Ends P a s x err Q L)
    (hf : ∀ s', err = none → Q s' → Gives P (f x) s' (.ok y) R) : Ends P (a >>= f) s y err R L := by
  cases err with
  | none => exact Gives.bind ha fun s' hs' => hf s' rfl hs'
  | some e => exact Gives.bind_error ha

/-- Behind the end of some rows comes the end of others. -/
theorem Ends.bind_ends (ha : Ends P a s x err Q L)
    (hf : ∀ s', err = none → Q s' → Ends P (f x) s' y err' R L) :
    Ends P (a >>= f) s y (err.or err') R L := by
  cases err with
  | none => cases err' with
    | none => exact Gives.bind ha fun s' hs' => hf s' rfl hs'
    | some e => exact Gives.bind ha fun s' hs' => hf s' rfl hs'
  | some e => exact Gives.bind_error ha

theorem Gives.bind_ends (ha : Gives P a s (.ok x) Q)
    (hf : ∀ s', Q s' → Ends P (f x) s' y err R L) : Ends P (a >>= f) s y err R L := by
  cases err with
  | none => exact ha.bind hf
  | some e => exact ha.bind hf

theorem Ends.on {part : σ → τ} {put : σ → τ → σ} {a : Action ε τ α} {T U : τ → Prop}
    (ha : Ends P a (part s) x err T U) (hT : ∀ t, T t → Q (put s t)) (hU : ∀ t, U t → L (put s t)) :
    Ends P (on part put a) s x err Q L := by
  cases err with
  | none => exact Gives.on ha hT
  | some e => exact Gives.on ha hU

end Ends

/-- A step with another kind of error. -/
theorem Gives.wrapError {ε' : Type} {r : Except ε α} (wrap : ε → ε') (ha : Gives P a s r Q) :
    Gives P (a.wrapError wrap) s (r.mapError wrap) Q := by
  intro db hdb
  obtain ⟨s', db', hout, hdb', hs'⟩ := ha db hdb
  exact ⟨s', db', by rw [outcome_wrapError, hout], hdb', hs'⟩

end Action

open RelStore.Action (Gives Ends)

variable {β : Type} {P : Database → Prop} {Shut Live : β → Prop} {At : List Row → β → Prop}
  {xs rest : List Row} {err : Option ExecError} {x : Row} {e : ExecError}

namespace Running

/-- A closed operator over a state that can be opened. -/
def IsShut (Shut : β → Prop) (r : Running β) : Prop :=
  r.opened = false ∧ Shut r.body

/-- An open operator that can be rewound. -/
def IsLive (Live : β → Prop) (r : Running β) : Prop :=
  r.opened = true ∧ Live r.body

/-- An operator that can be opened. -/
def Opens (Shut Live : β → Prop) (r : Running β) : Prop :=
  IsShut Shut r ∨ IsLive Live r

/-- An open operator that has fetched a row ahead of the given ones. -/
def Holds (At : List Row → β → Prop) (x : Row) (rest : List Row) (r : Running β) : Prop :=
  r.opened = true ∧ r.ahead = some x ∧ At rest r.body

/-- An open operator that has the given rows still to hand out; the first of them may be fetched already. -/
def Stands (At : List Row → β → Prop) (rest : List Row) (r : Running β) : Prop :=
  r.opened = true ∧ r.ahead = none ∧ At rest r.body ∨ ∃ x tail, rest = x :: tail ∧ Holds At x tail r

end Running

namespace Source

open Running (IsShut IsLive Opens Holds Stands)

variable {src : Source β} {r : Running β}

/-- A source that hands out the rows `xs`, and then ends or, with `err`, fails. -/
structure Follows (src : Source β) (P : Database → Prop) (Shut Live : β → Prop)
    (At : List Row → β → Prop) (xs : List Row) (err : Option ExecError) : Prop where
  live : ∀ {rest b}, At rest b → Live b
  start : ∀ {b}, Shut b → Gives P src.openBody b (.ok ()) (At xs)
  again : ∀ {b}, Live b → Gives P src.rewindBody b (.ok ()) (At xs)
  shut : ∀ {b}, Shut b ∨ Live b → Shut (src.closeBody b)
  row : ∀ {x rest b}, At (x :: rest) b → Gives P src.fetch b (.ok (some x)) (At rest)
  ends : ∀ {b}, At [] b → Ends P src.fetch b none err (At []) Live

/-- An operator whose body cannot be opened cannot be opened. -/
theorem gives_open_error {b : β} {Q : β → Prop} (h : Gives P src.openBody b (.error e) Q) :
    Gives P src.open (Running.closed b) (.error e) fun _ => True := by
  intro db hdb
  obtain ⟨b', db', hout, hdb', -⟩ := h db hdb
  rw [outcome_open, outcome_inBody]
  exact ⟨⟨false, none, b'⟩, db', by simp [Running.closed, hout], hdb', trivial⟩

namespace Follows

variable (h : src.Follows P Shut Live At xs err)

include h

theorem isLive (hr : Stands At rest r) : IsLive Live r := by
  rcases hr with ⟨hopen, -, hat⟩ | ⟨x, tail, -, hopen, -, hat⟩
  · exact ⟨hopen, h.live hat⟩
  · exact ⟨hopen, h.live hat⟩

/-- Closing is possible in every state, and leaves an operator that can be opened. -/
theorem close (hr : Opens Shut Live r) : IsShut Shut (src.close r) := by
  refine ⟨rfl, h.shut ?_⟩
  rcases hr with ⟨-, hshut⟩ | ⟨-, hlive⟩
  · exact .inl hshut
  · exact .inr hlive

/-- Opening starts from the first row, in whatever state the operator was left. -/
theorem «open» (hr : Opens Shut Live r) : Gives P src.open r (.ok ()) (Stands At xs) := by
  intro db hdb
  -- an open operator is closed first
  have hclosed : Shut (if r.opened then src.close r else r).body := by
    rcases hr with ⟨hopen, hshut⟩ | hlive
    · rw [hopen]
      exact hshut
    · rw [hlive.1]
      exact (h.close (.inr hlive)).2
  obtain ⟨b, db', hout, hdb', hat⟩ := h.start hclosed db hdb
  rw [outcome_open, outcome_inBody, hout]
  exact ⟨_, db', rfl, hdb', .inl ⟨rfl, rfl, hat⟩⟩

theorem rewind (hr : IsLive Live r) : Gives P src.rewind r (.ok ()) (Stands At xs) := by
  intro db hdb
  obtain ⟨b, db', hout, hdb', hat⟩ := h.again hr.2 db hdb
  rw [outcome_rewind, if_pos hr.1, outcome_inBody, hout]
  exact ⟨_, db', rfl, hdb', .inl ⟨hr.1, rfl, hat⟩⟩

/-- As long as there are rows, looking ahead says so and keeps the next one. -/
theorem hasNext_cons (hr : Stands At (x :: rest) r) :
    Gives P src.hasNext r (.ok true) (Holds At x rest) := by
  intro db hdb
  rcases hr with ⟨hopen, hahead, hat⟩ | ⟨y, tail, heq, hholds⟩
  · obtain ⟨b, db', hout, hdb', hat'⟩ := h.row hat db hdb
    rw [outcome_hasNext, if_pos hopen, hahead, outcome_inBody, hout]
    exact ⟨_, db', rfl, hdb', hopen, rfl, hat'⟩
  · cases heq
    rw [outcome_hasNext, if_pos hholds.1, hholds.2.1]
    exact ⟨r, db, rfl, hdb, hholds⟩

/-- Looking ahead does not move. -/
theorem hasNext_stands (hr : Stands At (x :: rest) r) :
    Gives P src.hasNext r (.ok true) (Stands At (x :: rest)) :=
  (h.hasNext_cons hr).mono fun _ hr' => .inr ⟨x, rest, rfl, hr'⟩

/-- Behind the last row, looking ahead comes to the end. -/
theorem hasNext_nil (hr : Stands At [] r) :
    Ends P src.hasNext r false err (Stands At []) (IsLive Live) := by
  rcases hr with ⟨hopen, hahead, hat⟩ | ⟨y, tail, heq, -⟩
  · have hends := h.ends hat
    cases err with
    | none =>
      intro db hdb
      obtain ⟨b, db', hout, hdb', hat'⟩ := hends db hdb
      rw [outcome_hasNext, if_pos hopen, hahead, outcome_inBody, hout]
      exact ⟨_, db', rfl, hdb', .inl ⟨hopen, rfl, hat'⟩⟩
    | some e =>
      intro db hdb
      obtain ⟨b, db', hout, hdb', hlive⟩ := hends db hdb
      rw [outcome_hasNext, if_pos hopen, hahead, outcome_inBody, hout]
      exact ⟨_, db', rfl, hdb', hopen, hlive⟩
  · cases heq

/-- Taking a row leaves the rows behind it. -/
theorem next_cons (hr : Stands At (x :: rest) r) : Gives P src.next r (.ok x) (Stands At rest) := by
  intro db hdb
  obtain ⟨r', db', hout, hdb', hopen, hahead, hat⟩ := h.hasNext_cons hr db hdb
  rw [outcome_next, hout, Fallible.follow_ok]
  simp only [hahead]
  exact ⟨_, db', rfl, hdb', .inl ⟨hopen, rfl, hat⟩⟩

/-- At the end there is no row to take, and the operator stays there. -/
theorem next_nil (herr : err = none) (hr : Stands At [] r) :
    Gives P src.next r (.error .noMoreRows) (Stands At []) := by
  subst herr
  intro db hdb
  obtain ⟨r', db', hout, hdb', hstands⟩ := h.hasNext_nil hr db hdb
  rw [outcome_next, hout]
  exact ⟨r', db', rfl, hdb', hstands⟩

section Take

variable {α : Type} {f : Row → Step (Running β) α} {g : Step (Running β) α} {res : Except ExecError α}
  {y : α} {end' : Option ExecError} {Q L : Running β → Prop}

/-- An operator that asks for a row while there are some gets the first of them. -/
theorem takeRow (hr : Stands At (x :: rest) r) (hf : ∀ r', Stands At rest r' → Gives P (f x) r' res Q) :
    Gives P (do if ← src.hasNext then let row ← src.next; f row else g) r res Q := by
  refine (h.hasNext_stands hr).bind fun r₁ hr₁ => ?_
  exact (h.next_cons hr₁).bind hf

theorem takeRow_ends (hr : Stands At (x :: rest) r)
    (hf : ∀ r', Stands At rest r' → Ends P (f x) r' y end' Q L) :
    Ends P (do if ← src.hasNext then let row ← src.next; f row else g) r y end' Q L := by
  cases end' with
  | none => exact h.takeRow hr hf
  | some e => exact h.takeRow hr hf

/-- An operator that asks for a row behind the last one comes to the end. -/
theorem takeNone (hr : Stands At [] r)
    (hg : ∀ r', Stands At [] r' → Gives P g r' (.ok y) Q) :
    Ends P (do if ← src.hasNext then let row ← src.next; f row else g) r y err Q (IsLive Live) :=
  (h.hasNext_nil hr).bind fun r' _ hr' => hg r' hr'

end Take

/-- All rows that are left, if the source does not fail at their end. -/
theorem collect {fuel : Nat} (hfuel : rest.length < fuel) (hr : Stands At rest r) :
    Ends P (src.collect fuel) r rest err (Stands At []) (IsLive Live) := by
  -- a failure at the end of the rows loses all of them, so both ends are followed at once
  induction rest generalizing r fuel with
  | nil =>
    obtain ⟨fuel, rfl⟩ : ∃ n, fuel = n + 1 := ⟨fuel - 1, by omega⟩
    exact h.takeNone hr fun r' hr' => Action.gives_pure hr'
  | cons x rest ih =>
    obtain ⟨fuel, rfl⟩ : ∃ n, fuel = n + 1 := ⟨fuel - 1, by omega⟩
    have hlen : rest.length < fuel := by simpa using hfuel
    refine h.takeRow_ends hr fun r₁ hr₁ => ?_
    exact (ih hlen hr₁).bind fun r₂ _ hr₂ => Action.gives_pure hr₂

end Follows

end Source

end RelStore
