/-
What a tree of operators does among other callers, it does alone.

A run among other callers, who may hold buffers and change other tables, is compared with one that has the cache for
itself.  As long as the first run is answered, so is the second, with the same answers.

* `Action.Alike` — what the first run is answered, the second one is answered too; how such steps are put together
  (`Alike.bind`, `Alike.on` and their like);
* `Source.Alike` — the same of a source, and of the protocol around it (`Source.Alike.open`, `Source.Alike.hasNext`,
  `Source.Alike.next`, `Source.Alike.take` and their like);
* `Database.Mirrors` — both databases have the same rows in the tables that matter, and nobody disturbs the second one;
* `Plan.Like`, `Plan.Fitting.alike` — every tree that fits together does alone what it does among others;
* `Source.Hands`, `Plan.Offers` — the rows that a tree has still to hand out, told by what somebody is handed who reads
  alone;
* `Plan.InPlace` — a tree among others, in a cache that fits it; every step leaves it in place;
* `Plan.InPlace.offers_of_row`, `Plan.InPlace.offers_of_ended` — so the rows that are handed out among others are those,
  one after the other;
* `Plan.Built.offers` — for a reading tree they are its meaning.

Design notes.  Nothing is said of a first run that fails: a frame may be missing there.  The two runs load a page at
different times, and the rows on it may be under other columns then.  They are put under the columns of the scan before
anybody sees them, so pending rows are compared under these.
-/
import RelStore.Proofs.Query.Assembling
import RelStore.Proofs.Query.Passes
import RelStore.Proofs.Query.Sizes

namespace RelStore

variable {D : Database → Database → Prop}

/-! ### Steps -/

namespace Action

variable {ε ε' σ τ α β : Type} {a a' : Action ε σ α} {f f' : α → Action ε σ β} {s t : σ} {Q : α → σ → σ → Prop}
  {R : β → σ → σ → Prop}

/-- From the states `s` and `t`, and databases that are related, the second step answers whatever the first one answers.
Then the databases are related again, and `Q` holds of the answer and the states. -/
def Alike (D : Database → Database → Prop) (a a' : Action ε σ α) (s t : σ) (Q : α → σ → σ → Prop) : Prop :=
  ∀ db db', D db db' → ∀ x s' after, a.outcome (s, db) = (.ok x, s', after) →
    ∃ t' after', a'.outcome (t, db') = (.ok x, t', after') ∧ D after after' ∧ Q x s' t'

theorem Alike.bind (ha : Alike D a a' s t Q) (hf : ∀ x s' t', Q x s' t' → Alike D (f x) (f' x) s' t' R) :
    Alike D (a >>= f) (a' >>= f') s t R := by
  intro db db' hdb y s' after hout
  rw [Fallible.outcome_bind] at hout
  rcases hfirst : a.outcome (s, db) with ⟨e | x, s₁, db₁⟩
  · rw [hfirst] at hout
    cases hout
  · rw [hfirst] at hout
    obtain ⟨t₁, db₁', hfirst', hdb₁, hQ⟩ := ha db db' hdb _ _ _ hfirst
    rw [Fallible.outcome_bind, hfirst']
    exact hf _ s₁ t₁ hQ db₁ db₁' hdb₁ y s' after hout

theorem alike_pure {x : α} (h : Q x s t) : Alike D (pure x : Action ε σ α) (pure x) s t Q := by
  intro db db' hdb y s' after hout
  cases hout
  exact ⟨t, db', rfl, hdb, h⟩

theorem alike_throw {e : ε} : Alike D (throw e : Action ε σ α) a' s t Q :=
  fun _ _ _ _ _ _ hout => nomatch hout

theorem alike_ofExcept {r : Except ε α} (h : ∀ x, Q x s t) :
    Alike D (Fallible.ofExcept r : Action ε σ α) (Fallible.ofExcept r) s t Q := by
  intro db db' hdb y s' after hout
  cases r with
  | error e => cases hout
  | ok x =>
    cases hout
    exact ⟨t, db', rfl, hdb, h _⟩

theorem alike_update {change change' : σ → σ} {Q : Unit → σ → σ → Prop} (h : Q () (change s) (change' t)) :
    Alike D (update change : Action ε σ Unit) (update change') s t Q := by
  intro db db' hdb y s' after hout
  cases hout
  exact ⟨_, db', rfl, hdb, h⟩

/-- Each run goes on with its own state. -/
theorem alike_state {g g' : σ → Action ε σ β} (h : Alike D (g s) (g' t) s t R) :
    Alike D (state >>= g) (state >>= g') s t R :=
  h

/-- Steps on a part of the state. -/
theorem Alike.on {part : σ → τ} {put : σ → τ → σ} {a a' : Action ε τ α} {T : α → τ → τ → Prop}
    (h : Alike D a a' (part s) (part t) T) (hQ : ∀ x u u', T x u u' → Q x (put s u) (put t u')) :
    Alike D (on part put a) (on part put a') s t Q := by
  intro db db' hdb x s' after hout
  rcases hpart : a.outcome (part s, db) with ⟨r, u, db₁⟩
  rw [outcome_on, hpart] at hout
  cases hout
  obtain ⟨u', after', hpart', hafter, hT⟩ := h db db' hdb x u _ hpart
  exact ⟨_, after', by rw [outcome_on, hpart'], hafter, hQ x u u' hT⟩

/-- Steps with another kind of error. -/
theorem Alike.wrapError {wrap : ε → ε'} (h : Alike D a a' s t Q) :
    Alike D (a.wrapError wrap) (a'.wrapError wrap) s t Q := by
  intro db db' hdb x s' after hout
  rcases hfirst : a.outcome (s, db) with ⟨e | y, s₁, db₁⟩
  · rw [outcome_wrapError, hfirst] at hout
    cases hout
  · rw [outcome_wrapError, hfirst] at hout
    cases hout
    obtain ⟨t', after', hfirst', hafter, hQ⟩ := h db db' hdb x s' after hfirst
    exact ⟨t', after', by rw [outcome_wrapError, hfirst']; rfl, hafter, hQ⟩

/-- What is known of single steps is known of two of them. -/
theorem Alike.safe {a : Action ε σ α} {Ok : ε → Prop} {P P' : Database → Prop} {K K' : α → σ → Prop} {I : σ → Prop}
    (h : Alike D a a s t Q) (hs : Safe Ok P a a s K I) (ht : Safe Ok P' a a t K' I)
    (hD : ∀ db db', D db db' → P db ∧ P' db') : Alike D a a s t fun x s' t' => Q x s' t' ∧ K x s' ∧ K' x t' := by
  intro db db' hdb x s' after hout
  obtain ⟨t', after', hout', hafter, hQ⟩ := h db db' hdb x s' after hout
  obtain ⟨hP, hP'⟩ := hD db db' hdb
  obtain ⟨r, s₁, db₁, hfirst, -, -, hr⟩ := hs db hP
  obtain ⟨r', t₁, db₁', hsecond, -, -, hr'⟩ := ht db' hP'
  cases hout.symm.trans hfirst
  cases hout'.symm.trans hsecond
  exact ⟨t', after', hout', hafter, hQ, hr, hr'⟩

end Action

/-! ### The protocol -/

/-- Two operators are at the same stage of the protocol, and their states are related. -/
structure Running.Like {β : Type} (S : β → β → Prop) (r r' : Running β) : Prop where
  opened : r'.opened = r.opened
  ahead : r'.ahead = r.ahead
  body : S r.body r'.body

open Running (Like)

namespace Source

variable {β γ σ α : Type} {src : Source β} {S : β → β → Prop} {r r' : Running β}

/-- From related states and databases, the source does twice the same as far as it answers. -/
structure Alike (src : Source β) (D : Database → Database → Prop) (S : β → β → Prop) : Prop where
  start : ∀ {b b'}, S b b' → Action.Alike D src.openBody src.openBody b b' fun _ => S
  shut : ∀ {b b'}, S b b' → S (src.closeBody b) (src.closeBody b')
  again : ∀ {b b'}, S b b' → Action.Alike D src.rewindBody src.rewindBody b b' fun _ => S
  fetch : ∀ {b b'}, S b b' → Action.Alike D src.fetch src.fetch b b' fun _ => S

namespace Alike

variable (h : src.Alike D S)

include h

theorem close (hr : r.Like S r') : (src.close r).Like S (src.close r') :=
  ⟨rfl, rfl, h.shut hr.body⟩

theorem «open» (hr : r.Like S r') : Action.Alike D src.open src.open r r' fun _ => Like S := by
  intro db db' hdb x s after hout
  -- an open operator is closed first
  have hclosed : (if r.opened then src.close r else r).Like S (if r'.opened then src.close r' else r') := by
    rw [hr.opened]
    split
    · exact h.close hr
    · exact hr
  rw [outcome_open, outcome_inBody] at hout
  rw [outcome_open, outcome_inBody]
  generalize (if r.opened then src.close r else r) = q at hout hclosed
  generalize (if r'.opened then src.close r' else r') = q' at hclosed ⊢
  rcases hstart : src.openBody.outcome (q.body, db) with ⟨e | u, b, db₁⟩
  · rw [hstart] at hout
    cases hout
  · rw [hstart] at hout
    cases hout
    obtain ⟨b', after', hstart', hafter, hb⟩ := h.start hclosed.body db db' hdb _ _ _ hstart
    rw [hstart']
    exact ⟨_, after', rfl, hafter, rfl, rfl, hb⟩

theorem hasNext (hr : r.Like S r') : Action.Alike D src.hasNext src.hasNext r r' fun _ => Like S := by
  intro db db' hdb x s after hout
  rw [outcome_hasNext] at hout
  rw [outcome_hasNext, hr.opened, hr.ahead]
  split at hout
  · next hopened =>
    rw [if_pos hopened]
    cases hahead : r.ahead with
    | some row =>
      rw [hahead] at hout
      cases hout
      exact ⟨r', db', rfl, hdb, hr⟩
    | none =>
      rw [hahead, outcome_inBody] at hout
      rcases hfetch : src.fetch.outcome (r.body, db) with ⟨e | row, b, db₁⟩
      · rw [hfetch] at hout
        cases hout
      · rw [hfetch] at hout
        cases hout
        obtain ⟨b', after', hfetch', hafter, hb⟩ := h.fetch hr.body db db' hdb _ _ _ hfetch
        rw [outcome_inBody, hfetch']
        exact ⟨_, after', rfl, hafter, hr.opened, rfl, hb⟩
  · cases hout

theorem next (hr : r.Like S r') : Action.Alike D src.next src.next r r' fun _ => Like S := by
  intro db db' hdb x s after hout
  rw [outcome_next] at hout
  rcases hmore : src.hasNext.outcome (r, db) with ⟨e | more, r₁, db₁⟩
  · rw [hmore] at hout
    cases hout
  · obtain ⟨r₁', db₁', hmore', hdb₁, hr₁⟩ := h.hasNext hr db db' hdb _ _ _ hmore
    rw [hmore, Fallible.follow_ok] at hout
    rw [outcome_next, hmore', Fallible.follow_ok, hr₁.ahead]
    split at hout
    · next hahead =>
      cases hout
      rw [hahead]
      exact ⟨_, db₁', rfl, hdb₁, hr₁.opened, rfl, hr₁.body⟩
    · cases hout

theorem rewind (hr : r.Like S r') : Action.Alike D src.rewind src.rewind r r' fun _ => Like S := by
  intro db db' hdb x s after hout
  rw [outcome_rewind] at hout
  rw [outcome_rewind, hr.opened]
  split at hout
  · next hopened =>
    rw [if_pos hopened]
    rw [outcome_inBody] at hout
    rcases hagain : src.rewindBody.outcome (r.body, db) with ⟨e | u, b, db₁⟩
    · rw [hagain] at hout
      cases hout
    · rw [hagain] at hout
      cases hout
      obtain ⟨b', after', hagain', hafter, hb⟩ := h.again hr.body db db' hdb _ _ _ hagain
      rw [outcome_inBody, hagain']
      exact ⟨_, after', rfl, hafter, hr.opened, rfl, hb⟩
  · cases hout

/-- Operators that ask for a row. -/
theorem take {f f' : Row → Step (Running β) α} {g g' : Step (Running β) α} {Q : α → Running β → Running β → Prop}
    (hr : r.Like S r') (hf : ∀ row s s', s.Like S s' → Action.Alike D (f row) (f' row) s s' Q)
    (hg : ∀ s s', s.Like S s' → Action.Alike D g g' s s' Q) :
    Action.Alike D (do if ← src.hasNext then let row ← src.next; f row else g)
      (do if ← src.hasNext then let row ← src.next; f' row else g') r r' Q := by
  refine (h.hasNext hr).bind fun more s s' hs => ?_
  cases more with
  | true => exact (h.next hs).bind fun row u u' hu => hf row u u' hu
  | false => exact hg s s' hs

/-! ### Filters and projections -/

theorem filter (fuel : Nat) (p : Predicate) : (src.filter fuel p).Alike D (Like S) := by
  refine ⟨h.open, h.close, h.rewind, fun {r r'} hr => ?_⟩
  show Action.Alike D (fetchAccepted p src fuel) (fetchAccepted p src fuel) r r' _
  induction fuel generalizing r r' with
  | zero => exact Action.alike_throw
  | succ fuel ih =>
    refine h.take hr (fun row s s' hs => ?_) fun s s' hs => Action.alike_pure hs
    split
    · exact Action.alike_pure hs
    · exact ih hs

theorem project (fields : List Nat) (schema : Schema) : (src.project fields schema).Alike D (Like S) :=
  ⟨h.open, h.close, h.rewind, fun hr =>
    h.take hr (fun _ _ _ hs => Action.alike_pure hs) fun _ _ hs => Action.alike_pure hs⟩

end Alike

end Source

/-! ### Joins -/

/-- Two joins hold the same row, know the same of their children, and these are related. -/
structure JoinState.Like {β γ : Type} (S : β → β → Prop) (T : γ → γ → Prop) (j j' : JoinState β γ) : Prop where
  childEmpty : j'.childEmpty = j.childEmpty
  held : j'.held = j.held
  left : j.left.Like S j'.left
  right : j.right.Like T j'.right

namespace Source

section Join

variable {β γ : Type} {left : Source β} {right : Source γ} {S : β → β → Prop} {T : γ → γ → Prop} {j j' : JoinState β γ}

theorem alike_onLeft {α : Type} {step : Step (Running β) α}
    (h : Action.Alike D step step j.left j'.left fun _ => Like S) (hj : j.Like S T j') :
    Action.Alike D (onLeft step) (onLeft step) j j' fun _ => JoinState.Like S T :=
  h.on fun _ _ _ hr => ⟨hj.childEmpty, hj.held, hr, hj.right⟩

theorem alike_onRight {α : Type} {step : Step (Running γ) α}
    (h : Action.Alike D step step j.right j'.right fun _ => Like T) (hj : j.Like S T j') :
    Action.Alike D (onRight step) (onRight step) j j' fun _ => JoinState.Like S T :=
  h.on fun _ _ _ hr => ⟨hj.childEmpty, hj.held, hj.left, hr⟩

theorem alike_hold (row? : Option Row) (hj : j.Like S T j') :
    Action.Alike D (Action.update fun s : JoinState β γ => { s with held := row? } : Step _ Unit)
      (Action.update fun s => { s with held := row? }) j j' fun _ => JoinState.Like S T :=
  Action.alike_update ⟨hj.childEmpty, rfl, hj.left, hj.right⟩

theorem alike_know (empty : Bool) (hj : j.Like S T j') :
    Action.Alike D (Action.update fun s : JoinState β γ => { s with childEmpty := empty } : Step _ Unit)
      (Action.update fun s => { s with childEmpty := empty }) j j' fun _ => JoinState.Like S T :=
  Action.alike_update ⟨rfl, hj.held, hj.left, hj.right⟩

variable (hl : left.Alike D S) (hr : right.Alike D T)

include hl hr

theorem alike_startPairs (hj : j.Like S T j') :
    Action.Alike D (startPairs left right) (startPairs left right) j j' fun _ => JoinState.Like S T := by
  refine (alike_hold none hj).bind fun _ j j' hj => ?_
  refine (alike_onLeft (hl.hasNext hj.left) hj).bind fun more j j' hj => ?_
  cases more with
  | true => exact (alike_onRight (hr.hasNext hj.right) hj).bind fun some? j j' hj => alike_know (!some?) hj
  | false => exact alike_know true hj

omit hr in
theorem alike_takeLeft (hj : j.Like S T j') :
    Action.Alike D (takeLeft left) (takeLeft left) j j' fun _ => JoinState.Like S T := by
  refine Action.alike_state ?_
  rw [hj.held]
  split
  · exact (alike_hold none hj).bind fun _ j j' hj => Action.alike_pure hj
  · refine (alike_onLeft (hl.hasNext hj.left) hj).bind fun more j j' hj => ?_
    cases more with
    | true => exact (alike_onLeft (hl.next hj.left) hj).bind fun row j j' hj => Action.alike_pure hj
    | false => exact Action.alike_pure hj

theorem alike_advanceLeft (row : Row) (hj : j.Like S T j') :
    Action.Alike D (advanceLeft left right row) (advanceLeft left right row) j j' fun _ => JoinState.Like S T := by
  refine (alike_onRight (hr.hasNext hj.right) hj).bind fun more j j' hj => ?_
  cases more with
  | true => exact Action.alike_pure hj
  | false =>
    refine (alike_onLeft (hl.hasNext hj.left) hj).bind fun more j j' hj => ?_
    cases more with
    | true =>
      refine (alike_onRight (hr.rewind hj.right) hj).bind fun _ j j' hj => ?_
      exact (alike_onLeft (hl.next hj.left) hj).bind fun row j j' hj => Action.alike_pure hj
    | false => exact Action.alike_pure hj

theorem alike_nextPair (hj : j.Like S T j') :
    Action.Alike D (nextPair left right) (nextPair left right) j j' fun _ => JoinState.Like S T := by
  refine Action.alike_state ?_
  rw [hj.childEmpty]
  split
  · exact Action.alike_pure hj
  · refine (alike_takeLeft hl hj).bind fun row? j j' hj => ?_
    cases row? with
    | none => exact Action.alike_pure hj
    | some row =>
      refine (alike_advanceLeft hl hr row hj).bind fun l? j j' hj => ?_
      cases l? with
      | none => exact Action.alike_pure hj
      | some l =>
        refine (alike_onRight (hr.next hj.right) hj).bind fun r j j' hj => ?_
        exact (alike_hold (some l) hj).bind fun _ j j' hj => Action.alike_pure hj

theorem Alike.join (fuel : Nat) (p : JoinPredicate) (schema : Schema) :
    (Source.join fuel p schema left right).Alike D (JoinState.Like S T) := by
  refine ⟨fun {j j'} hj => ?_, fun hj => ⟨rfl, rfl, hl.close hj.left, hr.close hj.right⟩, fun {j j'} hj => ?_,
    fun {j j'} hj => ?_⟩
  · refine (alike_onLeft (hl.open hj.left) hj).bind fun _ j j' hj => ?_
    exact (alike_onRight (hr.open hj.right) hj).bind fun _ j j' hj => alike_startPairs hl hr hj
  · refine (alike_onLeft (hl.rewind hj.left) hj).bind fun _ j j' hj => ?_
    exact (alike_onRight (hr.rewind hj.right) hj).bind fun _ j j' hj => alike_startPairs hl hr hj
  · show Action.Alike D (fetchPair p schema left right fuel) (fetchPair p schema left right fuel) j j' _
    induction fuel generalizing j j' with
    | zero => exact Action.alike_throw
    | succ fuel ih =>
      refine (alike_nextPair hl hr hj).bind fun pair? j j' hj => ?_
      cases pair? with
      | none => exact Action.alike_pure hj
      | some pair =>
        dsimp only
        split
        · exact Action.alike_pure hj
        · exact ih hj

end Join

end Source

/-! ### Insertions and deletions -/

/-- Two changes have done the same number of rows, and their children are related and as they should be. -/
structure ChangeState.Like {β : Type} (S : β → β → Prop) (R : Row → Prop) (I : β → Prop) (s s' : ChangeState β) :
    Prop where
  count : s'.count = s.count
  finished : s'.finished = s.finished
  child : s.child.Like S s'.child
  keeps : s.child.Keeps R I
  keeps' : s'.child.Keeps R I

namespace Source

section Change

variable {β : Type} {child : Source β} {S : β → β → Prop} {P P' : Database → Prop} {R : Row → Prop} {I : β → Prop}
  {s s' : ChangeState β} {kind : Mutation} {op : Row → DbM StorageError Unit}
  (h : child.Alike D S) (hsafe : child.Safe child P (fun _ => True) R I)
  (hsafe' : child.Safe child P' (fun _ => True) R I) (hD : ∀ db db', D db db' → P db ∧ P' db')
  (hop : ∀ row, R row → ∀ db db', D db db' → ∀ after, (op row).outcome db = (.ok (), after) →
    ∃ after', (op row).outcome db' = (.ok (), after') ∧ D after after')

include h hsafe hsafe' hD

theorem alike_onChild_hasNext (hs : s.Like S R I s') :
    Action.Alike D (onChild child.hasNext) (onChild child.hasNext) s s' fun _ => ChangeState.Like S R I :=
  ((h.hasNext hs.child).safe (hsafe.hasNext hs.keeps) (hsafe'.hasNext hs.keeps') hD).on
    fun _ _ _ hr => ⟨hs.count, hs.finished, hr.1, hr.2.1, hr.2.2⟩

theorem alike_onChild_next (hs : s.Like S R I s') :
    Action.Alike D (onChild child.next) (onChild child.next) s s'
      fun row s s' => R row ∧ ChangeState.Like S R I s s' :=
  ((h.next hs.child).safe (hsafe.next hs.keeps) (hsafe'.next hs.keeps') hD).on
    fun _ _ _ hr => ⟨hr.2.1.1, hs.count, hs.finished, hr.1, hr.2.1.2, hr.2.2.2⟩

include hop

theorem alike_changeRows (fuel : Nat) (hs : s.Like S R I s') :
    Action.Alike D (changeRows kind op child fuel) (changeRows kind op child fuel) s s'
      fun _ => ChangeState.Like S R I := by
  induction fuel generalizing s s' with
  | zero => exact Action.alike_throw
  | succ fuel ih =>
    rw [changeRows_succ]
    refine (alike_onChild_hasNext h hsafe hsafe' hD hs).bind fun more s s' hs => ?_
    cases more with
    | false =>
      intro db db' hdb row? t after hout
      replace hout : (changeStep kind op child fuel none).outcome (s, db) = (.ok row?, t, after) := hout
      show ∃ t' after', (changeStep kind op child fuel none).outcome (s', db') = _ ∧ _
      rw [outcome_changeStep_none] at hout
      rw [outcome_changeStep_none, hs.count]
      cases hrow : countRow kind s.count with
      | error e =>
        rw [hrow] at hout
        cases hout
      | ok row =>
        rw [hrow] at hout
        cases hout
        exact ⟨_, db', rfl, hdb, rfl, rfl, hs.child, hs.keeps, hs.keeps'⟩
    | true =>
      refine (alike_onChild_next h hsafe hsafe' hD hs).bind fun row s s' hs => ?_
      obtain ⟨hrow, hs⟩ := hs
      intro db db' hdb row? t after hout
      rw [outcome_changeStep_some] at hout
      rcases hrun : (op row).outcome db with ⟨cause | u, db₁⟩
      · rw [hrun] at hout
        cases hout
      · rw [hrun] at hout
        obtain ⟨db₁', hrun', hdb₁⟩ := hop row hrow db db' hdb db₁ hrun
        rw [outcome_changeStep_some, hrun']
        have hcounted : ChangeState.Like S R I { s with count := s.count + 1 } { s' with count := s'.count + 1 } :=
          ⟨congrArg (· + 1) hs.count, hs.finished, hs.child, hs.keeps, hs.keeps'⟩
        exact ih hcounted db₁ db₁' hdb₁ row? t after hout

/-- A change does alone what it does among others, if the change of a single row does so. -/
theorem Alike.change (fuel : Nat) : (Source.change fuel kind op child).Alike D (ChangeState.Like S R I) := by
  have hstart : ∀ {reset : Step (Running β) Unit} {s s' : ChangeState β},
      Action.Alike D (onChild reset) (onChild reset) s s' (fun _ => ChangeState.Like S R I) →
      Action.Alike D (startChange reset) (startChange reset) s s' fun _ => ChangeState.Like S R I := fun hreset =>
    hreset.bind fun _ s s' hs => Action.alike_update ⟨rfl, rfl, hs.child, hs.keeps, hs.keeps'⟩
  refine ⟨fun {s s'} hs => hstart ?_, fun hs => ?_, fun {s s'} hs => hstart ?_, fun {s s'} hs => ?_⟩
  · exact ((h.open hs.child).safe (hsafe.open hs.keeps) (hsafe'.open hs.keeps') hD).on
      fun _ _ _ hr => ⟨hs.count, hs.finished, hr.1, hr.2.1, hr.2.2⟩
  · exact ⟨hs.count, hs.finished, h.close hs.child, (hsafe.close hs.keeps).2, (hsafe'.close hs.keeps').2⟩
  · exact ((h.rewind hs.child).safe (hsafe.rewind hs.keeps) (hsafe'.rewind hs.keeps') hD).on
      fun _ _ _ hr => ⟨hs.count, hs.finished, hr.1, hr.2.1, hr.2.2⟩
  · refine Action.alike_state ?_
    rw [hs.finished]
    split
    · exact Action.alike_pure hs
    · exact alike_changeRows h hsafe hsafe' hD hop fuel hs

end Change

end Source

/-! ### Aggregates -/

/-- Two aggregates have the same results left, and their children are related. -/
structure AggregateState.Like {β : Type} (S : β → β → Prop) (s s' : AggregateState β) : Prop where
  results : s'.results = s.results
  child : s.child.Like S s'.child

namespace Source

variable {β : Type} {child : Source β} {S : β → β → Prop} {spec : AggregateSpec} {schema : Schema} {op : AggregateOp}

/-- The next group does not depend on the database. -/
theorem alike_fetchGroup (pending : PendingGroups) :
    Action.Alike D (fetchGroup op schema) (fetchGroup op schema) pending pending fun _ => Eq := by
  refine Action.alike_state ?_
  split
  · exact Action.alike_pure rfl
  · next key stat rest =>
    refine (Action.alike_update (Q := fun _ => Eq) rfl).bind fun _ s s' hs => ?_
    refine (Action.alike_ofExcept (Q := fun _ => Eq) fun _ => hs).bind fun value s s' hs => ?_
    exact Action.alike_pure hs

/-- The groups of all rows of the child. -/
theorem Alike.absorbAll (h : child.Alike D S) (fuel : Nat) (groups : Groups) {r r' : Running β} (hr : r.Like S r') :
    Action.Alike D (absorbAll spec child groups fuel) (Source.absorbAll spec child groups fuel) r r'
      fun _ => Like S := by
  induction fuel generalizing groups r r' with
  | zero => exact Action.alike_throw
  | succ fuel ih =>
    refine h.take hr (fun row s s' hs => ?_) fun s s' hs => Action.alike_pure hs
    exact (Action.alike_ofExcept (Q := fun _ => Like S) fun _ => hs).bind fun groups s s' hs => ih groups hs

theorem Alike.aggregate (h : child.Alike D S) (fuel : Nat) (spec : AggregateSpec) (schema : Schema) :
    (Source.aggregate fuel spec schema child).Alike D (AggregateState.Like S) := by
  have hstart : ∀ {reset : Step (Running β) Unit} {s s' : AggregateState β}, s.Like S s' →
      Action.Alike D reset reset s.child s'.child (fun _ => Like S) →
      Action.Alike D (startAggregate fuel spec child reset) (startAggregate fuel spec child reset) s s'
        fun _ => AggregateState.Like S := by
    intro reset s s' hs hreset
    refine Action.Alike.bind (Q := fun _ => AggregateState.Like S) (hreset.on fun _ _ _ hr => ⟨hs.results, hr⟩)
      fun _ s s' hs => ?_
    refine Action.Alike.bind (Q := fun _ => AggregateState.Like S)
      ((h.absorbAll fuel {} hs.child).on fun _ _ _ hr => ⟨hs.results, hr⟩) fun groups s s' hs => ?_
    exact Action.alike_update ⟨rfl, hs.child⟩
  refine ⟨fun hs => hstart hs (h.open hs.child), fun hs => ⟨rfl, h.close hs.child⟩,
    fun hs => hstart hs (h.rewind hs.child), fun {s s'} hs => ?_⟩
  refine Action.alike_state ?_
  rw [hs.results]
  split
  · exact Action.alike_throw
  · next pending hpending =>
    refine (alike_fetchGroup pending).on fun row? rest rest' hrest => ⟨?_, hs.child⟩
    rw [hrest]

/-! ### Leaves -/

theorem alike_values (rows : List Row) : (values rows).Alike D Eq := by
  have hstart : ∀ b b' : List Row, Action.Alike D (Action.update fun _ => rows : Step _ Unit)
      (Action.update fun _ => rows) b b' fun _ => Eq := fun _ _ => Action.alike_update rfl
  refine ⟨fun _ => hstart _ _, fun _ => rfl, fun _ => hstart _ _, ?_⟩
  rintro rest _ rfl
  refine Action.alike_state ?_
  split
  · exact Action.alike_pure rfl
  · exact (Action.alike_update (Q := fun _ => Eq) rfl).bind fun _ s s' hs => Action.alike_pure hs

/-- The results of a shared aggregate are the same where the aggregate is. -/
theorem alike_groups (hrunning : ∀ db db', D db db' → db'.running = db.running) (number : Nat) (grouped : Bool)
    (op : AggregateOp) (schema : Schema) : (groups number grouped op schema).Alike D Eq := by
  have hstart : ∀ b b' : PendingGroups, Action.Alike D (groups number grouped op schema).openBody
      (groups number grouped op schema).openBody b b' fun _ => Eq := by
    intro b b' db db' hdb x s after hout
    cases hout
    refine ⟨_, db', rfl, hdb, ?_⟩
    rw [hrunning db db' hdb]
  refine ⟨fun _ => hstart _ _, fun _ => rfl, fun _ => hstart _ _, ?_⟩
  rintro pending _ rfl
  exact alike_fetchGroup pending

end Source

/-- Two cursors stand at the same page.  The rows that are pending are the same under the columns of the scan. -/
structure HeapCursor.Like (schema : Schema) (b b' : HeapCursor) : Prop where
  opened : b'.opened = b.opened
  nextPage : b'.nextPage = b.nextPage
  pending : b'.pending.map (·.withSchema schema) = b.pending.map (·.withSchema schema)

namespace HeapCursor

variable {f : HeapFile} {schema : Schema} {fuel : Nat} {b b' : HeapCursor}
  (hcount : ∀ db db', D db db' → f.pageCount db'.disk = f.pageCount db.disk)
  (hload : ∀ db db', D db db' → ∀ n buffer after, (Database.getPage ⟨f.id, n⟩).outcome db = (.ok buffer, after) →
    ∃ buffer' after', (Database.getPage ⟨f.id, n⟩).outcome db' = (.ok buffer', after') ∧ D after after'
      ∧ buffer'.page.rows.map (·.withSchema schema) = buffer.page.rows.map (·.withSchema schema))

theorem Like.pending_eq_nil_iff (hb : b.Like schema b') : b'.pending = [] ↔ b.pending = [] := by
  rw [← List.map_eq_nil_iff (f := (·.withSchema schema)), hb.pending, List.map_eq_nil_iff]

include hcount hload

theorem alike_search (hb : b.Like schema b') :
    Action.Alike D (search f fuel) (search f fuel) b b' fun more s s' => s.Like schema s' ∧ s.opened = b.opened
      ∧ (more = true → s.pending ≠ [] ∧ fuel ≠ 0) := by
  -- on the fuel; both cursors load the same page
  induction fuel generalizing b b' with
  | zero => exact Action.alike_throw
  | succ fuel ih =>
    intro db db' hdb more s after hout
    rw [outcome_search] at hout
    rw [outcome_search, hcount db db' hdb, hb.nextPage]
    by_cases hpending : b.pending = []
    · rw [if_neg (not_not_intro hpending)] at hout
      rw [if_neg (not_not_intro (hb.pending_eq_nil_iff.mpr hpending))]
      split at hout
      · next hend =>
        cases hout
        rw [if_pos hend]
        exact ⟨b', db', rfl, hdb, hb, rfl, nofun⟩
      · next hend =>
        rw [if_neg hend]
        rcases hget : (Database.getPage ⟨f.id, b.nextPage⟩).outcome db with ⟨e | buffer, db₁⟩
        · rw [hget] at hout
          cases hout
        · rw [hget] at hout
          obtain ⟨buffer', db₁', hget', hdb₁, hrows⟩ := hload db db' hdb _ _ _ hget
          rw [hget']
          have hloaded : HeapCursor.Like schema ⟨b.opened, b.nextPage + 1, buffer.page.rows⟩
              ⟨b'.opened, b.nextPage + 1, buffer'.page.rows⟩ := ⟨hb.opened, rfl, hrows⟩
          obtain ⟨s', after', hout', hafter, hs, hopened, hmore⟩ := ih hloaded db₁ db₁' hdb₁ more s after hout
          exact ⟨s', after', hout', hafter, hs, hopened, fun h => ⟨(hmore h).1, Nat.succ_ne_zero _⟩⟩
    · rw [if_pos hpending] at hout
      cases hout
      rw [if_pos fun h => hpending (hb.pending_eq_nil_iff.mp h)]
      exact ⟨b', db', rfl, hdb, hb, rfl, fun _ => ⟨hpending, Nat.succ_ne_zero _⟩⟩

theorem alike_hasNext (hb : b.Like schema b') :
    Action.Alike D (hasNext f fuel) (hasNext f fuel) b b' fun more s s' => s.Like schema s' ∧ s.opened = true
      ∧ (more = true → s.pending ≠ [] ∧ fuel ≠ 0) := by
  refine Action.alike_state ?_
  rw [hb.opened]
  split
  · next hopened =>
    have hsearch : Action.Alike D (search f fuel) (search f fuel) b b' _ := alike_search hcount hload hb
    rw [hopened] at hsearch
    exact hsearch
  · exact Action.alike_throw

omit hload in
theorem alike_start (hb : b.Like schema b') :
    Action.Alike D (start f) (start f) b b' fun _ => HeapCursor.Like schema := by
  intro db db' hdb x s after hout
  cases hopened : b.opened with
  | true =>
    have hstay : ∀ {b : HeapCursor} {db : Database}, b.opened = true → (start f).outcome (b, db) = (.ok (), b, db) := by
      intro b db hopened
      simp only [start, Fallible.outcome_bind, Action.outcome_state, Fallible.follow_ok, hopened, if_true,
        Fallible.outcome_pure]
    cases (hstay hopened).symm.trans hout
    exact ⟨b', db', hstay (hb.opened.trans hopened), hdb, hb⟩
  | false =>
    rw [outcome_start hopened] at hout
    rw [outcome_start (hb.opened.trans hopened), hcount db db' hdb]
    split at hout
    · cases hout
    · next hpages =>
      cases hout
      rw [if_neg hpages]
      exact ⟨_, db', rfl, hdb, rfl, hb.nextPage, hb.pending⟩

omit hload in
theorem alike_rewind (hb : b.Like schema b') :
    Action.Alike D (rewind f) (rewind f) b b' fun _ => HeapCursor.Like schema := by
  intro db db' hdb x s after hout
  cases hopened : b.opened with
  | false =>
    have hthrow : (rewind f).outcome (b, db) = (.error .notOpen, b, db) := by
      simp only [rewind, Fallible.outcome_bind, Action.outcome_state, Fallible.follow_ok, hopened, Bool.false_eq_true,
        if_false, Fallible.outcome_throw]
    cases hthrow.symm.trans hout
  | true =>
    rw [outcome_rewind hopened] at hout
    rw [outcome_rewind (hb.opened.trans hopened)]
    exact alike_start hcount ⟨rfl, rfl, rfl⟩ db db' hdb x s after hout

end HeapCursor

/-- Two scans hand out the same rows, wherever these come from. -/
theorem Source.alike_scan {f : HeapFile} {schema : Schema}
    (hcount : ∀ db db', D db db' → f.pageCount db'.disk = f.pageCount db.disk)
    (hload : ∀ db db', D db db' → ∀ n buffer after, (Database.getPage ⟨f.id, n⟩).outcome db = (.ok buffer, after) →
      ∃ buffer' after', (Database.getPage ⟨f.id, n⟩).outcome db' = (.ok buffer', after') ∧ D after after'
        ∧ buffer'.page.rows.map (·.withSchema schema) = buffer.page.rows.map (·.withSchema schema)) (fuel : Nat) :
    (scan fuel f schema).Alike D (HeapCursor.Like schema) := by
  refine ⟨fun hb => (HeapCursor.alike_start hcount hb).wrapError, fun _ => ⟨rfl, rfl, rfl⟩,
    fun hb => (HeapCursor.alike_rewind hcount hb).wrapError, fun {b b'} hb => ?_⟩
  refine (HeapCursor.alike_hasNext hcount hload hb).wrapError.bind fun more s s' hs => ?_
  obtain ⟨hs, hopened, hmore⟩ := hs
  cases more with
  | false => exact Action.alike_pure hs
  | true =>
    obtain ⟨hpending, hfuel⟩ := hmore rfl
    obtain ⟨fuel, rfl⟩ : ∃ k, fuel = k + 1 := ⟨fuel - 1, by omega⟩
    obtain ⟨row, tail, htail⟩ := List.exists_cons_of_ne_nil hpending
    obtain ⟨row', tail', htail'⟩ := List.exists_cons_of_ne_nil fun h => hpending (hs.pending_eq_nil_iff.mp h)
    have heq := hs.pending
    rw [htail, htail', List.map_cons, List.map_cons] at heq
    obtain ⟨hrow, htails⟩ := List.cons_eq_cons.mp heq
    -- the rows are taken, and put under the columns of the scan
    have htaken : ∀ {s : HeapCursor} {row : Row} {tail : List Row}, s.opened = true → s.pending = row :: tail →
        ∀ db, ((HeapCursor.next f (fuel + 1)).wrapError ExecError.storage >>= fun row =>
            pure (some (row.withSchema schema)) : Step _ (Option Row)).outcome (s, db)
          = (.ok (some (row.withSchema schema)), { s with pending := tail }, db) := by
      intro s row tail hopened hpending db
      have hgives : Action.Gives (· = db) (HeapCursor.next f (fuel + 1)) s (.ok row)
          fun s' => s' = { s with pending := tail } := HeapCursor.gives_next hopened hpending
      obtain ⟨s₁, db₁, hnext, rfl, rfl⟩ := hgives db rfl
      rw [Fallible.outcome_bind, Action.outcome_wrapError, hnext]
      rfl
    intro db db' hdb x t after hout
    have hright := htaken (hs.opened.trans hopened) htail' db'
    rw [hrow] at hright
    cases (htaken hopened htail db).symm.trans hout
    exact ⟨_, db', hright, hdb, hs.opened, hs.nextPage, htails⟩

/-! ### Databases -/

namespace Database

variable {n n' : Nat} {c : Catalog} {held : List Handle} {ids : List TableId} {before before' db db' : Database}

/-- Both databases have the same rows in the given tables, and the same shared aggregates.  Callers of the first one may
hold buffers and have changed other tables; nobody holds a buffer of the second one. -/
structure Mirrors (n : Nat) (c : Catalog) (held : List Handle) (before : Database) (n' : Nat) (before' : Database)
    (ids : List TableId) (db db' : Database) : Prop where
  confined : Confined n c held ids before db
  confined' : Confined n' c [] ids before' db'
  free : 0 < n'
  running : db'.running = db.running
  store : ∀ id ∈ ids, db'.store id = db.store id

namespace Mirrors

variable (h : Mirrors n c held before n' before' ids db db')

include h

theorem pageCount {f : HeapFile} (hf : c.file f.id = .ok f) (hid : f.id ∈ ids) :
    f.pageCount db'.disk = f.pageCount db.disk := by
  have hleft : f.pageCount db.disk = (db.store f.id).length :=
    (shared_of_sound h.confined.pool).pageCount_eq_length hf
  have hright : f.pageCount db'.disk = (db'.store f.id).length :=
    (shared_of_sound h.confined'.pool).pageCount_eq_length hf
  rw [hleft, hright, h.store _ hid]

/-- A page that the first database answers has the same rows in the second one. -/
theorem getPage {f : HeapFile} (hf : c.file f.id = .ok f) (hid : f.id ∈ ids) (schema : Schema) {k : Nat} {b : Buffer}
    {after : Database} (hget : (Database.getPage ⟨f.id, k⟩).outcome db = (.ok b, after)) :
    ∃ b' after', (Database.getPage ⟨f.id, k⟩).outcome db' = (.ok b', after')
      ∧ Mirrors n c held before n' before' ids after after'
      ∧ b'.page.rows.map (·.withSchema schema) = b.page.rows.map (·.withSchema schema) := by
  have hshared : Shared n c db.store held db := shared_of_sound h.confined.pool
  have hshared' : Shared n' c db'.store [] db' := shared_of_sound h.confined'.pool
  obtain ⟨hconfined, hsame⟩ := h.confined.getPage ⟨f.id, k⟩
  obtain ⟨hconfined', hsame'⟩ := h.confined'.getPage ⟨f.id, k⟩
  rw [hget] at hconfined hsame
  have hcells : (db.store f.id)[k]? = some (.ok b.page.cells) := by
    have hsound : after.Sound := hconfined.pool.sound
    have hb := buffer?_of_getPage h.confined.pool.sound.coherent (by rw [hget])
    rw [hget] at hb
    have hpage := Store.getElem?_of_page (hsound.page_of_buffer? hb)
    rw [hsame] at hpage
    exact hpage
  obtain ⟨r, after₁, hout, -, hrows⟩ := hshared.getPage hf (h.confined.fits f.id) hcells schema
  cases hget.symm.trans hout
  have hcells' : (db'.store f.id)[k]? = some (.ok b.page.cells) := by rw [h.store _ hid, hcells]
  obtain ⟨r', after', hget', -, hrows'⟩ := hshared'.getPage hf (h.confined'.fits f.id) hcells' schema
  rw [hget'] at hconfined' hsame'
  cases r' with
  | error e =>
    -- nobody is in the way, and the page can be read
    rcases hrows' with hzero | hheld | ⟨e', he'⟩
    · exact absurd hzero (Nat.pos_iff_ne_zero.mp h.free)
    · exact absurd rfl hheld
    · cases he'
  | ok b' =>
    refine ⟨b', after', hget', ⟨hconfined, hconfined', h.free, ?_, fun id hid => ?_⟩,
      Except.ok.inj (hrows'.symm.trans hrows)⟩
    · rw [hconfined.running, hconfined'.running, ← h.confined.running, ← h.confined'.running, h.running]
    · rw [hsame, hsame', h.store id hid]

/-- A row that is stored or removed among others is so alone. -/
theorem run {change : RowChange} {row : Row} (haccepts : change.Accepts row)
    (htouches : ∀ id, change.Touches [row] id → id ∈ ids) {after : Database}
    (hrun : (change.run row).outcome db = (.ok (), after)) :
    ∃ after', (change.run row).outcome db' = (.ok (), after') ∧ Mirrors n c held before n' before' ids after after' := by
  have hconfined := h.confined.run haccepts htouches
  have hconfined' := h.confined'.run haccepts htouches
  obtain ⟨r, db₁, hout, -, -, -, hdoes⟩ := RowChange.outcome_run h.confined.pool h.confined.fits haccepts
  obtain ⟨r', db₁', hout', -, -, -, hdoes'⟩ := RowChange.outcome_run h.confined'.pool h.confined'.fits haccepts
  cases hrun.symm.trans hout
  have hsame : ∀ id, change.Touches [row] id → db'.store id = db.store id := fun id hid => h.store id (htouches id hid)
  obtain ⟨hanswer, hstores⟩ := RowChange.onStore_congr (c := c) hsame
  rw [hdoes] at hanswer hstores
  rw [hrun] at hconfined
  rw [hout'] at hconfined'
  cases r' with
  | error cause =>
    rcases hdoes'.1 with hrefused | ⟨-, hzero | hheld⟩
    · rw [hrefused] at hanswer
      cases hanswer
    · exact absurd hzero (Nat.pos_iff_ne_zero.mp h.free)
    · exact absurd rfl hheld
  | ok u =>
    refine ⟨db₁', hout', ⟨hconfined, hconfined', h.free, ?_, fun id hid => ?_⟩⟩
    · rw [hconfined.running, hconfined'.running, ← h.confined.running, ← h.confined'.running, h.running]
    · have hstore := hstores id (h.store id hid)
      rw [hdoes'] at hstore
      exact hstore

end Mirrors

end Database

/-! ### Trees -/

namespace Plan

variable {n n' : Nat} {c : Catalog} {held : List Handle} {ids : List TableId} {before before' : Database} {texts : Prop}
  {p : Plan}

/-- States from which a tree does the same. -/
def Like (texts : Prop) : (p : Plan) → p.Body → p.Body → Prop
  | scan _ _ schema => HeapCursor.Like schema
  | values .. => fun (rest rest' : List Row) => rest = rest'
  | filter _ child | project _ _ child => Running.Like (child.Like texts)
  | join _ _ left right => JoinState.Like (left.Like texts) (right.Like texts)
  | insert _ _ _ child | delete _ child =>
    ChangeState.Like (child.Like texts) ((Shape.sized texts).row child) (child.Holds (Shape.sized texts))
  | aggregate _ _ child => AggregateState.Like (child.Like texts)
  | groups .. => fun (pending pending' : PendingGroups) => pending = pending'

/-- A tree that fits together does alone what it does among others, as long as the tables are the same that it reads or
changes. -/
theorem Fitting.alike (h : p.Fitting c (Filled texts)) (huses : ∀ id ∈ p.uses, id ∈ ids)
    (hchanges : ∀ id ∈ p.changes, id ∈ ids) (htexts : p.Stores → texts) (hkeys : before.KeysFit texts)
    (hkeys' : before'.KeysFit texts) (fuel : Nat) :
    (p.source fuel).Alike (Database.Mirrors n c held before n' before' ids) (p.Like texts) := by
  have hD : ∀ db db', Database.Mirrors n c held before n' before' ids db db' →
      Database.Confined n c held ids before db ∧ Database.Confined n' c [] ids before' db' :=
    fun _ _ h => ⟨h.confined, h.confined'⟩
  induction p with
  | scan target f schema =>
    have hid : f.id ∈ ids := huses _ (List.mem_singleton_self _)
    exact Source.alike_scan (fun _ _ hdb => hdb.pageCount h.1 hid)
      (fun _ _ hdb k buffer after hget => hdb.getPage h.1 hid schema hget) fuel
  | values schema rows => exact Source.alike_values rows
  | filter predicate child ih => exact (ih h huses hchanges htexts).filter fuel predicate
  | project fields schema child ih => exact (ih h.2 huses hchanges htexts).project fields schema
  | join predicate schema left right ihl ihr =>
    have hl := ihl h.2.1 (fun id hid => huses id (List.mem_append_left _ hid))
      (fun id hid => hchanges id (List.mem_append_left _ hid)) fun hs => htexts (.inl hs)
    have hr := ihr h.2.2 (fun id hid => huses id (List.mem_append_right _ hid))
      (fun id hid => hchanges id (List.mem_append_right _ hid)) fun hs => htexts (.inr hs)
    exact hl.join hr fuel predicate schema
  | insert txn table schema child ih =>
    have huses' : ∀ id ∈ child.uses, id ∈ ids := fun id hid => huses id (List.mem_cons_of_mem _ hid)
    have hchanges' : ∀ id ∈ child.changes, id ∈ ids := fun id hid => hchanges id (List.mem_cons_of_mem _ hid)
    have htexts' : child.Stores → texts := fun _ => htexts trivial
    refine (ih h.2.2 huses' hchanges' htexts').change (h.2.2.safe_sized hchanges' htexts' hkeys fuel)
      (h.2.2.safe_sized hchanges' htexts' hkeys' fuel) hD (fun row hrow db db' hdb after hrun => ?_) fuel
    obtain ⟨haccepts, htouches⟩ := RowChange.accepts_of_sized (.insert txn table schema) h htexts hrow
    refine hdb.run haccepts (fun id hid => hchanges id ?_) hrun
    rw [List.mem_singleton.mp (htouches id hid)]
    exact List.mem_cons_self
  | delete txn child ih =>
    have hchild : child.Fitting c (Filled texts) := h
    have hchanges' : ∀ id ∈ child.changes, id ∈ ids := fun id hid => hchanges id (List.mem_append_right _ hid)
    refine (ih h huses hchanges' htexts).change (hchild.safe_sized hchanges' htexts hkeys fuel)
      (hchild.safe_sized hchanges' htexts hkeys' fuel) hD (fun row hrow db db' hdb after hrun => ?_) fuel
    obtain ⟨haccepts, htouches⟩ := RowChange.accepts_of_sized (.delete txn) h htexts hrow
    exact hdb.run haccepts (fun id hid => hchanges id (List.mem_append_left _ (htouches id hid))) hrun
  | aggregate spec schema child ih => exact (ih h.2.2 huses hchanges htexts).aggregate fuel spec schema
  | groups number spec =>
    exact Source.alike_groups (fun _ _ hdb => hdb.running) number spec.group.isSome spec.op spec.resultSchema

end Plan

/-! ### Rows to come -/

namespace Running

variable {β : Type} {S : β → β → Prop} {R : Row → Prop} {I : β → Prop} {r r' : Running β}

theorem Like.symm (h : r.Like S r') (hS : ∀ b b', S b b' → S b' b) : r'.Like S r :=
  ⟨h.opened.symm, h.ahead.symm, hS _ _ h.body⟩

theorem Keeps.like (h : r.Keeps R I) (hS : ∀ b, I b → S b b) : r.Like S r :=
  ⟨rfl, rfl, hS _ h.body⟩

end Running

namespace Plan

variable {texts : Prop} {p : Plan} {b b' : p.Body}

theorem Like.symm (h : p.Like texts b b') : p.Like texts b' b := by
  induction p with
  | scan target f schema => exact ⟨h.opened.symm, h.nextPage.symm, h.pending.symm⟩
  | values schema rows => exact Eq.symm h
  | filter predicate child ih => exact Running.Like.symm h fun _ _ => ih
  | project fields schema child ih => exact Running.Like.symm h fun _ _ => ih
  | join predicate schema left right ihl ihr =>
    exact ⟨h.childEmpty.symm, h.held.symm, h.left.symm fun _ _ => ihl, h.right.symm fun _ _ => ihr⟩
  | insert txn table schema child ih =>
    exact ⟨h.count.symm, h.finished.symm, h.child.symm fun _ _ => ih, h.keeps', h.keeps⟩
  | delete txn child ih => exact ⟨h.count.symm, h.finished.symm, h.child.symm fun _ _ => ih, h.keeps', h.keeps⟩
  | aggregate spec schema child ih => exact ⟨h.results.symm, h.child.symm fun _ _ => ih⟩
  | groups number spec => exact Eq.symm h

theorem Holds.like (h : p.Holds (Shape.sized texts) b) : p.Like texts b b := by
  induction p with
  | scan target f schema => exact ⟨rfl, rfl, rfl⟩
  | values schema rows => exact rfl
  | filter predicate child ih => exact Running.Keeps.like h fun _ => ih
  | project fields schema child ih => exact Running.Keeps.like h fun _ => ih
  | join predicate schema left right ihl ihr =>
    exact ⟨rfl, rfl, h.left.like fun _ => ihl, h.right.like fun _ => ihr⟩
  | insert txn table schema child ih => exact ⟨rfl, rfl, Running.Keeps.like h fun _ => ih, h, h⟩
  | delete txn child ih => exact ⟨rfl, rfl, Running.Keeps.like h fun _ => ih, h, h⟩
  | aggregate spec schema child ih => exact ⟨rfl, h.child.like fun _ => ih⟩
  | groups number spec => exact rfl

end Plan

namespace Source

variable {β : Type} {src : Source β} {S : β → β → Prop} {rows : List Row} {r r' : Running β} {db db' : Database}

/-- The rows that somebody is handed who reads on, to the end or to the first error. -/
inductive Hands (src : Source β) : List Row → Running β → Database → Prop
  | ended {r r' : Running β} {db db' : Database} (hlook : src.hasNext.outcome (r, db) = (.ok false, r', db')) :
    Hands src [] r db
  | failed {e : ExecError} {r r' : Running β} {db db' : Database}
    (hlook : src.hasNext.outcome (r, db) = (.error e, r', db')) : Hands src [] r db
  | row {r r₁ r₂ : Running β} {db db₁ db₂ : Database} {row : Row} {rows : List Row}
    (hlook : src.hasNext.outcome (r, db) = (.ok true, r₁, db₁))
    (hnext : src.next.outcome (r₁, db₁) = (.ok row, r₂, db₂)) (hrest : Hands src rows r₂ db₂) :
    Hands src (row :: rows) r db

/-- A row that was found is handed out next. -/
theorem outcome_next_of_hasNext (h : src.hasNext.outcome (r, db) = (.ok true, r', db')) :
    ∃ row, src.next.outcome (r', db') = (.ok row, { r' with ahead := none }, db') := by
  rw [outcome_hasNext] at h
  split at h
  · next hopened =>
    cases hahead : r.ahead with
    | some row =>
      rw [hahead] at h
      cases h
      exact ⟨row, outcome_next_of_ahead hopened hahead db⟩
    | none =>
      rw [hahead, outcome_inBody] at h
      rcases hfetch : src.fetch.outcome (r.body, db) with ⟨e | row?, b, after⟩
      · rw [hfetch] at h
        cases h
      · rw [hfetch] at h
        cases row? with
        | none => cases h
        | some row =>
          cases h
          exact ⟨row, outcome_next_of_ahead (r := ⟨r.opened, some row, b⟩) hopened rfl after⟩
  · cases h

/-- All rows up to the end are what can be collected. -/
theorem hands_of_collect {fuel : Nat} (h : (src.collect fuel).outcome (r, db) = (.ok rows, r', db')) :
    src.Hands rows r db := by
  induction fuel generalizing rows r db with
  | zero => cases h
  | succ fuel ih =>
    simp only [Source.collect, Fallible.outcome_bind, Fallible.outcome_ite] at h
    rcases hlook : src.hasNext.outcome (r, db) with ⟨e | more, r₁, db₁⟩
    · rw [hlook] at h
      cases h
    · rw [hlook, Fallible.follow_ok] at h
      cases more with
      | false =>
        cases h
        exact .ended hlook
      | true =>
        obtain ⟨row, hnext⟩ := outcome_next_of_hasNext hlook
        simp only [if_true, hnext, Fallible.follow_ok] at h
        rcases hrest : (src.collect fuel).outcome ({ r₁ with ahead := none }, db₁) with ⟨e | rest, r₂, db₂⟩
        · rw [hrest] at h
          cases h
        · rw [hrest] at h
          cases h
          exact .row hlook hnext (ih hrest)

/-- Two readers are handed the same rows, if each of them is answered what the other one is. -/
theorem Alike.hands (h : src.Alike D S) (hD : ∀ db db', D db db' → D db' db) (hS : ∀ b b', S b b' → S b' b)
    (hhands : src.Hands rows r db) (hr : r.Like S r') (hdb : D db db') : src.Hands rows r' db' := by
  induction hhands generalizing r' db' with
  | ended hlook =>
    obtain ⟨s, after, hlook', -, -⟩ := h.hasNext hr _ _ hdb _ _ _ hlook
    exact .ended hlook'
  | failed hlook =>
    rcases hlook' : src.hasNext.outcome (r', db') with ⟨e' | more, s, after⟩
    · exact .failed hlook'
    · obtain ⟨t, after', hback, -, -⟩ := h.hasNext (hr.symm hS) _ _ (hD _ _ hdb) _ _ _ hlook'
      cases hlook.symm.trans hback
  | row hlook hnext hrest ih =>
    obtain ⟨s, after, hlook', hafter, hs⟩ := h.hasNext hr _ _ hdb _ _ _ hlook
    obtain ⟨s', after', hnext', hafter', hs'⟩ := h.next hs _ _ hafter _ _ _ hnext
    exact .row hlook' hnext' (ih hs' hafter')

end Source

namespace Pool

variable {n : Nat} {c : Catalog} {pool : Pool} {calls : List PoolCall}

/-- Calls that change no rows leave tables and shared aggregates as they are. -/
theorem run_quiet (h : pool.Sound n c) (hfits : pool.db.store.Each Fits) (hcalls : ∀ call ∈ calls, call.Quiet) :
    (run calls pool).Sound n c ∧ (run calls pool).db.store = pool.db.store
      ∧ (run calls pool).db.running = pool.db.running := by
  induction calls generalizing pool with
  | nil => exact ⟨h, rfl, rfl⟩
  | cons call calls ih =>
    have hcall := hcalls call List.mem_cons_self
    have hshared := (Database.shared_of_sound h).step hcall
    obtain ⟨hstore, hfits'⟩ := hshared.each_fits hfits
    obtain ⟨hsound, hstore', hrunning⟩ :=
      ih hshared.pool hfits' fun call hcall => hcalls call (List.mem_cons_of_mem _ hcall)
    exact ⟨hsound, hstore'.trans hstore, hrunning.trans (running_step h hcall)⟩

/-- Whoever lets go all buffers holds none. -/
theorem held_run_release (pool : Pool) : (run (pool.held.map .release) pool).held = [] := by
  obtain ⟨db, held⟩ := pool
  induction held generalizing db with
  | nil => rfl
  | cons hd held ih =>
    have hstep : step ⟨db, hd :: held⟩ (.release hd) = ⟨db.release hd, held⟩ := by
      rw [step, if_pos List.mem_cons_self, List.erase_cons_head]
    show (run (held.map .release) (step ⟨db, hd :: held⟩ (.release hd))).held = []
    rw [hstep]
    exact ih (db.release hd)

end Pool

namespace Database

variable {n n' : Nat} {c : Catalog} {held : List Handle} {ids : List TableId} {before db db' : Database}

/-- A database where nobody holds a buffer, with the same rows in the given tables and the same shared aggregates as
another one. -/
structure Alone (n : Nat) (c : Catalog) (ids : List TableId) (db alone : Database) : Prop where
  free : 0 < n
  pool : Pool.Sound n c ⟨alone, []⟩
  fits : alone.store.Each Fits
  running : alone.running = db.running
  store : ∀ id ∈ ids, alone.store id = db.store id

theorem Alone.mirrors {alone : Database} (h : Alone n' c ids db alone) (hdb : Confined n c held ids before db) :
    Mirrors n c held before n' alone ids db alone :=
  ⟨hdb, .refl ids h.pool h.fits, h.free, h.running, h.store⟩

theorem Mirrors.alone (h : Mirrors n c held before n' before' ids db db') : Alone n' c ids db db' :=
  ⟨h.free, h.confined'.pool, h.confined'.fits, h.running, h.store⟩

/-- Behind calls that let go everything nobody holds a buffer. -/
theorem alone_of_run {calls : List PoolCall} (hn : 0 < n) (h : Pool.Sound n c ⟨db, held⟩) (hfits : db.store.Each Fits)
    (hcalls : ∀ call ∈ calls, call.Quiet) (hheld : (Pool.run calls ⟨db, held⟩).held = []) :
    Alone n c ids db (Pool.run calls ⟨db, held⟩).db := by
  obtain ⟨hpool, hstore, hrunning⟩ := Pool.run_quiet h hfits hcalls
  replace hstore : (Pool.run calls ⟨db, held⟩).db.store = db.store := hstore
  refine ⟨hn, ?_, ?_, hrunning, fun id _ => congrFun hstore id⟩
  · rw [← hheld]
    exact hpool
  · rw [hstore]
    exact hfits

theorem Mirrors.refl (hn : 0 < n) (h : Confined n c [] ids before db) : Mirrors n c [] before n before ids db db :=
  ⟨h, h, hn, rfl, fun _ _ => rfl⟩

theorem Mirrors.symm (h : Mirrors n c [] before n before ids db db') : Mirrors n c [] before n before ids db' db :=
  ⟨h.confined', h.confined, h.free, h.running.symm, fun id hid => (h.store id hid).symm⟩

end Database

namespace Plan

variable {n fuel : Nat} {c : Catalog} {held : List Handle} {texts : Prop} {p : Plan} {rows : List Row}
  {r r' : Running p.Body} {db db' : Database}

/-- The rows that a tree has still to hand out: somebody is handed them who reads on alone, from the tables and the
shared aggregates as they are. -/
def Offers (c : Catalog) (fuel : Nat) (p : Plan) (rows : List Row) (r : Running p.Body) (db : Database) : Prop :=
  ∃ n alone, Database.Alone n c (p.uses ++ p.changes) db alone ∧ (p.source fuel).Hands rows r alone

/-- What a tree has still to hand out depends on the tables that it reads or changes, and on shared aggregates. -/
theorem Offers.congr (h : p.Offers c fuel rows r db) (hrunning : db'.running = db.running)
    (hstore : ∀ id ∈ p.uses ++ p.changes, db'.store id = db.store id) : p.Offers c fuel rows r db' := by
  obtain ⟨n, alone, halone, hhands⟩ := h
  have hids : ∀ id ∈ p.uses ++ p.changes, alone.store id = db'.store id :=
    fun id hid => (halone.store id hid).trans (hstore id hid).symm
  exact ⟨n, alone, ⟨halone.free, halone.pool, halone.fits, halone.running.trans hrunning.symm, hids⟩, hhands⟩

/-- A tree in a cache that callers share: texts are within the limit, in shared aggregates if that matters, and the rows
that operators keep have as many fields as columns. -/
structure InPlace (texts : Prop) (n : Nat) (c : Catalog) (p : Plan) (held : List Handle) (r : Running p.Body)
    (db : Database) : Prop where
  pool : Pool.Sound n c ⟨db, held⟩
  fits : db.store.Each Fits
  keys : db.KeysFit texts
  keeps : r.Keeps ((Shape.sized texts).row p) (p.Holds (Shape.sized texts))

namespace InPlace

variable (h : p.InPlace texts n c held r db)

include h

theorem confined : Database.Confined n c held p.changes db db :=
  .refl p.changes h.pool h.fits

/-- Callers that change no rows leave a tree in place. -/
theorem quiet {call : PoolCall} (hcall : call.Quiet) :
    p.InPlace texts n c (Pool.step ⟨db, held⟩ call).held r (Pool.step ⟨db, held⟩ call).db
      ∧ (Pool.step ⟨db, held⟩ call).db.store = db.store
      ∧ (Pool.step ⟨db, held⟩ call).db.running = db.running := by
  have hshared := (Database.shared_of_sound h.pool).step hcall
  obtain ⟨hstore, hfits⟩ := hshared.each_fits h.fits
  have hrunning := Pool.running_step h.pool hcall
  exact ⟨⟨hshared.pool, hfits, h.keys.congr hrunning, h.keeps⟩, hstore, hrunning⟩

/-- The rows that are collected when all buffers were let go. -/
theorem offers_of_collect (calls : List PoolCall) {k : Nat} (hn : 0 < n) (hcalls : ∀ call ∈ calls, call.Quiet)
    (hheld : (Pool.run calls ⟨db, held⟩).held = [])
    (hcollect : ((p.source fuel).collect k).outcome (r, (Pool.run calls ⟨db, held⟩).db) = (.ok rows, r', db')) :
    p.Offers c fuel rows r db :=
  ⟨n, _, Database.alone_of_run hn h.pool h.fits hcalls hheld, Source.hands_of_collect hcollect⟩

/-- What a tree does leaves it in place, and changes no tables but its own. -/
theorem of_confined (hdb : Database.Confined n c held p.changes db db')
    (hkeeps : r'.Keeps ((Shape.sized texts).row p) (p.Holds (Shape.sized texts))) :
    p.InPlace texts n c held r' db' :=
  ⟨hdb.pool, hdb.fits, h.keys.congr hdb.running, hkeeps⟩

/-- A step that keeps the sizes of rows leaves a tree in place. -/
theorem of_safe {α : Type} {a : Step (Running p.Body) α} {Q : α → Running p.Body → Prop}
    (hsafe : Action.Safe (fun _ => True) (Database.Confined n c held p.changes db) a a r Q
      (Running.Keeps ((Shape.sized texts).row p) (p.Holds (Shape.sized texts))))
    (hQ : ∀ x r', Q x r' → r'.Keeps ((Shape.sized texts).row p) (p.Holds (Shape.sized texts)))
    {res : Except ExecError α} (hout : a.outcome (r, db) = (res, r', db')) :
    p.InPlace texts n c held r' db' ∧ db'.running = db.running ∧ ∀ id, id ∉ p.changes → db'.store id = db.store id := by
  obtain ⟨res', r₁, db₁, hout', -, hdb₁, hr₁⟩ := hsafe db h.confined
  cases hout.symm.trans hout'
  refine ⟨h.of_confined hdb₁ ?_, hdb₁.running, hdb₁.store⟩
  cases res with
  | ok x => exact hQ x r' hr₁
  | error e => exact hr₁.2

variable (hplan : p.Fitting c (Filled texts)) (htexts : p.Stores → texts)

include hplan htexts

theorem safe (fuel : Nat) : (p.source fuel).Safe (p.source fuel) (Database.Confined n c held p.changes db)
    (fun _ => True) ((Shape.sized texts).row p) (p.Holds (Shape.sized texts)) :=
  hplan.safe_sized (fun _ hid => hid) htexts h.keys fuel

/-- Whatever a tree answers when it looks for a row, it is in place. -/
theorem hasNext {res : Except ExecError Bool} (hlook : (p.source fuel).hasNext.outcome (r, db) = (res, r', db')) :
    p.InPlace texts n c held r' db' ∧ db'.running = db.running ∧ ∀ id, id ∉ p.changes → db'.store id = db.store id :=
  h.of_safe ((h.safe hplan htexts fuel).hasNext h.keeps) (fun _ _ hr => hr) hlook

/-- A row that is handed out has as many fields as columns. -/
theorem next {row : Row} (hnext : (p.source fuel).next.outcome (r, db) = (.ok row, r', db')) :
    p.InPlace texts n c held r' db' ∧ row.Sized texts p.schema.arity p.located := by
  have hsafe := (h.safe hplan htexts fuel).next h.keeps
  refine ⟨(h.of_safe hsafe (fun _ _ hr => hr.2) hnext).1, ?_⟩
  obtain ⟨res, r₁, db₁, hout, -, -, hr₁⟩ := hsafe db h.confined
  cases hnext.symm.trans hout
  exact hr₁.1

/-- A tree that is closed is in place. -/
theorem close (fuel : Nat) : p.InPlace texts n c held ((p.source fuel).close r) db :=
  h.of_confined h.confined ((h.safe hplan htexts fuel).close h.keeps).2

/-- A tree that is opened is in place again. -/
theorem «open» {res : Except ExecError Unit} (hout : (p.source fuel).open.outcome (r, db) = (res, r', db')) :
    p.InPlace texts n c held r' db' :=
  (h.of_safe ((h.safe hplan htexts fuel).open h.keeps) (fun _ _ hr => hr) hout).1

/-- A tree that is rewound is in place again. -/
theorem rewind {res : Except ExecError Unit} (hout : (p.source fuel).rewind.outcome (r, db) = (res, r', db')) :
    p.InPlace texts n c held r' db' :=
  (h.of_safe ((h.safe hplan htexts fuel).rewind h.keeps) (fun _ _ hr => hr) hout).1

/-- A reader among others is answered what one is answered who reads alone. -/
theorem alike {n' : Nat} {alone : Database} (halone : Database.Alone n' c (p.uses ++ p.changes) db alone) :
    (p.source fuel).Alike (Database.Mirrors n c held db n' alone (p.uses ++ p.changes)) (p.Like texts)
      ∧ Database.Mirrors n c held db n' alone (p.uses ++ p.changes) db alone :=
  ⟨hplan.alike (fun _ hid => List.mem_append_left _ hid) (fun _ hid => List.mem_append_right _ hid) htexts h.keys
    (h.keys.congr halone.running) fuel, halone.mirrors (h.confined.mono fun _ hid => List.mem_append_right _ hid)⟩

/-- Two readers who read alone, from the same place, are handed the same rows. -/
theorem hands {n' : Nat} {alone after : Database} {rest : List Row} {t : Running p.Body}
    (halone : Database.Alone n' c (p.uses ++ p.changes) db alone)
    (hafter : Database.Confined n' c [] (p.uses ++ p.changes) alone after)
    (hhands : (p.source fuel).Hands rest t after) (hlike : r'.Like (p.Like texts) t) :
    (p.source fuel).Hands rest r' after := by
  have hkeys : alone.KeysFit texts := h.keys.congr halone.running
  have halike : (p.source fuel).Alike (Database.Mirrors n' c [] alone n' alone (p.uses ++ p.changes)) (p.Like texts) :=
    hplan.alike (fun _ hid => List.mem_append_left _ hid) (fun _ hid => List.mem_append_right _ hid) htexts hkeys hkeys
      fuel
  exact halike.hands (fun _ _ hdb => hdb.symm) (fun _ _ hb => hb.symm) hhands (hlike.symm fun _ _ hb => hb.symm)
    (.refl halone.free hafter)

/-- A tree that comes to its end among others had no more rows to hand out. -/
theorem offers_of_ended (hoffers : p.Offers c fuel rows r db)
    (hlook : (p.source fuel).hasNext.outcome (r, db) = (.ok false, r', db')) : rows = [] := by
  obtain ⟨n', alone, halone, hhands⟩ := hoffers
  obtain ⟨halike, hmirrors⟩ := h.alike hplan htexts halone
  have hlike := h.keeps.like fun _ => Holds.like
  obtain ⟨t, after, hlook', -, -⟩ := halike.hasNext hlike _ _ hmirrors _ _ _ hlook
  cases hhands with
  | ended => rfl
  | failed => rfl
  | row hlook'' => cases hlook'.symm.trans hlook''

/-- A row that is handed out among others is the first one of those to hand out, and the others are left. -/
theorem offers_of_row (hoffers : p.Offers c fuel rows r db) {r₁ : Running p.Body} {db₁ : Database} {row : Row}
    (hlook : (p.source fuel).hasNext.outcome (r, db) = (.ok true, r₁, db₁))
    (hnext : (p.source fuel).next.outcome (r₁, db₁) = (.ok row, r', db')) :
    ∃ rest, rows = row :: rest ∧ p.Offers c fuel rest r' db' := by
  obtain ⟨n', alone, halone, hhands⟩ := hoffers
  obtain ⟨halike, hmirrors⟩ := h.alike hplan htexts halone
  have hlike := h.keeps.like fun _ => Holds.like
  obtain ⟨t₁, after₁, hlook', hafter₁, hlike₁⟩ :=
    halike.hasNext hlike _ _ hmirrors _ _ _ hlook
  obtain ⟨t, after, hnext', hafter, hlike'⟩ := halike.next hlike₁ _ _ hafter₁ _ _ _ hnext
  cases hhands with
  | ended hlook'' => cases hlook'.symm.trans hlook''
  | failed hlook'' => cases hlook'.symm.trans hlook''
  | row hlook'' hnext'' hrest =>
    cases hlook'.symm.trans hlook''
    cases hnext'.symm.trans hnext''
    exact ⟨_, rfl, n', after, hafter.alone, h.hands hplan htexts halone hafter.confined' hrest hlike'⟩

end InPlace

/-- A reading tree that is opened for the first time offers its meaning, whoever is in its way. -/
theorem Built.offers (hp : p.Built c) (hn : 0 < n) (htables : ∀ id ∈ p.tables, (db.store id).Usable)
    (hplan : p.Fitting c (Filled texts)) (htexts : p.Stores → texts)
    (h : p.InPlace texts n c held (Running.closed p.fresh) db) :
    ∃ k, ∀ fuel, k ≤ fuel → ∀ r db', (p.source fuel).open.outcome (Running.closed p.fresh, db) = (.ok (), r, db') →
      p.Offers c fuel (p.meaning db.store) r db' := by
  -- the database where everything was let go, in which the tree is opened and read as well
  have hreleases : ∀ call ∈ held.map PoolCall.release, call.Quiet := by
    intro call hcall
    obtain ⟨hd, -, rfl⟩ := List.mem_map.mp hcall
    trivial
  have halone : Database.Alone n c (p.uses ++ p.changes) db (Pool.run (held.map .release) ⟨db, held⟩).db :=
    Database.alone_of_run hn h.pool h.fits hreleases (Pool.held_run_release ⟨db, held⟩)
  have hstore := (Pool.run_quiet h.pool h.fits hreleases).2.1
  generalize (Pool.run (held.map .release) ⟨db, held⟩).db = alone at halone hstore
  replace hstore : alone.store = db.store := hstore
  have hready : Database.Ready c alone := ⟨halone.pool.sound, halone.pool.tended.idle hn rfl, halone.pool.catalog⟩
  have hsteady : Database.Steady c db.store alone := ⟨hready, hstore ▸ Store.CutTo.refl _⟩
  have hcatalog : alone.catalog = c := hready.catalog
  have hproper : c.Proper := hcatalog ▸ hready.sound.proper
  have htyped : db.store.Typed c := hstore ▸ hready.typed
  obtain ⟨k, hk⟩ := hp.yields hproper htyped htables
  refine ⟨k, fun fuel hfuel r db' hopen => ?_⟩
  obtain ⟨Shut, Live, At, hfollows, hfresh⟩ := hk fuel hfuel
  obtain ⟨halike, hmirrors⟩ := h.alike hplan htexts halone
  obtain ⟨t, after, hopen', hafter, hlike⟩ :=
    halike.open (h.keeps.like fun _ => Holds.like) _ _ hmirrors _ _ _ hopen
  obtain ⟨t', after', hopen'', hsteady', hstands⟩ := hfollows.open (opens_fresh hfresh) alone hsteady
  cases hopen'.symm.trans hopen''
  obtain ⟨_, _, hcollect, -⟩ := hfollows.collect (Nat.lt_succ_self _) hstands after hsteady'
  exact ⟨n, after, hafter.alone, h.hands hplan htexts halone hafter.confined' (Source.hands_of_collect hcollect) hlike⟩

end Plan

end RelStore
