/-
What an aggregate hands out, given what its child does.

* `AggregateSpec.absorbed` — the groups after some rows, or why a row or the end of them failed;
* `emitted` — the result rows of some groups up to the first one that has no value;
* `Source.Follows.absorbAll` — the loop over the child comes to these groups;
* `Source.Follows.aggregate` — an aggregate hands out what is emitted for the groups of all rows;
* `Source.Follows.open_aggregate_fail` — without groups it does not even open.
-/
import RelStore.Proofs.Query.Protocol
import RelStore.Plan

namespace RelStore

open RelStore.Action (Gives Ends)
open Running (IsShut IsLive Opens Holds Stands)

variable {β : Type} {P : Database → Prop} {xs rest : List Row} {err : Option ExecError} {e : ExecError}

/-- The groups after some rows. With `err` the rows end in a failure. -/
def AggregateSpec.absorbed (spec : AggregateSpec) (err : Option ExecError) :
    Groups → List Row → Except ExecError Groups
  | groups, [] => match err with
    | none => .ok groups
    | some e => .error e
  | groups, row :: rows => match spec.absorb groups row with
    | .ok groups => spec.absorbed err groups rows
    | .error e => .error e

/-- The result rows of some groups, and why the first group without a value has none. -/
def emitted (op : AggregateOp) (schema : Schema) : PendingGroups → List Row × Option ExecError
  | [] => ([], none)
  | (key, stat) :: rest => match stat.emit op with
    | .ok value =>
      (⟨schema, key.toList ++ [.int value], none⟩ :: (emitted op schema rest).1, (emitted op schema rest).2)
    | .error e => ([], some (.aggregate e))

namespace Source

variable {op : AggregateOp} {schema : Schema} {pending : PendingGroups} {x : Row}

/-! ### Results -/

theorem fetchGroup_row (h : emitted op schema pending = (x :: rest, err)) :
    Gives P (fetchGroup op schema) pending (.ok (some x)) fun p => emitted op schema p = (rest, err) := by
  cases pending with
  | nil => cases h
  | cons group pending =>
    obtain ⟨key, stat⟩ := group
    rw [emitted] at h
    split at h
    · next value hvalue =>
      cases h
      refine Action.gives_state.bind ?_
      rintro _ rfl
      refine Gives.bind (Action.gives_update (Q := fun p => p = pending) rfl) ?_
      rintro _ rfl
      rw [hvalue]
      exact fun db hdb => ⟨_, db, rfl, hdb, rfl⟩
    · cases h

theorem fetchGroup_nil (h : emitted op schema pending = ([], err)) :
    Ends P (fetchGroup op schema) pending none err (fun p => emitted op schema p = ([], err)) fun _ => True := by
  cases pending with
  | nil =>
    cases h
    exact fun db hdb => ⟨[], db, rfl, hdb, rfl⟩
  | cons group pending =>
    obtain ⟨key, stat⟩ := group
    rw [emitted] at h
    split at h
    · cases h
    · next e' he =>
      cases h
      refine Action.gives_state.bind_ends ?_
      rintro _ rfl
      refine Gives.bind_ends (Action.gives_update (Q := fun p => p = pending) rfl) ?_
      rintro _ rfl
      rw [he]
      exact fun db hdb => ⟨_, db, rfl, hdb, trivial⟩

namespace Follows

variable {child : Source β} {Shut Live : β → Prop} {At : List Row → β → Prop} {r : Running β}
  {spec : AggregateSpec} {groups : Groups} {fuel : Nat}
  (h : child.Follows P Shut Live At xs err)

include h

/-! ### Groups -/

/-- Reading the child to its end takes every row into its group. -/
theorem absorbAll (hfuel : rest.length < fuel) (hr : Stands At rest r) :
    Gives P (Source.absorbAll spec child groups fuel) r (spec.absorbed err groups rest) (IsLive Live) := by
  -- the groups so far are those of the rows that were read, so they change along
  induction rest generalizing r groups fuel with
  | nil =>
    obtain ⟨fuel, rfl⟩ : ∃ n, fuel = n + 1 := ⟨fuel - 1, by omega⟩
    have hends : Ends P (Source.absorbAll spec child groups (fuel + 1)) r groups err (IsLive Live) (IsLive Live) :=
      h.takeNone hr fun r₁ hr₁ => Action.gives_pure (h.isLive hr₁)
    cases err with
    | none => exact hends
    | some e => exact hends
  | cons x rest ih =>
    obtain ⟨fuel, rfl⟩ : ∃ n, fuel = n + 1 := ⟨fuel - 1, by omega⟩
    refine h.takeRow hr fun r₁ hr₁ => ?_
    rw [AggregateSpec.absorbed]
    cases spec.absorb groups x with
    | ok groups =>
      refine Gives.bind (Action.gives_ofExcept (Q := fun r => r = r₁) rfl) ?_
      rintro _ rfl
      exact ih (by simpa using hfuel) hr₁
    | error e => exact (Action.gives_ofExcept (h.isLive hr₁)).bind_error

/-- The results over all rows stand ready after a start. -/
theorem startAggregate (hfuel : xs.length < fuel) {s : AggregateState β}
    {reset : Step (Running β) Unit} (hreset : Gives P reset s.child (.ok ()) (Stands At xs))
    (hgroups : spec.absorbed err {} xs = .ok groups) :
    Gives P (Source.startAggregate fuel spec child reset) s (.ok ()) fun s =>
      s.results = some (snapshot spec.group.isSome groups) ∧ IsLive Live s.child := by
  refine Gives.bind (Q := fun s => Stands At xs s.child) (hreset.on fun r hr => hr) fun s₁ hs₁ => ?_
  have habsorb : Gives P (Source.absorbAll spec child {} fuel) s₁.child (spec.absorbed err {} xs) (IsLive Live) :=
    h.absorbAll hfuel hs₁
  rw [hgroups] at habsorb
  refine Gives.bind (Q := fun s => IsLive Live s.child) (habsorb.on fun r hr => hr) fun s₂ hs₂ => ?_
  exact Action.gives_update ⟨rfl, hs₂⟩

/-- An aggregate hands out the results over all rows of its child. -/
theorem aggregate (hfuel : xs.length < fuel) (hgroups : spec.absorbed err {} xs = .ok groups) :
    (Source.aggregate fuel spec schema child).Follows P (fun s => Opens Shut Live s.child)
      (fun s => s.results.isSome = true ∧ IsLive Live s.child)
      (fun rows s => IsLive Live s.child ∧ ∃ pending, s.results = some pending
        ∧ emitted spec.op schema pending
          = (rows, (emitted spec.op schema (snapshot spec.group.isSome groups)).2))
      (emitted spec.op schema (snapshot spec.group.isSome groups)).1
      (emitted spec.op schema (snapshot spec.group.isSome groups)).2 := by
  refine ⟨?_, ?_, ?_, ?_, ?_, ?_⟩
  · rintro rows s ⟨hlive, pending, hresults, -⟩
    exact ⟨by rw [hresults]; rfl, hlive⟩
  · intro s hs
    exact (h.startAggregate hfuel (h.open hs) hgroups).mono fun s hs => ⟨hs.2, _, hs.1, rfl⟩
  · intro s hs
    exact (h.startAggregate hfuel (h.rewind hs.2) hgroups).mono fun s hs => ⟨hs.2, _, hs.1, rfl⟩
  · rintro s (hs | hs)
    · exact .inl (h.close hs)
    · exact .inl (h.close (.inr hs.2))
  · rintro x rows s ⟨hlive, pending, hresults, hrows⟩
    refine Action.gives_state.bind ?_
    rintro _ rfl
    rw [hresults]
    exact (fetchGroup_row hrows).on fun p hp => ⟨hlive, p, rfl, hp⟩
  · rintro s ⟨hlive, pending, hresults, hrows⟩
    refine Action.gives_state.bind_ends ?_
    rintro _ rfl
    rw [hresults]
    exact (fetchGroup_nil hrows).on (fun p hp => ⟨hlive, p, rfl, hp⟩) fun p _ => ⟨rfl, hlive⟩

/-- An aggregate does not open when a row cannot be taken into its group, or when its child fails. -/
theorem open_aggregate_fail (hfuel : xs.length < fuel) (hgroups : spec.absorbed err {} xs = .error e)
    {s : AggregateState β} (hs : Opens Shut Live s.child) :
    Gives P (Source.aggregate fuel spec schema child).openBody s (.error e) fun _ => True := by
  refine Gives.bind (Q := fun s => Stands At xs s.child) ((h.open hs).on fun r hr => hr) fun s₁ hs₁ => ?_
  have habsorb : Gives P (Source.absorbAll spec child {} fuel) s₁.child (spec.absorbed err {} xs) (IsLive Live) :=
    h.absorbAll hfuel hs₁
  rw [hgroups] at habsorb
  exact Gives.bind_error (habsorb.on fun r _ => trivial)

end Follows

end Source

end RelStore
