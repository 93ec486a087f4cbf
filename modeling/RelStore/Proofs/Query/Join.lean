/-
What a nested-loop join hands out.

* `pairs` — every left row with every right row, left by left;
* `Source.Follows.join` — the accepted pairs, when neither child is empty;
* `Source.Follows.join_of_knownEmpty` — nothing, when one of them is known to be empty;
* `Source.Follows.startPairs_nil` — an empty child is found out when the join is opened, unless the child fails.

Design notes.  What a join still has to hand out is told by its candidates: the pairs of the held left row with
what is left of the right child, and then all pairs of what is left of the left child.  One step takes the first
candidate (`Source.nextPair_cons`), whether or not it crosses from one left row to the next.  When the right child
fails at its end, no later left row is ever paired.
-/
import RelStore.Proofs.Query.Protocol
import RelStore.Operator.Join

namespace RelStore

open RelStore.Action (Gives Ends)
open Running (IsShut IsLive Opens Holds Stands)

/-- Every left row with every right row, left by left. -/
def pairs (ls rs : List Row) : List (Row × Row) :=
  ls.flatMap fun l => rs.map (l, ·)

/-- The rows of a join for some candidate pairs. -/
def joinRows (p : JoinPredicate) (schema : Schema) (cs : List (Row × Row)) : List Row :=
  (cs.filter fun c => p.accepts c.1 c.2).map fun c => Row.append schema c.1 c.2

theorem pairs_cons (l : Row) (ls rs : List Row) : pairs (l :: ls) rs = rs.map (l, ·) ++ pairs ls rs :=
  List.flatMap_cons

theorem length_pairs (ls rs : List Row) : (pairs ls rs).length = ls.length * rs.length := by
  induction ls with
  | nil => simp [pairs]
  | cons l ls ih =>
    rw [pairs_cons, List.length_append, List.length_map, ih, List.length_cons, Nat.succ_mul]
    omega

/-- The candidates behind the right rows of the held left row: none if the right child fails there. -/
def laterPairs (er : Option ExecError) (ls rs : List Row) : List (Row × Row) :=
  if er = none then pairs ls rs else []

/-- All candidates of a join, if the right child ends with `er`. -/
def allPairs (er : Option ExecError) : List Row → List Row → List (Row × Row)
  | [], _ => []
  | l :: ls, rs => rs.map (l, ·) ++ laterPairs er ls rs

theorem allPairs_none (ls rs : List Row) : allPairs none ls rs = pairs ls rs := by
  cases ls with
  | nil => rfl
  | cons l ls => rw [allPairs, laterPairs, if_pos rfl, pairs_cons]

namespace Source

variable {β γ : Type} {P : Database → Prop} {left : Source β} {right : Source γ}
  {SL LL : β → Prop} {AL : List Row → β → Prop} {SR LR : γ → Prop} {AR : List Row → γ → Prop}
  {xs ys ls ls' rs rs' : List Row} {el er : Option ExecError} {x y : Row} {e : ExecError} {flag : Bool}
  {s : JoinState β γ} {c : Row × Row} {cs : List (Row × Row)}

/-- Both children can be rewound. -/
def BothLive (LL : β → Prop) (LR : γ → Prop) (s : JoinState β γ) : Prop :=
  IsLive LL s.left ∧ IsLive LR s.right

/-- Both children can be opened. -/
def BothOpen (SL LL : β → Prop) (SR LR : γ → Prop) (s : JoinState β γ) : Prop :=
  Opens SL LL s.left ∧ Opens SR LR s.right

/-- No row is held, and the children stand at the given rows. -/
def Between (AL : List Row → β → Prop) (AR : List Row → γ → Prop) (flag : Bool) (ls rs : List Row)
    (s : JoinState β γ) : Prop :=
  s.childEmpty = flag ∧ s.held = none ∧ Stands AL ls s.left ∧ Stands AR rs s.right

/-- The left row `x` is held, and the children stand at the given rows. -/
def Paired (AL : List Row → β → Prop) (AR : List Row → γ → Prop) (x : Row) (ls rs : List Row)
    (s : JoinState β γ) : Prop :=
  s.childEmpty = false ∧ s.held = some x ∧ Stands AL ls s.left ∧ Stands AR rs s.right

/-- The pairs that a join of two children that are not empty has still to look at: before the first pair, behind
some pair, or when there are none left. -/
def Candidates (AL : List Row → β → Prop) (AR : List Row → γ → Prop) (ys : List Row)
    (el er : Option ExecError) (cs : List (Row × Row)) (s : JoinState β γ) : Prop :=
  (∃ x ls, cs = ys.map (x, ·) ++ laterPairs er ls ys ∧ Between AL AR false (x :: ls) ys s)
    ∨ (∃ x ls rs, cs = rs.map (x, ·) ++ laterPairs er ls ys ∧ Paired AL AR x ls rs s)
    ∨ (cs = [] ∧ el = none ∧ er = none ∧ Between AL AR false [] [] s)

theorem Between.onLeft {α : Type} {a : Step (Running β) α} {res : Except ExecError α}
    (hs : Between AL AR flag ls rs s) (ha : Gives P a s.left res (Stands AL ls')) :
    Gives P (onLeft a) s res (Between AL AR flag ls' rs) :=
  ha.on fun _ h => ⟨hs.1, hs.2.1, h, hs.2.2.2⟩

theorem Between.onRight {α : Type} {a : Step (Running γ) α} {res : Except ExecError α}
    (hs : Between AL AR flag ls rs s) (ha : Gives P a s.right res (Stands AR rs')) :
    Gives P (onRight a) s res (Between AL AR flag ls rs') :=
  ha.on fun _ h => ⟨hs.1, hs.2.1, hs.2.2.1, h⟩

/-- A child that comes to its end, even by a failure, leaves both children live. -/
theorem Between.onLeft_ends {α : Type} {a : Step (Running β) α} {v : α} (hs : Between AL AR flag ls rs s)
    (hr : right.Follows P SR LR AR ys er) (ha : Ends P a s.left v el (Stands AL ls') (IsLive LL)) :
    Ends P (Source.onLeft a) s v el (Between AL AR flag ls' rs) (BothLive LL LR) :=
  ha.on (fun _ h => ⟨hs.1, hs.2.1, h, hs.2.2.2⟩) fun _ h => ⟨h, hr.isLive hs.2.2.2⟩

theorem Between.onRight_ends {α : Type} {a : Step (Running γ) α} {v : α} (hs : Between AL AR flag ls rs s)
    (hl : left.Follows P SL LL AL xs el) (ha : Ends P a s.right v er (Stands AR rs') (IsLive LR)) :
    Ends P (Source.onRight a) s v er (Between AL AR flag ls rs') (BothLive LL LR) :=
  ha.on (fun _ h => ⟨hs.1, hs.2.1, hs.2.2.1, h⟩) fun _ h => ⟨hl.isLive hs.2.2.1, h⟩

theorem Between.takeLeft (hs : Between AL AR false (x :: ls) rs s)
    (hl : left.Follows P SL LL AL xs el) :
    Gives P (Source.takeLeft left) s (.ok (some x)) (Between AL AR false ls rs) := by
  refine Action.gives_state.bind ?_
  rintro _ rfl
  rw [hs.2.1]
  refine (hs.onLeft (hl.hasNext_stands hs.2.2.1)).bind fun s₁ hs₁ => ?_
  exact (hs₁.onLeft (hl.next_cons hs₁.2.2.1)).bind fun s₂ hs₂ => Action.gives_pure hs₂

theorem Paired.takeLeft (hs : Paired AL AR x ls rs s) :
    Gives P (Source.takeLeft left) s (.ok (some x)) (Between AL AR false ls rs) := by
  refine Action.gives_state.bind ?_
  rintro _ rfl
  rw [hs.2.1]
  refine Gives.bind (Action.gives_update (Q := Between AL AR false ls rs) ⟨hs.1, rfl, hs.2.2⟩) ?_
  exact fun s₁ hs₁ => Action.gives_pure hs₁

namespace Follows

section

variable (hl : left.Follows P SL LL AL xs el) (hr : right.Follows P SR LR AR ys er)

include hl hr

/-! ### One pair after the other -/

/-- Once a left row is taken, the next right row goes with it; behind the last right row, the next left row goes
with the first right row. -/
theorem advanceLeft_cons (hys : ys ≠ []) (hs : Between AL AR false ls rs s)
    (hcs : c :: cs = rs.map (x, ·) ++ laterPairs er ls ys) :
    ∃ ls' rs', Gives P (advanceLeft left right x) s (.ok (some c.1)) (Between AL AR false ls' (c.2 :: rs'))
      ∧ cs = rs'.map (c.1, ·) ++ laterPairs er ls' ys := by
  cases rs with
  | cons y rs =>
    cases hcs
    refine ⟨ls, rs, ?_, rfl⟩
    refine (hs.onRight (hr.hasNext_stands hs.2.2.2)).bind fun s₁ hs₁ => Action.gives_pure hs₁
  | nil =>
    rw [List.map_nil, List.nil_append, laterPairs] at hcs
    -- behind the last right row there are candidates only if the right child ends without a failure
    split at hcs
    · next her =>
      cases ls with
      | nil => cases hcs
      | cons l ls =>
        cases ys with
        | nil => exact absurd rfl hys
        | cons y ys =>
          cases hcs
          refine ⟨ls, ys, ?_, by rw [laterPairs, if_pos her]; rfl⟩
          subst her
          refine (hs.onRight (hr.hasNext_nil hs.2.2.2)).bind fun s₁ hs₁ => ?_
          refine (hs₁.onLeft (hl.hasNext_stands hs₁.2.2.1)).bind fun s₂ hs₂ => ?_
          refine (hs₂.onRight (hr.rewind (hr.isLive hs₂.2.2.2))).bind fun s₃ hs₃ => ?_
          exact (hs₃.onLeft (hl.next_cons hs₃.2.2.1)).bind fun s₄ hs₄ => Action.gives_pure hs₄
    · cases hcs

/-- Without candidates the children come to their ends, the right one first. -/
theorem advanceLeft_nil (hys : ys ≠ []) (hs : Between AL AR false ls rs s)
    (hcs : [] = rs.map (x, ·) ++ laterPairs er ls ys) :
    Ends P (advanceLeft left right x) s none (er.or el) (Between AL AR false [] []) (BothLive LL LR) := by
  obtain ⟨hrs, hlater⟩ := List.append_eq_nil_iff.mp hcs.symm
  obtain rfl := List.map_eq_nil_iff.mp hrs
  refine (hs.onRight_ends hl (hr.hasNext_nil hs.2.2.2)).bind_ends fun s₁ her hs₁ => ?_
  -- with rows on both sides there would be pairs behind the end of the right child
  obtain rfl : ls = [] := by
    rw [laterPairs, if_pos her, ← List.length_eq_zero_iff, length_pairs, Nat.mul_eq_zero] at hlater
    exact List.length_eq_zero_iff.mp (hlater.resolve_right fun h => hys (List.length_eq_zero_iff.mp h))
  exact (hs₁.onLeft_ends hr (hl.hasNext_nil hs₁.2.2.1)).bind fun s₂ _ hs₂ => Action.gives_pure hs₂

/-- A join takes the first of its candidates. -/
theorem nextPair_cons (hys : ys ≠ []) (hs : Candidates AL AR ys el er (c :: cs) s) :
    Gives P (nextPair left right) s (.ok (some c)) (Candidates AL AR ys el er cs) := by
  -- whether a row is held or not, the next left row is taken and the right child stands before its partners
  have htake : s.childEmpty = false ∧ ∃ x ls rs, c :: cs = rs.map (x, ·) ++ laterPairs er ls ys
      ∧ Gives P (takeLeft left) s (.ok (some x)) (Between AL AR false ls rs) := by
    rcases hs with ⟨x, ls, hcs, hs⟩ | ⟨x, ls, rs, hcs, hs⟩ | ⟨hcs, -⟩
    · exact ⟨hs.1, x, ls, ys, hcs, hs.takeLeft hl⟩
    · exact ⟨hs.1, x, ls, rs, hcs, hs.takeLeft⟩
    · cases hcs
  obtain ⟨hflag, x, ls, rs, hcs, htake⟩ := htake
  refine Action.gives_state.bind ?_
  rintro _ rfl
  rw [hflag]
  refine htake.bind fun s₁ hs₁ => ?_
  obtain ⟨ls', rs', hadvance, hcs'⟩ := advanceLeft_cons hl hr hys hs₁ hcs
  refine hadvance.bind fun s₂ hs₂ => ?_
  refine (hs₂.onRight (hr.next_cons hs₂.2.2.2)).bind fun s₃ hs₃ => ?_
  refine Gives.bind (Action.gives_update (Q := Paired AL AR c.1 ls' rs')
    ⟨hs₃.1, rfl, hs₃.2.2⟩) fun s₄ hs₄ => ?_
  exact Action.gives_pure (.inr (.inl ⟨c.1, ls', rs', hcs', hs₄⟩))

/-- Without candidates a join is at its end. -/
theorem nextPair_nil (hys : ys ≠ []) (hs : Candidates AL AR ys el er [] s) :
    Ends P (nextPair left right) s none (er.or el) (Candidates AL AR ys el er []) (BothLive LL LR) := by
  have hcases : s.childEmpty = false ∧ ((∃ x ls rs, [] = rs.map (x, ·) ++ laterPairs er ls ys
        ∧ Gives P (takeLeft left) s (.ok (some x)) (Between AL AR false ls rs))
      ∨ el = none ∧ er = none ∧ Between AL AR false [] [] s) := by
    rcases hs with ⟨x, ls, hcs, hs⟩ | ⟨x, ls, rs, hcs, hs⟩ | ⟨-, hel, her, hs⟩
    · exact ⟨hs.1, .inl ⟨x, ls, ys, hcs, hs.takeLeft hl⟩⟩
    · exact ⟨hs.1, .inl ⟨x, ls, rs, hcs, hs.takeLeft⟩⟩
    · exact ⟨hs.1, .inr ⟨hel, her, hs⟩⟩
  obtain ⟨hflag, hcases⟩ := hcases
  refine Action.gives_state.bind_ends ?_
  rintro s rfl
  rw [hflag]
  rcases hcases with ⟨x, ls, rs, hcs, htake⟩ | ⟨hel, her, hbetween⟩
  · refine htake.bind_ends fun s₁ hs₁ => ?_
    refine (advanceLeft_nil hl hr hys hs₁ hcs).bind fun s₂ herr hs₂ => ?_
    obtain ⟨her, hel⟩ := Option.or_eq_none_iff.mp herr
    exact Action.gives_pure (.inr (.inr ⟨rfl, hel, her, hs₂⟩))
  · -- an ended join takes no left row
    subst hel her
    have htake : Gives P (takeLeft left) s (.ok none) (Between AL AR false [] []) := by
      refine Action.gives_state.bind ?_
      rintro _ rfl
      rw [hbetween.2.1]
      exact (hbetween.onLeft (hl.hasNext_nil hbetween.2.2.1)).bind fun s₁ hs₁ => Action.gives_pure hs₁
    exact htake.bind fun s₁ hs₁ => Action.gives_pure (.inr (.inr ⟨rfl, rfl, rfl, hs₁⟩))

theorem bothLive_of_candidates (hs : Candidates AL AR ys el er cs s) : BothLive LL LR s := by
  rcases hs with ⟨x, ls, -, -, -, h⟩ | ⟨x, ls, rs, -, -, -, h⟩ | ⟨-, -, -, -, -, h⟩
  · exact ⟨hl.isLive h.1, hr.isLive h.2⟩
  · exact ⟨hl.isLive h.1, hr.isLive h.2⟩
  · exact ⟨hl.isLive h.1, hr.isLive h.2⟩

/-! ### Accepted pairs -/

variable {p : JoinPredicate} {schema : Schema} {fuel : Nat} {tail : List Row}

/-- The search for an accepted pair passes over the others. -/
theorem fetchPair_row (hys : ys ≠ []) (hfuel : cs.length < fuel)
    (hs : Candidates AL AR ys el er cs s) (hcs : joinRows p schema cs = x :: tail) :
    Gives P (fetchPair p schema left right fuel) s (.ok (some x)) fun s =>
      ∃ cs', cs'.length < cs.length ∧ joinRows p schema cs' = tail
        ∧ Candidates AL AR ys el er cs' s := by
  -- every step uses up one candidate, whatever the predicate says
  induction cs generalizing s fuel with
  | nil => cases hcs
  | cons c cs ih =>
    obtain ⟨fuel, rfl⟩ : ∃ n, fuel = n + 1 := ⟨fuel - 1, by omega⟩
    refine (nextPair_cons hl hr hys hs).bind fun s₁ hs₁ => ?_
    rw [joinRows, List.filter_cons] at hcs
    by_cases hc : p.accepts c.1 c.2 = true
    · rw [if_pos hc] at hcs
      simp only [if_pos hc]
      cases hcs
      exact Action.gives_pure ⟨cs, Nat.lt_succ_self _, rfl, hs₁⟩
    · rw [if_neg hc] at hcs
      simp only [if_neg hc]
      refine (ih (by simpa using hfuel) hs₁ hcs).mono fun s₂ hs₂ => ?_
      obtain ⟨cs', hlen, htail, hcand⟩ := hs₂
      exact ⟨cs', Nat.lt_succ_of_lt hlen, htail, hcand⟩

/-- The search for an accepted pair among none comes to the end of the join. -/
theorem fetchPair_nil (hys : ys ≠ []) (hfuel : cs.length < fuel)
    (hs : Candidates AL AR ys el er cs s) (hcs : joinRows p schema cs = []) :
    Ends P (fetchPair p schema left right fuel) s none (er.or el) (Candidates AL AR ys el er [])
      (BothLive LL LR) := by
  induction cs generalizing s fuel with
  | nil =>
    obtain ⟨fuel, rfl⟩ : ∃ n, fuel = n + 1 := ⟨fuel - 1, by omega⟩
    exact (nextPair_nil hl hr hys hs).bind fun s₁ _ hs₁ => Action.gives_pure hs₁
  | cons c cs ih =>
    obtain ⟨fuel, rfl⟩ : ∃ n, fuel = n + 1 := ⟨fuel - 1, by omega⟩
    refine (nextPair_cons hl hr hys hs).bind_ends fun s₁ hs₁ => ?_
    rw [joinRows, List.filter_cons] at hcs
    by_cases hc : p.accepts c.1 c.2 = true
    · rw [if_pos hc] at hcs
      cases hcs
    · rw [if_neg hc] at hcs
      simp only [if_neg hc]
      exact ih (by simpa using hfuel) hs₁ hcs

/-! ### Opening -/

omit hl hr in
/-- Both children are brought to their first rows before the pairs are started. -/
theorem gives_reset {A : Step (Running β) Unit} {B : Step (Running γ) Unit} {Q : JoinState β γ → Prop}
    {res : Except ExecError Unit} (ha : Gives P A s.left (.ok ()) (Stands AL xs))
    (hb : Gives P B s.right (.ok ()) (Stands AR ys))
    (hstart : ∀ s : JoinState β γ, Stands AL xs s.left → Stands AR ys s.right →
      Gives P (startPairs left right) s res Q) :
    Gives P (do onLeft A; onRight B; startPairs left right) s res Q := by
  refine Gives.bind (Q := fun s₁ => Stands AL xs s₁.left ∧ s₁.right = s.right)
    (ha.on fun l h => ⟨h, rfl⟩) fun s₁ hs₁ => ?_
  refine Gives.bind (Q := fun s₂ => Stands AL xs s₂.left ∧ Stands AR ys s₂.right)
    (Gives.on (by rw [hs₁.2]; exact hb) fun r h => ⟨hs₁.1, h⟩) fun s₂ hs₂ => ?_
  exact hstart s₂ hs₂.1 hs₂.2

omit hl hr in
theorem gives_dropHeld (hleft : Stands AL ls s.left) (hright : Stands AR rs s.right) :
    Gives P (Action.update (fun s => { s with held := none }) : Step (JoinState β γ) Unit) s (.ok ())
      (Between AL AR s.childEmpty ls rs) :=
  Action.gives_update ⟨rfl, rfl, hleft, hright⟩

/-- With rows on both sides the join stands before the first pair. -/
theorem startPairs_cons (hxs : xs ≠ []) (hys : ys ≠ []) (hleft : Stands AL xs s.left)
    (hright : Stands AR ys s.right) :
    Gives P (startPairs left right) s (.ok ()) (Candidates AL AR ys el er (allPairs er xs ys)) := by
  obtain ⟨x, xs, rfl⟩ := List.exists_cons_of_ne_nil hxs
  obtain ⟨y, ys, rfl⟩ := List.exists_cons_of_ne_nil hys
  refine (gives_dropHeld hleft hright).bind fun s₁ hs₁ => ?_
  refine (hs₁.onLeft (hl.hasNext_stands hs₁.2.2.1)).bind fun s₂ hs₂ => ?_
  refine (hs₂.onRight (hr.hasNext_stands hs₂.2.2.2)).bind fun s₃ hs₃ => ?_
  exact Action.gives_update (.inl ⟨x, xs, rfl, rfl, hs₃.2⟩)

/-- The join knows that a child is empty. -/
def KnownEmpty (LL : β → Prop) (LR : γ → Prop) (s : JoinState β γ) : Prop :=
  s.childEmpty = true ∧ BothLive LL LR s

/-- Without left rows the right child is not asked. -/
theorem startPairs_left_nil (hxs : xs = []) (hleft : Stands AL xs s.left)
    (hright : Stands AR ys s.right) :
    Ends P (startPairs left right) s () el (KnownEmpty LL LR) (BothLive LL LR) := by
  subst hxs
  refine (gives_dropHeld hleft hright).bind_ends fun s₁ hs₁ => ?_
  refine (hs₁.onLeft_ends hr (hl.hasNext_nil hs₁.2.2.1)).bind fun s₂ _ hs₂ => ?_
  show Gives P (Action.update fun s => { s with childEmpty := true }) s₂ _ _
  exact Action.gives_update ⟨rfl, hl.isLive hs₂.2.2.1, hr.isLive hs₂.2.2.2⟩

theorem startPairs_right_nil (hxs : xs ≠ []) (hys : ys = []) (hleft : Stands AL xs s.left)
    (hright : Stands AR ys s.right) :
    Ends P (startPairs left right) s () er (KnownEmpty LL LR) (BothLive LL LR) := by
  subst hys
  obtain ⟨x, xs, rfl⟩ := List.exists_cons_of_ne_nil hxs
  refine (gives_dropHeld hleft hright).bind_ends fun s₁ hs₁ => ?_
  refine (hs₁.onLeft (hl.hasNext_stands hs₁.2.2.1)).bind_ends fun s₂ hs₂ => ?_
  refine (hs₂.onRight_ends hl (hr.hasNext_nil hs₂.2.2.2)).bind fun s₃ _ hs₃ => ?_
  show Gives P (Action.update fun s => { s with childEmpty := true }) s₃ _ _
  exact Action.gives_update ⟨rfl, hl.isLive hs₃.2.2.1, hr.isLive hs₃.2.2.2⟩

/-- How a join with an empty child ends: as the left child if that one is empty, else as the right one. -/
def emptyEnd (xs : List Row) (el er : Option ExecError) : Option ExecError :=
  if xs = [] then el else er

/-- A join finds out that a child is empty, unless that child fails. -/
theorem startPairs_nil (hempty : xs = [] ∨ ys = []) (hleft : Stands AL xs s.left)
    (hright : Stands AR ys s.right) :
    Ends P (startPairs left right) s () (emptyEnd xs el er) (KnownEmpty LL LR) (BothLive LL LR) := by
  rw [emptyEnd]
  by_cases hxs : xs = []
  · rw [if_pos hxs]
    exact startPairs_left_nil hl hr hxs hleft hright
  · rw [if_neg hxs]
    exact startPairs_right_nil hl hr hxs (hempty.resolve_left hxs) hleft hright

/-- Closing a join closes its children. -/
theorem close_join {s : JoinState β γ} (hs : BothOpen SL LL SR LR s ∨ BothLive LL LR s) :
    BothOpen SL LL SR LR ((Source.join fuel p schema left right).closeBody s) := by
  rcases hs with hs | hs
  · exact ⟨.inl (hl.close hs.1), .inl (hr.close hs.2)⟩
  · exact ⟨.inl (hl.close (.inr hs.1)), .inl (hr.close (.inr hs.2))⟩

/-- A join of two children that are not empty hands out the accepted pairs, left by left. -/
theorem join (hxs : xs ≠ []) (hys : ys ≠ []) (hfuel : (allPairs er xs ys).length < fuel) :
    (Source.join fuel p schema left right).Follows P (BothOpen SL LL SR LR) (BothLive LL LR)
      (fun rest s => ∃ cs, cs.length < fuel ∧ joinRows p schema cs = rest
        ∧ Candidates AL AR ys el er cs s)
      (joinRows p schema (allPairs er xs ys)) (er.or el) := by
  have hstart : ∀ s : JoinState β γ, Stands AL xs s.left → Stands AR ys s.right →
      Gives P (startPairs left right) s (.ok ()) fun s => ∃ cs, cs.length < fuel
        ∧ joinRows p schema cs = joinRows p schema (allPairs er xs ys)
        ∧ Candidates AL AR ys el er cs s := fun s hleft hright =>
    (startPairs_cons hl hr hxs hys hleft hright).mono fun s hs => ⟨_, hfuel, rfl, hs⟩
  refine ⟨?_, ?_, ?_, close_join hl hr, ?_, ?_⟩
  · rintro rest s ⟨cs, -, -, hs⟩
    exact bothLive_of_candidates hl hr hs
  · intro s hs
    exact gives_reset (hl.open hs.1) (hr.open hs.2) hstart
  · intro s hs
    exact gives_reset (hl.rewind hs.1) (hr.rewind hs.2) hstart
  · rintro x rest s ⟨cs, hlen, hcs, hs⟩
    refine (fetchPair_row hl hr hys hlen hs hcs).mono fun s' hs' => ?_
    obtain ⟨cs', hlen', hcs', hs'⟩ := hs'
    exact ⟨cs', by omega, hcs', hs'⟩
  · rintro s ⟨cs, hlen, hcs, hs⟩
    exact (fetchPair_nil hl hr hys hlen hs hcs).mono
      (fun s' hs' => ⟨[], Nat.zero_lt_of_lt hlen, rfl, hs'⟩) fun s' hs' => hs'

/-- A join that finds a child empty hands out nothing. -/
theorem join_of_knownEmpty (hfuel : 0 < fuel)
    (hstart : ∀ s : JoinState β γ, Stands AL xs s.left → Stands AR ys s.right →
      Gives P (startPairs left right) s (.ok ()) (KnownEmpty LL LR)) :
    (Source.join fuel p schema left right).Follows P (BothOpen SL LL SR LR) (BothLive LL LR)
      (fun rest s => rest = [] ∧ KnownEmpty LL LR s) [] none := by
  refine ⟨?_, ?_, ?_, close_join hl hr, ?_, ?_⟩
  · rintro rest s ⟨-, hs⟩
    exact hs.2
  · intro s hs
    exact (gives_reset (hl.open hs.1) (hr.open hs.2) hstart).mono fun s hs => ⟨rfl, hs⟩
  · intro s hs
    exact (gives_reset (hl.rewind hs.1) (hr.rewind hs.2) hstart).mono fun s hs => ⟨rfl, hs⟩
  · rintro x rest s ⟨h, -⟩
    cases h
  · rintro s ⟨-, hs⟩
    obtain ⟨fuel, rfl⟩ : ∃ n, fuel = n + 1 := ⟨fuel - 1, by omega⟩
    have hpair : Gives P (nextPair left right) s (.ok none) (KnownEmpty LL LR) := by
      refine Action.gives_state.bind ?_
      rintro _ rfl
      rw [hs.1]
      exact Action.gives_pure hs
    exact hpair.bind fun s₁ hs₁ => Action.gives_pure ⟨rfl, hs₁⟩

end

end Follows

end Source

end RelStore
