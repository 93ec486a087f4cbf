/-
What a join hands out when some of its calls fail.

A page is refused while callers hold all frames, and then a call of the join fails.  The next pairs may be lost.

* `Accounts` — pairs that were looked at, and pairs that failing calls passed over unseen;
* `Source.Remaining` — the pairs that a join still looks at if nothing fails;
* `Source.tries_nextPair`, `Source.tries_fetchPair` — a step of the join takes the first of them, or fails and loses
  none of them or as many as there are right rows;
* `Reading`, `ReadEvent` — an open operator beside other callers of the cache;
* `Reading.Follows`, `Reading.follows_step`, `Reading.follows_run` — all pairs of a join are accounted for after one
  event, and so after all;
* `Reading.interrupted_run` — which rows a join handed out before and after some failures, and when these are all;
* `Reading.collect_samePairs` — a row that is lost.

Design notes.  A fetch takes the held left row out of the state before it asks the children.  When a child fails, the
right child stays where it is, and the next fetch takes another left row.  In the list of all pairs, left by left, this
is a gap of the length of the right child, from the place where the join stood.
-/
import RelStore.Proofs.Query.Retrying

namespace RelStore

open RelStore.Action (Tries)
open Running (Holds Stands)

/-! ### Accounts -/

section Accounts

variable {q : JoinPredicate} {schema : Schema} {width failures : Nat} {all rest passed lost : List (Row × Row)}
  {rows : List Row}

theorem joinRows_append (q : JoinPredicate) (schema : Schema) (cs cs' : List (Row × Row)) :
    joinRows q schema (cs ++ cs') = joinRows q schema cs ++ joinRows q schema cs' := by
  rw [joinRows, List.filter_append, List.map_append]
  rfl

theorem joinRows_sublist (q : JoinPredicate) (schema : Schema) {cs cs' : List (Row × Row)} (h : cs.Sublist cs') :
    (joinRows q schema cs).Sublist (joinRows q schema cs') :=
  (h.filter _).map _

/-- The pairs before a gap, and the pairs in it. -/
abbrev Gap := List (Row × Row) × List (Row × Row)

/-- The pairs that were looked at around some gaps. -/
def seenPairs (gaps : List Gap) (last : List (Row × Row)) : List (Row × Row) :=
  gaps.flatMap Prod.fst ++ last

/-- The pairs around and in some gaps. -/
def passedPairs (gaps : List Gap) (last : List (Row × Row)) : List (Row × Row) :=
  (gaps.flatMap fun gap => gap.1 ++ gap.2) ++ last

/-- An account of all pairs of a join: `rest` is still to come, there is a gap of at most `width` pairs for each
failure, and the rows come from the accepted pairs outside the gaps. -/
def Accounts (q : JoinPredicate) (schema : Schema) (width : Nat) (all : List (Row × Row)) (rows : List Row)
    (failures : Nat) (rest : List (Row × Row)) : Prop :=
  ∃ gaps last, all = passedPairs gaps last ++ rest ∧ gaps.length = failures
    ∧ (∀ gap ∈ gaps, gap.2.length ≤ width) ∧ rows = joinRows q schema (seenPairs gaps last)

theorem accounts_all : Accounts q schema width all [] 0 all :=
  ⟨[], [], rfl, rfl, fun _ h => (List.not_mem_nil h).elim, rfl⟩

/-- Some pairs are looked at. -/
theorem Accounts.pass (h : Accounts q schema width all rows failures (passed ++ rest)) :
    Accounts q schema width all (rows ++ joinRows q schema passed) failures rest := by
  obtain ⟨gaps, last, hall, hlen, hwidth, hrows⟩ := h
  refine ⟨gaps, last ++ passed, ?_, hlen, hwidth, ?_⟩
  · rw [hall, passedPairs, passedPairs]
    simp only [List.append_assoc]
  · rw [hrows, seenPairs, seenPairs, ← joinRows_append, List.append_assoc]

/-- A call fails behind some pairs that are not accepted, and loses some more. -/
theorem Accounts.fail (h : Accounts q schema width all rows failures (passed ++ (lost ++ rest)))
    (hpassed : joinRows q schema passed = []) (hlost : lost.length ≤ width) :
    Accounts q schema width all rows (failures + 1) rest := by
  obtain ⟨gaps, last, hall, hlen, hwidth, hrows⟩ := h.pass
  rw [hpassed, List.append_nil] at hrows
  refine ⟨gaps ++ [(last, lost)], [], ?_, ?_, ?_, ?_⟩
  · rw [hall, passedPairs, passedPairs, List.flatMap_append, List.flatMap_singleton, List.append_nil]
    simp only [List.append_assoc]
  · rw [List.length_append, hlen, List.length_singleton]
  · intro gap hgap
    rcases List.mem_append.mp hgap with hgap | hgap
    · exact hwidth gap hgap
    · obtain rfl := List.mem_singleton.mp hgap
      exact hlost
  · rw [hrows, seenPairs, seenPairs, List.flatMap_append, List.flatMap_singleton, List.append_nil]

theorem seenPairs_sublist (gaps : List Gap) (last : List (Row × Row)) :
    (seenPairs gaps last).Sublist (passedPairs gaps last) := by
  refine List.Sublist.append ?_ (List.Sublist.refl last)
  induction gaps with
  | nil => exact List.Sublist.refl []
  | cons gap gaps ih =>
    rw [List.flatMap_cons, List.flatMap_cons, List.append_assoc]
    exact List.Sublist.append (List.Sublist.refl gap.1) (ih.trans (List.sublist_append_right gap.2 _))

/-- The rows outside the gaps are all rows just when there is no row in a gap. -/
theorem joinRows_seenPairs_eq_iff (gaps : List Gap) (last : List (Row × Row)) :
    joinRows q schema (seenPairs gaps last) = joinRows q schema (passedPairs gaps last)
      ↔ ∀ gap ∈ gaps, joinRows q schema gap.2 = [] := by
  induction gaps with
  | nil => simp [seenPairs, passedPairs]
  | cons gap gaps ih =>
    have hseen : joinRows q schema (seenPairs (gap :: gaps) last)
        = joinRows q schema gap.1 ++ joinRows q schema (seenPairs gaps last) := by
      rw [← joinRows_append, seenPairs, List.flatMap_cons, List.append_assoc]
      rfl
    have hpassed : joinRows q schema (passedPairs (gap :: gaps) last)
        = joinRows q schema gap.1 ++ (joinRows q schema gap.2 ++ joinRows q schema (passedPairs gaps last)) := by
      rw [← joinRows_append, ← joinRows_append, passedPairs, List.flatMap_cons]
      simp only [List.append_assoc]
      rfl
    rw [hseen, hpassed, List.append_cancel_left_eq, List.forall_mem_cons, ← ih]
    constructor
    · intro heq
      -- what is outside the later gaps is not longer than all of it, so nothing is left for this gap
      have hle := (joinRows_sublist q schema (seenPairs_sublist gaps last)).length_le
      have hlen := congrArg List.length heq
      rw [List.length_append] at hlen
      have hgap : joinRows q schema gap.2 = [] := List.length_eq_zero_iff.mp (by omega)
      rw [hgap, List.nil_append] at heq
      exact ⟨hgap, heq⟩
    · rintro ⟨hgap, heq⟩
      rw [hgap, heq, List.nil_append]

end Accounts

/-! ### Steps of a join -/

namespace Source

variable {β γ : Type} {P : Database → Prop} {Free : Prop} {left : Source β} {right : Source γ} {l₀ : β} {r₀ : γ}
  {AL : List Row → β → Prop} {AR : List Row → γ → Prop} {xs ys ls rs : List Row} {x : Row} {s : JoinState β γ}
  {cs : List (Row × Row)}

/-- The pairs that a join looks at if nothing fails any more.  The right child may stand behind its first row while no
left row is held; this is what a failure leaves behind. -/
def Remaining (AL : List Row → β → Prop) (AR : List Row → γ → Prop) (ys : List Row) (cs : List (Row × Row))
    (s : JoinState β γ) : Prop :=
  (∃ x ls rs, cs = rs.map (x, ·) ++ pairs ls ys ∧ ys ≠ [] ∧ rs <:+ ys
      ∧ (Paired AL AR x ls rs s ∨ Between AL AR false (x :: ls) rs s))
    ∨ cs = [] ∧ (s.childEmpty = true ∨ ∃ rs, rs <:+ ys ∧ Between AL AR false [] rs s)

/-- The left row `x` was taken, and is paired with the rows that the right child has left. -/
def Taken (AL : List Row → β → Prop) (AR : List Row → γ → Prop) (ys : List Row) (cs : List (Row × Row)) (x : Row)
    (s : JoinState β γ) : Prop :=
  ∃ ls rs, cs = rs.map (x, ·) ++ pairs ls ys ∧ ys ≠ [] ∧ rs <:+ ys ∧ Between AL AR false ls rs s

/-- A left row that was taken and not put back is lost, and the next one goes on in its place: as many pairs are lost
as there are right rows, or all of them. -/
theorem Taken.remaining_drop (hs : Taken AL AR ys cs x s) : Remaining AL AR ys (cs.drop ys.length) s := by
  obtain ⟨ls, rs, rfl, hys, hsuffix, hs⟩ := hs
  obtain ⟨zs, rfl⟩ := hsuffix
  rw [List.length_append]
  cases ls with
  | nil =>
    refine .inr ⟨List.drop_eq_nil_of_le ?_, .inr ⟨rs, List.suffix_append zs rs, hs⟩⟩
    simp only [pairs, List.flatMap_nil, List.append_nil, List.length_map]
    omega
  | cons l ls =>
    refine .inl ⟨l, ls, rs, ?_, hys, List.suffix_append zs rs, .inr hs⟩
    rw [pairs_cons, List.map_append, List.append_assoc, ← List.append_assoc, List.drop_append_of_le_length]
    · rw [List.drop_eq_nil_of_le]
      · rfl
      · simp only [List.length_append, List.length_map]
        omega
    · simp only [List.length_append, List.length_map]
      omega

section Steps

variable (hl : left.Resumes P Free l₀ AL xs) (hr : right.Resumes P Free r₀ AR ys)

include hl in
/-- Looking at the left child leaves the right one alone. -/
theorem tries_lookLeft (hs : Between AL AR false ls rs s) :
    Tries P Free (onLeft left.hasNext) s
      (fun more s' => Looked AL ls more s'.left ∧ s'.childEmpty = false ∧ s'.held = none ∧ Stands AR rs s'.right)
      (Between AL AR false ls rs) := by
  obtain ⟨hempty, hheld, hleft, hright⟩ := hs
  refine (hl.retries.hasNext hleft).on ?_ ?_
  · intro more l hlooked
    exact ⟨hlooked, hempty, hheld, hright⟩
  · intro l hstands
    exact ⟨hempty, hheld, hstands, hright⟩

include hr in
theorem tries_lookRight (hs : Between AL AR false ls rs s) :
    Tries P Free (onRight right.hasNext) s
      (fun more s' => Looked AR rs more s'.right ∧ Between AL AR false ls rs s')
      (Between AL AR false ls rs) := by
  obtain ⟨hempty, hheld, hleft, hright⟩ := hs
  refine (hr.retries.hasNext hright).on ?_ ?_
  · intro more r hlooked
    refine ⟨hlooked, hempty, hheld, hleft, ?_⟩
    cases more with
    | true =>
      obtain ⟨x, tail, rfl, hholds⟩ := hlooked
      exact .inr ⟨x, tail, rfl, hholds⟩
    | false =>
      obtain ⟨rfl, hstands⟩ := hlooked
      exact hstands
  · intro r hstands
    exact ⟨hempty, hheld, hleft, hstands⟩

/-- A left row that was looked at is taken whatever happens. -/
theorem tries_nextLeft {Err : JoinState β γ → Prop} (hholds : Holds AL x ls s.left) (hempty : s.childEmpty = false)
    (hheld : s.held = none) (hright : Stands AR rs s.right) :
    Tries P Free (onLeft left.next) s (fun y s' => y = x ∧ Between AL AR false ls rs s') Err := by
  have hnext : Tries P Free left.next s.left (fun y l => y = x ∧ Stands AL ls l) fun _ => False :=
    Retries.next_of_holds hholds
  refine hnext.on ?_ fun _ h => h.elim
  rintro y l ⟨rfl, hstands⟩
  exact ⟨rfl, hempty, hheld, hstands, hright⟩

include hl in
/-- Nothing is lost as long as no left row was taken. -/
theorem tries_takeLeft (hempty : s.childEmpty = false) (hs : Remaining AL AR ys cs s) :
    Tries P Free (takeLeft left) s
      (fun row s' => match row with
        | some x => Taken AL AR ys cs x s'
        | none => cs = [] ∧ Remaining AL AR ys [] s')
      (Remaining AL AR ys cs) := by
  refine Action.tries_state.bind ?_
  rintro _ _ ⟨rfl, rfl⟩
  rcases hs with ⟨x, ls, rs, hcs, hys, hsuffix, hpaired | hbetween⟩ | ⟨rfl, hknown | ⟨rs, hsuffix, hbetween⟩⟩
  · rw [hpaired.2.1]
    have hdrop : Tries P Free (Action.update fun s => { s with held := none }) _
        (fun _ s' => Between AL AR false ls rs s') (Remaining AL AR ys cs) :=
      Action.tries_update ⟨hpaired.1, rfl, hpaired.2.2⟩
    refine hdrop.bind ?_
    intro _ s' hs'
    exact Action.tries_pure ⟨ls, rs, hcs, hys, hsuffix, hs'⟩
  · rw [hbetween.2.1]
    refine ((tries_lookLeft hl hbetween).mono_error ?_).bind ?_
    · intro s' hs'
      exact .inl ⟨x, ls, rs, hcs, hys, hsuffix, .inr hs'⟩
    · rintro (_ | _) s₁ ⟨hlooked, hempty₁, hheld₁, hright₁⟩
      · cases hlooked.1
      · obtain ⟨y, tail, heq, hholds⟩ := hlooked
        cases heq
        refine (tries_nextLeft hholds hempty₁ hheld₁ hright₁).bind ?_
        rintro _ s₂ ⟨rfl, hs₂⟩
        exact Action.tries_pure ⟨ls, rs, hcs, hys, hsuffix, hs₂⟩
  · rw [hknown] at hempty
    cases hempty
  · rw [hbetween.2.1]
    have hend : ∀ s', Between AL AR false [] rs s' → Remaining AL AR ys [] s' :=
      fun s' hs' => .inr ⟨rfl, .inr ⟨rs, hsuffix, hs'⟩⟩
    refine ((tries_lookLeft hl hbetween).mono_error hend).bind ?_
    rintro (_ | _) s₁ ⟨hlooked, hempty₁, hheld₁, hright₁⟩
    · exact Action.tries_pure ⟨rfl, hend s₁ ⟨hempty₁, hheld₁, hlooked.2, hright₁⟩⟩
    · obtain ⟨y, tail, heq, -⟩ := hlooked
      cases heq

include hl hr

/-- Once a left row is taken, a failure of either child loses it. -/
theorem tries_advanceLeft (hs : Taken AL AR ys cs x s) :
    Tries P Free (advanceLeft left right x) s
      (fun row s' => match row with
        | some l => ∃ ls y rs, cs = (l, y) :: (rs.map (l, ·) ++ pairs ls ys) ∧ y :: rs <:+ ys
          ∧ Between AL AR false ls (y :: rs) s'
        | none => cs = [] ∧ Remaining AL AR ys [] s')
      (Remaining AL AR ys (cs.drop ys.length)) := by
  obtain ⟨ls, rs, hcs, hys, hsuffix, hbetween⟩ := hs
  have hlost : ∀ s', Between AL AR false ls rs s' → Remaining AL AR ys (cs.drop ys.length) s' :=
    fun s' hs' => Taken.remaining_drop ⟨ls, rs, hcs, hys, hsuffix, hs'⟩
  refine ((tries_lookRight hr hbetween).mono_error hlost).bind ?_
  rintro (_ | _) s₁ ⟨hlooked, hbetween₁⟩
  · -- behind the last right row the next left row is taken, and the right child starts over
    obtain ⟨rfl, -⟩ := hlooked
    refine ((tries_lookLeft hl hbetween₁).mono_error hlost).bind ?_
    rintro (_ | _) s₂ ⟨hlooked₂, hempty₂, hheld₂, hright₂⟩
    · obtain ⟨rfl, hleft₂⟩ := hlooked₂
      exact Action.tries_pure ⟨hcs, .inr ⟨rfl, .inr ⟨[], hsuffix, hempty₂, hheld₂, hleft₂, hright₂⟩⟩⟩
    · obtain ⟨l, ls, rfl, hholds⟩ := hlooked₂
      obtain ⟨y, ys, rfl⟩ := List.exists_cons_of_ne_nil hys
      have hrewind : Tries P Free (onRight right.rewind) s₂
          (fun _ s' => Holds AL l ls s'.left ∧ s'.childEmpty = false ∧ s'.held = none ∧ Stands AR (y :: ys) s'.right)
          (Remaining AL AR (y :: ys) (cs.drop (y :: ys).length)) := by
        have hstart : Tries P Free right.rewind s₂.right (fun _ => Stands AR (y :: ys)) fun _ => False :=
          hr.rewind hright₂
        refine hstart.on ?_ fun _ h => h.elim
        intro _ r hstands
        exact ⟨hholds, hempty₂, hheld₂, hstands⟩
      refine hrewind.bind ?_
      rintro _ s₃ ⟨hholds₃, hempty₃, hheld₃, hright₃⟩
      refine (tries_nextLeft hholds₃ hempty₃ hheld₃ hright₃).bind ?_
      rintro _ s₄ ⟨rfl, hs₄⟩
      refine Action.tries_pure ⟨ls, y, ys, ?_, List.suffix_refl _, hs₄⟩
      rw [hcs, pairs_cons]
      rfl
  · obtain ⟨y, tail, rfl, -⟩ := hlooked
    exact Action.tries_pure ⟨ls, y, tail, hcs, hsuffix, hbetween₁⟩

/-- A join takes the first of the pairs that remain, or fails and loses none of them, or as many as there are right
rows. -/
theorem tries_nextPair (hs : Remaining AL AR ys cs s) :
    Tries P Free (nextPair left right) s
      (fun pair s' => match pair with
        | some c => ∃ cs', cs = c :: cs' ∧ Remaining AL AR ys cs' s'
        | none => cs = [] ∧ Remaining AL AR ys [] s')
      (fun s' => Remaining AL AR ys cs s' ∨ Remaining AL AR ys (cs.drop ys.length) s') := by
  refine Action.tries_state.bind ?_
  rintro _ s ⟨rfl, rfl⟩
  cases hempty : s.childEmpty with
  | true =>
    have hnil : cs = [] := by
      rcases hs with ⟨x, ls, rs, -, -, -, hpaired | hbetween⟩ | ⟨rfl, -⟩
      · rw [hpaired.1] at hempty
        cases hempty
      · rw [hbetween.1] at hempty
        cases hempty
      · rfl
    subst hnil
    exact Action.tries_pure ⟨rfl, hs⟩
  | false =>
    refine ((tries_takeLeft hl hempty hs).mono_error fun _ h => .inl h).bind ?_
    rintro (_ | x) s₁ hs₁
    · exact Action.tries_pure hs₁
    · refine ((tries_advanceLeft hl hr hs₁).mono_error fun _ h => .inr h).bind ?_
      rintro (_ | l) s₂ hs₂
      · exact Action.tries_pure hs₂
      · obtain ⟨ls, y, rs, hcs, hsuffix, hempty₂, hheld₂, hleft₂, hright₂⟩ := hs₂
        have hys : ys ≠ [] := by
          rintro rfl
          cases List.suffix_nil.mp hsuffix
        -- the right child may have been started over, and then its first row is not there yet
        have hnext : Tries P Free (onRight right.next) s₂
            (fun r s' => r = y ∧ s'.childEmpty = false ∧ Stands AL ls s'.left ∧ Stands AR rs s'.right)
            (fun s' => Remaining AL AR ys cs s' ∨ Remaining AL AR ys (cs.drop ys.length) s') := by
          refine (hr.retries.next hright₂).on ?_ ?_
          · rintro r t ⟨rfl, hstands⟩
            exact ⟨rfl, hempty₂, hleft₂, hstands⟩
          · intro t hstands
            exact .inr
              (Taken.remaining_drop (x := l) ⟨ls, y :: rs, hcs, hys, hsuffix, hempty₂, hheld₂, hleft₂, hstands⟩)
        refine hnext.bind ?_
        rintro _ s₃ ⟨rfl, hempty₃, hleft₃, hright₃⟩
        have hkeep : Tries P Free (Action.update fun s => { s with held := some l }) s₃
            (fun _ s' => Paired AL AR l ls rs s')
            (fun s' => Remaining AL AR ys cs s' ∨ Remaining AL AR ys (cs.drop ys.length) s') :=
          Action.tries_update ⟨hempty₃, rfl, hleft₃, hright₃⟩
        refine hkeep.bind ?_
        intro _ s₄ hs₄
        refine Action.tries_pure ⟨_, hcs, .inl ⟨l, ls, rs, rfl, hys, ?_, .inl hs₄⟩⟩
        exact (List.suffix_cons _ rs).trans hsuffix

/-- The search for an accepted pair: it passes over others, and may come to the end, or fail. -/
theorem tries_fetchPair {q : JoinPredicate} {schema : Schema} {fuel : Nat} (hfuel : Free → cs.length < fuel)
    (hs : Remaining AL AR ys cs s) :
    Tries P Free (fetchPair q schema left right fuel) s
      (fun row s' => ∃ passed rest, cs = passed ++ rest ∧ joinRows q schema passed = row.toList
        ∧ (row = none → rest = []) ∧ Remaining AL AR ys rest s')
      (fun s' => ∃ passed lost rest, cs = passed ++ (lost ++ rest) ∧ joinRows q schema passed = []
        ∧ lost.length ≤ ys.length ∧ Remaining AL AR ys rest s') := by
  -- on the fuel; every step that does not fail uses up one pair
  induction fuel generalizing cs s with
  | zero =>
    exact Action.tries_throw (fun hfree => absurd (hfuel hfree) (Nat.not_lt_zero _))
      ⟨[], [], cs, rfl, rfl, Nat.zero_le _, hs⟩
  | succ fuel ih =>
    refine ((tries_nextPair hl hr hs).mono_error ?_).bind ?_
    · rintro s' (hs' | hs')
      · exact ⟨[], [], cs, rfl, rfl, Nat.zero_le _, hs'⟩
      · exact ⟨[], cs.take ys.length, cs.drop ys.length, (List.take_append_drop _ _).symm, rfl, List.length_take_le _ _,
          hs'⟩
    · rintro (_ | c) s₁ hs₁
      · obtain ⟨rfl, hs₁⟩ := hs₁
        exact Action.tries_pure ⟨[], [], rfl, rfl, fun _ => rfl, hs₁⟩
      · obtain ⟨cs, rfl, hs₁⟩ := hs₁
        by_cases hc : q.accepts c.1 c.2 = true
        · simp only [if_pos hc]
          refine Action.tries_pure ⟨[c], cs, rfl, ?_, ?_, hs₁⟩
          · rw [joinRows, List.filter_cons, if_pos hc]
            rfl
          · intro h
            cases h
        · simp only [if_neg hc]
          have hpass : ∀ passed, joinRows q schema (c :: passed) = joinRows q schema passed := by
            intro passed
            rw [joinRows, List.filter_cons, if_neg hc]
            rfl
          refine (ih (fun hfree => Nat.lt_of_succ_lt_succ (hfuel hfree)) hs₁).mono ?_ ?_
          · rintro row s' ⟨passed, rest, rfl, hrow, hend, hs'⟩
            exact ⟨c :: passed, rest, rfl, (hpass passed).trans hrow, hend, hs'⟩
          · rintro s' ⟨passed, lost, rest, rfl, hrows, hlost, hs'⟩
            exact ⟨c :: passed, lost, rest, rfl, (hpass passed).trans hrows, hlost, hs'⟩

/-- A join that was opened for the first time has all pairs to look at. -/
theorem tries_openJoin {q : JoinPredicate} {schema : Schema} {fuel : Nat} (hleft : s.left = Running.closed l₀)
    (hright : s.right = Running.closed r₀) :
    Tries P Free (Source.join fuel q schema left right).openBody s (fun _ => Remaining AL AR ys (pairs xs ys))
      fun _ => True := by
  have hopenLeft : Tries P Free (onLeft left.open) s
      (fun _ s => Stands AL xs s.left ∧ s.right = Running.closed r₀) fun _ => True := by
    refine Tries.on (by rw [hleft]; exact hl.open) ?_ fun _ _ => trivial
    intro _ l hstands
    exact ⟨hstands, hright⟩
  refine hopenLeft.bind ?_
  rintro _ s₁ ⟨hl₁, hright₁⟩
  have hopenRight : Tries P Free (onRight right.open) s₁
      (fun _ s => Stands AL xs s.left ∧ Stands AR ys s.right) fun _ => True := by
    refine Tries.on (by rw [hright₁]; exact hr.open) ?_ fun _ _ => trivial
    intro _ r hstands
    exact ⟨hl₁, hstands⟩
  refine hopenRight.bind ?_
  rintro _ s₂ ⟨hl₂, hr₂⟩
  have hdrop : Tries P Free (Action.update fun s => { s with held := none }) s₂
      (fun _ s => s.held = none ∧ Stands AL xs s.left ∧ Stands AR ys s.right) fun _ => True :=
    Action.tries_update ⟨rfl, hl₂, hr₂⟩
  refine hdrop.bind ?_
  rintro _ s₃ ⟨hheld₃, hl₃, hr₃⟩
  have hlook : Tries P Free (onLeft left.hasNext) s₃
      (fun more s => Looked AL xs more s.left ∧ s.held = none ∧ Stands AR ys s.right) fun _ => True :=
    (hl.retries.hasNext hl₃).on (fun _ l hlooked => ⟨hlooked, hheld₃, hr₃⟩) fun _ _ => trivial
  refine hlook.bind ?_
  rintro (_ | _) s₄ ⟨hlooked, hheld₄, hr₄⟩
  · -- without left rows there are no pairs
    show Tries P Free (Action.update fun s => { s with childEmpty := true }) s₄ _ _
    refine Action.tries_update (.inr ⟨?_, .inl rfl⟩)
    rw [hlooked.1]
    rfl
  · obtain ⟨x, ls, hxs, hholds⟩ := hlooked
    have hlook' : Tries P Free (onRight right.hasNext) s₄
        (fun more s => Looked AR ys more s.right ∧ s.held = none ∧ Stands AL xs s.left) fun _ => True := by
      refine (hr.retries.hasNext hr₄).on ?_ fun _ _ => trivial
      intro more r hlooked
      exact ⟨hlooked, hheld₄, .inr ⟨x, ls, hxs, hholds⟩⟩
    refine hlook'.bind ?_
    rintro (_ | _) s₅ ⟨hlooked, hheld₅, hl₅⟩
    · refine Action.tries_update (.inr ⟨?_, .inl rfl⟩)
      rw [hlooked.1]
      simp [pairs]
    · obtain ⟨y, rs, hys, hholds'⟩ := hlooked
      refine Action.tries_update (.inl ⟨x, ls, ys, ?_, ?_, List.suffix_refl ys, .inr ?_⟩)
      · rw [hxs, pairs_cons]
      · rw [hys]
        exact List.cons_ne_nil y rs
      · rw [← hxs]
        exact ⟨rfl, hheld₅, hl₅, .inr ⟨y, rs, hys, hholds'⟩⟩

end Steps

end Source

/-! ### A join beside other callers -/

/-- An operator in use, beside other callers of the cache. -/
structure Reading (p : Plan) where
  pool : Pool
  state : Running p.Body
  /-- The rows that were handed out, in order. -/
  given : List Row := []
  /-- How many calls storage made fail. -/
  failures : Nat := 0

/-- What can happen while an operator is open. -/
inductive ReadEvent where
  | others (call : PoolCall)
  | hasNext
  | next

/-- Whether the others leave all rows alone. -/
def ReadEvent.Quiet : ReadEvent → Prop
  | others call => call.Quiet
  | _ => True

instance : DecidablePred ReadEvent.Quiet
  | .others call => inferInstanceAs (Decidable call.Quiet)
  | .hasNext | .next => isTrue trivial

namespace Reading

/-- Whether storage made a call fail, as a number. -/
def failed {α : Type} : Except ExecError α → Nat
  | .error (.storage _) => 1
  | _ => 0

section

variable {p : Plan}

/-- An operator is opened for the first time. -/
def opening (p : Plan) (fuel : Nat) (pool : Pool) : Reading p :=
  let (_, r, db) := (p.source fuel).open.outcome (Running.closed p.fresh, pool.db)
  ⟨{ pool with db := db }, r, [], 0⟩

/-- What an event does. -/
def step (fuel : Nat) (o : Reading p) : ReadEvent → Reading p
  | .others call => { o with pool := o.pool.step call }
  | .hasNext =>
    let (answer, r, db) := (p.source fuel).hasNext.outcome (o.state, o.pool.db)
    ⟨{ o.pool with db := db }, r, o.given, o.failures + failed answer⟩
  | .next =>
    let (answer, r, db) := (p.source fuel).next.outcome (o.state, o.pool.db)
    ⟨{ o.pool with db := db }, r, o.given ++ answer.toOption.toList, o.failures + failed answer⟩

/-- What some events do, one after the other. -/
def run (fuel : Nat) (events : List ReadEvent) (o : Reading p) : Reading p :=
  events.foldl (step fuel) o

/-- Taking a row is looking ahead and forgetting the row, or comes to nothing more than looking ahead. -/
theorem outcome_next_cases {src : Source p.Body} {r r' : Running p.Body} {db db' : Database}
    {answer : Except ExecError Bool}
    (hout : src.hasNext.outcome (r, db) = (answer, r', db')) :
    (∃ row, r'.ahead = some row ∧ failed answer = 0
        ∧ src.next.outcome (r, db) = (.ok row, { r' with ahead := none }, db'))
      ∨ ∃ e, src.next.outcome (r, db) = (.error e, r', db')
        ∧ failed (.error e : Except ExecError Row) = failed answer := by
  rw [Source.outcome_next, hout]
  rcases answer with e | _ | _
  · refine .inr ⟨e, rfl, ?_⟩
    cases e <;> rfl
  · exact .inr ⟨.noMoreRows, rfl, rfl⟩
  · cases hahead : r'.ahead with
    | none =>
      refine .inr ⟨.noMoreRows, ?_, rfl⟩
      simp only [Fallible.follow_ok, hahead]
    | some row =>
      refine .inl ⟨row, rfl, rfl, ?_⟩
      simp only [Fallible.follow_ok, hahead]

/-- All rows that are left. -/
def collect (fuel : Nat) (o : Reading p) : Except ExecError (List Row) :=
  (((p.source fuel).collect fuel).outcome (o.state, o.pool.db)).1

end

variable {n fuel : Nat} {c : Catalog} {s : Store} {q : JoinPredicate} {schema : Schema} {left right : Plan}
  {AL : List Row → left.Body → Prop} {AR : List Row → right.Body → Prop} {xs ys : List Row}

/-- The tables have the contents `s`, and all pairs of the join are accounted for: those behind the rows that were
handed out or fetched ahead, those that failures lost, and those that remain. -/
structure Follows (n : Nat) (c : Catalog) (s : Store) (AL : List Row → left.Body → Prop)
    (AR : List Row → right.Body → Prop) (xs ys : List Row) (o : Reading (Plan.join q schema left right)) : Prop where
  shared : Database.Shared n c s o.pool.held o.pool.db
  opened : o.state.opened = true
  account : ∃ cs, Accounts q schema ys.length (pairs xs ys) (o.given ++ o.state.ahead.toList) o.failures cs
    ∧ Source.Remaining AL AR ys cs o.state.body

variable {o : Reading (Plan.join q schema left right)}

section Children

variable (hl : ∀ {held : List Handle} {Free : Prop}, (Free → 0 < n ∧ held = []) →
    (left.source fuel).Resumes (Database.Shared n c s held) Free left.fresh AL xs)
  (hr : ∀ {held : List Handle} {Free : Prop}, (Free → 0 < n ∧ held = []) →
    (right.source fuel).Resumes (Database.Shared n c s held) Free right.fresh AR ys)

include hl hr

/-- Looking ahead keeps the account. -/
theorem Follows.hasNext (h : o.Follows n c s AL AR xs ys) :
    ∃ answer r db, ((Plan.join q schema left right).source fuel).hasNext.outcome (o.state, o.pool.db) = (answer, r, db)
      ∧ Follows n c s AL AR xs ys
        (⟨{ o.pool with db := db }, r, o.given, o.failures + failed answer⟩ :
          Reading (Plan.join q schema left right)) := by
  obtain ⟨hshared, hopened, cs, haccount, hremaining⟩ := h
  rw [Source.outcome_hasNext, if_pos hopened]
  cases hahead : o.state.ahead with
  | some x => exact ⟨_, _, _, rfl, hshared, hopened, cs, haccount, hremaining⟩
  | none =>
    rw [hahead] at haccount
    have hfetch : Tries (Database.Shared n c s o.pool.held) False
        ((Plan.join q schema left right).source fuel).fetch o.state.body _ _ :=
      Source.tries_fetchPair (hl False.elim) (hr False.elim) False.elim hremaining
    obtain ⟨e | row, b, db, hout, hshared', hanswer⟩ := hfetch o.pool.db hshared
    · obtain ⟨-, ⟨cause, rfl⟩, passed, lost, rest, rfl, hpassed, hlost, hremaining'⟩ := hanswer
      rw [Source.outcome_inBody, hout]
      refine ⟨_, _, _, rfl, hshared', hopened, rest, ?_, hremaining'⟩
      show Accounts q schema ys.length (pairs xs ys) (o.given ++ o.state.ahead.toList) (o.failures + 1) rest
      rw [hahead]
      exact haccount.fail hpassed hlost
    · obtain ⟨passed, rest, rfl, hrow, -, hremaining'⟩ := hanswer
      rw [Source.outcome_inBody, hout]
      have hpass := haccount.pass
      rw [hrow, Option.toList_none, List.append_nil] at hpass
      exact ⟨_, _, _, rfl, hshared', hopened, rest, hpass, hremaining'⟩

/-- One event keeps the account. -/
theorem follows_step (h : o.Follows n c s AL AR xs ys) {event : ReadEvent} (hevent : event.Quiet) :
    (o.step fuel event).Follows n c s AL AR xs ys := by
  cases event with
  | others call =>
    obtain ⟨hshared, hopened, haccount⟩ := h
    exact ⟨hshared.step hevent, hopened, haccount⟩
  | hasNext =>
    obtain ⟨answer, r, db, hout, hfollows⟩ := h.hasNext hl hr
    rw [step, hout]
    exact hfollows
  | next =>
    obtain ⟨answer, r, db, hout, hshared, hopened, cs, haccount, hremaining⟩ := h.hasNext hl hr
    rw [step]
    rcases outcome_next_cases hout with ⟨row, hahead, hfailed, hnext⟩ | ⟨e, hnext, hfailed⟩
    · rw [hnext]
      refine ⟨hshared, hopened, cs, ?_, hremaining⟩
      dsimp only at haccount
      rw [hahead, hfailed] at haccount
      show Accounts q schema ys.length (pairs xs ys) ((o.given ++ [row]) ++ []) (o.failures + 0) cs
      rw [List.append_nil]
      exact haccount
    · rw [hnext]
      refine ⟨hshared, hopened, cs, ?_, hremaining⟩
      dsimp only at haccount
      show Accounts q schema ys.length (pairs xs ys) ((o.given ++ []) ++ r.ahead.toList)
        (o.failures + failed (.error e : Except ExecError Row)) cs
      rw [List.append_nil, hfailed]
      exact haccount

/-- And so do all events. -/
theorem follows_run (h : o.Follows n c s AL AR xs ys) {events : List ReadEvent}
    (hevents : ∀ event ∈ events, event.Quiet) : (o.run fuel events).Follows n c s AL AR xs ys := by
  induction events generalizing o with
  | nil => exact h
  | cons event events ih =>
    refine ih (follows_step hl hr h (hevents event List.mem_cons_self)) ?_
    intro event hevent
    exact hevents event (List.mem_cons_of_mem _ hevent)

/-- After the join was opened all pairs remain. -/
theorem follows_opening {pool : Pool} (h : Database.Shared n c s pool.held pool.db)
    (hopen : (((Plan.join q schema left right).source fuel).open.outcome
      (Running.closed (Plan.join q schema left right).fresh, pool.db)).1 = .ok ()) :
    (opening (Plan.join q schema left right) fuel pool).Follows n c s AL AR xs ys := by
  have hstart : Tries (Database.Shared n c s pool.held) False ((Plan.join q schema left right).source fuel).openBody
      (Plan.join q schema left right).fresh _ _ := Source.tries_openJoin (hl False.elim) (hr False.elim) rfl rfl
  obtain ⟨e | _, b, db, hout, hshared, hremaining⟩ := hstart pool.db h
  · rw [Source.outcome_open, Source.outcome_inBody] at hopen
    simp only [Running.closed, Bool.false_eq_true, if_false, hout, Fallible.follow_error] at hopen
    cases hopen
  · rw [opening, Source.outcome_open, Source.outcome_inBody]
    simp only [Running.closed, Bool.false_eq_true, if_false, hout, Fallible.follow_ok]
    exact ⟨hshared, rfl, pairs xs ys, accounts_all, hremaining⟩

/-- Once nobody holds a buffer the join comes to its end, and hands out the rows of all pairs that remain. -/
theorem Follows.exists_collect (h : o.Follows n c s AL AR xs ys) (hn : 0 < n) (hheld : o.pool.held = [])
    (hfuel : (pairs xs ys).length + 1 < fuel) :
    ∃ rows, o.collect fuel = .ok rows
      ∧ Accounts q schema ys.length (pairs xs ys) (o.given ++ rows) o.failures [] := by
  obtain ⟨hshared, hopened, cs, haccount, hremaining⟩ := h
  have hfree : True → 0 < n ∧ o.pool.held = [] := fun _ => ⟨hn, hheld⟩
  have hlen : cs.length ≤ (pairs xs ys).length := by
    obtain ⟨gaps, last, hall, -⟩ := haccount
    rw [hall, List.length_append]
    omega
  -- a join that cannot fail hands out the rows of the pairs that remain, like any other source
  have hretries : ((Plan.join q schema left right).source fuel).Retries (Database.Shared n c s o.pool.held) True
      fun rest b => ∃ cs, cs.length ≤ (pairs xs ys).length ∧ joinRows q schema cs = rest
        ∧ Source.Remaining AL AR ys cs b := by
    constructor
    rintro rest b ⟨cs, hlen, rfl, hb⟩
    have hfetch : Tries (Database.Shared n c s o.pool.held) True
        (Source.fetchPair q schema (left.source fuel) (right.source fuel) fuel) b _ _ :=
      Source.tries_fetchPair (hl hfree) (hr hfree) (fun _ => by omega) hb
    refine Tries.of_free (Tries.mono hfetch ?_ fun _ h => h) trivial
    rintro row b' ⟨passed, rest, rfl, hrow, hend, hb'⟩
    rw [joinRows_append, hrow]
    rw [List.length_append] at hlen
    cases row with
    | none =>
      obtain rfl := hend rfl
      exact ⟨rfl, [], Nat.zero_le _, rfl, hb'⟩
    | some x => exact ⟨_, rfl, rest, by omega, rfl, hb'⟩
  have hstands : Stands (fun rest b => ∃ cs, cs.length ≤ (pairs xs ys).length ∧ joinRows q schema cs = rest
      ∧ Source.Remaining AL AR ys cs b) (o.state.ahead.toList ++ joinRows q schema cs) o.state := by
    cases hahead : o.state.ahead with
    | none => exact .inl ⟨hopened, hahead, cs, hlen, rfl, hremaining⟩
    | some x => exact .inr ⟨x, _, rfl, hopened, hahead, cs, hlen, rfl, hremaining⟩
  have hrows : (o.state.ahead.toList ++ joinRows q schema cs).length < fuel := by
    have hle : (joinRows q schema cs).length ≤ cs.length := by
      rw [joinRows, List.length_map]
      exact List.length_filter_le _ _
    rw [List.length_append]
    cases o.state.ahead with
    | none => simp only [Option.toList_none, List.length_nil]; omega
    | some x => simp only [Option.toList_some, List.length_singleton]; omega
  obtain ⟨e | rows, r, db, hout, -, hanswer⟩ := hretries.collect (fun _ => hrows) hstands o.pool.db hshared
  · exact (hanswer.1 trivial).elim
  · obtain ⟨rfl, -⟩ := hanswer
    refine ⟨_, by rw [collect, hout], ?_⟩
    have hpass : Accounts q schema ys.length (pairs xs ys) (o.given ++ o.state.ahead.toList) o.failures (cs ++ []) := by
      rw [List.append_nil]
      exact haccount
    rw [← List.append_assoc]
    exact hpass.pass

end Children

/-- What a join with some failures hands out: there is a gap of at most as many pairs as there are right rows for every
failure, and the rows come from the pairs outside the gaps. -/
structure Interrupted (q : JoinPredicate) (schema : Schema) (xs ys : List Row) (failures : Nat) (rows : List Row)
    (gaps : List Gap) (last : List (Row × Row)) : Prop where
  all : pairs xs ys = passedPairs gaps last
  count : gaps.length = failures
  width : ∀ gap ∈ gaps, gap.2.length ≤ ys.length
  outside : rows = joinRows q schema (seenPairs gaps last)
  /-- The join handed out all of its rows just when there is none in the gaps. -/
  complete : rows = joinRows q schema (pairs xs ys) ↔ ∀ gap ∈ gaps, joinRows q schema gap.2 = []

theorem exists_interrupted {rows : List Row} {failures : Nat}
    (h : Accounts q schema ys.length (pairs xs ys) rows failures []) :
    ∃ gaps last, Interrupted q schema xs ys failures rows gaps last := by
  obtain ⟨gaps, last, hall, hlen, hwidth, hrows⟩ := h
  rw [List.append_nil] at hall
  refine ⟨gaps, last, hall, hlen, hwidth, hrows, ?_⟩
  rw [hrows, hall]
  exact joinRows_seenPairs_eq_iff gaps last

/-- A join of scans, fixed rows and filters of them, some of whose calls fail while others hold buffers.  After these
let all of them go, the join comes to its end without failing.  The rows that it handed out before and after the
failures are those of all pairs but for a gap at each failure; so they are all rows of the join just when no accepted
pair lies in a gap. -/
theorem interrupted_run {start : Database} (hn : 0 < n) (hcache : start.cache = PageCache.ofSize n)
    (hproper : start.catalog.Proper) {before : List PoolCall} (hbefore : ∀ call ∈ before, call.Proper) {pool : Pool}
    (hpool : pool = Pool.run before ⟨start, []⟩) (hleft : left.Plain) (hright : right.Plain)
    (hreads : (Plan.join q schema left right).Reads start.catalog)
    (htables : ∀ id ∈ (Plan.join q schema left right).tables, (pool.db.store id).Usable)
    (hfuel : (Plan.join q schema left right).span pool.db.store < fuel)
    (hopen : (((Plan.join q schema left right).source fuel).open.outcome
      (Running.closed (Plan.join q schema left right).fresh, pool.db)).1 = .ok ())
    {events : List ReadEvent} (hevents : ∀ event ∈ events, event.Quiet)
    (hheld : (run fuel events (opening (Plan.join q schema left right) fuel pool)).pool.held = []) :
    let o := run fuel events (opening (Plan.join q schema left right) fuel pool)
    ∃ rows gaps last, o.collect fuel = .ok rows
      ∧ Interrupted q schema (left.meaning pool.db.store) (right.meaning pool.db.store) o.failures (o.given ++ rows)
        gaps last := by
  intro o
  have hsound : pool.Sound n start.catalog := by
    rw [hpool]
    exact (Pool.sound_run (Pool.sound_ofSize hcache hproper) hbefore).1
  have hshared : Database.Shared n start.catalog pool.db.store pool.held pool.db := Database.shared_of_sound hsound
  obtain ⟨AL, hl⟩ := hleft.resumes hreads.1 fun id hid => htables id (List.mem_append_left _ hid)
  obtain ⟨AR, hr⟩ := hright.resumes hreads.2 fun id hid => htables id (List.mem_append_right _ hid)
  rw [Plan.span] at hfuel
  have hleft' : ∀ {held : List Handle} {Free : Prop}, (Free → 0 < n ∧ held = []) → (left.source fuel).Resumes
      (Database.Shared n start.catalog pool.db.store held) Free left.fresh AL (left.meaning pool.db.store) :=
    fun hfree => hl (by omega) hfree fun _ _ => rfl
  have hright' : ∀ {held : List Handle} {Free : Prop}, (Free → 0 < n ∧ held = []) → (right.source fuel).Resumes
      (Database.Shared n start.catalog pool.db.store held) Free right.fresh AR (right.meaning pool.db.store) :=
    fun hfree => hr (by omega) hfree fun _ _ => rfl
  have hfollows := follows_run hleft' hright' (follows_opening hleft' hright' hshared hopen) hevents
  obtain ⟨rows, hcollect, haccount⟩ := hfollows.exists_collect hleft' hright' hn hheld (by omega)
  obtain ⟨gaps, last, hinterrupted⟩ := exists_interrupted haccount
  exact ⟨rows, gaps, last, hcollect, hinterrupted⟩

/-! ### A pair that is lost -/

open CacheCall (notes notesFile note)

/-- Two notes of the same text, which take a page each. -/
def twice : List PoolCall :=
  [.cache (note "a"), .cache (note "a")]

/-- One row that is no note. -/
def fixedRow : Plan :=
  .values ⟨[.str], none⟩ [⟨⟨[.str], none⟩, [.str "a"], none⟩]

/-- That row with all notes of its text. -/
def samePairs : Plan :=
  .join ⟨0, .equal, 0⟩ ⟨[.str, .str], some [some "null", some "notes.null"]⟩ fixedRow Plan.allNotes

/-- The page of the first note is held while the join asks for the second. -/
def heldMeanwhile : List ReadEvent :=
  [.next, .others (.keep ⟨notesFile.id, 0⟩), .next, .others (.release ⟨⟨notesFile.id, 0⟩, 2⟩)]

theorem twice_store :
    (Pool.run twice ⟨notes 1, []⟩).db.store notesFile.id = [.ok [some [.str "a"]], .ok [some [.str "a"]]] := by
  decide +kernel

theorem twice_usable : ((Pool.run twice ⟨notes 1, []⟩).db.store notesFile.id).Usable := by
  rw [twice_store]
  refine ⟨List.cons_ne_nil _ _, fun page hpage => ?_⟩
  obtain rfl : page = .ok [some [.str "a"]] := by simpa using hpage
  exact ⟨⟨_, rfl⟩, rfl⟩

theorem interrupted_run_notes :
    let pool := Pool.run twice ⟨notes 1, []⟩
    let o := run 9 heldMeanwhile (opening samePairs 9 pool)
    ∃ rows gaps last, o.collect 9 = .ok rows
      ∧ Interrupted ⟨0, .equal, 0⟩ samePairs.schema (fixedRow.meaning pool.db.store)
        (Plan.allNotes.meaning pool.db.store) o.failures (o.given ++ rows) gaps last := by
  refine interrupted_run (by decide) rfl (CacheCall.notes_proper 1) (show ∀ call ∈ twice, call.Proper by decide) rfl
    (show fixedRow.Plain from trivial) (show Plan.allNotes.Plain from trivial) ⟨trivial, rfl⟩ ?_ ?_
    (by decide +kernel) (by decide) (by decide +kernel)
  · intro id hid
    obtain rfl : id = notesFile.id := by simpa [fixedRow, Plan.allNotes, Plan.tables] using hid
    exact twice_usable
  · simp only [fixedRow, Plan.allNotes, Plan.span, Plan.meaning, Source.scanRows, twice_store]
    decide

/-- The join is asked for two rows and fails once, because a page is held; then it is let go.  The second row never
comes, although it is one of the two rows of the join. -/
theorem collect_samePairs :
    let pool := Pool.run twice ⟨notes 1, []⟩
    let o := run 9 heldMeanwhile (opening samePairs 9 pool)
    let row : Row := ⟨samePairs.schema, [.str "a", .str "a"], none⟩
    o.failures = 1 ∧ o.pool.held = [] ∧ o.given = [row] ∧ o.collect 9 = .ok []
      ∧ samePairs.meaning pool.db.store = [row, row] := by
  decide +kernel

end Reading

end RelStore
