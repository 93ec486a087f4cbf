/-
What an open tree of operators has still to hand out.

The rows to come are told from the state of the operators and the contents of the tables.  A join relies on a row of its
right child whenever it has started that over for another left row, and without one it fails.  So the rows may be followed
by an end, or by the lack of a row.

* `Outlook` — the rows to come, and whether a lack is behind them;
* `Outlook.Within`, `Outlook.Steps`, `Outlook.Breaks` — what is left behind a call: as much as before, or all but a row that
  was taken; and with which errors the call may fail;
* `Running.outlook`, `JoinState.outlook` — the outlook of an operator in use, and of the pairs of a join;
* `Source.Foretells` — a source goes by its outlook, as long as the contents stay as they are;
* `Source.Foretells.hasNext`, `Source.Foretells.next`, `Source.Foretells.rewind`, `Source.Foretells.take` — so does the
  protocol around it;
* `Source.Foretells.filter`, `Source.Foretells.project`, `Source.Foretells.join` — and so does an operator over such
  sources.

Design notes.  Within one call the contents do not change, so the right child of a join has the same rows each time that it
is started over.  They are told once (`rounds`), and whether there are any decides if a lack is to come.
-/
import RelStore.Proofs.Query.OpenTrees

namespace RelStore

open RelStore.Action (Meets)
open Running (IsLive)

/-! ### Outlooks -/

/-- What is to come. -/
structure Outlook (α : Type) where
  rows : List α
  /-- Whether a row is missing behind these. -/
  starves : Bool := false
  /-- No loop goes further than this to get there. -/
  work : Nat := 0

namespace Outlook

variable {α β : Type} {o o' o₁ o₂ : Outlook α} {busy : Prop} {fuel : Nat} {x : α} {row : Option α} {e : ExecError}

def map (g : α → β) (o : Outlook α) : Outlook β :=
  ⟨o.rows.map g, o.starves, o.work⟩

/-- The rows that pass; all of them are looked at. -/
def filter (q : α → Bool) (o : Outlook α) : Outlook α :=
  ⟨o.rows.filter q, o.starves, max o.work o.rows.length⟩

/-- The outlook behind a row, if there is one. -/
def behind (first : Option α) (o : Outlook α) : Outlook α :=
  { o with rows := first.toList ++ o.rows }

/-- One outlook after the other. -/
def andThen (o o' : Outlook α) : Outlook α :=
  ⟨if o.starves then o.rows else o.rows ++ o'.rows, o.starves || o'.starves, max o.work o'.work⟩

/-- The outlook of someone who relies on a first row. -/
def needed (o : Outlook α) : Outlook α :=
  { o with starves := o.starves || o.rows.isEmpty }

/-- The same rows and the same end, with no more work. -/
structure Within (o' o : Outlook α) : Prop where
  rows : o'.rows = o.rows
  starves : o'.starves = o.starves
  work : o'.work ≤ o.work

/-- What is left behind the answer of a fetch. -/
inductive Steps (o : Outlook α) : Option α → Outlook α → Prop
  | took {x : α} {rest : List α} {o' : Outlook α} (hrows : o.rows = x :: rest)
      (hwithin : o'.Within { o with rows := rest }) : Steps o (some x) o'
  | ended {o' : Outlook α} (hrows : o.rows = []) (hfed : o.starves = false) (hwithin : o'.Within o) : Steps o none o'

/-- How a call can fail: for the lack of a row just where that is to come, and with an error of storage only if callers are
in the way or there is not fuel enough. -/
def Breaks (busy : Prop) (fuel : Nat) (o : Outlook α) : ExecError → Prop
  | .storage _ => busy ∨ fuel ≤ o.work
  | .noMoreRows => o.rows = [] ∧ o.starves = true
  | _ => False

theorem Within.refl (o : Outlook α) : o.Within o :=
  ⟨rfl, rfl, Nat.le_refl _⟩

theorem Within.trans (h : o₂.Within o₁) (h' : o₁.Within o) : o₂.Within o :=
  ⟨h.rows.trans h'.rows, h.starves.trans h'.starves, Nat.le_trans h.work h'.work⟩

theorem Within.map (h : o'.Within o) (g : α → β) : (o'.map g).Within (o.map g) :=
  ⟨congrArg (List.map g) h.rows, h.starves, h.work⟩

theorem Within.filter (h : o'.Within o) (q : α → Bool) : (o'.filter q).Within (o.filter q) := by
  refine ⟨congrArg (List.filter q) h.rows, h.starves, ?_⟩
  have hwork := h.work
  simp only [Outlook.filter, h.rows]
  omega

theorem Within.needed (h : o'.Within o) : o'.needed.Within o.needed :=
  ⟨h.rows, by rw [Outlook.needed, Outlook.needed, h.rows, h.starves], h.work⟩

theorem Within.andThen (h : o'.Within o) (h' : o₂.Within o₁) : (o'.andThen o₂).Within (o.andThen o₁) := by
  refine ⟨?_, ?_, ?_⟩
  · simp only [Outlook.andThen, h.rows, h.starves, h'.rows]
  · simp only [Outlook.andThen, h.starves, h'.starves]
  · have hwork := h.work
    have hwork' := h'.work
    simp only [Outlook.andThen]
    omega

theorem Within.breaks (h : o'.Within o) (he : o'.Breaks busy fuel e) : o.Breaks busy fuel e := by
  cases e with
  | storage cause => exact he.imp_right fun hfuel => Nat.le_trans hfuel h.work
  | noMoreRows => exact ⟨h.rows ▸ he.1, h.starves ▸ he.2⟩
  | _ => exact he

theorem Within.steps (h : o₁.Within o) (hs : o₁.Steps row o') : o.Steps row o' := by
  cases hs with
  | took hrows hwithin => exact .took (h.rows ▸ hrows) (hwithin.trans ⟨rfl, h.starves, h.work⟩)
  | ended hrows hfed hwithin => exact .ended (h.rows ▸ hrows) (h.starves ▸ hfed) (hwithin.trans h)

/-- A row that is fetched ahead is still to come. -/
theorem Steps.behind (hs : o.Steps row o') : (o'.behind row).Within o := by
  cases hs with
  | took hrows hwithin =>
    refine ⟨?_, hwithin.starves, hwithin.work⟩
    rw [hrows, Outlook.behind, hwithin.rows]
    rfl
  | ended hrows hfed hwithin => exact hwithin

theorem steps_behind (x : α) (o : Outlook α) : (o.behind (some x)).Steps (some x) o :=
  .took rfl (.refl o)

theorem Steps.map (hs : o.Steps row o') (g : α → β) : (o.map g).Steps (row.map g) (o'.map g) := by
  cases hs with
  | took hrows hwithin => exact .took (by rw [Outlook.map, hrows]; rfl) (hwithin.map g)
  | ended hrows hfed hwithin => exact .ended (by rw [Outlook.map, hrows]; rfl) hfed (hwithin.map g)

theorem Steps.andThen (hs : o.Steps (some x) o') (o₁ : Outlook α) : (o.andThen o₁).Steps (some x) (o'.andThen o₁) := by
  cases hs with | @took _ rest _ hrows hwithin => ?_
  have hcons : (o.andThen o₁).rows = x :: (Outlook.andThen { o with rows := rest } o₁).rows := by
    rw [Outlook.andThen, hrows, Outlook.andThen]
    split <;> rfl
  exact .took hcons ((hwithin.andThen (.refl o₁)).trans ⟨rfl, rfl, Nat.le_refl _⟩)

/-- A row that passes is the first of those that pass. -/
theorem Steps.filter_pos {q : α → Bool} (hs : o.Steps (some x) o') (hx : q x = true) :
    (o.filter q).Steps (some x) (o'.filter q) := by
  obtain ⟨hrows, hwithin⟩ := hs
  refine .took (by rw [Outlook.filter, hrows, List.filter_cons, if_pos hx]; rfl) ((hwithin.filter q).trans ⟨rfl, rfl, ?_⟩)
  simp only [Outlook.filter, hrows, List.length_cons]
  omega

/-- A row that does not pass was not among them. -/
theorem Steps.filter_neg {q : α → Bool} (hs : o.Steps (some x) o') (hx : ¬ q x = true) :
    (o'.filter q).Within (o.filter q) := by
  obtain ⟨hrows, hwithin⟩ := hs
  refine (hwithin.filter q).trans ⟨?_, rfl, ?_⟩
  · simp only [Outlook.filter, hrows, List.filter_cons, if_neg hx]
  · simp only [Outlook.filter, hrows, List.length_cons]
    omega

theorem Steps.filter_none {q : α → Bool} (hs : o.Steps none o') : (o.filter q).Steps none (o'.filter q) := by
  cases hs with | ended hrows hfed hwithin => ?_
  exact .ended (by rw [Outlook.filter, hrows, List.filter_nil]) hfed (hwithin.filter q)

theorem Steps.length_lt (hs : o.Steps (some x) o') : o'.rows.length < o.rows.length := by
  obtain ⟨hrows, hwithin⟩ := hs
  rw [hrows, hwithin.rows]
  exact Nat.lt_succ_self _

theorem Breaks.map (he : o.Breaks busy fuel e) (g : α → β) : (o.map g).Breaks busy fuel e := by
  cases e with
  | noMoreRows => exact ⟨congrArg (List.map g) he.1, he.2⟩
  | _ => exact he

theorem Breaks.filter (he : o.Breaks busy fuel e) (q : α → Bool) : (o.filter q).Breaks busy fuel e := by
  cases e with
  | storage cause => exact he.imp_right fun hfuel => Nat.le_trans hfuel (Nat.le_max_left ..)
  | noMoreRows => exact ⟨congrArg (List.filter q) he.1, he.2⟩
  | _ => exact he

theorem Breaks.needed (he : o.Breaks busy fuel e) : o.needed.Breaks busy fuel e := by
  cases e with
  | noMoreRows => exact ⟨he.1, by rw [Outlook.needed, he.2]; rfl⟩
  | _ => exact he

theorem Breaks.andThen (he : o.Breaks busy fuel e) (o₁ : Outlook α) : (o.andThen o₁).Breaks busy fuel e := by
  cases e with
  | storage cause => exact he.imp_right fun hfuel => Nat.le_trans hfuel (Nat.le_max_left ..)
  | noMoreRows => exact ⟨by rw [Outlook.andThen, he.2]; exact he.1, by rw [Outlook.andThen, he.2]; rfl⟩
  | _ => exact he

/-- Where no lack is to come, a call fails for storage only. -/
theorem Breaks.of_fed {o' : Outlook β} (he : o.Breaks busy fuel e) (hfed : o.starves = false) (hwork : o.work ≤ o'.work) :
    o'.Breaks busy fuel e := by
  cases e with
  | storage cause => exact he.imp_right fun hfuel => Nat.le_trans hfuel hwork
  | noMoreRows =>
    rw [he.2] at hfed
    cases hfed
  | _ => exact he

/-- Behind the end of one outlook the next one begins. -/
theorem Steps.andThen_within (hs : o.Steps none o') (o₁ : Outlook α) : o₁.Within (o.andThen o₁) := by
  cases hs with | ended hrows hfed hwithin => ?_
  refine ⟨?_, ?_, Nat.le_max_right ..⟩
  · rw [Outlook.andThen, hrows, hfed]
    rfl
  · rw [Outlook.andThen, hfed]
    rfl

/-! ### Pairs -/

variable {left left' right right' : Outlook Row} {l : Row}

/-- All pairs of the left rows to come, if the right child is started over for each of them. -/
def rounds (right left : Outlook Row) : Outlook (Row × Row) :=
  left.rows.foldr (fun l pairs => (right.needed.map (l, ·)).andThen pairs) ⟨[], left.starves, left.work⟩

/-- The pairs of a left row with what the right child has left, and then those of the left rows behind it. -/
def pairing (l : Row) (rest right left : Outlook Row) : Outlook (Row × Row) :=
  (rest.map (l, ·)).andThen (rounds right left)

theorem rounds_cons {ls : List Row} (hleft : left.rows = l :: ls) :
    rounds right left = (right.needed.map (l, ·)).andThen (rounds right { left with rows := ls }) := by
  rw [rounds, hleft]
  rfl

theorem rounds_nil (hleft : left.rows = []) : rounds right left = ⟨[], left.starves, left.work⟩ := by
  rw [rounds, hleft]
  rfl

theorem work_le_rounds (right left : Outlook Row) : left.work ≤ (rounds right left).work := by
  rw [rounds]
  induction left.rows with
  | nil => exact Nat.le_refl _
  | cons l ls ih => exact Nat.le_trans ih (Nat.le_max_right ..)

theorem rounds_within (hright : right'.Within right) (hleft : left'.Within left) :
    (rounds right' left').Within (rounds right left) := by
  rw [rounds, rounds, hleft.rows]
  induction left.rows with
  | nil => exact ⟨rfl, hleft.starves, hleft.work⟩
  | cons l ls ih => exact (hright.needed.map _).andThen ih

/-- Where the left child fails, so do the rounds. -/
theorem Breaks.rounds (he : left.Breaks busy fuel e) (right : Outlook Row) :
    (rounds right left).Breaks busy fuel e := by
  cases e with
  | storage cause => exact he.imp_right fun hfuel => Nat.le_trans hfuel (work_le_rounds right left)
  | noMoreRows =>
    rw [rounds_nil he.1]
    exact ⟨rfl, he.2⟩
  | _ => exact he

theorem Breaks.pairing (he : right.Breaks busy fuel e) (l : Row) (anew left : Outlook Row) :
    (pairing l right anew left).Breaks busy fuel e :=
  (he.map _).andThen _

theorem pairing_within (l : Row) (hright : right'.Within right) (anew : Outlook Row) (hleft : left'.Within left) :
    (pairing l right' anew left').Within (pairing l right anew left) :=
  (hright.map _).andThen (rounds_within (.refl anew) hleft)

/-- The first row makes the difference. -/
theorem needed_of_ne_nil (h : o.rows ≠ []) : o.needed = o := by
  rw [needed, List.isEmpty_eq_false_iff.mpr h, Bool.or_false]

/-- A child that starts over has rows and then an end, so the rounds have them too. -/
theorem starves_rounds (hright : right.starves = false) (hrows : right.rows ≠ []) (hleft : left.starves = false) :
    (rounds right left).starves = false := by
  rw [rounds, needed_of_ne_nil hrows]
  induction left.rows with
  | nil => exact hleft
  | cons l ls ih =>
    rw [List.foldr_cons, andThen, ih]
    simp only [Outlook.map, hright, Bool.or_self]

/-- All pairs of two children that are both started over: none if one of them is empty. -/
def crossed (left right : Outlook Row) : Outlook (Row × Row) :=
  if left.rows = [] ∨ right.rows = [] then ⟨[], false, max left.work right.work⟩ else rounds right left

theorem starves_crossed (hleft : left.starves = false) (hright : right.starves = false) :
    (crossed left right).starves = false := by
  rw [crossed]
  split
  · rfl
  · next h => exact starves_rounds hright (not_or.mp h).2 hleft

theorem work_le_crossed (left right : Outlook Row) :
    left.work ≤ (crossed left right).work ∧ right.work ≤ (crossed left right).work := by
  rw [crossed]
  split
  · exact ⟨Nat.le_max_left .., Nat.le_max_right ..⟩
  · next h =>
    obtain ⟨l, ls, hrows⟩ := List.exists_cons_of_ne_nil (not_or.mp h).1
    refine ⟨work_le_rounds right left, ?_⟩
    rw [rounds_cons hrows]
    exact Nat.le_max_left ..

/-- The rows of the accepted pairs. -/
def joined (q : JoinPredicate) (schema : Schema) (o : Outlook (Row × Row)) : Outlook Row :=
  (o.filter fun c => q.accepts c.1 c.2).map fun c => Row.append schema c.1 c.2

end Outlook

/-- The outlook of an operator in use: a row that was fetched ahead comes first. -/
def Running.outlook {β : Type} (view : β → Outlook Row) (r : Running β) : Outlook Row :=
  (view r.body).behind r.ahead

/-- The pairs that a join has still to look at. None are left if a child was known to be empty; otherwise the held row, or
else the next left row, is paired with what the right child has left. -/
def JoinState.outlook {β γ : Type} (viewL : β → Outlook Row) (viewR : γ → Outlook Row) (anew : Outlook Row)
    (j : JoinState β γ) : Outlook (Row × Row) :=
  if j.childEmpty then ⟨[], false, 0⟩
  else
    let left := (j.left.outlook viewL).behind j.held
    match left.rows with
    | [] => ⟨[], left.starves, left.work⟩
    | l :: ls => .pairing l (j.right.outlook viewR) anew { left with rows := ls }

namespace JoinState

variable {β γ : Type} {viewL : β → Outlook Row} {viewR : γ → Outlook Row} {anew : Outlook Row} {j : JoinState β γ}
  {l : Row} {ls : List Row} {busy : Prop} {fuel : Nat} {e : ExecError}

theorem outlook_of_childEmpty (h : j.childEmpty = true) : j.outlook viewL viewR anew = ⟨[], false, 0⟩ := by
  rw [outlook, if_pos h]

theorem outlook_of_held (h : j.childEmpty = false) (hheld : j.held = some l) :
    j.outlook viewL viewR anew = .pairing l (j.right.outlook viewR) anew (j.left.outlook viewL) := by
  rw [outlook, if_neg (Bool.eq_false_iff.mp h), hheld]
  rfl

section

variable (h : j.childEmpty = false) (hheld : j.held = none)

include h hheld

theorem outlook_of_cons (hleft : (j.left.outlook viewL).rows = l :: ls) :
    j.outlook viewL viewR anew
      = .pairing l (j.right.outlook viewR) anew { j.left.outlook viewL with rows := ls } := by
  have hbehind : (j.left.outlook viewL).behind none = j.left.outlook viewL := rfl
  rw [outlook, if_neg (Bool.eq_false_iff.mp h), hheld]
  simp only [hbehind, hleft]

theorem outlook_of_nil (hleft : (j.left.outlook viewL).rows = []) :
    j.outlook viewL viewR anew = ⟨[], (j.left.outlook viewL).starves, (j.left.outlook viewL).work⟩ := by
  have hbehind : (j.left.outlook viewL).behind none = j.left.outlook viewL := rfl
  rw [outlook, if_neg (Bool.eq_false_iff.mp h), hheld]
  simp only [hbehind, hleft]

variable (viewR anew) in
/-- Where the left child has come to its end, so has the join. -/
theorem steps_of_left {o : Outlook Row} (hsteps : o.Steps none (j.left.outlook viewL)) :
    Outlook.Steps ⟨[], o.starves, o.work⟩ none (j.outlook viewL viewR anew) := by
  cases hsteps with | ended hrows hfed hwithin => ?_
  rw [outlook_of_nil h hheld (hwithin.rows.trans hrows)]
  exact .ended rfl hfed ⟨rfl, hwithin.starves, hwithin.work⟩

variable (viewR anew) in
/-- As long as no row is held, the join fails where its left child does. -/
theorem breaks_of_left (he : (j.left.outlook viewL).Breaks busy fuel e) :
    (j.outlook viewL viewR anew).Breaks busy fuel e := by
  cases hleft : (j.left.outlook viewL).rows with
  | nil =>
    rw [outlook_of_nil h hheld hleft]
    cases e with
    | noMoreRows => exact ⟨rfl, he.2⟩
    | _ => exact he
  | cons l ls =>
    rw [outlook_of_cons h hheld hleft]
    cases e with
    | storage cause =>
      refine he.imp_right fun hfuel => Nat.le_trans hfuel ?_
      exact Nat.le_trans (Outlook.work_le_rounds _ { j.left.outlook viewL with rows := ls }) (Nat.le_max_right ..)
    | noMoreRows =>
      rw [he.1] at hleft
      cases hleft
    | _ => exact he

end

/-- Once both children have fetched their first rows, all pairs are to come. -/
theorem outlook_of_started {left right : Outlook Row} {l : Running β} {r : Running γ} {x y : Row}
    (hx : l.ahead = some x) (hy : r.ahead = some y) (hleft : (l.outlook viewL).Within left)
    (hright : (r.outlook viewR).Within right) :
    (JoinState.outlook viewL viewR right ⟨false, none, l, r⟩).Within (left.crossed right) := by
  have hrows : (l.outlook viewL).rows = x :: (viewL l.body).rows := by
    rw [Running.outlook, hx]
    rfl
  have hne : right.rows ≠ [] := by
    rw [← hright.rows, Running.outlook, hy]
    exact List.cons_ne_nil _ _
  have hcons : left.rows = x :: (viewL l.body).rows := hleft.rows.symm.trans hrows
  have hneither : ¬ (left.rows = [] ∨ right.rows = []) := by
    rw [hcons, not_or]
    exact ⟨List.cons_ne_nil _ _, hne⟩
  rw [outlook_of_cons (j := ⟨false, none, l, r⟩) rfl rfl hrows, Outlook.crossed, if_neg hneither,
    Outlook.rounds_cons hcons, Outlook.needed_of_ne_nil hne]
  exact Outlook.pairing_within x hright right ⟨rfl, hleft.starves, hleft.work⟩

end JoinState

namespace Source

open Outlook (pairing rounds)

variable {β γ : Type} {P : Database → Prop} {busy : Prop} {fuel : Nat}

/-- A source that goes by its outlook.  While it stands where `view` tells, it fetches the next row that is to come; when
it is started over, the rows of `anew` are to come, and no lack behind them. -/
structure Foretells (src : Source β) (P : Database → Prop) (busy : Prop) (fuel : Nat) (Live : β → Prop)
    (view : β → Outlook Row) (anew : Outlook Row) : Prop where
  fed : anew.starves = false
  again : ∀ {b}, Live b → Meets P src.rewindBody b (fun _ b' => Live b' ∧ (view b').Within anew)
    fun e _ => anew.Breaks busy fuel e
  fetch : ∀ {b}, Live b → Meets P src.fetch b (fun row b' => Live b' ∧ (view b).Steps row (view b'))
    fun e _ => (view b).Breaks busy fuel e

namespace Foretells

variable {src : Source β} {Live : β → Prop} {view : β → Outlook Row} {anew : Outlook Row} {r : Running β} {x : Row}
  (h : src.Foretells P busy fuel Live view anew)

/-! ### The protocol -/

include h

/-- Looking ahead leaves the outlook as it is, and tells whether there are rows. -/
theorem hasNext (hr : IsLive Live r) :
    Meets P src.hasNext r
      (fun more r' => IsLive Live r' ∧ (r'.outlook view).Within (r.outlook view)
        ∧ match more with
          | true => ∃ x, r'.ahead = some x
          | false => (r.outlook view).Steps none (r'.outlook view))
      fun e _ => (r.outlook view).Breaks busy fuel e := by
  refine meets_hasNext hr.1 (fun x hahead => ⟨hr, .refl _, x, hahead⟩) fun hahead => ?_
  have houtlook : r.outlook view = view r.body := by
    rw [Running.outlook, hahead]
    rfl
  rw [houtlook]
  refine (h.fetch hr.2).mono ?_ fun _ _ he => he
  rintro (_ | x) b ⟨hb, hsteps⟩
  · exact ⟨⟨rfl, hb⟩, hsteps.behind, hsteps⟩
  · exact ⟨⟨rfl, hb⟩, hsteps.behind, x, rfl⟩

omit h in
/-- A row that was fetched ahead is the first to come. -/
theorem next_of_ahead {Err : ExecError → Running β → Prop} (hr : IsLive Live r) (hahead : r.ahead = some x) :
    Meets P src.next r
      (fun y r' => y = x ∧ IsLive Live r' ∧ (r.outlook view).Steps (some x) (r'.outlook view)) Err := by
  refine (meets_next_of_ahead hr.1 hahead).mono ?_ fun _ _ he => he
  rintro _ _ ⟨rfl, rfl⟩
  refine ⟨rfl, hr, ?_⟩
  rw [Running.outlook, hahead]
  exact Outlook.steps_behind _ _

/-- Whoever takes a row without asking relies on there being one. -/
theorem next (hr : IsLive Live r) :
    Meets P src.next r (fun x r' => IsLive Live r' ∧ (r.outlook view).Steps (some x) (r'.outlook view))
      fun e _ => (r.outlook view).needed.Breaks busy fuel e := by
  refine meets_next ((h.hasNext hr).mono_error fun _ _ he => he.needed) ?_ ?_
  · rintro x r' ⟨hr', hwithin, -⟩ hahead
    refine ⟨hr', hwithin.steps ?_⟩
    rw [Running.outlook, hahead]
    exact Outlook.steps_behind x _
  · rintro (_ | _) r' ⟨-, -, hmore⟩ hnone
    · cases hmore with | ended hrows hfed _ => ?_
      refine ⟨hrows, ?_⟩
      rw [Outlook.needed, hrows]
      exact Bool.or_true _
    · obtain ⟨x, hahead⟩ := hmore
      rw [hnone rfl] at hahead
      cases hahead

theorem rewind (hr : IsLive Live r) :
    Meets P src.rewind r (fun _ r' => IsLive Live r' ∧ (r'.outlook view).Within anew)
      fun e _ => anew.Breaks busy fuel e :=
  meets_rewind hr.1 ((h.again hr.2).mono (fun _ _ hb => ⟨⟨hr.1, hb.1⟩, hb.2⟩) fun _ _ he => he)

/-- An operator that asks for a row gets the first one to come, or comes to the end. -/
theorem take {α : Type} {k : Row → Step (Running β) α} {g : Step (Running β) α} {Ok : α → Running β → Prop}
    {Err : ExecError → Running β → Prop} (hr : IsLive Live r)
    (hk : ∀ x r', IsLive Live r' → (r.outlook view).Steps (some x) (r'.outlook view) → Meets P (k x) r' Ok Err)
    (hg : ∀ r', IsLive Live r' → (r.outlook view).Steps none (r'.outlook view) → Meets P g r' Ok Err)
    (herr : ∀ e r', (r.outlook view).Breaks busy fuel e → Err e r') :
    Meets P (do if ← src.hasNext then let row ← src.next; k row else g) r Ok Err := by
  refine ((h.hasNext hr).mono_error herr).bind ?_
  rintro (_ | _) r' ⟨hr', hwithin, hmore⟩
  · exact hg r' hr' hmore
  · obtain ⟨x, hahead⟩ := hmore
    have hnext : Meets P src.next r'
        (fun y r'' => y = x ∧ IsLive Live r'' ∧ (r'.outlook view).Steps (some x) (r''.outlook view)) Err :=
      next_of_ahead hr' hahead
    refine hnext.bind ?_
    rintro _ r'' ⟨rfl, hr'', hsteps⟩
    exact hk _ r'' hr'' (hwithin.steps hsteps)

/-! ### Filters and projections -/

/-- The search for an accepted row. -/
theorem fetchAccepted {q : Predicate} {k : Nat} {o : Outlook Row} (hr : IsLive Live r)
    (hwithin : ((r.outlook view).filter q.accepts).Within o) (hfuel : (r.outlook view).rows.length < k ∨ fuel ≤ o.work) :
    Meets P (Source.fetchAccepted q src k) r
      (fun row r' => IsLive Live r' ∧ o.Steps row ((r'.outlook view).filter q.accepts))
      fun e _ => o.Breaks busy fuel e := by
  -- on the fuel of the search; a row that is passed over is none that is to come
  induction k generalizing r with
  | zero => exact Action.meets_throw (.inr (hfuel.resolve_left (Nat.not_lt_zero _)))
  | succ k ih =>
    refine h.take hr ?_ ?_ ?_
    · intro x r' hr' hsteps
      by_cases hx : q.accepts x = true
      · simp only [if_pos hx]
        exact Action.meets_pure ⟨hr', hwithin.steps (hsteps.filter_pos hx)⟩
      · simp only [if_neg hx]
        refine ih hr' ((hsteps.filter_neg hx).trans hwithin) (hfuel.imp_left fun hlt => ?_)
        exact Nat.lt_of_lt_of_le hsteps.length_lt (Nat.le_of_lt_succ hlt)
    · exact fun r' hr' hsteps => Action.meets_pure ⟨hr', hwithin.steps hsteps.filter_none⟩
    · exact fun e _ he => hwithin.breaks (he.filter _)

theorem filter (q : Predicate) :
    (src.filter fuel q).Foretells P busy fuel (IsLive Live) (fun r => (r.outlook view).filter q.accepts)
      (anew.filter q.accepts) := by
  refine ⟨h.fed, fun hr => ?_, fun {r} hr => ?_⟩
  · exact (h.rewind hr).mono (fun _ _ h => ⟨h.1, h.2.filter _⟩) fun _ _ he => he.filter _
  · refine h.fetchAccepted hr (.refl _) ?_
    rcases Nat.lt_or_ge (r.outlook view).rows.length fuel with hlt | hle
    · exact .inl hlt
    · exact .inr (Nat.le_trans hle (Nat.le_max_right ..))

theorem project (fields : List Nat) (schema : Schema) :
    (src.project fields schema).Foretells P busy fuel (IsLive Live) (fun r => (r.outlook view).map (pick fields schema))
      (anew.map (pick fields schema)) := by
  refine ⟨h.fed, fun hr => ?_, fun hr => h.take hr ?_ ?_ ?_⟩
  · exact (h.rewind hr).mono (fun _ _ h => ⟨h.1, h.2.map _⟩) fun _ _ he => he.map _
  · exact fun x r' hr' hsteps => Action.meets_pure ⟨hr', hsteps.map _⟩
  · exact fun r' hr' hsteps => Action.meets_pure ⟨hr', hsteps.map _⟩
  · exact fun e _ he => he.map _

end Foretells

/-! ### Joins -/

section Join

variable {left : Source β} {right : Source γ} {LL : β → Prop} {LR : γ → Prop} {viewL : β → Outlook Row}
  {viewR : γ → Outlook Row} {anewL anewR rest : Outlook Row} {o : Outlook (Row × Row)} {j : JoinState β γ} {l : Row}

/-- The left row `l` was taken.  It is to be paired with the rows `rest` of the right child; these pairs, and those of the
left rows behind it, are to come. -/
structure Takes (LL : β → Prop) (LR : γ → Prop) (viewL : β → Outlook Row) (anewR : Outlook Row)
    (o : Outlook (Row × Row)) (rest : Outlook Row) (l : Row) (j : JoinState β γ) : Prop where
  live : BothLive LL LR j
  known : j.childEmpty = false
  free : j.held = none
  within : (pairing l rest anewR (j.left.outlook viewL)).Within o

/-- A step of the left child leaves everything else as it is. -/
theorem meets_onLeft {α : Type} {a : Step (Running β) α} {Ok : α → Running β → Prop} {Fault Fault' : ExecError → Prop}
    (ha : Meets P a j.left Ok fun e _ => Fault e) (hfault : ∀ e, Fault e → Fault' e) :
    Meets P (onLeft a) j (fun x j' => ∃ r, j' = { j with left := r } ∧ Ok x r) fun e _ => Fault' e :=
  ha.on (fun _ r hr => ⟨r, rfl, hr⟩) fun e _ he => hfault e he

theorem meets_onRight {α : Type} {a : Step (Running γ) α} {Ok : α → Running γ → Prop} {Fault Fault' : ExecError → Prop}
    (ha : Meets P a j.right Ok fun e _ => Fault e) (hfault : ∀ e, Fault e → Fault' e) :
    Meets P (onRight a) j (fun x j' => ∃ r, j' = { j with right := r } ∧ Ok x r) fun e _ => Fault' e :=
  ha.on (fun _ r hr => ⟨r, rfl, hr⟩) fun e _ he => hfault e he

variable (viewL) in
/-- A left row that was fetched ahead is taken whatever happens. -/
theorem meets_nextLeft {Fault : ExecError → Prop} (hj : IsLive LL j.left) (hahead : j.left.ahead = some l) :
    Meets P (onLeft left.next) j
      (fun x j' => ∃ r, j' = { j with left := r } ∧ x = l ∧ IsLive LL r
        ∧ (j.left.outlook viewL).Steps (some l) (r.outlook viewL))
      fun e _ => Fault e :=
  meets_onLeft (Foretells.next_of_ahead hj hahead) fun _ he => he

variable (hl : left.Foretells P busy fuel LL viewL anewL) (hr : right.Foretells P busy fuel LR viewR anewR)

namespace Foretells

include hl in
/-- The next left row is taken: the held one, or else the first one to come. -/
theorem takeLeft (hj : BothLive LL LR j) (hknown : j.childEmpty = false) :
    Meets P (takeLeft left) j
      (fun row j' => match row with
        | some l => Takes LL LR viewL anewR (j.outlook viewL viewR anewR) (j'.right.outlook viewR) l j'
        | none => BothLive LL LR j' ∧ (j.outlook viewL viewR anewR).Steps none (j'.outlook viewL viewR anewR))
      fun e _ => (j.outlook viewL viewR anewR).Breaks busy fuel e := by
  refine Action.meets_state.bind ?_
  rintro _ j ⟨rfl, rfl⟩
  cases hheld : j.held with
  | some l =>
    have hdrop : Meets P (Action.update fun s => { s with held := none }) j
        (fun _ j' => Takes LL LR viewL anewR (j.outlook viewL viewR anewR) (j'.right.outlook viewR) l j')
        fun e _ => (j.outlook viewL viewR anewR).Breaks busy fuel e := by
      refine Action.meets_update ⟨hj, hknown, rfl, ?_⟩
      rw [JoinState.outlook_of_held hknown hheld]
      exact .refl _
    exact hdrop.bind fun _ j' hj' => Action.meets_pure hj'
  | none =>
    have hlook := meets_onLeft (hl.hasNext hj.1) fun e he =>
      JoinState.breaks_of_left viewR anewR hknown hheld he
    refine hlook.bind ?_
    rintro (_ | _) _ ⟨r, rfl, hr', hwithin, hmore⟩
    · -- the left child has come to its end, and no row was held
      have hsteps := JoinState.steps_of_left (j := { j with left := r }) viewR anewR hknown hheld hmore
      cases hmore with | ended hrows hfed _ => ?_
      refine Action.meets_pure ⟨⟨hr', hj.2⟩, ?_⟩
      rw [JoinState.outlook_of_nil hknown hheld hrows]
      exact hsteps
    · obtain ⟨x, hahead⟩ := hmore
      refine (meets_nextLeft viewL hr' hahead).bind ?_
      rintro _ _ ⟨r', rfl, rfl, hr'', hsteps⟩
      cases hwithin.steps hsteps with | took hrows hwithin' => ?_
      refine Action.meets_pure ⟨⟨hr'', hj.2⟩, hknown, hheld, ?_⟩
      rw [JoinState.outlook_of_cons hknown hheld hrows]
      exact Outlook.pairing_within _ (.refl _) _ hwithin'

include hl hr

/-- The left row goes with the next right row; behind the last right row the next left row goes with the first one. -/
theorem advanceLeft (hj : Takes LL LR viewL anewR o (j.right.outlook viewR) l j) :
    Meets P (advanceLeft left right l) j
      (fun row j' => match row with
        | some x => Takes LL LR viewL anewR o (j'.right.outlook viewR).needed x j'
        | none => BothLive LL LR j' ∧ o.Steps none (j'.outlook viewL viewR anewR))
      fun e _ => o.Breaks busy fuel e := by
  obtain ⟨hlive, hknown, hheld, hwithin⟩ := hj
  have hlook := meets_onRight (hr.hasNext hlive.2) fun e he => hwithin.breaks (he.pairing l anewR _)
  refine hlook.bind ?_
  rintro (_ | _) _ ⟨r, rfl, hr', hwithinR, hmore⟩
  · -- behind the last right row the rounds of the other left rows begin
    have hrounds : (rounds anewR (j.left.outlook viewL)).Within o :=
      ((hmore.map _).andThen_within _).trans hwithin
    have hlookL := meets_onLeft (j := { j with right := r }) (hl.hasNext hlive.1) fun e he =>
      hrounds.breaks (he.rounds anewR)
    refine hlookL.bind ?_
    rintro (_ | _) _ ⟨l', rfl, hl', hwithinL, hmoreL⟩
    · have hsteps := JoinState.steps_of_left (j := { j with left := l', right := r }) viewR anewR hknown hheld
        hmoreL
      cases hmoreL with | ended hrows hfed _ => ?_
      rw [Outlook.rounds_nil hrows] at hrounds
      exact Action.meets_pure ⟨⟨hl', hr'⟩, hrounds.steps hsteps⟩
    · obtain ⟨x, hahead⟩ := hmoreL
      obtain ⟨tail, hrows⟩ : ∃ tail, (j.left.outlook viewL).rows = x :: tail := by
        rw [← hwithinL.rows, Running.outlook, hahead]
        exact ⟨_, rfl⟩
      rw [Outlook.rounds_cons hrows] at hrounds
      have hrewind := meets_onRight (j := { j with left := l', right := r }) (hr.rewind hr') fun e he =>
        hrounds.breaks ((he.needed.map (x, ·)).andThen _)
      refine hrewind.bind ?_
      rintro _ _ ⟨r', rfl, hr'', hanew⟩
      refine (meets_nextLeft viewL hl' hahead).bind ?_
      rintro _ _ ⟨l'', rfl, rfl, hl'', hsteps⟩
      cases hwithinL.steps hsteps with | took hrows' hwithin' => ?_
      rw [hrows] at hrows'
      cases hrows'
      refine Action.meets_pure ⟨⟨hl'', hr''⟩, hknown, hheld, ?_⟩
      exact ((hanew.needed.map _).andThen (Outlook.rounds_within (.refl _) hwithin')).trans hrounds
  · obtain ⟨y, hahead⟩ := hmore
    have hne : (r.outlook viewR).rows ≠ [] := by
      rw [Running.outlook, hahead]
      exact List.cons_ne_nil _ _
    refine Action.meets_pure ⟨⟨hlive.1, hr'⟩, hknown, hheld, ?_⟩
    rw [Outlook.needed_of_ne_nil hne]
    exact (Outlook.pairing_within l hwithinR anewR (.refl _)).trans hwithin

/-- A join takes the first of the pairs to come, or comes to their end. -/
theorem nextPair (hj : BothLive LL LR j) :
    Meets P (nextPair left right) j
      (fun pair j' => BothLive LL LR j' ∧ (j.outlook viewL viewR anewR).Steps pair (j'.outlook viewL viewR anewR))
      fun e _ => (j.outlook viewL viewR anewR).Breaks busy fuel e := by
  refine Action.meets_state.bind ?_
  rintro _ j ⟨rfl, rfl⟩
  cases hknown : j.childEmpty with
  | true =>
    refine Action.meets_pure ⟨hj, ?_⟩
    rw [JoinState.outlook_of_childEmpty hknown]
    exact .ended rfl rfl (.refl _)
  | false =>
    refine (hl.takeLeft hj hknown).bind ?_
    rintro (_ | l) j₁ hj₁
    · exact Action.meets_pure hj₁
    · refine (hl.advanceLeft hr hj₁).bind ?_
      rintro (_ | x) j₂ hj₂
      · exact Action.meets_pure hj₂
      · obtain ⟨hlive, hknown₂, -, hwithin⟩ := hj₂
        -- the right child may have been started over, and then there may be no row
        have hnext := meets_onRight (hr.next hlive.2) fun e he => hwithin.breaks (he.pairing x anewR _)
        refine hnext.bind ?_
        rintro y _ ⟨r, rfl, hr', hsteps⟩
        have hkeep : Meets P (Action.update fun s => { s with held := some x }) { j₂ with right := r }
            (fun _ j' => BothLive LL LR j'
              ∧ (j.outlook viewL viewR anewR).Steps (some (x, y)) (j'.outlook viewL viewR anewR))
            fun e _ => (j.outlook viewL viewR anewR).Breaks busy fuel e := by
          refine Action.meets_update ⟨⟨hlive.1, hr'⟩, ?_⟩
          rw [JoinState.outlook_of_held (j := ⟨j₂.childEmpty, some x, j₂.left, r⟩) (l := x) hknown₂ rfl]
          have hne : (j₂.right.outlook viewR).rows ≠ [] := by
            cases hsteps with | took hrows _ => ?_
            rw [hrows]
            exact List.cons_ne_nil _ _
          rw [Outlook.needed_of_ne_nil hne] at hwithin
          exact hwithin.steps ((hsteps.map (x, ·)).andThen _)
        exact hkeep.bind fun _ j' hj' => Action.meets_pure hj'

/-- The search for an accepted pair. -/
theorem fetchPair {q : JoinPredicate} {schema : Schema} {k : Nat} {o : Outlook Row} (hj : BothLive LL LR j)
    (hwithin : (Outlook.joined q schema (j.outlook viewL viewR anewR)).Within o)
    (hfuel : (j.outlook viewL viewR anewR).rows.length < k ∨ fuel ≤ o.work) :
    Meets P (fetchPair q schema left right k) j
      (fun row j' => BothLive LL LR j' ∧ o.Steps row (Outlook.joined q schema (j'.outlook viewL viewR anewR)))
      fun e _ => o.Breaks busy fuel e := by
  induction k generalizing j with
  | zero => exact Action.meets_throw (.inr (hfuel.resolve_left (Nat.not_lt_zero _)))
  | succ k ih =>
    refine ((nextPair hl hr hj).mono_error fun e _ he => hwithin.breaks ((he.filter _).map _)).bind ?_
    rintro (_ | ⟨x, y⟩) j' ⟨hj', hsteps⟩
    · exact Action.meets_pure ⟨hj', hwithin.steps (hsteps.filter_none.map _)⟩
    · by_cases hc : q.accepts x y = true
      · simp only [if_pos hc]
        have hpos := hsteps.filter_pos (q := fun c => q.accepts c.1 c.2) hc
        exact Action.meets_pure ⟨hj', hwithin.steps (hpos.map fun c => Row.append schema c.1 c.2)⟩
      · simp only [if_neg hc]
        have hneg := hsteps.filter_neg (q := fun c => q.accepts c.1 c.2) hc
        refine ih hj' ((hneg.map _).trans hwithin) (hfuel.imp_left fun hlt => ?_)
        exact Nat.lt_of_lt_of_le hsteps.length_lt (Nat.le_of_lt_succ hlt)

/-- Two children that were started over are paired from their first rows on. -/
theorem startPairs (hj : BothLive LL LR j) (hleft : (j.left.outlook viewL).Within anewL)
    (hright : (j.right.outlook viewR).Within anewR) :
    Meets P (startPairs left right) j
      (fun _ j' => BothLive LL LR j' ∧ (j'.outlook viewL viewR anewR).Within (Outlook.crossed anewL anewR))
      fun e _ => (Outlook.crossed anewL anewR).Breaks busy fuel e := by
  obtain ⟨hworkL, hworkR⟩ := Outlook.work_le_crossed anewL anewR
  have hdrop : Meets P (Action.update fun s => { s with held := none }) j (fun _ j' => j' = { j with held := none })
      fun e _ => (Outlook.crossed anewL anewR).Breaks busy fuel e := Action.meets_update rfl
  refine hdrop.bind ?_
  rintro _ _ rfl
  -- a join that knows of an empty child has no pairs to come
  have hempty : ∀ {j' : JoinState β γ}, j'.childEmpty = true → anewL.rows = [] ∨ anewR.rows = [] →
      (j'.outlook viewL viewR anewR).Within (Outlook.crossed anewL anewR) := by
    intro j' hj' hrows
    rw [JoinState.outlook_of_childEmpty hj', Outlook.crossed, if_pos hrows]
    exact ⟨rfl, rfl, Nat.zero_le _⟩
  have hlookL := meets_onLeft (j := { j with held := none }) (hl.hasNext hj.1) fun e he =>
    (hleft.breaks he).of_fed hl.fed hworkL
  refine hlookL.bind ?_
  rintro (_ | _) _ ⟨l, rfl, hl', hwithinL, hmoreL⟩
  · cases hmoreL with | ended hrows _ _ => ?_
    show Meets P (Action.update fun s : JoinState β γ => { s with childEmpty := true }) _ _ _
    exact Action.meets_update ⟨⟨hl', hj.2⟩, hempty rfl (.inl (hleft.rows.symm.trans hrows))⟩
  · obtain ⟨x, hahead⟩ := hmoreL
    have hlookR := meets_onRight (j := { j with held := none, left := l }) (hr.hasNext hj.2) fun e he =>
      (hright.breaks he).of_fed hr.fed hworkR
    refine hlookR.bind ?_
    rintro (_ | _) _ ⟨r, rfl, hr', hwithinR, hmoreR⟩
    · cases hmoreR with | ended hrows _ _ => ?_
      exact Action.meets_update ⟨⟨hl', hr'⟩, hempty rfl (.inr (hright.rows.symm.trans hrows))⟩
    · obtain ⟨y, haheadR⟩ := hmoreR
      refine Action.meets_update ⟨⟨hl', hr'⟩, ?_⟩
      exact JoinState.outlook_of_started hahead haheadR (hwithinL.trans hleft) (hwithinR.trans hright)

/-- A join goes by the outlook of its pairs. -/
theorem join (q : JoinPredicate) (schema : Schema) :
    (Source.join fuel q schema left right).Foretells P busy fuel (BothLive LL LR)
      (fun j => Outlook.joined q schema (j.outlook viewL viewR anewR))
      (Outlook.joined q schema (Outlook.crossed anewL anewR)) := by
  obtain ⟨hworkL, hworkR⟩ := Outlook.work_le_crossed anewL anewR
  refine ⟨Outlook.starves_crossed hl.fed hr.fed, fun {j} hj => ?_, fun {j} hj => ?_⟩
  · have hwork : (Outlook.crossed anewL anewR).work ≤ (Outlook.joined q schema (Outlook.crossed anewL anewR)).work :=
      Nat.le_max_left ..
    have hrewindL := meets_onLeft (hl.rewind hj.1) fun e he => he.of_fed hl.fed (Nat.le_trans hworkL hwork)
    refine hrewindL.bind ?_
    rintro _ _ ⟨l, rfl, hl', hwithinL⟩
    have hrewindR := meets_onRight (j := { j with left := l }) (hr.rewind hj.2) fun e he =>
      he.of_fed hr.fed (Nat.le_trans hworkR hwork)
    refine hrewindR.bind ?_
    rintro _ _ ⟨r, rfl, hr', hwithinR⟩
    refine (startPairs hl hr (j := { j with left := l, right := r }) ⟨hl', hr'⟩ hwithinL hwithinR).mono ?_ ?_
    · exact fun _ j' hj' => ⟨hj'.1, (hj'.2.filter _).map _⟩
    · exact fun e _ he => (he.filter _).map _
  · refine fetchPair hl hr hj (.refl _) ?_
    rcases Nat.lt_or_ge (j.outlook viewL viewR anewR).rows.length fuel with hlt | hle
    · exact .inl hlt
    · exact .inr (Nat.le_trans hle (Nat.le_max_right ..))

end Foretells

end Join

end Source

end RelStore
