/-
Operators over safe sources.

* `Source.safe_values`, `Source.safe_scan`, `Source.safe_groups` — fixed rows, scans and shared aggregates are safe;
* `Source.projectChecked` — a projection that looks whether a row has all the fields that it is to hand out;
* `Source.Safe.filter`, `Source.Safe.project`, `Source.Safe.join`, `Source.Safe.change`, `Source.Safe.aggregate` — and so
  is every operator over safe sources, if it makes of their rows what its own rows should be;
* `Shape`, `Plan.Holds` — what should be true of the rows of a plan, and so of all that its operators keep;
* `Plan.checkedSource` — a plan whose projections look;
* `Plan.Fitting` — the columns of every operator of a plan come from its children, as its constructor makes them.

Design notes.  One lemma for each operator says what its rows are, given those of its children.  Nothing is said here of
columns, sizes or tables; whoever has something to say of them gives it a `Shape`.
-/
import RelStore.Proofs.Query.Checking

namespace RelStore

open RelStore.Action (Result)
open Running (Keeps)

variable {β γ : Type} {P : Database → Prop} {Ok : ExecError → Prop} {R S T : Row → Prop} {schema : Schema} {fuel : Nat}

/-- The children of a join, and the left row that it holds, are as they should be. -/
structure JoinState.Keeps (R S : Row → Prop) (I : β → Prop) (J : γ → Prop) (s : JoinState β γ) : Prop where
  held : ∀ row ∈ s.held, R row
  left : s.left.Keeps R I
  right : s.right.Keeps S J

namespace Source

/-! ### Fixed rows and scans -/

section Leaves

variable (hlenient : ∀ e, ¬ e.OfSchema → Ok e)

include hlenient

theorem safe_values {rows : List Row} (h : ∀ row ∈ rows, R row) :
    (values rows).Safe (values rows) P Ok R fun rest => ∀ row ∈ rest, R row := by
  have hstart : ∀ b, Action.Safe Ok P (values rows).openBody (values rows).openBody b
      (fun _ rest => ∀ row ∈ rest, R row) fun rest => ∀ row ∈ rest, R row :=
    fun _ db hdb => ⟨.ok (), rows, db, rfl, rfl, hdb, h⟩
  refine ⟨hlenient, fun _ => hstart _, fun _ => hstart _, fun _ => ⟨rfl, nofun⟩, fun {rest} hrest => ?_⟩
  refine Action.Safe.bind Action.safe_state fun rest' s hs => ?_
  obtain ⟨rfl, rfl⟩ := hs
  cases s with
  | nil => exact Action.safe_pure ⟨nofun, hrest⟩
  | cons row rest =>
    obtain ⟨hrow, hrest⟩ := List.forall_mem_cons.mp hrest
    refine Action.Safe.bind (Action.safe_update (Q := fun _ s => ∀ row ∈ s, R row) hrest) fun _ s hs => ?_
    exact Action.safe_pure ⟨Row.forall_mem_some hrow, hs⟩

omit hlenient

variable {f : HeapFile} {cursor : HeapCursor} {L : Row → Prop}

/-- What a cursor has loaded is as it should be. -/
def Loaded (L : Row → Prop) (cursor : HeapCursor) : Prop :=
  ∀ row ∈ cursor.pending, L row

/-- Pages of a file can be asked for at any time, and the rows on them have `L`. -/
def Loads (P : Database → Prop) (Ok : ExecError → Prop) (f : HeapFile) (L : Row → Prop) : Prop :=
  ∀ db, P db → ∀ n, P ((Database.getPage ⟨f.id, n⟩).outcome db).2
    ∧ (∀ b, ((Database.getPage ⟨f.id, n⟩).outcome db).1 = .ok b → ∀ row ∈ b.page.rows, L row)
    ∧ ∀ e, ((Database.getPage ⟨f.id, n⟩).outcome db).1 = .error e → Ok (.storage e)

theorem safe_getPage (hloads : Loads P Ok f L) (hcursor : Loaded L cursor) :
    Action.Safe (Ok ∘ .storage) P (Action.ofDb id (Database.getPage ⟨f.id, cursor.nextPage⟩))
      (Action.ofDb id (Database.getPage ⟨f.id, cursor.nextPage⟩)) cursor
      (fun b s => (∀ row ∈ b.page.rows, L row) ∧ Loaded L s) (Loaded L) := by
  refine Action.safe_ofDb fun db hdb => ?_
  obtain ⟨hdb', hrows, herror⟩ := hloads db hdb cursor.nextPage
  refine ⟨hdb', ?_⟩
  cases hget : ((Database.getPage ⟨f.id, cursor.nextPage⟩).outcome db).1 with
  | ok b => exact ⟨hrows b hget, hcursor⟩
  | error e => exact ⟨herror e hget, hcursor⟩

include hlenient

theorem safe_search (hloads : Loads P Ok f L) (hcursor : Loaded L cursor) :
    Action.Safe (Ok ∘ .storage) P (HeapCursor.search f fuel) (HeapCursor.search f fuel) cursor (fun _ => Loaded L)
      (Loaded L) := by
  -- one page after the other is loaded until there is a row
  induction fuel generalizing cursor with
  | zero => exact Action.safe_throw (hlenient _ not_false) hcursor
  | succ fuel ih =>
    refine Action.Safe.bind Action.safe_state fun s s' hs => ?_
    obtain ⟨rfl, rfl⟩ := hs
    split
    · exact Action.safe_pure hcursor
    · refine Action.Safe.bind Action.safe_database fun db s hs => ?_
      obtain ⟨-, rfl⟩ := hs
      split
      · exact Action.safe_pure hcursor
      · refine Action.Safe.bind (safe_getPage hloads hcursor) fun b s hs => ?_
        exact Action.Safe.bind (Action.safe_update (Q := fun _ => Loaded L) hs.1) fun _ s hs => ih hs

theorem safe_cursorHasNext (hloads : Loads P Ok f L) (hcursor : Loaded L cursor) :
    Action.Safe (Ok ∘ .storage) P (HeapCursor.hasNext f fuel) (HeapCursor.hasNext f fuel) cursor (fun _ => Loaded L)
      (Loaded L) := by
  refine Action.Safe.bind Action.safe_state fun s s' hs => ?_
  obtain ⟨rfl, rfl⟩ := hs
  split
  · exact safe_search hlenient hloads hcursor
  · exact Action.safe_throw (hlenient _ not_false) hcursor

theorem safe_cursorNext (hloads : Loads P Ok f L) (hcursor : Loaded L cursor) :
    Action.Safe (Ok ∘ .storage) P (HeapCursor.next f fuel) (HeapCursor.next f fuel) cursor
      (fun row s => L row ∧ Loaded L s) (Loaded L) := by
  refine Action.Safe.bind (safe_cursorHasNext hlenient hloads hcursor) fun more s hs => ?_
  split
  · refine Action.Safe.bind Action.safe_state fun s' s'' hs' => ?_
    obtain ⟨rfl, rfl⟩ := hs'
    split
    · next row rest hpending =>
      rw [Loaded, hpending] at hs
      obtain ⟨hrow, hrest⟩ := List.forall_mem_cons.mp hs
      exact Action.Safe.bind (Action.safe_update (Q := fun _ => Loaded L) hrest) fun _ _ hs =>
        Action.safe_pure ⟨hrow, hs⟩
    · exact Action.safe_throw (hlenient _ not_false) hs
  · exact Action.safe_throw (hlenient _ not_false) hs

theorem safe_cursorStart (hcursor : Loaded L cursor) :
    Action.Safe (Ok ∘ .storage) P (HeapCursor.start f) (HeapCursor.start f) cursor (fun _ => Loaded L) (Loaded L) := by
  refine Action.Safe.bind Action.safe_state fun s s' hs => ?_
  obtain ⟨rfl, rfl⟩ := hs
  split
  · exact Action.safe_pure hcursor
  · refine Action.Safe.bind Action.safe_database fun db s hs => ?_
    obtain ⟨-, rfl⟩ := hs
    split
    · exact Action.safe_throw (hlenient _ not_false) hcursor
    · exact Action.safe_update hcursor

theorem safe_cursorRewind (hcursor : Loaded L cursor) :
    Action.Safe (Ok ∘ .storage) P (HeapCursor.rewind f) (HeapCursor.rewind f) cursor (fun _ => Loaded L)
      (Loaded L) := by
  refine Action.Safe.bind Action.safe_state fun s s' hs => ?_
  obtain ⟨rfl, rfl⟩ := hs
  split
  · have hclosed : Loaded L HeapCursor.closed := nofun
    exact Action.Safe.bind (Action.safe_update (Q := fun _ => Loaded L) hclosed) fun _ _ => safe_cursorStart hlenient
  · exact Action.safe_throw (hlenient _ not_false) hcursor

/-- A scan puts what it reads under its own columns. -/
theorem safe_scan (hloads : Loads P Ok f L) (hrow : ∀ row, L row → R (row.withSchema schema)) :
    (scan fuel f schema).Safe (scan fuel f schema) P Ok R (Loaded L) := by
  have hwrap : ∀ e, (Ok ∘ ExecError.storage) e → Ok (.storage e) := fun _ => id
  refine ⟨hlenient, fun h => (safe_cursorStart hlenient h).wrapError hwrap,
    fun h => (safe_cursorRewind hlenient h).wrapError hwrap, fun _ => ⟨rfl, nofun⟩, fun {cursor} hcursor => ?_⟩
  refine Action.Safe.bind ((safe_cursorHasNext hlenient hloads hcursor).wrapError hwrap) fun more s hs => ?_
  split
  · refine Action.Safe.bind ((safe_cursorNext hlenient hloads hs).wrapError hwrap) fun row s hs => ?_
    exact Action.safe_pure ⟨Row.forall_mem_some (hrow row hs.1), hs.2⟩
  · exact Action.safe_pure ⟨nofun, hs⟩

end Leaves

/-! ### Filters and projections -/

/-- A projection that refuses a row without one of the listed fields. -/
def projectChecked (fields : List Nat) (schema : Schema) (child : Source β) : Source (Running β) where
  openBody := child.open
  closeBody := child.close
  rewindBody := child.rewind
  fetch := do
    if ← child.hasNext then
      let row ← child.next
      if ∀ i ∈ fields, i < row.fields.length then pure (some (pick fields schema row))
      else throw (.schema (.indexOutOfRange row.fields.length))
    else pure none

section Child

variable {child chk : Source β} {I : β → Prop} (h : child.Safe chk P Ok R I)

include h

theorem Safe.filter (fuel : Nat) (p : Predicate) :
    (child.filter fuel p).Safe (chk.filter fuel p) P Ok R (Keeps R I) := by
  refine ⟨h.lenient, h.open, h.rewind, h.close, fun {r} hr => ?_⟩
  show Action.Safe _ P (fetchAccepted p child fuel) (fetchAccepted p chk fuel) r _ _
  induction fuel generalizing r with
  | zero => exact Action.safe_throw (h.lenient _ not_false) hr
  | succ fuel ih =>
    refine h.take hr (fun _ => id) (fun row r' hrow hr' => ?_) fun r' hr' => Action.safe_pure ⟨nofun, hr'⟩
    split
    · exact Action.safe_pure ⟨Row.forall_mem_some hrow, hr'⟩
    · exact ih hr'

/-- A projection need not look whether a row has the listed fields, if every row has them. -/
theorem Safe.project {fields : List Nat}
    (hpick : ∀ row, R row → S (pick fields schema row) ∧ ∀ i ∈ fields, i < row.fields.length) :
    (child.project fields schema).Safe (chk.projectChecked fields schema) P Ok S (Keeps R I) := by
  refine ⟨h.lenient, h.open, h.rewind, h.close, fun {r} hr => ?_⟩
  refine h.take hr (fun _ => id) (fun row r' hrow hr' => ?_) fun r' hr' => Action.safe_pure ⟨nofun, hr'⟩
  obtain ⟨hpicked, hall⟩ := hpick row hrow
  rw [if_pos hall]
  exact Action.safe_pure ⟨Row.forall_mem_some hpicked, hr'⟩

end Child

/-! ### Joins -/

section Join

variable {left chkLeft : Source β} {right chkRight : Source γ} {I : β → Prop} {J : γ → Prop} {s : JoinState β γ}

theorem safe_onLeft {α : Type} {step chk : Step (Running β) α} {Q : α → Running β → Prop}
    (h : Action.Safe Ok P step chk s.left Q (Keeps R I)) (hQ : ∀ x r, Q x r → r.Keeps R I)
    (hs : s.Keeps R S I J) :
    Action.Safe Ok P (onLeft step) (onLeft chk) s (fun x s => Q x s.left ∧ s.Keeps R S I J)
      (JoinState.Keeps R S I J) :=
  h.on (fun x r hx => ⟨hx, hs.held, hQ x r hx, hs.right⟩) fun _ hr => ⟨hs.held, hr, hs.right⟩

theorem safe_onRight {α : Type} {step chk : Step (Running γ) α} {Q : α → Running γ → Prop}
    (h : Action.Safe Ok P step chk s.right Q (Keeps S J)) (hQ : ∀ x r, Q x r → r.Keeps S J)
    (hs : s.Keeps R S I J) :
    Action.Safe Ok P (onRight step) (onRight chk) s (fun x s => Q x s.right ∧ s.Keeps R S I J)
      (JoinState.Keeps R S I J) :=
  h.on (fun x r hx => ⟨hx, hs.held, hs.left, hQ x r hx⟩) fun _ hr => ⟨hs.held, hs.left, hr⟩

variable (hl : left.Safe chkLeft P Ok R I) (hr : right.Safe chkRight P Ok S J)

include hl hr

theorem safe_startPairs (hs : s.Keeps R S I J) :
    Action.Safe Ok P (startPairs left right) (startPairs chkLeft chkRight) s
      (fun _ => JoinState.Keeps R S I J) (JoinState.Keeps R S I J) := by
  have hdropped : JoinState.Keeps R S I J { s with held := none } := ⟨nofun, hs.left, hs.right⟩
  refine Action.Safe.bind (Action.safe_update (Q := fun _ => JoinState.Keeps R S I J) hdropped) fun _ s hs => ?_
  refine Action.Safe.bind (safe_onLeft (hl.hasNext hs.left) (fun _ _ => id) hs) fun more s hs => ?_
  obtain ⟨-, hs⟩ := hs
  split
  · refine Action.Safe.bind (safe_onRight (hr.hasNext hs.right) (fun _ _ => id) hs) fun some? s hs => ?_
    exact Action.safe_update ⟨hs.2.held, hs.2.left, hs.2.right⟩
  · exact Action.safe_update ⟨hs.held, hs.left, hs.right⟩

omit hr in
theorem safe_takeLeft (hs : s.Keeps R S I J) :
    Action.Safe Ok P (takeLeft left) (takeLeft chkLeft) s
      (fun row? s => (∀ row ∈ row?, R row) ∧ s.Keeps R S I J) (JoinState.Keeps R S I J) := by
  refine Action.Safe.bind Action.safe_state fun s' s'' hs' => ?_
  obtain ⟨rfl, rfl⟩ := hs'
  split
  · next row hheld =>
    have hrow := hs.held row hheld
    have hdropped : JoinState.Keeps R S I J { s'' with held := none } := ⟨nofun, hs.left, hs.right⟩
    refine Action.Safe.bind (Action.safe_update (Q := fun _ => JoinState.Keeps R S I J) hdropped) fun _ s hs => ?_
    exact Action.safe_pure ⟨Row.forall_mem_some hrow, hs⟩
  · refine Action.Safe.bind (safe_onLeft (hl.hasNext hs.left) (fun _ _ => id) hs) fun more s hs => ?_
    obtain ⟨-, hs⟩ := hs
    split
    · refine Action.Safe.bind (safe_onLeft (hl.next hs.left) (fun _ _ => And.right) hs) fun row s hs => ?_
      exact Action.safe_pure ⟨Row.forall_mem_some hs.1.1, hs.2⟩
    · exact Action.safe_pure ⟨nofun, hs⟩

theorem safe_advanceLeft {row : Row} (hrow : R row) (hs : s.Keeps R S I J) :
    Action.Safe Ok P (advanceLeft left right row) (advanceLeft chkLeft chkRight row) s
      (fun row? s => (∀ row ∈ row?, R row) ∧ s.Keeps R S I J) (JoinState.Keeps R S I J) := by
  refine Action.Safe.bind (safe_onRight (hr.hasNext hs.right) (fun _ _ => id) hs) fun more s hs => ?_
  obtain ⟨-, hs⟩ := hs
  split
  · exact Action.safe_pure ⟨Row.forall_mem_some hrow, hs⟩
  · refine Action.Safe.bind (safe_onLeft (hl.hasNext hs.left) (fun _ _ => id) hs) fun more s hs => ?_
    obtain ⟨-, hs⟩ := hs
    split
    · refine Action.Safe.bind (safe_onRight (hr.rewind hs.right) (fun _ _ => id) hs) fun _ s hs => ?_
      refine Action.Safe.bind (safe_onLeft (hl.next hs.2.left) (fun _ _ => And.right) hs.2) fun row s hs => ?_
      exact Action.safe_pure ⟨Row.forall_mem_some hs.1.1, hs.2⟩
    · exact Action.safe_pure ⟨nofun, hs⟩

theorem safe_nextPair (hs : s.Keeps R S I J) :
    Action.Safe Ok P (nextPair left right) (nextPair chkLeft chkRight) s
      (fun pair? s => (∀ pair ∈ pair?, R pair.1 ∧ S pair.2) ∧ s.Keeps R S I J) (JoinState.Keeps R S I J) := by
  refine Action.Safe.bind Action.safe_state fun s' s'' hs' => ?_
  obtain ⟨rfl, rfl⟩ := hs'
  split
  · exact Action.safe_pure ⟨nofun, hs⟩
  · refine Action.Safe.bind (safe_takeLeft hl hs) fun row? s hs => ?_
    obtain ⟨hrow, hs⟩ := hs
    cases row? with
    | none => exact Action.safe_pure ⟨nofun, hs⟩
    | some row =>
      refine Action.Safe.bind (safe_advanceLeft hl hr (hrow row rfl) hs) fun l? s hs => ?_
      obtain ⟨hl?, hs⟩ := hs
      cases l? with
      | none => exact Action.safe_pure ⟨nofun, hs⟩
      | some l =>
        have hleft := hl? l rfl
        refine Action.Safe.bind (safe_onRight (hr.next hs.right) (fun _ _ => And.right) hs) fun r s hs => ?_
        have hright := hs.1.1
        refine Action.Safe.bind (Action.safe_update (Q := fun _ => JoinState.Keeps R S I J) ?_) fun _ s hs => ?_
        · exact ⟨Row.forall_mem_some hleft, hs.2.left, hs.2.right⟩
        · refine Action.safe_pure ⟨fun pair hpair => ?_, hs⟩
          obtain rfl := Option.mem_some_iff.mp hpair
          exact ⟨hleft, hright⟩

theorem Safe.join (fuel : Nat) (p : JoinPredicate) (hpair : ∀ l r, R l → S r → T (Row.append schema l r)) :
    (Source.join fuel p schema left right).Safe (Source.join fuel p schema chkLeft chkRight) P Ok T
      (JoinState.Keeps R S I J) := by
  refine ⟨hl.lenient, fun {s} hs => ?_, fun {s} hs => ?_, fun {s} hs => ?_, fun {s} hs => ?_⟩
  · refine Action.Safe.bind (safe_onLeft (hl.open hs.left) (fun _ _ => id) hs) fun _ s hs => ?_
    refine Action.Safe.bind (safe_onRight (hr.open hs.2.right) (fun _ _ => id) hs.2) fun _ s hs => ?_
    exact safe_startPairs hl hr hs.2
  · refine Action.Safe.bind (safe_onLeft (hl.rewind hs.left) (fun _ _ => id) hs) fun _ s hs => ?_
    refine Action.Safe.bind (safe_onRight (hr.rewind hs.2.right) (fun _ _ => id) hs.2) fun _ s hs => ?_
    exact safe_startPairs hl hr hs.2
  · obtain ⟨hleft, hclosedl⟩ := hl.close hs.left
    obtain ⟨hright, hclosedr⟩ := hr.close hs.right
    refine ⟨?_, nofun, hclosedl, hclosedr⟩
    show (⟨false, none, chkLeft.close s.left, chkRight.close s.right⟩ : JoinState β γ) = _
    rw [hleft, hright]
    rfl
  · show Action.Safe _ P (fetchPair p schema left right fuel) (fetchPair p schema chkLeft chkRight fuel) s _ _
    induction fuel generalizing s with
    | zero => exact Action.safe_throw (hl.lenient _ not_false) hs
    | succ fuel ih =>
      refine Action.Safe.bind (safe_nextPair hl hr hs) fun pair? s hs => ?_
      obtain ⟨hrows, hs⟩ := hs
      cases pair? with
      | none => exact Action.safe_pure ⟨nofun, hs⟩
      | some pair =>
        obtain ⟨hleft, hright⟩ := hrows pair rfl
        dsimp only
        split
        · exact Action.safe_pure ⟨Row.forall_mem_some (hpair _ _ hleft hright), hs⟩
        · exact ih hs

end Join

/-! ### Insertions and deletions -/

section Change

variable {child chk : Source β} {I : β → Prop} {s : ChangeState β} {kind : Mutation} {op : Row → DbM StorageError Unit}

/-- The child of a change is as it should be. -/
def ChildKeeps (R : Row → Prop) (I : β → Prop) (s : ChangeState β) : Prop :=
  s.child.Keeps R I

theorem safe_onChild {α : Type} {step chk : Step (Running β) α} {Q : α → Running β → Prop}
    (h : Action.Safe Ok P step chk s.child Q (Keeps R I)) :
    Action.Safe Ok P (onChild step) (onChild chk) s (fun x s => Q x s.child) (ChildKeeps R I) :=
  h.on (fun _ _ => id) fun _ => id

variable (h : child.Safe chk P Ok R I) (hcount : ∀ n row, countRow kind n = .ok row → S row)
  (hop : ∀ row, R row → ∀ db, P db →
    P ((op row).outcome db).2 ∧ ∀ e, ((op row).outcome db).1 = .error e → ∀ n, Ok (refusal kind n e).2)

include h hcount

theorem safe_countRow (hs : ChildKeeps R I s) (n : Nat) :
    Result Ok (fun row s => S row ∧ ChildKeeps R I s) (ChildKeeps R I) (countRow kind n) s := by
  cases hrow : countRow kind n with
  | ok row => exact ⟨hcount n row hrow, hs⟩
  | error e =>
    refine ⟨h.lenient e ?_, hs⟩
    rw [countRow] at hrow
    split at hrow
    · cases hrow
    · cases hrow
      exact not_false

include hop

theorem safe_changeRows (fuel : Nat) (hs : ChildKeeps R I s) :
    Action.Safe Ok P (changeRows kind op child fuel) (changeRows kind op chk fuel) s
      (fun row? s => (∀ row ∈ row?, S row) ∧ ChildKeeps R I s) (ChildKeeps R I) := by
  induction fuel generalizing s with
  | zero => exact Action.safe_throw (h.lenient _ not_false) hs
  | succ fuel ih =>
    refine Action.Safe.bind (safe_onChild (h.hasNext hs)) fun more s hs => ?_
    split
    · refine Action.Safe.bind (safe_onChild (h.next hs)) fun row s hs => ?_
      obtain ⟨hrow, hs⟩ := hs
      refine Action.Safe.bind Action.safe_state fun s' s'' hs' => ?_
      obtain ⟨rfl, rfl⟩ := hs'
      have hattempt : Action.Safe Ok P (Action.attempt (op row)) (Action.attempt (op row)) s''
          (fun r s => (∀ e, r = .error e → ∀ n, Ok (refusal kind n e).2) ∧ ChildKeeps R I s) (ChildKeeps R I) :=
        Action.safe_attempt fun db hdb => ⟨(hop row hrow db hdb).1, (hop row hrow db hdb).2, hs⟩
      refine Action.Safe.bind hattempt fun r s hr => ?_
      obtain ⟨hr, hs⟩ := hr
      cases r with
      | ok u => exact Action.Safe.bind (Action.safe_update (Q := fun _ => ChildKeeps R I) hs) fun _ s hs => ih hs
      | error cause =>
        refine Action.Safe.bind (Action.safe_update (Q := fun _ => ChildKeeps R I) hs) fun _ s hs => ?_
        exact Action.safe_throw (hr cause rfl _) hs
    · refine Action.Safe.bind (Action.safe_update (Q := fun _ => ChildKeeps R I) hs) fun _ s hs => ?_
      refine Action.Safe.bind Action.safe_state fun s' s'' hs' => ?_
      obtain ⟨rfl, rfl⟩ := hs'
      refine Action.Safe.bind (Action.safe_ofExcept (safe_countRow h hcount hs _)) fun row s hrow => ?_
      exact Action.safe_pure ⟨Row.forall_mem_some hrow.1, hrow.2⟩

/-- A change answers a count, and fails as its child does or as storage refuses a row of the child. -/
theorem Safe.change (fuel : Nat) :
    (Source.change fuel kind op child).Safe (Source.change fuel kind op chk) P Ok S (ChildKeeps R I) := by
  refine ⟨h.lenient, fun {s} hs => ?_, fun {s} hs => ?_, fun {s} hs => ?_, fun {s} hs => ?_⟩
  · exact Action.Safe.bind (safe_onChild (h.open hs)) fun _ s hs => Action.safe_update hs
  · exact Action.Safe.bind (safe_onChild (h.rewind hs)) fun _ s hs => Action.safe_update hs
  · obtain ⟨heq, hclosed⟩ := h.close hs
    refine ⟨?_, hclosed⟩
    show ({ s with child := chk.close s.child } : ChangeState β) = _
    rw [heq]
    rfl
  · refine Action.Safe.bind Action.safe_state fun s' s'' hs' => ?_
    obtain ⟨rfl, rfl⟩ := hs'
    split
    · exact Action.safe_pure ⟨nofun, hs⟩
    · exact safe_changeRows h hcount hop fuel hs

end Change

end Source

/-! ### Aggregates -/

/-- All groups have keys with `K`. -/
def Groups.Keyed (K : Option Field → Prop) (groups : Groups) : Prop :=
  ∀ key stat, groups.get? key = some stat → K key

namespace Groups

variable {K : Option Field → Prop} {groups : Groups}

theorem Keyed.insert (h : groups.Keyed K) {key : Option Field} (hkey : K key) (stat : Stat) :
    Keyed K (Assoc.insert groups key stat) := by
  intro key' stat' hget
  rw [Assoc.get?_insert] at hget
  split at hget
  · next heq =>
    rw [← heq]
    exact hkey
  · exact h key' stat' hget

/-- A snapshot has the keys of the groups, or none for want of groups. -/
theorem Keyed.snapshot (h : groups.Keyed K) {grouped : Bool} (hnone : grouped = false → K none) :
    ∀ entry ∈ Source.snapshot grouped groups, K entry.1 := by
  intro entry hentry
  rw [Source.snapshot] at hentry
  split at hentry
  · have hmem : entry.1 ∈ groups.keys := List.mem_map_of_mem (List.mem_filter.mp hentry).1
    obtain ⟨stat, hget⟩ := (Assoc.mem_keys_iff groups entry.1).mp hmem
    exact h _ _ hget
  · next hgrouped =>
    rw [List.mem_singleton.mp hentry]
    exact hnone (Bool.not_eq_true _ ▸ hgrouped)

end Groups

/-- The keys of the groups that are left have `K`, and the child is as it should be. -/
structure AggregateState.Keeps (K : Option Field → Prop) (R : Row → Prop) (I : β → Prop) (s : AggregateState β) :
    Prop where
  results : ∀ pending ∈ s.results, ∀ entry ∈ pending, K entry.1
  child : s.child.Keeps R I

namespace Source

section Results

variable {K : Option Field → Prop} {op : AggregateOp}
  (hresult : ∀ key value, K key → S ⟨schema, key.toList ++ [.int value], none⟩)

include hresult

/-- A group is handed out under its key and its value. -/
theorem safe_fetchGroup (hlenient : ∀ e, ¬ e.OfSchema → Ok e) {pending : PendingGroups}
    (hpending : ∀ entry ∈ pending, K entry.1) :
    Action.Safe Ok P (fetchGroup op schema) (fetchGroup op schema) pending
      (fun row? pending => (∀ row ∈ row?, S row) ∧ ∀ entry ∈ pending, K entry.1)
      fun pending => ∀ entry ∈ pending, K entry.1 := by
  refine Action.Safe.bind Action.safe_state fun s s' hs => ?_
  obtain ⟨rfl, rfl⟩ := hs
  split
  · exact Action.safe_pure ⟨nofun, hpending⟩
  · next key stat rest =>
    obtain ⟨hkey, hrest⟩ := List.forall_mem_cons.mp hpending
    refine Action.Safe.bind (Action.safe_update (Q := fun _ s => ∀ entry ∈ s, K entry.1) hrest) fun _ s hs => ?_
    refine Action.Safe.bind (Q := fun _ s => ∀ entry ∈ s, K entry.1) (Action.safe_ofExcept ?_) fun value s hs => ?_
    · cases stat.emit op with
      | ok value => exact hs
      | error e => exact ⟨hlenient _ not_false, hs⟩
    · exact Action.safe_pure ⟨Row.forall_mem_some (hresult key value hkey), hs⟩

/-- The results of a shared aggregate. -/
theorem safe_groups (hlenient : ∀ e, ¬ e.OfSchema → Ok e) {number : Nat} {grouped : Bool}
    (hgroups : ∀ db, P db → ∀ entry ∈ snapshot grouped ((db.running.get? number).getD {}), K entry.1) :
    (groups number grouped op schema).Safe (groups number grouped op schema) P Ok S
      fun pending => ∀ entry ∈ pending, K entry.1 := by
  have hread : ∀ b, Action.Safe Ok P (groups number grouped op schema).openBody
      (groups number grouped op schema).openBody b (fun _ pending => ∀ entry ∈ pending, K entry.1)
      fun pending => ∀ entry ∈ pending, K entry.1 := fun b => by
    refine Action.Safe.bind Action.safe_database fun db s hs => ?_
    exact Action.safe_update (hgroups db hs.1)
  exact ⟨hlenient, fun _ => hread _, fun _ => hread _, fun _ => ⟨rfl, nofun⟩,
    fun hb => safe_fetchGroup hresult hlenient hb⟩

end Results

section Aggregate

variable {child chk : Source β} {I : β → Prop} {spec : AggregateSpec} {K : Option Field → Prop}
  (h : child.Safe chk P Ok R I)
  (habsorb : ∀ groups row, Groups.Keyed K groups → R row →
    match spec.absorb groups row with
    | .ok groups => Groups.Keyed K groups
    | .error e => Ok e)
  (hnone : spec.group.isSome = false → K none)

include h habsorb

/-- The groups of all rows of the child, if none of them is rejected. -/
theorem safe_absorbAll (fuel : Nat) {groups : Groups} (hgroups : groups.Keyed K) {r : Running β} (hr : r.Keeps R I) :
    Action.Safe Ok P (absorbAll spec child groups fuel) (absorbAll spec chk groups fuel) r
      (fun groups r => Groups.Keyed K groups ∧ r.Keeps R I) (Keeps R I) := by
  induction fuel generalizing groups r with
  | zero => exact Action.safe_throw (h.lenient _ not_false) hr
  | succ fuel ih =>
    refine h.take hr (fun _ => id) (fun row r' hrow hr' => ?_) fun r' hr' => Action.safe_pure ⟨hgroups, hr'⟩
    have habsorbed := habsorb groups row hgroups hrow
    refine Action.Safe.bind (Q := fun groups r => Groups.Keyed K groups ∧ r.Keeps R I) (Action.safe_ofExcept ?_)
      fun groups r hs => ih hs.1 hs.2
    cases hout : spec.absorb groups row with
    | ok groups =>
      rw [hout] at habsorbed
      exact ⟨habsorbed, hr'⟩
    | error e =>
      rw [hout] at habsorbed
      exact ⟨habsorbed, hr'⟩

include hnone

theorem safe_startAggregate (fuel : Nat) {reset reset' : Step (Running β) Unit} {s : AggregateState β}
    (hreset : Action.Safe Ok P reset reset' s.child (fun _ => Keeps R I) (Keeps R I)) (hs : s.Keeps K R I) :
    Action.Safe Ok P (startAggregate fuel spec child reset) (startAggregate fuel spec chk reset') s
      (fun _ => AggregateState.Keeps K R I) (AggregateState.Keeps K R I) := by
  refine Action.Safe.bind (Q := fun _ => AggregateState.Keeps K R I)
    (hreset.on (fun _ _ hr => ⟨hs.results, hr⟩) fun _ hr => ⟨hs.results, hr⟩) fun _ s hs => ?_
  have hempty : Groups.Keyed K {} := nofun
  refine Action.Safe.bind (Q := fun groups s => Groups.Keyed K groups ∧ AggregateState.Keeps K R I s)
    ((safe_absorbAll h habsorb fuel hempty hs.child).on (fun _ _ hr => ⟨hr.1, hs.results, hr.2⟩)
      fun _ hr => ⟨hs.results, hr⟩) fun groups s hs => ?_
  refine Action.safe_update ⟨fun pending hpending => ?_, hs.2.child⟩
  obtain rfl := Option.mem_some_iff.mp hpending
  exact hs.1.snapshot hnone

/-- The results of an aggregate over a child. -/
theorem Safe.aggregate (fuel : Nat)
    (hresult : ∀ key value, K key → S ⟨schema, key.toList ++ [.int value], none⟩) :
    (Source.aggregate fuel spec schema child).Safe (Source.aggregate fuel spec schema chk) P Ok S
      (AggregateState.Keeps K R I) := by
  refine ⟨h.lenient, fun {s} hs => ?_, fun {s} hs => ?_, fun {s} hs => ?_, fun {s} hs => ?_⟩
  · exact safe_startAggregate h habsorb hnone fuel (h.open hs.child) hs
  · exact safe_startAggregate h habsorb hnone fuel (h.rewind hs.child) hs
  · obtain ⟨heq, hclosed⟩ := h.close hs.child
    refine ⟨?_, nofun, hclosed⟩
    show (⟨none, chk.close s.child⟩ : AggregateState β) = _
    rw [heq]
    rfl
  · refine Action.Safe.bind Action.safe_state fun s' s'' hs' => ?_
    obtain ⟨rfl, rfl⟩ := hs'
    split
    · exact Action.safe_throw (h.lenient _ not_false) hs
    · next pending hpending =>
      refine (safe_fetchGroup hresult h.lenient (hs.results pending hpending)).on (fun row? rest hrest => ?_)
        fun rest hrest => ?_
      · refine ⟨hrest.1, fun pending hp => ?_, hs.child⟩
        obtain rfl := Option.mem_some_iff.mp hp
        exact hrest.2
      · refine ⟨fun pending hp => ?_, hs.child⟩
        obtain rfl := Option.mem_some_iff.mp hp
        exact hrest

end Aggregate

end Source

/-! ### Trees -/

/-- What should be true of the rows of plans, of the rows in files, and of the keys of groups. -/
structure Shape where
  row : Plan → Row → Prop
  stored : HeapFile → Row → Prop
  key : AggregateSpec → Option Field → Prop

namespace Plan

/-- What the operators of a plan keep, from pending rows to the keys of groups, has the right shape. -/
def Holds (shape : Shape) : (p : Plan) → p.Body → Prop
  | scan _ file _ => Source.Loaded (shape.stored file)
  | values schema rows => fun (rest : List Row) => ∀ row ∈ rest, shape.row (.values schema rows) row
  | filter _ child => Keeps (shape.row child) (child.Holds shape)
  | project _ _ child => Keeps (shape.row child) (child.Holds shape)
  | join _ _ left right => JoinState.Keeps (shape.row left) (shape.row right) (left.Holds shape) (right.Holds shape)
  | insert _ _ _ child => Source.ChildKeeps (shape.row child) (child.Holds shape)
  | delete _ child => Source.ChildKeeps (shape.row child) (child.Holds shape)
  | aggregate spec _ child => AggregateState.Keeps (shape.key spec) (shape.row child) (child.Holds shape)
  | groups _ spec => fun (pending : PendingGroups) => ∀ entry ∈ pending, shape.key spec entry.1

/-- The same plan, where every projection looks whether a row has the listed fields. -/
def checkedSource (fuel : Nat) : (p : Plan) → Source p.Body
  | scan _ file schema => Source.scan fuel file schema
  | values _ rows => Source.values rows
  | filter predicate child => (child.checkedSource fuel).filter fuel predicate
  | project fields schema child => (child.checkedSource fuel).projectChecked fields schema
  | join predicate schema left right =>
    Source.join fuel predicate schema (left.checkedSource fuel) (right.checkedSource fuel)
  | insert txn table schema child => (child.checkedSource fuel).insert fuel txn table schema
  | delete txn child => (child.checkedSource fuel).delete fuel txn
  | aggregate spec schema child => (child.checkedSource fuel).aggregate fuel spec schema
  | groups number spec => Source.groups number spec.group.isSome spec.op spec.resultSchema

end Plan

/-- The aggregated column has the type that is aggregated, and so has the column of the groups. -/
structure AggregateSpec.Fits (spec : AggregateSpec) (schema : Schema) : Prop where
  field : schema.types[spec.field]? = some spec.input
  group : ∀ g ∈ spec.group, schema.types[g.1]? = some g.2

/-- The plan fits together: a scan has the types of a registered table, and the columns of every other operator are those
that come from its children.  Of fixed rows and of shared aggregates it is told what `Leaf` tells. -/
def Plan.Fitting (c : Catalog) (Leaf : Plan → Prop) : Plan → Prop
  | .scan _ file schema => c.file file.id = .ok file ∧ schema.types = file.schema.types
  | .values schema rows => Leaf (.values schema rows)
  | .filter _ child => child.Fitting c Leaf
  | .project fields schema child =>
    fields.map (child.schema.types[·]?) = schema.types.map some ∧ child.Fitting c Leaf
  | .join _ schema left right =>
    schema.types = left.schema.types ++ right.schema.types ∧ left.Fitting c Leaf ∧ right.Fitting c Leaf
  | .insert _ table schema child =>
    (∃ f, c.file table = .ok f ∧ f.schema = schema) ∧ child.schema.types = schema.types ∧ child.Fitting c Leaf
  | .delete _ child => child.Fitting c Leaf
  | .aggregate spec schema child =>
    spec.Fits child.schema ∧ schema.types = spec.resultSchema.types ∧ child.Fitting c Leaf
  | .groups number spec => Leaf (.groups number spec)

end RelStore
