/-
Trees of operators that are open.

Opening an operator opens the operators below it, and no later call closes one of these.

* `Action.Keeps` — a step keeps something true of the state, whether it answers or fails;
* `Plan.Streams`, `Plan.Live`, `Plan.Faults` — trees of scans, fixed rows, filters, projections and joins, when they are
  open below the outermost operator, and which errors they have then (`StorageError.OfReading`);
* `Source.Lives` — opening makes a source live, and it stays so;
* `Source.Lives.filter`, `Source.Lives.project`, `Source.Lives.join` — so does an operator over such sources;
* `Plan.Streams.lives` — so does every tree;
* `Source.Lives.open`, `Source.Lives.hasNext`, `Source.Lives.next`, `Source.Lives.rewind` — and the protocol around it.

Design notes.  A step keeps what it should whatever its parts answer, so `Keeps` has no word about answers, and goes
through a `do` block line by line.  Only an operator that asks its child before it takes a row is told of answers
(`Source.Lives.take`): it is never refused the row.
-/
import RelStore.Proofs.Store.Errors
import RelStore.Proofs.Query.Retrying
import RelStore.Proofs.Query.LiveCursor

namespace RelStore

open RelStore.Action (Gives)
open Running (IsShut IsLive Opens)
open Database (Shared)

variable {n fuel : Nat} {c : Catalog} {s : Store} {held : List Handle} {f : HeapFile} {schema : Schema}
  {db db' : Database} {P : Database → Prop}

namespace Action

variable {σ τ α β : Type} {a : Step σ α} {g : α → Step σ β} {t : σ} {x : α} {e : ExecError} {Ok Mid : α → σ → Prop}
  {Err : ExecError → σ → Prop} {Live : σ → Prop} {Part : τ → Prop} {Fault Fault' : ExecError → Prop}

/-- Whatever the step answers, and if it fails, `Live` is kept.  It fails as `Fault` tells. -/
def Keeps (P : Database → Prop) (Live : σ → Prop) (Fault : ExecError → Prop) (a : Step σ α) : Prop :=
  ∀ t, Live t → Meets P a t (fun _ => Live) fun e t' => Fault e ∧ Live t'

theorem Keeps.mono (h : Keeps P Live Fault a) (hfault : ∀ e, Fault e → Fault' e) : Keeps P Live Fault' a :=
  fun t ht => (h t ht).mono_error fun e _ he => ⟨hfault e he.1, he.2⟩

theorem Keeps.bind (ha : Keeps P Live Fault a) (hg : ∀ x, Keeps P Live Fault (g x)) : Keeps P Live Fault (a >>= g) :=
  fun t ht => (ha t ht).bind fun x t' ht' => hg x t' ht'

theorem keeps_pure (x : α) : Keeps P Live Fault (pure x : Step σ α) :=
  fun _ ht => meets_pure ht

theorem keeps_state : Keeps P Live Fault (state : Step σ σ) :=
  fun _ ht => meets_state.mono (fun _ _ h => h.2 ▸ ht) fun _ _ h => h

theorem keeps_update {change : σ → σ} (h : ∀ t, Live t → Live (change t)) :
    Keeps P Live Fault (update change : Step σ Unit) :=
  fun t ht => meets_update (h t ht)

theorem keeps_throw (h : Fault e) : Keeps P Live Fault (throw e : Step σ α) :=
  fun _ ht => meets_throw ⟨h, ht⟩

theorem Keeps.on {part : σ → τ} {put : σ → τ → σ} {a : Step τ α} (ha : Keeps P Part Fault a)
    (hpart : ∀ t, Live t → Part (part t)) (hput : ∀ t u, Live t → Part u → Live (put t u)) :
    Keeps P Live Fault (on part put a) :=
  fun t ht => (ha _ (hpart t ht)).on (fun _ u hu => hput t u ht hu) fun _ u he => ⟨he.1, hput t u ht he.2⟩

end Action

open RelStore.Action (Meets Keeps)

/-- The error of someone who reads pages: one of them is not to be had, or the fuel of a loop is spent. -/
def StorageError.OfReading (e : StorageError) : Prop :=
  e.OfLoading ∨ e = .outOfFuel

/-! ### The protocol -/

namespace Source

variable {β γ : Type} {src : Source β} {Shut Live : β → Prop} {Fault Fault' : ExecError → Prop} {r : Running β} {x : Row}

/-- Opening makes a source live, or leaves it so that it can be opened.  A live source stays live until it is closed, and
fails as `Fault` tells. -/
structure Lives (src : Source β) (P : Database → Prop) (Shut Live : β → Prop) (Fault : ExecError → Prop) : Prop where
  start : ∀ {b}, Shut b → Meets P src.openBody b (fun _ => Live) fun _ => Shut
  again : Keeps P Live Fault src.rewindBody
  fetch : Keeps P Live Fault src.fetch
  shut : ∀ {b}, Shut b ∨ Live b → Shut (src.closeBody b)

namespace Lives

variable (h : src.Lives P Shut Live Fault)

include h

theorem close (hr : Opens Shut Live r) : IsShut Shut (src.close r) :=
  ⟨rfl, h.shut (hr.imp (·.2) (·.2))⟩

/-- An operator that could not be opened is closed. -/
theorem «open» (hr : Opens Shut Live r) : Meets P src.open r (fun _ => IsLive Live) fun _ => IsShut Shut := by
  -- an open operator is closed first
  have hclosed : IsShut Shut (if r.opened = true then src.close r else r) := by
    rcases hr with hshut | hlive
    · rw [hshut.1]
      exact hshut
    · rw [hlive.1]
      exact h.close (.inr hlive)
  exact Source.meets_open ((h.start hclosed.2).mono (fun _ _ hb => ⟨rfl, hb⟩) fun _ _ hb => ⟨hclosed.1, hb⟩)

/-- An operator that says that there is a row has fetched it. -/
theorem hasNext (hr : IsLive Live r) :
    Meets P src.hasNext r (fun more r' => IsLive Live r' ∧ (more = true → r'.ahead ≠ none))
      fun e r' => Fault e ∧ IsLive Live r' := by
  refine meets_hasNext hr.1 (fun x hahead => ⟨hr, fun _ => by rw [hahead]; exact Option.some_ne_none x⟩) fun _ => ?_
  refine (h.fetch r.body hr.2).mono ?_ fun _ _ he => ⟨he.1, rfl, he.2⟩
  exact fun row b hb => ⟨⟨rfl, hb⟩, Option.isSome_iff_ne_none.mp⟩

theorem keeps_hasNext : Keeps P (IsLive Live) Fault src.hasNext :=
  fun _ hr => (h.hasNext hr).mono (fun _ _ h => h.1) fun _ _ h => h

theorem next : Keeps P (IsLive Live) (fun e => Fault e ∨ e = .noMoreRows) src.next := by
  intro r hr
  refine meets_next ((h.keeps_hasNext r hr).mono_error fun _ _ he => ⟨.inl he.1, he.2⟩) ?_ ?_
  · exact fun _ _ hr' _ => hr'
  · exact fun _ _ hr' _ => ⟨.inr rfl, hr'⟩

theorem rewind : Keeps P (IsLive Live) Fault src.rewind := by
  intro r hr
  refine meets_rewind hr.1 ((h.again r.body hr.2).mono ?_ ?_)
  · exact fun _ _ hb => ⟨hr.1, hb⟩
  · exact fun _ _ he => ⟨he.1, hr.1, he.2⟩

/-- An operator that asks for a row before it takes it is not refused the row. -/
theorem take {α : Type} {k : Row → Step (Running β) α} {g : Step (Running β) α}
    (hk : ∀ x, Keeps P (IsLive Live) Fault (k x)) (hg : Keeps P (IsLive Live) Fault g) :
    Keeps P (IsLive Live) Fault (do if ← src.hasNext then let row ← src.next; k row else g) := by
  intro r hr
  refine (h.hasNext hr).bind fun more r' hr' => ?_
  cases more with
  | false => exact hg r' hr'.1
  | true =>
    obtain ⟨x, hahead⟩ := Option.ne_none_iff_exists'.mp (hr'.2 rfl)
    refine (meets_next_of_ahead hr'.1.1 hahead).bind ?_
    rintro _ _ ⟨rfl, rfl⟩
    exact hk _ _ hr'.1

theorem mono (hfault : ∀ e, Fault e → Fault' e) : src.Lives P Shut Live Fault' :=
  ⟨h.start, h.again.mono hfault, h.fetch.mono hfault, h.shut⟩

/-! ### Filters and projections -/

theorem fetchAccepted (hstorage : ∀ cause, cause.OfReading → Fault (.storage cause)) (q : Predicate) :
    Keeps P (IsLive Live) Fault (Source.fetchAccepted q src fuel) := by
  induction fuel with
  | zero => exact Action.keeps_throw (hstorage _ (.inr rfl))
  | succ fuel ih =>
    refine h.take (fun x => ?_) (Action.keeps_pure _)
    by_cases hx : q.accepts x = true
    · simp only [if_pos hx]
      exact Action.keeps_pure _
    · simp only [if_neg hx]
      exact ih

/-- A child that could not be opened can be asked again. -/
theorem reopen (hr : Opens Shut Live r) : Meets P src.open r (fun _ => IsLive Live) fun _ => Opens Shut Live :=
  (h.open hr).mono_error fun _ _ hr' => .inl hr'

theorem reclose (hr : Opens Shut Live r ∨ IsLive Live r) : Opens Shut Live (src.close r) :=
  .inl (h.close (hr.elim id .inr))

theorem filter (hstorage : ∀ cause, cause.OfReading → Fault (.storage cause)) (q : Predicate) :
    (src.filter fuel q).Lives P (Opens Shut Live) (IsLive Live) Fault :=
  ⟨h.reopen, h.rewind, h.fetchAccepted hstorage q, h.reclose⟩

theorem project (fields : List Nat) (schema : Schema) :
    (src.project fields schema).Lives P (Opens Shut Live) (IsLive Live) Fault :=
  ⟨h.reopen, h.rewind, h.take (fun _ => Action.keeps_pure _) (Action.keeps_pure _), h.reclose⟩

end Lives

/-! ### Joins -/

section Join

variable {left : Source β} {right : Source γ} {SL LL : β → Prop} {SR LR : γ → Prop}

theorem keeps_onLeft {α : Type} {a : Step (Running β) α} (ha : Keeps P (IsLive LL) Fault a) :
    Keeps P (BothLive LL LR) Fault (onLeft a : Step (JoinState β γ) α) :=
  ha.on (fun _ hs => hs.1) fun _ _ hs hl => ⟨hl, hs.2⟩

theorem keeps_onRight {α : Type} {a : Step (Running γ) α} (ha : Keeps P (IsLive LR) Fault a) :
    Keeps P (BothLive LL LR) Fault (onRight a : Step (JoinState β γ) α) :=
  ha.on (fun _ hs => hs.2) fun _ _ hs hr => ⟨hs.1, hr⟩

variable (hl : left.Lives P SL LL Fault) (hr : right.Lives P SR LR Fault)

include hl hr

theorem keeps_startPairs : Keeps P (BothLive LL LR) Fault (startPairs left right) := by
  refine Keeps.bind (Action.keeps_update fun _ hs => hs) fun _ => ?_
  refine (keeps_onLeft hl.keeps_hasNext).bind fun more => ?_
  cases more with
  | false =>
    show Keeps P (BothLive LL LR) Fault (Action.update fun s => { s with childEmpty := true })
    exact Action.keeps_update fun _ hs => hs
  | true => exact (keeps_onRight hr.keeps_hasNext).bind fun _ => Action.keeps_update fun _ hs => hs

variable (hmore : Fault .noMoreRows)

include hmore

omit hr in
theorem keeps_takeLeft : Keeps P (BothLive LL LR) Fault (takeLeft left) := by
  refine Action.keeps_state.bind fun s => ?_
  cases s.held with
  | some row =>
    have hdrop : Keeps P (BothLive LL LR) Fault (Action.update fun s : JoinState β γ => { s with held := none }) :=
      Action.keeps_update fun _ hs => hs
    exact hdrop.bind fun _ => Action.keeps_pure _
  | none =>
    refine (keeps_onLeft hl.keeps_hasNext).bind fun more => ?_
    cases more with
    | false => exact Action.keeps_pure _
    | true =>
      have hnext : Keeps P (IsLive LL) Fault left.next := hl.next.mono fun e he => he.elim id (· ▸ hmore)
      exact (keeps_onLeft hnext).bind fun _ => Action.keeps_pure _

theorem keeps_advanceLeft (row : Row) : Keeps P (BothLive LL LR) Fault (advanceLeft left right row) := by
  refine (keeps_onRight hr.keeps_hasNext).bind fun more => ?_
  cases more with
  | true => exact Action.keeps_pure _
  | false =>
    refine (keeps_onLeft hl.keeps_hasNext).bind fun more => ?_
    cases more with
    | false => exact Action.keeps_pure _
    | true =>
      have hnext : Keeps P (IsLive LL) Fault left.next := hl.next.mono fun e he => he.elim id (· ▸ hmore)
      refine (keeps_onRight hr.rewind).bind fun _ => ?_
      exact (keeps_onLeft hnext).bind fun _ => Action.keeps_pure _

theorem keeps_nextPair : Keeps P (BothLive LL LR) Fault (nextPair left right) := by
  refine Action.keeps_state.bind fun s => ?_
  cases s.childEmpty with
  | true => exact Action.keeps_pure _
  | false =>
    refine (keeps_takeLeft hl hmore).bind fun row => ?_
    cases row with
    | none => exact Action.keeps_pure _
    | some row =>
      refine (keeps_advanceLeft hl hr hmore row).bind fun row => ?_
      cases row with
      | none => exact Action.keeps_pure _
      | some row =>
        have hnext : Keeps P (IsLive LR) Fault right.next := hr.next.mono fun e he => he.elim id (· ▸ hmore)
        have hkeep : Keeps P (BothLive LL LR) Fault
            (Action.update fun s : JoinState β γ => { s with held := some row }) :=
          Action.keeps_update fun _ hs => hs
        exact (keeps_onRight hnext).bind fun _ => hkeep.bind fun _ => Action.keeps_pure _

theorem keeps_fetchPair (hstorage : ∀ cause, cause.OfReading → Fault (.storage cause)) (q : JoinPredicate)
    (schema : Schema) : Keeps P (BothLive LL LR) Fault (fetchPair q schema left right fuel) := by
  induction fuel with
  | zero => exact Action.keeps_throw (hstorage _ (.inr rfl))
  | succ fuel ih =>
    refine (keeps_nextPair hl hr hmore).bind fun pair => ?_
    rcases pair with _ | ⟨l, r⟩
    · exact Action.keeps_pure _
    · by_cases hc : q.accepts l r = true
      · simp only [if_pos hc]
        exact Action.keeps_pure _
      · simp only [if_neg hc]
        exact ih

/-- A join may be refused a row that it relies on. -/
theorem Lives.join (hstorage : ∀ cause, cause.OfReading → Fault (.storage cause)) (q : JoinPredicate) (schema : Schema) :
    (Source.join fuel q schema left right).Lives P (BothOpen SL LL SR LR) (BothLive LL LR) Fault := by
  refine ⟨fun {s} hs => ?_, ?_, keeps_fetchPair hl hr hmore hstorage q schema, fun hs => ?_⟩
  · have hopenLeft : Meets P (onLeft left.open) s (fun _ s => IsLive LL s.left ∧ Opens SR LR s.right)
        fun _ => BothOpen SL LL SR LR :=
      (hl.reopen hs.1).on (fun _ _ h => ⟨h, hs.2⟩) fun _ _ h => ⟨h, hs.2⟩
    refine hopenLeft.bind fun _ s₁ hs₁ => ?_
    have hopenRight : Meets P (onRight right.open) s₁ (fun _ => BothLive LL LR) fun _ => BothOpen SL LL SR LR :=
      (hr.reopen hs₁.2).on (fun _ _ h => ⟨hs₁.1, h⟩) fun _ _ h => ⟨.inr hs₁.1, h⟩
    refine hopenRight.bind fun _ s₂ hs₂ => ?_
    exact (keeps_startPairs hl hr s₂ hs₂).mono_error fun _ _ h => ⟨.inr h.2.1, .inr h.2.2⟩
  · refine (keeps_onLeft hl.rewind).bind fun _ => ?_
    exact (keeps_onRight hr.rewind).bind fun _ => keeps_startPairs hl hr
  · exact ⟨hl.reclose (hs.imp (·.1) (·.1)), hr.reclose (hs.imp (·.2) (·.2))⟩

end Join

/-! ### Leaves -/

theorem lives_values (rows : List Row) : (values rows).Lives P (fun _ => True) (fun _ => True) Fault := by
  have hstart : Keeps P (fun _ => True) Fault (Action.update fun _ : List Row => rows) :=
    Action.keeps_update fun _ h => h
  refine ⟨fun hb => (hstart _ hb).mono_error fun _ _ _ => trivial, hstart, ?_, fun _ => trivial⟩
  refine Action.keeps_state.bind fun rest => ?_
  cases rest with
  | nil => exact Action.keeps_pure _
  | cons row rest =>
    have hdrop : Keeps P (fun _ => True) Fault (Action.update fun _ : List Row => rest) :=
      Action.keeps_update fun _ h => h
    exact hdrop.bind fun _ => Action.keeps_pure _

end Source

namespace Database.Shared

theorem length_eq (h : Shared n c s held db) (id : TableId) : (db.store id).length = (s id).length :=
  (h.store id).1

theorem pageCount_eq_length (h : Shared n c s held db) (hf : c.file f.id = .ok f) :
    f.pageCount db.disk = (s f.id).length := by
  rw [← length_store (h.registered hf), h.length_eq]

/-- Whether or not a page is refused, nothing is done to the contents. -/
theorem exists_getPage (h : Shared n c s held db) (page : PageId) :
    ∃ r db', (Database.getPage page).outcome db = (r, db') ∧ Shared n c s held db' := by
  have hsound : db.Sound := h.pool.sound
  obtain ⟨r, db', hget, hsound', hkeeps, hcuts, -⟩ := hsound.getPage page
  have hspares := spares_getPage hsound.coherent page
  rw [hget] at hspares
  exact ⟨r, db', hget, ⟨h.pool.tended.of_spares hspares, hsound', hkeeps.catalog.trans h.pool.catalog⟩,
    h.store.trans (hcuts.store hsound.proper)⟩

end Database.Shared

namespace HeapCursor

/-- An open cursor over a table that has pages. -/
def Live (s : Store) (f : HeapFile) (b : HeapCursor) : Prop :=
  b.opened = true ∧ s f.id ≠ []

variable {b : HeapCursor} {Fault : ExecError → Prop} (hstorage : ∀ cause, cause.OfReading → Fault (.storage cause))

include hstorage

/-- Whatever page is loaded, the cursor stays open. -/
theorem keeps_search (hf : c.file f.id = .ok f) (hb : Live s f b) :
    Meets (Shared n c s held) ((search f fuel).wrapError .storage) b
      (fun more b' => Live s f b' ∧ fuel ≠ 0
        ∧ if more then b'.pending ≠ [] else b'.pending = [] ∧ (s f.id).length ≤ b'.nextPage)
      fun e b' => Fault e ∧ Live s f b' := by
  refine meets_search (fun db hdb => hdb.pageCount_eq_length hf) ?_ ?_ hb
  · intro b db hb hdb _ _
    obtain ⟨r, db', hget, hdb'⟩ := hdb.exists_getPage ⟨f.id, b.nextPage⟩
    refine ⟨r, db', hget, hdb', fun _ _ => hb, ?_⟩
    rintro e rfl
    exact ⟨hstorage e (.inl (Database.raises_loading ⟨f.id, b.nextPage⟩ db e (by rw [hget]))), hb⟩
  · exact fun _ b' hb' => ⟨hstorage _ (.inr rfl), hb'⟩

omit hstorage in
/-- A cursor that is closed is opened if there are pages. -/
theorem meets_start (hf : c.file f.id = .ok f) (hb : b.opened = false) :
    Meets (Shared n c s held) ((start f).wrapError .storage) b
      (fun _ b' => b' = { b with opened := true } ∧ s f.id ≠ [])
      (fun e b' => (∃ cause, e = .storage cause) ∧ b' = b ∧ s f.id = []) := by
  intro db hdb
  rw [Action.outcome_wrapError, outcome_start hb, hdb.pageCount_eq_length hf]
  by_cases hpages : s f.id = []
  · rw [if_pos (List.length_eq_zero_iff.mpr hpages)]
    exact ⟨_, _, _, rfl, hdb, ⟨_, rfl⟩, rfl, hpages⟩
  · rw [if_neg fun h => hpages (List.length_eq_zero_iff.mp h)]
    exact ⟨_, _, _, rfl, hdb, rfl, hpages⟩

end HeapCursor

namespace Source

/-- A scan that is open stays so, for its table does not lose its pages. -/
theorem lives_scan {Fault : ExecError → Prop} (hf : c.file f.id = .ok f)
    (hstorage : ∀ cause, cause.OfReading → Fault (.storage cause)) :
    (scan fuel f schema).Lives (Shared n c s held) (fun b => b.opened = false) (HeapCursor.Live s f) Fault := by
  refine ⟨fun hb => ?_, fun b hb => ?_, ?_, fun _ => rfl⟩
  · refine (HeapCursor.meets_start hf hb).mono ?_ ?_
    · rintro _ _ ⟨rfl, hpages⟩
      exact ⟨rfl, hpages⟩
    · rintro _ _ ⟨-, rfl, -⟩
      exact hb
  · intro db hdb
    have hstart : Meets (Shared n c s held) ((HeapCursor.start f).wrapError ExecError.storage) HeapCursor.closed
        (fun _ => HeapCursor.Live s f) fun e b' => Fault e ∧ HeapCursor.Live s f b' := by
      refine (HeapCursor.meets_start hf rfl).mono ?_ ?_
      · rintro _ _ ⟨rfl, hpages⟩
        exact ⟨rfl, hpages⟩
      · rintro _ _ ⟨-, -, hpages⟩
        exact absurd hpages hb.2
    show ∃ r t' db', ((HeapCursor.rewind f).wrapError ExecError.storage).outcome (b, db) = _ ∧ _
    rw [Action.outcome_wrapError, HeapCursor.outcome_rewind hb.1, ← Action.outcome_wrapError]
    exact hstart db hdb
  · intro b hb
    refine HeapCursor.meets_take hb.1 (HeapCursor.keeps_search hstorage hf hb) (fun _ hb' => hb'.1) ?_ ?_
    · exact fun _ _ b' hb' _ => Action.meets_pure hb'
    · exact fun b' hb' _ => Action.meets_pure hb'

end Source

/-! ### Trees -/

namespace Plan

variable {p : Plan}

/-- Scans of registered tables, fixed rows, filters, projections and joins. -/
def Streams (c : Catalog) : Plan → Prop
  | scan _ f _ => c.file f.id = .ok f
  | values .. => True
  | filter _ child | project _ _ child => child.Streams c
  | join _ _ left right => left.Streams c ∧ right.Streams c
  | insert .. | delete .. | aggregate .. | groups .. => False

/-- Whether there is a join among the operators. -/
def Joins : Plan → Prop
  | filter _ child | project _ _ child => child.Joins
  | join .. => True
  | _ => False

/-- The errors of an open tree: those of someone who reads pages, and with a join also the lack of a row. -/
def Faults (p : Plan) : ExecError → Prop
  | .storage cause => cause.OfReading
  | .noMoreRows => p.Joins
  | _ => False

/-- The operators below the outermost one are open, and tables are scanned that have pages. -/
def Live (s : Store) : (p : Plan) → p.Body → Prop
  | scan _ f _, b => HeapCursor.Live s f b
  | filter _ child, r => IsLive (child.Live s) r
  | project _ _ child, r => IsLive (child.Live s) r
  | join _ _ left right, j => Source.BothLive (left.Live s) (right.Live s) j
  | _, _ => True

/-- The operators below the outermost one are closed, or open all the way down. -/
def Shut (s : Store) : (p : Plan) → p.Body → Prop
  | scan .., b => HeapCursor.opened b = false
  | filter _ child, r => Opens (child.Shut s) (child.Live s) r
  | project _ _ child, r => Opens (child.Shut s) (child.Live s) r
  | join _ _ left right, j => Source.BothOpen (left.Shut s) (left.Live s) (right.Shut s) (right.Live s) j
  | _, _ => True

/-- Opening a tree opens all of its operators, and no call but closing closes one of them. -/
theorem Streams.lives (hp : p.Streams c) (fuel : Nat) :
    (p.source fuel).Lives (Shared n c s held) (p.Shut s) (p.Live s) p.Faults := by
  have hstorage : ∀ {p : Plan} cause, cause.OfReading → p.Faults (.storage cause) := fun _ h => h
  induction p with
  | scan target f schema => exact Source.lives_scan hp hstorage
  | values schema rows => exact Source.lives_values rows
  | filter q child ih => exact (ih hp).filter hstorage q
  | project fields schema child ih => exact (ih hp).project fields schema
  | join q schema left right ihl ihr =>
    have hfaults : ∀ {p : Plan} e, p.Faults e → (Plan.join q schema left right).Faults e := by
      intro p e he
      cases e with
      | noMoreRows => trivial
      | _ => exact he
    exact Source.Lives.join ((ihl hp.1).mono hfaults) ((ihr hp.2).mono hfaults) trivial hstorage q schema
  | insert txn table schema child => exact hp.elim
  | delete txn child => exact hp.elim
  | aggregate spec schema child => exact hp.elim
  | groups number spec => exact hp.elim

end Plan

end RelStore
