/-
Asking an open tree of operators whether there is one more row, while others change its tables.

* `Plan.anew`, `Plan.outlook` — the rows to come of a tree that is started over, and of one in use;
* `Plan.Streams.foretells` — a tree goes by its outlook, as long as the contents stay as they are;
* `Plan.Fed` — no right child of a join is empty, so that no lack is to come (`Plan.starves_outlook`);
* `InUse`, `UseEvent` — an operator beside other callers of the cache, who may change the tables;
* `InUse.Kept`, `InUse.kept_step`, `InUse.kept_run` — a tree that was opened stays open below its outermost operator;
* `InUse.Candid`, `InUse.candid_run` — what the tree answers then.

Design notes.  An answer is told from the contents at the moment of the call, for within a call nobody else acts.  Between
two calls the contents may be others.  Then the tree stands at another outlook, of which all that is kept is that the tree
is open and that no scanned table has lost its pages.
-/
import RelStore.Proofs.Store.HighWater
import RelStore.Proofs.Query.Outlook
import RelStore.Proofs.Query.Passes
import RelStore.Proofs.Query.Cursor

namespace RelStore

open RelStore.Action (Meets Gives)
open Running (IsShut IsLive Opens)
open Database (Shared)
open Source (scanRows)

variable {n fuel : Nat} {c : Catalog} {s t : Store} {held : List Handle} {f : HeapFile} {schema : Schema} {Free : Prop}

/-! ### Answers -/

namespace Outlook

variable {o : Outlook Row} {busy : Prop} {answer : Except ExecError Bool} {ahead : Option Row}

/-- The answer to the question whether there is one more row, and the row that was fetched ahead for it. -/
def Tells (busy : Prop) (fuel : Nat) (o : Outlook Row) : Except ExecError Bool → Option Row → Prop
  | .ok true, ahead => ∃ row rest, o.rows = row :: rest ∧ ahead = some row
  | .ok false, _ => o.rows = [] ∧ o.starves = false
  | .error e, _ => o.Breaks busy fuel e

/-- If nothing else can fail, a call fails just where a lack is to come. -/
theorem Tells.lacks_iff (h : o.Tells busy fuel answer ahead) (hfree : ¬ busy) (hwork : o.work < fuel) :
    answer = .error .noMoreRows ↔ o.rows = [] ∧ o.starves = true := by
  rcases answer with e | _ | _
  · cases e with
    | noMoreRows => exact iff_of_true rfl h
    | storage cause => exact (h.elim hfree (Nat.not_le_of_lt hwork)).elim
    | _ => exact h.elim
  · refine iff_of_false nofun fun hlack => ?_
    rw [h.2] at hlack
    cases hlack.2
  · obtain ⟨row, rest, hrows, -⟩ := h
    refine iff_of_false nofun fun hlack => ?_
    rw [hrows] at hlack
    cases hlack.1

theorem Tells.ne_noMoreRows (h : o.Tells busy fuel answer ahead) (hfed : o.starves = false) :
    answer ≠ .error .noMoreRows := by
  rintro rfl
  rw [h.2] at hfed
  cases hfed

end Outlook

/-! ### Leaves -/

namespace HeapCursor

variable {b : HeapCursor}

/-- The rows that a cursor has still to hand out, with all pages before it. -/
def outlook (f : HeapFile) (schema : Schema) (pages : TableContents) (b : HeapCursor) : Outlook Row :=
  ⟨left f schema pages b, false, pages.length⟩

/-- The search loads pages until there is a row.  Only callers that are in the way stop it, or the lack of fuel. -/
theorem meets_search_left (schema : Schema) (hf : c.file f.id = .ok f) (hfits : ∀ page ∈ s f.id, Fits page)
    (hfree : Free → 0 < n ∧ held = [] ∧ ∀ page ∈ s f.id, Readable page) (hb : Live s f b) :
    Meets (Shared n c s held) ((search f fuel).wrapError .storage) b
      (fun more b' => (Live s f b' ∧ left f schema (s f.id) b' = left f schema (s f.id) b) ∧ fuel ≠ 0
        ∧ if more then b'.pending ≠ [] else b'.pending = [] ∧ (s f.id).length ≤ b'.nextPage)
      fun e _ => (b.outlook f schema (s f.id)).Breaks (¬ Free) fuel e := by
  refine meets_search (fun db hdb => hdb.pageCount_eq hf hfits) ?_ ?_ ⟨hb, rfl⟩
  · rintro b' db ⟨hb', hleft⟩ hdb hpending hlt
    have hpage := List.getElem?_eq_getElem hlt
    obtain ⟨r, db', hget, hdb', hr⟩ := hdb.getPage hf hfits hpage schema
    refine ⟨r, db', hget, hdb', ?_, ?_⟩
    · rintro buffer rfl
      cases hcells : (s f.id)[b'.nextPage] with
      | error e =>
        rw [hcells] at hr
        cases hr
      | ok cells =>
        rw [hcells] at hr hpage
        exact ⟨hb', (left_load hpending hpage (Except.ok.inj hr).symm).trans hleft⟩
    · rintro e rfl
      refine .inl fun h => ?_
      obtain ⟨hn, hheld, hread⟩ := hfree h
      rcases hr with hzero | hne | ⟨e', he'⟩
      · omega
      · exact hne hheld
      · obtain ⟨cells, hcells⟩ := hread _ (List.mem_of_getElem? hpage)
        rw [hcells] at he'
        cases he'
  · exact fun hle _ _ => .inr (Nat.le_trans hle (Nat.sub_le ..))

/-- A cursor over a table with pages goes to the first of them. -/
theorem meets_rewind (hf : c.file f.id = .ok f) (hb : Live s f b) {Err : ExecError → HeapCursor → Prop} :
    Meets (Shared n c s held) ((rewind f).wrapError .storage) b (fun _ b' => b' = first) Err := by
  intro db hdb
  have hstart := meets_start hf (show closed.opened = false from rfl) db hdb
  rw [Action.outcome_wrapError, outcome_rewind hb.1, ← Action.outcome_wrapError]
  obtain ⟨e | _, b', db', hout, hdb', hanswer⟩ := hstart
  · exact absurd hanswer.2.2 hb.2
  · exact ⟨_, _, _, hout, hdb', hanswer.1⟩

end HeapCursor

namespace Source

/-- A scan hands out the rows that are pending, and then those of the pages before it. -/
theorem foretells_scan (hf : c.file f.id = .ok f) (hfits : ∀ page ∈ s f.id, Fits page)
    (hfree : Free → 0 < n ∧ held = [] ∧ ∀ page ∈ s f.id, Readable page) :
    (scan fuel f schema).Foretells (Shared n c s held) (¬ Free) fuel (HeapCursor.Live s f)
      (HeapCursor.outlook f schema (s f.id)) ⟨scanRows s f schema, false, (s f.id).length⟩ := by
  refine ⟨rfl, fun hb => ?_, fun {b} hb => ?_⟩
  · refine (HeapCursor.meets_rewind hf hb).mono ?_ fun _ _ h => h
    rintro _ _ rfl
    exact ⟨⟨rfl, hb.2⟩, .refl _⟩
  · refine HeapCursor.meets_take hb.1 (HeapCursor.meets_search_left schema hf hfits hfree hb) (fun _ hb' => hb'.1.1) ?_ ?_
    · rintro row tail b' ⟨hb', hleft⟩ hpending
      refine Action.meets_pure ⟨hb', .took ?_ ⟨rfl, rfl, Nat.le_refl _⟩⟩
      show HeapCursor.left f schema (s f.id) b = _ :: HeapCursor.left f schema (s f.id) ⟨b'.opened, b'.nextPage, tail⟩
      rw [← hleft, HeapCursor.left, hpending]
      rfl
    · rintro b' ⟨hb', hleft⟩ ⟨hpending, hend⟩
      exact Action.meets_pure
        ⟨hb', .ended (hleft.symm.trans (HeapCursor.left_eq_nil hpending hend)) rfl ⟨hleft, rfl, Nat.le_refl _⟩⟩

theorem foretells_values {P : Database → Prop} {busy : Prop} (rows : List Row) :
    (values rows).Foretells P busy fuel (fun _ => True) (fun rest => ⟨rest, false, 0⟩) ⟨rows, false, 0⟩ := by
  have hstart : ∀ rest, Meets P (Action.update fun _ : List Row => rows) rest
      (fun _ b => True ∧ (⟨b, false, 0⟩ : Outlook Row).Within ⟨rows, false, 0⟩)
      fun e _ => (⟨rows, false, 0⟩ : Outlook Row).Breaks busy fuel e := fun _ =>
    Action.meets_update ⟨trivial, .refl _⟩
  refine ⟨rfl, fun _ => hstart _, fun _ => ?_⟩
  refine Action.meets_state.bind ?_
  rintro _ rest ⟨rfl, rfl⟩
  cases rest with
  | nil => exact Action.meets_pure ⟨trivial, .ended rfl rfl (.refl _)⟩
  | cons row rest =>
    have hdrop : Meets P (Action.update fun _ : List Row => rest) (row :: rest) (fun _ b => b = rest)
        fun e _ => (⟨row :: rest, false, 0⟩ : Outlook Row).Breaks busy fuel e := Action.meets_update rfl
    refine hdrop.bind ?_
    rintro _ _ rfl
    exact Action.meets_pure ⟨trivial, .took rfl (.refl _)⟩

end Source

/-! ### Trees -/

/-- A join does not lack a row if its right child has some when it is started over, and no child lacks one. -/
theorem JoinState.starves_outlook {β γ : Type} {viewL : β → Outlook Row} {viewR : γ → Outlook Row} {anew : Outlook Row}
    {j : JoinState β γ} (hl : (viewL j.left.body).starves = false) (hr : (viewR j.right.body).starves = false)
    (hanew : anew.starves = false) (hrows : anew.rows ≠ []) : (j.outlook viewL viewR anew).starves = false := by
  rw [outlook]
  split
  · rfl
  · dsimp only
    split
    · exact hl
    · exact Bool.or_eq_false_iff.mpr ⟨hr, Outlook.starves_rounds hanew hrows hl⟩

namespace Plan

variable {p : Plan}

/-- The rows to come when a tree is started over. -/
def anew (s : Store) : Plan → Outlook Row
  | scan _ f schema => ⟨scanRows s f schema, false, (s f.id).length⟩
  | values _ rows => ⟨rows, false, 0⟩
  | filter q child => (child.anew s).filter q.accepts
  | project fields schema child => (child.anew s).map (Source.pick fields schema)
  | join q schema left right => .joined q schema (.crossed (left.anew s) (right.anew s))
  | insert .. | delete .. | aggregate .. | groups .. => ⟨[], false, 0⟩

/-- The rows to come of a tree in use, the row left out that its outermost operator has fetched ahead. -/
def outlook (s : Store) : (p : Plan) → p.Body → Outlook Row
  | scan _ f schema, b => HeapCursor.outlook f schema (s f.id) b
  | values .., rest => ⟨rest, false, 0⟩
  | filter q child, r => (Running.outlook (child.outlook s) r).filter q.accepts
  | project fields schema child, r => (Running.outlook (child.outlook s) r).map (Source.pick fields schema)
  | join q schema left right, j => .joined q schema (JoinState.outlook (left.outlook s) (right.outlook s) (right.anew s) j)
  | insert .., _ | delete .., _ | aggregate .., _ | groups .., _ => ⟨[], false, 0⟩

/-- The right child of every join has rows when it is started over. -/
def Fed (s : Store) : Plan → Prop
  | filter _ child | project _ _ child => child.Fed s
  | join _ _ left right => left.Fed s ∧ right.Fed s ∧ (right.anew s).rows ≠ []
  | _ => True

/-- The texts of the scanned tables are within the limit. -/
def TextsFit (s : Store) (p : Plan) : Prop :=
  ∀ id ∈ p.tables, ∀ page ∈ s id, Fits page

/-- Nobody holds a frame, and the pages of the scanned tables can be read. -/
def Undisturbed (n : Nat) (s : Store) (held : List Handle) (p : Plan) : Prop :=
  0 < n ∧ held = [] ∧ ∀ id ∈ p.tables, ∀ page ∈ s id, Readable page

/-- No lack is to come when a tree is started over: a join looks for rows in both children then. -/
theorem starves_anew (s : Store) (p : Plan) : (p.anew s).starves = false := by
  induction p with
  | filter q child ih => exact ih
  | project fields schema child ih => exact ih
  | join q schema left right ihl ihr => exact Outlook.starves_crossed ihl ihr
  | _ => rfl

theorem starves_outlook (hp : p.Fed s) (b : p.Body) : (p.outlook s b).starves = false := by
  induction p with
  | filter q child ih => exact ih hp b.body
  | project fields schema child ih => exact ih hp b.body
  | join q schema left right ihl ihr =>
    exact JoinState.starves_outlook (ihl hp.1 _) (ihr hp.2.1 _) (starves_anew s right) hp.2.2
  | _ => rfl

/-- A tree goes by its outlook. -/
theorem Streams.foretells (hp : p.Streams c) (hfits : p.TextsFit s)
    (hfree : Free → p.Undisturbed n s held) :
    (p.source fuel).Foretells (Shared n c s held) (¬ Free) fuel (p.Live s) (p.outlook s) (p.anew s) := by
  induction p with
  | scan target f schema =>
    refine Source.foretells_scan hp (hfits f.id List.mem_cons_self) fun h => ?_
    obtain ⟨hn, hheld, hread⟩ := hfree h
    exact ⟨hn, hheld, hread f.id List.mem_cons_self⟩
  | values schema rows => exact Source.foretells_values rows
  | filter q child ih => exact (ih hp hfits hfree).filter q
  | project fields schema child ih => exact (ih hp hfits hfree).project fields schema
  | join q schema left right ihl ihr =>
    have hl := ihl hp.1 (fun id hid => hfits id (List.mem_append_left _ hid)) fun h =>
      ⟨(hfree h).1, (hfree h).2.1, fun id hid => (hfree h).2.2 id (List.mem_append_left _ hid)⟩
    have hr := ihr hp.2 (fun id hid => hfits id (List.mem_append_right _ hid)) fun h =>
      ⟨(hfree h).1, (hfree h).2.1, fun id hid => (hfree h).2.2 id (List.mem_append_right _ hid)⟩
    exact hl.join hr q schema
  | insert txn table schema child => exact hp.elim
  | delete txn child => exact hp.elim
  | aggregate spec schema child => exact hp.elim
  | groups number spec => exact hp.elim

end Plan

/-! ### Other contents -/

theorem Running.Opens.mono {β : Type} {Shut Shut' Live Live' : β → Prop} {r : Running β} (hr : Opens Shut Live r)
    (hshut : ∀ b, Shut b → Shut' b) (hlive : ∀ b, Live b → Live' b) : Opens Shut' Live' r :=
  hr.imp (fun h => ⟨h.1, hshut _ h.2⟩) fun h => ⟨h.1, hlive _ h.2⟩

/-- No registered table loses all of its pages. -/
def Store.KeepsPages (c : Catalog) (s t : Store) : Prop :=
  ∀ f, c.file f.id = .ok f → s f.id ≠ [] → t f.id ≠ []

theorem Store.keepsPages_of_length_le (h : ∀ f, c.file f.id = .ok f → (s f.id).length ≤ (t f.id).length) :
    s.KeepsPages c t :=
  fun f hf hpages => List.length_pos_iff.mp (Nat.lt_of_lt_of_le (List.length_pos_iff.mpr hpages) (h f hf))

namespace Plan

variable {p : Plan}

/-- A tree stays open as long as its tables keep their pages. -/
theorem Live.mono (hp : p.Streams c) (hpages : s.KeepsPages c t) {b : p.Body} (hb : p.Live s b) : p.Live t b := by
  induction p with
  | scan target f schema => exact ⟨hb.1, hpages f hp hb.2⟩
  | filter q child ih => exact ⟨hb.1, ih hp hb.2⟩
  | project fields schema child ih => exact ⟨hb.1, ih hp hb.2⟩
  | join q schema left right ihl ihr => exact ⟨⟨hb.1.1, ihl hp.1 hb.1.2⟩, ⟨hb.2.1, ihr hp.2 hb.2.2⟩⟩
  | _ => trivial

theorem Shut.mono (hp : p.Streams c) (hpages : s.KeepsPages c t) {b : p.Body} (hb : p.Shut s b) : p.Shut t b := by
  induction p with
  | scan target f schema => exact hb
  | filter q child ih => exact Opens.mono hb (fun _ => ih hp) fun _ => Live.mono (p := child) hp hpages
  | project fields schema child ih => exact Opens.mono hb (fun _ => ih hp) fun _ => Live.mono (p := child) hp hpages
  | join q schema left right ihl ihr =>
    exact ⟨Opens.mono hb.1 (fun _ => ihl hp.1) fun _ => Live.mono hp.1 hpages,
      Opens.mono hb.2 (fun _ => ihr hp.2) fun _ => Live.mono hp.2 hpages⟩
  | _ => trivial

/-- A tree that was never opened can be opened. -/
theorem shut_fresh (s : Store) (p : Plan) : p.Shut s p.fresh := by
  induction p with
  | scan target f schema => rfl
  | filter q child ih => exact opens_fresh ih
  | project fields schema child ih => exact opens_fresh ih
  | join q schema left right ihl ihr => exact ⟨opens_fresh ihl, opens_fresh ihr⟩
  | _ => trivial

end Plan

/-! ### Calls -/

namespace Source

variable {β : Type} {src : Source β} {P : Database → Prop} {Shut Live : β → Prop} {Fault : ExecError → Prop}
  {r : Running β} {db : Database}

/-- Whatever a call answers, the operator is closed or open afterwards. -/
theorem Lives.on (h : src.Lives P Shut Live Fault) (call : CursorCall) (hr : Opens Shut Live r) (hdb : P db) :
    ∃ answer r' db', call.on src r db = (answer, r', db') ∧ P db' ∧ Opens Shut Live r' := by
  have hmeets : ∀ {α : Type} {a : Step (Running β) α} {answer : α → CursorAnswer},
      Meets P a r (fun _ => Opens Shut Live) (fun _ => Opens Shut Live) →
      ∃ x r' db', CursorCall.answered answer a r db = (x, r', db') ∧ P db' ∧ Opens Shut Live r' := by
    intro α a answer ha
    obtain ⟨res, r', db', hout, hdb', hr'⟩ := ha db hdb
    refine ⟨.of answer res, r', db', by rw [CursorCall.answered, hout]; rfl, hdb', ?_⟩
    cases res with
    | ok x => exact hr'
    | error e => exact hr'
  have hkeeps : ∀ {α : Type} {a : Step (Running β) α} {Fault : ExecError → Prop},
      Action.Keeps P (IsLive Live) Fault a →
      (IsShut Shut r → Gives P a r (.error .notOpen) (IsShut Shut)) →
      Meets P a r (fun _ => Opens Shut Live) (fun _ => Opens Shut Live) := by
    intro α a Fault ha hclosed
    rcases hr with hshut | hlive
    · intro db hdb
      obtain ⟨r', db', hout, hdb', hr'⟩ := hclosed hshut db hdb
      exact ⟨_, r', db', hout, hdb', .inl hr'⟩
    · exact (ha r hlive).mono (fun _ _ h => .inr h) fun _ _ h => .inr h.2
  cases call with
  | «open» => exact hmeets ((h.open hr).mono (fun _ _ h => .inr h) fun _ _ h => .inl h)
  | hasNext => exact hmeets (hkeeps h.keeps_hasNext gives_hasNext_of_closed)
  | next => exact hmeets (hkeeps h.next gives_next_of_closed)
  | rewind => exact hmeets (hkeeps h.rewind gives_rewind_of_closed)
  | close => exact ⟨_, _, db, rfl, hdb, .inl (h.close hr)⟩

end Source

/-! ### An operator beside other callers -/

/-- An operator in use, beside other callers of the cache. -/
structure InUse (p : Plan) where
  pool : Pool
  state : Running p.Body

/-- What can happen while an operator is in use. -/
inductive UseEvent where
  | others (call : PoolCall)
  | own (call : CursorCall)

/-- Whether the rows that the others store have as many fields as columns. -/
def UseEvent.Proper : UseEvent → Prop
  | others call => call.Proper
  | own _ => True

instance : DecidablePred UseEvent.Proper
  | .others call => inferInstanceAs (Decidable call.Proper)
  | .own _ => isTrue trivial

namespace InUse

variable {p : Plan} {u : InUse p}

/-- What an event does. -/
def step (fuel : Nat) (u : InUse p) : UseEvent → InUse p
  | .others call => { u with pool := u.pool.step call }
  | .own call =>
    let (_, r, db) := call.on (p.source fuel) u.state u.pool.db
    ⟨{ u.pool with db := db }, r⟩

/-- What some events do, one after the other. -/
def run (fuel : Nat) (events : List UseEvent) (u : InUse p) : InUse p :=
  events.foldl (step fuel) u

/-- Whether there is one more row, and what the question leaves behind. -/
def asked (fuel : Nat) (u : InUse p) : Except ExecError Bool × Running p.Body × Database :=
  (p.source fuel).hasNext.outcome (u.state, u.pool.db)

/-- The rows to come, and whether a lack is behind them. -/
def outlook (u : InUse p) : Outlook Row :=
  u.state.outlook (p.outlook u.pool.db.store)

/-- The operator is closed or open, and so are those below it. -/
structure Kept (n : Nat) (c : Catalog) (u : InUse p) : Prop where
  pool : u.pool.Sound n c
  opens : Opens (p.Shut u.pool.db.store) (p.Live u.pool.db.store) u.state

/-- One event keeps it so. -/
theorem kept_step (h : u.Kept n c) (hp : p.Streams c) {event : UseEvent} (hevent : event.Proper) :
    (u.step fuel event).Kept n c := by
  obtain ⟨hpool, hopens⟩ := h
  cases event with
  | others call =>
    have hpages : u.pool.db.store.KeepsPages c (u.pool.step call).db.store :=
      Store.keepsPages_of_length_le fun f hf => Pool.length_le_step hpool hf hevent
    exact ⟨(Pool.sound_step hpool hevent).1, hopens.mono (fun _ => Plan.Shut.mono hp hpages)
      fun _ => Plan.Live.mono hp hpages⟩
  | own call =>
    obtain ⟨answer, r, db, hout, hshared, hr⟩ :=
      (hp.lives fuel).on call hopens (Database.shared_of_sound hpool)
    have hpages : u.pool.db.store.KeepsPages c db.store :=
      Store.keepsPages_of_length_le fun f _ => Nat.le_of_eq (hshared.length_eq f.id).symm
    rw [step, hout]
    exact ⟨hshared.pool, hr.mono (fun _ => Plan.Shut.mono hp hpages) fun _ => Plan.Live.mono hp hpages⟩

/-- And so do all events. -/
theorem kept_run (h : u.Kept n c) (hp : p.Streams c) {events : List UseEvent}
    (hevents : ∀ event ∈ events, event.Proper) : (u.run fuel events).Kept n c := by
  induction events generalizing u with
  | nil => exact h
  | cons event events ih =>
    refine ih (kept_step h hp (hevents event List.mem_cons_self)) ?_
    intro event hevent
    exact hevents event (List.mem_cons_of_mem _ hevent)

/-- What can be relied on when an open tree is asked whether there is one more row. -/
structure Candid (n fuel : Nat) (u : InUse p) : Prop where
  /-- It fails like a reader of pages, or in a tree with a join for the lack of a row. -/
  faults : ∀ e, (u.asked fuel).1 = .error e → p.Faults e
  /-- Whoever is told that there is a row gets it next. -/
  hands : (u.asked fuel).1 = .ok true → ∃ row, ∀ db, (p.source fuel).next.outcome ((u.asked fuel).2.1, db)
    = (.ok row, { (u.asked fuel).2.1 with ahead := none }, db)
  /-- The answer is told from the state of the tree and the contents. -/
  foretold : p.TextsFit u.pool.db.store →
    u.outlook.Tells (¬ p.Undisturbed n u.pool.db.store u.pool.held) fuel (u.asked fuel).1 (u.asked fuel).2.1.ahead
  /-- So the tree fails for the lack of a row just where that is to come. -/
  starved : p.TextsFit u.pool.db.store → p.Undisturbed n u.pool.db.store u.pool.held → u.outlook.work < fuel →
    ((u.asked fuel).1 = .error .noMoreRows ↔ u.outlook.rows = [] ∧ u.outlook.starves = true)
  /-- It never does while all right children have rows. -/
  fed : p.TextsFit u.pool.db.store → p.Fed u.pool.db.store → (u.asked fuel).1 ≠ .error .noMoreRows

theorem Kept.isLive (h : u.Kept n c) (hopen : u.state.opened = true) : IsLive (p.Live u.pool.db.store) u.state := by
  refine h.opens.resolve_left fun hshut => ?_
  rw [hshut.1] at hopen
  cases hopen

/-- An open tree goes by its outlook. -/
theorem Kept.foretold (h : u.Kept n c) (hp : p.Streams c) (hopen : u.state.opened = true)
    (hfits : p.TextsFit u.pool.db.store) :
    u.outlook.Tells (¬ p.Undisturbed n u.pool.db.store u.pool.held) fuel (u.asked fuel).1
      (u.asked fuel).2.1.ahead := by
  have hforetells : (p.source fuel).Foretells (Shared n c u.pool.db.store u.pool.held)
      (¬ p.Undisturbed n u.pool.db.store u.pool.held) fuel _ _ _ := hp.foretells hfits fun h => h
  obtain ⟨answer, r, db, hout, -, hanswer⟩ :=
    hforetells.hasNext (h.isLive hopen) u.pool.db (Database.shared_of_sound h.pool)
  have hasked : u.asked fuel = (answer, r, db) := hout
  rw [hasked]
  rcases answer with e | _ | _
  · exact hanswer
  · obtain ⟨-, -, hsteps⟩ := hanswer
    cases hsteps with | ended hrows hfed _ => ?_
    exact ⟨hrows, hfed⟩
  · obtain ⟨-, hwithin, x, hahead⟩ := hanswer
    refine ⟨x, (p.outlook u.pool.db.store r.body).rows, ?_, hahead⟩
    rw [outlook, ← hwithin.rows, Running.outlook, hahead]
    rfl

theorem Kept.candid (h : u.Kept n c) (hp : p.Streams c) (hopen : u.state.opened = true) : u.Candid n fuel := by
  obtain ⟨answer, r, db, hout, -, hanswer⟩ :=
    (hp.lives fuel).hasNext (h.isLive hopen) u.pool.db (Database.shared_of_sound h.pool)
  have hasked : u.asked fuel = (answer, r, db) := hout
  refine ⟨?_, ?_, h.foretold hp hopen, ?_, ?_⟩
  · rw [hasked]
    rintro e rfl
    exact hanswer.1
  · rw [hasked]
    rintro rfl
    obtain ⟨x, hahead⟩ := Option.ne_none_iff_exists'.mp (hanswer.2 rfl)
    exact ⟨x, Source.outcome_next_of_ahead hanswer.1.1 hahead⟩
  · exact fun hfits hfree hwork => (h.foretold hp hopen hfits).lacks_iff (not_not_intro hfree) hwork
  · exact fun hfits hfed => (h.foretold hp hopen hfits).ne_noMoreRows (Plan.starves_outlook hfed u.state.body)

/-- A tree of scans, fixed rows, filters, projections and joins that is open, whatever calls on it and on the cache there
were before.  Asked whether there is one more row, it answers, or fails as somebody does who reads pages; and if it has
said that there is one then the next call hands it out.  Only a join may fail for the lack of a row instead: just where
its right child is empty that it has to start over for another left row. -/
theorem candid_run {start : Database} (hcache : start.cache = PageCache.ofSize n) (hproper : start.catalog.Proper)
    {before : List PoolCall} (hbefore : ∀ call ∈ before, call.Proper) {pool : Pool}
    (hpool : pool = Pool.run before ⟨start, []⟩) (hp : p.Streams start.catalog) {state : Running p.Body}
    (hstate : Opens (p.Shut pool.db.store) (p.Live pool.db.store) state) {events : List UseEvent}
    (hevents : ∀ event ∈ events, event.Proper) (hopen : (run fuel events ⟨pool, state⟩).state.opened = true) :
    (run fuel events ⟨pool, state⟩).Candid n fuel := by
  have hsound : pool.Sound n start.catalog := by
    rw [hpool]
    exact (Pool.sound_run (Pool.sound_ofSize hcache hproper) hbefore).1
  have hkept : Kept n start.catalog ⟨pool, state⟩ := ⟨hsound, hstate⟩
  exact (kept_run hkept hp hevents).candid hp hopen

/-- Two rows with a digit. -/
def twoOnes : Plan :=
  .values ⟨[.int], none⟩ [⟨⟨[.int], none⟩, [.int 1], none⟩, ⟨⟨[.int], none⟩, [.int 1], none⟩]

/-- Each of them with all digits of its kind. -/
def onesWithDigits : Plan :=
  .join ⟨0, .equal, 0⟩ ⟨[.int, .int], none⟩ twoOnes allDigits

/-- The only digit is paired with the first row, and deleted before the second row. -/
def digitGone : List UseEvent :=
  [.others (digit 1), .own .open, .own .next, .others (undigit 0 0)]

/-- The lack is foretold: the second row is to be taken from the left, and there is no digit any more. -/
theorem candid_run_onesWithDigits :
    let u := run 9 digitGone ⟨⟨digits 1, []⟩, Running.closed onesWithDigits.fresh⟩
    u.Candid 1 9 ∧ u.outlook.rows = [] ∧ u.outlook.starves = true ∧ (u.asked 9).1 = .error .noMoreRows := by
  intro u
  have hcandid : u.Candid 1 9 := candid_run rfl (digits_proper 1) (List.forall_mem_nil _)
    (show (⟨digits 1, []⟩ : Pool) = Pool.run [] _ from rfl)
    (show onesWithDigits.Streams (digits 1).catalog from ⟨trivial, rfl⟩) (Plan.opens_fresh (Plan.shut_fresh _ _))
    (by decide) (by decide +kernel)
  have hstore : u.pool.db.store digitsFile.id = [.ok [none, none, none]] := by decide +kernel
  have hpage : ∀ id ∈ onesWithDigits.tables, ∀ page ∈ u.pool.db.store id, page = .ok [none, none, none] := by
    intro id hid page hmem
    obtain rfl : id = digitsFile.id := List.mem_singleton.mp hid
    rw [hstore] at hmem
    exact List.mem_singleton.mp hmem
  have hfits : onesWithDigits.TextsFit u.pool.db.store := fun id hid page hmem => by
    rw [hpage id hid page hmem]
    rfl
  have hfree : onesWithDigits.Undisturbed 1 u.pool.db.store u.pool.held :=
    ⟨by decide, by decide +kernel, fun id hid page hmem => ⟨_, hpage id hid page hmem⟩⟩
  have hlack : u.outlook.rows = [] ∧ u.outlook.starves = true := by decide +kernel
  exact ⟨hcandid, hlack.1, hlack.2, (hcandid.starved hfits hfree (by decide +kernel)).mpr hlack⟩

/-- A join can fail for the lack of a row although it is open, nobody holds a page and every page can be read. -/
theorem not_always_answered :
    ¬ ∀ (p : Plan) (start : Database), start.cache = PageCache.ofSize 1 → start.catalog.Proper → p.Streams start.catalog →
      ∀ events : List UseEvent, (∀ event ∈ events, event.Proper) →
        (run 9 events ⟨⟨start, []⟩, Running.closed p.fresh⟩).state.opened = true →
        ((run 9 events ⟨⟨start, []⟩, Running.closed p.fresh⟩).asked 9).1 ≠ .error .noMoreRows := by
  intro h
  refine h onesWithDigits (digits 1) rfl (digits_proper 1) ⟨trivial, rfl⟩ digitGone (by decide) ?_ ?_
  · decide +kernel
  · decide +kernel

end InUse

end RelStore
