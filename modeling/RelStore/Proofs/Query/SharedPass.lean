/-
Passes of insertions and deletions beside other callers of the cache.

* `RowChange.Begun`, `RowChange.begun_of_done` — an insertion or a deletion that was opened or rewound counts from zero;
* `RowChange.Pass` — what callers have come to with a pass, while others ask for pages, hold them and let them go;
* `RowChange.Passing`, `RowChange.Pass.passing` — every event leads from one stage of the pass to another;
* `RowChange.Pass.counts` — so the count tells how many of the child's rows are done, whatever happened, and what is
  handed out tells why no more of them are;
* `Plan.inPlace_fresh` — a pass may begin over a tree that was never opened, or that a pass before has left;
* `counts_heldSpares` — a pass that is interrupted between two rows.

Design notes.  An operator that is opened or rewound again begins another pass, over the contents that the one before
has left.  So a pass remembers the contents at its beginning, and nothing else of the past.
-/
import RelStore.Proofs.Query.Counting

namespace RelStore

namespace RowChange

variable {β : Type} {child : Source β} {change : RowChange} {c : Catalog} {n fuel : Nat} {held : List Handle} {p : Plan}
  {s : Store} {xs : List Row} {db db' : Database} {call : CursorCall} {pool : Pool}

/-! ### Passes begin -/

section

variable {r r' : Running (ChangeState β)}

/-- An open insertion or deletion that has done nothing yet. -/
structure Begun (r : Running (ChangeState β)) : Prop where
  opened : r.opened = true
  ahead : r.ahead = none
  count : r.body.count = 0
  finished : r.body.finished = false

/-- Where the child was reset a pass begins. -/
theorem outcome_startChange {reset : Step (Running β) Unit} {state state' : ChangeState β}
    (h : (Source.startChange reset).outcome (state, db) = (.ok (), state', db')) :
    reset.outcome (state.child, db) = (.ok (), state'.child, db') ∧ state'.count = 0 ∧ state'.finished = false := by
  simp only [Source.startChange, Source.onChild, Fallible.outcome_bind, Action.outcome_on] at h
  cases hreset : reset.outcome (state.child, db) with
  | mk res after =>
    rw [hreset] at h
    cases res with
    | error e => cases h
    | ok u =>
      cases h
      exact ⟨rfl, rfl, rfl⟩

theorem outcome_of_done {a : Step (Running (ChangeState β)) Unit}
    (h : CursorCall.answered (fun _ => .done) a r db = (.done, r', db')) : a.outcome (r, db) = (.ok (), r', db') := by
  rw [CursorCall.answered] at h
  generalize a.outcome (r, db) = out at h ⊢
  obtain ⟨e | u, after⟩ := out
  · cases h
  · cases h
    rfl

/-- An insertion or a deletion is opened with its child; an open one is closed first. -/
theorem on_open_done (h : CursorCall.open.on (change.source fuel child) r db = (.done, r', db')) :
    child.open.outcome (if r.opened then child.close r.body.child else r.body.child, db) = (.ok (), r'.body.child, db')
      ∧ Begun r' := by
  have hout := outcome_of_done h
  rw [Source.outcome_open, Source.outcome_inBody] at hout
  have hclosed : (if r.opened then (change.source fuel child).close r else r).body.child
      = if r.opened then child.close r.body.child else r.body.child := by
    split <;> rfl
  rw [← hclosed]
  generalize (if r.opened then (change.source fuel child).close r else r) = closed at hout ⊢
  cases hbody : (Source.startChange child.open).outcome (closed.body, db) with
  | mk res after =>
    have hbody' : (change.source fuel child).openBody.outcome (closed.body, db) = (res, after) := hbody
    rw [hbody'] at hout
    cases res with
    | error e => cases hout
    | ok u =>
      cases hout
      obtain ⟨hchild, hcount, hfinished⟩ := outcome_startChange hbody
      exact ⟨hchild, rfl, rfl, hcount, hfinished⟩

/-- An open insertion or deletion is rewound with its child. -/
theorem on_rewind_done (h : CursorCall.rewind.on (change.source fuel child) r db = (.done, r', db')) :
    child.rewind.outcome (r.body.child, db) = (.ok (), r'.body.child, db') ∧ Begun r' := by
  have hout := outcome_of_done h
  rw [Source.outcome_rewind] at hout
  cases hopened : r.opened with
  | false =>
    rw [hopened] at hout
    cases hout
  | true =>
    rw [if_pos hopened, Source.outcome_inBody] at hout
    cases hbody : (Source.startChange child.rewind).outcome (r.body, db) with
    | mk res after =>
      have hbody' : (change.source fuel child).rewindBody.outcome (r.body, db) = (res, after) := hbody
      rw [hbody'] at hout
      cases res with
      | error e => cases hout
      | ok u =>
        cases hout
        obtain ⟨hchild, hcount, hfinished⟩ := outcome_startChange hbody
        exact ⟨hchild, hopened, rfl, hcount, hfinished⟩

/-- Whatever came before, an operator that was opened or rewound has done nothing yet. -/
theorem begun_of_done (hcall : call = .open ∨ call = .rewind)
    (h : call.on (change.source fuel child) r db = (.done, r', db')) : Begun r' := by
  rcases hcall with rfl | rfl
  · exact (on_open_done h).2
  · exact (on_rewind_done h).2

end

/-! ### Passes go on -/

/-- What callers have come to with an insertion or a deletion of the rows `xs` since it was opened or rewound on the
contents `s`. -/
inductive Pass (change : RowChange) (n : Nat) (c : Catalog) (fuel : Nat) (p : Plan) (s : Store) (xs : List Row) :
    Pool → Running (ChangeState p.Body) → Prop
  /-- The operator was opened or rewound, and its child offers the rows. -/
  | begun {call : CursorCall} {held : List Handle} {db db' : Database} {r r' : Running (ChangeState p.Body)}
    (hcall : call = .open ∨ call = .rewind) (hplace : p.InPlace (change.plan p).Stores n c held r.body.child db)
    (hdone : call.on (change.source fuel (p.source fuel)) r db = (.done, r', db')) (hstore : db'.store = s)
    (hoffers : p.Offers c fuel xs r'.body.child db') : Pass change n c fuel p s xs ⟨db', held⟩ r'
  /-- Others ask for pages, hold them, let them go, or have changed pages written. -/
  | others {call : PoolCall} {pool : Pool} {r : Running (ChangeState p.Body)}
    (h : Pass change n c fuel p s xs pool r) (hcall : call.Quiet) : Pass change n c fuel p s xs (pool.step call) r
  /-- The operator is asked for a row, or whether there is one.  If the pass is not over then its child has failed, and
  it still offers all rows that are not counted. -/
  | asked {call : CursorCall} {pool : Pool} {db : Database} {r r' : Running (ChangeState p.Body)}
    {answer : CursorAnswer} (h : Pass change n c fuel p s xs pool r) (hcall : call = .hasNext ∨ call = .next)
    (hout : call.on (change.source fuel (p.source fuel)) r pool.db = (answer, r', db))
    (hkept : r'.body.finished = false → p.Offers c fuel (xs.drop r'.body.count) r'.body.child db) :
    Pass change n c fuel p s xs ⟨db, pool.held⟩ r'

/-- What holds of a pass after every event: its child is in place, and the pass is at a stage. -/
structure Passing (change : RowChange) (n : Nat) (c : Catalog) (fuel : Nat) (p : Plan) (s : Store) (xs : List Row)
    (pool : Pool) (r : Running (ChangeState p.Body)) : Prop where
  place : p.InPlace (change.plan p).Stores n c pool.held r.body.child pool.db
  stage : change.Stage c fuel p s xs r pool.db

variable {r r' : Running (ChangeState p.Body)}

/-- Where an operator was opened or rewound its child is in place. -/
theorem inPlace_of_done (hsep : change.Separate c p) (hcall : call = .open ∨ call = .rewind)
    (hplace : p.InPlace (change.plan p).Stores n c held r.body.child db)
    (hdone : call.on (change.source fuel (p.source fuel)) r db = (.done, r', db')) :
    p.InPlace (change.plan p).Stores n c held r'.body.child db' := by
  rcases hcall with rfl | rfl
  · have hopen := (on_open_done hdone).1
    split at hopen
    · exact (hplace.close hsep.child hsep.texts fuel).open hsep.child hsep.texts hopen
    · exact hplace.open hsep.child hsep.texts hopen
  · exact hplace.rewind hsep.child hsep.texts (on_rewind_done hdone).1

theorem Passing.of_begun (hplace : p.InPlace (change.plan p).Stores n c held r.body.child db) (hbegun : Begun r)
    (hoffers : p.Offers c fuel xs r.body.child db) : Passing change n c fuel p db.store xs ⟨db, held⟩ r := by
  obtain ⟨opened, ahead, count, finished, child⟩ := r
  obtain ⟨rfl, rfl, rfl, rfl⟩ := hbegun
  exact ⟨hplace, .going ⟨rfl, ⟨Nat.zero_le _, db.store, rfl, fun _ _ => rfl⟩, hoffers⟩⟩

section

variable (hsep : change.Separate c p) (hfuel : xs.length < fuel)

include hsep hfuel

/-- Whoever asks a pass leaves its child in place.  The pass is at a stage again, if it is over or its child still
offers all rows that are not counted. -/
theorem Passing.asked (h : change.Passing n c fuel p s xs pool r) {answer : CursorAnswer}
    (hcall : call = .hasNext ∨ call = .next)
    (hout : call.on (change.source fuel (p.source fuel)) r pool.db = (answer, r', db)) :
    p.InPlace (change.plan p).Stores n c pool.held r'.body.child db
      ∧ ((r'.body.finished = false → p.Offers c fuel (xs.drop r'.body.count) r'.body.child db) →
        change.Stage c fuel p s xs r' db) := by
  by_cases hsettled : Settled r
  · obtain ⟨hhasNext, hnext⟩ := h.stage.on_settled hsettled
    rcases hcall with rfl | rfl
    · cases hhasNext.symm.trans hout
      exact ⟨h.place, fun _ => h.stage⟩
    · cases hnext.symm.trans hout
      exact ⟨h.place, fun _ => h.stage⟩
  · obtain ⟨res, state, db', hends, hplace, hhasNext, hnext⟩ := h.stage.on_unsettled hsettled hsep h.place hfuel
    rcases hcall with rfl | rfl
    · cases hhasNext.symm.trans hout
      exact ⟨hplace, hends.stage⟩
    · cases hnext.symm.trans hout
      refine ⟨hplace, fun hkept => ?_⟩
      have hstage := hends.stage hkept
      cases res with
      | ok row => exact hstage.taken
      | error e => exact hstage

/-- Every event leads from one stage of a pass to another. -/
theorem Pass.passing (h : change.Pass n c fuel p s xs pool r) : change.Passing n c fuel p s xs pool r := by
  induction h with
  | @begun call held db db' r r' hcall hplace hdone hstore hoffers =>
    rw [← hstore]
    exact .of_begun (inPlace_of_done hsep hcall hplace hdone) (begun_of_done hcall hdone) hoffers
  | @others call pool r h hcall ih =>
    obtain ⟨hplace, hstore, hrunning⟩ := ih.place.quiet hcall
    exact ⟨hplace, ih.stage.congr hstore hrunning⟩
  | @asked call pool db r r' answer h hcall hout hkept ih =>
    obtain ⟨hplace, hstage⟩ := ih.asked hsep hfuel hcall hout
    exact ⟨hplace, hstage hkept⟩

/-- As many rows as are counted are done, in order, and nothing else.  Once the count was handed out, or why a row was
refused, there is nothing more; until then every answer tells what the pass has come to. -/
theorem Pass.counts (h : change.Pass n c fuel p s xs pool r) :
    change.Applied c p s xs r.body.count pool.db.store
      ∧ (Settled r → CursorCall.hasNext.on (change.source fuel (p.source fuel)) r pool.db = (.more false, r, pool.db)
        ∧ CursorCall.next.on (change.source fuel (p.source fuel)) r pool.db = (.failed .noMoreRows, r, pool.db))
      ∧ (¬ Settled r → ∃ res state db', change.Ends c n fuel pool.held p s xs res state db'
        ∧ change.Applied c p s xs state.count db'.store
        ∧ CursorCall.hasNext.on (change.source fuel (p.source fuel)) r pool.db
          = (.of (fun _ => .more true) res, ⟨true, res.toOption, state⟩, db')
        ∧ CursorCall.next.on (change.source fuel (p.source fuel)) r pool.db = (.of .row res, ⟨true, none, state⟩, db'))
      ∧ ∀ call, call = CursorCall.open ∨ call = CursorCall.rewind → ∀ r' db',
        call.on (change.source fuel (p.source fuel)) r pool.db = (.done, r', db') → r'.body.count = 0 := by
  obtain ⟨hplace, hstage⟩ := h.passing hsep hfuel
  refine ⟨hstage.applied, hstage.on_settled, fun hunsettled => ?_, fun call hcall r' db' hdone => ?_⟩
  · obtain ⟨res, state, db', hends, -, hhasNext, hnext⟩ := hstage.on_unsettled hunsettled hsep hplace hfuel
    exact ⟨res, state, db', hends, hends.applied, hhasNext, hnext⟩
  · exact (begun_of_done hcall hdone).count

end

end RowChange

/-- A tree that was never opened is in place, in every cache that fits it. -/
theorem Plan.inPlace_fresh {texts : Prop} {n : Nat} {c : Catalog} {p : Plan} {pool : Pool} (hpool : pool.Sound n c)
    (hfits : pool.db.store.Each Fits) (hkeys : pool.db.KeysFit texts) :
    p.InPlace texts n c pool.held (Running.closed p.fresh) pool.db := by
  refine ⟨hpool, hfits, hkeys, Running.keeps_closed ?_⟩
  induction p with
  | scan target f schema => exact nofun
  | values schema rows => exact nofun
  | filter predicate child ih => exact Running.keeps_closed ih
  | project fields schema child ih => exact Running.keeps_closed ih
  | join predicate schema left right ihl ihr => exact ⟨nofun, Running.keeps_closed ihl, Running.keeps_closed ihr⟩
  | insert txn table schema child ih => exact Running.keeps_closed ih
  | delete txn child ih => exact Running.keeps_closed ih
  | aggregate spec schema child ih => exact ⟨nofun, Running.keeps_closed ih⟩
  | groups number spec => exact nofun

/-! ### A pass that is interrupted -/

/-- A file like that of the digits. -/
def sparesFile : HeapFile :=
  ⟨["spares.dat"], digitsFile.schema, digitsFile.pageSize⟩

/-- A database with an empty table of digits and another one of spare digits. -/
def spares (poolSize : Nat) : Database :=
  { digits poolSize with catalog := (digits poolSize).catalog.register sparesFile "spares" none }

/-- Stores a spare digit. -/
def spare (k : Int32) : PoolCall :=
  .cache (.insert ⟨0⟩ sparesFile.id ⟨sparesFile.schema, [.int k], none⟩)

/-- All spare digits. -/
def allSpares : Plan :=
  .scan ⟨sparesFile.id, "spares", some "spares"⟩ sparesFile ⟨[.int], some [some "spares.null"]⟩

/-- Four spare digits, the last of them on a page of its own, and one digit; the first page of both tables is held. -/
def heldSpares : List PoolCall :=
  [spare 1, spare 2, spare 3, spare 4, .cache (.delete ⟨0⟩ ⟨sparesFile.schema, [], some ⟨⟨sparesFile.id, 0⟩, 0⟩⟩),
    digit 9, .keep ⟨digitsFile.id, 0⟩, .keep ⟨sparesFile.id, 0⟩]

/-- Stores the spare digits as digits. -/
def useSpares : RowChange :=
  .insert ⟨1⟩ digitsFile.id digitsFile.schema

theorem spares_proper (poolSize : Nat) : (spares poolSize).catalog.Proper := by
  have hopen : HeapFile.openAt {} "spares.dat" sparesFile.schema sparesFile.pageSize = .ok (sparesFile, _) := rfl
  exact (digits_proper poolSize).register hopen

/-- There are no other tables. -/
theorem spares_file_of_ne (poolSize : Nat) {id : TableId} (hspares : id ≠ sparesFile.id)
    (hdigits : id ≠ digitsFile.id) :
    (spares poolSize).catalog.file id = .error (.unknownTable id) := by
  have hnone : (spares poolSize).catalog.tables.get? id = none := by
    have hinsert : (spares poolSize).catalog.tables.get? id = (digits poolSize).catalog.tables.get? id :=
      (Assoc.get?_insert _ sparesFile.id id _).trans (if_neg (Ne.symm hspares))
    have hdigits' : (digits poolSize).catalog.tables.get? id = none :=
      (Assoc.get?_insert _ digitsFile.id id _).trans (if_neg (Ne.symm hdigits))
    exact hinsert.trans hdigits'
  rw [Catalog.file, Catalog.table, hnone]
  rfl

theorem sound_heldSpares : Pool.Sound 2 (spares 2).catalog (Pool.run heldSpares ⟨spares 2, []⟩) :=
  (Pool.sound_run (Pool.sound_ofSize rfl (spares_proper 2)) (by decide)).1

theorem store_heldSpares :
    (Pool.run heldSpares ⟨spares 2, []⟩).db.store sparesFile.id
        = [.ok [none, some [.int 2], some [.int 3]], .ok [some [.int 4], none, none]]
      ∧ (Pool.run heldSpares ⟨spares 2, []⟩).db.store digitsFile.id = [.ok [some [.int 9], none, none]] := by
  decide +kernel

theorem usable_heldSpares : ((Pool.run heldSpares ⟨spares 2, []⟩).db.store sparesFile.id).Usable := by
  rw [store_heldSpares.1]
  exact TableContents.usable_pair rfl rfl

theorem fits_heldSpares : (Pool.run heldSpares ⟨spares 2, []⟩).db.store.Each Fits := by
  intro id page hpage
  by_cases hspares : id = sparesFile.id
  · rw [hspares] at hpage
    exact (usable_heldSpares.2 page hpage).2
  · by_cases hdigits : id = digitsFile.id
    · rw [hdigits, store_heldSpares.2] at hpage
      rw [List.mem_singleton.mp hpage]
      rfl
    · rw [Database.store, sound_heldSpares.catalog, spares_file_of_ne 2 hspares hdigits] at hpage
      cases hpage

/-- Lets go what is held. -/
def dropSpares : List PoolCall :=
  [.release ⟨⟨sparesFile.id, 0⟩, 0⟩, .release ⟨⟨digitsFile.id, 0⟩, 2⟩]

theorem keysFit_heldSpares : (Pool.run heldSpares ⟨spares 2, []⟩).db.KeysFit True := by
  have hnone : (Pool.run heldSpares ⟨spares 2, []⟩).db.running = {} := by decide +kernel
  rw [Database.KeysFit, hnone]
  intro number ht key stat hkey
  cases hkey

theorem useSpares_separate : useSpares.Separate (spares 2).catalog allSpares := by
  refine ⟨⟨⟨digitsFile, rfl, rfl⟩, rfl, rfl, rfl⟩, ⟨⟨digitsFile, rfl, rfl⟩, fun _ h => by cases h⟩, fun id hid => ?_⟩
  rw [List.mem_singleton.mp hid]
  decide

/-- Two of three spare digits are used when the child asks for its second page, while other pages are held in both
frames.  When one of them was let go the pass goes on, and uses the third. -/
theorem counts_heldSpares :
    let pool := Pool.run heldSpares ⟨spares 2, []⟩
    let plan := Plan.insert ⟨1⟩ digitsFile.id digitsFile.schema allSpares
    let src := plan.source 9
    let rows := allSpares.meaning pool.db.store
    let opened := CursorCall.open.on src (Running.closed plan.fresh) pool.db
    let first := CursorCall.next.on src opened.2.1 opened.2.2
    let released := Pool.step ⟨first.2.2, pool.held⟩ (.release ⟨⟨sparesFile.id, 0⟩, 0⟩)
    let second := CursorCall.next.on src first.2.1 released.db
    (first.1 = .failed (.storage .noFreeBuffer) ∧ second.1 = .row ⟨countSchema, [.int 3], none⟩)
      ∧ useSpares.Applied (spares 2).catalog allSpares opened.2.2.store rows 2 first.2.2.store
      ∧ useSpares.Applied (spares 2).catalog allSpares opened.2.2.store rows 3 second.2.2.store
      ∧ CursorCall.next.on src second.2.1 second.2.2 = (.failed .noMoreRows, second.2.1, second.2.2) := by
  intro pool plan src rows opened first released second
  have hanswers : opened.1 = .done ∧ first.1 = .failed (.storage .noFreeBuffer)
      ∧ second.1 = .row ⟨countSchema, [.int 3], none⟩ ∧ first.2.1.body.count = 2 ∧ second.2.1.body.count = 3
      ∧ second.2.1.body.finished = true ∧ second.2.1.ahead = none := by
    decide +kernel
  obtain ⟨hopened, hfirst, hsecond, hcount₁, hcount₂, hfinished, hahead⟩ := hanswers
  have hcollected : ((Pool.run dropSpares ⟨opened.2.2, pool.held⟩).held = []
        ∧ (((allSpares.source 9).collect 9).outcome
          (opened.2.1.body.child, (Pool.run dropSpares ⟨opened.2.2, pool.held⟩).db)).1 = .ok rows)
      ∧ (Pool.run dropSpares ⟨first.2.2, pool.held⟩).held = []
        ∧ (((allSpares.source 9).collect 9).outcome
          (first.2.1.body.child, (Pool.run dropSpares ⟨first.2.2, pool.held⟩).db)).1 = .ok (rows.drop 2) := by
    decide +kernel
  obtain ⟨⟨hheld₀, hrows₀⟩, hheld₁, hrows₁⟩ := hcollected
  -- the pass, event by event
  have hfresh : allSpares.InPlace (useSpares.plan allSpares).Stores 2 (spares 2).catalog pool.held
      (Running.closed allSpares.fresh) pool.db := Plan.inPlace_fresh sound_heldSpares fits_heldSpares keysFit_heldSpares
  have hdone : CursorCall.open.on (useSpares.source 9 (allSpares.source 9))
      (Running.closed ⟨0, false, Running.closed allSpares.fresh⟩) pool.db = (.done, opened.2.1, opened.2.2) :=
    Prod.ext hopened rfl
  have hplace := RowChange.inPlace_of_done useSpares_separate (.inl rfl) hfresh hdone
  have hoffers : allSpares.Offers (spares 2).catalog 9 rows opened.2.1.body.child opened.2.2 :=
    hplace.offers_of_collect dropSpares (by decide) (by decide) hheld₀ (Prod.ext hrows₀ rfl)
  have hbegun : useSpares.Pass 2 (spares 2).catalog 9 allSpares opened.2.2.store rows ⟨opened.2.2, pool.held⟩
      opened.2.1 := .begun (.inl rfl) hfresh hdone rfl hoffers
  have hasked : CursorCall.next.on (useSpares.source 9 (allSpares.source 9)) opened.2.1 opened.2.2
      = (.failed (.storage .noFreeBuffer), first.2.1, first.2.2) := Prod.ext hfirst rfl
  have hfuel : rows.length < 9 := by decide +kernel
  obtain ⟨hplace', -⟩ := (hbegun.passing useSpares_separate hfuel).asked useSpares_separate hfuel (.inr rfl) hasked
  -- who holds buffers is the same as before; to compare the two would mean to compute them
  dsimp only at hplace'
  have hoffers' : allSpares.Offers (spares 2).catalog 9 (rows.drop 2) first.2.1.body.child first.2.2 :=
    hplace'.offers_of_collect dropSpares (by decide) (by decide) hheld₁ (Prod.ext hrows₁ rfl)
  have hinterrupted := hbegun.asked (.inr rfl) hasked fun _ => by rw [hcount₁]; exact hoffers'
  dsimp only at hinterrupted
  have hquiet : PoolCall.Quiet (.release ⟨⟨sparesFile.id, 0⟩, 0⟩) := trivial
  have hreleased := hinterrupted.others hquiet
  have hasked' : CursorCall.next.on (useSpares.source 9 (allSpares.source 9)) first.2.1 released.db
      = (.row ⟨countSchema, [.int 3], none⟩, second.2.1, second.2.2) := Prod.ext hsecond rfl
  have hover := hreleased.asked (.inr rfl) hasked' fun hgoing => by rw [hfinished] at hgoing; cases hgoing
  obtain ⟨happlied, -⟩ := hinterrupted.counts useSpares_separate hfuel
  obtain ⟨happlied', hsettled, -⟩ := hover.counts useSpares_separate hfuel
  rw [hcount₁] at happlied
  rw [hcount₂] at happlied'
  exact ⟨⟨hfirst, hsecond⟩, happlied, happlied', (hsettled ⟨hfinished, hahead⟩).2⟩

end RelStore
