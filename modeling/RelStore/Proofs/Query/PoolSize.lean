/-
The size of the page cache, seen from outside.

* `StorageStep`, `runSteps` — calls of the cache and plans read to their end, one after the other;
* `StorageStep.run_determined` — while all texts are within the limit, the contents alone decide what a step answers;
* `runSteps_determined` — and what all steps answer;
* `runSteps_ne_of_long` — each longer text shows the size of the cache to somebody;
* `poolSize_unseen_iff` — so the size stays unseen exactly as long as no text is longer.

Design notes.  Two caches of different sizes write and load pages at different moments, so their states are never
compared.  Both are compared with the contents.
-/
import Mathlib
import RelStore.Proofs.Query.Cursor

namespace RelStore

open Page (Cells cut cutRow)
open Database (Ready Steady)

/-- A step: a call of the cache, or a plan that is opened and read to its end. -/
inductive StorageStep where
  | call (call : CacheCall)
  | query (plan : Plan)

/-- What a step answers. -/
inductive StepAnswer where
  | call (answer : CacheCall.Answer)
  | query (rows : Except ExecError (List Row))

namespace StorageStep

/-- A step on a database. -/
def run (fuel : Nat) (db : Database) : StorageStep → StepAnswer × Database
  | call c => (.call (c.run.outcome db).1, (c.run.outcome db).2)
  | query p => (.query (p.readAll fuel db).1, (p.readAll fuel db).2)

/-- Rows have as many fields as columns, and plans only read. -/
def Proper (c : Catalog) : StorageStep → Prop
  | call c => c.Proper
  | query p => p.Reads c

/-- The texts in a row that a step stores are all among the given ones. -/
def Stores (allowed : String → Prop) : StorageStep → Prop
  | call (.insert _ _ row) => ∀ text, Field.str text ∈ row.fields → allowed text
  | _ => True

end StorageStep

/-- The answers of some steps, one after the other. -/
def runSteps (fuel : Nat) : List StorageStep → Database → List StepAnswer
  | [], _ => []
  | step :: steps, db =>
    let (answer, db) := step.run fuel db
    answer :: runSteps fuel steps db

/-- The same disk and tables under a fresh cache of `n` frames. -/
def Database.withPool (db : Database) (n : Nat) : Database :=
  { db with cache := PageCache.ofSize n }

variable {c : Catalog} {s : Store} {db : Database} {text : String}

/-! ### Texts within the limit -/

namespace StorageStep

theorem Stores.mono {allowed allowed' : String → Prop} {step : StorageStep} (h : step.Stores allowed)
    (hallowed : ∀ text, allowed text → allowed' text) : step.Stores allowed' := by
  match step, h with
  | call (.insert _ _ row), h => exact fun text htext => hallowed text (h text htext)
  | call (.getPage _), _ | call (.delete _ _), _ | call .flush, _ | call (.flushPages _), _ | query _, _ =>
    exact trivial

theorem fits_of_stores {call : CacheCall} (h : (StorageStep.call call).Stores fun text => (Field.str text).Fits) :
    call.Fits := by
  cases call with
  | insert txn table row =>
    intro f hf
    cases f with
    | int value => trivial
    | str text => exact h text hf
  | getPage page => trivial
  | delete txn row => trivial
  | flush => trivial
  | flushPages txn => trivial

/-- What a step answers and leaves behind is decided by the contents, as long as all texts are within the limit. -/
theorem run_determined {step : StorageStep} (hstep : step.Proper c)
    (hstores : step.Stores fun text => (Field.str text).Fits) (hs : s.Each Fits) :
    ∃ answer s' n, s'.Each Fits ∧ ∀ fuel, n ≤ fuel → ∀ db, Ready c db → db.store = s →
      ∃ db', step.run fuel db = (answer, db') ∧ Ready c db' ∧ db'.store = s' := by
  cases step with
  | call call =>
    refine ⟨.call (call.onStore c s).1, (call.onStore c s).2, 0,
      CacheCall.each_fits_onStore hs (fits_of_stores hstores), fun fuel _ db hready hstore => ?_⟩
    subst hstore
    obtain ⟨s', hs', hrun, hready'⟩ := CacheCall.exists_onStore hready hstep
    obtain rfl := hs'.eq_of_fits hs
    refine ⟨_, ?_, hready', congrArg Prod.snd hrun⟩
    rw [run]
    exact congrArg (fun r => (StepAnswer.call r, _)) (congrArg Prod.fst hrun)
  | query p =>
    obtain ⟨r, n, hn⟩ := (Plan.Reads.settled (s := s) hstep fun id _ => hs id).readAll
    refine ⟨.query r, s, n, hs, fun fuel hfuel db hready hstore => ?_⟩
    subst hstore
    obtain ⟨db', hread, hsteady⟩ := hn fuel hfuel db hready.steady
    exact ⟨db', by rw [run, hread], hsteady.ready, hsteady.store.eq_of_fits hs⟩

end StorageStep

/-- The answers of a run are decided by the contents, as long as all texts are within the limit. -/
theorem runSteps_determined {steps : List StorageStep} (hsteps : ∀ step ∈ steps, step.Proper c)
    (hstores : ∀ step ∈ steps, step.Stores fun text => (Field.str text).Fits) (hs : s.Each Fits) :
    ∃ answers n, ∀ fuel, n ≤ fuel → ∀ db, Ready c db → db.store = s → runSteps fuel steps db = answers := by
  induction steps generalizing s with
  | nil => exact ⟨[], 0, fun _ _ _ _ _ => rfl⟩
  | cons step steps ih =>
    obtain ⟨answer, s', n, hs', hn⟩ := StorageStep.run_determined (hsteps step List.mem_cons_self)
      (hstores step List.mem_cons_self) hs
    obtain ⟨answers, m, hm⟩ := ih (fun step h => hsteps step (List.mem_cons_of_mem _ h))
      (fun step h => hstores step (List.mem_cons_of_mem _ h)) hs'
    refine ⟨answer :: answers, max n m, fun fuel hfuel db hready hstore => ?_⟩
    obtain ⟨db', hrun, hready', hstore'⟩ := hn fuel (by omega) db hready hstore
    rw [runSteps, hrun]
    exact congrArg _ (hm fuel (by omega) db' hready' hstore')

/-- Two caches over the same disk show the same contents. -/
theorem Database.store_withPool (db : Database) (n m : Nat) : (db.withPool n).store = (db.withPool m).store := by
  refine Database.store_of_buffer? rfl rfl fun page => ?_
  show (PageCache.ofSize n).buffer? page = (PageCache.ofSize m).buffer? page
  rw [PageCache.buffer?_ofSize, PageCache.buffer?_ofSize]

/-! ### Longer texts -/

namespace Database

variable {f : HeapFile} {n m : Nat}

/-- A cache of one frame holds one page. -/
theorem Sound.eq_of_one_frame (h : db.Sound) (hframes : db.cache.clock.frames.length = 1) {page other : PageId}
    {b b' : Buffer} (hb : db.cache.buffer? page = some b) (hb' : db.cache.buffer? other = some b') :
    page = other := by
  obtain ⟨i, hi, hid⟩ := (PageCache.buffer?_eq_some_iff h.coherent).mp hb
  obtain ⟨j, hj, hid'⟩ := (PageCache.buffer?_eq_some_iff h.coherent).mp hb'
  have hilt := PageCache.lt_of_bufferAt? hi
  have hjlt := PageCache.lt_of_bufferAt? hj
  obtain rfl : i = j := by omega
  rw [hi] at hj
  cases hj
  rw [← hid, ← hid']

/-- A deletion from an empty cell is refused, and the page of the cell is cached from then on. -/
theorem Ready.deleteRow_of_empty (h : Ready c db) (hf : c.file f.id = .ok f) (txn : TxnId) {row : Row}
    {cells : Cells} {slot : Nat} (hrow : row.record = some ⟨⟨f.id, n⟩, slot⟩)
    (hcells : db.pageCells f n = .ok cells) (hslot : ∀ fields, cells[slot]? ≠ some (some fields)) :
    ∃ b r db', (deleteRow txn row).outcome db = (r, db') ∧ db'.Sound ∧ db.Keeps db' ∧ db.CutsTo db'
      ∧ db'.cache.buffer? ⟨f.id, n⟩ = some b ∧ b.page.cells = cells := by
  have hf' : db.catalog.file f.id = .ok f := by rw [h.catalog, hf]
  have hplace := (h.sound.place_le_of_pageCells hf' hcells).1
  have hstore := page_store h.sound hf' n
  obtain ⟨r, db', hget, hsound, hkeeps, hcuts, hanswer⟩ := h.sound.getPage ⟨f.id, n⟩
  rw [outcome_deleteRow, hrow]
  simp only [hf', Fallible.follow_ok, ne_eq, not_true_eq_false, false_or, if_neg (Nat.not_le.mpr hplace), hget]
  cases hanswer with
  | @found b hb hfound =>
    rw [hstore, hcells] at hfound
    cases hfound
    have hid := PageCache.id_of_buffer? hsound.coherent hb
    have hdelete := Page.delete_eq b.page hrow hid.symm
    split at hdelete
    · next fields hfields => exact absurd hfields (hslot fields)
    · rw [Fallible.follow_ok, hdelete]
      exact ⟨b, _, db', rfl, hsound, hkeeps, hcuts, hb, rfl⟩
  | refused he =>
    rw [hstore, hcells] at he
    cases he
  | full hfull => exact absurd hfull (h.idle.not_full h.sound)

end Database

open CacheCall (notes notesFile note)
open Plan (allNotes)

/-- A table of notes with two empty pages. -/
def emptyNotes : Database :=
  { notes 1 with disk := { files := Assoc.insert {} notesFile.path (.zeros 266) } }

/-- A note that the second page does not hold. -/
def noNote : Row :=
  ⟨notesFile.schema, [.str "x"], some ⟨⟨notesFile.id, 1⟩, 0⟩⟩

/-- A note is stored, the other page is asked for, and all notes are read. -/
def leak (text : String) : List StorageStep :=
  [.call (note text), .call (.delete ⟨0⟩ noNote), .query allNotes]

/-- With two frames the note comes back as it was stored. -/
theorem leak_of_two_frames (text : String) (k : Nat) :
    (runSteps (k + 5) (leak text) (emptyNotes.withPool 2))[2]?
      = some (.query (.ok [⟨allNotes.schema, [.str text], some ⟨⟨notesFile.id, 0⟩, 0⟩⟩])) := by
  cbv

theorem emptyNotes_ready {n : Nat} (hn : 0 < n) : Ready (notes 1).catalog (emptyNotes.withPool n) := by
  have hcache : (emptyNotes.withPool n).cache = PageCache.ofSize n := rfl
  exact Database.ready_of_ofSize hn hcache (CacheCall.notes_proper 1)

/-- The database with the note in the only frame. -/
def oneNote (text : String) : Database :=
  ((note text).run.outcome (emptyNotes.withPool 1)).2

theorem oneNote_ready (text : String) : Ready (notes 1).catalog (oneNote text) := by
  obtain ⟨-, -, -, hready⟩ := CacheCall.exists_onStore (emptyNotes_ready (by decide : 0 < 1))
    (show (note text).Proper from rfl)
  exact hready

set_option maxRecDepth 4000 in
theorem oneNote_pages (text : String) : (oneNote text).cache.clock.frames.length = 1
    ∧ notesFile.pageCount (oneNote text).disk = 2 ∧ (oneNote text).pageCells notesFile 1 = .ok [none] := by
  refine ⟨?_, ?_, ?_⟩ <;> cbv

/-- When the other page has come into the only frame, no cached text is longer than the limit. -/
theorem oneNote_evicted (text : String) :
    ∃ r db, (Database.deleteRow ⟨0⟩ noNote).outcome (oneNote text) = (r, db) ∧ Ready (notes 1).catalog db
      ∧ db.store notesFile.id ≠ [] ∧ ∀ page ∈ db.store notesFile.id, Fits page := by
  obtain ⟨hframes, hcount, hcells⟩ := oneNote_pages text
  have hready := oneNote_ready text
  have hf : (notes 1).catalog.file notesFile.id = .ok notesFile := rfl
  obtain ⟨b, r, db, hdelete, hsound, hkeeps, hcuts, hb, hbcells⟩ :=
    hready.deleteRow_of_empty hf ⟨0⟩ (show noNote.record = some ⟨⟨notesFile.id, 1⟩, 0⟩ from rfl) hcells
      (fun fields h => by cases h)
  have hready' := hready.of_keeps hsound hkeeps
  have hf' : db.catalog.file notesFile.id = .ok notesFile := by rw [hready'.catalog, hf]
  have hcontents : db.store notesFile.id = (List.range 2).map (db.pageCells notesFile) := by
    rw [Database.store_eq hf', Database.contents, hcuts.count (by rw [hready.catalog, hf]), hcount]
  refine ⟨r, db, hdelete, hready', by rw [hcontents]; exact List.cons_ne_nil _ _, fun page hpage => ?_⟩
  rw [hcontents, List.mem_map] at hpage
  obtain ⟨n, hn, rfl⟩ := hpage
  have hlt : n < 2 := List.mem_range.mp hn
  -- the first page has left the only frame and comes from the disk, the second one is empty
  obtain rfl | rfl : n = 0 ∨ n = 1 := by omega
  · refine Database.fits_of_buffer?_eq_none ?_
    cases hold : db.cache.buffer? ⟨notesFile.id, 0⟩ with
    | none => rfl
    | some old =>
      have heq := hsound.eq_of_one_frame (by rw [hkeeps.frames, hframes]) hold hb
      cases heq
  · rw [Database.pageCells_of_buffer? hb, hbcells]
    rfl

/-- With one frame all notes that come back are within the limit. -/
theorem leak_of_one_frame (text : String) :
    ∃ n, ∀ fuel, n ≤ fuel → ∃ r, (runSteps fuel (leak text) (emptyNotes.withPool 1))[2]? = some (.query r)
      ∧ ∀ rows, r = .ok rows → ∀ row ∈ rows, ∀ f ∈ row.fields, f.Fits := by
  obtain ⟨r, db, hdelete, hready, hpages, hfits⟩ := oneNote_evicted text
  have hdb : ((CacheCall.delete ⟨0⟩ noNote).run.outcome (oneNote text)).2 = db := by
    simp only [CacheCall.run, Fallible.outcome_map, hdelete]
    cases r <;> rfl
  have hscan : allNotes.Yields (Steady (notes 1).catalog db.store) _ _ := Plan.yields_scan _ rfl hfits hpages
  obtain ⟨n, hn⟩ := hscan.readAll
  refine ⟨n, fun fuel hfuel => ⟨(allNotes.readAll fuel db).1, by rw [← hdb]; rfl, ?_⟩⟩
  obtain ⟨db', hread, -⟩ := hn fuel hfuel db hready.steady
  rw [hread]
  intro rows hrows row hrow
  cases hfault : (TableContents.fault (db.store notesFile.id)).map ExecError.storage with
  | some e =>
    rw [hfault] at hrows
    cases hrows
  | none =>
    rw [hfault] at hrows
    cases hrows
    refine TableContents.of_mem_rowsFrom (Q := fun fields => ∀ f ∈ fields, f.Fits) ?_ hrow
    intro cells hcells fields hfields
    have hcut : cut cells = cells := Except.ok.inj (hfits _ hcells)
    exact Page.cutRow_eq_self_iff.mp (Page.cutRow_eq_of_mem hcut hfields)

/-- Each longer text shows the size of the cache to somebody. -/
theorem runSteps_ne_of_long (htext : ¬ (Field.str text).Fits) :
    ¬ ∃ n, ∀ fuel, n ≤ fuel →
      runSteps fuel (leak text) (emptyNotes.withPool 1) = runSteps fuel (leak text) (emptyNotes.withPool 2) := by
  rintro ⟨n, hn⟩
  obtain ⟨m, hm⟩ := leak_of_one_frame text
  obtain ⟨r, hone, hfits⟩ := hm (max n m + 5) (by omega)
  have htwo := leak_of_two_frames text (max n m)
  rw [← hn _ (by omega), hone] at htwo
  cases htwo
  exact htext (hfits _ rfl _ List.mem_cons_self _ List.mem_cons_self)

/-- A note of one byte too many comes back cut from one frame, and whole from two. -/
theorem runSteps_ne_of_longText :
    ¬ ∃ n, ∀ fuel, n ≤ fuel →
      runSteps fuel (leak CacheCall.longText) (emptyNotes.withPool 1)
        = runSteps fuel (leak CacheCall.longText) (emptyNotes.withPool 2) :=
  runSteps_ne_of_long (by decide +kernel)

/-- The size of the cache stays unseen in all runs over some texts exactly if all of these are within the limit. -/
theorem poolSize_unseen_iff (allowed : String → Prop) :
    (∀ (start : Database) (n m : Nat) (steps : List StorageStep), start.catalog.Proper → 0 < n → 0 < m →
        (∀ step ∈ steps, step.Proper start.catalog) → (∀ step ∈ steps, step.Stores allowed) →
        ∃ k, ∀ fuel, k ≤ fuel → runSteps fuel steps (start.withPool n) = runSteps fuel steps (start.withPool m))
      ↔ ∀ text, allowed text → (Field.str text).Fits := by
  constructor
  -- every allowed text could be the note that one frame cuts and two frames keep
  · intro h text hallowed
    refine Decidable.byContradiction fun htext => runSteps_ne_of_long htext ?_
    refine h emptyNotes 1 2 (leak text) (CacheCall.notes_proper 1) (by decide) (by decide) ?_ ?_
    · intro step hstep
      simp only [leak, List.mem_cons, List.not_mem_nil, or_false] at hstep
      rcases hstep with rfl | rfl | rfl
      · exact rfl
      · trivial
      · exact rfl
    · intro step hstep
      simp only [leak, List.mem_cons, List.not_mem_nil, or_false] at hstep
      rcases hstep with rfl | rfl | rfl
      · intro text' htext'
        cases List.mem_singleton.mp htext'
        exact hallowed
      · trivial
      · trivial
  -- both runs answer what the contents decide
  · intro h start n m steps hproper hn hm hsteps hstores
    have hready : ∀ {k}, 0 < k → Ready start.catalog (start.withPool k) := by
      intro k hk
      have hcache : (start.withPool k).cache = PageCache.ofSize k := rfl
      exact Database.ready_of_ofSize hk hcache hproper
    have hfits : (start.withPool n).store.Each Fits := Database.each_fits_of_ofSize rfl
    obtain ⟨answers, k, hk⟩ := runSteps_determined hsteps
      (fun step hstep => (hstores step hstep).mono h) hfits
    refine ⟨k, fun fuel hfuel => ?_⟩
    rw [hk fuel hfuel _ (hready hn) rfl, hk fuel hfuel _ (hready hm) (start.store_withPool m n)]

end RelStore
