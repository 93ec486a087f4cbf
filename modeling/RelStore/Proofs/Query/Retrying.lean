/-
Sources that go on behind a failure.

A page is refused while callers hold all frames.  A source that stays where it is then can be asked again.

* `Action.Tries` — a step answers, or fails and leaves behind a state from which the source goes on;
* `Database.Shared` — the contents are fixed ones, up to long texts, while callers hold some buffers;
* `Source.Resumes` — a source hands out a fixed list of rows, and keeps its place when it fails;
* `Source.Retries.hasNext`, `Source.Retries.next`, `Source.Retries.take`, `Source.Retries.collect` — so does the
  protocol around it;
* `Source.resumes_values`, `Source.resumes_scan`, `Source.Resumes.filter` — which sources are such;
* `Plan.Plain.resumes` — so is every tree of them.

Design notes.  One triple tells of failures and of their absence: a step may fail only if `Free` does not hold, where
`Free` says that nobody holds a buffer and that there is fuel enough.  With `Free` in the context no step fails.  The
triple is an `Action.Meets` with a certain kind of errors, and its rules are those.
-/
import RelStore.Proofs.Store.Flushing
import RelStore.Proofs.Query.Meaning
import RelStore.Proofs.Query.Outcomes

namespace RelStore

open Page (Cells)
open Running (Holds Stands)

variable {n fuel : Nat} {c : Catalog} {s : Store} {held : List Handle} {f : HeapFile} {schema : Schema}
  {db db' : Database} {P : Database → Prop} {Free : Prop}

/-! ### Steps that may fail -/

namespace Action

variable {σ τ α β : Type} {a : Step σ α} {g : α → Step σ β} {t : σ} {x : α} {Ok Mid : α → σ → Prop}
  {Err Err' : σ → Prop}

/-- From state `t` and any database with `P` the step answers as `Ok` tells, or fails with an error of storage and
leaves behind a state with `Err`.  It cannot fail if `Free` holds.  Either way the database has `P` again. -/
def Tries (P : Database → Prop) (Free : Prop) (a : Step σ α) (t : σ) (Ok : α → σ → Prop) (Err : σ → Prop) : Prop :=
  ∀ db, P db → ∃ r t' db', a.outcome (t, db) = (r, t', db') ∧ P db'
    ∧ match r with
      | .ok x => Ok x t'
      | .error e => ¬ Free ∧ (∃ cause, e = .storage cause) ∧ Err t'

theorem Tries.mono {Ok' : α → σ → Prop} (h : Tries P Free a t Ok Err) (hok : ∀ x t', Ok x t' → Ok' x t')
    (herr : ∀ t', Err t' → Err' t') : Tries P Free a t Ok' Err' :=
  Meets.mono h hok fun _ t' he => ⟨he.1, he.2.1, herr t' he.2.2⟩

theorem Tries.mono_error (h : Tries P Free a t Ok Err) (herr : ∀ t', Err t' → Err' t') : Tries P Free a t Ok Err' :=
  h.mono (fun _ _ hok => hok) herr

theorem Tries.bind {Ok : β → σ → Prop} (ha : Tries P Free a t Mid Err)
    (hg : ∀ x t', Mid x t' → Tries P Free (g x) t' Ok Err) : Tries P Free (a >>= g) t Ok Err :=
  Meets.bind ha hg

/-- What cannot fail leaves nothing to say about a failure. -/
theorem Tries.of_free (h : Tries P Free a t Ok Err) (hfree : Free) : Tries P Free a t Ok Err' :=
  Meets.mono_error h fun _ _ he => (he.1 hfree).elim

theorem tries_pure (h : Ok x t) : Tries P Free (pure x : Step σ α) t Ok Err :=
  meets_pure h

theorem tries_state : Tries P Free (state : Step σ σ) t (fun u t' => u = t ∧ t' = t) Err :=
  meets_state

theorem tries_update {Ok : Unit → σ → Prop} {change : σ → σ} (h : Ok () (change t)) :
    Tries P Free (update change : Step σ Unit) t Ok Err :=
  meets_update h

theorem tries_throw {cause : StorageError} (hfree : ¬ Free) (h : Err t) :
    Tries P Free (throw (.storage cause) : Step σ α) t Ok Err :=
  meets_throw ⟨hfree, ⟨cause, rfl⟩, h⟩

/-- A step on a part of the state. -/
theorem Tries.on {part : σ → τ} {put : σ → τ → σ} {a : Step τ α} {Ok' : α → τ → Prop} {Err' : τ → Prop}
    (ha : Tries P Free a (part t) Ok' Err') (hok : ∀ x u, Ok' x u → Ok x (put t u))
    (herr : ∀ u, Err' u → Err (put t u)) : Tries P Free (on part put a) t Ok Err :=
  Meets.on ha hok fun _ u he => ⟨he.1, he.2.1, herr u he.2.2⟩

end Action

open RelStore.Action (Tries Meets Gives)

/-! ### The protocol -/

namespace Source

variable {β : Type} {src : Source β} {b : β} {At : List Row → β → Prop} {xs rest : List Row} {x : Row}
  {r : Running β}

/-- What was fetched while the rows `rest` were left. -/
def Fetched (At : List Row → β → Prop) (rest : List Row) : Option Row → β → Prop
  | some x, b => ∃ tail, rest = x :: tail ∧ At tail b
  | none, b => rest = [] ∧ At [] b

/-- Whether there was a row while the rows `rest` were left. -/
def Looked (At : List Row → β → Prop) (rest : List Row) : Bool → Running β → Prop
  | true, r => ∃ x tail, rest = x :: tail ∧ Holds At x tail r
  | false, r => rest = [] ∧ Stands At [] r

/-- Looking ahead at a source that fetches the next row of those that are left. -/
theorem meets_hasNext_of_stands {Err : ExecError → Running β → Prop} (hr : Stands At rest r)
    (hfetch : ∀ {b}, At rest b → Meets P src.fetch b (Fetched At rest) fun e b' => Err e ⟨true, none, b'⟩) :
    Meets P src.hasNext r (Looked At rest) Err := by
  rcases hr with ⟨hopen, hahead, hat⟩ | ⟨x, tail, rfl, hholds⟩
  · refine meets_hasNext hopen (fun x hx => ?_) fun _ => (hfetch hat).mono ?_ fun _ _ he => he
    · rw [hahead] at hx
      cases hx
    · rintro (_ | x) b hrow
      · exact ⟨hrow.1, .inl ⟨rfl, rfl, hrow.2⟩⟩
      · obtain ⟨tail, hrest, htail⟩ := hrow
        exact ⟨x, tail, hrest, rfl, rfl, htail⟩
  · refine meets_hasNext hholds.1 (fun _ _ => ⟨x, tail, rfl, hholds⟩) fun hahead => ?_
    rw [hholds.2.1] at hahead
    cases hahead

/-- A source that fetches the rows that are left one after the other, and keeps its place when it fails. -/
structure Retries (src : Source β) (P : Database → Prop) (Free : Prop) (At : List Row → β → Prop) : Prop where
  fetch : ∀ {rest b}, At rest b → Tries P Free src.fetch b (Fetched At rest) (At rest)

namespace Retries

variable (h : src.Retries P Free At)

include h

theorem hasNext (hr : Stands At rest r) :
    Tries P Free src.hasNext r (Looked At rest) (Stands At rest) := by
  refine meets_hasNext_of_stands hr fun hat => Meets.mono_error (h.fetch hat) ?_
  exact fun _ _ he => ⟨he.1, he.2.1, .inl ⟨rfl, rfl, he.2.2⟩⟩

omit h in
/-- A row that was fetched ahead is handed out whatever happens. -/
theorem next_of_holds {Err : Running β → Prop} (hr : Holds At x rest r) :
    Tries P Free src.next r (fun y r' => y = x ∧ Stands At rest r') Err := by
  refine Meets.mono (meets_next_of_ahead hr.1 hr.2.1) ?_ fun _ _ he => he
  rintro _ _ ⟨rfl, rfl⟩
  exact ⟨rfl, .inl ⟨hr.1, rfl, hr.2.2⟩⟩

theorem next (hr : Stands At (x :: rest) r) :
    Tries P Free src.next r (fun y r' => y = x ∧ Stands At rest r') (Stands At (x :: rest)) := by
  refine meets_next (h.hasNext hr) ?_ ?_
  · rintro y r' ⟨z, tail, heq, hopen, hahead, hat⟩ hy
    rw [hahead] at hy
    cases hy
    cases heq
    exact ⟨rfl, .inl ⟨hopen, rfl, hat⟩⟩
  · rintro (_ | _) r' hlooked hnone
    · cases hlooked.1
    · obtain ⟨y, tail, -, -, hahead, -⟩ := hlooked
      rw [hnone rfl] at hahead
      cases hahead

/-- An operator that asks for a row gets the first one that is left, or comes to the end, or fails and has lost
nothing. -/
theorem take {α : Type} {k : Row → Step (Running β) α} {g : Step (Running β) α} {Ok : α → Running β → Prop}
    {Err : Running β → Prop} (hr : Stands At rest r)
    (hk : ∀ x tail r', rest = x :: tail → Stands At tail r' → Tries P Free (k x) r' Ok Err)
    (hg : ∀ r', rest = [] → Stands At [] r' → Tries P Free g r' Ok Err)
    (herr : ∀ r', Stands At rest r' → Err r') :
    Tries P Free (do if ← src.hasNext then let row ← src.next; k row else g) r Ok Err := by
  refine ((h.hasNext hr).mono_error herr).bind fun more r' hlooked => ?_
  cases more with
  | false => exact hg r' hlooked.1 hlooked.2
  | true =>
    obtain ⟨x, tail, hrest, hholds⟩ := hlooked
    refine (next_of_holds hholds).bind ?_
    rintro _ r'' ⟨rfl, hr''⟩
    exact hk _ tail r'' hrest hr''

/-- All rows that are left. -/
theorem collect (hfuel : Free → rest.length < fuel) (hr : Stands At rest r) :
    Tries P Free (src.collect fuel) r (fun rows r' => rows = rest ∧ Stands At [] r') fun _ => True := by
  induction fuel generalizing rest r with
  | zero => exact Action.tries_throw (fun hfree => absurd (hfuel hfree) (Nat.not_lt_zero _)) trivial
  | succ fuel ih =>
    refine h.take hr ?_ ?_ fun _ _ => trivial
    · rintro x tail r₁ rfl hr₁
      refine (ih (fun hfree => Nat.lt_of_succ_lt_succ (hfuel hfree)) hr₁).bind ?_
      rintro _ r₂ ⟨rfl, hr₂⟩
      exact Action.tries_pure ⟨rfl, hr₂⟩
    · rintro r₁ rfl hr₁
      exact Action.tries_pure ⟨rfl, hr₁⟩

end Retries

/-- A source that hands out the rows `xs` after it was opened for the first time and after every rewind, and keeps its
place when it fails. -/
structure Resumes (src : Source β) (P : Database → Prop) (Free : Prop) (fresh : β) (At : List Row → β → Prop)
    (xs : List Row) : Prop where
  start : Tries P Free src.openBody fresh (fun _ => At xs) fun _ => True
  reopen : ∀ {rest b}, At rest b → Tries P Free src.openBody (src.closeBody b) (fun _ => At xs) fun _ => True
  again : ∀ {rest b}, At rest b → Tries P Free src.rewindBody b (fun _ => At xs) fun _ => False
  retries : src.Retries P Free At

/-- An operator is opened as its body is. -/
theorem tries_open (h : Tries P Free src.openBody b (fun _ => At xs) fun _ => True) :
    Tries P Free src.open (Running.closed b) (fun _ => Stands At xs) fun _ => True :=
  meets_open (Meets.mono h (fun _ _ hb => .inl ⟨rfl, rfl, hb⟩) fun _ _ he => he)

/-- An open operator is rewound as its body is. -/
theorem tries_rewind {Err : β → Prop} (hopen : r.opened = true)
    (h : Tries P Free src.rewindBody r.body (fun _ => At xs) Err) :
    Tries P Free src.rewind r (fun _ => Stands At xs) fun r' => Err r'.body :=
  meets_rewind hopen (Meets.mono h (fun _ _ hb => .inl ⟨hopen, rfl, hb⟩) fun _ _ he => he)

/-- Wherever it stands, an operator is open and its body at some place. -/
theorem exists_at (hr : Stands At rest r) : r.opened = true ∧ ∃ rest', At rest' r.body := by
  rcases hr with ⟨hopen, -, hat⟩ | ⟨x, tail, -, hopen, -, hat⟩
  · exact ⟨hopen, _, hat⟩
  · exact ⟨hopen, _, hat⟩

namespace Resumes

variable {fresh : β} (h : src.Resumes P Free fresh At xs)

include h

theorem «open» : Tries P Free src.open (Running.closed fresh) (fun _ => Stands At xs) fun _ => True :=
  tries_open h.start

/-- An open operator is closed and opened again. -/
theorem open_close (hr : Stands At rest r) :
    Tries P Free src.open (src.close r) (fun _ => Stands At xs) fun _ => True := by
  obtain ⟨-, rest', hat⟩ := exists_at hr
  exact tries_open (h.reopen hat)

theorem rewind {Err : Running β → Prop} (hr : Stands At rest r) :
    Tries P Free src.rewind r (fun _ => Stands At xs) Err := by
  obtain ⟨hopen, rest', hat⟩ := exists_at hr
  exact (tries_rewind hopen (h.again hat)).mono_error fun _ h => h.elim

end Resumes

/-! ### Fixed rows and filters -/

theorem resumes_values (rows : List Row) {fresh : List Row} :
    (values rows).Resumes P Free fresh (fun rest b => b = rest) rows := by
  constructor
  · exact fun db hdb => ⟨.ok (), rows, db, rfl, hdb, rfl⟩
  · exact fun _ db hdb => ⟨.ok (), rows, db, rfl, hdb, rfl⟩
  · exact fun _ db hdb => ⟨.ok (), rows, db, rfl, hdb, rfl⟩
  · constructor
    rintro rest b rfl db hdb
    cases b with
    | nil => exact ⟨.ok none, [], db, rfl, hdb, rfl, rfl⟩
    | cons x rest => exact ⟨.ok (some x), rest, db, rfl, hdb, rest, rfl, rfl⟩

section Filter

variable {child : Source β} {fresh : β} {q : Predicate}

/-- The rows of a child from which the accepted ones `rest` are left. -/
def Sifts (At : List Row → β → Prop) (q : Predicate) (xs rest : List Row) (r : Running β) : Prop :=
  ∃ rows, rows.length ≤ xs.length ∧ rows.filter q.accepts = rest ∧ Stands At rows r

/-- The search for an accepted row keeps its place among these when it fails. -/
theorem Retries.fetchAccepted (h : child.Retries P Free At) (hfuel : Free → rest.length < fuel)
    (hlen : rest.length ≤ xs.length) (hr : Stands At rest r) :
    Tries P Free (Source.fetchAccepted q child fuel) r (Fetched (Sifts At q xs) (rest.filter q.accepts))
      (Sifts At q xs (rest.filter q.accepts)) := by
  -- on the fuel: the rows that were passed over are lost to the child, but not to the filter
  induction fuel generalizing rest r with
  | zero =>
    exact Action.tries_throw (fun hfree => absurd (hfuel hfree) (Nat.not_lt_zero _)) ⟨rest, hlen, rfl, hr⟩
  | succ fuel ih =>
    refine h.take hr ?_ ?_ fun r₁ hr₁ => ⟨rest, hlen, rfl, hr₁⟩
    · rintro x tail r₁ rfl hr₁
      have hlen' : tail.length ≤ xs.length := Nat.le_of_succ_le hlen
      rw [List.filter_cons]
      by_cases hx : q.accepts x = true
      · rw [if_pos hx, if_pos hx]
        exact Action.tries_pure ⟨_, rfl, tail, hlen', rfl, hr₁⟩
      · rw [if_neg hx, if_neg hx]
        exact ih (fun hfree => Nat.lt_of_succ_lt_succ (hfuel hfree)) hlen' hr₁
    · rintro r₁ rfl hr₁
      exact Action.tries_pure ⟨rfl, [], Nat.zero_le _, rfl, hr₁⟩

/-- A filter keeps its place when its child does. -/
theorem Resumes.filter (h : child.Resumes P Free fresh At xs) (hfuel : Free → xs.length < fuel) (q : Predicate) :
    (child.filter fuel q).Resumes P Free (Running.closed fresh) (Sifts At q xs) (xs.filter q.accepts) := by
  constructor
  · exact h.open.mono (fun _ r hr => ⟨xs, Nat.le_refl _, rfl, hr⟩) fun _ h => h
  · rintro rest r ⟨rows, -, -, hr⟩
    exact (h.open_close hr).mono (fun _ r' hr' => ⟨xs, Nat.le_refl _, rfl, hr'⟩) fun _ h => h
  · rintro rest r ⟨rows, -, -, hr⟩
    exact (h.rewind hr).mono (fun _ r' hr' => ⟨xs, Nat.le_refl _, rfl, hr'⟩) fun _ h => h
  · constructor
    rintro rest r ⟨rows, hlen, rfl, hr⟩
    exact h.retries.fetchAccepted (fun hfree => Nat.lt_of_le_of_lt hlen (hfuel hfree)) hlen hr

end Filter

end Source

/-! ### Contents that callers share -/

namespace PoolCall

/-- Whether a call leaves all rows alone. -/
def Quiet : PoolCall → Prop
  | cache (.getPage _) | cache .flush | cache (.flushPages _) | keep _ | release _ => True
  | cache (.insert ..) | cache (.delete ..) | discard _ => False

instance : DecidablePred Quiet
  | cache (.getPage _) | cache .flush | cache (.flushPages _) | keep _ | release _ => isTrue trivial
  | cache (.insert ..) | cache (.delete ..) | discard _ => isFalse id

theorem Quiet.proper {call : PoolCall} (h : call.Quiet) : call.Proper := by
  cases call with
  | cache call =>
    cases call with
    | insert txn table row => exact h.elim
    | delete txn row => trivial
    | _ => trivial
  | _ => trivial

end PoolCall

/-- A quiet call changes no rows, except that long texts may be cut. -/
theorem Pool.cutTo_step {pool : Pool} (h : pool.Sound n c) {call : PoolCall} (hcall : call.Quiet) :
    pool.db.store.CutTo (pool.step call).db.store := by
  cases call with
  | cache call =>
    cases call with
    | getPage page =>
      obtain ⟨r, db, hget, -, -, hcuts, -⟩ := h.sound.getPage page
      simp only [step, CacheCall.run, Fallible.outcome_map, hget]
      cases r with
      | error e => exact hcuts.store h.sound.proper
      | ok b => exact hcuts.store h.sound.proper
    | flush =>
      obtain ⟨db, hflush, -, -, hstore⟩ := h.sound.flush
      simp only [step, CacheCall.run, Fallible.outcome_map, hflush, Fallible.follow_ok, hstore]
      exact Store.CutTo.refl _
    | flushPages txn =>
      obtain ⟨db, hflush, -, -, hstore⟩ := h.sound.flushPages txn
      simp only [step, CacheCall.run, Fallible.outcome_map, hflush, Fallible.follow_ok, hstore]
      exact Store.CutTo.refl _
    | insert txn table row => exact hcall.elim
    | delete txn row => exact hcall.elim
  | keep page =>
    obtain ⟨r, db, hget, hsound, -, hcuts, -⟩ := h.sound.getPage page
    have hcached := @Database.buffer?_of_getPage pool.db page
    simp only [step, hget] at hcached ⊢
    cases r with
    | error e => exact hcuts.store h.sound.proper
    | ok b =>
      have hb : db.cache.buffer? (⟨page, b.serial⟩ : Handle).page = some b := hcached h.sound.coherent rfl
      obtain ⟨-, -, hstore⟩ := hsound.hold hb rfl
      rw [hstore]
      exact hcuts.store h.sound.proper
  | release hd =>
    simp only [step]
    split
    · next hmem =>
      obtain ⟨b, hb, hserial⟩ := h.tended.kept hmem
      obtain ⟨-, -, hstore⟩ := h.sound.release hb hserial
      rw [hstore]
      exact Store.CutTo.refl _
    · exact Store.CutTo.refl _
  | discard page => exact hcall.elim

/-- Who holds a buffer is of no concern to the shared aggregates. -/
theorem Database.running_modifyBuffer (db : Database) (hd : Handle) (change : Buffer → Buffer) :
    (db.modifyBuffer hd change).running = db.running := by
  simp only [Database.modifyBuffer]
  repeat' split
  all_goals rfl

/-- A quiet call leaves the shared aggregates as they are. -/
theorem Pool.running_step {pool : Pool} (h : pool.Sound n c) {call : PoolCall} (hcall : call.Quiet) :
    (pool.step call).db.running = pool.db.running := by
  cases call with
  | cache call =>
    cases call with
    | getPage page =>
      obtain ⟨r, db, hget, -, hkeeps, -⟩ := h.sound.getPage page
      simp only [step, CacheCall.run, Fallible.snd_outcome_map, hget, hkeeps.running]
    | flush =>
      obtain ⟨db, hflush, -, hkeeps, -⟩ := h.sound.flush
      simp only [step, CacheCall.run, Fallible.snd_outcome_map, hflush, hkeeps.running]
    | flushPages txn =>
      obtain ⟨db, hflush, -, hkeeps, -⟩ := h.sound.flushPages txn
      simp only [step, CacheCall.run, Fallible.snd_outcome_map, hflush, hkeeps.running]
    | insert txn table row => exact hcall.elim
    | delete txn row => exact hcall.elim
  | keep page =>
    obtain ⟨r, db, hget, -, hkeeps, -⟩ := h.sound.getPage page
    simp only [step, hget]
    cases r with
    | error e => exact hkeeps.running
    | ok b => exact (Database.running_modifyBuffer db _ _).trans hkeeps.running
  | release hd =>
    simp only [step]
    split
    · exact Database.running_modifyBuffer pool.db hd _
    · rfl
  | discard page => exact hcall.elim

namespace Database

/-- The contents are `s`, but for long texts that may be cut, while callers hold the buffers `held`. -/
structure Shared (n : Nat) (c : Catalog) (s : Store) (held : List Handle) (db : Database) : Prop where
  pool : Pool.Sound n c ⟨db, held⟩
  store : s.CutTo db.store

/-- Whatever callers have come to, the contents are what they are. -/
theorem shared_of_sound {pool : Pool} (h : pool.Sound n c) : Shared n c pool.db.store pool.held pool.db :=
  ⟨h, Store.CutTo.refl _⟩

namespace Shared

theorem registered (h : Shared n c s held db) (hf : c.file f.id = .ok f) : db.catalog.file f.id = .ok f := by
  have hcatalog : db.catalog = c := h.pool.catalog
  rw [hcatalog]
  exact hf

theorem store_eq (h : Shared n c s held db) {id : TableId} (hfits : ∀ page ∈ s id, Fits page) :
    db.store id = s id :=
  (h.store id).eq_of_fits hfits

/-- Contents that are within the limit stay within it, for they are the same. -/
theorem each_fits (h : Shared n c s held db) (hfits : s.Each Fits) : db.store = s ∧ db.store.Each Fits := by
  have hstore : db.store = s := h.store.eq_of_fits hfits
  refine ⟨hstore, ?_⟩
  rw [hstore]
  exact hfits

theorem pageCount_eq (h : Shared n c s held db) (hf : c.file f.id = .ok f) (hfits : ∀ page ∈ s f.id, Fits page) :
    f.pageCount db.disk = (s f.id).length := by
  rw [← h.store_eq hfits, length_store (h.registered hf)]

/-- Callers that change no rows leave the contents as they are. -/
theorem step {pool : Pool} (h : Shared n c s pool.held pool.db) {call : PoolCall} (hcall : call.Quiet) :
    Shared n c s (pool.step call).held (pool.step call).db :=
  ⟨(Pool.sound_step h.pool hcall.proper).1, h.store.trans (Pool.cutTo_step h.pool hcall)⟩

/-- A page that is asked for has the rows that the contents tell, or callers are in the way, or it cannot be read. -/
theorem getPage (h : Shared n c s held db) (hf : c.file f.id = .ok f) (hfits : ∀ page ∈ s f.id, Fits page) {k : Nat}
    {page : Except StorageError Cells} (hpage : (s f.id)[k]? = some page) (schema : Schema) :
    ∃ r db', (Database.getPage ⟨f.id, k⟩).outcome db = (r, db') ∧ Shared n c s held db'
      ∧ match r with
        | .ok b => page.map (TableContents.pageRows schema ⟨f.id, k⟩) = .ok (b.page.rows.map (·.withSchema schema))
        | .error _ => n = 0 ∨ held ≠ [] ∨ ∃ e, page = .error e := by
  have hsound : db.Sound := h.pool.sound
  have hcatalog : db.catalog = c := h.pool.catalog
  have hstore : db.store.page db.catalog ⟨f.id, k⟩ = page := by
    rw [hcatalog, Store.page, hf, h.store_eq hfits, hpage]
  obtain ⟨r, db', hget, hsound', hkeeps, hcuts, hanswer⟩ := hsound.getPage ⟨f.id, k⟩
  have hspares := spares_getPage hsound.coherent ⟨f.id, k⟩
  rw [hget] at hspares
  refine ⟨r, db', hget, ⟨⟨h.pool.tended.of_spares hspares, hsound', hkeeps.catalog.trans hcatalog⟩,
    h.store.trans (hcuts.store hsound.proper)⟩, ?_⟩
  cases hanswer with
  | @found b hb hcells =>
    rw [hstore] at hcells
    rw [hcells]
    exact congrArg Except.ok (hsound'.map_rows_of_buffer? hb schema).symm
  | @refused e he =>
    rw [hstore] at he
    exact .inr (.inr ⟨e, he⟩)
  | full hfull => exact (h.pool.tended.of_full hfull).imp_right .inl

end Shared

end Database

open Database (Shared)
open TableContents (pageRows rowsFrom)

/-! ### Scans -/

namespace HeapCursor

variable {b : HeapCursor} {rest : List Row}

/-- A place depends on the scanned table only. -/
theorem at_congr {t : Store} (h : t f.id = s f.id) : At t f schema = At s f schema := by
  funext rest b
  exact propext ⟨fun hb => ⟨hb.opened, h ▸ hb.rows, h ▸ hb.fault⟩, fun hb => ⟨hb.opened, h ▸ hb.rows, h ▸ hb.fault⟩⟩

/-- The search for a page with rows keeps its place when a page is refused. -/
theorem tries_search (hf : c.file f.id = .ok f) (husable : (s f.id).Usable)
    (hfree : Free → 0 < n ∧ held = [] ∧ (s f.id).length < fuel) (hb : At s f schema rest b) :
    Tries (Shared n c s held) Free ((search f fuel).wrapError .storage) b
      (fun more b' => At s f schema rest b' ∧ fuel ≠ 0
        ∧ if more then b'.pending ≠ [] else b'.pending = [] ∧ (s f.id).length ≤ b'.nextPage)
      (At s f schema rest) := by
  have hfits : ∀ page ∈ s f.id, Fits page := fun page hpage => (husable.2 page hpage).2
  refine meets_search (fun db hdb => hdb.pageCount_eq hf hfits) ?_ ?_ hb
  · intro b db hb hdb hpending hlt
    have hpage := List.getElem?_eq_getElem hlt
    obtain ⟨cells, hcells⟩ := (husable.2 _ (List.mem_of_getElem? hpage)).1
    obtain ⟨r, db', hget, hdb', hr⟩ := hdb.getPage hf hfits hpage schema
    rw [hcells] at hr hpage
    refine ⟨r, db', hget, hdb', ?_, ?_⟩
    · rintro buffer rfl
      exact hb.load hpending hpage (Except.ok.inj hr).symm
    · rintro e rfl
      refine ⟨fun h => ?_, ⟨e, rfl⟩, hb⟩
      obtain ⟨hn, hheld, -⟩ := hfree h
      rcases hr with hzero | hne | ⟨e', he'⟩
      · omega
      · exact hne hheld
      · cases he'
  · exact fun hle b' hb' => ⟨fun h => by have := (hfree h).2.2; omega, ⟨_, rfl⟩, hb'⟩

/-- A table with pages is opened at its first row. -/
theorem tries_start {Err : HeapCursor → Prop} (hf : c.file f.id = .ok f) (husable : (s f.id).Usable) :
    Tries (Shared n c s held) Free ((start f).wrapError .storage) closed
      (fun _ => At s f schema (Source.scanRows s f schema)) Err := by
  intro db hdb
  have hcount : f.pageCount db.disk ≠ 0 := by
    rw [hdb.pageCount_eq hf fun page hpage => (husable.2 page hpage).2]
    exact fun h => husable.1 (List.length_eq_zero_iff.mp h)
  refine ⟨.ok (), ⟨true, 0, []⟩, db, ?_, hdb, at_start⟩
  rw [Action.outcome_wrapError, outcome_start rfl, if_neg hcount]
  rfl

end HeapCursor

/-- A scan keeps its place when a page is refused. -/
theorem Source.resumes_scan (hf : c.file f.id = .ok f) (husable : (s f.id).Usable)
    (hfree : Free → 0 < n ∧ held = [] ∧ (s f.id).length < fuel) :
    (scan fuel f schema).Resumes (Shared n c s held) Free HeapCursor.closed (HeapCursor.At s f schema)
      (scanRows s f schema) := by
  constructor
  · exact HeapCursor.tries_start hf husable
  · exact fun _ => HeapCursor.tries_start hf husable
  · intro rest b hb db hdb
    show ∃ r t' db', ((HeapCursor.rewind f).wrapError ExecError.storage).outcome (b, db) = _ ∧ _
    rw [Action.outcome_wrapError, HeapCursor.outcome_rewind hb.opened, ← Action.outcome_wrapError]
    exact HeapCursor.tries_start hf husable db hdb
  · constructor
    intro rest b hb
    refine HeapCursor.meets_take hb.opened (HeapCursor.tries_search hf husable hfree hb) (fun _ hb' => hb'.opened) ?_ ?_
    · intro row tail b' hb' hpending
      have hrows := hb'.rows
      rw [hpending, List.map_cons, List.cons_append] at hrows
      exact Action.tries_pure ⟨_, hrows.symm, hb'.opened, rfl, hb'.fault⟩
    · rintro b' hb' ⟨hpending, hend⟩
      obtain ⟨rfl, -⟩ := hb'.of_length_le hpending hend
      exact Action.tries_pure ⟨rfl, hb'⟩

/-! ### Trees -/

namespace Plan

variable {p : Plan}

/-- Scans, fixed rows, and filters of them. -/
def Plain : Plan → Prop
  | scan .. | values .. => True
  | filter _ child => child.Plain
  | _ => False

/-- How far the loops of a plan go: over pages, over the rows of a child, or over the pairs of two. -/
def span (s : Store) : Plan → Nat
  | scan _ file _ => (s file.id).length
  | filter _ child => max (child.span s) (child.meaning s).length
  | join _ _ left right =>
    max (max (left.span s) (right.span s)) ((pairs (left.meaning s) (right.meaning s)).length + 1)
  | _ => 0

/-- Such a plan over usable tables hands out its rows, and keeps its place when it fails.  Where it stands depends on
neither the callers nor the fuel, nor on what other tables have become. -/
theorem Plain.resumes (hp : p.Plain) (hreads : p.Reads c) (htables : ∀ id ∈ p.tables, (s id).Usable) :
    ∃ At : List Row → p.Body → Prop, ∀ {fuel : Nat}, p.span s < fuel → ∀ {n held} {Free : Prop},
      (Free → 0 < n ∧ held = []) → ∀ {t : Store}, (∀ id ∈ p.tables, t id = s id) →
      (p.source fuel).Resumes (Shared n c t held) Free p.fresh At (p.meaning s) := by
  induction p with
  | scan target f schema =>
    refine ⟨HeapCursor.At s f schema, fun {fuel} hfuel => fun {n held Free} hfree => fun {t} hsame => ?_⟩
    have htable : t f.id = s f.id := hsame f.id List.mem_cons_self
    have hscan : (Source.scan fuel f schema).Resumes (Shared n c t held) Free HeapCursor.closed
        (HeapCursor.At t f schema) (Source.scanRows t f schema) := by
      refine Source.resumes_scan hreads ?_ fun h => ⟨(hfree h).1, (hfree h).2, ?_⟩
      · rw [htable]
        exact htables f.id List.mem_cons_self
      · rw [htable]
        exact hfuel
    rw [HeapCursor.at_congr htable, Source.scanRows, htable] at hscan
    exact hscan
  | values schema rows => exact ⟨fun rest b => b = rest, fun _ => fun _ => fun _ => Source.resumes_values rows⟩
  | filter q child ih =>
    obtain ⟨At, hchild⟩ := ih hp hreads htables
    refine ⟨Source.Sifts At q (child.meaning s), fun hfuel => fun hfree => fun hsame => ?_⟩
    rw [span] at hfuel
    exact (hchild (by omega) hfree hsame).filter (fun _ => by omega) q
  | project fields schema child => exact hp.elim
  | join q schema left right => exact hp.elim
  | insert txn table schema child => exact hp.elim
  | delete txn child => exact hp.elim
  | aggregate spec schema child => exact hp.elim
  | groups number spec => exact hp.elim

end Plan

end RelStore
