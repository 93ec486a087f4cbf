/-
What a step may answer, and how it may fail.

* `Action.Meets` — a step answers, or fails, and what then holds of its answer or error and of the state that it leaves;
* `Action.Meets.bind` and its like — one rule for each way to put steps together;
* `Source.meets_open`, `Source.meets_hasNext`, `Source.meets_next`, `Source.meets_rewind` — what the protocol makes of what
  a source does;
* `HeapCursor.meets_search`, `HeapCursor.meets_take` — a cursor looks for a row page by page, and a scan takes it.

Design notes.  All of what is said here is said of every database with some property, which is kept.  What a page has
in it is left to those who know the contents: the search goes by an invariant that survives the loading of a page.
-/
import RelStore.Proofs.Query.Reading

namespace RelStore

variable {P : Database → Prop}

namespace Action

variable {σ τ α β : Type} {a : Step σ α} {g : α → Step σ β} {t : σ} {x : α} {e : ExecError} {Ok Mid : α → σ → Prop}
  {Err : ExecError → σ → Prop}

/-- From state `t` and any database with `P` the step answers as `Ok` tells, or fails as `Err` tells.  Either way the
database has `P` again. -/
def Meets (P : Database → Prop) (a : Step σ α) (t : σ) (Ok : α → σ → Prop) (Err : ExecError → σ → Prop) : Prop :=
  ∀ db, P db → ∃ r t' db', a.outcome (t, db) = (r, t', db') ∧ P db'
    ∧ match r with
      | .ok x => Ok x t'
      | .error e => Err e t'

theorem Meets.mono {Ok' : α → σ → Prop} {Err' : ExecError → σ → Prop} (h : Meets P a t Ok Err)
    (hok : ∀ x t', Ok x t' → Ok' x t') (herr : ∀ e t', Err e t' → Err' e t') : Meets P a t Ok' Err' := by
  intro db hdb
  obtain ⟨e | x, t', db', hout, hdb', hr⟩ := h db hdb
  · exact ⟨.error e, t', db', hout, hdb', herr e t' hr⟩
  · exact ⟨.ok x, t', db', hout, hdb', hok x t' hr⟩

theorem Meets.mono_error {Err' : ExecError → σ → Prop} (h : Meets P a t Ok Err)
    (herr : ∀ e t', Err e t' → Err' e t') : Meets P a t Ok Err' :=
  h.mono (fun _ _ hok => hok) herr

theorem Meets.bind {Ok : β → σ → Prop} (ha : Meets P a t Mid Err)
    (hg : ∀ x t', Mid x t' → Meets P (g x) t' Ok Err) : Meets P (a >>= g) t Ok Err := by
  intro db hdb
  rw [Fallible.outcome_bind]
  obtain ⟨e | x, t', db', hout, hdb', hr⟩ := ha db hdb
  · exact ⟨.error e, t', db', by rw [hout, Fallible.follow_error], hdb', hr⟩
  · rw [hout, Fallible.follow_ok]
    exact hg x t' hr db' hdb'

theorem meets_pure (h : Ok x t) : Meets P (pure x : Step σ α) t Ok Err :=
  fun db hdb => ⟨.ok x, t, db, rfl, hdb, h⟩

theorem meets_state : Meets P (state : Step σ σ) t (fun u t' => u = t ∧ t' = t) Err :=
  fun db hdb => ⟨.ok t, t, db, rfl, hdb, rfl, rfl⟩

theorem meets_update {Ok : Unit → σ → Prop} {change : σ → σ} (h : Ok () (change t)) :
    Meets P (update change : Step σ Unit) t Ok Err :=
  fun db hdb => ⟨.ok (), change t, db, rfl, hdb, h⟩

theorem meets_throw (h : Err e t) : Meets P (throw e : Step σ α) t Ok Err :=
  fun db hdb => ⟨.error e, t, db, rfl, hdb, h⟩

/-- A step on a part of the state. -/
theorem Meets.on {part : σ → τ} {put : σ → τ → σ} {a : Step τ α} {Ok' : α → τ → Prop} {Err' : ExecError → τ → Prop}
    (ha : Meets P a (part t) Ok' Err') (hok : ∀ x u, Ok' x u → Ok x (put t u))
    (herr : ∀ e u, Err' e u → Err e (put t u)) : Meets P (on part put a) t Ok Err := by
  intro db hdb
  rw [outcome_on]
  obtain ⟨e | x, u, db', hout, hdb', hr⟩ := ha db hdb
  · exact ⟨.error e, put t u, db', by rw [hout], hdb', herr e u hr⟩
  · exact ⟨.ok x, put t u, db', by rw [hout], hdb', hok x u hr⟩

/-- A step that always answers. -/
theorem Meets.of_gives {Q : σ → Prop} (h : Gives P a t (.ok x) Q) :
    Meets P a t (fun y t' => y = x ∧ Q t') Err := by
  intro db hdb
  obtain ⟨t', db', hout, hdb', ht'⟩ := h db hdb
  exact ⟨.ok x, t', db', hout, hdb', rfl, ht'⟩

end Action

open RelStore.Action (Meets)

/-! ### The protocol -/

namespace Source

variable {β : Type} {src : Source β} {r : Running β} {x : Row} {Ok : Unit → Running β → Prop}
  {More : Bool → Running β → Prop} {Taken : Row → Running β → Prop} {Err : ExecError → Running β → Prop}

/-- An open operator is closed first. -/
theorem meets_open
    (h : Meets P src.openBody (if r.opened = true then src.close r else r).body (fun _ b => Ok () ⟨true, none, b⟩)
      fun e b => Err e { (if r.opened = true then src.close r else r) with body := b }) :
    Meets P src.open r Ok Err := by
  intro db hdb
  rw [outcome_open, outcome_inBody]
  obtain ⟨e | _, b, db', hout, hdb', hb⟩ := h db hdb
  · rw [hout]
    exact ⟨_, _, _, rfl, hdb', hb⟩
  · rw [hout]
    exact ⟨_, _, _, rfl, hdb', hb⟩

/-- A row that was fetched before is there; otherwise one is fetched. -/
theorem meets_hasNext (hopen : r.opened = true) (hahead : ∀ x, r.ahead = some x → More true r)
    (hfetch : r.ahead = none →
      Meets P src.fetch r.body (fun row b => More row.isSome ⟨true, row, b⟩) fun e b => Err e ⟨true, none, b⟩) :
    Meets P src.hasNext r More Err := by
  obtain ⟨opened, ahead, body⟩ := r
  cases hopen
  intro db hdb
  rw [outcome_hasNext, if_pos rfl]
  cases ahead with
  | some x => exact ⟨_, _, _, rfl, hdb, hahead x rfl⟩
  | none =>
    rw [outcome_inBody]
    obtain ⟨e | row, b, db', hout, hdb', hb⟩ := hfetch rfl db hdb
    · rw [hout]
      exact ⟨_, _, _, rfl, hdb', hb⟩
    · rw [hout]
      exact ⟨_, _, _, rfl, hdb', hb⟩

/-- A row is taken by looking for it, and it may turn out that there is none. -/
theorem meets_next (h : Meets P src.hasNext r More Err)
    (hrow : ∀ x r', More true r' → r'.ahead = some x → Taken x { r' with ahead := none })
    (hnone : ∀ more r', More more r' → (more = true → r'.ahead = none) → Err .noMoreRows r') :
    Meets P src.next r Taken Err := by
  intro db hdb
  rw [outcome_next]
  obtain ⟨e | _ | _, r', db', hout, hdb', hmore⟩ := h db hdb
  · rw [hout]
    exact ⟨_, _, _, rfl, hdb', hmore⟩
  · rw [hout]
    exact ⟨_, _, _, rfl, hdb', hnone false r' hmore nofun⟩
  · rw [hout, Fallible.follow_ok]
    cases hahead : r'.ahead with
    | none => exact ⟨_, _, _, rfl, hdb', hnone true r' hmore fun _ => hahead⟩
    | some x => exact ⟨_, _, _, rfl, hdb', hrow x r' hmore hahead⟩

/-- A row that was fetched ahead is handed out, and nothing else happens. -/
theorem outcome_next_of_ahead (hopen : r.opened = true) (hahead : r.ahead = some x) (db : Database) :
    src.next.outcome (r, db) = (.ok x, { r with ahead := none }, db) := by
  rw [outcome_next, outcome_hasNext, if_pos hopen, hahead]
  simp only [Fallible.follow_ok, hahead]

theorem meets_next_of_ahead (hopen : r.opened = true) (hahead : r.ahead = some x) :
    Meets P src.next r (fun y r' => y = x ∧ r' = { r with ahead := none }) Err :=
  fun db hdb => ⟨_, _, _, outcome_next_of_ahead hopen hahead db, hdb, rfl, rfl⟩

theorem meets_rewind (hopen : r.opened = true)
    (h : Meets P src.rewindBody r.body (fun _ b => Ok () { r with ahead := none, body := b })
      fun e b => Err e { r with body := b }) :
    Meets P src.rewind r Ok Err := by
  intro db hdb
  rw [outcome_rewind, if_pos hopen, outcome_inBody]
  obtain ⟨e | _, b, db', hout, hdb', hb⟩ := h db hdb
  · rw [hout]
    exact ⟨_, _, _, rfl, hdb', hb⟩
  · rw [hout]
    exact ⟨_, _, _, rfl, hdb', hb⟩

end Source

/-! ### Cursors -/

namespace HeapCursor

variable {f : HeapFile} {fuel count : Nat} {b : HeapCursor} {Inv End : HeapCursor → Prop}
  {Err : ExecError → HeapCursor → Prop}

/-- A search loads pages until there is a row, or there is no page any more. -/
theorem meets_search (hcount : ∀ db, P db → f.pageCount db.disk = count)
    (hload : ∀ b db, Inv b → P db → b.pending = [] → b.nextPage < count →
      ∃ r db', (Database.getPage ⟨f.id, b.nextPage⟩).outcome db = (r, db') ∧ P db'
        ∧ (∀ buffer, r = .ok buffer → Inv ⟨b.opened, b.nextPage + 1, buffer.page.rows⟩)
        ∧ ∀ e, r = .error e → Err (.storage e) b)
    (hspent : fuel ≤ count - b.nextPage → ∀ b', Inv b' → Err (.storage .outOfFuel) b') (hb : Inv b) :
    Meets P ((search f fuel).wrapError .storage) b
      (fun more b' => Inv b' ∧ fuel ≠ 0
        ∧ if more then b'.pending ≠ [] else b'.pending = [] ∧ count ≤ b'.nextPage) Err := by
  -- on the fuel; a page that is loaded moves the cursor towards the end
  induction fuel generalizing b with
  | zero => exact Action.meets_throw (hspent (Nat.zero_le _) b hb)
  | succ fuel ih =>
    intro db hdb
    rw [Action.outcome_wrapError, outcome_search, hcount db hdb]
    by_cases hpending : b.pending ≠ []
    · rw [if_pos hpending]
      exact ⟨_, _, _, rfl, hdb, hb, Nat.succ_ne_zero _, hpending⟩
    · rw [if_neg hpending]
      have hnil : b.pending = [] := Decidable.not_not.mp hpending
      by_cases hend : count ≤ b.nextPage
      · rw [if_pos hend]
        exact ⟨_, _, _, rfl, hdb, hb, Nat.succ_ne_zero _, hnil, hend⟩
      · rw [if_neg hend]
        obtain ⟨e | buffer, db', hget, hdb', hrows, hrefused⟩ := hload b db hb hdb hnil (Nat.not_le.mp hend)
        · rw [hget]
          exact ⟨_, _, _, rfl, hdb', hrefused e rfl⟩
        · rw [hget]
          obtain ⟨r, b', db'', hout, hdb'', hanswer⟩ := ih (b := ⟨b.opened, b.nextPage + 1, buffer.page.rows⟩)
            (fun h => hspent (by dsimp only at h; omega)) (hrows buffer rfl) db' hdb'
          refine ⟨r, b', db'', hout, hdb'', ?_⟩
          cases r with
          | error e => exact hanswer
          | ok more => exact ⟨hanswer.1, Nat.succ_ne_zero _, hanswer.2.2⟩

/-- A scan looks for a row and takes it, or comes to the end. -/
theorem meets_take {α : Type} {k : Row → Step HeapCursor α} {g : Step HeapCursor α} {Ok : α → HeapCursor → Prop}
    (hopen : b.opened = true)
    (hsearch : Meets P ((search f fuel).wrapError .storage) b
      (fun more b' => Inv b' ∧ fuel ≠ 0 ∧ if more then b'.pending ≠ [] else End b') Err)
    (hopened : ∀ b', Inv b' → b'.opened = true)
    (hk : ∀ row tail b', Inv b' → b'.pending = row :: tail → Meets P (k row) { b' with pending := tail } Ok Err)
    (hg : ∀ b', Inv b' → End b' → Meets P g b' Ok Err) :
    Meets P (do
      if ← (hasNext f fuel).wrapError .storage then
        let row ← (next f fuel).wrapError .storage
        k row
      else g) b Ok Err := by
  have hmore : Meets P ((hasNext f fuel).wrapError .storage) b
      (fun more b' => Inv b' ∧ fuel ≠ 0 ∧ if more then b'.pending ≠ [] else End b') Err := by
    intro db hdb
    rw [Action.outcome_wrapError, outcome_hasNext hopen, ← Action.outcome_wrapError]
    exact hsearch db hdb
  refine hmore.bind ?_
  rintro (_ | _) b' ⟨hb', hfuel, hanswer⟩
  · exact hg b' hb' hanswer
  · obtain ⟨fuel, rfl⟩ : ∃ k, fuel = k + 1 := ⟨fuel - 1, by omega⟩
    obtain ⟨row, tail, hpending⟩ := List.exists_cons_of_ne_nil hanswer
    have hnext : Action.Gives P ((next f (fuel + 1)).wrapError ExecError.storage) b' (.ok row) _ :=
      (gives_next (hopened b' hb') hpending).wrapError ExecError.storage
    refine (Meets.of_gives hnext).bind ?_
    rintro _ _ ⟨rfl, rfl⟩
    exact hk _ tail b' hb' hpending

end HeapCursor

end RelStore
