/-
Filtered scans of a table that may change between two rows.

* `HeapCursor.left` — what a cursor has still to hand out: the rows that are pending, and those on the pages from its
  place on, as they are now;
* `HeapCursor.Settled` — the pending rows are those of the page right behind the cursor;
* `HeapCursor.Peeled` — one fetch: rows are passed over until one is accepted;
* `Source.Peels` — a source that does nothing but this;
* `Source.peels_scan`, `Source.Peels.filter`, `Plan.peels_sifted` — a scan is one, so is a filter of one, and so are all
  filters over a scan;
* `Source.Peels.take` — an operator that asks such a source for a row;
* `Plan.meaning_sifted` — the meaning of filters over a scan.

Design notes.  Between two rows nothing is fetched ahead, so the state of all these operators is that of the cursor
below them: `embed` puts a cursor into it.  As a copy of a page is never looked at again, a change of the pages behind
the cursor does not show (`HeapCursor.left_congr`).
-/
import RelStore.Proofs.Query.Retrying

namespace RelStore

open Page (Cells)
open RelStore.Action (Tries Meets Gives)
open Database (Steady)
open TableContents (pageRows rowsFrom)

variable {c : Catalog} {s : Store} {f : HeapFile} {schema : Schema} {fuel : Nat} {Free : Prop}
  {accepts : List Field → Bool}

/-- Whether fields pass. -/
def Predicate.admits (p : Predicate) (fields : List Field) : Bool :=
  match fields[p.field]? with
  | some f => f.satisfies p.comparison p.operand
  | none => false

theorem Predicate.accepts_eq (p : Predicate) (r : Row) : p.accepts r = p.admits r.fields := rfl

namespace TableContents

/-- The rows on a page stand on it. -/
theorem record_of_mem_pageRows {page : PageId} {cells : Cells} {row : Row} (h : row ∈ pageRows schema page cells) :
    ∃ slot, row.record = some ⟨page, slot⟩ := by
  obtain ⟨⟨cell, slot⟩, -, hfields⟩ := List.mem_filterMap.mp h
  obtain ⟨fields, -, rfl⟩ := Option.map_eq_some_iff.mp hfields
  exact ⟨slot, rfl⟩

end TableContents

namespace HeapCursor

variable {b b' b₁ : HeapCursor} {pages pages' : TableContents} {x : Row}

/-- What a cursor has still to hand out under `schema`, if the table has the given pages from now on. -/
def left (f : HeapFile) (schema : Schema) (pages : TableContents) (b : HeapCursor) : List Row :=
  b.pending.map (·.withSchema schema) ++ rowsFrom schema f.id b.nextPage (pages.drop b.nextPage)

/-- Pages behind the cursor do not matter. -/
theorem left_congr (h : pages'.drop b.nextPage = pages.drop b.nextPage) :
    left f schema pages' b = left f schema pages b := by
  rw [left, left, h]

/-- Those of them that are accepted. -/
def accepted (f : HeapFile) (schema : Schema) (accepts : List Field → Bool) (pages : TableContents) (b : HeapCursor) :
    List Row :=
  (left f schema pages b).filter (accepts ·.fields)

/-- A cursor at the first page. -/
def first : HeapCursor :=
  ⟨true, 0, []⟩

theorem left_first : left f schema pages first = rowsFrom schema f.id 0 pages := rfl

/-- The row stands on the page right behind the cursor. -/
def Behind (f : HeapFile) (b : HeapCursor) (row : Row) : Prop :=
  ∃ n slot, row.record = some ⟨⟨f.id, n⟩, slot⟩ ∧ n + 1 = b.nextPage

/-- An open cursor whose pending rows are those of the page right behind it. -/
structure Settled (f : HeapFile) (b : HeapCursor) : Prop where
  opened : b.opened = true
  behind : ∀ row ∈ b.pending, Behind f b row

theorem settled_first : Settled f first :=
  ⟨rfl, fun _ h => absurd h List.not_mem_nil⟩

/-- A page that was loaded has the first of the rows that are left. -/
theorem left_load (hpending : b.pending = []) {cells : Cells} (hpage : pages[b.nextPage]? = some (.ok cells))
    {rows : List Row} (hrows : rows.map (·.withSchema schema) = pageRows schema ⟨f.id, b.nextPage⟩ cells) :
    left f schema pages ⟨b.opened, b.nextPage + 1, rows⟩ = left f schema pages b := by
  have hdrop := List.drop_eq_getElem?_toList_append (l := pages) (i := b.nextPage)
  rw [hpage] at hdrop
  rw [left, left, hrows, hpending, hdrop]
  rfl

theorem Settled.load (h : Settled f b) {cells : Cells} {rows : List Row}
    (hrows : rows.map (·.withSchema schema) = pageRows schema ⟨f.id, b.nextPage⟩ cells) :
    Settled f ⟨b.opened, b.nextPage + 1, rows⟩ := by
  refine ⟨h.opened, fun row hrow => ?_⟩
  have hmem : row.withSchema schema ∈ pageRows schema ⟨f.id, b.nextPage⟩ cells := by
    rw [← hrows]
    exact List.mem_map_of_mem hrow
  obtain ⟨slot, hslot⟩ := TableContents.record_of_mem_pageRows hmem
  exact ⟨b.nextPage, slot, hslot, rfl⟩

/-- Behind the last page, nothing is left but pending rows. -/
theorem left_eq_nil (hpending : b.pending = []) (hend : pages.length ≤ b.nextPage) : left f schema pages b = [] := by
  rw [left, hpending, List.drop_eq_nil_of_le hend]
  rfl

/-- The search loads pages until there is a row, and changes nothing about the rows that are left. -/
theorem tries_search_left (schema : Schema) (hf : c.file f.id = .ok f) (husable : (s f.id).Usable)
    (hfree : Free → (s f.id).length < fuel) (hb : Settled f b) :
    Tries (Steady c s) Free ((search f fuel).wrapError .storage) b
      (fun more b' => (Settled f b' ∧ left f schema (s f.id) b' = left f schema (s f.id) b) ∧ fuel ≠ 0
        ∧ if more then b'.pending ≠ [] else b'.pending = [] ∧ (s f.id).length ≤ b'.nextPage)
      fun _ => True := by
  have hfits : ∀ page ∈ s f.id, Fits page := fun page hpage => (husable.2 page hpage).2
  refine meets_search (fun db hdb => hdb.pageCount_eq hf hfits) ?_ ?_ ⟨hb, rfl⟩
  · rintro b' db ⟨hb', hleft⟩ hdb hpending hlt
    have hpage := List.getElem?_eq_getElem hlt
    obtain ⟨cells, hcells⟩ := (husable.2 _ (List.mem_of_getElem? hpage)).1
    obtain ⟨r, db', hget, hdb', hr⟩ := hdb.getPage hf hfits hpage schema
    rw [hcells] at hr hpage
    refine ⟨r, db', hget, hdb', ?_, ?_⟩
    · rintro buffer rfl
      have hrows := Except.ok.inj hr
      exact ⟨hb'.load hrows, (left_load hpending hpage hrows).trans hleft⟩
    · rintro e rfl
      cases hr
  · exact fun hle _ _ => ⟨fun h => by have := hfree h; omega, ⟨_, rfl⟩, trivial⟩

/-- A table with pages is opened at its first page. -/
theorem gives_start_first (hf : c.file f.id = .ok f) (husable : (s f.id).Usable) :
    Gives (Steady c s) (start f) closed (.ok ()) fun b => b = first := by
  intro db hdb
  have hcount : f.pageCount db.disk ≠ 0 := by
    rw [hdb.pageCount_eq hf fun page hpage => (husable.2 page hpage).2]
    exact fun h => husable.1 (List.length_eq_zero_iff.mp h)
  exact ⟨first, db, by rw [outcome_start rfl, if_neg hcount]; rfl, hdb, rfl⟩

theorem gives_rewind_first (hf : c.file f.id = .ok f) (husable : (s f.id).Usable) (hb : b.opened = true) :
    Gives (Steady c s) (rewind f) b (.ok ()) fun b => b = first := by
  intro db hdb
  rw [outcome_rewind hb]
  exact gives_start_first hf husable db hdb

/-! ### One fetch -/

/-- What is fetched from a cursor `b`, which moves it to `b'`: the first accepted row, or none if there is none. -/
def Peeled (f : HeapFile) (schema : Schema) (accepts : List Field → Bool) (pages : TableContents) (b b' : HeapCursor) :
    Option Row → Prop
  | some x => accepts x.fields = true ∧ Behind f b' x
    ∧ ∃ passed, left f schema pages b = passed ++ x :: left f schema pages b' ∧ ∀ y ∈ passed, accepts y.fields = false
  | none => left f schema pages b' = [] ∧ ∀ y ∈ left f schema pages b, accepts y.fields = false

/-- The accepted rows that are left are the fetched one and those that are left behind it. -/
theorem Peeled.accepted_eq (h : Peeled f schema accepts pages b b' (some x)) :
    accepted f schema accepts pages b = x :: accepted f schema accepts pages b' := by
  obtain ⟨hx, -, passed, hleft, hpassed⟩ := h
  have hnone : passed.filter (accepts ·.fields) = [] :=
    List.filter_eq_nil_iff.mpr fun y hy => by rw [hpassed y hy]; exact Bool.false_ne_true
  rw [accepted, hleft, List.filter_append, hnone, List.nil_append, List.filter_cons, if_pos hx]
  rfl

theorem Peeled.accepted_eq_nil (h : Peeled f schema accepts pages b b' none) :
    accepted f schema accepts pages b = [] :=
  List.filter_eq_nil_iff.mpr fun y hy => by rw [h.2 y hy]; exact Bool.false_ne_true

/-- The rows that are left are getting fewer. -/
theorem Peeled.length_lt (h : Peeled f schema accepts pages b b' (some x)) :
    (left f schema pages b').length < (left f schema pages b).length := by
  obtain ⟨-, -, passed, hleft, -⟩ := h
  rw [hleft, List.length_append, List.length_cons]
  omega

/-- A fetch may start with rows that are passed over. -/
theorem Peeled.of_passed {passed : List Row} {row : Option Row}
    (hleft : left f schema pages b = passed ++ left f schema pages b₁)
    (hpassed : ∀ y ∈ passed, accepts y.fields = false)
    (h : Peeled f schema accepts pages b₁ b' row) : Peeled f schema accepts pages b b' row := by
  have hall : ∀ {rest : List Row}, (∀ y ∈ rest, accepts y.fields = false) →
      ∀ y ∈ passed ++ rest, accepts y.fields = false := fun hrest y hy =>
    (List.mem_append.mp hy).elim (hpassed y) (hrest y)
  cases row with
  | none =>
    refine ⟨h.1, ?_⟩
    rw [hleft]
    exact hall h.2
  | some x =>
    obtain ⟨hx, hbehind, rest, hleft', hrest⟩ := h
    exact ⟨hx, hbehind, passed ++ rest, by rw [hleft, hleft', List.append_assoc], hall hrest⟩

end HeapCursor

open HeapCursor (left accepted Settled Peeled Behind)

/-! ### Sources -/

/-- An open operator that has fetched nothing ahead, over a body. -/
def Running.plain {β : Type} (body : β) : Running β :=
  ⟨true, none, body⟩

@[simp] theorem Running.opened_closed {β : Type} (body : β) : (closed body).opened = false := rfl

@[simp] theorem Running.body_closed {β : Type} (body : β) : (closed body).body = body := rfl

@[simp] theorem Running.opened_plain {β : Type} (body : β) : (plain body).opened = true := rfl

@[simp] theorem Running.ahead_plain {β : Type} (body : β) : (plain body).ahead = none := rfl

@[simp] theorem Running.body_plain {β : Type} (body : β) : (plain body).body = body := rfl

namespace Source

variable {β : Type} {child : Source β} {embed : HeapCursor → β} {fresh : β} {b : HeapCursor}

/-- There is fuel for all pages, and for all rows that are left. -/
def Enough (fuel : Nat) (f : HeapFile) (schema : Schema) (pages : TableContents) (b : HeapCursor) : Prop :=
  pages.length < fuel ∧ (left f schema pages b).length < fuel

/-- A source that hands out the rows of a table that `accepts` tells, and whose state is that of a cursor. -/
structure Peels (src : Source β) (c : Catalog) (s : Store) (f : HeapFile) (schema : Schema)
    (accepts : List Field → Bool) (fresh : β) (embed : HeapCursor → β) (fuel : Nat) (Free : Prop) : Prop where
  start : Gives (Steady c s) src.openBody fresh (.ok ()) fun body => body = embed HeapCursor.first
  again : ∀ {b}, b.opened = true →
    Gives (Steady c s) src.rewindBody (embed b) (.ok ()) fun body => body = embed HeapCursor.first
  fetch : ∀ {b}, Settled f b → (Free → Enough fuel f schema (s f.id) b) →
    Tries (Steady c s) Free src.fetch (embed b)
      (fun row body => ∃ b', body = embed b' ∧ Settled f b' ∧ Peeled f schema accepts (s f.id) b b' row) fun _ => True

/-- A scan hands out all rows. -/
theorem peels_scan (hf : c.file f.id = .ok f) (husable : (s f.id).Usable) :
    (scan fuel f schema).Peels c s f schema (fun _ => true) HeapCursor.closed id fuel Free := by
  refine ⟨(HeapCursor.gives_start_first hf husable).wrapError ExecError.storage,
    fun hb => (HeapCursor.gives_rewind_first hf husable hb).wrapError ExecError.storage, fun {b} hb hfree => ?_⟩
  have hsearch := HeapCursor.tries_search_left schema hf husable (fun h => (hfree h).1) hb
  refine HeapCursor.meets_take hb.opened hsearch (fun _ hb' => hb'.1.opened) ?_ ?_
  · rintro x tail b' ⟨hb', hleft⟩ hpending
    have hmem : ∀ y ∈ x :: tail, Behind f b' y := hpending ▸ hb'.behind
    refine Action.tries_pure ⟨_, rfl, ⟨hb'.opened, fun y hy => hmem y (List.mem_cons_of_mem _ hy)⟩, rfl,
      hmem x List.mem_cons_self, [], ?_, nofun⟩
    rw [← hleft, left, hpending]
    rfl
  · rintro b' ⟨hb', hleft⟩ ⟨hpending, hend⟩
    have hnil : left f schema (s f.id) b' = [] := HeapCursor.left_eq_nil hpending hend
    refine Action.tries_pure ⟨b', rfl, hb', hnil, fun y hy => ?_⟩
    rw [← hleft, hnil] at hy
    cases hy

namespace Peels

variable (h : child.Peels c s f schema accepts fresh embed fuel Free)

include h

theorem «open» : Gives (Steady c s) child.open (Running.closed fresh) (.ok ())
    fun r => r = Running.plain (embed HeapCursor.first) := by
  intro db hdb
  obtain ⟨body, db', hout, hdb', rfl⟩ := h.start db hdb
  rw [outcome_open, outcome_inBody]
  refine ⟨_, db', ?_, hdb', rfl⟩
  simp only [Running.opened_closed, Bool.false_eq_true, if_false, Running.body_closed, hout, Fallible.follow_ok]
  rfl

theorem rewind (hb : b.opened = true) : Gives (Steady c s) child.rewind (Running.plain (embed b)) (.ok ())
    fun r => r = Running.plain (embed HeapCursor.first) := by
  intro db hdb
  obtain ⟨body, db', hout, hdb', rfl⟩ := h.again hb db hdb
  rw [outcome_rewind, if_pos (Running.opened_plain _), outcome_inBody]
  refine ⟨_, db', ?_, hdb', rfl⟩
  simp only [Running.body_plain, hout, Fallible.follow_ok]
  rfl

/-- Looking ahead, an operator finds the first accepted row that is left, or comes to the end. -/
theorem hasNext (hb : Settled f b) (hfree : Free → Enough fuel f schema (s f.id) b) :
    Tries (Steady c s) Free child.hasNext (Running.plain (embed b))
      (fun more r => ∃ row b', r = ⟨true, row, embed b'⟩ ∧ more = row.isSome ∧ Settled f b'
        ∧ Peeled f schema accepts (s f.id) b b' row) fun _ => True := by
  refine meets_hasNext rfl nofun fun _ => Meets.mono (h.fetch hb hfree) ?_ fun _ _ he => he
  rintro row _ ⟨b', rfl, hb', hpeeled⟩
  exact ⟨row, b', rfl, rfl, hb', hpeeled⟩

omit h in
/-- A row that was fetched ahead is taken. -/
theorem next {P : Database → Prop} {body : β} {x : Row} {Err : Running β → Prop} :
    Tries P Free child.next (⟨true, some x, body⟩ : Running β) (fun y r => y = x ∧ r = Running.plain body) Err := by
  exact Meets.mono (meets_next_of_ahead rfl rfl) (fun _ _ h => h) fun _ _ he => he

/-- An operator that asks for a row gets the first accepted one that is left, or comes to the end. -/
theorem take {α : Type} {k : Row → Step (Running β) α} {g : Step (Running β) α} {Ok : α → Running β → Prop}
    (hb : Settled f b) (hfree : Free → Enough fuel f schema (s f.id) b)
    (hk : ∀ x b', Settled f b' → Peeled f schema accepts (s f.id) b b' (some x) →
      Tries (Steady c s) Free (k x) (Running.plain (embed b')) Ok fun _ => True)
    (hg : ∀ b', Settled f b' → Peeled f schema accepts (s f.id) b b' none →
      Tries (Steady c s) Free g (Running.plain (embed b')) Ok fun _ => True) :
    Tries (Steady c s) Free (do if ← child.hasNext then let row ← child.next; k row else g)
      (Running.plain (embed b)) Ok fun _ => True := by
  refine (h.hasNext hb hfree).bind ?_
  rintro _ _ ⟨_ | x, b', rfl, rfl, hb', hpeeled⟩
  · exact hg b' hb' hpeeled
  · refine next.bind ?_
    rintro _ _ ⟨rfl, rfl⟩
    exact hk _ b' hb' hpeeled

/-- The search for a row that a further predicate accepts. -/
theorem fetchAccepted {q : Predicate} {j : Nat} (hb : Settled f b) (hfree : Free → Enough fuel f schema (s f.id) b)
    (hj : Free → (left f schema (s f.id) b).length < j) :
    Tries (Steady c s) Free (Source.fetchAccepted q child j) (Running.plain (embed b))
      (fun row r => ∃ b', r = Running.plain (embed b') ∧ Settled f b'
        ∧ Peeled f schema (fun fields => accepts fields && q.admits fields) (s f.id) b b' row) fun _ => True := by
  induction j generalizing b with
  | zero => exact Action.tries_throw (fun hf => absurd (hj hf) (Nat.not_lt_zero _)) trivial
  | succ j ih =>
    refine h.take hb hfree (fun x b₁ hb₁ hpeeled => ?_) fun b₁ hb₁ hpeeled => ?_
    · have hshorter := hpeeled.length_lt
      obtain ⟨hx, hbehind, passed, hleft, hpassed⟩ := hpeeled
      have hpassed' : ∀ y ∈ passed, (accepts y.fields && q.admits y.fields) = false := fun y hy => by
        rw [hpassed y hy, Bool.false_and]
      by_cases hq : q.accepts x = true
      · rw [if_pos hq]
        refine Action.tries_pure ⟨b₁, rfl, hb₁, ?_, hbehind, passed, hleft, hpassed'⟩
        show (accepts x.fields && q.admits x.fields) = true
        rw [hx, ← Predicate.accepts_eq, hq, Bool.and_self]
      · rw [if_neg hq]
        refine (ih hb₁ (fun hf => ⟨(hfree hf).1, by have := (hfree hf).2; omega⟩)
          (fun hf => by have := hj hf; omega)).mono ?_ fun _ h => h
        rintro row r ⟨b', rfl, hb', hpeeled'⟩
        have hleft' : left f schema (s f.id) b = (passed ++ [x]) ++ left f schema (s f.id) b₁ := by
          rw [hleft, List.append_assoc, List.singleton_append]
        refine ⟨b', rfl, hb', hpeeled'.of_passed hleft' fun y hy => ?_⟩
        rcases List.mem_append.mp hy with hy | hy
        · exact hpassed' y hy
        · rw [List.mem_singleton.mp hy]
          show (accepts x.fields && q.admits x.fields) = false
          rw [← Predicate.accepts_eq, Bool.eq_false_iff.mpr hq, Bool.and_false]
    · refine Action.tries_pure ⟨b₁, rfl, hb₁, hpeeled.1, fun y hy => ?_⟩
      show (accepts y.fields && q.admits y.fields) = false
      rw [hpeeled.2 y hy, Bool.false_and]

/-- A filter hands out those rows of its child that it accepts. -/
theorem filter (q : Predicate) :
    (child.filter fuel q).Peels c s f schema (fun fields => accepts fields && q.admits fields) (Running.closed fresh)
      (fun b => Running.plain (embed b)) fuel Free :=
  ⟨h.open, h.rewind, fun hb hfree => h.fetchAccepted hb hfree fun hf => (hfree hf).2⟩

end Peels

end Source

/-! ### Plans -/

namespace Plan

/-- Filters over a plan, the first of the list outermost. -/
def sifted (qs : List Predicate) (p : Plan) : Plan :=
  qs.foldr Plan.filter p

/-- Filters over a scan hand out the rows that all predicates accept, whatever the table is like at the moment. -/
theorem peels_sifted (qs : List Predicate) (target : ScanTarget) (hf : c.file f.id = .ok f) :
    ∃ embed : HeapCursor → (sifted qs (.scan target f schema)).Body,
      ∀ {s : Store} {pages : TableContents} {fuel : Nat} {Free : Prop}, pages.Usable →
        ((sifted qs (.scan target f schema)).source fuel).Peels c (s.put f.id pages) f schema
          (fun fields => qs.all (·.admits fields)) (sifted qs (.scan target f schema)).fresh embed fuel Free := by
  induction qs with
  | nil => exact ⟨id, fun husable => Source.peels_scan hf (by rw [Store.put_self]; exact husable)⟩
  | cons q qs ih =>
    obtain ⟨embed, hchild⟩ := ih
    refine ⟨fun b => Running.plain (embed b), fun {s pages fuel Free} husable => ?_⟩
    have hfilter := (@hchild s pages fuel Free husable).filter q
    have hsame : (fun fields => (q :: qs).all (·.admits fields))
        = fun fields => qs.all (·.admits fields) && q.admits fields := by
      funext fields
      rw [List.all_cons, Bool.and_comm]
    rw [hsame]
    exact hfilter

/-- The rows of filters over a scan are those that all predicates accept. -/
theorem meaning_sifted {target : ScanTarget} (qs : List Predicate) :
    (sifted qs (.scan target f schema)).meaning s
      = accepted f schema (fun fields => qs.all (·.admits fields)) (s f.id) HeapCursor.first := by
  induction qs with
  | nil => exact (List.filter_true _).symm
  | cons q qs ih =>
    show ((sifted qs (.scan target f schema)).meaning s).filter q.accepts = _
    rw [ih, accepted, List.filter_filter]
    rfl

end Plan

end RelStore
