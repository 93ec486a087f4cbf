/-
Plans that only read.

* `Plan.Reads` — the plan scans registered tables and changes none; its aggregates have no groups;
* `Plan.Yields`, `Plan.Refuses` — with enough fuel the plan hands out certain rows and then ends or fails, or it
  does not even open;
* `Plan.Yields.join` and its like — how these follow from the children, one lemma for each operator;
* `Plan.Reads.settled` — every plan that reads does one of the two, and always the same;
* `Plan.readAll`, `Plan.Settled.readAll` — so it always has the same rows.

Design notes.  `Yields` hides the state of the operators: what a parent has to know of its child is told by the
rows and their end.
-/
import RelStore.Proofs.Query.Operators
import RelStore.Proofs.Query.Join
import RelStore.Proofs.Query.Aggregate
import RelStore.Proofs.Query.Reading
import RelStore.Operator

namespace RelStore

open RelStore.Action (Gives)
open Running (Opens IsLive Stands)
open Database (Steady)

namespace Plan

variable {P : Database → Prop} {p child left right : Plan} {xs ys : List Row}
  {err el er : Option ExecError} {e : ExecError} {schema : Schema}

/-- With enough fuel the plan hands out `xs` after every opening, and then ends or fails with `err`. -/
def Yields (P : Database → Prop) (p : Plan) (xs : List Row) (err : Option ExecError) : Prop :=
  ∃ n, ∀ fuel, n ≤ fuel → ∃ (Shut Live : p.Body → Prop) (At : List Row → p.Body → Prop),
    (p.source fuel).Follows P Shut Live At xs err ∧ Shut p.fresh

/-- With enough fuel the plan fails to open. -/
def Refuses (P : Database → Prop) (p : Plan) (e : ExecError) : Prop :=
  ∃ n, ∀ fuel, n ≤ fuel → Gives P (p.source fuel).openBody p.fresh (.error e) fun _ => True

/-- With enough fuel the plan always does the same. -/
def Settled (P : Database → Prop) (p : Plan) : Prop :=
  (∃ e, p.Refuses P e) ∨ ∃ xs err, p.Yields P xs err

/-- A child that was never opened can be opened. -/
theorem opens_fresh {Shut Live : child.Body → Prop} (h : Shut child.fresh) :
    Opens Shut Live (Running.closed child.fresh) :=
  .inl ⟨rfl, h⟩

/-! ### Leaves -/

theorem yields_values (rows : List Row) : (values schema rows).Yields P rows none :=
  ⟨0, fun _ _ => ⟨_, _, _, Source.follows_values rows, trivial⟩⟩

theorem yields_scan {c : Catalog} {s : Store} {f : HeapFile} (target : ScanTarget) (hf : c.file f.id = .ok f)
    (hfits : ∀ page ∈ s f.id, Fits page) (hpages : s f.id ≠ []) :
    (scan target f schema).Yields (Steady c s) (Source.scanRows s f schema)
      ((TableContents.fault (s f.id)).map .storage) :=
  ⟨(s f.id).length + 1, fun _ hfuel =>
    ⟨_, _, _, Source.follows_scan hf hfits hpages hfuel, rfl⟩⟩

theorem refuses_scan {c : Catalog} {s : Store} {f : HeapFile} (target : ScanTarget) (hf : c.file f.id = .ok f)
    (hpages : s f.id = []) : (scan target f schema).Refuses (Steady c s) (.storage .emptyFile) :=
  ⟨0, fun _ _ => Source.open_scan_fail hf hpages⟩

/-! ### Filters, projections and aggregates -/

theorem Yields.filter (h : child.Yields P xs err) (q : Predicate) :
    (Plan.filter q child).Yields P (xs.filter q.accepts) err := by
  obtain ⟨n, hn⟩ := h
  refine ⟨max n (xs.length + 1), fun fuel hfuel => ?_⟩
  obtain ⟨Shut, Live, At, hfollows, hfresh⟩ := hn fuel (by omega)
  exact ⟨_, _, _, hfollows.filter (by omega) q, opens_fresh hfresh⟩

theorem Refuses.filter (h : child.Refuses P e) (q : Predicate) : (Plan.filter q child).Refuses P e := by
  obtain ⟨n, hn⟩ := h
  exact ⟨n, fun fuel hfuel => Source.gives_open_error (hn fuel hfuel)⟩

theorem Yields.project (h : child.Yields P xs err) (fields : List Nat) (schema : Schema) :
    (Plan.project fields schema child).Yields P (xs.map (Source.pick fields schema)) err := by
  obtain ⟨n, hn⟩ := h
  refine ⟨n, fun fuel hfuel => ?_⟩
  obtain ⟨Shut, Live, At, hfollows, hfresh⟩ := hn fuel hfuel
  exact ⟨_, _, _, hfollows.project fields schema, opens_fresh hfresh⟩

theorem Refuses.project (h : child.Refuses P e) (fields : List Nat) (schema : Schema) :
    (Plan.project fields schema child).Refuses P e := by
  obtain ⟨n, hn⟩ := h
  exact ⟨n, fun fuel hfuel => Source.gives_open_error (hn fuel hfuel)⟩

theorem Yields.aggregate (h : child.Yields P xs err) {spec : AggregateSpec} {groups : Groups}
    (hgroups : spec.absorbed err {} xs = .ok groups) :
    (Plan.aggregate spec schema child).Yields P
      (emitted spec.op schema (Source.snapshot spec.group.isSome groups)).1
      (emitted spec.op schema (Source.snapshot spec.group.isSome groups)).2 := by
  obtain ⟨n, hn⟩ := h
  refine ⟨max n (xs.length + 1), fun fuel hfuel => ?_⟩
  obtain ⟨Shut, Live, At, hfollows, hfresh⟩ := hn fuel (by omega)
  exact ⟨_, _, _, hfollows.aggregate (by omega) hgroups, opens_fresh hfresh⟩

theorem Yields.aggregate_refuses (h : child.Yields P xs err) {spec : AggregateSpec}
    (hgroups : spec.absorbed err {} xs = .error e) : (Plan.aggregate spec schema child).Refuses P e := by
  obtain ⟨n, hn⟩ := h
  refine ⟨max n (xs.length + 1), fun fuel hfuel => ?_⟩
  obtain ⟨Shut, Live, At, hfollows, hfresh⟩ := hn fuel (by omega)
  exact hfollows.open_aggregate_fail (by omega) hgroups (opens_fresh hfresh)

theorem Refuses.aggregate (h : child.Refuses P e) (spec : AggregateSpec) :
    (Plan.aggregate spec schema child).Refuses P e := by
  obtain ⟨n, hn⟩ := h
  exact ⟨n, fun fuel hfuel =>
    Gives.bind_error (Gives.on (Source.gives_open_error (hn fuel hfuel)) fun _ _ => trivial)⟩

/-! ### Joins -/

section Join

variable (q : JoinPredicate) (schema : Schema)

/-- A join of children with rows hands out the accepted pairs. -/
theorem Yields.join (hl : left.Yields P xs el) (hr : right.Yields P ys er) (hxs : xs ≠ []) (hys : ys ≠ []) :
    (Plan.join q schema left right).Yields P (joinRows q schema (allPairs er xs ys)) (er.or el) := by
  obtain ⟨n, hn⟩ := hl
  obtain ⟨m, hm⟩ := hr
  refine ⟨max (max n m) ((allPairs er xs ys).length + 1), fun fuel hfuel => ?_⟩
  obtain ⟨SL, LL, AL, hleft, hfreshl⟩ := hn fuel (by omega)
  obtain ⟨SR, LR, AR, hright, hfreshr⟩ := hm fuel (by omega)
  exact ⟨_, _, _, hleft.join hright hxs hys (by omega), opens_fresh hfreshl, opens_fresh hfreshr⟩

/-- A join with an empty child hands out nothing, or fails as that child does. -/
theorem Yields.join_nil (hl : left.Yields P xs el) (hr : right.Yields P ys er) (hempty : xs = [] ∨ ys = []) :
    (Source.Follows.emptyEnd xs el er = none → (Plan.join q schema left right).Yields P [] none)
      ∧ ∀ e, Source.Follows.emptyEnd xs el er = some e → (Plan.join q schema left right).Refuses P e := by
  obtain ⟨n, hn⟩ := hl
  obtain ⟨m, hm⟩ := hr
  constructor
  · intro hend
    refine ⟨max (max n m) 1, fun fuel hfuel => ?_⟩
    obtain ⟨SL, LL, AL, hleft, hfreshl⟩ := hn fuel (by omega)
    obtain ⟨SR, LR, AR, hright, hfreshr⟩ := hm fuel (by omega)
    refine ⟨_, _, _, hleft.join_of_knownEmpty hright (by omega) fun s hsl hsr => ?_, opens_fresh hfreshl,
      opens_fresh hfreshr⟩
    have hstart := hleft.startPairs_nil hright hempty hsl hsr
    rw [hend] at hstart
    exact hstart
  · intro e hend
    refine ⟨max n m, fun fuel hfuel => ?_⟩
    obtain ⟨SL, LL, AL, hleft, hfreshl⟩ := hn fuel (by omega)
    obtain ⟨SR, LR, AR, hright, hfreshr⟩ := hm fuel (by omega)
    have hstart : ∀ s : JoinState left.Body right.Body, Stands AL xs s.left → Stands AR ys s.right →
        Gives P ((left.source fuel).startPairs (right.source fuel)) s (.error e) fun _ => True := by
      intro s hsl hsr
      have hfail := hleft.startPairs_nil hright hempty hsl hsr
      rw [hend] at hfail
      exact Gives.mono hfail fun _ _ => trivial
    exact Source.Follows.gives_reset (hleft.open (opens_fresh hfreshl)) (hright.open (opens_fresh hfreshr)) hstart

theorem Refuses.join_left (hl : left.Refuses P e) : (Plan.join q schema left right).Refuses P e := by
  obtain ⟨n, hn⟩ := hl
  exact ⟨n, fun fuel hfuel =>
    Gives.bind_error (Gives.on (Source.gives_open_error (hn fuel hfuel)) fun _ _ => trivial)⟩

theorem Refuses.join_right (hl : left.Yields P xs el) (hr : right.Refuses P e) :
    (Plan.join q schema left right).Refuses P e := by
  obtain ⟨n, hn⟩ := hl
  obtain ⟨m, hm⟩ := hr
  refine ⟨max n m, fun fuel hfuel => ?_⟩
  obtain ⟨SL, LL, AL, hleft, hfreshl⟩ := hn fuel (by omega)
  have hright := Source.gives_open_error (hm fuel (by omega))
  have hopenl : Gives P (left.source fuel).open (Running.closed left.fresh) (.ok ()) (Stands AL xs) :=
    hleft.open (opens_fresh hfreshl)
  refine Gives.bind (x := ())
    (Q := fun s : JoinState left.Body right.Body => s.right = Running.closed right.fresh)
    (Gives.on (T := Stands AL xs) ?_ fun _ _ => rfl) fun s hs => ?_
  · exact hopenl
  · exact Gives.bind_error (Gives.on (by rw [hs]; exact hright) fun _ _ => trivial)

/-- A join of two settled plans is settled. -/
theorem Settled.join (hl : left.Settled P) (hr : right.Settled P) :
    (Plan.join q schema left right).Settled P := by
  rcases hl with ⟨e, hl⟩ | ⟨xs, el, hl⟩
  · exact .inl ⟨e, hl.join_left q schema⟩
  rcases hr with ⟨e, hr⟩ | ⟨ys, er, hr⟩
  · exact .inl ⟨e, hr.join_right q schema hl⟩
  -- an empty child decides the end of the join when it is opened, rows on both sides only later
  by_cases hempty : xs = [] ∨ ys = []
  · obtain ⟨hyields, hrefuses⟩ := hl.join_nil q schema hr hempty
    cases hend : Source.Follows.emptyEnd xs el er with
    | none => exact .inr ⟨_, _, hyields hend⟩
    | some e => exact .inl ⟨e, hrefuses e hend⟩
  · rw [not_or] at hempty
    exact .inr ⟨_, _, hl.join q schema hr hempty.1 hempty.2⟩

end Join

/-! ### Trees -/

/-- The tables that a plan scans. -/
def tables : Plan → List TableId
  | scan _ file _ => [file.id]
  | filter _ child | project _ _ child | insert _ _ _ child | delete _ child | aggregate _ _ child => child.tables
  | join _ _ left right => left.tables ++ right.tables
  | values .. | groups .. => []

/-- The plan scans registered tables, and changes none. Aggregates have no groups, whose order is not told. -/
def Reads (c : Catalog) : Plan → Prop
  | scan _ file _ => c.file file.id = .ok file
  | values .. => True
  | filter _ child | project _ _ child => child.Reads c
  | join _ _ left right => left.Reads c ∧ right.Reads c
  | aggregate spec _ child => spec.group = none ∧ child.Reads c
  | insert .. | delete .. | groups .. => False

/-- A plan that reads tables with texts within the limit always does the same. -/
theorem Reads.settled {c : Catalog} {s : Store} (h : p.Reads c)
    (hfits : ∀ id ∈ p.tables, ∀ page ∈ s id, Fits page) : p.Settled (Steady c s) := by
  -- a table without pages refuses to be opened; everything else hands out rows up to some end
  induction p with
  | scan target f schema =>
    by_cases hpages : s f.id = []
    · exact .inl ⟨_, refuses_scan target h hpages⟩
    · exact .inr ⟨_, _, yields_scan target h (hfits f.id List.mem_cons_self) hpages⟩
  | values schema rows => exact .inr ⟨_, _, yields_values rows⟩
  | filter q child ih =>
    rcases ih h hfits with ⟨e, hchild⟩ | ⟨xs, err, hchild⟩
    · exact .inl ⟨e, hchild.filter q⟩
    · exact .inr ⟨_, _, hchild.filter q⟩
  | project fields schema child ih =>
    rcases ih h hfits with ⟨e, hchild⟩ | ⟨xs, err, hchild⟩
    · exact .inl ⟨e, hchild.project fields schema⟩
    · exact .inr ⟨_, _, hchild.project fields schema⟩
  | join q schema left right ihl ihr =>
    exact (ihl h.1 fun id hid => hfits id (List.mem_append_left _ hid)).join q schema
      (ihr h.2 fun id hid => hfits id (List.mem_append_right _ hid))
  | aggregate spec schema child ih =>
    rcases ih h.2 hfits with ⟨e, hchild⟩ | ⟨xs, err, hchild⟩
    · exact .inl ⟨e, hchild.aggregate spec⟩
    · cases hgroups : spec.absorbed err {} xs with
      | ok groups => exact .inr ⟨_, _, hchild.aggregate hgroups⟩
      | error e => exact .inl ⟨e, hchild.aggregate_refuses hgroups⟩
  | insert txn table schema child => exact h.elim
  | delete txn child => exact h.elim
  | groups number spec => exact h.elim

/-! ### Reading a plan to its end -/

/-- All rows, unless the end of them is a failure. -/
def allRows (xs : List Row) : Option ExecError → Except ExecError (List Row)
  | none => .ok xs
  | some e => .error e

/-- All rows of a plan that was never opened: it is opened and read to its end. -/
def readAll (p : Plan) (fuel : Nat) (db : Database) : Except ExecError (List Row) × Database :=
  match (Operator.ofPlan p).open fuel db with
  | (.error e, _, db) => (.error e, db)
  | (.ok (), o, db) => ((o.collect fuel db).1, (o.collect fuel db).2.2)

theorem Refuses.readAll (h : p.Refuses P e) :
    ∃ n, ∀ fuel, n ≤ fuel → ∀ db, P db → ∃ db', p.readAll fuel db = (.error e, db') ∧ P db' := by
  obtain ⟨n, hn⟩ := h
  refine ⟨n, fun fuel hfuel db hdb => ?_⟩
  obtain ⟨r, db', hopen, hdb', -⟩ := Source.gives_open_error (hn fuel hfuel) db hdb
  have hopen' : (Operator.ofPlan p).open fuel db = (.error e, ⟨p, r⟩, db') := by
    show (Operator.ofPlan p).step Source.open fuel db = _
    simp only [Operator.step, Operator.ofPlan, hopen]
  exact ⟨db', by rw [Plan.readAll, hopen'], hdb'⟩

theorem Yields.readAll (h : p.Yields P xs err) :
    ∃ n, ∀ fuel, n ≤ fuel → ∀ db, P db → ∃ db',
      p.readAll fuel db = (allRows xs err, db') ∧ P db' := by
  obtain ⟨n, hn⟩ := h
  refine ⟨max n (xs.length + 1), fun fuel hfuel db hdb => ?_⟩
  obtain ⟨Shut, Live, At, hfollows, hfresh⟩ := hn fuel (by omega)
  obtain ⟨r, db', hopen, hdb', hr⟩ := hfollows.open (opens_fresh hfresh) db hdb
  have hopen' : (Operator.ofPlan p).open fuel db = (.ok (), ⟨p, r⟩, db') := by
    show (Operator.ofPlan p).step Source.open fuel db = _
    simp only [Operator.step, Operator.ofPlan, hopen]
  have hlen : xs.length < fuel := by omega
  have hall : Gives P ((p.source fuel).collect fuel) r (allRows xs err) fun _ => True := by
    have hends := hfollows.collect hlen hr
    cases err with
    | none => exact Gives.mono hends fun _ _ => trivial
    | some e => exact Gives.mono hends fun _ _ => trivial
  obtain ⟨r', db'', hcollect, hdb'', -⟩ := hall db' hdb'
  have hcollect' : (⟨p, r⟩ : Operator).collect fuel db'
      = (allRows xs err, ⟨p, r'⟩, db'') := by
    show (⟨p, r⟩ : Operator).step (fun s => s.collect fuel) fuel db' = _
    simp only [Operator.step, hcollect]
  exact ⟨db'', by rw [Plan.readAll, hopen']; simp only [hcollect'], hdb''⟩

/-- A settled plan always has the same rows, or always fails alike. -/
theorem Settled.readAll (h : p.Settled P) :
    ∃ r n, ∀ fuel, n ≤ fuel → ∀ db, P db → ∃ db', p.readAll fuel db = (r, db') ∧ P db' := by
  rcases h with ⟨e, h⟩ | ⟨xs, err, h⟩
  · exact ⟨_, h.readAll⟩
  · exact ⟨_, h.readAll⟩

end Plan

end RelStore
