/-
What operators with at most one child hand out, given what the child does.

* `Source.follows_values` — a fixed list of rows;
* `Source.Follows.filter` — the accepted rows of the child;
* `Source.Follows.project` — some fields of every row of the child.

Design notes.  A child may end in a failure, and an operator that reads its child to the end fails then too.  So
each loop over a child has two lemmas: what it does at the next row that counts, and what it does when none of the
rows that are left counts (`Action.Ends`).
-/
import RelStore.Proofs.Query.Protocol
import RelStore.Plan

namespace RelStore

open RelStore.Action (Gives Ends)
open Running (IsShut IsLive Opens Holds Stands)

variable {β γ : Type} {P : Database → Prop} {x : Row} {xs ys rest : List Row}
  {err : Option ExecError} {e : ExecError}

namespace Source

/-- A list of rows follows itself, in every state. -/
theorem follows_values (rows : List Row) :
    (values rows).Follows P (fun _ => True) (fun _ => True) (fun rest b => b = rest) rows none := by
  have hstart : ∀ b, Gives P (values rows).openBody b (.ok ()) fun b => b = rows :=
    fun _ db hdb => ⟨rows, db, rfl, hdb, rfl⟩
  refine ⟨fun _ => trivial, fun _ => hstart _, fun _ => hstart _, fun _ => trivial, ?_, ?_⟩
  · rintro x rest b rfl
    exact fun db hdb => ⟨rest, db, rfl, hdb, rfl⟩
  · rintro b rfl
    exact fun db hdb => ⟨[], db, rfl, hdb, rfl⟩

namespace Follows

section Child

variable {child : Source β} {Shut Live : β → Prop} {At : List Row → β → Prop} {r : Running β}
  (h : child.Follows P Shut Live At xs err)

include h

/-! ### Filters -/

/-- The search for an accepted row passes over the others. -/
theorem fetchAccepted_row {p : Predicate} {fuel : Nat} (hfuel : rest.length < fuel)
    (hr : Stands At rest r) {tail : List Row} (hrest : rest.filter p.accepts = x :: tail) :
    Gives P (fetchAccepted p child fuel) r (.ok (some x)) fun r =>
      ∃ rows, rows.length < rest.length ∧ rows.filter p.accepts = tail ∧ Stands At rows r := by
  -- the rows that are left bound the search
  induction rest generalizing r fuel with
  | nil => cases hrest
  | cons y rest ih =>
    obtain ⟨fuel, rfl⟩ : ∃ n, fuel = n + 1 := ⟨fuel - 1, by omega⟩
    refine h.takeRow hr fun r₁ hr₁ => ?_
    rw [List.filter_cons] at hrest
    by_cases hy : p.accepts y = true
    · rw [if_pos hy] at hrest ⊢
      cases hrest
      exact Action.gives_pure ⟨rest, by simp, rfl, hr₁⟩
    · rw [if_neg hy] at hrest ⊢
      refine (ih (by simpa using hfuel) hr₁ hrest).mono fun r₂ hr₂ => ?_
      obtain ⟨rows, hlen, htail, hstands⟩ := hr₂
      exact ⟨rows, by simp; omega, htail, hstands⟩

/-- The search for an accepted row among none comes to the end of the child. -/
theorem fetchAccepted_nil {p : Predicate} {fuel : Nat} (hfuel : rest.length < fuel)
    (hr : Stands At rest r) (hrest : rest.filter p.accepts = []) :
    Ends P (fetchAccepted p child fuel) r none err (Stands At []) (IsLive Live) := by
  induction rest generalizing r fuel with
  | nil =>
    obtain ⟨fuel, rfl⟩ : ∃ n, fuel = n + 1 := ⟨fuel - 1, by omega⟩
    exact h.takeNone hr fun r₁ hr₁ => Action.gives_pure hr₁
  | cons y rest ih =>
    obtain ⟨fuel, rfl⟩ : ∃ n, fuel = n + 1 := ⟨fuel - 1, by omega⟩
    refine h.takeRow_ends hr fun r₁ hr₁ => ?_
    rw [List.filter_cons] at hrest
    by_cases hy : p.accepts y = true
    · rw [if_pos hy] at hrest
      cases hrest
    · rw [if_neg hy] at hrest ⊢
      exact ih (by simpa using hfuel) hr₁ hrest

/-- A filter hands out the accepted rows of its child. -/
theorem filter {fuel : Nat} (hfuel : xs.length < fuel) (p : Predicate) :
    (child.filter fuel p).Follows P (Opens Shut Live) (IsLive Live)
      (fun rest r => ∃ rows, rows.length < fuel ∧ rows.filter p.accepts = rest ∧ Stands At rows r)
      (xs.filter p.accepts) err := by
  refine ⟨?_, ?_, ?_, ?_, ?_, ?_⟩
  · rintro rest r ⟨rows, -, -, hr⟩
    exact h.isLive hr
  · intro r hr
    exact (h.open hr).mono fun r' hr' => ⟨xs, hfuel, rfl, hr'⟩
  · intro r hr
    exact (h.rewind hr).mono fun r' hr' => ⟨xs, hfuel, rfl, hr'⟩
  · rintro r (hr | hr)
    · exact .inl (h.close hr)
    · exact .inl (h.close (.inr hr))
  · rintro x rest r ⟨rows, hlen, hrows, hr⟩
    refine (h.fetchAccepted_row hlen hr hrows).mono fun r' hr' => ?_
    obtain ⟨rows', hlen', hrows', hstands⟩ := hr'
    exact ⟨rows', by omega, hrows', hstands⟩
  · rintro r ⟨rows, hlen, hrows, hr⟩
    exact (h.fetchAccepted_nil hlen hr hrows).mono
      (fun r' hr' => ⟨[], Nat.zero_lt_of_lt hlen, rfl, hr'⟩) fun r' hr' => hr'

/-! ### Projections -/

/-- A projection hands out the listed fields of every row of its child. -/
theorem project (fields : List Nat) (schema : Schema) :
    (child.project fields schema).Follows P (Opens Shut Live) (IsLive Live)
      (fun rest r => ∃ rows, rows.map (pick fields schema) = rest ∧ Stands At rows r)
      (xs.map (pick fields schema)) err := by
  refine ⟨?_, ?_, ?_, ?_, ?_, ?_⟩
  · rintro rest r ⟨rows, -, hr⟩
    exact h.isLive hr
  · intro r hr
    exact (h.open hr).mono fun r' hr' => ⟨xs, rfl, hr'⟩
  · intro r hr
    exact (h.rewind hr).mono fun r' hr' => ⟨xs, rfl, hr'⟩
  · rintro r (hr | hr)
    · exact .inl (h.close hr)
    · exact .inl (h.close (.inr hr))
  · rintro x rest r ⟨rows, hrows, hr⟩
    obtain ⟨y, rows, rfl, rfl, rfl⟩ := List.map_eq_cons_iff.mp hrows
    exact h.takeRow hr fun r₁ hr₁ => Action.gives_pure ⟨rows, rfl, hr₁⟩
  · rintro r ⟨rows, hrows, hr⟩
    obtain rfl := List.map_eq_nil_iff.mp hrows
    exact h.takeNone hr fun r₁ hr₁ => Action.gives_pure ⟨[], rfl, hr₁⟩

end Child

end Follows

end Source

end RelStore
