/-
What the running statistics of a group say about its numbers.

* `Stat.ofNumbers` — the statistics after some numbers, one at a time;
* `AggregateOp.value` — an aggregate of whole numbers, without words;
* `Stat.toNat_count_ofNumbers`, `Stat.toInt_sum_ofNumbers`, `Stat.toInt_min_ofNumbers`, `Stat.toInt_max_ofNumbers` — the
  four words are count, sum, least and greatest, as long as there are not too many numbers;
* `Stat.tdiv_sum_between`, `Stat.emit_avg_ofNumbers` — a mean lies between the bounds of the numbers, so it is a word;
* `Stat.emit_ofNumbers` — so the value that is emitted is the aggregate of the numbers;
* `AggregateOp.value_eq_error_iff` — which aggregates have no value;
* `AggregateOp.value_eq_of_perm` — in whatever order they came.

Design notes.  The sum of fewer than 2 ^ 32 words of 32 bits is a word of 64 bits, and a mean of such words is such a
word itself.  So only a sum can be out of range.
-/
import Mathlib
import RelStore.Aggregate.Stat

namespace RelStore

/-- An aggregate of whole numbers. The mean is cut toward zero. -/
def AggregateOp.value : AggregateOp → List Int → Except AggregateError Int
  | .count, xs => .ok xs.length
  | .sum, xs =>
    if Int32.minValue.toInt ≤ xs.sum ∧ xs.sum ≤ Int32.maxValue.toInt then .ok xs.sum else .error (.overflow .sum)
  | .min, xs => .ok (xs.min?.getD Int32.maxValue.toInt)
  | .max, xs => .ok (xs.max?.getD Int32.minValue.toInt)
  | .avg, xs => if xs = [] then .error (.emptyInput .avg) else .ok (xs.sum.tdiv xs.length)

namespace Stat

/-- The statistics of some numbers. -/
def ofNumbers (xs : List Int32) : Stat :=
  xs.foldl update empty

@[simp] theorem ofNumbers_nil : ofNumbers [] = empty := rfl

@[simp] theorem ofNumbers_concat (xs : List Int32) (x : Int32) :
    ofNumbers (xs ++ [x]) = (ofNumbers xs).update x := by
  rw [ofNumbers, List.foldl_append]
  rfl

/-! ### Words -/

theorem toInt_min_update (s : Stat) (x : Int32) : (s.update x).min.toInt = s.min.toInt ⊓ x.toInt := by
  show (if x < s.min then x else s.min).toInt = _
  split
  · next h => rw [Int32.lt_iff_toInt_lt] at h; omega
  · next h => rw [Int32.lt_iff_toInt_lt] at h; omega

theorem toInt_max_update (s : Stat) (x : Int32) : (s.update x).max.toInt = s.max.toInt ⊔ x.toInt := by
  show (if s.max < x then x else s.max).toInt = _
  split
  · next h => rw [Int32.lt_iff_toInt_lt] at h; omega
  · next h => rw [Int32.lt_iff_toInt_lt] at h; omega

/-- A sum is no less than so many times a lower bound of its numbers, and no more than so many times an upper one. -/
theorem sum_between {ns : List Int} {low high : Int} (h : ∀ n ∈ ns, low ≤ n ∧ n ≤ high) :
    low * ns.length ≤ ns.sum ∧ ns.sum ≤ high * ns.length := by
  have hlow := ns.card_nsmul_le_sum low fun n hn => (h n hn).1
  have hhigh := ns.sum_le_card_nsmul high fun n hn => (h n hn).2
  rw [nsmul_eq_mul, mul_comm] at hlow hhigh
  exact ⟨hlow, hhigh⟩

/-- So a mean lies between the bounds, also when it is cut toward zero. -/
theorem tdiv_sum_between {ns : List Int} {low high : Int} (h : ∀ n ∈ ns, low ≤ n ∧ n ≤ high) (hne : ns ≠ []) :
    low ≤ ns.sum.tdiv ns.length ∧ ns.sum.tdiv ns.length ≤ high := by
  obtain ⟨hlow, hhigh⟩ := sum_between h
  have hpos : 0 < (ns.length : Int) := by
    have := List.length_pos_of_ne_nil hne
    omega
  have hlow' := Int.tdiv_le_tdiv hpos hlow
  have hhigh' := Int.tdiv_le_tdiv hpos hhigh
  rw [Int.mul_tdiv_cancel _ (by omega)] at hlow' hhigh'
  exact ⟨hlow', hhigh'⟩

/-- Words of 32 bits are between the least and the greatest one. -/
theorem toInt_mem_range (xs : List Int32) : ∀ n ∈ xs.map Int32.toInt, -(2 ^ 31) ≤ n ∧ n ≤ 2 ^ 31 - 1 := by
  intro n hn
  obtain ⟨x, -, rfl⟩ := List.mem_map.mp hn
  have := x.toInt_lt
  exact ⟨x.le_toInt, by omega⟩

variable {xs : List Int32}

theorem toNat_count_ofNumbers (h : xs.length < 2 ^ 64) : (ofNumbers xs).count.toNat = xs.length := by
  induction xs using List.reverseRecOn with
  | nil => rfl
  | append_singleton xs x ih =>
    rw [List.length_append, List.length_singleton] at h ⊢
    rw [ofNumbers_concat]
    show ((ofNumbers xs).count + 1).toNat = _
    rw [UInt64.toNat_add, ih (by omega)]
    exact Nat.mod_eq_of_lt h

theorem toInt_sum_ofNumbers (h : xs.length < 2 ^ 32) :
    (ofNumbers xs).sum.toInt = (xs.map Int32.toInt).sum := by
  induction xs using List.reverseRecOn with
  | nil => rfl
  | append_singleton xs x ih =>
    have hrange := sum_between (toInt_mem_range (xs ++ [x]))
    rw [List.length_append, List.length_singleton] at h
    rw [ofNumbers_concat]
    show ((ofNumbers xs).sum + x.toInt64).toInt = _
    have hsum : (ofNumbers xs).sum.toInt + x.toInt64.toInt = ((xs ++ [x]).map Int32.toInt).sum := by
      rw [ih (by omega), Int32.toInt_toInt64, List.map_append, List.sum_append, List.map_singleton, List.sum_singleton]
    rw [Int64.toInt_add, hsum]
    rw [List.length_map, List.length_append, List.length_singleton] at hrange
    exact Int.bmod_eq_of_le (by omega) (by omega)

theorem toInt_min_ofNumbers :
    (ofNumbers xs).min.toInt = (xs.map Int32.toInt).min?.getD Int32.maxValue.toInt := by
  have hfold : (ofNumbers xs).min.toInt = (xs.map Int32.toInt).foldl (· ⊓ ·) Int32.maxValue.toInt := by
    induction xs using List.reverseRecOn with
    | nil => rfl
    | append_singleton xs x ih =>
      rw [ofNumbers_concat, toInt_min_update, ih, List.map_append, List.foldl_append]
      rfl
  rw [hfold, List.foldl_min]
  -- no number is greater than the number that stands for the least of none
  cases hmin : (xs.map Int32.toInt).min? with
  | none => exact min_self _
  | some a =>
    obtain ⟨x, -, rfl⟩ := List.mem_map.mp (List.min?_eq_some_iff.mp hmin).1
    have := x.toInt_lt
    rw [Int32.toInt_maxValue, Option.getD_some]
    exact min_eq_right (by omega)

theorem toInt_max_ofNumbers :
    (ofNumbers xs).max.toInt = (xs.map Int32.toInt).max?.getD Int32.minValue.toInt := by
  have hfold : (ofNumbers xs).max.toInt = (xs.map Int32.toInt).foldl (· ⊔ ·) Int32.minValue.toInt := by
    induction xs using List.reverseRecOn with
    | nil => rfl
    | append_singleton xs x ih =>
      rw [ofNumbers_concat, toInt_max_update, ih, List.map_append, List.foldl_append]
      rfl
  rw [hfold, List.foldl_max]
  cases hmax : (xs.map Int32.toInt).max? with
  | none => exact max_self _
  | some a =>
    obtain ⟨x, -, rfl⟩ := List.mem_map.mp (List.max?_eq_some_iff.mp hmax).1
    have := x.le_toInt
    rw [Int32.toInt_minValue, Option.getD_some]
    exact max_eq_right (by omega)

/-! ### Values -/

theorem toColumn_eq_value {op : AggregateOp} {n : Int} :
    (toColumn op n).map Int32.toInt
      = if Int32.minValue.toInt ≤ n ∧ n ≤ Int32.maxValue.toInt then .ok n else .error (.overflow op) := by
  rw [toColumn]
  split
  · next h =>
    rw [Int32.toInt_minValue, Int32.toInt_maxValue] at h
    show Except.ok (Int32.ofInt n).toInt = _
    rw [Int32.toInt_ofInt, Int.bmod_eq_of_le (by simp [Int32.size]; omega) (by simp [Int32.size]; omega)]
  · rfl

variable {op : AggregateOp}

/-- A count of fewer numbers than half a word is the same as a signed word. -/
theorem toInt_count_ofNumbers (h : xs.length < 2 ^ 63) : (ofNumbers xs).count.toInt64.toInt = xs.length := by
  have hcount := toNat_count_ofNumbers (show xs.length < 2 ^ 64 by omega)
  rw [← Int64.toInt_toBitVec, UInt64.toBitVec_toInt64, BitVec.toInt_eq_toNat_bmod, UInt64.toNat_toBitVec, hcount]
  exact Int.bmod_eq_of_le (by omega) (by omega)

/-- The divisor is no negative number, so the quotient is not the one that overflows. -/
theorem count_ofNumbers_ne (h : xs.length < 2 ^ 63) : (ofNumbers xs).count.toInt64 ≠ -1 := by
  intro hminus
  have hcount := toInt_count_ofNumbers h
  rw [hminus] at hcount
  have : (-1 : Int) = xs.length := hcount
  omega

/-- A mean of words is a word, and it is the one that is emitted. -/
theorem emit_avg_ofNumbers (h : xs.length < 2 ^ 32) (hne : xs ≠ []) :
    ((ofNumbers xs).emit .avg).map Int32.toInt = .ok ((xs.map Int32.toInt).sum.tdiv xs.length) := by
  have hpos := List.length_pos_of_ne_nil hne
  have hcount : (ofNumbers xs).count ≠ 0 := fun hzero => by
    have hlength := toNat_count_ofNumbers (show xs.length < 2 ^ 64 by omega)
    rw [hzero] at hlength
    have : xs.length = 0 := hlength.symm
    omega
  obtain ⟨hlow, hhigh⟩ := tdiv_sum_between (toInt_mem_range xs) (mt List.map_eq_nil_iff.mp hne)
  rw [List.length_map] at hlow hhigh
  have hmean : ((ofNumbers xs).sum / (ofNumbers xs).count.toInt64).toInt
      = (xs.map Int32.toInt).sum.tdiv xs.length := by
    rw [Int64.toInt_div, toInt_sum_ofNumbers h, toInt_count_ofNumbers (by omega)]
    exact Int.bmod_eq_of_le (by omega) (by omega)
  rw [emit, if_neg hcount, if_neg fun hover => count_ofNumbers_ne (by omega) hover.2, toColumn_eq_value, hmean]
  exact if_pos ⟨by rw [Int32.toInt_minValue]; omega, by rw [Int32.toInt_maxValue]; omega⟩

theorem emit_sum_ofNumbers (h : xs.length < 2 ^ 32) :
    ((ofNumbers xs).emit .sum).map Int32.toInt = AggregateOp.value .sum (xs.map Int32.toInt) := by
  rw [emit, toInt_sum_ofNumbers h, toColumn_eq_value]
  rfl

/-- The value that is emitted is the aggregate of the numbers. -/
theorem emit_ofNumbers (h : xs.length < 2 ^ 31) :
    ((ofNumbers xs).emit op).map Int32.toInt = op.value (xs.map Int32.toInt) := by
  have hcount := toNat_count_ofNumbers (show xs.length < 2 ^ 64 by omega)
  cases op with
  | min => exact congrArg Except.ok toInt_min_ofNumbers
  | max => exact congrArg Except.ok toInt_max_ofNumbers
  | sum => exact emit_sum_ofNumbers (by omega)
  | count =>
    show (toColumn .count (ofNumbers xs).count.toNat).map Int32.toInt = .ok ((xs.map Int32.toInt).length : Int)
    rw [toColumn_eq_value, hcount, List.length_map, Int32.toInt_minValue, Int32.toInt_maxValue]
    exact if_pos (by omega)
  | avg =>
    rcases eq_or_ne xs [] with rfl | hne
    · rfl
    · rw [emit_avg_ofNumbers (by omega) hne, AggregateOp.value, if_neg (mt List.map_eq_nil_iff.mp hne), List.length_map]

end Stat

/-- Only a sum that is no word and a mean of nothing have no value. -/
theorem AggregateOp.value_eq_error_iff (op : AggregateOp) (xs : List Int) (e : AggregateError) :
    op.value xs = .error e ↔
      (op = .sum ∧ e = .overflow .sum ∧ ¬ (Int32.minValue.toInt ≤ xs.sum ∧ xs.sum ≤ Int32.maxValue.toInt))
      ∨ (op = .avg ∧ e = .emptyInput .avg ∧ xs = []) := by
  cases op with
  | min => simp [value]
  | max => simp [value]
  | count => simp [value]
  | sum =>
    rw [value]
    by_cases h : Int32.minValue.toInt ≤ xs.sum ∧ xs.sum ≤ Int32.maxValue.toInt
    · rw [if_pos h]
      constructor
      · intro h'
        cases h'
      · rintro (⟨-, -, hout⟩ | ⟨h', -⟩)
        · exact absurd h hout
        · cases h'
    · rw [if_neg h]
      constructor
      · intro h'
        exact .inl ⟨rfl, (Except.error.inj h').symm, h⟩
      · rintro (⟨-, rfl, -⟩ | ⟨h', -⟩)
        · rfl
        · cases h'
  | avg =>
    rw [value]
    by_cases h : xs = []
    · rw [if_pos h]
      simp only [Except.error.injEq, reduceCtorEq, h, and_true, true_and, false_and, false_or, eq_comm]
    · rw [if_neg h]
      simp only [reduceCtorEq, h, and_false, false_and, or_false]

/-- The order of the numbers does not matter. -/
theorem AggregateOp.value_eq_of_perm {xs ys : List Int} (op : AggregateOp) (h : xs.Perm ys) :
    op.value xs = op.value ys := by
  have hmin : xs.min? = ys.min? := by
    cases hx : xs.min? with
    | none =>
      rw [List.min?_eq_none_iff] at hx
      rw [hx] at h
      rw [← h.nil_eq, List.min?_nil]
    | some a =>
      obtain ⟨ha, hle⟩ := List.min?_eq_some_iff.mp hx
      exact (List.min?_eq_some_iff.mpr ⟨h.mem_iff.mp ha, fun b hb => hle b (h.mem_iff.mpr hb)⟩).symm
  have hmax : xs.max? = ys.max? := by
    cases hx : xs.max? with
    | none =>
      rw [List.max?_eq_none_iff] at hx
      rw [hx] at h
      rw [← h.nil_eq, List.max?_nil]
    | some a =>
      obtain ⟨ha, hle⟩ := List.max?_eq_some_iff.mp hx
      exact (List.max?_eq_some_iff.mpr ⟨h.mem_iff.mp ha, fun b hb => hle b (h.mem_iff.mpr hb)⟩).symm
  have hnil : xs = [] ↔ ys = [] := ⟨fun hx => (hx ▸ h).nil_eq.symm, fun hy => (hy ▸ h).eq_nil⟩
  cases op <;> simp only [value, hmin, hmax, hnil, h.length_eq, h.sum_eq]

end RelStore
