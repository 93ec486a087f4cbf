/-
The mean of a group beside its least number, its greatest one and its sum.

* `Stat.isLeast_min`, `Stat.isGreatest_max` — the least and the greatest number are such of the group;
* `Stat.ofNumbers_eq_of_perm` — the statistics do not depend on the order of the numbers;
* `Stat.Averages` — what a mean is to the other values of its group;
* `Stat.averages_ofNumbers` — a group of some numbers, fewer than 2 ^ 32, has such a mean.

Design notes.  The words of a group are compared with whole numbers after each of its numbers, not only after the last:
a word that overflows twice could be right in the end.
-/
import RelStore.Proofs.Aggregate.Stats

namespace RelStore

namespace Stat

variable {xs ys : List Int32}

/-! ### Least and greatest -/

theorem isLeast_min (hne : xs ≠ []) : IsLeast {x | x ∈ xs} (ofNumbers xs).min := by
  have hmin : (ofNumbers xs).min.toInt = _ := toInt_min_ofNumbers
  cases hleast : (xs.map Int32.toInt).min? with
  | none => exact absurd (List.map_eq_nil_iff.mp (List.min?_eq_none_iff.mp hleast)) hne
  | some least =>
    rw [hleast, Option.getD_some] at hmin
    obtain ⟨hmem, hle⟩ := List.min?_eq_some_iff.mp hleast
    obtain ⟨x, hx, rfl⟩ := List.mem_map.mp hmem
    rw [Int32.toInt_inj] at hmin
    rw [hmin]
    exact ⟨hx, fun y hy => Int32.le_iff_toInt_le.mpr (hle _ (List.mem_map_of_mem hy))⟩

theorem isGreatest_max (hne : xs ≠ []) : IsGreatest {x | x ∈ xs} (ofNumbers xs).max := by
  have hmax : (ofNumbers xs).max.toInt = _ := toInt_max_ofNumbers
  cases hgreatest : (xs.map Int32.toInt).max? with
  | none => exact absurd (List.map_eq_nil_iff.mp (List.max?_eq_none_iff.mp hgreatest)) hne
  | some greatest =>
    rw [hgreatest, Option.getD_some] at hmax
    obtain ⟨hmem, hle⟩ := List.max?_eq_some_iff.mp hgreatest
    obtain ⟨x, hx, rfl⟩ := List.mem_map.mp hmem
    rw [Int32.toInt_inj] at hmax
    rw [hmax]
    exact ⟨hx, fun y hy => Int32.le_iff_toInt_le.mpr (hle _ (List.mem_map_of_mem hy))⟩

/-! ### Order -/

/-- Two numbers can come in either order. -/
theorem update_right_comm (s : Stat) (x y : Int32) : (s.update x).update y = (s.update y).update x := by
  have hsum : s.sum + x.toInt64 + y.toInt64 = s.sum + y.toInt64 + x.toInt64 := by
    rw [Int64.add_assoc, Int64.add_comm x.toInt64, ← Int64.add_assoc]
  have hmin : ((s.update x).update y).min = ((s.update y).update x).min := by
    rw [← Int32.toInt_inj]
    simp only [toInt_min_update]
    exact min_right_comm ..
  have hmax : ((s.update x).update y).max = ((s.update y).update x).max := by
    rw [← Int32.toInt_inj]
    simp only [toInt_max_update]
    exact max_right_comm ..
  show Stat.mk _ _ _ _ = Stat.mk _ _ _ _
  rw [Stat.mk.injEq]
  exact ⟨rfl, hsum, hmin, hmax⟩

/-- The order of the numbers does not matter. -/
theorem ofNumbers_eq_of_perm (h : ys.Perm xs) : ofNumbers ys = ofNumbers xs :=
  h.foldl_eq' (fun x _ y _ s => update_right_comm s x y) empty

/-! ### The mean -/

/-- A sum is so many times its mean, and a remainder that is less than the count and points the same way. -/
theorem exists_remainder (sum : Int) {count : Nat} (hpos : 0 < count) :
    ∃ rest : Int, sum = sum.tdiv count * count + rest ∧ |rest| < count ∧ (rest = 0 ∨ rest.sign = sum.sign) := by
  have hpos' : (0 : Int) < count := by omega
  refine ⟨sum.tmod count, ?_, abs_lt.mpr ⟨Int.lt_tmod_of_pos sum hpos', Int.tmod_lt_of_pos sum hpos'⟩, ?_⟩
  · rw [Int.add_comm, Int.tmod_add_tdiv_mul]
  · have hsign := Int.sign_tmod sum count
    split at hsign
    · exact .inl (Int.sign_eq_zero_iff_zero.mp hsign)
    · exact .inr hsign

theorem emit_sum_eq_error_iff (h : xs.length < 2 ^ 32) (e : AggregateError) :
    (ofNumbers xs).emit .sum = .error e ↔ e = .overflow .sum
      ∧ ¬ (Int32.minValue.toInt ≤ (xs.map Int32.toInt).sum ∧ (xs.map Int32.toInt).sum ≤ Int32.maxValue.toInt) := by
  have hsum := emit_sum_ofNumbers h
  have herror := AggregateOp.value_eq_error_iff .sum (xs.map Int32.toInt) e
  rw [← hsum] at herror
  simp only [true_and, reduceCtorEq, false_and, or_false] at herror
  rw [← herror]
  cases (ofNumbers xs).emit .sum with
  | ok total => exact ⟨nofun, nofun⟩
  | error e' => exact ⟨fun h => congrArg (Except.map Int32.toInt) h, fun h => by cases h; rfl⟩

/-- The mean of some numbers, which is emitted beside the least and the greatest one. -/
structure Averages (xs : List Int32) (least mean greatest : Int32) : Prop where
  /-- No word overflows on the way: after each number they are the count, as the signed word that divides, and the sum. -/
  words : ∀ k ≤ xs.length, (ofNumbers (xs.take k)).count.toInt64.toInt = k
    ∧ (ofNumbers (xs.take k)).sum.toInt = ((xs.take k).map Int32.toInt).sum
  quotient : ¬ ((ofNumbers xs).sum = Int64.minValue ∧ (ofNumbers xs).count.toInt64 = -1)
  emit_min : (ofNumbers xs).emit .min = .ok least
  emit_avg : (ofNumbers xs).emit .avg = .ok mean
  emit_max : (ofNumbers xs).emit .max = .ok greatest
  isLeast : IsLeast {x | x ∈ xs} least
  isGreatest : IsGreatest {x | x ∈ xs} greatest
  between : least ≤ mean ∧ mean ≤ greatest
  emit_sum : ∀ total, (ofNumbers xs).emit .sum = .ok total → ∃ rest : Int,
    total.toInt = mean.toInt * xs.length + rest ∧ |rest| < xs.length ∧ (rest = 0 ∨ rest.sign = total.toInt.sign)
  emit_sum_error : ∀ e, (ofNumbers xs).emit .sum = .error e ↔ e = .overflow .sum
    ∧ ¬ (Int32.minValue.toInt ≤ (xs.map Int32.toInt).sum ∧ (xs.map Int32.toInt).sum ≤ Int32.maxValue.toInt)
  order : ∀ ys : List Int32, ys.Perm xs → ofNumbers ys = ofNumbers xs

/-- Some numbers, fewer than 2 ^ 32, have a mean.  No word overflows on the way to it, and it lies between the least and
the greatest number.  The sum, if it is a word of 32 bits, is so many times the mean and a remainder that is less than the
count and has the sign of the sum.  In another order the numbers have the same statistics. -/
theorem averages_ofNumbers (h : xs.length < 2 ^ 32) (hne : xs ≠ []) :
    ∃ least mean greatest, Averages xs least mean greatest := by
  have havg := emit_avg_ofNumbers h hne
  obtain ⟨mean, hmean⟩ : ∃ mean, (ofNumbers xs).emit .avg = .ok mean := by
    cases hemit : (ofNumbers xs).emit .avg with
    | ok mean => exact ⟨mean, rfl⟩
    | error e =>
      rw [hemit] at havg
      cases havg
  rw [hmean] at havg
  have hvalue : mean.toInt = (xs.map Int32.toInt).sum.tdiv xs.length := Except.ok.inj havg
  have hleast := isLeast_min hne
  have hgreatest := isGreatest_max hne
  have hrange : ∀ n ∈ xs.map Int32.toInt, (ofNumbers xs).min.toInt ≤ n ∧ n ≤ (ofNumbers xs).max.toInt := by
    intro n hn
    obtain ⟨x, hx, rfl⟩ := List.mem_map.mp hn
    exact ⟨Int32.le_iff_toInt_le.mp (hleast.2 hx), Int32.le_iff_toInt_le.mp (hgreatest.2 hx)⟩
  have hbetween := tdiv_sum_between hrange (mt List.map_eq_nil_iff.mp hne)
  rw [List.length_map, ← hvalue] at hbetween
  refine ⟨_, mean, _, fun k hk => ?_, fun hover => count_ofNumbers_ne (by omega) hover.2, rfl, hmean, rfl, hleast,
    hgreatest, ⟨Int32.le_iff_toInt_le.mpr hbetween.1, Int32.le_iff_toInt_le.mpr hbetween.2⟩, fun total htotal => ?_,
    emit_sum_eq_error_iff h, fun ys => ofNumbers_eq_of_perm⟩
  · have hlength : (xs.take k).length = k := List.length_take_of_le hk
    refine ⟨?_, toInt_sum_ofNumbers (by omega)⟩
    rw [toInt_count_ofNumbers (by omega), hlength]
  · have hsum := emit_sum_ofNumbers h
    rw [htotal, AggregateOp.value] at hsum
    split at hsum
    · rw [show total.toInt = (xs.map Int32.toInt).sum from Except.ok.inj hsum, hvalue]
      exact exists_remainder _ (List.length_pos_of_ne_nil hne)
    · cases hsum

/-- A negative sum, whose mean is cut upward, of numbers that reach to the least word. -/
theorem averages_ofNumbers_negative :
    ∃ least greatest, Averages [Int32.minValue, 2147483640, 1] least (-2) greatest
      ∧ ∃ rest : Int, -7 = -2 * 3 + rest ∧ |rest| < 3 ∧ (rest = 0 ∨ rest.sign = -1) := by
  obtain ⟨least, mean, greatest, haverages⟩ : ∃ least mean greatest, Averages [Int32.minValue, 2147483640, 1] _ _ _ :=
    averages_ofNumbers (by decide) (by decide)
  obtain rfl : -2 = mean := Except.ok.inj ((show (ofNumbers _).emit .avg = _ by decide).symm.trans haverages.emit_avg)
  exact ⟨least, greatest, haverages, haverages.emit_sum (-7) (by decide)⟩

end Stat

end RelStore
