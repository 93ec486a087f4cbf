/-
What a sweep of the clock does.

A sweep takes from the usage of frames and moves the hand, and leaves the buffers where they are:

* `Clock.buffers_sweep` — every frame keeps its buffer;
* `Clock.hand_sweep_lt` — the hand stays inside the ring;
* `Clock.isFree_of_sweep` — a frame that is found can be reused, and the hand points at it;
* `Clock.isHeld_of_sweep_eq_none` — a sweep gives up only when callers hold all frames.

Design notes.  The last one needs to know what lies behind the hand: `run` frames in a row that are all held
(`Clock.HeldBehind`).  Going once around the ring makes that all frames.
-/
import RelStore.Cache.Clock

namespace RelStore.Clock

variable {c : Clock} {run : Nat}

/-- The buffer of every frame. -/
def buffers (c : Clock) : List (Option Buffer) :=
  c.frames.map Frame.buffer

theorem length_buffers (c : Clock) : c.buffers.length = c.frames.length :=
  List.length_map _

theorem buffers_getElem? (c : Clock) (i : Nat) : c.buffers[i]? = (c.frames[i]?).map Frame.buffer :=
  List.getElem?_map

theorem buffers_advance (c : Clock) : c.advance.buffers = c.buffers := rfl

theorem buffers_cool {f : Frame} {i : Nat} (hf : c.frames[i]? = some f) :
    (c.cool i f).buffers = c.buffers := by
  have hb : c.buffers[i]? = some f.buffer := by rw [buffers_getElem?, hf]; rfl
  obtain ⟨hi, hget⟩ := List.getElem?_eq_some_iff.mp hb
  simp only [cool, buffers, List.map_set]
  rw [← hget]
  exact List.set_getElem_self _

/-- Every frame keeps its buffer. -/
theorem buffers_sweep (c : Clock) (run : Nat) : (c.sweep run).2.buffers = c.buffers := by
  -- one case for each way a sweep goes on; only `case5` changes a frame
  fun_induction sweep c run with
  | case1 c run hf => rfl
  | case2 c run f hf hfree => rfl
  | case3 c run f hf hfree hheld hrun => rfl
  | case4 c run f hf hfree hheld hrun ih => exact ih
  | case5 c run f hf hfree hheld ih => rw [ih, buffers_advance, buffers_cool hf]

theorem length_sweep (c : Clock) (run : Nat) : (c.sweep run).2.frames.length = c.frames.length := by
  rw [← length_buffers, buffers_sweep, length_buffers]

/-- The hand stays inside the ring. -/
theorem hand_sweep_lt (h : c.hand < c.frames.length) :
    (c.sweep run).2.hand < (c.sweep run).2.frames.length := by
  have hmod : ∀ c : Clock, c.hand < c.frames.length → c.advance.hand < c.advance.frames.length :=
    fun c h => Nat.mod_lt _ (Nat.zero_lt_of_lt h)
  fun_induction sweep c run with
  | case1 c run hf => exact h
  | case2 c run f hf hfree => exact h
  | case3 c run f hf hfree hheld hrun => exact h
  | case4 c run f hf hfree hheld hrun ih => exact ih (hmod c h)
  | case5 c run f hf hfree hheld ih =>
    refine ih (hmod _ ?_)
    simpa only [cool, List.length_set] using h

/-- A frame that is found can be reused. -/
theorem isFree_of_sweep {i : Nat} (h : (c.sweep run).1 = some i) :
    ∃ f, (c.sweep run).2.frames[i]? = some f ∧ f.isFree = true := by
  fun_induction sweep c run with
  | case1 c run hf => cases h
  | case2 c run f hf hfree =>
    cases h
    exact ⟨f, hf, hfree⟩
  | case3 c run f hf hfree hheld hrun => cases h
  | case4 c run f hf hfree hheld hrun ih => exact ih h
  | case5 c run f hf hfree hheld ih => exact ih h

/-! ### Giving up -/

/-- The frame `k` places behind the hand. -/
def behind (c : Clock) (k : Nat) : Nat :=
  (c.hand + (c.frames.length - k)) % c.frames.length

/-- The `run` frames behind the hand have held buffers. -/
def HeldBehind (c : Clock) (run : Nat) : Prop :=
  ∀ k, 1 ≤ k → k ≤ run → ∃ b, c.buffers[c.behind k]? = some (some b) ∧ b.isHeld = true

theorem behind_advance {k : Nat} (hk : k + 1 ≤ c.frames.length) :
    c.advance.behind (k + 1) = c.behind k := by
  have hmod : ((c.hand + 1) % c.frames.length + (c.frames.length - (k + 1))) % c.frames.length
      = (c.hand + 1 + (c.frames.length - (k + 1))) % c.frames.length := Nat.mod_add_mod ..
  simp only [behind, advance]
  rw [hmod]
  congr 1
  omega

theorem behind_zero (h : c.hand < c.frames.length) : c.behind 0 = c.hand := by
  rw [behind, Nat.sub_zero, Nat.add_mod_right, Nat.mod_eq_of_lt h]

/-- Every frame lies behind the hand, not more than once around. -/
theorem exists_behind (h : c.hand < c.frames.length) {i : Nat} (hi : i < c.frames.length) :
    ∃ k, k < c.frames.length ∧ c.behind k = i := by
  by_cases hle : i ≤ c.hand
  · refine ⟨c.hand - i, by omega, ?_⟩
    rw [behind, show c.hand + (c.frames.length - (c.hand - i)) = i + c.frames.length by omega,
      Nat.add_mod_right, Nat.mod_eq_of_lt hi]
  · refine ⟨c.hand + c.frames.length - i, by omega, ?_⟩
    rw [behind, show c.hand + (c.frames.length - (c.hand + c.frames.length - i)) = i by omega,
      Nat.mod_eq_of_lt hi]

/-- A sweep gives up only when callers hold all frames. -/
theorem isHeld_of_sweep_eq_none (h : c.hand < c.frames.length) (hrun : run < c.frames.length)
    (hbehind : c.HeldBehind run) (hnone : (c.sweep run).1 = none) :
    ∀ i < c.frames.length, ∃ b, c.buffers[i]? = some (some b) ∧ b.isHeld = true := by
  have hheldAt : ∀ {c : Clock} {f : Frame}, c.frames[c.hand]? = some f → f.isHeld = true →
      ∃ b, c.buffers[c.hand]? = some (some b) ∧ b.isHeld = true := by
    intro c f hf hheld
    rw [buffers_getElem?, hf]
    unfold Frame.isHeld at hheld
    split at hheld
    · next b hb => exact ⟨b, by rw [Option.map_some, hb], hheld⟩
    · cases hheld
  fun_induction sweep c run with
  | case1 c run hf =>
    rw [List.getElem?_eq_none_iff] at hf
    omega
  | case2 c run f hf hfree => cases hnone
  | case3 c run f hf hfree hheld hlast =>
    -- once around: the frame at the hand and those behind it are all there are
    intro i hi
    obtain ⟨k, hk, rfl⟩ := exists_behind h hi
    by_cases hzero : k = 0
    · subst hzero
      rw [behind_zero h]
      exact hheldAt hf hheld
    · exact hbehind k (by omega) (by omega)
  | case4 c run f hf hfree hheld hlast ih =>
    -- the hand moves on, so the run behind it grows by the frame that it leaves
    refine ih (Nat.mod_lt _ (by omega)) (by simpa only [advance] using (by omega)) ?_ hnone
    intro k hk hkrun
    obtain ⟨k, rfl⟩ : ∃ j, k = j + 1 := ⟨k - 1, by omega⟩
    rw [behind_advance (by omega), buffers_advance]
    by_cases hzero : k = 0
    · subst hzero
      rw [behind_zero h]
      exact hheldAt hf hheld
    · exact hbehind k (by omega) (by omega)
  | case5 c run f hf hfree hheld ih =>
    -- a frame was cooled, and the run starts again from nothing
    have hlen : (c.cool c.hand f).advance.frames.length = c.frames.length := by
      simp only [advance, cool, List.length_set]
    have hhand : (c.cool c.hand f).advance.hand < (c.cool c.hand f).advance.frames.length := by
      simpa only [advance, cool, List.length_set] using Nat.mod_lt _ (Nat.zero_lt_of_lt h)
    have hall := ih hhand (by omega) (fun k h1 h2 => by omega) hnone
    intro i hi
    rw [hlen, buffers_advance, buffers_cool hf] at hall
    exact hall i hi

end RelStore.Clock
