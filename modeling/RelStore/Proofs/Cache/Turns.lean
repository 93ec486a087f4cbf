/-
The turns of the hand.

A sweep of the clock ends, whatever the frames hold and wherever the hand stands, and what it does can be told of every
frame:

* `Clock.sweepWithin` — a sweep that may take a number of turns, and that stops where a usage would go below zero;
* `Clock.sweepWithin_eq` — a sweep ends within its turns, and no usage goes below zero;
* `Clock.Swept` — what a sweep may change: the hand, and the usage of frames that nobody holds;
* `Clock.evict_eq_none_iff` — there is no frame to reuse just when callers hold all of them;
* `Clock.evict_ends` — all of this, for every clock.

Design notes.  Between two units of usage the hand goes around at most once, so `total * length + length` turns are
enough.
-/
import RelStore.Proofs.Cache.Sweep

namespace RelStore

theorem Frame.isFree_iff {f : Frame} :
    f.isFree = true ↔ f.buffer = none ∨ f.isHeld = false ∧ f.usage = 0 := by
  unfold Frame.isFree Frame.isHeld
  split
  · next b hb =>
    rw [Bool.and_eq_true, decide_eq_true_iff, Bool.not_eq_true']
    exact ⟨fun ⟨husage, hheld⟩ => .inr ⟨hheld, husage⟩, fun h => (h.resolve_left (by rw [hb]; nofun)).symm⟩
  · next hb => exact ⟨fun _ => .inl hb, fun _ => rfl⟩

theorem Frame.isHeld_iff {f : Frame} : f.isHeld = true ↔ ∃ b, f.buffer = some b ∧ b.isHeld = true := by
  unfold Frame.isHeld
  split
  · next b hb => simp [hb]
  · next hb => simp [hb]

namespace Clock

variable {c c' : Clock} {run turns : Nat} {f : Frame}

/-! ### Turns -/

/-- A sweep that may take a number of turns.  It has no answer when it needs more of them, or when the hand comes to a
frame that nobody holds and that has no usage to take from. -/
def sweepWithin : (turns : Nat) → Clock → (run : Nat) → Option (Option Nat × Clock)
  | 0, _, _ => none
  | turns + 1, c, run =>
    match c.frames[c.hand]? with
    | none => some (none, c)
    | some f =>
      if f.isFree then some (some c.hand, c)
      else if f.isHeld then
        if c.frames.length ≤ run + 1 then some (none, c) else sweepWithin turns c.advance (run + 1)
      else
        match f.usage with
        | 0 => none
        | usage + 1 => sweepWithin turns (advance { c with frames := c.frames.set c.hand { f with usage := usage } }) 0

/-- How many turns a sweep takes at the most, after `run` held frames in a row. -/
def turnsLeft (c : Clock) (run : Nat) : Nat :=
  total c.frames * c.frames.length + (c.frames.length - run)

theorem turnsLeft_advance (h : run + 1 < c.frames.length) :
    c.advance.turnsLeft (run + 1) + 1 = c.turnsLeft run := by
  simp only [turnsLeft, advance]
  omega

/-- A unit of usage pays for going around once more. -/
theorem turnsLeft_cool (hf : c.frames[c.hand]? = some f) (hfree : f.isFree = false) (hheld : f.isHeld = false)
    (hrun : run < c.frames.length) : (c.cool c.hand f).advance.turnsLeft 0 + 1 ≤ c.turnsLeft run := by
  have hlength : (c.cool c.hand f).frames.length = c.frames.length := List.length_set
  have hpaid : (total (c.cool c.hand f).frames + 1) * c.frames.length ≤ total c.frames * c.frames.length :=
    Nat.mul_le_mul_right _ (total_cool_lt hf hfree hheld)
  simp only [turnsLeft, advance, hlength]
  rw [Nat.succ_mul] at hpaid
  omega

theorem hand_advance_lt (h : c.hand < c.frames.length) : c.advance.hand < c.advance.frames.length :=
  Nat.mod_lt _ (Nat.zero_lt_of_lt h)

theorem turnsLeft_pos (h : run < c.frames.length) : 0 < c.turnsLeft run := by
  rw [turnsLeft]
  omega

/-- A sweep ends within its turns, and there is usage in every frame that it takes some from. -/
theorem sweepWithin_eq (hhand : c.hand < c.frames.length) (hrun : run < c.frames.length)
    (hturns : c.turnsLeft run ≤ turns) : c.sweepWithin turns run = some (c.sweep run) := by
  -- one turn for each step of the sweep
  fun_induction sweep c run generalizing turns with
  | case1 c run hf =>
    rw [List.getElem?_eq_none_iff] at hf
    omega
  | case2 c run f hf hfree =>
    obtain ⟨turns, rfl⟩ := Nat.exists_eq_add_one.mpr (Nat.lt_of_lt_of_le (turnsLeft_pos hrun) hturns)
    simp only [sweepWithin, hf, hfree, if_true]
  | case3 c run f hf hfree hheld hlast =>
    obtain ⟨turns, rfl⟩ := Nat.exists_eq_add_one.mpr (Nat.lt_of_lt_of_le (turnsLeft_pos hrun) hturns)
    simp only [sweepWithin, hf, hfree, Bool.false_eq_true, if_false, hheld, if_true, hlast]
  | case4 c run f hf hfree hheld hlast ih =>
    obtain ⟨turns, rfl⟩ := Nat.exists_eq_add_one.mpr (Nat.lt_of_lt_of_le (turnsLeft_pos hrun) hturns)
    have hleft := turnsLeft_advance (Nat.lt_of_not_le hlast)
    simp only [sweepWithin, hf, hfree, Bool.false_eq_true, if_false, hheld, if_true, hlast]
    exact ih (hand_advance_lt hhand) (Nat.lt_of_not_le hlast) (by omega)
  | case5 c run f hf hfree hheld ih =>
    obtain ⟨turns, rfl⟩ := Nat.exists_eq_add_one.mpr (Nat.lt_of_lt_of_le (turnsLeft_pos hrun) hturns)
    rw [Bool.not_eq_true] at hfree hheld
    have hleft := turnsLeft_cool hf hfree hheld hrun
    have hlength : (c.cool c.hand f).frames.length = c.frames.length := List.length_set
    obtain ⟨usage, husage⟩ := Nat.exists_eq_add_one.mpr (usage_pos hfree hheld)
    have hcool : (advance { c with frames := c.frames.set c.hand { f with usage := usage } })
        = (c.cool c.hand f).advance := by
      rw [cool, husage]
      rfl
    simp only [sweepWithin, hf, hfree, Bool.false_eq_true, if_false, hheld, husage, hcool]
    refine ih (hand_advance_lt (by rw [hlength]; exact hhand)) ?_ (by omega)
    show 0 < (c.cool c.hand f).frames.length
    omega

/-! ### What a sweep changes -/

/-- Every frame keeps its buffer, its usage does not go up, and it stays as it is if its buffer is held.  The hand stays
inside the ring. -/
structure Swept (c c' : Clock) : Prop where
  length : c'.frames.length = c.frames.length
  frames : ∀ {i : Nat} {f : Frame}, c.frames[i]? = some f → ∃ f', c'.frames[i]? = some f'
    ∧ f'.buffer = f.buffer ∧ f'.usage ≤ f.usage ∧ (f.isHeld = true → f' = f)
  hand_lt : c.hand < c.frames.length → c'.hand < c'.frames.length

theorem Swept.refl (c : Clock) : c.Swept c :=
  ⟨rfl, fun {_ f} hf => ⟨f, hf, rfl, Nat.le_refl _, fun _ => rfl⟩, id⟩

theorem Swept.trans {c'' : Clock} (h : c.Swept c') (h' : c'.Swept c'') : c.Swept c'' := by
  refine ⟨h'.length.trans h.length, ?_, fun hhand => h'.hand_lt (h.hand_lt hhand)⟩
  intro i f hf
  obtain ⟨f', hf', hbuffer, husage, hheld⟩ := h.frames hf
  obtain ⟨f'', hf'', hbuffer', husage', hheld'⟩ := h'.frames hf'
  refine ⟨f'', hf'', hbuffer'.trans hbuffer, Nat.le_trans husage' husage, fun hf => ?_⟩
  obtain rfl := hheld hf
  exact hheld' hf

theorem swept_advance (c : Clock) : c.Swept c.advance :=
  ⟨rfl, fun {_ f} hf => ⟨f, hf, rfl, Nat.le_refl _, fun _ => rfl⟩, hand_advance_lt⟩

/-- Usage is taken from one frame, which nobody holds. -/
theorem swept_cool {i : Nat} (hf : c.frames[i]? = some f) (hheld : f.isHeld = false) : c.Swept (c.cool i f) := by
  have hlength : (c.cool i f).frames.length = c.frames.length := List.length_set
  refine ⟨hlength, ?_, fun hhand => by rw [hlength]; exact hhand⟩
  intro j g hg
  by_cases hij : i = j
  · subst hij
    cases hf.symm.trans hg
    refine ⟨{ f with usage := f.usage - 1 }, ?_, rfl, Nat.sub_le .., fun h => ?_⟩
    · exact List.getElem?_set_self (List.getElem?_eq_some_iff.mp hf).1
    · rw [hheld] at h
      cases h
  · exact ⟨g, (List.getElem?_set_ne hij).trans hg, rfl, Nat.le_refl _, fun _ => rfl⟩

theorem swept_sweep (c : Clock) (run : Nat) : c.Swept (c.sweep run).2 := by
  fun_induction sweep c run with
  | case1 c run hf => exact .refl c
  | case2 c run f hf hfree => exact .refl c
  | case3 c run f hf hfree hheld hlast => exact .refl c
  | case4 c run f hf hfree hheld hlast ih => exact (swept_advance c).trans ih
  | case5 c run f hf hfree hheld ih =>
    rw [Bool.not_eq_true] at hheld
    exact ((swept_cool hf hheld).trans (swept_advance _)).trans ih

/-! ### No frame to reuse -/

/-- A frame that is found was not held before, for a sweep leaves buffers alone. -/
theorem exists_not_isHeld_of_sweep {i : Nat} (h : (c.sweep run).1 = some i) : ∃ f ∈ c.frames, f.isHeld = false := by
  obtain ⟨f', hf', hfree⟩ := isFree_of_sweep h
  have hswept := swept_sweep c run
  have hlt : i < c.frames.length := by
    rw [← hswept.length]
    exact (List.getElem?_eq_some_iff.mp hf').1
  obtain ⟨f, hf⟩ : ∃ f, c.frames[i]? = some f := ⟨_, List.getElem?_eq_getElem hlt⟩
  obtain ⟨g, hg, hbuffer, -, -⟩ := hswept.frames hf
  obtain rfl : f' = g := Option.some.inj (hf'.symm.trans hg)
  refine ⟨f, List.mem_of_getElem? hf, Bool.eq_false_iff.mpr fun hheld => ?_⟩
  obtain ⟨b, hb, hheld⟩ := Frame.isHeld_iff.mp hheld
  rcases Frame.isFree_iff.mp hfree with hnone | ⟨hnot, -⟩
  · rw [← hbuffer, hnone] at hb
    cases hb
  · rw [← hbuffer] at hb
    rw [Frame.isHeld_iff.mpr ⟨b, hb, hheld⟩] at hnot
    cases hnot

/-- There is no frame to reuse just when callers hold all of them. -/
theorem evict_eq_none_iff (hhand : c.frames = [] ∨ c.hand < c.frames.length) :
    c.evict.1 = none ↔ ∀ f ∈ c.frames, f.isHeld = true := by
  constructor
  · intro hnone f hf
    have hhand : c.hand < c.frames.length := hhand.resolve_left (List.ne_nil_of_mem hf)
    obtain ⟨i, hi⟩ := List.mem_iff_getElem?.mp hf
    obtain ⟨b, hb, hheld⟩ := isHeld_of_sweep_eq_none hhand (Nat.zero_lt_of_lt hhand) (fun k hk hzero => by omega) hnone i
      (List.getElem?_eq_some_iff.mp hi).1
    rw [buffers_getElem?, hi, Option.map_some, Option.some.injEq] at hb
    exact Frame.isHeld_iff.mpr ⟨b, hb, hheld⟩
  · intro hall
    cases hfound : c.evict.1 with
    | none => rfl
    | some i =>
      obtain ⟨f, hf, hnot⟩ := exists_not_isHeld_of_sweep hfound
      rw [hall f hf] at hnot
      cases hnot

/-- Where callers hold all frames, no usage is taken. -/
theorem frames_sweep_of_isHeld (h : ∀ f ∈ c.frames, f.isHeld = true) (run : Nat) : (c.sweep run).2.frames = c.frames := by
  have hswept := swept_sweep c run
  refine List.ext_getElem? fun i => ?_
  cases hf : c.frames[i]? with
  | none =>
    rw [List.getElem?_eq_none_iff] at hf ⊢
    rw [hswept.length]
    exact hf
  | some f =>
    obtain ⟨f', hf', -, -, hsame⟩ := hswept.frames hf
    rw [hf', hsame (h f (List.mem_of_getElem? hf))]

/-- The search for a frame ends, and takes no usage that is not there.  It changes nothing but the place of the hand, which
stays inside the ring, and the usage of frames that nobody holds.  It finds none just when there are no frames or callers
hold all of them, and then it takes no usage; otherwise the frame that it finds is empty, or nobody holds it and its
usage is used up. -/
theorem evict_ends (c : Clock) (hhand : c.frames = [] ∨ c.hand < c.frames.length) :
    (∃ turns ≤ (total c.frames + 1) * c.frames.length + 1, c.sweepWithin turns 0 = some c.evict)
      ∧ c.Swept c.evict.2
      ∧ (c.evict.1 = none ↔ c.frames = [] ∨ ∀ f ∈ c.frames, f.isHeld = true)
      ∧ (c.evict.1 = none → c.evict.2.frames = c.frames)
      ∧ ∀ i, c.evict.1 = some i → ∃ f, c.evict.2.frames[i]? = some f
        ∧ (f.buffer = none ∨ f.isHeld = false ∧ f.usage = 0) := by
  have hnone := evict_eq_none_iff hhand
  refine ⟨?_, swept_sweep c 0, ?_, fun h => frames_sweep_of_isHeld (hnone.mp h) 0, fun i hi => ?_⟩
  · rcases hhand with hnil | hhand
    · have hf : c.frames[c.hand]? = none := by rw [hnil, List.getElem?_nil]
      have hevict : c.evict = (none, c) := by
        rw [evict, sweep]
        split
        · rfl
        · next f hf' => cases hf.symm.trans hf'
      refine ⟨1, by omega, ?_⟩
      rw [hevict, sweepWithin, hf]
    · have hleft : c.turnsLeft 0 = (total c.frames + 1) * c.frames.length := by
        rw [turnsLeft, Nat.succ_mul, Nat.sub_zero]
      exact ⟨c.turnsLeft 0, by omega, sweepWithin_eq hhand (Nat.zero_lt_of_lt hhand) (Nat.le_refl _)⟩
  · rw [hnone]
    refine ⟨.inr, fun h f hf => h.elim (fun hnil => ?_) fun hall => hall f hf⟩
    rw [hnil] at hf
    cases hf
  · obtain ⟨f, hf, hfree⟩ := isFree_of_sweep hi
    exact ⟨f, hf, Frame.isFree_iff.mp hfree⟩

/-- Two frames that callers hold, and one that was used once since the hand came by. -/
def busyClock : Clock :=
  ⟨[⟨2, some ⟨0, default, false, 1⟩⟩, ⟨1, some ⟨1, default, true, 0⟩⟩, ⟨0, some ⟨2, default, false, 2⟩⟩], 2⟩

/-- The hand goes around once to take the usage, and once more to find it used up. -/
theorem evict_ends_busyClock :
    busyClock.hand < busyClock.frames.length ∧ busyClock.evict.1 = some 1
      ∧ (∃ turns ≤ 13, busyClock.sweepWithin turns 0 = some busyClock.evict)
      ∧ (¬ ∀ f ∈ busyClock.frames, f.isHeld = true)
      ∧ ∃ f, busyClock.evict.2.frames[1]? = some f ∧ (f.buffer = none ∨ f.isHeld = false ∧ f.usage = 0) := by
  have hhand : busyClock.hand < busyClock.frames.length := by decide
  have hfound : busyClock.evict.1 = some 1 := by decide +kernel
  obtain ⟨hends, -, hnone, -, hfree⟩ := evict_ends busyClock (.inr hhand)
  refine ⟨hhand, hfound, hends, fun hall => ?_, hfree 1 hfound⟩
  have hfull := hnone.mpr (.inr hall)
  rw [hfound] at hfull
  cases hfull

end Clock

end RelStore
