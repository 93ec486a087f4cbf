/-
Page buffers in a clock.

Frames stand in a ring, and a hand points at one of them.  Looking for a frame to reuse, the hand moves on
from frame to frame: it stops at a frame that is empty, or not held and not used since it last came by; on
its way it takes one from the usage of every frame that is not held.

* `Clock.sweep` — moves the hand to a frame that can be reused, unless all frames are held;
* `Clock.total_cool_lt` — why the hand stops: every frame that it passes and that is not held uses up
  one unit of usage.

Design notes.  A buffer counts the callers that hold it.  Its serial number tells it from another buffer
of the same page, loaded earlier or later.
-/
import RelStore.Storage.Page

namespace RelStore

/-- A page in memory, with what the cache knows about it. -/
structure Buffer where
  serial : Nat
  page : Page
  dirty : Bool := false
  holders : Nat := 0
deriving DecidableEq, Repr, Inhabited

/-- Whether a caller holds the buffer. -/
def Buffer.isHeld (b : Buffer) : Bool :=
  0 < b.holders

/-- A place for a buffer, and how often it was asked for. -/
structure Frame where
  usage : Nat := 0
  buffer : Option Buffer := none
deriving DecidableEq, Repr, Inhabited

namespace Frame

/-- Whether a caller holds the frame's buffer. -/
def isHeld (f : Frame) : Bool :=
  match f.buffer with
  | some b => b.isHeld
  | none => false

/-- Whether the frame can be reused at once. -/
def isFree (f : Frame) : Bool :=
  match f.buffer with
  | some b => f.usage = 0 && !b.isHeld
  | none => true

end Frame

/-- Frames in a ring, and the place of the hand. -/
structure Clock where
  frames : List Frame
  hand : Nat := 0
deriving DecidableEq, Repr, Inhabited

namespace Clock

/-- A clock of empty frames. -/
def ofSize (n : Nat) : Clock :=
  ⟨List.replicate n {}, 0⟩

/-- The number of frames. -/
def size (c : Clock) : Nat :=
  c.frames.length

/-- The hand one frame further. -/
def advance (c : Clock) : Clock :=
  { c with hand := (c.hand + 1) % c.frames.length }

/-- One taken from the usage of a frame. -/
def cool (c : Clock) (i : Nat) (f : Frame) : Clock :=
  { c with frames := c.frames.set i { f with usage := f.usage - 1 } }

/-- The usage of all frames together. -/
def total : List Frame → Nat
  | [] => 0
  | f :: frames => f.usage + total frames

theorem total_set_lt {frames : List Frame} {i : Nat} {f : Frame} (hf : frames[i]? = some f)
    (hu : 0 < f.usage) : total (frames.set i { f with usage := f.usage - 1 }) < total frames := by
  induction frames generalizing i with
  | nil => simp at hf
  | cons g gs ih =>
    cases i with
    | zero =>
      simp only [List.getElem?_cons_zero, Option.some.injEq] at hf
      subst hf
      simp only [List.set_cons_zero, total]
      omega
    | succ i =>
      simp only [List.getElem?_cons_succ] at hf
      have := ih hf
      simp only [List.set_cons_succ, total]
      omega

/-- A frame that is neither free nor held has been used. -/
theorem usage_pos {f : Frame} (hfree : f.isFree = false) (hheld : f.isHeld = false) :
    0 < f.usage := by
  unfold Frame.isFree at hfree
  unfold Frame.isHeld at hheld
  split at hfree
  · next b hb =>
    simp only [hb] at hheld
    simp only [hheld, Bool.not_false, Bool.and_true, decide_eq_false_iff_not] at hfree
    omega
  · cases hfree

/-- Passing a frame that is neither free nor held uses up one unit of usage. -/
theorem total_cool_lt {c : Clock} {f : Frame} (hf : c.frames[c.hand]? = some f)
    (hfree : f.isFree = false) (hheld : f.isHeld = false) :
    total (c.cool c.hand f).frames < total c.frames :=
  total_set_lt hf (usage_pos hfree hheld)

/-- Moves the hand on until it stands at a free frame. `run` held frames in a row lie behind it; when that
makes all frames, there is none to reuse. -/
def sweep (c : Clock) (run : Nat) : Option Nat × Clock :=
  match hf : c.frames[c.hand]? with
  | none => (none, c)
  | some f =>
    if hfree : f.isFree then (some c.hand, c)
    else if hheld : f.isHeld then
      if hrun : c.frames.length ≤ run + 1 then (none, c)
      else sweep c.advance (run + 1)
    else sweep (c.cool c.hand f).advance 0
termination_by total c.frames * (c.frames.length + 1) + (c.frames.length - run)
decreasing_by
  · simp only [advance]
    omega
  · simp only [Bool.not_eq_true] at hfree hheld
    have hlt := total_cool_lt hf hfree hheld
    have hlen : (c.cool c.hand f).advance.frames.length = c.frames.length := by
      simp [advance, cool]
    have htot : total (c.cool c.hand f).advance.frames = total (c.cool c.hand f).frames := rfl
    rw [hlen, htot]
    have := Nat.mul_le_mul_right (c.frames.length + 1) hlt
    rw [Nat.succ_mul] at this
    omega

/-- A frame to reuse: the hand stops at it. -/
def evict (c : Clock) : Option Nat × Clock :=
  c.sweep 0

/-- The frame at a place. -/
def frame? (c : Clock) (i : Nat) : Option Frame :=
  c.frames[i]?

/-- The clock with another frame at a place. -/
def setFrame (c : Clock) (i : Nat) (f : Frame) : Clock :=
  { c with frames := c.frames.set i f }

end Clock

end RelStore
