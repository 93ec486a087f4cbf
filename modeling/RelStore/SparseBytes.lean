/-
Bytes with gaps.

A file that is written far past its end holds zeros up to there.  The zeros of such a gap are counted and
not kept, so that a file costs what was written to it.

* `SparseBytes.toList` — the bytes one by one, the only thing that others may rely on;
* `SparseBytes.take`, `SparseBytes.drop`, `SparseBytes.append` — as on lists (`SparseBytes.toList_take`,
  `SparseBytes.toList_drop`, `SparseBytes.toList_append`);
* `SparseBytes.splice` — bytes written over a place in other bytes (`SparseBytes.toList_splice`);
* `SparseBytes.trimmed` — the bytes up to the last one that is not zero (`SparseBytes.trimmed_eq`).

Design notes.  Bytes are a sequence of runs, cut where something was written.  The same bytes have many such
sequences, so statements compare lists.
-/
import RelStore.Text.Hex

namespace RelStore

/-- Bytes written over a place in other bytes. A gap before the place is filled with zeros, unless nothing is
written. -/
def spliceAt (old : List UInt8) (offset : Nat) (new : List UInt8) : List UInt8 :=
  if new = [] then old
  else
    old.take offset ++ List.replicate (offset - old.length) 0 ++ new
      ++ old.drop (offset + new.length)

@[simp] theorem spliceAt_nil (old : List UInt8) (offset : Nat) : spliceAt old offset [] = old := rfl

/-- A part of some bytes: zeros, or bytes as they are. -/
inductive Run where
  | zeros (count : Nat)
  | bytes (content : Array UInt8)
deriving DecidableEq, Repr, Inhabited

namespace Run

/-- The bytes of a run. -/
def toList : Run → List UInt8
  | zeros count => List.replicate count 0
  | bytes content => content.toList

/-- The number of bytes of a run. -/
def length : Run → Nat
  | zeros count => count
  | bytes content => content.size

/-- The first bytes of a run. -/
def take (n : Nat) : Run → Run
  | zeros count => zeros (min n count)
  | bytes content => bytes (content.extract 0 n)

/-- A run without its first bytes. -/
def drop (n : Nat) : Run → Run
  | zeros count => zeros (count - n)
  | bytes content => bytes (content.extract n content.size)

/-- Whether a run is one of counted zeros. -/
def isGap : Run → Bool
  | zeros _ => true
  | bytes _ => false

theorem length_toList (r : Run) : r.toList.length = r.length := by
  cases r <;> simp [toList, length]

@[simp] theorem toList_take (n : Nat) (r : Run) : (r.take n).toList = r.toList.take n := by
  cases r <;> simp [toList, take]

@[simp] theorem toList_drop (n : Nat) (r : Run) : (r.drop n).toList = r.toList.drop n := by
  cases r <;> simp [toList, drop, List.take_of_length_le]

end Run

/-- Bytes as a sequence of runs. -/
structure SparseBytes where
  runs : List Run := []
deriving DecidableEq, Repr, Inhabited

namespace SparseBytes

/-- The bytes one by one. -/
def toList (b : SparseBytes) : List UInt8 :=
  b.runs.flatMap Run.toList

/-- Some bytes without gaps. -/
def ofList (bytes : List UInt8) : SparseBytes :=
  ⟨[.bytes bytes.toArray]⟩

/-- Some zeros. -/
def zeros (count : Nat) : SparseBytes :=
  ⟨if count = 0 then [] else [.zeros count]⟩

/-- The number of bytes. -/
def length (b : SparseBytes) : Nat :=
  b.runs.foldl (fun n r => n + r.length) 0

/-- The runs of the first bytes. -/
def takeRuns : Nat → List Run → List Run
  | _, [] => []
  | n, r :: rest => if n = 0 then [] else r.take n :: takeRuns (n - r.length) rest

/-- The runs after the first bytes. -/
def dropRuns : Nat → List Run → List Run
  | _, [] => []
  | n, r :: rest => if n < r.length then r.drop n :: rest else dropRuns (n - r.length) rest

/-- The first bytes. -/
def take (n : Nat) (b : SparseBytes) : SparseBytes :=
  ⟨takeRuns n b.runs⟩

/-- The bytes after the first ones. -/
def drop (n : Nat) (b : SparseBytes) : SparseBytes :=
  ⟨dropRuns n b.runs⟩

/-- One after the other. -/
def append (a b : SparseBytes) : SparseBytes :=
  ⟨a.runs ++ b.runs⟩

/-- Bytes brought to a length at least, with zeros added at the end. -/
def padded (size : Nat) (b : SparseBytes) : SparseBytes :=
  b.append (zeros (size - b.length))

/-- Bytes written over a place in other bytes. A gap before the place is filled with zeros, unless nothing is
written. -/
def splice (old : SparseBytes) (offset : Nat) (new : List UInt8) : SparseBytes :=
  if new = [] then old
  else
    (((old.take offset).append (zeros (offset - old.length))).append (ofList new)).append
      (old.drop (offset + new.length))

/-- The bytes up to the last one that is not zero. -/
def trimmed (b : SparseBytes) : List UInt8 :=
  Hex.trimmed (toList ⟨(b.runs.reverse.dropWhile Run.isGap).reverse⟩)

@[simp] theorem toList_ofList (bytes : List UInt8) : (ofList bytes).toList = bytes := by
  simp [ofList, toList, Run.toList]

@[simp] theorem toList_zeros (count : Nat) : (zeros count).toList = List.replicate count 0 := by
  by_cases h : count = 0 <;> simp [zeros, toList, Run.toList, h]

@[simp] theorem toList_append (a b : SparseBytes) :
    (a.append b).toList = a.toList ++ b.toList := by
  simp [append, toList]

theorem foldl_length (runs : List Run) (n : Nat) :
    runs.foldl (fun n r => n + r.length) n = n + (runs.flatMap Run.toList).length := by
  induction runs generalizing n with
  | nil => rfl
  | cons r rest ih =>
    simp only [List.foldl_cons, ih, List.flatMap_cons, List.length_append, Run.length_toList]
    omega

theorem length_eq (b : SparseBytes) : b.length = b.toList.length := by
  simp [length, toList, foldl_length]

theorem flatMap_takeRuns (n : Nat) (runs : List Run) :
    (takeRuns n runs).flatMap Run.toList = (runs.flatMap Run.toList).take n := by
  induction runs generalizing n with
  | nil => simp [takeRuns]
  | cons r rest ih =>
    by_cases h : n = 0
    · simp [takeRuns, h]
    · simp [takeRuns, h, ih, List.take_append, Run.length_toList]

theorem flatMap_dropRuns (n : Nat) (runs : List Run) :
    (dropRuns n runs).flatMap Run.toList = (runs.flatMap Run.toList).drop n := by
  induction runs generalizing n with
  | nil => simp [dropRuns]
  | cons r rest ih =>
    by_cases h : n < r.length
    · have hz := Nat.sub_eq_zero_of_le (Nat.le_of_lt h)
      simp [dropRuns, h, List.drop_append, Run.length_toList, hz]
    · have hd : r.toList.drop n = [] := List.drop_eq_nil_of_le (by rw [Run.length_toList]; omega)
      simp [dropRuns, h, ih, List.drop_append, Run.length_toList, hd]

@[simp] theorem toList_take (n : Nat) (b : SparseBytes) : (b.take n).toList = b.toList.take n :=
  flatMap_takeRuns n b.runs

@[simp] theorem toList_drop (n : Nat) (b : SparseBytes) : (b.drop n).toList = b.toList.drop n :=
  flatMap_dropRuns n b.runs

theorem toList_splice (old : SparseBytes) (offset : Nat) (new : List UInt8) :
    (old.splice offset new).toList = spliceAt old.toList offset new := by
  by_cases h : new = [] <;> simp [splice, spliceAt, length_eq, h]

theorem dropWhile_reverse_flatMap (runs : List Run) :
    ((runs.dropWhile Run.isGap).flatMap fun r => r.toList.reverse).dropWhile (· == 0)
      = (runs.flatMap fun r => r.toList.reverse).dropWhile (· == 0) := by
  induction runs with
  | nil => rfl
  | cons r rest ih =>
    cases r with
    | bytes content => simp [Run.isGap]
    | zeros count =>
      have hz : ∀ x ∈ (Run.zeros count).toList.reverse, (x == 0) = true := by simp [Run.toList]
      rw [List.flatMap_cons, List.dropWhile_append_of_pos hz, ← ih]
      rw [List.dropWhile_cons_of_pos rfl]

/-- Gaps at the end do not count. -/
theorem trimmed_eq (b : SparseBytes) : b.trimmed = Hex.trimmed b.toList := by
  simp only [trimmed, Hex.trimmed, toList, List.reverse_flatMap, List.reverse_reverse]
  exact congrArg List.reverse (dropWhile_reverse_flatMap b.runs.reverse)

end SparseBytes

end RelStore
