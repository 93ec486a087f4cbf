/-
Numbers of variable length.

A number below 251 is one byte.  Larger ones are a marker byte and 2, 4 or 8 bytes, least significant
first.  A reader accepts a longer form than needed; it refuses the remaining marker bytes.

* `Varint.write` — the shortest form of a number below 2^64;
* `Varint.read` — a number from the front of some bytes, with the rest;
* `Varint.read_write` — reading gives back what was written, whatever follows.
-/

namespace RelStore

/-- A reader takes a value from the front of some bytes, or refuses them. -/
abbrev Reader (α : Type) := StateT (List UInt8) Option α

namespace Varint

/-- The low `k` bytes of a number, least significant first. -/
def littleEndian : Nat → Nat → List UInt8
  | 0, _ => []
  | k + 1, n => UInt8.ofNat n :: littleEndian k (n / 256)

/-- A number of `k` bytes, least significant first. -/
def readLittleEndian : Nat → Reader Nat
  | 0, bytes => some (0, bytes)
  | _ + 1, [] => none
  | k + 1, b :: bytes => (readLittleEndian k bytes).map (fun p => (b.toNat + 256 * p.1, p.2))

/-- The shortest form of a number below 2^64. -/
def write (n : Nat) : List UInt8 :=
  if n < 251 then [UInt8.ofNat n]
  else if n < 65536 then 251 :: littleEndian 2 n
  else if n < 4294967296 then 252 :: littleEndian 4 n
  else 253 :: littleEndian 8 n

/-- A number in any of its forms. -/
def read : Reader Nat
  | [] => none
  | b :: bytes =>
    if b < 251 then some (b.toNat, bytes)
    else if b = 251 then readLittleEndian 2 bytes
    else if b = 252 then readLittleEndian 4 bytes
    else if b = 253 then readLittleEndian 8 bytes
    else none

theorem readLittleEndian_append (k n : Nat) (h : n < Nat.pow 256 k) (rest : List UInt8) :
    readLittleEndian k (littleEndian k n ++ rest) = some (n, rest) := by
  induction k generalizing n with
  | zero =>
    have : n = 0 := Nat.lt_one_iff.1 h
    simp [littleEndian, readLittleEndian, this]
  | succ k ih =>
    have hk : n / 256 < Nat.pow 256 k := (Nat.div_lt_iff_lt_mul (by decide)).2 h
    simp only [littleEndian, List.cons_append, readLittleEndian, ih _ hk, Option.map_some,
      UInt8.toNat_ofNat', Option.some.injEq, Prod.mk.injEq, and_true]
    omega

/-- A number is read back from its shortest form. -/
theorem read_write {n : Nat} (h : n < 18446744073709551616) (rest : List UInt8) :
    read (write n ++ rest) = some (n, rest) := by
  unfold write
  split
  · next h1 =>
    have hb : (UInt8.ofNat n) < 251 := by
      rw [UInt8.lt_iff_toNat_lt]; simp; omega
    simp only [List.cons_append, List.nil_append, read, if_pos hb, UInt8.toNat_ofNat',
      Option.some.injEq, Prod.mk.injEq, and_true]
    omega
  · split
    · exact readLittleEndian_append 2 n (by simpa using ‹n < 65536›) rest
    · split
      · exact readLittleEndian_append 4 n (by simpa using ‹n < 4294967296›) rest
      · exact readLittleEndian_append 8 n (by simpa using h) rest

end Varint

end RelStore
