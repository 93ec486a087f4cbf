/-
Bytes written in hexadecimal, two lower-case digits a byte.

* `Hex.encode` — the text of some bytes;
* `Hex.decode?` — the bytes of a text, if it is one;
* `Hex.trimmed` — the bytes up to the last one that is not zero.
-/

namespace RelStore.Hex

/-- A digit below sixteen. -/
def digit (n : Nat) : Char :=
  if n < 10 then Char.ofNat (48 + n) else Char.ofNat (87 + n)

/-- The value of a digit. -/
def value? (c : Char) : Option Nat :=
  if '0' ≤ c ∧ c ≤ '9' then some (c.toNat - 48)
  else if 'a' ≤ c ∧ c ≤ 'f' then some (c.toNat - 87)
  else none

/-- The text of some bytes. -/
def encode (bytes : List UInt8) : String :=
  String.ofList (bytes.flatMap fun b => [digit (b.toNat / 16), digit (b.toNat % 16)])

/-- The bytes of a list of digits. -/
def decodeDigits? : List Char → Option (List UInt8)
  | [] => some []
  | a :: b :: rest => do
    let high ← value? a
    let low ← value? b
    let bytes ← decodeDigits? rest
    pure (UInt8.ofNat (16 * high + low) :: bytes)
  | _ => none

/-- The bytes of a text. -/
def decode? (s : String) : Option (List UInt8) :=
  decodeDigits? s.toList

/-- The bytes up to the last one that is not zero. -/
def trimmed (bytes : List UInt8) : List UInt8 :=
  (bytes.reverse.dropWhile (· == 0)).reverse

end RelStore.Hex
