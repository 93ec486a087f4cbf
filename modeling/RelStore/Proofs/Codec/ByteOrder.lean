/-
Texts stand in the order of their UTF-8 bytes.

* `textBytes_eq_flatMap` — the bytes of a text are those of its characters;
* `utf8EncodeChar_lt` — a smaller character has smaller bytes, whatever follows;
* `textBytes_lt_iff` — so the order of the characters and the order of the bytes are the same.
-/
import Mathlib.Data.String.Basic
import Mathlib.Tactic.SplitIfs
import RelStore.Field.Image

namespace RelStore

/-- The bytes of a text are those of its characters. -/
theorem textBytes_eq_flatMap (s : String) : textBytes s = s.toList.flatMap String.utf8EncodeChar := by
  rw [textBytes, ← String.ofList_toList (s := s), String.toByteArray_ofList, String.toList_ofList]
  simp [List.utf8Encode]

/-- A number below 2 ^ 21 has four digits, of which the last three fill six bits each. -/
theorem eq_digits {n : Nat} (h : n < 2097152) :
    n = n / 262144 % 8 * 262144 + n / 4096 % 64 * 4096 + n / 64 % 64 * 64 + n % 64 := by
  omega

theorem toNat_ofNat_of_lt_256 {n : Nat} (h : n < 256) : (UInt8.ofNat n).toNat = n :=
  UInt8.toNat_ofNat_of_lt' h

/-- A smaller character has smaller bytes, whatever follows: more bytes begin with a greater one, and as many bytes
hold the digits of the number from the front. -/
theorem utf8EncodeChar_lt {a b : Char} (h : a < b) (xs ys : List UInt8) :
    String.utf8EncodeChar a ++ xs < String.utf8EncodeChar b ++ ys := by
  have hab : a.val.toNat < b.val.toNat := UInt32.lt_iff_toNat_lt.mp h
  have hb : b.val.toNat < 1114112 := by
    rcases b.valid with hlow | ⟨-, hhigh⟩
    · exact Nat.lt_trans hlow (by decide)
    · exact hhigh
  simp only [String.utf8EncodeChar]
  generalize a.val.toNat = m at *
  generalize b.val.toNat = n at *
  have hm := eq_digits (n := m) (by omega)
  have hn := eq_digits (n := n) (by omega)
  split_ifs <;>
    simp (disch := omega) only [List.cons_append, List.nil_append, List.cons_lt_cons_iff, UInt8.lt_iff_toNat_lt,
      ← UInt8.toNat_inj, toNat_ofNat_of_lt_256] <;>
    omega

theorem flatMap_lt {cs ds : List Char} (h : cs < ds) :
    cs.flatMap String.utf8EncodeChar < ds.flatMap String.utf8EncodeChar := by
  induction h with
  | nil =>
    rename_i d ds
    rw [List.flatMap_nil, List.flatMap_cons]
    cases hd : String.utf8EncodeChar d with
    | nil => simp at hd
    | cons b bs => exact List.nil_lt_cons ..
  | rel hlt => exact utf8EncodeChar_lt hlt ..
  | cons hrest ih => exact List.append_left_lt ih

/-- The order of the characters of texts is the order of their bytes. -/
theorem textBytes_lt_iff {s t : String} : textBytes s < textBytes t ↔ s < t := by
  have hmono : ∀ {s t : String}, s < t → textBytes s < textBytes t := fun {s t} h => by
    rw [textBytes_eq_flatMap, textBytes_eq_flatMap]
    exact flatMap_lt (String.lt_iff_toList_lt.mp h)
  refine ⟨fun h => ?_, hmono⟩
  rcases lt_trichotomy s t with hlt | rfl | hgt
  · exact hlt
  · exact absurd h (List.lt_irrefl _)
  · exact absurd h (List.lt_asymm (hmono hgt))

end RelStore
