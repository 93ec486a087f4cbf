/-
The image of a field, byte by byte.

* `IsCut` — the longest text from the front of another one that ends behind a character and has room;
* `isCut_cutText` — what a page keeps of a text is cut so;
* `FieldType.image_of_parse_int`, `FieldType.image_of_parse_str` — the image of a field that was read is what was read,
  with zeros behind a text;
* `FieldType.getElem?_image_of_parse` — the same, told of each byte.
-/
import RelStore.Proofs.Storage.PageImage

namespace RelStore

/-! ### Cutting a text -/

/-- A text from the front of another one, which ends behind a character, takes no more bytes than there is room for,
and goes at least as far as any such text. -/
structure IsCut (room : Nat) (whole part : String) : Prop where
  front : part.toList <+: whole.toList
  fits : (textBytes part).length ≤ room
  longest : ∀ other : String, other.toList <+: whole.toList → (textBytes other).length ≤ room →
    other.toList <+: part.toList

theorem front_fitting (room : Nat) (cs : List Char) : fitting room cs <+: cs := by
  induction cs generalizing room with
  | nil => exact List.prefix_refl _
  | cons c cs ih =>
    rw [fitting]
    split
    · exact (List.cons_prefix_cons.mpr ⟨rfl, ih _⟩)
    · exact List.nil_prefix

theorem longest_fitting {room : Nat} {cs ds : List Char} (h : ds <+: cs) (hlen : utf8Length ds ≤ room) :
    ds <+: fitting room cs := by
  induction cs generalizing room ds with
  | nil => exact h
  | cons c cs ih =>
    cases ds with
    | nil => exact List.nil_prefix
    | cons d ds =>
      obtain ⟨rfl, hds⟩ := List.cons_prefix_cons.mp h
      rw [utf8Length] at hlen
      rw [fitting, if_pos (by omega)]
      exact List.cons_prefix_cons.mpr ⟨rfl, ih hds (by omega)⟩

theorem isCut_cutText (room : Nat) (s : String) : IsCut room s (cutText room s) where
  front := by
    rw [cutText, String.toList_ofList]
    exact front_fitting room s.toList
  fits := length_textBytes_cutText room s
  longest := fun other hfront hlen => by
    rw [cutText, String.toList_ofList]
    rw [← String.ofList_toList (s := other), length_textBytes_ofList] at hlen
    exact longest_fitting hfront hlen

/-- The field as a page keeps it: a number as it is, and of a text as much as there is room for. -/
inductive Field.KeptAs : Field → Field → Prop
  | int (v : Int32) : KeptAs (.int v) (.int v)
  | str {s t : String} (hcut : IsCut FieldType.textLimit s t) : KeptAs (.str s) (.str t)

theorem Field.keptAs_stored (f : Field) : f.KeptAs f.stored := by
  cases f with
  | int v => exact .int v
  | str s => exact .str (isCut_cutText ..)

/-! ### Reading and writing again -/

/-- A word is written as the bytes that it was read from. -/
theorem bigEndian_of_readBigEndian {bytes : List UInt8} {n : Nat} (h : readBigEndian bytes = some n) :
    bigEndian n = bytes.take 4 ∧ n < 4294967296 := by
  match bytes, h with
  | a :: b :: c :: d :: rest, h =>
    have ha := a.toNat_lt
    have hb := b.toNat_lt
    have hc := c.toNat_lt
    have hd := d.toNat_lt
    simp only [readBigEndian, Option.some.injEq] at h
    refine ⟨?_, by omega⟩
    simp only [bigEndian, List.take_succ_cons, List.take_zero, List.cons.injEq, ← UInt8.toNat_inj,
      UInt8.toNat_ofNat', and_true]
    omega

/-- A word is in the first four bytes. -/
theorem readBigEndian_take {width : Nat} (h : 4 ≤ width) (bytes : List UInt8) :
    readBigEndian (bytes.take width) = readBigEndian bytes := by
  obtain ⟨k, rfl⟩ := Nat.exists_eq_add_of_le' h
  match bytes with
  | a :: b :: c :: d :: rest => simp [readBigEndian]
  | [] | [_] | [_, _] | [_, _, _] => simp [readBigEndian]

namespace FieldType

variable {bytes rest : List UInt8} {f : Field}

theorem image_of_parse_int (h : FieldType.int.parse bytes = some f) : f.image = bytes.take 4 := by
  obtain ⟨n, hn, rfl⟩ := Option.map_eq_some_iff.mp h
  obtain ⟨hbytes, hlt⟩ := bigEndian_of_readBigEndian hn
  rw [← hbytes, Field.image]
  congr 1
  simp
  omega

/-- A text that was read keeps its length word and its bytes, and zeros stand behind them. -/
theorem image_of_parse_str (h : FieldType.str.parse bytes = some f) :
    ∃ length, readBigEndian bytes = some length ∧ length ≤ textLimit ∧ 4 + length ≤ bytes.length
      ∧ f.image = bytes.take (4 + length) ++ List.replicate (textLimit - length) 0 := by
  simp only [parse, Option.bind_eq_bind, Option.bind_eq_some_iff] at h
  obtain ⟨length, hword, h⟩ := h
  split at h
  · next hfits =>
    obtain ⟨hle, hlen⟩ := hfits
    obtain ⟨s, hs, rfl⟩ := Option.map_eq_some_iff.mp h
    have hbody : textBytes s = (bytes.drop 4).take length := textOfBytes?_eq_some_iff.mp hs
    have hlength : (textBytes s).length = length := by rw [hbody, hlen]
    refine ⟨length, hword, hle, ?_, ?_⟩
    · have hfour := congrArg List.length (bigEndian_of_readBigEndian hword).1
      simp only [length_bigEndian, List.length_take, List.length_drop] at hfour hlen
      omega
    · rw [Field.image, cutText_of_length_le (hlength ▸ hle), hlength, (bigEndian_of_readBigEndian hword).1, hbody,
        ← List.take_add]
  · cases h

/-- The byte stands behind the text of a field that begins at the front of some bytes. -/
def Behind (t : FieldType) (bytes : List UInt8) (o : Nat) : Prop :=
  t = .str ∧ ∃ length, readBigEndian bytes = some length ∧ 4 + length ≤ o

/-- The image of a field that was read: zeros behind a text, and what was read everywhere else. -/
theorem getElem?_image_of_parse {t : FieldType} (h : t.parse (bytes.take t.width) = some f) {o : Nat}
    (ho : o < t.width) :
    (t.Behind bytes o → f.image[o]? = some 0) ∧ (¬ t.Behind bytes o → f.image[o]? = bytes[o]?) := by
  cases t with
  | int =>
    refine ⟨fun hbehind => absurd hbehind.1 (by decide), fun _ => ?_⟩
    have ho : o < 4 := ho
    rw [image_of_parse_int h, List.take_take, List.getElem?_take_of_lt (by simp only [width]; omega)]
  | str =>
    obtain ⟨length, hword, hle, hlen, himage⟩ := image_of_parse_str h
    have ho : o < 4 + textLimit := ho
    rw [readBigEndian_take (by decide)] at hword
    rw [List.length_take] at hlen
    have htake : (bytes.take FieldType.str.width).take (4 + length) = bytes.take (4 + length) := by
      rw [List.take_take, Nat.min_eq_left (by simp only [width]; omega)]
    rw [himage, htake]
    constructor
    · rintro ⟨-, length', hword', hbehind⟩
      cases hword.symm.trans hword'
      rw [List.getElem?_append_right (by rw [List.length_take]; omega), List.length_take, List.getElem?_replicate,
        if_pos (by omega)]
    · intro hnot
      have hfront : o < 4 + length := Nat.lt_of_not_le fun hbehind => hnot ⟨rfl, length, hword, hbehind⟩
      rw [List.getElem?_append_left (by rw [List.length_take]; omega), List.getElem?_take_of_lt hfront]

end FieldType

end RelStore
