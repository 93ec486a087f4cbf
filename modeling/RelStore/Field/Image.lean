/-
The bytes of a field.

Every field takes the width of its type: a number is four bytes, most significant first; a text is a
length word, its UTF-8 bytes and zeros up to the limit.  A text that is too long is cut after the last
whole character that fits.

* `Field.image` — the bytes of a field;
* `FieldType.parse` — a field back from bytes;
* `Field.stored` — the field as a page keeps it, with a long text cut;
* `Field.length_image` — an image has the width of the type;
* `FieldType.parse_image` — reading an image gives the stored field;
* `Field.image_stored` — cutting first changes no byte.

Design notes.  The cut is stated on characters: take them from the front while their bytes fit.
-/
import RelStore.Field

namespace RelStore

/-- A word of four bytes, most significant first. -/
def bigEndian (n : Nat) : List UInt8 :=
  [UInt8.ofNat (n / 16777216), UInt8.ofNat (n / 65536), UInt8.ofNat (n / 256), UInt8.ofNat n]

/-- The word in the first four bytes. -/
def readBigEndian : List UInt8 → Option Nat
  | a :: b :: c :: d :: _ =>
    some (a.toNat * 16777216 + b.toNat * 65536 + c.toNat * 256 + d.toNat)
  | _ => none

@[simp] theorem length_bigEndian (n : Nat) : (bigEndian n).length = 4 := rfl

/-- A word is read back from its bytes, whatever follows them. -/
theorem readBigEndian_append {n : Nat} (h : n < 4294967296) (rest : List UInt8) :
    readBigEndian (bigEndian n ++ rest) = some n := by
  simp only [bigEndian, List.cons_append, readBigEndian, UInt8.toNat_ofNat', Option.some.injEq]
  omega

/-- The longest run of characters from the front whose UTF-8 bytes fit into `room`. -/
def fitting : Nat → List Char → List Char
  | _, [] => []
  | room, c :: cs => if c.utf8Size ≤ room then c :: fitting (room - c.utf8Size) cs else []

/-- The number of UTF-8 bytes of some characters. -/
def utf8Length : List Char → Nat
  | [] => 0
  | c :: cs => c.utf8Size + utf8Length cs

/-- A text cut after the last whole character that fits into `room` bytes. -/
def cutText (room : Nat) (s : String) : String :=
  String.ofList (fitting room s.toList)

/-- The UTF-8 bytes of a text. -/
def textBytes (s : String) : List UInt8 :=
  s.toByteArray.data.toList

/-- The text with the given UTF-8 bytes, if they are valid. -/
def textOfBytes? (bytes : List UInt8) : Option String :=
  String.fromUTF8? ⟨bytes.toArray⟩

@[simp] theorem textOfBytes?_textBytes (s : String) : textOfBytes? (textBytes s) = some s := by
  simp only [textOfBytes?, textBytes, String.fromUTF8?]
  exact dif_pos s.isValidUTF8

/-- Reading accepts the bytes of a text and nothing else. -/
theorem textOfBytes?_eq_some_iff {bytes : List UInt8} {s : String} :
    textOfBytes? bytes = some s ↔ textBytes s = bytes := by
  refine ⟨fun h => ?_, fun h => h ▸ textOfBytes?_textBytes s⟩
  simp only [textOfBytes?, String.fromUTF8?] at h
  split at h <;> cases h
  rfl

namespace Field

/-- The field as a page keeps it: a long text is cut. -/
def stored : Field → Field
  | int v => int v
  | str s => str (cutText FieldType.textLimit s)

/-- The bytes of a field on a page. -/
def image : Field → List UInt8
  | int v => bigEndian v.toUInt32.toNat
  | str s =>
    let body := textBytes (cutText FieldType.textLimit s)
    bigEndian body.length ++ body ++ List.replicate (FieldType.textLimit - body.length) 0

end Field

/-- A field of the type from the front of `bytes`, if they hold one. -/
def FieldType.parse (type : FieldType) (bytes : List UInt8) : Option Field :=
  match type with
  | .int => (readBigEndian bytes).map (fun n => .int (UInt32.ofNat n).toInt32)
  | .str => do
    let length ← readBigEndian bytes
    let body := (bytes.drop 4).take length
    if length ≤ FieldType.textLimit ∧ body.length = length then
      (textOfBytes? body).map .str
    else
      none

theorem utf8Length_fitting (room : Nat) (cs : List Char) : utf8Length (fitting room cs) ≤ room := by
  induction cs generalizing room with
  | nil => simp [fitting, utf8Length]
  | cons c cs ih =>
    simp only [fitting]
    split
    · have := ih (room - c.utf8Size)
      simp only [utf8Length]
      omega
    · simp [utf8Length]

theorem fitting_of_le {room : Nat} {cs : List Char} (h : utf8Length cs ≤ room) :
    fitting room cs = cs := by
  induction cs generalizing room with
  | nil => rfl
  | cons c cs ih =>
    simp only [utf8Length] at h
    simp only [fitting, if_pos (show c.utf8Size ≤ room by omega)]
    rw [ih (by omega)]

/-- A cut text is not cut again. -/
theorem cutText_cutText (room : Nat) (s : String) : cutText room (cutText room s) = cutText room s := by
  simp only [cutText, String.toList_ofList]
  rw [fitting_of_le (utf8Length_fitting room s.toList)]

theorem length_textBytes_ofList (cs : List Char) :
    (textBytes (String.ofList cs)).length = utf8Length cs := by
  simp only [textBytes, String.toByteArray_ofList]
  rw [Array.length_toList]
  induction cs with
  | nil => rfl
  | cons c cs ih =>
    rw [List.utf8Encode_cons]
    simp only [ByteArray.data_append, Array.size_append, utf8Length, ih]
    congr 1
    simp [List.utf8Encode_singleton]

theorem length_textBytes_cutText (room : Nat) (s : String) :
    (textBytes (cutText room s)).length ≤ room := by
  rw [cutText, length_textBytes_ofList]
  exact utf8Length_fitting room s.toList

namespace Field

@[simp] theorem type_stored (f : Field) : f.stored.type = f.type := by cases f <;> rfl

theorem image_stored (f : Field) : f.stored.image = f.image := by
  cases f with
  | int v => rfl
  | str s => simp only [stored, image, cutText_cutText]

theorem length_image (f : Field) : f.image.length = f.type.width := by
  cases f with
  | int v => rfl
  | str s =>
    have := length_textBytes_cutText FieldType.textLimit s
    simp only [image, type, FieldType.width, List.length_append, length_bigEndian,
      List.length_replicate]
    omega

end Field

/-- A field is read back from its image as a page keeps it, whatever follows. -/
theorem FieldType.parse_image (f : Field) (rest : List UInt8) :
    f.type.parse (f.image ++ rest) = some f.stored := by
  cases f with
  | int v =>
    have h : v.toUInt32.toNat < 4294967296 := v.toUInt32.toNat_lt
    simp only [Field.type, FieldType.parse, Field.image, readBigEndian_append h, Option.map_some,
      Field.stored, UInt32.ofNat_toNat, Int32.toInt32_toUInt32]
  | str s =>
    have hlen := length_textBytes_cutText FieldType.textLimit s
    simp only [Field.type, FieldType.parse, Field.image, Field.stored, List.append_assoc]
    generalize hb : textBytes (cutText FieldType.textLimit s) = body at hlen ⊢
    have h128 : body.length ≤ 128 := hlen
    rw [readBigEndian_append (by omega)]
    have hbody : ((bigEndian body.length ++ (body
        ++ (List.replicate (FieldType.textLimit - body.length) 0 ++ rest))).drop 4).take body.length
        = body := by
      rw [List.drop_left' (length_bigEndian _), List.take_left']
      rfl
    simp only [Option.bind_eq_bind, Option.bind_some, hbody]
    rw [if_pos ⟨hlen, trivial⟩, ← hb, textOfBytes?_textBytes]
    rfl

end RelStore
