/-
Pages of a heap file.

A page is a bitmap of its used slots, then the slots, then padding:

    | bitmap: one bit a slot, in whole bytes | slot 0 | slot 1 | ... | zeros |

Bit `i % 8` of byte `i / 8` stands for slot `i`.  A slot holds the fields of one row side by side.

* `slotCount` — how many slots a page has: each costs its row and one bit;
* `Page.decode`, `Page.bytes` — a page from its bytes, and back;
* `Page.insert` — stores a row in the first empty slot;
* `Page.delete` — empties the slot that a row's record id names.

Beside them stand the laws of the parts: bytes are read back from their bits (`bytesOfBits_bitsOfBytes`) and
rows from their images (`readFields_images`).

Design notes.  The bitmap and the slots say the same about the slots twice; the bitmap is kept because
its bits past the last slot are free bits that survive reading and writing.
-/
import RelStore.Field.Image
import RelStore.Storage.Error

namespace RelStore

/-- The bits of a byte, lowest first. -/
def bitsOfByte (b : UInt8) : List Bool :=
  (List.range 8).map b.toNat.testBit

/-- The bits of some bytes. -/
def bitsOfBytes (bytes : List UInt8) : List Bool :=
  bytes.flatMap bitsOfByte

/-- The number with the given bits, lowest first. -/
def natOfBits : List Bool → Nat
  | [] => 0
  | b :: bits => b.toNat + 2 * natOfBits bits

/-- The bytes with the given bits. Bits that do not fill a byte are left out. -/
def bytesOfBits : List Bool → List UInt8
  | a :: b :: c :: d :: e :: f :: g :: h :: rest =>
    UInt8.ofNat (natOfBits [a, b, c, d, e, f, g, h]) :: bytesOfBits rest
  | _ => []

/-- Bytes brought to a length, with zeros added or the end cut off. -/
def resize (size : Nat) (bytes : List UInt8) : List UInt8 :=
  bytes.take size ++ List.replicate (size - bytes.length) 0

/-- The number of rows that a page has room for. The bits of a page are counted in a word of 64 bits. -/
def slotCount (schema : Schema) (pageSize : Nat) : Nat :=
  pageSize * 8 % UInt64.size / (schema.width * 8 + 1)

/-- The bytes of a bitmap. -/
def bitmapSize (slots : Nat) : Nat :=
  (slots + 7) / 8

theorem natOfBits_testBit : ∀ n : Fin 256, natOfBits ((List.range 8).map n.val.testBit) = n.val := by
  decide +kernel

/-- A byte has its bits. -/
theorem natOfBits_bitsOfByte (b : UInt8) : natOfBits (bitsOfByte b) = b.toNat :=
  natOfBits_testBit ⟨b.toNat, b.toNat_lt⟩

@[simp] theorem length_bitsOfByte (b : UInt8) : (bitsOfByte b).length = 8 := rfl

/-- Bytes are read back from their bits. -/
theorem bytesOfBits_bitsOfBytes (bytes : List UInt8) : bytesOfBits (bitsOfBytes bytes) = bytes := by
  induction bytes with
  | nil => rfl
  | cons b bytes ih =>
    have hb : bitsOfByte b = [b.toNat.testBit 0, b.toNat.testBit 1, b.toNat.testBit 2,
        b.toNat.testBit 3, b.toNat.testBit 4, b.toNat.testBit 5, b.toNat.testBit 6,
        b.toNat.testBit 7] := rfl
    have hn := natOfBits_bitsOfByte b
    simp only [bitsOfBytes, List.flatMap_cons] at ih ⊢
    rw [hb] at hn ⊢
    simp only [List.cons_append, List.nil_append, bytesOfBits, hn, ih, UInt8.ofNat_toNat]

theorem length_bitsOfBytes (bytes : List UInt8) : (bitsOfBytes bytes).length = 8 * bytes.length := by
  induction bytes with
  | nil => rfl
  | cons b bytes ih =>
    simp only [bitsOfBytes, List.flatMap_cons, List.length_append, length_bitsOfByte,
      List.length_cons] at ih ⊢
    omega

@[simp] theorem length_resize (size : Nat) (bytes : List UInt8) : (resize size bytes).length = size := by
  simp only [resize, List.length_append, List.length_take, List.length_replicate]
  omega

/-- The fields of one row from the front of some bytes. -/
def readFields : List FieldType → List UInt8 → Option (List Field)
  | [], _ => some []
  | t :: types, bytes =>
    match t.parse (bytes.take t.width), readFields types (bytes.drop t.width) with
    | some f, some fs => some (f :: fs)
    | _, _ => none

/-- The images of some fields together have the width of their types. -/
theorem length_images (fields : List Field) :
    (fields.flatMap Field.image).length = Schema.totalWidth (fields.map Field.type) := by
  induction fields with
  | nil => rfl
  | cons f fields ih =>
    simp only [List.flatMap_cons, List.length_append, Field.length_image, ih, List.map_cons,
      Schema.totalWidth]

/-- The fields of a row are read back from their images as a page keeps them. -/
theorem readFields_images (fields : List Field) (rest : List UInt8) :
    readFields (fields.map Field.type) (fields.flatMap Field.image ++ rest)
      = some (fields.map Field.stored) := by
  induction fields with
  | nil => rfl
  | cons f fields ih =>
    simp only [List.map_cons, List.flatMap_cons, List.append_assoc, readFields]
    rw [List.take_left' (Field.length_image f), List.drop_left' (Field.length_image f), ih,
      show f.image = f.image ++ [] from (List.append_nil _).symm, FieldType.parse_image]

/-- A page in memory. -/
structure Page where
  id : PageId
  schema : Schema
  size : Nat
  bitmap : List Bool
  slots : List (Option Row)
deriving DecidableEq, Repr, Inhabited

namespace Page

/-- The slots from slot `i` on: one for each bit, read from consecutive row images. -/
def readSlots (id : PageId) (schema : Schema) (i : Nat) :
    List Bool → List UInt8 → Option (List (Option Row))
  | [], _ => some []
  | used :: bits, bytes =>
    match readSlots id schema (i + 1) bits (bytes.drop schema.width) with
    | none => none
    | some rest =>
      if used then
        (readFields schema.types bytes).map (fun fs => some ⟨schema, fs, some ⟨id, i⟩⟩ :: rest)
      else some (none :: rest)

/-- The page with the given bytes. The number of bytes is the page size. -/
def decode (id : PageId) (schema : Schema) (bytes : List UInt8) : Except StorageError Page :=
  let slots := slotCount schema bytes.length
  let bitmap := bitsOfBytes (bytes.take (bitmapSize slots))
  match readSlots id schema 0 (bitmap.take slots) (bytes.drop (bitmapSize slots)) with
  | some rows => .ok ⟨id, schema, bytes.length, bitmap, rows⟩
  | none => .error (.corrupt id)

/-- The bytes of an empty page. -/
def emptyBytes (size : Nat) : SparseBytes :=
  .zeros size

/-- A page without rows. -/
def empty (id : PageId) (schema : Schema) (size : Nat) : Except StorageError Page :=
  decode id schema (emptyBytes size).toList

/-- The bytes of a slot. -/
def slotBytes (width : Nat) : Option Row → List UInt8
  | some r => r.fields.flatMap Field.image
  | none => List.replicate width 0

/-- The bytes of a page. -/
def bytes (p : Page) : List UInt8 :=
  resize p.size (bytesOfBits p.bitmap ++ p.slots.flatMap (slotBytes p.schema.width))

/-- The rows in slot order. -/
def rows (p : Page) : List Row :=
  p.slots.filterMap (fun s => s)

/-- The slots that hold a row. -/
def usedSlots (p : Page) : List Nat :=
  p.slots.zipIdx.filterMap fun (slot, i) => slot.map fun _ => i

/-- The number of empty slots. -/
def emptySlots (p : Page) : Nat :=
  p.slots.countP Option.isNone

/-- Whether the slot holds a row. -/
def isUsed (p : Page) (slot : Nat) : Bool :=
  match p.slots[slot]? with
  | some (some _) => true
  | _ => false

/-- The page with another content in one slot, and the bit of the slot set to match. -/
def setSlot (p : Page) (slot : Nat) (content : Option Row) : Page :=
  { p with slots := p.slots.set slot content, bitmap := p.bitmap.set slot content.isSome }

/-- Stores a row in the first empty slot. The row must have the types of the page. -/
def insert (p : Page) (r : Row) : Except StorageError (RecordId × Page) :=
  if r.schema.agrees p.schema && Row.wellTyped p.schema r.fields then
    match p.slots.findIdx? Option.isNone with
    | some slot =>
      .ok (⟨p.id, slot⟩, p.setSlot slot (some { r with record := some ⟨p.id, slot⟩ }))
    | none => .error (.pageFull p.id)
  else .error (.mismatch p.schema r.schema)

/-- Empties the slot that the row's record id names. -/
def delete (p : Page) (r : Row) : Except StorageError Page :=
  match r.record with
  | none => .error .missingRecordId
  | some record =>
    if record.page ≠ p.id then .error (.notOnPage record p.id)
    else if p.isUsed record.slot then .ok (p.setSlot record.slot none)
    else .error (.slotEmpty p.id record.slot)

@[simp] theorem slots_setSlot (p : Page) (slot : Nat) (content : Option Row) :
    (p.setSlot slot content).slots = p.slots.set slot content := rfl

@[simp] theorem bitmap_setSlot (p : Page) (slot : Nat) (content : Option Row) :
    (p.setSlot slot content).bitmap = p.bitmap.set slot content.isSome := rfl

theorem isUsed_iff {p : Page} {slot : Nat} :
    p.isUsed slot = true ↔ ∃ r, p.slots[slot]? = some (some r) := by
  unfold isUsed
  split
  · next r h => simp [h]
  · next h => simpa using fun r hr => h r hr

/-- The bytes of a page are as many as the page size. -/
@[simp] theorem length_bytes (p : Page) : p.bytes.length = p.size :=
  length_resize _ _

end Page

end RelStore
