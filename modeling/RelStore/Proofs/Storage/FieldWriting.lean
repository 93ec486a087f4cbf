/-
Fields written behind other bytes.

* `lastBoundary` — the place where a text is cut: the last boundary of characters that is not behind a byte;
* `lastBoundary_eq` — it is where the longest text ends that has room (`IsCut`), so both say the same about the cut;
* `Field.write` — a field is written at the end of a buffer, its text up to that boundary and zeros behind it;
* `Field.write_eq` — the buffer stays, and the image of the field stands behind it;
* `Page.bytes_eq_writeSlot` — a page is its bitmap with slot after slot written behind it;
* `Field.ReadsAs` — what is read back of a field, and when that is all of it;
* `Field.write_parse` — writing, reading and writing again.

Design notes.  A boundary is a place in the bytes, a cut of `IsCut` a list of characters.  What connects the two is that a
place is a boundary exactly if characters from the front end there (`isValid_iff_exists_front`).
-/
import RelStore.Proofs.Storage.FieldImage

namespace RelStore

/-! ### Boundaries of characters -/

/-- The last place not behind byte `n` where a character of the text begins or its end is. -/
def lastBoundary (s : String) : Nat → Nat
  | 0 => 0
  | n + 1 => if (String.Pos.Raw.mk (n + 1)).isValid s then n + 1 else lastBoundary s n

/-- A place is a boundary exactly if characters from the front end there. -/
theorem isValid_iff_exists_front {s : String} {n : Nat} :
    (String.Pos.Raw.mk n).isValid s = true
      ↔ ∃ part : String, part.toList <+: s.toList ∧ (textBytes part).length = n := by
  rw [String.Pos.Raw.isValid_eq_true_iff, String.Pos.Raw.isValid_iff_exists_append]
  constructor
  · rintro ⟨part, rest, rfl, hn⟩
    refine ⟨part, ?_, (congrArg String.Pos.Raw.byteIdx hn).symm⟩
    rw [String.toList_append]
    exact List.prefix_append ..
  · rintro ⟨part, ⟨rest, hrest⟩, rfl⟩
    refine ⟨part, String.ofList rest, ?_, rfl⟩
    rw [← String.toList_inj, String.toList_append, String.toList_ofList, hrest]

/-- The bytes of characters from the front are those at the front. -/
theorem textBytes_of_front {s part : String} (h : part.toList <+: s.toList) :
    textBytes part = (textBytes s).take (textBytes part).length := by
  obtain ⟨rest, hrest⟩ := h
  have happend : s = part ++ String.ofList rest := by
    rw [← String.toList_inj, String.toList_append, String.toList_ofList, hrest]
  have hbytes : textBytes s = textBytes part ++ textBytes (String.ofList rest) := by
    rw [happend]
    simp only [textBytes, String.toByteArray_append, ByteArray.data_append, Array.toList_append]
  rw [hbytes, List.take_left]

/-- A text ends at the last boundary, and goes on to no other that is not behind the byte. -/
theorem exists_front_lastBoundary (s : String) (n : Nat) :
    lastBoundary s n ≤ n
      ∧ (∃ part : String, part.toList <+: s.toList ∧ (textBytes part).length = lastBoundary s n)
      ∧ ∀ part : String, part.toList <+: s.toList → (textBytes part).length ≤ n →
        (textBytes part).length ≤ lastBoundary s n := by
  induction n with
  | zero => exact ⟨Nat.le_refl _, ⟨"", List.nil_prefix, rfl⟩, fun _ _ h => h⟩
  | succ n ih =>
    obtain ⟨hle, hfront, hlast⟩ := ih
    rw [lastBoundary]
    split
    · next hvalid =>
      exact ⟨Nat.le_refl _, isValid_iff_exists_front.mp hvalid, fun _ _ h => h⟩
    · next hvalid =>
      refine ⟨Nat.le_succ_of_le hle, hfront, fun part hpart hlen => hlast part hpart ?_⟩
      -- no characters from the front end at the byte itself
      have hne : (textBytes part).length ≠ n + 1 := fun heq =>
        hvalid (isValid_iff_exists_front.mpr ⟨part, hpart, heq⟩)
      omega

/-- What is cut ends at the last boundary that there is room for. -/
theorem lastBoundary_eq {room : Nat} {s t : String} (h : IsCut room s t) :
    lastBoundary s (min (textBytes s).length room) = (textBytes t).length := by
  obtain ⟨hle, ⟨part, hpart, hlen⟩, hlast⟩ := exists_front_lastBoundary s (min (textBytes s).length room)
  have hfront := congrArg List.length (textBytes_of_front h.front)
  have hfits := h.fits
  rw [List.length_take] at hfront
  have hlow := hlast t h.front (by omega)
  have hhigh := congrArg List.length (textBytes_of_front (h.longest part hpart (by omega)))
  rw [List.length_take] at hhigh
  omega

theorem utf8Length_add_three_fitting {room : Nat} {cs : List Char} (h : room < utf8Length cs) :
    room ≤ utf8Length (fitting room cs) + 3 := by
  induction cs generalizing room with
  | nil => exact absurd h (Nat.not_lt_zero _)
  | cons c cs ih =>
    rw [utf8Length] at h
    rw [fitting]
    split
    · have hrest : room - c.utf8Size < utf8Length cs := by omega
      have := ih hrest
      rw [utf8Length]
      omega
    · have := c.utf8Size_le_four
      omega

/-- A text that is too long loses less than a character of what there is room for. -/
theorem IsCut.room_le {room : Nat} {s t : String} (h : IsCut room s t) (hlong : room < (textBytes s).length) :
    room - 3 ≤ (textBytes t).length := by
  have hcut := lastBoundary_eq (isCut_cutText room s)
  rw [lastBoundary_eq h] at hcut
  rw [← String.ofList_toList (s := s), length_textBytes_ofList] at hlong
  have := utf8Length_add_three_fitting hlong
  rw [hcut, cutText, length_textBytes_ofList]
  omega

/-! ### Writing a field -/

/-- Writes a field at the end of a buffer.  A text is cut at the last boundary that there is room for, and the buffer is
filled up with zeros. -/
def Field.write (f : Field) (buffer : List UInt8) : List UInt8 :=
  match f with
  | int v => buffer ++ bigEndian v.toUInt32.toNat
  | str s =>
    let stop := lastBoundary s (min (textBytes s).length FieldType.textLimit)
    let written := buffer ++ bigEndian stop ++ (textBytes s).take stop
    resize (written.length + FieldType.textLimit - stop) written

theorem resize_of_le {size : Nat} {bytes : List UInt8} (h : bytes.length ≤ size) :
    resize size bytes = bytes ++ List.replicate (size - bytes.length) 0 := by
  rw [resize, List.take_of_length_le h]

/-- The buffer stays, and the image of the field stands behind it. -/
theorem Field.write_eq (f : Field) (buffer : List UInt8) : f.write buffer = buffer ++ f.image := by
  cases f with
  | int v => rfl
  | str s =>
    have hcut := isCut_cutText FieldType.textLimit s
    have hstop := lastBoundary_eq hcut
    have hbody := textBytes_of_front hcut.front
    have hfits := hcut.fits
    have hzeros : ∀ n, n + FieldType.textLimit - (textBytes (cutText FieldType.textLimit s)).length - n
        = FieldType.textLimit - (textBytes (cutText FieldType.textLimit s)).length := by
      omega
    simp only [write, image, hstop]
    rw [← hbody, resize_of_le (by omega), hzeros]
    simp only [List.append_assoc]

/-- Writes a slot at the end of a buffer. -/
def Page.writeSlot (width : Nat) (buffer : List UInt8) : Option Row → List UInt8
  | some r => r.fields.foldl (fun buffer f => f.write buffer) buffer
  | none => resize (buffer.length + width) buffer

theorem Field.foldl_write (fields : List Field) (buffer : List UInt8) :
    fields.foldl (fun buffer f => f.write buffer) buffer = buffer ++ fields.flatMap Field.image := by
  induction fields generalizing buffer with
  | nil => simp
  | cons f fields ih => rw [List.foldl_cons, ih, Field.write_eq, List.append_assoc, List.flatMap_cons]

theorem Page.writeSlot_eq (width : Nat) (buffer : List UInt8) (slot : Option Row) :
    writeSlot width buffer slot = buffer ++ slotBytes width slot := by
  cases slot with
  | some r => exact Field.foldl_write r.fields buffer
  | none => rw [writeSlot, slotBytes, resize_of_le (Nat.le_add_right ..), Nat.add_sub_cancel_left]

/-- A page is its bitmap with slot after slot written behind it, brought to the page size. -/
theorem Page.bytes_eq_writeSlot (p : Page) :
    p.bytes = resize p.size (p.slots.foldl (writeSlot p.schema.width) (bytesOfBits p.bitmap)) := by
  have hslots : ∀ (slots : List (Option Row)) (buffer : List UInt8),
      slots.foldl (writeSlot p.schema.width) buffer = buffer ++ slots.flatMap (slotBytes p.schema.width) := by
    intro slots
    induction slots with
    | nil => simp
    | cons slot slots ih =>
      intro buffer
      rw [List.foldl_cons, ih, writeSlot_eq, List.append_assoc, List.flatMap_cons]
  rw [hslots, bytes]

/-! ### Writing, reading and writing again -/

/-- What is read back of a field that was written: a number, or as much of a text as there is room for, which is all of it
just when it is within the limit, and otherwise at most three bytes less than the limit. -/
inductive Field.ReadsAs : Field → Field → Prop
  | int (v : Int32) : ReadsAs (.int v) (.int v)
  | str {s t : String} (hcut : IsCut FieldType.textLimit s t)
    (hwhole : t = s ↔ (textBytes s).length ≤ FieldType.textLimit)
    (hlong : FieldType.textLimit < (textBytes s).length → FieldType.textLimit - 3 ≤ (textBytes t).length) :
    ReadsAs (.str s) (.str t)

theorem Field.readsAs_stored (f : Field) : f.ReadsAs f.stored := by
  cases f with
  | int v => exact .int v
  | str s =>
    have hcut := isCut_cutText FieldType.textLimit s
    refine .str hcut ⟨fun hwhole => ?_, cutText_of_length_le⟩ hcut.room_le
    rw [← hwhole]
    exact hcut.fits

/-- A field is written behind any buffer as bytes of the width of its type.  They are read back, whatever follows them, as
the number or the text up to the last boundary that there is room for, and this is written as the same bytes again.
Whatever bytes a field is read from, it is read again from what is written of it. -/
theorem Field.write_parse :
    (∀ f : Field, ∃ bytes g, bytes.length = f.type.width ∧ (∀ buffer, f.write buffer = buffer ++ bytes)
        ∧ (∀ rest, f.type.parse (bytes ++ rest) = some g) ∧ f.ReadsAs g
        ∧ ∀ buffer, g.write buffer = f.write buffer)
      ∧ ∀ (t : FieldType) (bytes : List UInt8) (g : Field), t.parse bytes = some g →
        ∃ image, (∀ buffer, g.write buffer = buffer ++ image) ∧ ∀ rest, t.parse (image ++ rest) = some g := by
  constructor
  · intro f
    refine ⟨f.image, f.stored, f.length_image, f.write_eq, FieldType.parse_image f, f.readsAs_stored, fun buffer => ?_⟩
    rw [write_eq, write_eq, image_stored]
  · intro t bytes g hparse
    obtain ⟨rfl, hstored⟩ := FieldType.parse_eq_some hparse
    refine ⟨g.image, g.write_eq, fun rest => ?_⟩
    rw [FieldType.parse_image, hstored]

/-- A text of 130 bytes, the last four of which are one character. -/
def straddlingText : String :=
  String.ofList (List.replicate 126 'a' ++ [Char.ofNat 0x1F600])

/-- A character that has no room as a whole is left out; and a text is read from a width that was not filled with zeros. -/
theorem write_parse_straddlingText :
    (∃ bytes t, bytes.length = 132 ∧ (∀ buffer, (Field.str straddlingText).write buffer = buffer ++ bytes)
        ∧ (∀ rest, FieldType.str.parse (bytes ++ rest) = some (.str t))
        ∧ IsCut 128 straddlingText t ∧ t ≠ straddlingText ∧ 125 ≤ (textBytes t).length)
      ∧ FieldType.str.parse (bigEndian 1 ++ [97, 7]) = some (.str "a")
      ∧ ∃ image, (∀ buffer, (Field.str "a").write buffer = buffer ++ image)
        ∧ ∀ rest, FieldType.str.parse (image ++ rest) = some (.str "a") := by
  have hread : FieldType.str.parse (bigEndian 1 ++ [97, 7]) = some (.str "a") := by decide +kernel
  have hlength : (textBytes straddlingText).length = 130 := by decide +kernel
  obtain ⟨hwritten, hagain⟩ := Field.write_parse
  refine ⟨?_, hread, hagain _ _ _ hread⟩
  obtain ⟨bytes, g, hwidth, hwrite, hparse, hreads, -⟩ := hwritten (.str straddlingText)
  -- only the length of the text matters from here on
  generalize straddlingText = s at hlength hreads hwrite ⊢
  cases hreads with
  | str hcut hwhole hlong =>
    rw [hlength] at hwhole hlong
    exact ⟨bytes, _, hwidth, hwrite, hparse, hcut, fun heq => absurd (hwhole.mp heq) (by decide), hlong (by decide)⟩

end RelStore
