/-
Schemas and table records are read back from their bytes, and the bytes stand for nothing else.

* `Codec.Takes` — a reader takes a value off some bytes, whatever follows them;
* `Codec.Format` — a reader takes what a writer wrote, and what it takes from any bytes could have been written with no
  more of them;
* `Codec.format_list`, `Codec.format_option`, `Codec.format_text`, `Codec.Format.pair` — one rule for each way to put
  values together;
* `Codec.Format.decode_eq_none` — what is written is refused when it is cut off or goes on;
* `Codec.decode_writeTables` — a whole schema file is read back.

Design notes.  Lengths are written as words of 64 bits, so a value is asked to have no part that is longer (`Sized`).  A
length is never more than the number of bytes behind it, so bytes that can be counted in a word stand for such a value.
A number is read in longer forms than the one that is written: other bytes can stand for a value, but never fewer.
-/
import Mathlib.Tactic.SplitIfs
import RelStore.Codec.Record

namespace RelStore

namespace Codec

variable {α β : Type}

/-! ### Readers -/

section Readers

variable {read : Reader α} {next : α → Reader β} {bytes front rest : List UInt8} {x : α} {y : β}

/-- The reader takes a value off some bytes, whatever follows them. -/
def Takes (read : Reader α) (front : List UInt8) (x : α) : Prop :=
  ∀ rest, read (front ++ rest) = some (x, rest)

theorem bind_eq (h : read bytes = some (x, rest)) : (read >>= next) bytes = next x rest := by
  show (read bytes).bind _ = _
  rw [h]
  rfl

theorem bind_eq_some (h : (read >>= next) bytes = some (y, rest)) :
    ∃ x left, read bytes = some (x, left) ∧ next x left = some (y, rest) := by
  obtain ⟨⟨x, left⟩, hread, hnext⟩ := Option.bind_eq_some_iff.mp h
  exact ⟨x, left, hread, hnext⟩

theorem Takes.bind {front' : List UInt8} (h : Takes read front x) (hnext : Takes (next x) front' y) :
    Takes (read >>= next) (front ++ front') y := by
  intro rest
  rw [List.append_assoc, bind_eq (h _)]
  exact hnext rest

theorem Takes.bind_pure (h : Takes read front x) (f : α → β) : Takes (read >>= fun x => pure (f x)) front (f x) := by
  intro rest
  rw [bind_eq (h _)]
  rfl

end Readers

/-! ### Formats -/

/-- A reader takes what a writer wrote of a value without long parts.  What it takes from any bytes is such a value; it
is taken off a front of them, whatever follows, and is written with no more bytes. -/
structure Format (sized : α → Prop) (write : α → List UInt8) (read : Reader α) : Prop where
  takes : ∀ {x}, sized x → Takes read (write x) x
  taken : ∀ {bytes x rest}, read bytes = some (x, rest) →
    sized x ∧ ∃ front, bytes = front ++ rest ∧ Takes read front x ∧ (write x).length ≤ front.length

/-- A value is written with a byte at least, and has no long parts if its bytes can be counted in a word. -/
structure Measured (sized : α → Prop) (write : α → List UInt8) : Prop where
  pos : ∀ x, 0 < (write x).length
  sized : ∀ {x}, (write x).length < UInt64.size → sized x

namespace Format

variable {sized : α → Prop} {write : α → List UInt8} {read : Reader α} {x y : α} {bytes : List UInt8}

theorem decode_eq_some_iff : decode read bytes = some x ↔ read bytes = some (x, []) := by
  rw [decode]
  split
  · next hread => simp [hread]
  · next hnone => exact ⟨nofun, fun h => absurd h (hnone x)⟩

/-- What is written is read back, and nothing is left over. -/
theorem decode_write (h : Format sized write read) (hx : sized x) : decode read (write x) = some x := by
  have hread := h.takes hx []
  rw [List.append_nil] at hread
  exact decode_eq_some_iff.mpr hread

/-- Different values are written differently. -/
theorem write_inj (h : Format sized write read) (hx : sized x) (hy : sized y) (heq : write x = write y) : x = y := by
  have hdecode := h.decode_write hx
  rw [heq, h.decode_write hy] at hdecode
  exact (Option.some.inj hdecode).symm

/-- What is written is refused when it is cut off or goes on. -/
theorem decode_eq_none (h : Format sized write read) (hx : sized x) (hne : bytes ≠ write x)
    (hpart : bytes <+: write x ∨ write x <+: bytes) : decode read bytes = none := by
  refine Option.eq_none_iff_forall_ne_some.mpr fun y hdecode => hne ?_
  have hread := decode_eq_some_iff.mp hdecode
  rcases hpart with ⟨more, hmore⟩ | ⟨more, hmore⟩
  · -- the reader that stops at the end of the part stops there in the whole too
    obtain ⟨-, front, hfront, htakes, -⟩ := h.taken hread
    rw [List.append_nil] at hfront
    subst hfront
    have hwhole := h.takes hx []
    rw [List.append_nil, ← hmore, htakes] at hwhole
    rw [← hmore, (Prod.mk.inj (Option.some.inj hwhole)).2, List.append_nil]
  · rw [← hmore, h.takes hx] at hread
    rw [← hmore, (Prod.mk.inj (Option.some.inj hread)).2, List.append_nil]

/-- What is read from a whole input is written with no more bytes. -/
theorem length_write_le (h : Format sized write read) (hdecode : decode read bytes = some x) :
    sized x ∧ (write x).length ≤ bytes.length := by
  obtain ⟨hx, front, rfl, -, hlen⟩ := h.taken (decode_eq_some_iff.mp hdecode)
  rw [List.append_nil]
  exact ⟨hx, hlen⟩

/-- Two values, one after the other. -/
theorem pair {sized' : β → Prop} {write' : β → List UInt8} {read' : Reader β} (h : Format sized write read)
    (h' : Format sized' write' read') :
    Format (fun p : α × β => sized p.1 ∧ sized' p.2) (fun p => write p.1 ++ write' p.2)
      (do let x ← read; let y ← read'; pure (x, y)) where
  takes hp := (h.takes hp.1).bind ((h'.takes hp.2).bind_pure _)
  taken hboth := by
    obtain ⟨x, left, hx, hnext⟩ := bind_eq_some hboth
    obtain ⟨y, left', hy, hpure⟩ := bind_eq_some hnext
    cases hpure
    obtain ⟨hsized, front, rfl, htakes, hlen⟩ := h.taken hx
    obtain ⟨hsized', front', rfl, htakes', hlen'⟩ := h'.taken hy
    refine ⟨⟨hsized, hsized'⟩, front ++ front', (List.append_assoc ..).symm, htakes.bind (htakes'.bind_pure _), ?_⟩
    simp only [List.length_append]
    omega

/-- A value that is written as another one from which it can be made. -/
theorem map (h : Format sized write read) (make : α → β) (parts : β → α) (hparts : ∀ x, parts (make x) = x)
    (hmake : ∀ y, make (parts y) = y) :
    Format (fun y => sized (parts y)) (fun y => write (parts y)) (do let x ← read; pure (make x)) where
  takes {y} hy := by
    have htakes := (h.takes hy).bind_pure make
    rwa [hmake] at htakes
  taken hmade := by
    obtain ⟨x, left, hread, hpure⟩ := bind_eq_some hmade
    cases hpure
    obtain ⟨hx, front, rfl, htakes, hlen⟩ := h.taken hread
    exact ⟨(hparts x).symm ▸ hx, front, rfl, htakes.bind_pure make, (hparts x).symm ▸ hlen⟩

end Format

/-! ### Numbers -/

theorem taken_littleEndian {k n : Nat} {bytes rest : List UInt8}
    (h : Varint.readLittleEndian k bytes = some (n, rest)) :
    n < Nat.pow 256 k ∧ ∃ front, bytes = front ++ rest ∧ Takes (Varint.readLittleEndian k) front n
      ∧ front.length = k := by
  induction k generalizing bytes n with
  | zero =>
    cases h
    exact ⟨Nat.one_pos, [], rfl, fun _ => rfl, rfl⟩
  | succ k ih =>
    cases bytes with
    | nil => cases h
    | cons b bytes =>
      obtain ⟨⟨m, rest'⟩, hread, heq⟩ := Option.map_eq_some_iff.mp h
      cases heq
      obtain ⟨hm, front, rfl, htakes, hlen⟩ := ih hread
      have hb : b.toNat < 256 := b.toNat_lt
      refine ⟨?_, b :: front, rfl, fun more => ?_, congrArg (· + 1) hlen⟩
      · show b.toNat + 256 * m < Nat.pow 256 k * 256
        omega
      · rw [List.cons_append, Varint.readLittleEndian, htakes more]
        rfl

theorem length_littleEndian (k n : Nat) : (Varint.littleEndian k n).length = k := by
  induction k generalizing n with
  | zero => rfl
  | succ k ih => exact congrArg (· + 1) (ih _)

/-- How many bytes a number takes. -/
theorem length_varint (n : Nat) :
    (Varint.write n).length = if n < 251 then 1 else if n < 65536 then 3 else if n < 4294967296 then 5 else 9 := by
  rw [Varint.write]
  split_ifs <;> simp [length_littleEndian]

theorem length_varint_pos (n : Nat) : 0 < (Varint.write n).length := by
  rw [length_varint]
  split_ifs <;> decide

/-- A number is taken in each of its forms, of which the shortest is written. -/
theorem format_varint : Format (· < UInt64.size) Varint.write Varint.read where
  takes h := Varint.read_write h
  taken {bytes n rest} h := by
    have marked {mark : UInt8} {bytes : List UInt8} {k : Nat} (hk : k ≤ 8)
        (hmark : ∀ bytes, Varint.read (mark :: bytes) = Varint.readLittleEndian k bytes)
        (hlen : ∀ n < Nat.pow 256 k, (Varint.write n).length ≤ k + 1)
        (h : Varint.readLittleEndian k bytes = some (n, rest)) :
        n < UInt64.size ∧ ∃ front, mark :: bytes = front ++ rest ∧ Takes Varint.read front n
          ∧ (Varint.write n).length ≤ front.length := by
      obtain ⟨hn, front, rfl, htakes, rfl⟩ := taken_littleEndian h
      have hword : n < UInt64.size := Nat.lt_of_lt_of_le hn (Nat.pow_le_pow_right (by decide) hk)
      refine ⟨hword, mark :: front, rfl, fun more => ?_, hlen n hn⟩
      rw [List.cons_append, hmark, htakes]
    cases bytes with
    | nil => cases h
    | cons b bytes =>
      rw [Varint.read] at h
      split_ifs at h with hsmall htwo hfour height
      · cases h
        have hb : b.toNat < 251 := UInt8.lt_iff_toNat_lt.mp hsmall
        refine ⟨Nat.lt_trans hb (by decide), [b], rfl, fun more => ?_, ?_⟩
        · rw [List.singleton_append, Varint.read, if_pos hsmall]
        · rw [length_varint, if_pos hb]
          exact Nat.le_refl _
      · subst htwo
        exact marked (by decide) (fun _ => rfl) (fun n hn => by
          have hn : n < 65536 := hn
          rw [length_varint]
          split_ifs <;> omega) h
      · subst hfour
        exact marked (by decide) (fun _ => rfl) (fun n hn => by
          have hn : n < 4294967296 := hn
          rw [length_varint]
          split_ifs <;> omega) h
      · subst height
        exact marked (by decide) (fun _ => rfl) (fun n hn => by
          rw [length_varint]
          split_ifs <;> omega) h

/-! ### Lists, options and texts -/

section Parts

variable {sized : α → Prop} {write : α → List UInt8} {read : Reader α}

/-- A list that can be counted in a word, of values without long parts. -/
def SizedList (sized : α → Prop) (xs : List α) : Prop :=
  xs.length < UInt64.size ∧ ∀ x ∈ xs, sized x

/-- The value, if there is one, has no long parts. -/
def SizedOption (sized : α → Prop) (x : Option α) : Prop :=
  ∀ y ∈ x, sized y

/-- The bytes of the text can be counted in a word. -/
def SizedText (s : String) : Prop :=
  (textBytes s).length < UInt64.size

theorem takes_readMany (h : Format sized write read) {xs : List α} (hxs : ∀ x ∈ xs, sized x) :
    Takes (readMany read xs.length) (xs.flatMap write) xs := by
  induction xs with
  | nil => exact fun _ => rfl
  | cons x xs ih =>
    obtain ⟨hx, hxs⟩ := List.forall_mem_cons.mp hxs
    exact (h.takes hx).bind ((ih hxs).bind_pure _)

theorem taken_readMany (h : Format sized write read) {n : Nat} {bytes rest : List UInt8} {xs : List α}
    (hread : readMany read n bytes = some (xs, rest)) :
    xs.length = n ∧ (∀ x ∈ xs, sized x) ∧ ∃ front, bytes = front ++ rest ∧ Takes (readMany read n) front xs
      ∧ (xs.flatMap write).length ≤ front.length := by
  induction n generalizing bytes xs with
  | zero =>
    cases hread
    exact ⟨rfl, nofun, [], rfl, fun _ => rfl, Nat.le_refl _⟩
  | succ n ih =>
    obtain ⟨x, left, hx, hrest⟩ := bind_eq_some hread
    obtain ⟨xs, left', hxs, hpure⟩ := bind_eq_some hrest
    cases hpure
    obtain ⟨hsized, front, rfl, htakes, hlen⟩ := h.taken hx
    obtain ⟨rfl, hall, front', rfl, htakes', hlen'⟩ := ih hxs
    refine ⟨rfl, List.forall_mem_cons.mpr ⟨hsized, hall⟩, front ++ front', (List.append_assoc ..).symm,
      htakes.bind (htakes'.bind_pure _), ?_⟩
    rw [List.flatMap_cons, List.length_append, List.length_append]
    exact Nat.add_le_add hlen hlen'

theorem format_list (h : Format sized write read) : Format (SizedList sized) (writeList write) (readList read) where
  takes hxs := (format_varint.takes hxs.1).bind (takes_readMany h hxs.2)
  taken hread := by
    obtain ⟨n, left, hn, hmany⟩ := bind_eq_some hread
    obtain ⟨hcount, front, rfl, htakes, hlen⟩ := format_varint.taken hn
    obtain ⟨rfl, hall, front', rfl, htakes', hlen'⟩ := taken_readMany h hmany
    refine ⟨⟨hcount, hall⟩, front ++ front', (List.append_assoc ..).symm, htakes.bind htakes', ?_⟩
    rw [writeList, List.length_append, List.length_append]
    exact Nat.add_le_add hlen hlen'

theorem format_option (h : Format sized write read) :
    Format (SizedOption sized) (writeOption write) (readOption read) where
  takes {x} hx := by
    intro rest
    cases x with
    | none => rfl
    | some x =>
      rw [writeOption, List.cons_append, readOption, h.takes (hx x rfl) rest]
      rfl
  taken {bytes x rest} hread := by
    rw [readOption.eq_def] at hread
    split at hread
    · cases hread
      exact ⟨nofun, [0], rfl, fun _ => rfl, Nat.le_refl _⟩
    · obtain ⟨⟨y, left⟩, hy, heq⟩ := Option.map_eq_some_iff.mp hread
      cases heq
      obtain ⟨hsized, front, rfl, htakes, hlen⟩ := h.taken hy
      refine ⟨fun z hz => Option.mem_some.mp hz ▸ hsized, 1 :: front, rfl, fun more => ?_, Nat.succ_le_succ hlen⟩
      rw [List.cons_append, readOption, htakes more]
      rfl
    · cases hread

/-- The body of a text is taken off its bytes, once they are counted. -/
theorem takes_body (s : String) :
    Takes (readBytes (textBytes s).length >>= fun bytes => StateT.lift (textOfBytes? bytes)) (textBytes s) s := by
  intro rest
  have hbytes : readBytes (textBytes s).length (textBytes s ++ rest) = some (textBytes s, rest) := by
    simp [readBytes]
  rw [bind_eq hbytes, textOfBytes?_textBytes]
  rfl

theorem format_text : Format SizedText writeText readText where
  takes hs := (format_varint.takes hs).bind (takes_body _)
  taken {bytes s rest} hread := by
    obtain ⟨n, left, hn, hbody⟩ := bind_eq_some hread
    obtain ⟨body, left', hbytes, hlift⟩ := bind_eq_some hbody
    obtain ⟨s', hs, heq⟩ := Option.bind_eq_some_iff.mp hlift
    cases heq
    obtain rfl := textOfBytes?_eq_some_iff.mp hs
    obtain ⟨hcount, front, rfl, htakes, hlen⟩ := format_varint.taken hn
    have hbody : (textBytes s).length = n ∧ left = textBytes s ++ rest := by
      simp only [readBytes] at hbytes
      split_ifs at hbytes with hfull
      obtain ⟨hfront, hdrop⟩ := Prod.mk.inj (Option.some.inj hbytes)
      rw [← hfront, ← hdrop]
      exact ⟨hfull, (List.take_append_drop n left).symm⟩
    obtain ⟨rfl, rfl⟩ := hbody
    refine ⟨hcount, front ++ textBytes s, (List.append_assoc ..).symm, htakes.bind (takes_body s), ?_⟩
    rw [writeText, List.length_append, List.length_append]
    omega

theorem measured_list (h : Measured sized write) : Measured (SizedList sized) (writeList write) where
  pos xs := by
    have := length_varint_pos xs.length
    rw [writeList, List.length_append]
    omega
  sized {xs} hlen := by
    have hbody : (xs.flatMap write).length < UInt64.size := by
      rw [writeList, List.length_append] at hlen
      omega
    suffices hxs : xs.length ≤ (xs.flatMap write).length ∧ ∀ x ∈ xs, sized x from
      ⟨Nat.lt_of_le_of_lt hxs.1 hbody, hxs.2⟩
    clear hlen
    induction xs with
    | nil => exact ⟨Nat.zero_le _, nofun⟩
    | cons x xs ih =>
      have hpos := h.pos x
      rw [List.flatMap_cons, List.length_append] at hbody ⊢
      obtain ⟨hcount, hall⟩ := ih (by omega)
      refine ⟨?_, List.forall_mem_cons.mpr ⟨h.sized (by omega), hall⟩⟩
      rw [List.length_cons]
      omega

theorem measured_option (h : Measured sized write) : Measured (SizedOption sized) (writeOption write) where
  pos x := by cases x <;> exact Nat.succ_pos _
  sized {x} hlen y hy := by
    obtain rfl := Option.mem_def.mp hy
    exact h.sized (Nat.lt_of_succ_lt hlen)

theorem measured_text : Measured SizedText writeText where
  pos s := by
    have := length_varint_pos (textBytes s).length
    rw [writeText, List.length_append]
    omega
  sized {s} hlen := by
    rw [writeText, List.length_append] at hlen
    exact Nat.lt_of_le_of_lt (Nat.le_add_left ..) hlen

end Parts

/-! ### Schemas and tables -/

theorem format_type : Format (fun _ => True) writeType readType where
  takes {t} _ := by cases t <;> exact fun _ => rfl
  taken {bytes t rest} hread := by
    obtain ⟨n, left, hn, htype⟩ := bind_eq_some hread
    obtain ⟨-, front, rfl, htakes, hlen⟩ := format_varint.taken hn
    have hpos := length_varint_pos n
    have hone : (writeType t).length = 1 := by cases t <;> rfl
    split at htype
    · cases htype
      exact ⟨trivial, front, rfl, fun more => bind_eq (htakes more), by omega⟩
    · cases htype
      exact ⟨trivial, front, rfl, fun more => bind_eq (htakes more), by omega⟩
    · cases htype

end Codec

/-- No list and no text of the schema is too long to be counted in a word. -/
def Schema.Sized (s : Schema) : Prop :=
  Codec.SizedList (fun _ => True) s.types
    ∧ Codec.SizedOption (Codec.SizedList (Codec.SizedOption Codec.SizedText)) s.names

/-- No list and no text of the record is too long to be counted in a word. -/
def TableRecord.Sized (t : TableRecord) : Prop :=
  Codec.SizedText t.name ∧ Codec.SizedText t.file ∧ t.schema.Sized ∧ Codec.SizedOption Codec.SizedText t.key

namespace Codec

theorem format_schema : Format Schema.Sized writeSchema readSchema := by
  have hparts := (format_list format_type).pair (format_option (format_list (format_option format_text)))
  have hschema := hparts.map (fun p => Schema.mk p.1 p.2) (fun s => (s.types, s.names)) (fun _ => rfl) fun _ => rfl
  simp only [bind_assoc, pure_bind] at hschema
  exact hschema

theorem format_table : Format TableRecord.Sized writeTable readTable := by
  have hparts := format_text.pair (format_text.pair (format_schema.pair (format_option format_text)))
  have htable := hparts.map (fun p => TableRecord.mk p.1 p.2.1 p.2.2.1 p.2.2.2)
    (fun t => (t.name, t.file, t.schema, t.key)) (fun _ => rfl) fun _ => rfl
  simp only [bind_assoc, pure_bind, ← List.append_assoc] at htable
  exact htable

theorem format_tables : Format (SizedList TableRecord.Sized) writeTables readTables :=
  format_list format_table

theorem measured_schema : Measured Schema.Sized writeSchema where
  pos s := by
    have := length_varint_pos s.types.length
    simp only [writeSchema, writeList, List.length_append]
    omega
  sized {s} hlen := by
    have htype : Measured (fun _ => True) writeType := ⟨fun t => by cases t <;> exact Nat.one_pos, fun _ => trivial⟩
    rw [writeSchema, List.length_append] at hlen
    exact ⟨(measured_list htype).sized (by omega),
      (measured_option (measured_list (measured_option measured_text))).sized (by omega)⟩

theorem measured_table : Measured TableRecord.Sized writeTable where
  pos t := by
    have := measured_text.pos t.name
    simp only [writeTable, List.length_append]
    omega
  sized {t} hlen := by
    simp only [writeTable, List.length_append] at hlen
    exact ⟨measured_text.sized (by omega), measured_text.sized (by omega), measured_schema.sized (by omega),
      (measured_option measured_text).sized (by omega)⟩

/-- The tables of a schema file are read back, and nothing is left over. -/
theorem decode_writeTables {ts : List TableRecord} (h : (writeTables ts).length < UInt64.size) :
    decode readTables (writeTables ts) = some ts :=
  format_tables.decode_write ((measured_list measured_table).sized h)

end Codec

end RelStore
