/-
The bytes of a schema file stand for its tables and for nothing else.

* `Codec.Exact` — bytes that are read back, that differ where the values differ, that cannot be cut off or go on, and
  of which there are no fewer for the same value;
* `SchemaFile.read_of_save`, `SchemaFile.load_of_decode_eq_none` — what a saving leaves in the file, and what a loading
  says to bytes that it cannot read;
* `SchemaFile.exact_bytes` — the bytes of tables and of a single schema are exact, and a schema file that was cut off or
  goes on is refused.

Design notes.  Nothing is asked of the tables but that their parts can be counted in a word: a schema without columns or
with too few names is written and read like any other.
-/
import RelStore.Proofs.Catalog.Saving

namespace RelStore

namespace Codec

variable {α : Type} {sized : α → Prop} {write : α → List UInt8} {read : Reader α}

/-- Bytes that stand for values exactly. -/
structure Exact (sized : α → Prop) (write : α → List UInt8) (read : Reader α) : Prop where
  /-- What is written is read back, and every byte of it is used up. -/
  decode_write : ∀ x, sized x → read (write x) = some (x, []) ∧ decode read (write x) = some x
  /-- Different values are written differently. -/
  injective : ∀ x y, sized x → sized y → write x = write y → x = y
  /-- What is written is refused when it is cut off or goes on. -/
  rejects : ∀ x bytes, sized x → bytes ≠ write x → bytes <+: write x ∨ write x <+: bytes → decode read bytes = none
  /-- Other bytes can stand for a value too, but never fewer than are written. -/
  shortest : ∀ bytes x, decode read bytes = some x →
    (write x).length ≤ bytes.length ∧ decode read (write x) = some x

theorem Format.exact (h : Format sized write read) : Exact sized write read where
  decode_write x hx := ⟨Format.decode_eq_some_iff.mp (h.decode_write hx), h.decode_write hx⟩
  injective x y hx hy heq := h.write_inj hx hy heq
  rejects x bytes hx hne hpart := h.decode_eq_none hx hne hpart
  shortest bytes x hdecode := by
    obtain ⟨hx, hlen⟩ := h.length_write_le hdecode
    exact ⟨hlen, h.decode_write hx⟩

end Codec

namespace SchemaFile

variable {c : Catalog} {d d' : Disk} {text : String}

/-- A saving leaves the bytes of the tables in the file, and no others. -/
theorem read_of_save (h : save d c text = .ok d') : d'.read text = .ok (.ofList (Codec.writeTables (c.records d))) := by
  rw [save, Disk.replace] at h
  cases hpath : d.resolveNew text with
  | error e => simp [hpath] at h
  | ok p =>
    simp only [hpath, Except.ok.injEq] at h
    subst h
    rw [Disk.read, Disk.resolveFile_of_resolveNew (Disk.resolveNew_put hpath p _)]
    simp [Disk.put]

/-- Bytes that stand for no tables end a loading before anything is opened. -/
theorem load_of_decode_eq_none {bytes : SparseBytes} (hread : d.read text = .ok bytes)
    (hdecode : Codec.decode Codec.readTables bytes.toList = none) (c : Catalog) (pageSize : Nat) :
    load d c text pageSize = (.error (.decoding (d.absolute text)), c, d) := by
  rw [load, hread]
  simp only [hdecode]

/-- The bytes of tables and those of a single schema are exact.  A saving writes these bytes, and a schema file that
holds them cut off or going on is refused by a loading, which then changes nothing. -/
theorem exact_bytes :
    Codec.Exact (Codec.SizedList TableRecord.Sized) Codec.writeTables Codec.readTables
      ∧ Codec.Exact Schema.Sized Codec.writeSchema Codec.readSchema
      ∧ (∀ d c text d', save d c text = .ok d' →
          d'.read text = .ok (.ofList (Codec.writeTables (c.records d))))
      ∧ ∀ (d : Disk) (c : Catalog) (text : String) (pageSize : Nat) (ts : List TableRecord) (bytes : SparseBytes),
          Codec.SizedList TableRecord.Sized ts → d.read text = .ok bytes → bytes.toList ≠ Codec.writeTables ts →
            bytes.toList <+: Codec.writeTables ts ∨ Codec.writeTables ts <+: bytes.toList →
              load d c text pageSize = (.error (.decoding (d.absolute text)), c, d) :=
  ⟨Codec.format_tables.exact, Codec.format_schema.exact, fun _ _ _ _ hsave => read_of_save hsave,
    fun _ c _ pageSize _ _ hts hread hne hpart =>
      load_of_decode_eq_none hread (Codec.format_tables.decode_eq_none hts hne hpart) c pageSize⟩

/-- A table without columns, with the names of two. -/
def oddRecord : TableRecord := ⟨"odd", "odd.dat", ⟨[], some [none, some "b"]⟩, some "c"⟩

/-- A disk with a schema file of that table, which has lost its last byte. -/
def cutFile : Disk := Disk.empty.put ["s"] (.ofList (Codec.writeTables [oddRecord]).dropLast)

/-- Even such a table is read back, and a file that has lost a byte is refused. -/
theorem exact_bytes_oddRecord :
    Codec.decode Codec.readTables (Codec.writeTables [oddRecord]) = some [oddRecord]
      ∧ load cutFile Catalog.empty "s" 64 = (.error (.decoding "/s"), Catalog.empty, cutFile) := by
  have hshort : (Codec.writeTables [oddRecord]).length < UInt64.size := by decide
  have hsized := (Codec.measured_list Codec.measured_table).sized hshort
  have hread : cutFile.read "s" = .ok (.ofList (Codec.writeTables [oddRecord]).dropLast) := by decide +kernel
  obtain ⟨htables, -, -, hload⟩ := exact_bytes
  refine ⟨(htables.decode_write [oddRecord] hsized).2, hload _ _ "s" 64 [oddRecord] _ hsized hread ?_ (.inl ?_)⟩
  · rw [SparseBytes.toList_ofList]
    decide
  · rw [SparseBytes.toList_ofList]
    exact List.dropLast_prefix _

end SchemaFile

end RelStore
