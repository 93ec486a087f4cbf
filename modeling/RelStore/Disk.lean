/-
A disk: directories and files of bytes below one root.

* `Disk.resolve` — the canonical path that a path text leads to;
* `Disk.resolveNew` — the same for a file that may have to be made;
* `Disk.openFile` — a file for reading and writing, made if it is missing;
* `Disk.read`, `Disk.replace` — all bytes of a file at once;
* `Disk.makeDirectory` — a directory, and those above it;
* `Disk.contents` — the bytes of an open file, and `Disk.readAt`, `Disk.writeAt` for some of them
  (`Disk.readAt_eq`, `Disk.contents_of_writeAt`);
* `Disk.exists_writeAt` — a write that leaves no gap is never refused;
* `Disk.contents_of_writeAt_of_ne` — a write changes its own file only.

Design notes.  An open file is known by its canonical path, since files are neither moved nor removed.
The root of the disk is mounted somewhere.  A path text that starts with a slash is absolute: it leads to the
disk if it goes on with the mount point.  Any other one is meant from the root of the disk.
-/
import RelStore.Assoc
import RelStore.Row
import RelStore.SparseBytes

namespace RelStore

/-- Why a disk does not do what was asked. -/
inductive DiskError where
  | notFound
  | isADirectory
  | notADirectory
  | alreadyExists
  | unexpectedEnd
  | nameTooLong
  | zeroCharacter
  | placeTooFar
deriving DecidableEq, Repr, Inhabited

/-- The name of a disk error. -/
def DiskError.name : DiskError → String
  | notFound => "NotFound"
  | isADirectory => "IsADirectory"
  | notADirectory => "NotADirectory"
  | alreadyExists => "AlreadyExists"
  | unexpectedEnd => "UnexpectedEof"
  | nameTooLong => "InvalidFilename"
  | zeroCharacter => "InvalidInput"
  | placeTooFar => "InvalidInput"

/-- Files and directories. The root is a directory without being listed. -/
structure Disk where
  /-- The absolute text of the place where the root is mounted. -/
  mount : String := ""
  files : Assoc Path SparseBytes := {}
  directories : List Path := []
deriving DecidableEq, Repr, Inhabited

namespace Disk

/-- The disk without files. -/
def empty : Disk := {}

/-- The absolute text of the place that a path text is meant for. -/
def absolute (d : Disk) (text : String) : String :=
  if Path.isAbsolute text then text else d.mount ++ "/" ++ text

/-- A path text as one from the root of the disk; none if it is absolute and leads elsewhere. -/
def relative? (d : Disk) (text : String) : Option String :=
  let root := (d.mount ++ "/").toList
  if !Path.isAbsolute text then some text
  else if root.isPrefixOf text.toList then some (String.ofList (text.toList.drop root.length))
  else none

/-- A path text as one from the root of the disk, if it leads there. -/
def relative (d : Disk) (text : String) : String :=
  (d.relative? text).getD text

/-- Whether the path is that of a directory. -/
def isDirectory (d : Disk) (p : Path) : Bool :=
  p = [] || d.directories.contains p

/-- The greatest number of bytes in the name of a file or a directory. -/
def maxNameBytes : Nat := 255

/-- Follows some names from the directory `current`. The last name may be missing. -/
def walk (d : Disk) (current : Path) : List String → Except DiskError Path
  | [] => .ok current
  | name :: rest =>
    if name = "" ∨ name = "." then d.walk current rest
    else if name = ".." then d.walk current.dropLast rest
    else if maxNameBytes < name.utf8ByteSize then .error .nameTooLong
    else
      let next := current ++ [name]
      if d.isDirectory next then d.walk next rest
      else if rest = [] then .ok next
      else if d.files.contains next then .error .notADirectory
      else .error .notFound

/-- The greatest number of bytes in a path text. -/
def maxTextBytes : Nat := 4095

/-- The names in a path text, from the root of the disk. A text with a zero character names nothing. No place
outside the disk is known but the root of all places, which counts as that of the disk. -/
def names (d : Disk) (text : String) : Except DiskError (List String) :=
  if text.toList.contains '\x00' then .error .zeroCharacter
  else
    match d.relative? text with
    | some inner =>
      if maxTextBytes < inner.utf8ByteSize then .error .nameTooLong else .ok (Path.names inner)
    | none => if (Path.names text).any Path.isProper then .error .notFound else .ok []

/-- The canonical path that a path text leads to. The last name may be missing. -/
def resolve (d : Disk) (text : String) : Except DiskError Path :=
  match d.names text with
  | .error e => .error e
  | .ok names => d.walk [] names

/-- The bytes of a file; a file that is not there has none. -/
def bytes (d : Disk) (p : Path) : SparseBytes :=
  (d.files.get? p).getD {}

/-- The bytes of a file, one by one. -/
def contents (d : Disk) (p : Path) : List UInt8 :=
  (d.bytes p).toList

/-- The number of bytes of a file. -/
def fileSize (d : Disk) (p : Path) : Nat :=
  (d.bytes p).length

/-- The disk with other bytes in a file. -/
def put (d : Disk) (p : Path) (bytes : SparseBytes) : Disk :=
  { d with files := d.files.insert p bytes }

/-- The path that a text leads to, if it is not that of a directory. -/
def resolveFile (d : Disk) (text : String) : Except DiskError Path :=
  match d.resolve text with
  | .error e => .error e
  | .ok p => if d.isDirectory p then .error .isADirectory else .ok p

/-- The path of a file that may have to be made. A slash after the last name asks for a directory, which is
refused without a look at that name. -/
def resolveNew (d : Disk) (text : String) : Except DiskError Path :=
  match d.names text with
  | .error e => .error e
  | .ok names =>
    if names.getLast? = some "" then
      match d.walk [] ((Path.trimmed names).dropLast ++ ["."]) with
      | .error e => .error e
      | .ok _ => .error .isADirectory
    else
      match d.walk [] names with
      | .error e => .error e
      | .ok p => if d.isDirectory p then .error .isADirectory else .ok p

/-- Opens a file for reading and writing. A missing file is made, empty. -/
def openFile (d : Disk) (text : String) : Except DiskError (Path × Disk) :=
  match d.resolveNew text with
  | .error e => .error e
  | .ok p => .ok (p, if d.files.contains p then d else d.put p {})

/-- All bytes of a file. -/
def read (d : Disk) (text : String) : Except DiskError SparseBytes :=
  match d.resolveFile text with
  | .error e => .error e
  | .ok p =>
    match d.files.get? p with
    | some bytes => .ok bytes
    | none => .error .notFound

/-- Replaces the bytes of a file. A missing file is made. -/
def replace (d : Disk) (text : String) (bytes : SparseBytes) : Except DiskError Disk :=
  match d.resolveNew text with
  | .error e => .error e
  | .ok p => .ok (d.put p bytes)

/-- Makes the directory that some names lead to. The one above it must be there. -/
def addDirectory (d : Disk) (names : List String) : Except DiskError Disk :=
  match d.walk [] names with
  | .error e => .error e
  | .ok p =>
    if d.isDirectory p || d.files.contains p then .error .alreadyExists
    else .ok { d with directories := d.directories ++ [p] }

/-- Whether some names lead to a directory. -/
def leadsToDirectory (d : Disk) (names : List String) : Bool :=
  match d.walk [] names with
  | .error _ => false
  | .ok p => d.isDirectory p

/-- Makes the directory that some names lead to, unless there is one. When the way there is missing, the
directories above are made first; `above` holds their names, the last one first, from the directory itself
up. -/
def ensureDirectory (d : Disk) (names : List String) : (above : List String) →
    Except DiskError Unit × Disk
  | [] => if d.leadsToDirectory names then (.ok (), d) else (.error .notFound, d)
  | _ :: above =>
    match d.addDirectory names with
    | .ok d => (.ok (), d)
    | .error .notFound =>
      match d.ensureDirectory above.reverse above with
      | (.error e, d) => (.error e, d)
      | (.ok (), d) =>
        match d.addDirectory names with
        | .ok d => (.ok (), d)
        | .error e => if d.leadsToDirectory names then (.ok (), d) else (.error e, d)
    | .error e => if d.leadsToDirectory names then (.ok (), d) else (.error e, d)

/-- Makes a directory and the missing ones above it. Those stay when the directory itself cannot be made. -/
def makeDirectory (d : Disk) (text : String) : Except DiskError Unit × Disk :=
  match d.names text with
  | .error e => (.error e, d)
  | .ok names =>
    let names := Path.trimmed names
    d.ensureDirectory names (names.filter fun n => n ≠ "" ∧ n ≠ ".").reverse

/-- Whether a path text leads to a file or a directory that is there. -/
def exists? (d : Disk) (text : String) : Bool :=
  match d.resolve text with
  | .error _ => false
  | .ok p => d.isDirectory p || d.files.contains p

/-- Some bytes of an open file, from an offset on. -/
def readAt (d : Disk) (p : Path) (offset count : Nat) : List UInt8 :=
  (((d.bytes p).drop offset).take count).toList

/-- The greatest size that a file is let grow to. -/
def maxFileSize : Nat := 9223372036854775807

/-- The place that an offset stands for in a file of the given size. Beyond the end only the low 64 bits of an
offset count. -/
def place (size offset : Nat) : Nat :=
  if offset ≤ size then offset else offset % UInt64.size

/-- Writes bytes at an offset of an open file. A write beyond the end is refused if the file would be too
large. -/
def writeAt (d : Disk) (p : Path) (offset : Nat) (bytes : List UInt8) : Except DiskError Disk :=
  let size := d.fileSize p
  let place := place size offset
  if size < place ∧ maxFileSize < place + bytes.length then .error .placeTooFar
  else .ok (d.put p ((d.bytes p).splice place bytes))

@[simp] theorem contents_put (d : Disk) (p : Path) (bytes : SparseBytes) :
    (d.put p bytes).contents p = bytes.toList := by
  simp [contents, Disk.bytes, put]

theorem contents_put_of_ne (d : Disk) {p q : Path} (h : p ≠ q) (bytes : SparseBytes) :
    (d.put p bytes).contents q = d.contents q := by
  simp [contents, Disk.bytes, put, h]

theorem fileSize_eq (d : Disk) (p : Path) : d.fileSize p = (d.contents p).length :=
  SparseBytes.length_eq _

theorem readAt_eq (d : Disk) (p : Path) (offset count : Nat) :
    d.readAt p offset count = ((d.contents p).drop offset).take count := by
  simp [readAt, contents]

theorem place_of_le {size offset : Nat} (h : offset ≤ size) : place size offset = offset :=
  if_pos h

theorem contents_of_writeAt {d d' : Disk} {p : Path} {offset : Nat} {bytes : List UInt8}
    (h : d.writeAt p offset bytes = .ok d') :
    d'.contents p = spliceAt (d.contents p) (place (d.contents p).length offset) bytes := by
  simp only [writeAt] at h
  split at h <;> cases h
  rw [contents_put, SparseBytes.toList_splice, fileSize_eq]
  rfl

theorem contents_of_writeAt_of_ne {d d' : Disk} {p q : Path} (hne : p ≠ q) {offset : Nat}
    {bytes : List UInt8} (h : d.writeAt p offset bytes = .ok d') : d'.contents q = d.contents q := by
  simp only [writeAt] at h
  split at h <;> cases h
  exact d.contents_put_of_ne hne _

/-- A write that leaves no gap is never refused. -/
theorem exists_writeAt {d : Disk} {p : Path} {offset : Nat} (bytes : List UInt8)
    (h : offset ≤ (d.contents p).length) :
    ∃ d', d.writeAt p offset bytes = .ok d'
      ∧ d'.contents p = spliceAt (d.contents p) offset bytes := by
  have hw : d.writeAt p offset bytes = .ok (d.put p ((d.bytes p).splice offset bytes)) := by
    rw [← fileSize_eq] at h
    simp only [writeAt, place_of_le h]
    exact if_neg fun hc => by omega
  refine ⟨_, hw, ?_⟩
  rw [contents_of_writeAt hw, place_of_le h]

end Disk

end RelStore
