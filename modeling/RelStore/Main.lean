/-
The command line: plays the sample in the current directory.

The files of the sample are read from the directory before the run, those that are there, and written back
after it.  The exit code is zero when the sample came to its end.
-/
import RelStore.Demo

namespace RelStore.CommandLine

/-- The files that the sample uses. -/
def sampleFiles : List String :=
  ["sample-emp.dat", "sample-dept.dat", "sample-catalog.bin"]

/-- The disk with the bytes of a file of the current directory, if it is there. -/
def loadFile (disk : Disk) (name : String) : IO Disk := do
  try
    let bytes ← IO.FS.readBinFile name
    pure (disk.put [name] (.ofList bytes.data.toList))
  catch _ => pure disk

/-- Writes a file of the disk to the current directory, if it is on the disk. -/
def storeFile (disk : Disk) (name : String) : IO Unit := do
  match disk.files.get? [name] with
  | some bytes => IO.FS.writeBinFile name ⟨bytes.toList.toArray⟩
  | none => pure ()

/-- Plays the sample and answers the exit code. -/
def run : IO UInt32 := do
  let directory ← IO.currentDir
  let disk ← sampleFiles.foldlM loadFile { mount := directory.toString }
  let (lines, result, disk) := Demo.run 1000000000 disk
  for line in lines do
    IO.println line
  for name in sampleFiles do
    storeFile disk name
  match result with
  | .ok () => pure 0
  | .error e =>
    IO.eprintln ("Error: " ++ e.message)
    pure 1

end RelStore.CommandLine

/-- Plays the sample. -/
def main : IO UInt32 :=
  RelStore.CommandLine.run
