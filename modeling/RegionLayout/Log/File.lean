-- A log file that is kept below a size. A line that would pass the size empties the file
-- first, so the file always holds the latest lines, whole and in order. The lines go through a
-- buffer, and the size that counts is that of the file behind it.

namespace RegionLayout.Log

/-- Why a log could not be opened. -/
inductive Fault where
  | io
deriving Repr, DecidableEq

/-! ## Open files -/

/-- A file that is open for writing. -/
structure OpenFile where
  bytes : List UInt8 := []
  /-- Where the next bytes go. A file that was opened to append has no such place: there they go
  to its end. -/
  offset : Option Nat := none
deriving DecidableEq

/-- Puts the bytes over those that are there from the offset on. What lies between the end of the
file and the offset becomes zeros. -/
def OpenFile.write (f : OpenFile) (data : List UInt8) : OpenFile :=
  match f.offset with
  | none => { f with bytes := f.bytes ++ data }
  | some o =>
    { bytes := f.bytes.take o ++ List.replicate (o - f.bytes.length) 0 ++ data ++
        f.bytes.drop (o + data.length)
      offset := some (o + data.length) }

/-! ## Buffers -/

/-- An open file and the bytes that it has not got yet. -/
structure Writer where
  file : OpenFile := {}
  pending : List UInt8 := []
deriving DecidableEq

namespace Writer

/-- How many bytes may wait. -/
def capacity : Nat := 8192

/-- Hands the file what waits. -/
def flush (w : Writer) : Writer := if w.pending.isEmpty then w else ⟨w.file.write w.pending, []⟩

/-- Takes bytes in. What does not fit beside the bytes that wait has them handed on first, and what
is as long as the buffer goes past it. -/
def put (w : Writer) (data : List UInt8) : Writer :=
  let spare := capacity - w.pending.length
  if data.length < spare then { w with pending := w.pending ++ data }
  else
    let w := if spare < data.length then w.flush else w
    if capacity ≤ data.length then { w with file := w.file.write data }
    else { w with pending := w.pending ++ data }

/-- The file emptied and opened again, to be written from its start. The old buffer is let go only
then, and still hands on what waits. -/
def reopen (w : Writer) : Writer :=
  let old := flush { w with file := { w.file with bytes := [] } }
  { file := ⟨old.file.bytes, some 0⟩ }

end Writer

/-! ## Log files -/

structure File where
  /-- The size in bytes that the file keeps to; zero is no limit. -/
  maxBytes : Nat
  writer : Writer := {}

/-- A line and its end. -/
def lineBytes (line : String) : List UInt8 := (line ++ "\n").toUTF8.data.toList

namespace File

/-- A new file. It needs a folder to stand in. -/
def create (folderExists : Bool) (maxBytes : Nat) : Except Fault File :=
  if folderExists then .ok { maxBytes } else .error .io

def bytes (f : File) : List UInt8 := f.writer.file.bytes

def size (f : File) : Nat := f.bytes.length

/-- The lines, without their ends. -/
def lines (f : File) : List String :=
  match String.fromUTF8? ⟨f.bytes.toArray⟩ with
  | some text => ((text.split '\n').toList.map (·.copy)).dropLast
  | none => []

/-- Whether so many more bytes would pass the limit. -/
def overflows (f : File) (more : Nat) : Bool := f.maxBytes != 0 && f.maxBytes < f.size + more

/-- Adds a line and its end, to an emptied file where they would not fit. -/
def append (f : File) (line : String) : File :=
  let data := lineBytes line
  let writer := if f.overflows data.length then f.writer.reopen else f.writer
  { f with writer := (writer.put data).flush }

end File

end RegionLayout.Log
