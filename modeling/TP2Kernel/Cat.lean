import TP2Kernel.Lib.CString

/-!
# Copying a stream

`cat_main` of `cat.c`, between a file that is read in pieces of any size and a pipe that accepts
of each write what it has room for.
-/

namespace TP2Kernel
open CString Function

/-- `sizeof(buf)`. -/
def catBufSize : Nat := 256

/-- What decides how much is transferred: the size of the `k`-th read, and the room that the pipe
has for the `k`-th write. A transfer is of one byte at least. -/
structure Transfers where
  chunk : Nat → Nat
  room : Nat → Nat

/-- The two ends of `cat`: what is not read yet and what has entered the pipe. -/
structure CatFiles where
  input : List UInt8
  output : List UInt8
  reads : Nat
  writes : Nat
  deriving DecidableEq

namespace CatFiles

/-- The most that the `k`-th read delivers. -/
def readSize (e : Transfers) (k n : Nat) : Nat := min n (max 1 (e.chunk k))

/-- `sys_read_fd(0, .., n)`: nothing only at the end of the input. -/
def sysReadFd (e : Transfers) (w : CatFiles) (n : Nat) : CatFiles × List UInt8 :=
  let size := readSize e w.reads n
  ({ w with input := w.input.drop size, reads := w.reads + 1 }, w.input.take size)

/-- `sys_write_fd(1, bytes)`. -/
def sysWriteFd (e : Transfers) (w : CatFiles) (bytes : List UInt8) : CatFiles :=
  { w with
    output := w.output ++ bytes.take (max 1 (e.room w.writes))
    writes := w.writes + 1 }

end CatFiles

/-- The loop that writes the complete lines: the files and `segment_start` behind it. -/
def scanLines (e : Transfers) (buf : Nat → UInt8) :
    Nat → Nat → Nat → CatFiles → CatFiles × Nat
  | 0, _, segmentStart, w => (w, segmentStart)
  | n + 1, i, segmentStart, w =>
    if buf i = 10 then
      let len := i - segmentStart + 1
      scanLines e buf n (i + 1) (i + 1) (w.sysWriteFd e (bytes buf segmentStart len))
    else scanLines e buf n (i + 1) segmentStart w

/-- The loop that moves what is not written to the start of the buffer. -/
def moveDown (segmentStart : Nat) : Nat → Nat → (Nat → UInt8) → Nat → UInt8
  | 0, _, buf => buf
  | n + 1, j, buf => moveDown segmentStart n (j + 1) (update buf j (buf (segmentStart + j)))

/-- The loop of `cat_main`; `none` when the fuel does not reach to the end of the input. -/
def catLoop (e : Transfers) : Nat → (Nat → UInt8) → Nat → CatFiles → Option CatFiles
  | 0, _, _, _ => none
  | fuel + 1, buf, used, w =>
    let (w, got) := w.sysReadFd e (catBufSize - used)
    if got = [] then some (if 0 < used then w.sysWriteFd e (bytes buf 0 used) else w)
    else
      let buf := put buf used got
      let used := used + got.length
      let (w, segmentStart) := scanLines e buf used 0 0 w
      let remaining := used - segmentStart
      let (buf, used) :=
        if 0 < segmentStart then (moveDown segmentStart remaining 0 buf, remaining)
        else (buf, used)
      if used = catBufSize then catLoop e fuel buf 0 (w.sysWriteFd e (bytes buf 0 used))
      else catLoop e fuel buf used w

/-- `cat_main` on a whole input, with any bytes in its buffer. -/
def catMain (e : Transfers) (buf : Nat → UInt8) (input : List UInt8) : Option CatFiles :=
  catLoop e (input.length + 1) buf 0 ⟨input, [], 0, 0⟩

/-- The input is in the pipe. -/
def Copies (e : Transfers) (buf : Nat → UInt8) (input : List UInt8) : Prop :=
  ∃ w, catMain e buf input = some w ∧ w.output = input

/-- The complete lines of a text, the first of which begins with `line`, and the rest. -/
def splitLines : List UInt8 → List UInt8 → List (List UInt8) × List UInt8
  | line, [] => ([], line)
  | line, c :: cs =>
    if c = 10 then
      let (lines, rest) := splitLines [] cs
      ((line ++ [c]) :: lines, rest)
    else splitLines (line ++ [c]) cs

/-- The pieces into which reads of the given sizes cut the input behind `held`: lines, parts of
lines as large as the buffer, and what is left at the end. -/
def cutPieces (e : Transfers) : Nat → Nat → List UInt8 → List UInt8 → List (List UInt8)
  | 0, _, _, _ => []
  | fuel + 1, k, held, input =>
    let size := CatFiles.readSize e k (catBufSize - held.length)
    if input.take size = [] then if held = [] then [] else [held]
    else
      let (lines, rest) := splitLines [] (held ++ input.take size)
      if rest.length = catBufSize then
        lines ++ rest :: cutPieces e fuel (k + 1) [] (input.drop size)
      else lines ++ cutPieces e fuel (k + 1) rest (input.drop size)

/-- The pieces of a whole input. -/
def pieces (e : Transfers) (input : List UInt8) : List (List UInt8) :=
  cutPieces e (input.length + 1) 0 [] input

/-- From the `k`-th write on, the pipe has room for each piece. -/
def RoomFor (e : Transfers) : Nat → List (List UInt8) → Prop
  | _, [] => True
  | k, p :: ps => p.length ≤ max 1 (e.room k) ∧ RoomFor e (k + 1) ps

end TP2Kernel
