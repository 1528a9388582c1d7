import TP2Kernel.NumberStrings
import TP2Kernel.State

/-!
# Formatted output

`printf` and `sprintf` of `stdio.c`. The variable arguments are a list; an argument of another
type than its conversion takes, and one that is missing, are not read. Neither is what stands
behind the zero byte of a format that ends in `%`.
-/

namespace TP2Kernel
open CString DigitStrings

/-- An argument of `printf`. -/
inductive PrintArg
  | int (v : Int32)
  | long (v : Int64)
  | uint (v : UInt32)
  | string (s : Option CStr)
  deriving DecidableEq

/-- What stands around the table of digits, and in `num_str` before a conversion at the given
rest of the format. -/
structure StackBytes where
  around : Int → UInt8
  numStr : CStr → Nat → UInt8

namespace Stdio

/-- `itoa(val, num_str, 10)`. -/
def signedText (e : StackBytes) (format : CStr) (val : Int64) : CStr :=
  read (itoa e.around val ⟨e.numStr format, 32, true⟩ 10).1.mem 0 32

/-- `utoa(val, num_str, base)`. -/
def unsignedText (e : StackBytes) (format : CStr) (val : UInt32) (base : Int32) : CStr :=
  read (utoa e.around val.toUInt64 ⟨e.numStr format, 32, true⟩ base).mem 0 32

/-- The conversion behind a `%`: its text, and the rest of the format and of the arguments. Only
`printf` knows those for `%u`, `%x` and `%%`, which are `extended`. -/
def conversion (e : StackBytes) (extended : Bool) :
    CStr → List PrintArg → Option (CStr × CStr × List PrintArg)
  | [], _ => none
  | c :: format, args =>
    if c = 100 ∨ c = 105 then -- 'd', 'i'
      match args with
      | .int val :: args => some (signedText e format val.toInt64, format, args)
      | _ => none
    else if c = 108 ∧ format.head? = some 100 then -- 'l', 'd'
      match args with
      | .long val :: args => some (signedText e format val, format.tail, args)
      | _ => none
    else if extended ∧ c = 117 then -- 'u'
      match args with
      | .uint val :: args => some (unsignedText e format val 10, format, args)
      | _ => none
    else if extended ∧ c = 120 then -- 'x'
      match args with
      | .uint val :: args => some (unsignedText e format val 16, format, args)
      | _ => none
    else if c = 115 then -- 's'
      match args with
      | .string s :: args => some (s.getD [], format, args)
      | _ => none
    else if c = 99 then -- 'c'
      match args with
      | .int val :: args => some ([val.toInt8.toUInt8], format, args)
      | _ => none
    else if extended ∧ c = 37 then some ([37], format, args)
    else some ([], format, args)

/-- The loop over the format, which `emit`s a text in every turn: that of a conversion, or a plain
character. A turn takes one byte of the format at least. -/
def formatLoop {σ : Type} (e : StackBytes) (extended : Bool) (emit : σ → CStr → σ) :
    Nat → CStr → List PrintArg → σ → Option σ
  | 0, _, _, s => some s
  | _ + 1, [], _, s => some s
  | n + 1, c :: format, args, s =>
    if c = 37 then do
      let (text, format, args) ← conversion e extended format args
      formatLoop e extended emit n format args (emit s text)
    else formatLoop e extended emit n format args (emit s [c])

/-- The local variables of `printf`, and what it has passed to `sys_write_fd`. Behind a store that
misses `buffer` they say nothing about the program. -/
structure Printf where
  buffer : Buffer
  ptr : Nat
  count : Int32
  written : List CStr

namespace Printf

/-- `*ptr++ = *s++; count++` for every byte. -/
def put (s : Printf) (text : CStr) : Printf :=
  { s with
    buffer := s.buffer.storeAll s.ptr text
    ptr := s.ptr + text.length
    count := s.count + .ofNat text.length }

def flush (s : Printf) : Printf :=
  { s with written := s.written ++ [bytes s.buffer.mem 0 s.ptr], ptr := 0 }

/-- A turn: the text, and `if (ptr - buffer > 1000)` behind it. -/
def emit (s : Printf) (text : CStr) : Printf :=
  if 1000 < (s.put text).ptr then (s.put text).flush else s.put text

/-- What follows the loop. -/
def finish (s : Printf) : Printf := if 0 < s.ptr then s.flush else s

end Printf

/-- `printf`, with `mem` in its buffer. -/
def printf (e : StackBytes) (mem : Nat → UInt8) (format : CStr) (args : List PrintArg) :
    Option Printf :=
  (formatLoop e true Printf.emit format.length format args ⟨⟨mem, 1024, true⟩, 0, 0, []⟩).map
    Printf.finish

/-- A turn of `sprintf`; `ptr` and `count` move together. -/
def sprintfEmit (s : Buffer × Nat) (text : CStr) : Buffer × Nat :=
  (s.1.storeAll s.2 text, s.2 + text.length)

/-- `sprintf`: the buffer and the result. -/
def sprintf (e : StackBytes) (str : Buffer) (format : CStr) (args : List PrintArg) :
    Option (Buffer × Int32) :=
  (formatLoop e false sprintfEmit format.length format args (str, 0)).map fun s =>
    (s.1.store s.2 0, .ofNat s.2)

end Stdio

/-- The digits of a number, lower case. -/
def digitText (base value : Nat) : CStr :=
  (baseDigits base value).map fun d => "0123456789abcdef".toUTF8.toList.getD d 0

/-- The decimal representation of a number. -/
def decimalText (v : Int) : CStr := (if v < 0 then [45] else []) ++ digitText 10 v.natAbs

/-- The characters behind `%` that stand for a conversion. -/
def conversions (extended : Bool) : List UInt8 :=
  [100, 105, 115, 99] ++ if extended then [117, 120, 37] else []

/-- One conversion behind a `%`: the format and the arguments, its text, and what is left of both.
Any other character stands for nothing together with the `%`. -/
inductive Converts (extended : Bool) :
    CStr → List PrintArg → CStr → CStr → List PrintArg → Prop
  | int {c format v args} (hc : c = 100 ∨ c = 105) :
    Converts extended (c :: format) (.int v :: args) (decimalText v.toInt) format args
  | long {format v args} :
    Converts extended (108 :: 100 :: format) (.long v :: args) (decimalText v.toInt) format args
  | unsigned {format v args} (he : extended = true) :
    Converts extended (117 :: format) (.uint v :: args) (digitText 10 v.toNat) format args
  | hex {format v args} (he : extended = true) :
    Converts extended (120 :: format) (.uint v :: args) (digitText 16 v.toNat) format args
  | string {format s args} :
    Converts extended (115 :: format) (.string s :: args) (s.getD []) format args
  | character {format v args} :
    Converts extended (99 :: format) (.int v :: args) [v.toInt8.toUInt8] format args
  | percent {format args} (he : extended = true) :
    Converts extended (37 :: format) args [37] format args
  | other {c format args} (hc : c ∉ conversions extended)
    (hl : ¬(c = 108 ∧ format.head? = some 100)) :
    Converts extended (c :: format) args [] format args

/-- The pieces of the text that a format describes with its arguments, of which some may be left
over. -/
inductive Renders (extended : Bool) : CStr → List PrintArg → List CStr → Prop
  | nil {args} : Renders extended [] args []
  | char {c format args pieces} (hc : c ≠ 37) (h : Renders extended format args pieces) :
    Renders extended (c :: format) args ([c] :: pieces)
  | conversion {format rest args args' piece pieces}
    (hc : Converts extended format args piece rest args')
    (h : Renders extended rest args' pieces) :
    Renders extended (37 :: format) args (piece :: pieces)

/-- The pieces find room in 1024 bytes, of which `n` are taken and which are emptied behind a piece
that takes more than 1000. -/
def Room : Nat → List CStr → Prop
  | _, [] => True
  | n, piece :: pieces => n + piece.length ≤ 1024 ∧
    Room (if 1000 < n + piece.length then 0 else n + piece.length) pieces

end TP2Kernel
