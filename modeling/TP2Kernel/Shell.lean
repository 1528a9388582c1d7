import Mathlib.Data.List.DropRight
import TP2Kernel.State
import TP2Kernel.Lib.CString

/-!
# The line editor of the shell

`printLine` and what it calls in `sh.c`: editing, the history, the split of a line into command
and parameter or into the two sides of a pipe, and the second splitter `parse_command_line`.
Every function records whether its accesses stay inside the arrays; once they do not, the rest
of the state says nothing.
-/

namespace TP2Kernel
open CString Function

/-- `MAX_BUFF`. -/
def maxBuff : Nat := 254

/-- `MAX_COMMAND`. -/
def maxCommand : Nat := 20

/-- The table `commands`. -/
def commands : List String :=
  ["undefined", "help", "ls", "time", "clear", "registersinfo", "zerodiv", "invopcode", "exit",
    "ascii", "test_mm", "test_processes", "test_priority", "test_sync", "test_no_synchro",
    "test_synchro", "debug", "ps", "loop", "nice", "kill", "block", "yield", "waitpid", "mem",
    "cat", "wc", "filter", "echo", "mvar"]

/-- The place of a command in the table, 0 for one that is not there. -/
def commandIndex (command : CStr) : Nat :=
  match commands.tail.findIdx? fun name => name.toUTF8.toList = command with
  | some i => i + 1
  | none => 0

/-- What `newLine` does with a line. -/
inductive LineAction where
  | run (index : Nat) (command parameter : CStr) (isBackground : Bool)
  | pipe (left right : CStr) (isBackground : Bool)
  | invalidSyntax
  | onlySinglePipe
  deriving DecidableEq

/-- The variables of the line editor. Row `i` of `commandHistory` begins at `i * maxBuff`. -/
structure Shell where
  line : Nat → UInt8
  command : Nat → UInt8
  parameter : Nat → UInt8
  linePos : Nat
  commandHistory : Nat → UInt8
  commandIterator : Int
  commandIdxMax : Nat
  inBounds : Bool

/-! ### Characters -/

/-- `isChar`. -/
def isChar (c : UInt8) : Prop := 33 ≤ c ∧ c ≤ 125

/-- `isDigit`. -/
def isDigit (c : UInt8) : Prop := 48 ≤ c ∧ c ≤ 57

/-- `isUpperArrow`. -/
def isUpperArrow (c : UInt8) : Prop := c = 72

/-- `isDownArrow`. -/
def isDownArrow (c : UInt8) : Prop := c = 80

instance (c : UInt8) : Decidable (isChar c) := inferInstanceAs (Decidable (_ ∧ _))
instance (c : UInt8) : Decidable (isDigit c) := inferInstanceAs (Decidable (_ ∧ _))
instance (c : UInt8) : Decidable (isUpperArrow c) := inferInstanceAs (Decidable (_ = _))
instance (c : UInt8) : Decidable (isDownArrow c) := inferInstanceAs (Decidable (_ = _))

/-- `has_pipe`. -/
def hasPipe (str : CStr) : Option Nat := str.findIdx? fun c => c = 124

/-- Remove the spaces at the end. -/
def trimEnd (s : CStr) : CStr := s.rdropWhile fun c => c = 32

namespace Shell

/-- The shell when it starts. -/
def initial : Shell where
  line := fun _ => 0
  command := fun _ => 0
  parameter := fun _ => 0
  linePos := 0
  commandHistory := fun _ => 0
  commandIterator := 0
  commandIdxMax := 0
  inBounds := true

/-- Accesses that stay inside their arrays if `ok` holds. -/
def access (σ : Shell) (ok : Prop) [Decidable ok] : Shell :=
  { σ with inBounds := σ.inBounds && decide ok }

/-- The text on the line. -/
def text (σ : Shell) : CStr := bytes σ.line 0 σ.linePos

/-! ### History -/

/-- `historyCaller`. -/
def historyCaller (σ : Shell) (direction : Int) : Shell :=
  let row := σ.commandIterator + direction
  let start := row.toNat * maxBuff
  let s := read σ.commandHistory start (maxCommand * maxBuff - start)
  { σ with
    commandIterator := row
    line := store σ.line 0 s
    linePos := s.length }.access
      (0 ≤ row ∧ row < maxCommand ∧ start + s.length < maxCommand * maxBuff ∧ s.length ≤ maxBuff)

/-- `handleSpecialCommands`; the font keys leave the line alone. -/
def handleSpecialCommands (σ : Shell) (c : UInt8) : Shell :=
  if (c = 43 ∨ c = 45) ∧ σ.linePos = 0 then σ
  else if isUpperArrow c then σ.historyCaller (-1)
  else if isDownArrow c then σ.historyCaller 1
  else
    { σ with
      line := update σ.line σ.linePos c
      linePos := σ.linePos + 1 }.access (σ.linePos ≤ maxBuff)

/-! ### Splitting a line -/

/-- The loop over the command in `checkLine`: the array and `j` behind it. -/
def copyCommand (line : Nat → UInt8) (command : Nat → UInt8) (j : Nat) :
    Nat → (Nat → UInt8) × Nat
  | 0 => (command, j)
  | n + 1 =>
    if line j = 32 then (command, j)
    else copyCommand line (update command j (line j)) (j + 1) n

/-- The loop over the parameter in `checkLine`. -/
def copyParameter (line : Nat → UInt8) (parameter : Nat → UInt8) (k j : Nat) :
    Nat → Nat → UInt8
  | 0 => parameter
  | n + 1 => copyParameter line (update parameter k (line j)) (k + 1) (j + 1) n

/-- `checkLine`. -/
def checkLine (σ : Shell) : Shell × Nat :=
  let (command, j) := copyCommand σ.line σ.command 0 σ.linePos
  let parameter :=
    if j < σ.linePos then copyParameter σ.line σ.parameter 0 (j + 1) (σ.linePos - (j + 1))
    else σ.parameter
  let src := read command 0 (maxBuff + 1)
  let src2 := read parameter 0 (maxBuff + 1)
  -- `strcpyForParam(commandHistory[commandIdxMax++], command, parameter)`
  let entry := src ++ 32 :: src2
  ({ σ with
    command
    parameter
    commandHistory := store σ.commandHistory (σ.commandIdxMax * maxBuff) entry
    commandIdxMax := σ.commandIdxMax + 1
    commandIterator := σ.commandIdxMax + 1 }.access
      (σ.linePos ≤ maxBuff + 1 ∧ src.length ≤ maxBuff ∧ src2.length ≤ maxBuff ∧
        σ.commandIdxMax < maxCommand ∧ entry.length < maxBuff),
    commandIndex src)

/-- `n` less the spaces that stand before it. -/
def trimmedLen (line : Nat → UInt8) : Nat → Nat
  | 0 => 0
  | n + 1 => if line n = 32 then trimmedLen line n else n + 1

/-- Erase the spaces that stand before `n`. -/
def eraseSpaces (line : Nat → UInt8) : Nat → (Nat → UInt8) × Nat
  | 0 => (line, 0)
  | n + 1 => if line n = 32 then eraseSpaces (update line n 0) n else (line, n + 1)

/-- The first part of `newLine`: whether the line ends in `'&'`, which is then removed. -/
def removeAmpersand (σ : Shell) : Shell × Bool :=
  let effectiveLen := trimmedLen σ.line σ.linePos
  if 0 < effectiveLen ∧ σ.line (effectiveLen - 1) = 38 then
    let (line, linePos) := eraseSpaces (update σ.line (effectiveLen - 1) 0) (effectiveLen - 1)
    ({ σ with line, linePos }, true)
  else (σ, false)

/-- The branch of `newLine` for a line with a `'|'` at `pipePos`. -/
def pipeLine (σ : Shell) (s : CStr) (pipePos : Nat) (isBackground : Bool) :
    Shell × LineAction :=
  let right := (((bytes σ.line 0 σ.linePos).drop (pipePos + 1)).dropWhile fun c => c = 32).takeWhile
    fun c => c ≠ 0
  let leftCmd := trimEnd (s.take pipePos)
  let rightCmd := trimEnd right
  (σ.access (pipePos < maxBuff ∧ right.length < maxBuff),
    if leftCmd = [] ∨ rightCmd = [] then .invalidSyntax
    else if (hasPipe rightCmd).isSome then .onlySinglePipe
    else .pipe leftCmd rightCmd isBackground)

/-- The loop that clears the first `maxBuff` bytes of the three buffers. -/
def clearBuffers (σ : Shell) : Shell :=
  { σ with
    line := fun i => if i < maxBuff then 0 else σ.line i
    command := fun i => if i < maxBuff then 0 else σ.command i
    parameter := fun i => if i < maxBuff then 0 else σ.parameter i
    linePos := 0 }

/-- `newLine`: the shell behind it and what it has executed. -/
def newLine (σ : Shell) : Shell × LineAction :=
  let (σ, isBackground) := σ.removeAmpersand
  let s := read σ.line 0 (maxBuff + 1)
  let σ := σ.access (s.length ≤ maxBuff)
  let (σ, action) :=
    match hasPipe s with
    | some pipePos => σ.pipeLine s pipePos isBackground
    | none =>
      let (σ, i) := σ.checkLine
      (σ, .run i (read σ.command 0 (maxBuff + 1)) (read σ.parameter 0 (maxBuff + 1)) isBackground)
  (σ.clearBuffers, action)

/-- `printLine`: the shell behind a key, and what `newLine` has executed. -/
def printLine (σ : Shell) (c : UInt8) : Shell × Option LineAction :=
  if c = 0 then (σ, none)
  else if maxBuff ≤ σ.linePos then (σ, none)
  else if isChar c ∨ c = 32 ∨ isDigit c then (σ.handleSpecialCommands c, none)
  else if c = 8 ∧ 0 < σ.linePos then
    ({ σ with
      line := update σ.line (σ.linePos - 1) 0
      linePos := σ.linePos - 1 }.access (σ.linePos - 1 ≤ maxBuff), none)
  else if c = 10 then
    let (σ, action) := σ.newLine
    (σ, some action)
  else (σ, none)

/-- The shell behind a sequence of keys. -/
def typed (σ : Shell) (keys : List UInt8) : Shell := keys.foldl (fun σ c => (σ.printLine c).1) σ

end Shell

/-! ### The splitter of pipelines -/

/-- The loop over the command in `parse_command_line`: `out_cmd` and the input behind it. -/
def copyWord : CStr → CStr → CStr × CStr
  | [], outCmd => (outCmd, [])
  | c :: cs, outCmd =>
    if c = 32 then (outCmd, c :: cs)
    else copyWord cs (if outCmd.length < maxBuff then outCmd ++ [c] else outCmd)

/-- The loop over the parameter in `parse_command_line`. -/
def copyRest : CStr → CStr → CStr
  | [], outParam => outParam
  | c :: cs, outParam =>
    copyRest cs (if outParam.length < maxBuff then outParam ++ [c] else outParam)

/-- `parse_command_line`: its result, the command and the parameter. -/
def parseCommandLine (input : CStr) : Int × CStr × CStr :=
  let (outCmd, rest) := copyWord (input.dropWhile fun c => c = 32) []
  let outParam := copyRest (rest.dropWhile fun c => c = 32) []
  (if outCmd = [] then -1 else 0, outCmd, trimEnd outParam)

/-! ### What the editor is for -/

/-- A line without the `'&'` at its end, and whether there was one. -/
def splitBackground (t : CStr) : CStr × Bool :=
  if (trimEnd t).getLast? = some 38 then (trimEnd (trimEnd t).dropLast, true) else (t, false)

/-- The first word of a text. -/
def firstWord (t : CStr) : CStr := t.takeWhile fun c => c ≠ 32

/-- What stands behind the first space of a text. -/
def behindWord (t : CStr) : CStr := (t.dropWhile fun c => c ≠ 32).tail

/-- What executing a line means. -/
def lineAction (t : CStr) : LineAction :=
  let (t, isBackground) := splitBackground t
  if 124 ∈ t then
    let left := trimEnd (t.takeWhile fun c => c ≠ 124)
    let right := trimEnd ((t.dropWhile fun c => c ≠ 124).tail.dropWhile fun c => c = 32)
    if left = [] ∨ right = [] then .invalidSyntax
    else if 124 ∈ right then .onlySinglePipe
    else .pipe left right isBackground
  else .run (commandIndex (firstWord t)) (firstWord t) (behindWord t) isBackground

namespace Shell

/-- All accesses were in bounds, and the line is a C string of `linePos` characters. -/
structure WellFormed (σ : Shell) : Prop where
  inBounds : σ.inBounds = true
  linePos_le : σ.linePos ≤ maxBuff
  ends : σ.line σ.linePos = 0
  nonzero : 0 ∉ σ.text

/-- The line is well formed at first and behind every key. -/
def StaysWellFormed : Shell → List UInt8 → Prop
  | σ, [] => σ.WellFormed
  | σ, c :: cs => σ.WellFormed ∧ (σ.printLine c).1.StaysWellFormed cs

/-- What the code does not look at before it handles a key: that a history key finds a row, that a
character stands before a zero byte, that an entered line finds a free row that it fits in. -/
def Careful (σ : Shell) (c : UInt8) : Prop :=
  if c = 0 ∨ maxBuff ≤ σ.linePos then True
  else if isChar c ∨ c = 32 ∨ isDigit c then
    if (c = 43 ∨ c = 45) ∧ σ.linePos = 0 then True
    else if isUpperArrow c then 0 ≤ σ.commandIterator - 1 ∧ σ.commandIterator - 1 < maxCommand
    else if isDownArrow c then 0 ≤ σ.commandIterator + 1 ∧ σ.commandIterator + 1 < maxCommand
    else σ.line (σ.linePos + 1) = 0
  else if c = 10 then
    let t := (splitBackground σ.text).1
    124 ∈ t ∨ σ.commandIdxMax < maxCommand ∧ (32 ∈ t ∨ t.length + 1 < maxBuff)
  else True

/-- Every key is handled with care. -/
def CarefulAlong : Shell → List UInt8 → Prop
  | _, [] => True
  | σ, c :: cs => σ.Careful c ∧ (σ.printLine c).1.CarefulAlong cs

/-- Enter executes the line and empties it, and a backspace removes its last character. -/
structure Responds (σ : Shell) : Prop where
  executes : (σ.printLine 10).2 = some (lineAction σ.text)
  resets : (σ.printLine 10).1.linePos = 0
  erases : 0 < σ.linePos → (σ.printLine 8).1.text = σ.text.dropLast

/-- The keys of an edited line: what is printable apart from the history keys, space and
backspace. -/
def Editing (c : UInt8) : Prop := (isChar c ∧ ¬isUpperArrow c ∧ ¬isDownArrow c) ∨ c = 32 ∨ c = 8

instance (c : UInt8) : Decidable (Editing c) := inferInstanceAs (Decidable (_ ∨ _))

/-- `checkLine` is about to split the text `t`. -/
structure Splitting (σ : Shell) (t : CStr) : Prop where
  text_eq : σ.text = t
  command_zero : ∀ i, σ.command i = 0
  parameter_zero : ∀ i, σ.parameter i = 0

/-- The command and the parameter that `checkLine` extracts. -/
def extracted (σ : Shell) : CStr × CStr :=
  (read σ.checkLine.1.command 0 (maxBuff + 1), read σ.checkLine.1.parameter 0 (maxBuff + 1))

end Shell

/-- The texts that both splitters split alike. -/
def SplitsAlike (t : CStr) : Prop :=
  t = [32] ∨ t.head? ≠ some 32 ∧ (behindWord t).head? ≠ some 32 ∧
    (behindWord t).getLast? ≠ some 32

instance (t : CStr) : Decidable (SplitsAlike t) := inferInstanceAs (Decidable (_ ∨ _))

end TP2Kernel
