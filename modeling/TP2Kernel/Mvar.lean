import TP2Kernel.Lib.Transition

/-!
# The MVar program

The loops of `writer_process` and `reader_process` of `mvar.c`, for any set of processes that
share one context. The semaphores of the context are counting semaphores: a wait that finds
the count at zero takes no step.
-/

namespace TP2Kernel
open Function

/-- What a process was created for: `writer_process` with its letter, or `reader_process`. -/
inductive MvarRole
  | writer (letter : UInt8)
  | reader

/-- Where a process is in its loop: in `active_random_wait`, before its `sys_sem_wait`, before
its access to the value, before its `sys_sem_post`, before its `printcColor`. A reader has
the value that it read in a local variable. -/
inductive MvarPc
  | pausing
  | waiting
  | entered
  | posting (value : Option UInt8)
  | printing (value : UInt8)
  deriving DecidableEq

/-- `mvar_context_t`, with the counts of its two semaphores, the processes that use it, and
the values that they have written and read. -/
structure Mvar (ι : Type*) where
  value : UInt8
  semEmpty : Nat
  semFull : Nat
  pc : ι → MvarPc
  written : List UInt8
  read : List UInt8

/-- `sys_sem_wait` on a counting semaphore. -/
def countingWait (count : Nat) : Option Nat := if 0 < count then some (count - 1) else none

namespace Mvar

variable {ι : Type*} [DecidableEq ι]

/-- Process `i` continues at `pc`. -/
def goto (σ : Mvar ι) (i : ι) (pc : MvarPc) : Mvar ι := { σ with pc := update σ.pc i pc }

/-- The next step of process `i`, unless it is blocked. -/
def step (role : ι → MvarRole) (σ : Mvar ι) (i : ι) : Option (Mvar ι) :=
  match role i, σ.pc i with
  | _, .pausing => some (σ.goto i .waiting)
  | .writer _, .waiting =>
    (countingWait σ.semEmpty).map fun n => { σ with semEmpty := n }.goto i .entered
  | .writer letter, .entered =>
    some ({ σ with value := letter, written := σ.written ++ [letter] }.goto i (.posting none))
  | .writer _, .posting _ => some ({ σ with semFull := σ.semFull + 1 }.goto i .pausing)
  | .reader, .waiting =>
    (countingWait σ.semFull).map fun n => { σ with semFull := n }.goto i .entered
  | .reader, .entered =>
    some ({ σ with read := σ.read ++ [σ.value] }.goto i (.posting (some σ.value)))
  | .reader, .posting (some v) =>
    some ({ σ with semEmpty := σ.semEmpty + 1 }.goto i (.printing v))
  | .reader, .printing _ => some (σ.goto i .pausing)
  | _, _ => none

/-- The context that `mvar_start` sets up, before any process has entered its loop body. -/
def Start (σ : Mvar ι) : Prop := σ = ⟨0, 1, 0, fun _ => .pausing, [], []⟩

/-- Process `i` is between its wait and its post. -/
def Inside (σ : Mvar ι) (i : ι) : Prop := σ.pc i = .entered ∨ ∃ v, σ.pc i = .posting v

end Mvar

end TP2Kernel
