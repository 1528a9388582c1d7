import TP2Kernel.State

/-!
# Argument vectors

The functions of `sh.c` and `spawn_args.h` that build and free the `argv` of a new process. The
blocks of `sys_malloc` are numbered by their requests; a block holds a string or an array of
pointers.
-/

namespace TP2Kernel
open Function

/-! ### The heap of the programs -/

/-- The allocator behind `sys_malloc`, with what the programs store in their blocks. -/
structure UserHeap where
  next : Nat
  fails : Nat → Bool
  freed : List Nat
  strings : Nat → CStr
  pointers : Nat → Nat → Option Nat

namespace UserHeap

/-- `sys_malloc`: the new block, or `none` when the request fails. -/
def sysMalloc (h : UserHeap) : UserHeap × Option Nat :=
  ({ h with next := h.next + 1 }, if h.fails h.next then none else some h.next)

/-- `sys_free` of a non-null pointer. -/
def sysFree (h : UserHeap) (b : Nat) : UserHeap := { h with freed := h.freed ++ [b] }

/-- Store a string in a block. -/
def setString (h : UserHeap) (b : Nat) (s : CStr) : UserHeap :=
  { h with strings := update h.strings b s }

/-- `argv[i] = b`. -/
def setPointer (h : UserHeap) (argv i : Nat) (b : Option Nat) : UserHeap :=
  { h with pointers := update h.pointers argv (update (h.pointers argv) i b) }

end UserHeap

/-! ### Building and freeing -/

/-- `dup_arg_string`. -/
def dupArgString (h : UserHeap) (src : Option CStr) : UserHeap × Option Nat :=
  match src with
  | none => (h, none)
  | some s =>
    match h.sysMalloc with
    | (h, none) => (h, none)
    | (h, some b) => (h.setString b s, some b)

/-- One iteration of a loop that frees arguments. -/
def freeArg (argv : Nat) (h : UserHeap) (i : Nat) : UserHeap :=
  match h.pointers argv i with
  | none => h
  | some b => h.sysFree b

/-- Free the first `count` arguments, and then `argv` itself. -/
def freeArgs (h : UserHeap) (argv : Option Nat) (count : Int) : UserHeap :=
  match argv with
  | none => h
  | some argv => ((List.range count.toNat).foldl (freeArg argv) h).sysFree argv

/-- `free_partial_args`. -/
def freePartialArgs (h : UserHeap) (argv : Option Nat) (count : Int) : UserHeap :=
  freeArgs h argv count

/-- `free_spawn_args`. -/
def freeSpawnArgs (h : UserHeap) (argv : Option Nat) (argc : Int) : UserHeap :=
  freeArgs h argv argc

/-- The loop of `build_spawn_argv`, with `n` arguments to go, `filled` being `i + 1`; `false`
stands for the `return NULL` in it. -/
def fillArgs (argv : Nat) (extraArgs : Option (Nat → Option CStr)) :
    Nat → Nat → UserHeap → UserHeap × Bool
  | 0, _, h => (h, true)
  | n + 1, i, h =>
    match extraArgs.bind fun args => args i with
    | none => (freePartialArgs h (some argv) (i + 1), false)
    | some arg =>
      match dupArgString h (some arg) with
      | (h, none) => (freePartialArgs (h.setPointer argv (i + 1) none) (some argv) (i + 1), false)
      | (h, some b) => fillArgs argv extraArgs n (i + 1) (h.setPointer argv (i + 1) (some b))

/-- `build_spawn_argv`: the heap, the result, and what `*argc_out` is behind it. `extraArgs i` is
the entry at index `i` of the argument array. -/
def buildSpawnArgv (h : UserHeap) (cmdName : Option CStr)
    (extraArgs : Option (Nat → Option CStr)) (extraCount : Int) (argcOut : Option Int) :
    UserHeap × Option Nat × Option Int :=
  match cmdName with
  | none => (h, none, argcOut)
  | some name =>
    let total : Int := 1 + if 0 < extraCount then extraCount else 0
    match h.sysMalloc with
    | (h, none) => (h, none, argcOut)
    | (h, some argv) =>
      match dupArgString h (some name) with
      | (h, none) => (freePartialArgs (h.setPointer argv 0 none) (some argv) 0, none, argcOut)
      | (h, some b) =>
        match fillArgs argv extraArgs extraCount.toNat 0 (h.setPointer argv 0 (some b)) with
        | (h, false) => (h, none, argcOut)
        | (h, true) => (h.setPointer argv total.toNat none, some argv, argcOut.map fun _ => total)

/-! ### What a call leaves -/

/-- The blocks that were allocated between two states of the heap. -/
def allocatedBetween (h h' : UserHeap) : List Nat :=
  (List.range' h.next (h'.next - h.next)).filter fun n => !h.fails n

/-- The blocks that were allocated in between are those that were freed in between, each once. -/
def FreesAllocated (h h' : UserHeap) (l : List Nat) : Prop :=
  h'.freed = h.freed ++ l ∧ l.Perm (allocatedBetween h h')

/-- `argv` and then a block for each of the strings were allocated; the entries of `argv` point to
these blocks and are followed by a null pointer. -/
def HoldsArgs (h h' : UserHeap) (argv : Nat) (args : List CStr) : Prop :=
  ∃ bs, allocatedBetween h h' = argv :: bs ∧ bs.map h'.strings = args ∧
    (∀ i (hi : i < bs.length), h'.pointers argv i = some bs[i]) ∧
    h'.pointers argv bs.length = none

/-- What `build_spawn_argv` leaves: an argument vector that `free_spawn_args` frees completely,
or nothing. -/
structure BuildsArgv (h : UserHeap) (name : Option CStr) (extraArgs : Option (Nat → Option CStr))
    (count : Nat) (argcOut : Option Int) (r : UserHeap × Option Nat × Option Int) : Prop where
  built : ∀ argv, r.2.1 = some argv → ∃ cmd args, name = some cmd ∧ args.length = count ∧
    (∀ i (hi : i < args.length), (extraArgs.bind fun a => a i) = some args[i]) ∧
    HoldsArgs h r.1 argv (cmd :: args) ∧ r.2.2 = argcOut.map (fun _ => 1 + (count : Int)) ∧
    r.1.freed = h.freed ∧
    ∃ l, FreesAllocated h (freeSpawnArgs r.1 (some argv) (1 + (count : Int))) l
  failed : r.2.1 = none → r.2.2 = argcOut ∧ ∃ l, FreesAllocated h r.1 l

end TP2Kernel
