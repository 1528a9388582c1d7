import TP2Kernel.SpawnArgs

/-!
# Starting the MVar program

`ctx_allocate` and `mvar_start` of `mvar.c`. The blocks of `malloc` are those of `UserHeap`; the
results of `sys_sem_open` and `sys_create_process_ex` are what the kernel answers.
-/

namespace TP2Kernel
open Function

/-- `MVAR_MAX_INSTANCES`. -/
def mvarMaxInstances : Nat := 4

/-- `MVAR_MAX_WRITERS`, and `MAX_WRITERS`. -/
def mvarMaxWriters : Nat := 26

/-- `MVAR_MAX_READERS`. -/
def mvarMaxReaders : Nat := 14

/-- `mvar_context_t`. -/
structure MvarContext where
  inUse : Bool
  id : Int
  value : UInt8
  semEmptyName : CStr
  semFullName : CStr

/-- The functions that the processes run. -/
inductive MvarEntryPoint
  | writerProcess
  | readerProcess
  deriving DecidableEq

/-- A process that was created and runs. -/
structure MvarProcess where
  pid : Int
  entry : MvarEntryPoint
  argv : Nat
  deriving DecidableEq

/-- `mvar_launch_info_t`. -/
structure MvarLaunchInfo where
  contextId : Int
  writerCount : Int
  readerCount : Int
  writerPids : Nat → Int
  readerPids : Nat → Int
  writerNames : Nat → CStr
  readerNames : Nat → CStr

/-- The answers of the kernel: the handles of the two semaphores, and the pid that the `n`-th
request for a process gets. Negative numbers are failures. -/
structure MvarAnswers where
  semEmpty : Int
  semFull : Int
  createProcess : Nat → Int

/-- The data of `mvar.c`, the heap, the semaphore handles that are open, the processes that run,
and the number of requests for a process. -/
structure MvarSystem where
  contexts : Nat → MvarContext
  nextCtxId : Int
  heap : UserHeap
  handles : List Int
  processes : List MvarProcess
  requests : Nat

/-- The bytes of a text. -/
def cstrOf (s : String) : CStr := s.toUTF8.toList

/-- The labels of `reader_palette`. -/
def readerPalette : List String :=
  ["red", "green", "blue", "yellow", "cyan", "orange", "purple", "pink", "lightgreen", "lightblue",
    "lightpurple", "lightorange", "lightyellow", "lightpink"]

namespace MvarSystem

/-! ### The context -/

/-- The first context that is not in use. -/
def freeContext (σ : MvarSystem) : Option Nat :=
  (List.range mvarMaxInstances).find? fun i => !(σ.contexts i).inUse

/-- `ctx_allocate`. -/
def ctxAllocate (σ : MvarSystem) : MvarSystem × Option Nat :=
  match σ.freeContext with
  | none => (σ, none)
  | some i =>
    let id := σ.nextCtxId
    let ctx : MvarContext :=
      { inUse := true
        id := id
        value := 0
        semEmptyName := cstrOf ("mvar_empty_" ++ toString id)
        semFullName := cstrOf ("mvar_full_" ++ toString id) }
    ({ σ with contexts := update σ.contexts i ctx, nextCtxId := id + 1 }, some i)

/-- `ctx->in_use = 0`. -/
def release (σ : MvarSystem) (i : Nat) : MvarSystem :=
  { σ with contexts := update σ.contexts i { σ.contexts i with inUse := false } }

/-- `sys_sem_open` with the answer of the kernel. -/
def semOpen (σ : MvarSystem) (handle : Int) : MvarSystem :=
  if 0 ≤ handle then { σ with handles := handle :: σ.handles } else σ

/-- `sys_sem_close`. -/
def semClose (σ : MvarSystem) (handle : Int) : MvarSystem :=
  { σ with handles := σ.handles.erase handle }

/-! ### The processes -/

/-- `free` of a pointer that may be null. -/
def freeIf (h : UserHeap) : Option Nat → UserHeap
  | none => h
  | some b => h.sysFree b

/-- An iteration of the two loops: four allocations and a request for a process. The pid of the
process, or `none` where `mvar_start` returns. -/
def spawn (e : MvarAnswers) (σ : MvarSystem) (entry : MvarEntryPoint) (s0 s1 s2 : CStr) :
    MvarSystem × Option Int :=
  match σ.heap.sysMalloc with
  | (h, none) => ({ σ with heap := h }, none)
  | (h, some argv) =>
    let (h, arg0) := h.sysMalloc
    let (h, arg1) := h.sysMalloc
    let (h, arg2) := h.sysMalloc
    match arg0, arg1, arg2 with
    | some a0, some a1, some a2 =>
      let h := ((h.setString a0 s0).setString a1 s1).setString a2 s2
      let h := (h.setPointer argv 0 (some a0)).setPointer argv 1 (some a1)
      let h := (h.setPointer argv 2 (some a2)).setPointer argv 3 none
      let pid := e.createProcess σ.requests
      let σ := { σ with heap := h, requests := σ.requests + 1 }
      if pid < 0 then (σ, none)
      else ({ σ with processes := σ.processes ++ [⟨pid, entry, argv⟩] }, some pid)
    | arg0, arg1, arg2 =>
      ({ σ with heap := (freeIf (freeIf (freeIf h arg0) arg1) arg2).sysFree argv }, none)

/-- The iteration of the first loop for writer `w`. -/
def spawnWriter (e : MvarAnswers) (ctxId : Int) (σ : MvarSystem) (w : Nat) :
    MvarSystem × Option Int :=
  spawn e σ .writerProcess (cstrOf (toString ctxId)) [65 + UInt8.ofNat w] (cstrOf (toString w))

/-- The iteration of the second loop for reader `r`. -/
def spawnReader (e : MvarAnswers) (ctxId : Int) (σ : MvarSystem) (r : Nat) :
    MvarSystem × Option Int :=
  spawn e σ .readerProcess (cstrOf (toString ctxId)) (cstrOf (toString r)) (cstrOf (toString r))

/-- What a loop stores of writer `w`. -/
def storeWriter (w : Nat) (pid : Int) (info : MvarLaunchInfo) : MvarLaunchInfo :=
  { info with
    writerPids := update info.writerPids w pid
    writerNames := update info.writerNames w (cstrOf "mvar-writer-" ++ [65 + UInt8.ofNat w]) }

/-- What a loop stores of reader `r`. -/
def storeReader (r : Nat) (pid : Int) (info : MvarLaunchInfo) : MvarLaunchInfo :=
  { info with
    readerPids := update info.readerPids r pid
    readerNames := update info.readerNames r
      (cstrOf ("mvar-reader-" ++ readerPalette.getD (r % readerPalette.length) "")) }

/-- A loop with `n` iterations to go; `false` stands for the `return -1` in it. -/
def spawnLoop (one : MvarSystem → Nat → MvarSystem × Option Int)
    (store : Nat → Int → MvarLaunchInfo → MvarLaunchInfo) :
    Nat → Nat → MvarSystem → Option MvarLaunchInfo → MvarSystem × Option MvarLaunchInfo × Bool
  | 0, _, σ, info => (σ, info, true)
  | n + 1, i, σ, info =>
    match one σ i with
    | (σ, none) => (σ, info, false)
    | (σ, some pid) => spawnLoop one store n (i + 1) σ (info.map (store i pid))

/-- The two loops of `mvar_start`. -/
def spawnAll (e : MvarAnswers) (ctxId : Int) (writers readers : Nat) (σ : MvarSystem)
    (info : Option MvarLaunchInfo) : MvarSystem × Option MvarLaunchInfo × Bool :=
  match spawnLoop (spawnWriter e ctxId) storeWriter writers 0 σ info with
  | (σ, info, false) => (σ, info, false)
  | (σ, info, true) => spawnLoop (spawnReader e ctxId) storeReader readers 0 σ info

/-- `mvar_start`: the system, `*out_info` and the result. -/
def mvarStart (e : MvarAnswers) (σ : MvarSystem) (writerCount readerCount : Int)
    (info : Option MvarLaunchInfo) : MvarSystem × Option MvarLaunchInfo × Int :=
  if writerCount ≤ 0 ∨ readerCount ≤ 0 ∨ (mvarMaxWriters : Int) < writerCount ∨
      (mvarMaxReaders : Int) < readerCount then (σ, info, -1)
  else
    match σ.ctxAllocate with
    | (σ, none) => (σ, info, -1)
    | (σ, some i) =>
      let σ := (σ.semOpen e.semEmpty).semOpen e.semFull
      if e.semEmpty < 0 ∨ e.semFull < 0 then
        let σ := if 0 ≤ e.semEmpty then σ.semClose e.semEmpty else σ
        let σ := if 0 ≤ e.semFull then σ.semClose e.semFull else σ
        (σ.release i, info, -1)
      else
        let σ := (σ.semClose e.semEmpty).semClose e.semFull
        let ctxId := (σ.contexts i).id
        let info := info.map fun info =>
          { info with
            contextId := ctxId, writerCount := writerCount, readerCount := readerCount
            writerPids := fun j => if j < mvarMaxWriters then -1 else info.writerPids j
            writerNames := fun j => if j < mvarMaxWriters then [] else info.writerNames j
            readerPids := fun j => if j < mvarMaxReaders then -1 else info.readerPids j
            readerNames := fun j => if j < mvarMaxReaders then [] else info.readerNames j }
        match spawnAll e ctxId writerCount.toNat readerCount.toNat σ info with
        | (σ, info, true) => (σ, info, 0)
        | (σ, info, false) => (σ, info, -1)

/-! ### What a failure leaves -/

/-- A process that runs has the block: its `argv`, or what an entry of it points to. -/
def Handed (σ : MvarSystem) (b : Nat) : Prop :=
  ∃ p ∈ σ.processes, b = p.argv ∨ ∃ i < 3, σ.heap.pointers p.argv i = some b

/-- `σ'` is as `σ` was: no context, no semaphore handle and no process is kept, and what was
allocated is freed. -/
structure Restored (σ σ' : MvarSystem) : Prop where
  contexts : ∀ i, (σ'.contexts i).inUse = (σ.contexts i).inUse
  blocks : ∀ b ∈ allocatedBetween σ.heap σ'.heap, b ∈ σ'.heap.freed ∨ Handed σ' b
  handles : σ'.handles = σ.handles
  processes : σ'.processes = σ.processes

/-- When `mvar_start` fails, the system is as before. -/
def FailsCleanly (e : MvarAnswers) (σ : MvarSystem) (writerCount readerCount : Int)
    (info : Option MvarLaunchInfo) : Prop :=
  (mvarStart e σ writerCount readerCount info).2.2 = -1 →
    Restored σ (mvarStart e σ writerCount readerCount info).1

/-- All contexts are in use, or a semaphore cannot be opened, or none of the four allocations for
each of `n` processes and none of the requests for them fails. -/
def NoLateFailure (e : MvarAnswers) (σ : MvarSystem) (n : Nat) : Prop :=
  (∀ i < mvarMaxInstances, (σ.contexts i).inUse = true) ∨ e.semEmpty < 0 ∨ e.semFull < 0 ∨
    (∀ j < 4 * n, σ.heap.fails (σ.heap.next + j) = false) ∧
      ∀ j < n, 0 ≤ e.createProcess (σ.requests + j)

end MvarSystem

end TP2Kernel
