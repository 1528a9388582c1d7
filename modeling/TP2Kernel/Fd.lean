import TP2Kernel.Pipe

/-!
# File descriptors

The functions of `fd.c` and `pipe_fd.c` that create, share and release files. Releasing a
file may close a pipe, which wakes processes through the `unblock` argument.
-/

namespace TP2Kernel
open Function

def fdStdin : Fin fdMax := 0
def fdStdout : Fin fdMax := 1
def fdStderr : Fin fdMax := 2

namespace Kernel

/-- Write to one file. -/
def modifyFile (k : Kernel) (f : Nat) (g : File → File) : Kernel :=
  { k with files := update k.files f (g (k.files f)) }

/-- Write to one entry of a descriptor table. -/
def setEntry (k : Kernel) (t : Nat) (fd : Fin fdMax) (e : Option Nat) : Kernel :=
  { k with tables := update k.tables t (update (k.tables t) fd e) }

end Kernel

/-- `file_create` with a non-null resource and operations. -/
def fileCreate (k : Kernel) (ptr : FilePtr) (rd wr : Bool) : Kernel × Option Nat :=
  match k.mmMalloc with
  | (k, none) => (k, none)
  | (k, some f) =>
    (k.modifyFile f fun _ =>
      { ptr := ptr, canRead := rd, canWrite := wr, fgReadGuard := false, refcount := 1 }, some f)

/-- `file_ref`. -/
def fileRef (k : Kernel) (f : Nat) : Kernel :=
  k.modifyFile f fun c => { c with refcount := c.refcount + 1 }

/-- The close operation of a file: `tty_close` does nothing. -/
def fileClose (unblock : Kernel → Int → Kernel) (k : Kernel) (f : Nat) : Kernel :=
  match (k.files f).ptr with
  | .tty => k
  | .pipe p => kpipeClose unblock k p (k.files f).canRead (k.files f).canWrite

/-- `file_release`. -/
def fileRelease (unblock : Kernel → Int → Kernel) (k : Kernel) (f : Nat) : Kernel :=
  let k := k.modifyFile f fun c => { c with refcount := c.refcount - 1 }
  if 0 < (k.files f).refcount then k
  else (fileClose unblock k f).mmFree ⟨.file, f⟩

/-- `fd_table_create`. -/
def fdTableCreate (k : Kernel) : Kernel × Option Nat :=
  match k.mmMalloc with
  | (k, none) => (k, none)
  | (k, some t) => ({ k with tables := update k.tables t fun _ => none }, some t)

/-- One iteration of `fd_table_destroy`. -/
def fdTableDestroyStep (unblock : Kernel → Int → Kernel) (t : Nat) (k : Kernel)
    (fd : Fin fdMax) : Kernel :=
  match k.tables t fd with
  | none => k
  | some f => (fileRelease unblock k f).setEntry t fd none

/-- `fd_table_destroy` of a non-null table. -/
def fdTableDestroy (unblock : Kernel → Int → Kernel) (k : Kernel) (t : Nat) : Kernel :=
  ((List.finRange fdMax).foldl (fdTableDestroyStep unblock t) k).mmFree ⟨.table, t⟩

/-- Attach one of the global standard files. -/
def attachStd (k : Kernel) (t : Nat) (file : Option Nat) (fd : Fin fdMax) : Kernel :=
  match file with
  | none => k
  | some f => (fileRef k f).setEntry t fd (some f)

/-- `fd_table_attach_std`. -/
def fdTableAttachStd (k : Kernel) (t : Nat) : Kernel :=
  let k := attachStd k t k.stdinFile fdStdin
  let k := attachStd k t k.stdoutFile fdStdout
  attachStd k t k.stderrFile fdStderr

/-- One iteration of the copying loop of `fd_table_clone`. -/
def fdTableCloneStep (dst src : Nat) (k : Kernel) (fd : Fin fdMax) : Kernel :=
  match k.tables src fd with
  | none => k
  | some f => (fileRef k f).setEntry dst fd (some f)

/-- `fd_table_clone` of a non-null source; it always returns 0. -/
def fdTableClone (k : Kernel) (dst src : Nat) : Kernel :=
  (List.finRange fdMax).foldl (fdTableCloneStep dst src)
    { k with tables := update k.tables dst fun _ => none }

lemma toNat_lt_fdMax {fd : Int} (h : 0 ≤ fd ∧ fd < fdMax) : fd.toNat < fdMax := by omega

/-- `fd_table_get`. -/
def fdTableGet (k : Kernel) (t : Nat) (fd : Int) : Option Nat :=
  if h : 0 ≤ fd ∧ fd < fdMax then k.tables t ⟨fd.toNat, toNat_lt_fdMax h⟩ else none

/-- `fd_table_close`. -/
def fdTableClose (unblock : Kernel → Int → Kernel) (k : Kernel) (t : Nat) (fd : Int) :
    Kernel × Int :=
  if h : 0 ≤ fd ∧ fd < fdMax then
    match k.tables t ⟨fd.toNat, toNat_lt_fdMax h⟩ with
    | none => (k, -1)
    | some f => (fileRelease unblock (k.setEntry t ⟨fd.toNat, toNat_lt_fdMax h⟩ none) f, 0)
  else (k, -1)

/-- `fd_table_allocate`. -/
def fdTableAllocate (k : Kernel) (t f : Nat) : Kernel × Int :=
  match (List.finRange fdMax).find? fun fd => (k.tables t fd).isNone with
  | some fd => (k.setEntry t fd (some f), (fd.val : Int))
  | none => (k, -1)

/-- `fd_table_dup2`. -/
def fdTableDup2 (unblock : Kernel → Int → Kernel) (k : Kernel) (t : Nat) (oldfd newfd : Int) :
    Kernel × Int :=
  if h : (0 ≤ oldfd ∧ oldfd < fdMax) ∧ 0 ≤ newfd ∧ newfd < fdMax then
    match k.tables t ⟨oldfd.toNat, toNat_lt_fdMax h.1⟩ with
    | none => (k, -1)
    | some src =>
      if oldfd = newfd then (k, newfd)
      else
        let fd : Fin fdMax := ⟨newfd.toNat, toNat_lt_fdMax h.2⟩
        let k := match k.tables t fd with
          | some f => fileRelease unblock k f
          | none => k
        ((fileRef k src).setEntry t fd (some src), newfd)
  else (k, -1)

end TP2Kernel
