import TP2Kernel.FdCalls

/-!
# What `collect_zombies` gives back

A process that `detach_children` killed is on the zombie list with its descriptor table.
The destruction of the table closes files, the last end of a pipe wakes those who wait on
the pipe, and `proc_unblock` calls `collect_zombies` again: `zombie_head` still points to
the first zombie then.
-/

namespace TP2Kernel

/-- What a process owns when it is on the zombie list. -/
def zombieBlocks (c : Pcb) : List Block :=
  (c.kstackBase.map (Block.mk .stack)).toList ++ (c.fdTable.map (Block.mk .table)).toList ++
    c.waitRes.map fun r => ⟨.waitResult, r.node⟩

/-- The nodes of those who wait on a pipe. -/
def waiterBlocks (c : Kpipe) : List Block :=
  (c.rWaiters ++ c.wWaiters).map fun w => ⟨.pipeWaiter, w.node⟩

/-- The zombies that `collect_zombies` reaps. -/
def reapedOf (k : Kernel) (zs : List Slot) : List Slot := zs.filter fun z => reapable (k.procs z)

/-- The descriptors of a process that refer to `f`. -/
def heldRefs (k : Kernel) (f : Nat) (z : Slot) : Nat :=
  match (k.procs z).fdTable with
  | some t => fileEntries {t} k f
  | none => 0

/-- From `k` to `k'`, what the reaped zombies of `zs` owned has been freed once, each of their
descriptors has dropped one reference, and nothing has been freed twice. A file's close
operation runs just before the file is freed. -/
structure CollectedOnce (zs : List Slot) (k k' : Kernel) : Prop where
  own : ∀ z ∈ reapedOf k zs, ∀ b ∈ zombieBlocks (k.procs z), k'.heap.freed.count b = 1
  refs : ∀ f, (k'.files f).refcount =
    (k.files f).refcount - ((reapedOf k zs).map (heldRefs k f)).sum
  pos : ∀ f, 0 ≤ (k'.files f).refcount
  once : k'.heap.freed.Nodup

/-- All references to `f` are entries of the table `t`. -/
def OnlyIn (k : Kernel) (t f : Nat) : Prop := (k.files f).refcount = fileEntries {t} k f

instance (k : Kernel) (t f : Nat) : Decidable (OnlyIn k t f) :=
  inferInstanceAs (Decidable (_ = _))

/-- With the table `t` goes the last write end of a pipe that has a queued reader, or the last
read end of one that has a queued writer. -/
def DropsLastEnd (k : Kernel) (t p : Nat) : Prop :=
  (∃ f ∈ liveFiles k p, OnlyIn k t f) ∧
    ((k.pipes p).rWaiters ≠ [] ∧ (∀ f ∈ liveFiles k p, (k.files f).canWrite → OnlyIn k t f) ∨
      (k.pipes p).wWaiters ≠ [] ∧ ∀ f ∈ liveFiles k p, (k.files f).canRead → OnlyIn k t f)

instance (k : Kernel) (t p : Nat) : Decidable (DropsLastEnd k t p) :=
  inferInstanceAs (Decidable (_ ∧ (_ ∧ _ ∨ _ ∧ _)))

/-- The first zombie is reaped, and somebody waits for what its table holds. -/
def FirstWakes (k : Kernel) : Prop :=
  ∃ z t p, k.zombieHead = some z ∧ reapable (k.procs z) = true ∧
    (k.procs z).fdTable = some t ∧ DropsLastEnd k t p

end TP2Kernel
