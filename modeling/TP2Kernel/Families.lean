import TP2Kernel.Runs
import TP2Kernel.Lib.Forest

/-!
# Families

`child_head` and `sibling_next` link the children of every process, and `parent_pid` names
the parent of every child. A process that is created becomes the first child of the current
one. The termination of a process terminates its children, makes orphans of their children,
and takes the process from the list of its own parent.
-/

namespace TP2Kernel
open LinkedList

/-- The links hold the lists `kids` for the processes that `L` holds of. Everyone on a list
carries the pid of the process whose list it is, who is on no list has no parent, and nobody
descends from itself. -/
structure FamilyTree (L : Slot → Prop) (k : Kernel) (kids : Slot → List Slot) : Prop where
  forest : Forest k.childHead k.siblingNext kids
  child : ∀ {p c}, c ∈ kids p → L p ∧ L c ∧ (k.procs c).parentPid = (k.procs p).pid
  parent : ∀ {c}, L c → (k.procs c).parentPid = -1 ∨ ∃ p, c ∈ kids p
  ranked : ∃ rank : Slot → Nat, ∀ p c, c ∈ kids p → rank p < rank c

/-- The lists of the live processes. -/
abbrev Family (k : Kernel) (kids : Slot → List Slot) : Prop := FamilyTree (Live k) k kids

/-- The lists after `i` is created by the process `c`. -/
def begot (kids : Slot → List Slot) (c : Option Slot) (i : Slot) : Slot → List Slot :=
  match c with
  | some p => Function.update kids p (i :: kids p)
  | none => kids

/-- The creation of `i`. It becomes the first child of the current process. -/
structure Begets (kids : Slot → List Slot) (i : Slot) (k k' : Kernel) : Prop where
  free : ¬Live k i
  live : ∀ x, Live k' x ↔ Live k x ∨ x = i
  pid : ∀ x, Live k x → (k'.procs x).pid = (k.procs x).pid
  parent : ∀ x, Live k x → (k'.procs x).parentPid = (k.procs x).parentPid
  family : Family k' (begot kids k.current i)

/-- The lists after `p` and its children are terminated. -/
def bereaved (kids : Slot → List Slot) (p x : Slot) : List Slot :=
  if x = p || (kids p).contains x then [] else (kids x).erase p

/-- The termination of `p` with its children. Their children have no parent any more. -/
structure Bereaves (kids : Slot → List Slot) (p : Slot) (k k' : Kernel) : Prop where
  live : ∀ x, Live k' x ↔ Live k x ∧ x ≠ p ∧ x ∉ kids p
  pid : ∀ x, Live k' x → (k'.procs x).pid = (k.procs x).pid
  orphan : ∀ x, Live k' x → ∀ c ∈ kids p, x ∈ kids c → (k'.procs x).parentPid = -1
  parent : ∀ x, Live k' x → (∀ c ∈ kids p, x ∉ kids c) →
    (k'.procs x).parentPid = (k.procs x).parentPid
  family : Family k' (bereaved kids p)

/-- What an event does to the families: it terminates a process with its children, or creates a
child of the current process, or terminates nobody and leaves the families alone. -/
inductive KinChange (σ : System) (e : Event) (kids : Slot → List Slot) (k' : Kernel) : Prop
  | ended {p : Slot} (ht : e.Terminates σ p) (h : Bereaves kids p σ.k k')
  | begun {i : Slot} {entry : Nat} {name : CStr} {prio : Int} {fg : Bool}
      (he : e = .syscall (.createProcess (some entry) (some name) prio fg))
      (h : Begets kids i σ.k k')
  | same (ht : ∀ p, e.Terminates σ p → ¬Live σ.k p) (hl : ∀ x, Live k' x ↔ Live σ.k x)
      (hp : ∀ x, Live k' x → (k'.procs x).pid = (σ.k.procs x).pid ∧
        (k'.procs x).parentPid = (σ.k.procs x).parentPid) (h : Family k' kids)

end TP2Kernel
