import TP2Kernel.Proofs.CallFrames

/-!
# Pids, names and the foreground

Only `proc_create` gives out a pid, and the foreground is changed by `proc_create` and where a
process terminates. Everything else leaves the pids, the names, the foreground flags and the
terminal's foreground alone, and claims no slot.
-/

namespace TP2Kernel.Proofs
open Function LinkedList

variable {k k' k'' : Kernel}

/-- The fields of a PCB by which processes are found. -/
def SameNames (c c' : Pcb) : Prop := c'.pid = c.pid ∧ c'.name = c.name ∧ c'.fg = c.fg

lemma SameNames.refl (c : Pcb) : SameNames c c := ⟨rfl, rfl, rfl⟩

lemma SameNames.trans {c c' c'' : Pcb} (h : SameNames c c') (h' : SameNames c' c'') :
    SameNames c c'' :=
  ⟨h'.1.trans h.1, h'.2.1.trans h.2.1, h'.2.2.trans h.2.2⟩

structure Steady (k k' : Kernel) : Prop where
  nextPid : k'.nextPid = k.nextPid
  fgPid : k'.tty.fgPid = k.tty.fgPid
  names : ∀ p, SameNames (k.procs p) (k'.procs p)
  used : ∀ p, (k'.procs p).used → (k.procs p).used

namespace Steady

lemma refl (k : Kernel) : Steady k k := ⟨rfl, rfl, fun _ => .refl _, fun _ => id⟩

lemma trans (h : Steady k k') (h' : Steady k' k'') : Steady k k'' :=
  ⟨h'.nextPid.trans h.nextPid, h'.fgPid.trans h.fgPid, fun p => (h.names p).trans (h'.names p),
    fun p hp => h.used p (h'.used p hp)⟩

/-- Writes outside the PCBs, the pid counter and the terminal. -/
lemma of_eq (hp : k'.procs = k.procs) (hn : k'.nextPid = k.nextPid) (ht : k'.tty = k.tty) :
    Steady k k' :=
  ⟨hn, by rw [ht], fun p => by rw [hp]; exact .refl _, fun p => by rw [hp]; exact id⟩

lemma modify (k : Kernel) (p : Slot) {f : Pcb → Pcb} (hf : SameNames (k.procs p) (f (k.procs p)))
    (hu : (f (k.procs p)).used → (k.procs p).used) : Steady k (k.modify p f) := by
  refine ⟨rfl, rfl, fun q => ?_, fun q => ?_⟩
  · rw [Kernel.modify_procs]
    split
    · rename_i h
      rw [h]
      exact hf
    · exact .refl _
  · rw [Kernel.modify_procs]
    split
    · rename_i h
      rw [h]
      exact hu
    · exact id

lemma redispatch (h : Redispatch k k') : Steady k k' := by
  have hw := h.write
  refine ⟨(congrArg Kernel.nextPid hw :), (congrArg (fun k => k.tty.fgPid) hw :),
    fun p => ?_, fun p => ?_⟩
  · rw [h.procs p]
    exact ⟨rfl, rfl, rfl⟩
  · rw [h.procs p]
    exact id

/-- The calls of every process keep the names. -/
lemma loose (c : Option Slot) : CallLoose c Steady where
  refl := refl
  trans := trans
  link h := by
    rw [LinkWriteAny] at h
    rw [h]
    exact of_eq rfl rfl rfl
  modify k p f h := by
    apply modify k p _ h.2
    rw [h.1]
    exact ⟨rfl, rfl, rfl⟩
  pipe _ _ _ _ := of_eq rfl rfl rfl
  free _ _ _ := of_eq rfl rfl rfl
  index h := by
    rw [h.1]
    exact of_eq rfl rfl rfl
  write k p f h := by
    apply modify k p _ h.2.1
    rw [h.1]
    exact ⟨rfl, rfl, rfl⟩
  wait k p _ _ := modify k p ⟨rfl, rfl, rfl⟩ id
  queue _ _ _ _ _ := of_eq rfl rfl rfl
  tty k f hf _ := ⟨rfl, hf, fun _ => .refl _, fun _ => id⟩
  sem _ _ _ _ := of_eq rfl rfl rfl
  handle _ _ _ _ := of_eq rfl rfl rfl
  dispatch := redispatch

lemma closed (c : Option Slot) : CallClosed c Anyhow Anyone Steady := (loose c).closed

lemma bury (k : Kernel) (p : Slot) (code : Int) (valid : Pcb → Bool) :
    Steady k (buryProc (k.modify p (exitMark code valid)) p) :=
  (closed none).bury k p code valid (.inl fun _ => trivial)

lemma schedEnqueue (k : Kernel) (p : Slot) : Steady k (schedEnqueue k p) :=
  (loose none).schedEnqueue k p

end Steady

end TP2Kernel.Proofs
