import TP2Kernel.Proofs.Lives
import TP2Kernel.Proofs.Pids

/-!
# Handing the terminal over

What `proc_exit` and `proc_kill` do to the foreground, and what they decide it from. Both look at
the flag of the process that ends, and not at the pid that the terminal names.
-/

namespace TP2Kernel.Proofs
open Function

variable {k k' k'' k1 : Kernel} {p q idle : Slot} {killed : Bool} {σ σ' : System} {e : Event}

/-- The pids of the slots in use are positive and distinct. -/
structure Numbers (k : Kernel) : Prop where
  distinct : DistinctPids k
  pos : ∀ p, (k.procs p).used → 0 < (k.procs p).pid
  next : 0 < k.nextPid

lemma Numbers.numbered (h : Numbers k) (hn : Numbered k k') (hp : 0 < k'.nextPid) : Numbers k' := by
  refine ⟨hn.distinct h.distinct, fun p hu => ?_, hp⟩
  obtain ⟨h1, e1⟩ := hn p hu
  rw [e1]
  exact h.pos p h1

lemma Numbers.steady (h : Numbers k) (hs : Steady k k') : Numbers k' :=
  h.numbered (.steady hs) (hs.nextPid ▸ h.next)

lemma Numbers.find (h : Numbers k) (hu : (k.procs p).used) :
    procByPid k (k.procs p).pid = some p :=
  procByPid_eq hu (h.pos p hu) fun q hq he => h.distinct q p hq hu he

lemma liveParent_eq_some (h : Numbers k) {pid : Int} :
    liveParent k pid = some q ↔ Live k q ∧ (k.procs q).pid = pid := by
  unfold liveParent
  constructor
  · intro hq
    split at hq
    · obtain ⟨h1, h2⟩ := Option.filter_eq_some_iff.mp hq
      obtain ⟨-, hu, hpid⟩ := procByPid_some h1
      exact ⟨⟨hu, of_decide_eq_true h2⟩, hpid⟩
    · cases hq
  · rintro ⟨hq, rfl⟩
    rw [if_pos (h.pos q hq.1), h.find hq.1]
    exact Option.filter_eq_some_iff.mpr ⟨rfl, decide_eq_true hq.2⟩

lemma findShell_live (hq : findShell k = some q) : Live k q := by
  have h := List.find?_some hq
  simp only [Bool.and_eq_true, decide_eq_true_eq] at h
  exact ⟨h.1.1, h.1.2⟩

/-- The live processes are the same, under the same pids and names, with the same parents. -/
structure SameFamily (k k' : Kernel) : Prop where
  live : ∀ x, Live k' x ↔ Live k x
  pid : ∀ x, (k'.procs x).pid = (k.procs x).pid
  name : ∀ x, (k'.procs x).name = (k.procs x).name
  parent : ∀ x, (k'.procs x).parentPid = (k.procs x).parentPid

namespace SameFamily

lemma trans (h : SameFamily k k') (h' : SameFamily k' k'') : SameFamily k k'' :=
  ⟨fun x => (h'.live x).trans (h.live x), fun x => (h'.pid x).trans (h.pid x),
    fun x => (h'.name x).trans (h.name x), fun x => (h'.parent x).trans (h.parent x)⟩

lemma of_procs (h : k'.procs = k.procs) : SameFamily k k' := by
  refine ⟨fun x => ?_, fun x => ?_, fun x => ?_, fun x => ?_⟩
  · rw [Live, Live, h]
  all_goals rw [h]

lemma fgWrite (h : ∀ x, FgWrite (k.procs x) (k'.procs x)) : SameFamily k k' := by
  refine ⟨fun x => ?_, fun x => ?_, fun x => ?_, fun x => ?_⟩
  · rw [Live, Live, h x]
  all_goals rw [h x]

lemma liveParent (h : SameFamily k k') (hn : Numbers k) (hn' : Numbers k') (pid : Int) :
    liveParent k' pid = liveParent k pid := by
  ext q
  rw [liveParent_eq_some hn', liveParent_eq_some hn, h.live, h.pid]

lemma findShell (h : SameFamily k k') : findShell k' = findShell k := by
  unfold TP2Kernel.findShell
  congr 1
  funext i
  rw [h.name i]
  congr 1
  rw [Bool.eq_iff_iff]
  simp only [Bool.and_eq_true, decide_eq_true_eq]
  exact h.live i

end SameFamily

lemma HandledAny.trans {c c' c'' : Pcb} (h : HandledAny c c') (h' : HandledAny c' c'') :
    HandledAny c c'' := by
  refine ⟨?_, fun hu => h.2 (h'.2 hu)⟩
  rw [h'.1, h.1]

lemma handled_loose : ReapLoose fun k k' => ∀ p, HandledAny (k.procs p) (k'.procs p) where
  refl _ _ := ⟨rfl, id⟩
  trans h h' p := (h p).trans (h' p)
  link h p := by
    rw [LinkWriteAny] at h
    rw [h]
    exact ⟨rfl, id⟩
  modify k p f h q := by
    rw [Kernel.modify_procs]
    split
    · rename_i e
      rw [e]
      exact h
    · exact ⟨rfl, id⟩
  pipe _ _ _ _ _ := ⟨rfl, id⟩
  free _ _ _ _ := ⟨rfl, id⟩

/-- Reaping does not change who gets the terminal. -/
lemma collect_family (h : Sound k) (hz : Reapables k) : SameFamily k (collectZombies k) := by
  have hc := handled_loose.closed.collectZombies k
  refine ⟨collect_live h hz, fun x => ?_, fun x => ?_, fun x => ?_⟩
  all_goals rw [(hc x).1]

lemma lowerFg_self {pid : Int} (h : (k.procs p).pid = pid) : (lowerFg k pid).procs p = k.procs p := by
  unfold lowerFg
  dsimp only
  rw [if_neg]
  exact fun hc => hc.2 h

lemma lowerFg_other {pid : Int} (hu : (k.procs p).used) (h : (k.procs p).pid ≠ pid) :
    ((lowerFg k pid).procs p).fg = false := by
  unfold lowerFg
  dsimp only
  rw [if_pos ⟨hu, h⟩]

/-- Only the flags and the terminal's foreground are written. -/
structure ForegroundWrite (k k' : Kernel) : Prop where
  same : k' = { k with procs := k'.procs, tty := { k.tty with fgPid := k'.tty.fgPid } }
  procs : ∀ x, FgWrite (k.procs x) (k'.procs x)

namespace ForegroundWrite

lemma refl (k : Kernel) : ForegroundWrite k k := ⟨rfl, fun _ => rfl⟩

lemma trans (h : ForegroundWrite k k') (h' : ForegroundWrite k' k'') : ForegroundWrite k k'' := by
  refine ⟨?_, fun x => (h.procs x).trans (h'.procs x)⟩
  rw [h'.same, h.same]

lemma next (h : ForegroundWrite k k') : k'.nextPid = k.nextPid := (congrArg Kernel.nextPid h.same :)

lemma setTty (k : Kernel) (pid : Int) : ForegroundWrite k (ttySetForeground k pid) :=
  ⟨rfl, fun _ => rfl⟩

lemma raise (k : Kernel) (pid : Int) : ForegroundWrite k (raiseFg k pid) := by
  refine ⟨?_, raiseFg_procs k pid⟩
  unfold raiseFg
  split
  · rfl
  · rfl

lemma setForeground (k : Kernel) (pid : Int) : ForegroundWrite k (procSetForeground k pid) := by
  rw [procSetForeground_eq]
  exact ((raise k pid).trans (setTty _ pid)).trans ⟨rfl, lowerFg_procs _ pid⟩

lemma exit (k : Kernel) (p : Slot) : ForegroundWrite k (exitForeground k p) := by
  unfold exitForeground
  split
  · split
    · exact setForeground k _
    · exact setTty k _
  · exact refl k

lemma kill (k : Kernel) (p : Slot) : ForegroundWrite k (killForeground k p) := by
  unfold killForeground
  split
  · split
    · exact setForeground k _
    · split
      · exact setForeground k _
      · exact setTty k _
  · exact refl k

lemma numbers (h : ForegroundWrite k k') (hn : Numbers k) : Numbers k' :=
  hn.numbered (.fgWrite h.procs) (h.next ▸ hn.next)

end ForegroundWrite

/-- The terminal goes to `q`. -/
structure Given (k k' : Kernel) (q : Slot) : Prop where
  fgPid : k'.tty.fgPid = (k.procs q).pid
  flags : ∀ x, (k'.procs x).used → ((k'.procs x).fg = true ↔ x = q)

lemma given_procSetForeground (h : Numbers k) (hu : (k.procs q).used) :
    Given k (procSetForeground k (k.procs q).pid) q := by
  have hr : raiseFg k (k.procs q).pid = k.modify q fun c => { c with fg := true } := by
    unfold raiseFg
    rw [h.find hu]
  have hw : ∀ x, FgWrite (k.procs x) ((ttySetForeground (raiseFg k (k.procs q).pid)
      (k.procs q).pid).procs x) := raiseFg_procs k _
  rw [procSetForeground_eq]
  refine ⟨rfl, fun x hx => ?_⟩
  rw [lowerFg_procs _ _ x, hw x] at hx
  by_cases hxq : x = q
  · rw [hxq, lowerFg_self]
    · rw [hr]
      simp [ttySetForeground]
    · rw [hw q]
  · have hne : (k.procs x).pid ≠ (k.procs q).pid := fun he => hxq (h.distinct x q hx hu he)
    rw [lowerFg_other]
    · simp [hxq]
    · rw [hw x]
      exact hx
    · rw [hw x]
      exact hne

/-- What becomes of the terminal where `p` is terminated. -/
inductive HandOver (k : Kernel) (p : Slot) (killed : Bool) (k' : Kernel) : Prop
  /-- `p` is not in the foreground. -/
  | keep (hf : (k.procs p).fg = false) (h : Steady k k')
  /-- Nobody gets the terminal. -/
  | drop (hf : (k.procs p).fg = true) (hh : heir k p killed = none)
      (hn : Numbered k k') (hx : k'.nextPid = k.nextPid) (ht : k'.tty.fgPid = -1)
      (hs : ∀ x, (k'.procs x).used → (k'.procs x).fg = true → (k.procs x).fg = true)
  /-- `q` gets it. -/
  | give {q : Slot} (hf : (k.procs p).fg = true) (hh : heir k p killed = some q) (hq : Live k q)
      (hn : Numbered k k') (hx : k'.nextPid = k.nextPid) (h : Given k k' q)

lemma heir_flagged (killed : Bool) (hf : (k.procs p).fg = true) : heir k p killed =
    (liveParent k (k.procs p).parentPid).or (if killed then
      (findShell k).filter fun q => !(decide (q = p) && k.current == some p) else none) := by
  unfold heir
  rw [if_pos hf]

/-- The terminal is handed over between reaping and what follows. -/
lemma HandOver.frame {k2 : Kernel} (h : HandOver k1 p killed k2) (hn : Numbers k)
    (hk : Steady k k1) (hfam : SameFamily k k1) (hc : k1.current = k.current)
    (hs : Steady k2 k') : HandOver k p killed k' := by
  have hn1 := hn.steady hk
  have hfg : ∀ x, (k1.procs x).fg = (k.procs x).fg := fun x => (hk.names x).2.2
  have hfg' : ∀ x, (k'.procs x).fg = (k2.procs x).fg := fun x => (hs.names x).2.2
  have hheir : (k1.procs p).fg = true → heir k1 p killed = heir k p killed := by
    intro hf
    rw [heir_flagged killed hf, heir_flagged killed (hfg p ▸ hf), hfam.parent, hfam.liveParent hn hn1,
      hfam.findShell, hc]
  have hnum : Numbered k1 k2 → Numbered k k' := fun h =>
    ((Numbered.steady hk).trans h).trans (.steady hs)
  cases h with
  | keep hf h => exact .keep (hfg p ▸ hf) ((hk.trans h).trans hs)
  | drop hf hh hn2 hx ht hfl =>
    refine .drop (hfg p ▸ hf) (hheir hf ▸ hh) (hnum hn2)
      ((hs.nextPid.trans hx).trans hk.nextPid) (hs.fgPid.trans ht) fun x hu he => ?_
    rw [← hfg x]
    apply hfl x (hs.used x hu)
    rw [← hfg' x]
    exact he
  | give hf hh hq hn2 hx hg =>
    refine .give (hfg p ▸ hf) (hheir hf ▸ hh) ((hfam.live _).mp hq) (hnum hn2)
      ((hs.nextPid.trans hx).trans hk.nextPid) ⟨?_, fun x hu => ?_⟩
    · rw [hs.fgPid, hg.fgPid, hfam.pid]
    · rw [hfg' x]
      exact hg.flags x (hs.used x hu)

lemma handOver_give (h : Numbers k) (hf : (k.procs p).fg = true) (hh : heir k p killed = some q)
    (hq : Live k q) : HandOver k p killed (procSetForeground k (k.procs q).pid) := by
  have hw := ForegroundWrite.setForeground k (k.procs q).pid
  exact .give hf hh hq (.fgWrite hw.procs) hw.next (given_procSetForeground h hq.1)

lemma handOver_drop (hf : (k.procs p).fg = true) (hh : heir k p killed = none) :
    HandOver k p killed (ttySetForeground k (-1)) :=
  .drop hf hh (.ttySetForeground k _) rfl rfl fun _ _ h => h

lemma handOver_exit (h : Numbers k) (p : Slot) : HandOver k p false (exitForeground k p) := by
  unfold exitForeground
  split
  · rename_i hf
    have hh := heir_flagged false hf
    split
    · rename_i q hq
      obtain ⟨hl, hpid⟩ := (liveParent_eq_some h).mp hq
      rw [hq] at hh
      rw [← hpid]
      exact handOver_give h hf hh hl
    · rename_i hq
      rw [hq] at hh
      exact handOver_drop hf hh
  · rename_i hf
    exact .keep (by simpa using hf) (.refl k)

/-- A process that another one kills. -/
lemma handOver_kill (h : Numbers k) (hc : k.current ≠ some p) :
    HandOver k p true (killForeground k p) := by
  unfold killForeground
  split
  · rename_i hf
    have hh := heir_flagged true hf
    have hfil : ((findShell k).filter fun q => !(decide (q = p) && k.current == some p)) =
        findShell k := by
      cases findShell k with
      | none => rfl
      | some q => simp [Option.filter, hc]
    rw [if_pos rfl, hfil] at hh
    split
    · rename_i q hq
      obtain ⟨hl, hpid⟩ := (liveParent_eq_some h).mp hq
      rw [hq] at hh
      rw [← hpid]
      exact handOver_give h hf hh hl
    · rename_i hq
      rw [hq, Option.none_or] at hh
      split
      · rename_i q hs
        rw [hs] at hh
        exact handOver_give h hf hh (findShell_live hs)
      · rename_i hs
        rw [hs] at hh
        exact handOver_drop hf hh
  · rename_i hf
    exact .keep (by simpa using hf) (.refl k)

/-- The exit of a process whose flag is lowered leaves the terminal alone. -/
lemma exitForeground_lowered (hf : (k.procs p).fg = false) : exitForeground k p = k := by
  unfold exitForeground
  rw [hf]
  rfl

/-- The exit of a process in the foreground that has no live parent. -/
lemma exitForeground_orphan (hf : (k.procs p).fg = true)
    (hp : liveParent k (k.procs p).parentPid = none) :
    exitForeground k p = ttySetForeground k (-1) := by
  unfold exitForeground
  rw [if_pos hf, hp]

/-- A process that kills itself: the hand-over of `proc_kill`, and behind it that of `proc_exit`. -/
lemma handOver_self (h : Numbers k) (hc : k.current = some p) (hp : Live k p)
    (hs : Steady (killForeground k p) k1) (hfam : SameFamily (killForeground k p) k1) :
    HandOver k p true (exitForeground k1 p) := by
  have hw := ForegroundWrite.kill k p
  have hn1 : Numbers k1 := (hw.numbers h).steady hs
  have hfam1 : SameFamily k k1 := (SameFamily.fgWrite hw.procs).trans hfam
  have hpar : liveParent k1 (k1.procs p).parentPid = liveParent k (k.procs p).parentPid := by
    rw [hfam1.parent, hfam1.liveParent h hn1]
  have hp1 : Live k1 p := (hfam1.live p).mpr hp
  have hnum : Numbered k k1 := (Numbered.fgWrite hw.procs).trans (.steady hs)
  have hnext : k1.nextPid = k.nextPid := hs.nextPid.trans hw.next
  have hfg : ∀ x, (k1.procs x).fg = ((killForeground k p).procs x).fg := fun x => (hs.names x).2.2
  have hgive : ∀ q, Live k q → killForeground k p = procSetForeground k (k.procs q).pid →
      Given k k1 q := by
    intro q hq e
    have hg := given_procSetForeground h hq.1
    rw [← e] at hg
    refine ⟨hs.fgPid.trans hg.fgPid, fun x hu => ?_⟩
    rw [hfg x]
    exact hg.flags x (hs.used x hu)
  have hother : ∀ q, Given k k1 q → q ≠ p → exitForeground k1 p = k1 := by
    intro q hg hqp
    apply exitForeground_lowered
    rw [← Bool.not_eq_true, hg.flags p hp1.1]
    exact fun e => hqp e.symm
  by_cases hf : (k.procs p).fg = true
  · have hh := heir_flagged true hf
    unfold killForeground at hgive hfg
    rw [if_pos hf] at hgive hfg
    cases hq : liveParent k (k.procs p).parentPid with
    | some q =>
      obtain ⟨hl, hpid⟩ := (liveParent_eq_some h).mp hq
      have hg : Given k k1 q := by
        apply hgive q hl
        rw [hq, hpid]
      rw [hq] at hh hpar
      by_cases hqp : q = p
      · subst hqp
        have hl1 : Live k1 q := hp1
        have e : exitForeground k1 q = procSetForeground k1 (k1.procs q).pid := by
          unfold exitForeground
          rw [if_pos ((hg.flags q hp1.1).mpr rfl), hpar, hfam1.parent, ← hpid, hfam1.pid]
        rw [e]
        have hw1 := ForegroundWrite.setForeground k1 (k1.procs q).pid
        have hg1 := given_procSetForeground hn1 hl1.1
        exact .give hf hh hl (hnum.trans (.fgWrite hw1.procs)) (hw1.next.trans hnext)
          ⟨hg1.fgPid.trans (hfam1.pid q), hg1.flags⟩
      · rw [hother q hg hqp]
        exact .give hf hh hl hnum hnext hg
    | none =>
      rw [hq] at hh hpar
      rw [hq] at hgive hfg
      cases hs' : findShell k with
      | some q =>
        have hl := findShell_live hs'
        have hg : Given k k1 q := by
          apply hgive q hl
          rw [hs']
        rw [hs'] at hh
        by_cases hqp : q = p
        · subst hqp
          rw [exitForeground_orphan ((hg.flags q hp1.1).mpr rfl) hpar]
          refine .drop hf ?_ hnum hnext rfl fun x hu hx => ?_
          · rw [hh]
            simp [Option.filter, hc]
          · rw [(hg.flags x hu).mp hx]
            exact hf
        · rw [hother q hg hqp]
          refine .give hf ?_ hl hnum hnext hg
          rw [hh]
          simp [Option.filter, hqp]
      | none =>
        rw [hs'] at hh hfg
        have hf1 : (k1.procs p).fg = true := by
          rw [hfg p]
          exact hf
        rw [exitForeground_orphan hf1 hpar]
        refine .drop hf hh hnum hnext rfl fun x _ hx => ?_
        change (k1.procs x).fg = true at hx
        rw [hfg x] at hx
        exact hx
  · have e : killForeground k p = k := by
      unfold killForeground
      rw [if_neg hf]
    rw [e] at hs
    have hf1 : (k1.procs p).fg = false := by
      rw [(hs.names p).2.2]
      simpa using hf
    rw [exitForeground_lowered hf1]
    exact .keep (by simpa using hf) hs

lemma SemWrite.current (h : SemWrite k k') : k'.current = k.current :=
  (congrArg Kernel.current h.same :)

/-- The parts of `proc_exit`: reaping, the hand-over for the current process, and the rest. -/
lemma procExit_parts (exec : Slot) (code : Int) (hc : (collectZombies k).current = some p)
    (hi : (collectZombies k).idleProc ≠ some p) :
    ∃ k1, Steady k k1 ∧ k1.procs = (collectZombies k).procs ∧ k1.current = some p ∧
      Steady (exitForeground k1 p) (procExit k exec code).1 := by
  have hcl := Steady.closed none
  have h0 := hcl.collectZombies k
  rw [procExit_eq, hc]
  dsimp only
  rw [if_neg hi]
  generalize collectZombies k = k0 at h0 hc ⊢
  unfold exitTail exitRelease
  have h1 := semWrite_removeWaitersFor k0 p
  have h2 := h1.trans (semWrite_cleanupHandles (ksemRemoveWaitersFor k0 p)
    ((ksemRemoveWaitersFor k0 p).procs p).pid)
  have h3 := h0.trans ((hcl.ksemRemoveWaitersFor k0 p).trans (hcl.semCleanupProcessHandles
    (ksemRemoveWaitersFor k0 p) ((ksemRemoveWaitersFor k0 p).procs p).pid))
  exact ⟨_, h3, h2.procs, h2.current.trans hc, (Steady.bury _ p code _).trans (hcl.yield _ _)⟩

lemma exit_handOver (h : Kept σ idle) (hn : Numbers σ.k) (hc : σ.k.current = some p)
    (hi : σ.k.idleProc ≠ some p) (exec : Slot) (code : Int) :
    HandOver σ.k p false (procExit σ.k exec code).1 := by
  have hsound := h.sane.sound
  have hc0 : (collectZombies σ.k).current = some p := (collect_current h).trans hc
  have hi0 : (collectZombies σ.k).idleProc ≠ some p := by
    rw [collect_idle hsound h.zombies]
    exact hi
  obtain ⟨k1, hs, hp, hc1, hs'⟩ := procExit_parts exec code hc0 hi0
  have hfam := (collect_family hsound h.zombies).trans (.of_procs hp)
  exact (handOver_exit (hn.steady hs) p).frame hn hs hfam (hc1.trans hc.symm) hs'

/-- A kill of the process that it finds. -/
lemma kill_handOver {pid : Int} (h : Kept σ idle) (hn : Numbers σ.k)
    (hp : procByPid (collectZombies σ.k) pid = some p) (hi : σ.k.idleProc ≠ some p) :
    HandOver σ.k p true (procKill σ.k σ.exec pid).1 := by
  have hcl := Steady.closed none
  have hsound := h.sane.sound
  have h0 := hcl.collectZombies σ.k
  have hc0 := collect_current h
  have hfam0 := collect_family hsound h.zombies
  have hi0 : (collectZombies σ.k).idleProc ≠ some p := by
    rw [collect_idle hsound h.zombies]
    exact hi
  obtain ⟨h1, hl1⟩ := (listed_rule anything).collects .idle σ.k (h.zombies.listed fun _ => trivial)
  obtain ⟨h1', -⟩ := (listed_rule anything).collect .idle σ.k (h.zombies.listed fun _ => trivial)
  have hx0 : ∀ c, σ.k.current = some c → Executing (collectZombies σ.k) c := fun c hc =>
    steps_executing hsound h1' id (h.current c hc).2
  rw [procKill_eq, hp]
  dsimp only
  rw [if_neg hi0]
  have hs0 := steps_sound hsound h1
  generalize collectZombies σ.k = k0 at *
  have hsem := semWrite_removeWaitersFor k0 p
  have hs1 : Steady σ.k (ksemRemoveWaitersFor k0 p) := h0.trans (hcl.ksemRemoveWaitersFor k0 p)
  have hfam1 := hfam0.trans (.of_procs hsem.procs)
  have hc1 : (ksemRemoveWaitersFor k0 p).current = σ.k.current := hsem.current.trans hc0
  have hn1 := hn.steady hs1
  have hw := ForegroundWrite.kill (ksemRemoveWaitersFor k0 p) p
  obtain ⟨hgo, hg⟩ := @goes_killRelease anything (Listed anything) .idle
    ((listed_rule anything).ofZombies .idle) trivial k0 p
  obtain ⟨h2, hl2⟩ := hgo hl1
  unfold killTail
  by_cases hc : σ.k.current = some p
  · have hx2 := hg.executing (hx0 p hc)
    rw [if_pos ⟨by simp [hx2.running], hx2.current⟩]
    have hs2 := steps_sound hs0 h2
    obtain ⟨h3, -⟩ := (listed_rule anything).collect .idle (killRelease k0 p) hl2
    have hx3 := steps_executing hs2 h3 id hx2
    have hi3 : (collectZombies (killRelease k0 p)).idleProc ≠ some p := by
      rw [collect_idle hs2 hl2.reapables, hg.idle]
      exact hi0
    obtain ⟨k1, hs, hpr, -, hs'⟩ := procExit_parts σ.exec 0 hx3.current hi3
    have hfam2 := (collect_family hs2 hl2.reapables).trans (.of_procs hpr)
    have hlive : Live (ksemRemoveWaitersFor k0 p) p := by
      rw [Live, hsem.procs]
      exact ⟨(hx0 p hc).used, by simp [(hx0 p hc).running]⟩
    exact (handOver_self hn1 (hc1.trans hc) hlive hs hfam2).frame hn hs1 hfam1 hc1 hs'
  · rw [if_neg]
    · have hs' : Steady (killRelease k0 p) (collectZombies (buryProc
          ((unready (killRelease k0 p) p).modify p (exitMark 0 fun _ => false)) p)) :=
        (hcl.unready _ p).trans ((Steady.bury _ p 0 _).trans (hcl.collectZombies _))
      have hne : (ksemRemoveWaitersFor k0 p).current ≠ some p := by
        rw [hc1]
        exact hc
      exact (handOver_kill hn1 hne).frame hn hs1 hfam1 hc1 hs'
    · intro hcc
      apply hc
      rw [← hc0, ← hg.current]
      exact hcc.2

end TP2Kernel.Proofs
