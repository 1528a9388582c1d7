import TP2Kernel.Proofs.Blocked

/-!
# Owners of semaphore handles

A handle is owned by the process that opened it. `proc_exit` closes the handles of the process
that exits; `proc_kill` and the termination of children do not.
-/

namespace TP2Kernel.Proofs
open Function

variable {A : Slot → Prop} {c : Option Slot} {k k' k'' : Kernel} {p x idle : Slot}
  {σ σ' : System} {e : Event}

/-- The processes in `A` keep their pids, and new handles are owned by process `c`. -/
structure Handed (A : Slot → Prop) (c : Option Slot) (k k' : Kernel) : Prop where
  pid : ∀ x, A x → (k'.procs x).pid = (k.procs x).pid
  handles : ∀ i h, k'.semHandles i = some h → k.semHandles i = some h ∨
    ∃ cur, c = some cur ∧ h.ownerPid = (k.procs cur).pid

namespace Handed

/-- Writes outside the table of handles. -/
lemma steady (h : Steady k k') (hs : k'.semHandles = k.semHandles) : Handed A c k k' :=
  ⟨fun x _ => (h.names x).1, fun _ _ he => .inl (hs ▸ he)⟩

lemma trans (hA : ∀ cur, c = some cur → A cur) (h : Handed A c k k') (h' : Handed A c k' k'') :
    Handed A c k k'' := by
  refine ⟨fun x hx => (h'.pid x hx).trans (h.pid x hx), fun i e he => ?_⟩
  rcases h'.handles i e he with he | ⟨cur, hc, ho⟩
  · exact h.handles i e he
  · exact .inr ⟨cur, hc, ho.trans (h.pid cur (hA cur hc))⟩

lemma loose (hA : ∀ cur, c = some cur → A cur) : CallLoose c (Handed A c) where
  refl k := steady (.refl k) rfl
  trans := trans hA
  link h := by
    apply steady ((Steady.loose c).link h)
    rw [LinkWriteAny] at h
    rw [h]
  modify k p f h := steady ((Steady.loose c).modify k p f h) rfl
  pipe k p f h := steady ((Steady.loose c).pipe k p f h) rfl
  free k b h := steady ((Steady.loose c).free k h) rfl
  index h := by
    apply steady ((Steady.loose c).index h)
    rw [h.1]
  write k p f h := steady ((Steady.loose c).write k p f h) rfl
  wait k p m h := steady ((Steady.loose c).wait k p m h) rfl
  queue k p f hr hw := steady ((Steady.loose c).queue k p f hr hw) rfl
  tty k f hf h := steady ((Steady.loose c).tty k f hf h) rfl
  sem k s f h := steady ((Steady.loose c).sem k s f h) rfl
  handle k i e he := by
    refine ⟨fun _ _ => rfl, fun j h hj => ?_⟩
    dsimp only at hj
    rw [update_apply] at hj
    split at hj
    · exact .inr (he h hj)
    · exact .inl hj
  dispatch h := steady ((Steady.loose c).dispatch h) h.write.semHandles

lemma closed (hA : ∀ cur, c = some cur → A cur) :
    EventClosed c Anyhow Anyone (fun p _ => ¬A p) (Handed A c) where
  toCallClosed := (loose hA).closed
  front h := by
    refine ⟨fun x _ => ?_, fun i e he => .inl ?_⟩
    · rw [h.procs x]
    · rw [h.same] at he
      exact he
  tick k rsp := (loose hA).dispatch (.schedule k rsp)
  frame k p _ := (loose hA).dispatch (.modify k p fun _ => rfl)
  claim k i prio fg name _ hi := by
    refine ⟨fun x hx => ?_, fun j e he => .inl ?_⟩
    · rw [claimed_procs]
      rintro rfl
      exact hi hx
    · unfold claimed at he
      rw [setParentPid_eq] at he
      exact he

end Handed

/-- Without a caller no handle is new. -/
lemma handles_subset :
    EventClosed none Anyhow Anyone (fun _ _ => ¬False) (Handed (fun _ => False) none) :=
  Handed.closed nofun

lemma Handed.old {i : Fin ksemHandleMax} {h : SemHandle} (hk : Handed A none k k')
    (hi : k'.semHandles i = some h) : k.semHandles i = some h :=
  (hk.handles i h hi).resolve_right fun ⟨_, hc, _⟩ => nomatch hc

/-- No handle is owned under this pid. -/
def Unheld (k : Kernel) (pid : Int) : Prop := ∀ i h, k.semHandles i = some h → h.ownerPid ≠ pid

lemma Unheld.mono {pid : Int} (h : Unheld k pid) (hk : Handed A none k k') : Unheld k' pid :=
  fun i e he => h i e (hk.old he)

lemma semCleanupStep_closes {pid : Int} {i : Fin ksemHandleMax} {h : SemHandle}
    (hi : (semCleanupStep pid k i).semHandles i = some h) : h.ownerPid ≠ pid := by
  unfold semCleanupStep at hi
  split at hi
  · rename_i e he
    split at hi
    · have h1 := (handles_subset.ksemClose _ e.sem).old hi
      simp at h1
    · rename_i hne
      rw [he] at hi
      cases hi
      exact hne
  · rename_i he
    rw [he] at hi
    cases hi

lemma semCleanupStep_held (pid : Int) (k : Kernel) (i : Fin ksemHandleMax) :
    Handed (fun _ => False) none k (semCleanupStep pid k i) := by
  unfold semCleanupStep
  split
  · split
    · have h1 := handles_subset.handle k i none nofun
      exact handles_subset.trans h1 (handles_subset.ksemClose _ _)
    · exact handles_subset.refl k
  · exact handles_subset.refl k

/-- `sem_cleanup_process_handles` leaves no handle to the process. -/
lemma semCleanup_closes (k : Kernel) (pid : Int) : Unheld (semCleanupProcessHandles k pid) pid := by
  have hl : ∀ (i : Fin ksemHandleMax) (l : List (Fin ksemHandleMax)) (k : Kernel), i ∈ l →
      ∀ h, (l.foldl (semCleanupStep pid) k).semHandles i = some h → h.ownerPid ≠ pid := by
    intro i l
    induction l with
    | nil => exact fun _ hm => nomatch hm
    | cons j l ih =>
      intro k hm h hi
      rcases List.mem_cons.mp hm with rfl | hm
      · exact semCleanupStep_closes ((handles_subset.foldl (semCleanupStep_held pid) l _).old hi)
      · exact ih _ hm h hi
  intro i h hi
  unfold semCleanupProcessHandles at hi
  apply hl i _ k _ h hi
  exact List.mem_finRange i

/-- A process that exits leaves no handle. -/
lemma procExit_closes (exec : Slot) (code : Int) (hc : (collectZombies k).current = some p)
    (hi : (collectZombies k).idleProc ≠ some p) :
    Unheld (procExit k exec code).1 (k.procs p).pid := by
  have hpid : ((ksemRemoveWaitersFor (collectZombies k) p).procs p).pid = (k.procs p).pid :=
    (((Steady.closed none).collectZombies k).trans
      ((Steady.closed none).ksemRemoveWaitersFor _ p)).names p |>.1
  rw [procExit_eq, hc]
  dsimp only
  rw [if_neg hi]
  unfold exitTail exitRelease
  rw [hpid]
  have h1 := semCleanup_closes (ksemRemoveWaitersFor (collectZombies k) p) (k.procs p).pid
  have h2 := h1.mono (handles_subset.exitForeground _ p)
  have h3 := h2.mono (handles_subset.bury _ p code (fun c => c.pendingExitValid)
    (.inl fun _ => trivial))
  exact h3.mono (handles_subset.yield _ _)

lemma killRelease_pid (k : Kernel) (p : Slot) :
    ((killRelease k p).procs p).pid = (k.procs p).pid := by
  have h1 := ((Steady.closed none).ksemRemoveWaitersFor k p).names p
  unfold killRelease
  generalize ksemRemoveWaitersFor k p = k1 at h1 ⊢
  rw [(ForegroundWrite.kill k1 p).procs p]
  exact h1.1

lemma procKill_closes {pid : Int} (h : Kept σ idle) (hc : σ.k.current = some p)
    (hp : procByPid (collectZombies σ.k) pid = some p) (hi : σ.k.idleProc ≠ some p) :
    Unheld (procKill σ.k σ.exec pid).1 (σ.k.procs p).pid := by
  have hsound := h.sane.sound
  have hi0 : (collectZombies σ.k).idleProc ≠ some p := by
    rw [collect_idle hsound h.zombies]
    exact hi
  obtain ⟨h1, hl1⟩ := (listed_rule anything).collects .idle σ.k (h.zombies.listed fun _ => trivial)
  obtain ⟨h1', -⟩ := (listed_rule anything).collect .idle σ.k (h.zombies.listed fun _ => trivial)
  have hx := steps_executing hsound h1' id (h.current p hc).2
  have hs1 := steps_sound hsound h1
  have hpid := (((Steady.closed none).collectZombies σ.k).names p).1
  rw [procKill_eq, hp, ← hpid]
  dsimp only
  rw [if_neg hi0]
  generalize collectZombies σ.k = k0 at *
  obtain ⟨hgo, hg⟩ := @goes_killRelease anything (Listed anything) .idle
    ((listed_rule anything).ofZombies .idle) trivial k0 p
  obtain ⟨h2, hl2⟩ := hgo hl1
  have hx2 := hg.executing hx
  have hs2 := steps_sound hs1 h2
  obtain ⟨h3, -⟩ := (listed_rule anything).collect .idle _ hl2
  have hx3 := steps_executing hs2 h3 id hx2
  have hi3 : (collectZombies (killRelease k0 p)).idleProc ≠ some p := by
    rw [collect_idle hs2 hl2.reapables, hg.idle]
    exact hi0
  unfold killTail
  rw [if_pos ⟨by simp [hx2.running], hx2.current⟩, ← killRelease_pid k0 p]
  exact procExit_closes σ.exec 0 hx3.current hi3

/-- A live process is terminated by an event only in the household of a process that the event
terminates, and that one leaves no handle if it is the current process. -/
def Lost (σ : System) (e : Event) (x : Slot) (k' : Kernel) : Prop :=
  ∃ p, e.Terminates σ p ∧ Household σ.k p x ∧
    (σ.k.current = some p → Unheld k' (σ.k.procs p).pid)

lemma exit_live (h : Kept σ idle) (hi : σ.k.idleProc ≠ some σ.exec) (code : Int)
    (hx : Live σ.k x) : Live (procExit σ.k σ.exec code).1 x ∨
      Lost σ (.syscall (.exit code)) x (procExit σ.k σ.exec code).1 := by
  have hc0 := collect_current h
  cases hc : σ.k.current with
  | none =>
    left
    rw [hc] at hc0
    rw [procExit_eq, hc0]
    exact (collect_live h.sane.sound h.zombies x).mpr hx
  | some p =>
    rw [hc] at hc0
    have hip : (collectZombies σ.k).idleProc ≠ some p := by
      rw [collect_idle h.sane.sound h.zombies, (h.current p hc).1]
      exact hi
    by_cases hp : Household σ.k p x
    · exact .inr ⟨p, .inl ⟨⟨code, rfl⟩, hc⟩, hp, fun _ => procExit_closes σ.exec code hc0 hip⟩
    · exact .inl ((exit_loses h hi hc code).live x hp hx)

lemma kill_live {pid : Int} (h : Kept σ idle) (hsp : SparesCaller σ e)
    (hv : e.victim σ.k = some pid) (hx : Live σ.k x) :
    Live (procKill σ.k σ.exec pid).1 x ∨ Lost σ e x (procKill σ.k σ.exec pid).1 := by
  have hz := collect_live h.sane.sound h.zombies x
  have hid := collect_idle h.sane.sound h.zombies
  cases hp : procByPid (collectZombies σ.k) pid with
  | none =>
    rw [procKill_eq, hp]
    exact .inl (hz.mpr hx)
  | some p =>
    obtain ⟨-, hu, hpid⟩ := procByPid_some hp
    by_cases hi : σ.k.idleProc = some p
    · rw [procKill_eq, hp]
      dsimp only
      rw [if_pos (hid.trans hi)]
      exact .inl (hz.mpr hx)
    · have hst := (Steady.closed none).collectZombies σ.k
      have hu0 : (σ.k.procs p).used ∧ (σ.k.procs p).pid = pid :=
        ⟨hst.used p hu, (hst.names p).1.symm.trans hpid⟩
      by_cases hpx : Household σ.k p x
      · exact .inr ⟨p, .inr ⟨hu0.1, by rw [hv, hu0.2], hi⟩, hpx,
          fun hc => procKill_closes h hc hp hi⟩
      · exact .inl ((kill_loses h hsp hv hp hi hu0).live x hpx hx)

/-- An event that terminates no process. -/
lemma spared_live (h : Kept σ idle)
    (hd : EventOk { anything with terminated := fun _ => False } σ e) (hx : Live σ.k x)
    (hs : System.step σ e = some σ') : Live σ'.k x := by
  obtain ⟨-, e1⟩ | ⟨r, he, e1⟩ := step_ends h ⟨fun _ => trivial, fun _ => trivial, trivial⟩ hd hs
  · rw [e1]
    exact ((schedule_turn h).live x).mpr hx
  · obtain ⟨k1, h1, -, hturn⟩ := ends_turn h.sane h.enabled (fun c hc => (h.current c hc).2) id
      (fun _ _ => id) he
    rw [e1]
    exact (hturn.live x).mpr (steps_live h.sane.sound h1 id hx)

theorem step_live (h : Kept σ idle) (hsp : SparesCaller σ e) (hx : Live σ.k x)
    (hs : System.step σ e = some σ') : Live σ'.k x ∨ Lost σ e x σ'.k := by
  have hspared := fun hd => Or.inl (b := Lost σ e x σ'.k) (spared_live h hd hx hs)
  cases e with
  | syscall c =>
    cases c with
    | kill pid =>
      simp only [System.step] at hs
      split at hs
      · cases hs
        exact kill_live h hsp rfl hx
      · cases hs
    | exit code =>
      simp only [System.step] at hs
      split at hs
      · rename_i hg
        cases hs
        exact exit_live h hg.2 code hx
      · cases hs
    | block pid => exact hspared ⟨fun _ _ => trivial, fun _ => trivial⟩
    | nice pid newPrio => exact hspared ⟨fun _ _ => ⟨trivial, fun _ _ => trivial⟩, fun _ => trivial⟩
    | _ => exact hspared ⟨trivial, fun _ => trivial⟩
  | key c =>
    by_cases h3 : c = 3
    · simp only [System.step] at hs
      split at hs
      · cases hs
        simp only [ttyPushChar]
        rw [if_pos h3]
        split
        · exact kill_live h hsp (by simp [Event.victim, h3]) hx
        · exact .inl hx
      · cases hs
    · exact hspared fun h => absurd h h3
  | _ => exact hspared trivial

/-- The process that a handle is left to is terminated by no event that spares the holders. -/
lemma holder_alive (h : Kept σ idle) (hsp : SparesCaller σ e) (ho : SparesHolders σ e)
    {i : Fin ksemHandleMax} {d : SemHandle} (hx : Live σ.k x) (hd : k'.semHandles i = some d)
    (hown : d.ownerPid = (σ.k.procs x).pid)
    (hold : σ.k.semHandles i = some d ∨ σ.k.current = some x) (hl : Live k' x ∨ Lost σ e x k') :
    Live k' x := by
  refine hl.resolve_right fun ⟨p, ht, hp, hclosed⟩ => ?_
  by_cases hc : σ.k.current = some x
  · obtain ⟨rfl, -⟩ := h.current x hc
    by_cases hpx : p = σ.exec
    · subst hpx
      exact hclosed hc i d hd hown
    · obtain ⟨-, hcp⟩ | ⟨hu, hv, hi⟩ := ht
      · rw [hc, Option.some.injEq] at hcp
        exact hpx hcp.symm
      · exact hsp p ⟨hu, hv, hpx, hi⟩ (hp.resolve_left fun h => hpx h.symm)
  · exact ho p x ht hp hx hc i d (hold.resolve_right hc) hown

theorem step_handlesOwned (h : Kept σ idle) (hp : Positive σ.k) (hsp : SparesCaller σ e)
    (ho : SparesHolders σ e) (hown : HandlesOwned σ.k) (hs : System.step σ e = some σ') :
    HandlesOwned σ'.k := by
  have hcur : ∀ c, σ.k.current = some c → Live σ.k c := fun c hc =>
    ⟨(h.current c hc).2.used, by simp [(h.current c hc).2.running]⟩
  have hk : Handed (Live σ.k) σ.k.current σ.k σ'.k := by
    apply h.step_closed (Handed.closed hcur) hp (fun _ _ => trivial) _ hs
    intro _ _ _ _ _ i hi hx
    have hu := ((collect_live h.sane.sound h.zombies i).mpr hx).1
    rw [hi] at hu
    cases hu
  intro i d hd
  obtain ⟨x, hx, hpid, hold⟩ : ∃ x, Live σ.k x ∧ (σ.k.procs x).pid = d.ownerPid ∧
      (σ.k.semHandles i = some d ∨ σ.k.current = some x) := by
    obtain hi | ⟨c, hc, ho⟩ := hk.handles i d hd
    · obtain ⟨x, hx, hpid⟩ := hown i d hi
      exact ⟨x, hx, hpid, .inl hi⟩
    · exact ⟨c, hcur c hc, ho.symm, .inr hc⟩
  have hl := holder_alive h hsp ho hx hd hpid.symm hold (step_live h hsp hx hs)
  exact ⟨x, hl, (hk.pid x hx).trans hpid⟩

lemma boot_semHandles (h : Boot σ) (i : Fin ksemHandleMax) : σ.k.semHandles i = none := by
  obtain ⟨fails, idle, hk, hi, -⟩ := h
  rw [hk] at hi
  obtain ⟨k0, ha, e⟩ := bootKernel_cases hi
  have h0 : k0.semHandles i = none := by
    rw [show k0.semHandles = (kernelZero fails).semHandles from
      (congrArg Kernel.semHandles ha.same :)]
    rfl
  have h1 := handles_subset.procCreate k0 (some 0) defaultPrio true (some shellName)
    fun _ _ _ _ _ _ => id
  rw [procCreate_some, collectZombies_none ha.zombieHead] at h1
  rw [hk, e, Option.eq_none_iff_forall_ne_some]
  intro d hd
  rw [h1.old hd] at h0
  cases h0

/-- In a run whose steps terminate no holder of a handle but the current process, every handle
in use is owned by a live process. -/
theorem handles_owned (h : Transition.Reach Boot System.step
    (fun σ e => SparesCaller σ e ∧ SparesHolders σ e) σ) : HandlesOwned σ.k := by
  induction h with
  | start hb => exact fun i d hd => by simp [boot_semHandles hb i] at hd
  | next h hok hs ih =>
    have hr := h.mono fun _ _ => And.left
    obtain ⟨idle, hk⟩ := reach_kept hr
    exact step_handlesOwned hk (reach_positive hr) hok.1 hok.2 ih hs

/-- Events that terminate at most the current process, and this one without children. -/
def Event.solitary (σ : System) : Event → Bool
  | .tick | .syscall .yield | .syscall (.createProcess ..) | .syscall (.semOpen ..) => true
  | .syscall (.exit _) => decide (∀ p, σ.k.current = some p → σ.k.childHead p = none)
  | _ => false

lemma Event.solitary_spares (h : Event.solitary σ e = true) :
    SparesCaller σ e ∧ SparesHolders σ e := by
  have hcalm : e.victim σ.k = none → SparesCaller σ e ∧
      ((∀ code, e ≠ .syscall (.exit code)) → SparesHolders σ e) := by
    refine fun hv => ⟨fun p hp => ?_, ?_⟩
    · rw [Event.KillsOther, hv] at hp
      cases hp.2.1
    · rintro hx p x (⟨⟨code, he⟩, -⟩ | ⟨-, hvp, -⟩)
      · exact absurd he (hx code)
      · rw [hv] at hvp
        cases hvp
  cases e with
  | syscall c =>
    cases c with
    | exit code =>
      refine ⟨(hcalm rfl).1, fun p x ht hx _ hc => ?_⟩
      have hp : σ.k.current = some p := by
        obtain ⟨-, hp⟩ | ⟨-, hv, -⟩ := ht
        · exact hp
        · cases hv
      rcases hx with rfl | hx
      · exact absurd hp hc
      · exact absurd hx (not_onChildList (of_decide_eq_true h p hp))
    | createProcess | semOpen | yield =>
      exact ⟨(hcalm rfl).1, (hcalm rfl).2 fun _ he => by cases he⟩
    | _ => cases h
  | tick => exact ⟨(hcalm rfl).1, (hcalm rfl).2 fun _ he => by cases he⟩
  | _ => cases h

/-- The shell opens a semaphore, and so does its child. -/
def openRun : List Event :=
  List.replicate 5 .tick ++ [.syscall (.semOpen [97] 0),
    .syscall (.createProcess (some 0) (some [97]) 2 false), .syscall .yield,
    .syscall (.semOpen [97] 0)]

def childGone : System :=
  Transition.final System.step Event.solitary booted (openRun ++ [.syscall (.exit 0)])

/-- The child exits and leaves the handle of the shell. -/
theorem handles_owned_sample : (childGone.k.semHandles 0).map SemHandle.ownerPid = some 2 ∧
    childGone.k.semHandles 1 = none ∧ HandlesOwned childGone.k := by
  refine ⟨by decide +kernel, by decide +kernel, handles_owned ?_⟩
  exact (Transition.Reach.final _ booted_boot (by decide +kernel)).mono fun _ _ =>
    Event.solitary_spares

/-- The shell kills its child, which has the semaphore open. -/
theorem handle_leaks : ∃ σ, Transition.Reach Boot System.step (fun _ _ => True) σ ∧
    ¬HandlesOwned σ.k := by
  have hrun : (Transition.run System.step booted
      (openRun ++ [.syscall .yield, .syscall (.kill 3)])).any (fun σ =>
        decide ((σ.k.semHandles 1).map SemHandle.ownerPid = some 3 ∧
          ∀ p, (σ.k.procs p).pid = 3 → ¬Live σ.k p)) = true := by
    decide +kernel
  obtain ⟨σ, hσ, h⟩ := (Option.any_eq_true _ _).mp hrun
  obtain ⟨h3, hdead⟩ := of_decide_eq_true h
  obtain ⟨d, hd, hpid⟩ := Option.map_eq_some_iff.mp h3
  refine ⟨σ, .of_run (.start booted_boot) hσ, fun hown => ?_⟩
  obtain ⟨p, hp, hpp⟩ := hown 1 d hd
  exact hdead p (hpp.trans hpid) hp

end TP2Kernel.Proofs
