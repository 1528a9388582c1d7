import TP2Kernel.Proofs.Foreground

/-!
# The process in the foreground

An event changes the terminal's foreground where a process is created or terminated. The pid that
the terminal names is that of a live process, and the flags agree with it, as long as the
processes that end are handed over to others that go on, and no process is created in the
foreground beside another one.
-/

namespace TP2Kernel.Proofs
open Function

variable {k k' k'' : Kernel} {p q i idle : Slot} {fg killed : Bool} {σ σ' : System} {e : Event}

/-- The slots in use were in use with the same pids and flags, and the terminal keeps its
foreground. -/
structure Fixed (k k' : Kernel) : Prop where
  next : 0 < k.nextPid → 0 < k'.nextPid
  fgPid : k'.tty.fgPid = k.tty.fgPid
  slots : ∀ x, (k'.procs x).used → (k.procs x).used ∧ (k'.procs x).pid = (k.procs x).pid ∧
    (k'.procs x).fg = (k.procs x).fg
  live : ∀ x, Live k' x ↔ Live k x

lemma Fixed.steady (h : Steady k k') (hl : ∀ x, Live k' x ↔ Live k x) : Fixed k k' :=
  ⟨fun hp => h.nextPid ▸ hp, h.fgPid, fun x hx => ⟨h.used x hx, (h.names x).1, (h.names x).2.2⟩, hl⟩

lemma Fixed.numbers (h : Fixed k k') (hn : Numbers k) : Numbers k' :=
  hn.numbered (fun x hx => ⟨(h.slots x hx).1, (h.slots x hx).2.1⟩) (h.next hn.next)

/-- The new process has slot `i`. -/
structure Added (k k' : Kernel) (i : Slot) (fg : Bool) : Prop where
  next : k'.nextPid = bumpPid k.nextPid
  fgPid : k'.tty.fgPid = if fg then k.nextPid else k.tty.fgPid
  free : ¬Live k i
  self : Live k' i ∧ (k'.procs i).pid = k.nextPid ∧ (k'.procs i).fg = fg
  others : ∀ x, x ≠ i → (k'.procs x).used → (k.procs x).used ∧
    (k'.procs x).pid = (k.procs x).pid ∧ (k'.procs x).fg = (k.procs x).fg
  live : ∀ x, x ≠ i → (Live k' x ↔ Live k x)

lemma bumpPid_pos (n : Int) : 0 < bumpPid n := by
  unfold bumpPid
  dsimp only
  split
  · split
    · omega
    · omega
  · omega

lemma Added.numbers (h : Added k k' i fg) (hn : Numbers k)
    (hf : ∀ x, x ≠ i → (k'.procs x).used → (k.procs x).pid ≠ k.nextPid) : Numbers k' := by
  refine ⟨?_, fun x hx => ?_, h.next ▸ bumpPid_pos _⟩
  · have hne : ∀ x, x ≠ i → (k'.procs x).used → (k'.procs x).pid ≠ (k'.procs i).pid := by
      intro x hx hu
      rw [(h.others x hx hu).2.1, h.self.2.1]
      exact hf x hx hu
    intro x y hx hy he
    by_cases hxi : x = i
    · subst hxi
      by_contra hyx
      exact hne y (fun e => hyx e.symm) hy he.symm
    · by_cases hyi : y = i
      · subst hyi
        exact absurd he (hne x hxi hx)
      · obtain ⟨h1, e1, -⟩ := h.others x hxi hx
        obtain ⟨h2, e2, -⟩ := h.others y hyi hy
        exact hn.distinct x y h1 h2 (e1.symm.trans (he.trans e2))
  · by_cases hxi : x = i
    · rw [hxi, h.self.2.1]
      exact hn.next
    · obtain ⟨h1, e1, -⟩ := h.others x hxi hx
      rw [e1]
      exact hn.pos x h1

lemma Added.after (h : Added k' k'' i fg) (hs : Fixed k k') (hx : k'.nextPid = k.nextPid) :
    Added k k'' i fg := by
  refine ⟨hx ▸ h.next, ?_, fun hi => h.free ((hs.live i).mpr hi), hx ▸ h.self,
    fun x hxi hu => ?_, fun x hxi => (h.live x hxi).trans (hs.live x)⟩
  · rw [h.fgPid, hs.fgPid, hx]
  · obtain ⟨h1, e1, e2⟩ := h.others x hxi hu
    obtain ⟨h3, e3, e4⟩ := hs.slots x h1
    exact ⟨h3, e1.trans e3, e2.trans e4⟩

lemma installProc_fgPid (k : Kernel) (p : Slot) (t : Nat) (fg : Bool) :
    (installProc k p t fg).1.nextPid = k.nextPid ∧
      (installProc k p t fg).1.tty.fgPid = if fg then (k.procs p).pid else k.tty.fgPid := by
  have h := (steady_furnish k p t).trans (Steady.schedEnqueue _ p)
  rw [installProc_eq]
  dsimp only
  split
  · exact ⟨h.nextPid, (h.names p).1⟩
  · exact ⟨h.nextPid, h.fgPid⟩

/-- A `proc_create` that fails changes nothing, one that succeeds adds a process. -/
theorem createTail_change (hfree : ∀ i, (k.procs i).used = false → k.current ≠ some i)
    (hon : ¬(k.schedulerEnabled = false ∧ k.current = none)) (prio : Int) (fg : Bool)
    (name : CStr) : Fixed k (createTail k prio fg name).1 ∨
      (HasRoom k ∧ ∃ i, Added k (createTail k prio fg name).1 i fg) := by
  rcases createTail_outcome k hfree prio fg name with
    ⟨-, e⟩ | ⟨-, i, k1, hu, e, hg⟩ | ⟨hr, i, k1, t, stack, hu, e, hp⟩
  · rw [e]
    exact .inl (.steady (.refl k) fun _ => .rfl)
  · rw [e]
    have hne : ∀ x, (k1.procs x).used → x ≠ i := by
      rintro x hx rfl
      rw [hg.used] at hx
      cases hx
    refine .inl ⟨fun _ => hg.bump ▸ bumpPid_pos _,
      (congrArg (fun k => k.tty.fgPid) hg.write.same :), fun x hx => ?_, fun x => ?_⟩
    · have hxi := hne x hx
      rw [hg.write.procs x hxi] at hx ⊢
      exact ⟨hx, rfl, rfl⟩
    · by_cases hxi : x = i
      · rw [hxi, Live, Live, hg.used, hu]
        simp
      · rw [Live, Live, hg.write.procs x hxi]
  · rw [e]
    have hd := hp.drafted
    have hn : (k1.procs i).state = .new := by
      rw [hd.pcb]
      rfl
    have hon1 : ¬(k1.schedulerEnabled = false ∧ k1.current = none) := by
      rw [hd.write.same]
      exact hon
    have hprocs := installProc_procs hn hon1 t fg
    obtain ⟨hx, ht⟩ := installProc_fgPid k1 i t fg
    have hother : ∀ x, x ≠ i → (installProc k1 i t fg).1.procs x = k.procs x := by
      intro x hxi
      rw [hprocs, update_of_ne hxi, hd.write.procs x hxi]
    refine .inr ⟨hr, i, hx.trans hd.bump, ?_, ?_, ?_, fun x hxi hux => ?_, fun x hxi => ?_⟩
    · rw [ht, hd.pcb, show k1.tty.fgPid = k.tty.fgPid from
        (congrArg (fun k => k.tty.fgPid) hd.write.same :)]
      rfl
    · rintro ⟨hi, -⟩
      rw [hu] at hi
      cases hi
    · rw [Live, hprocs, update_self, hd.pcb]
      exact ⟨⟨rfl, by simp⟩, rfl, rfl⟩
    · rw [hother x hxi] at hux ⊢
      exact ⟨hux, rfl, rfl⟩
    · rw [Live, Live, hother x hxi]

/-- What an event does to the processes and the terminal. -/
inductive Change (σ : System) (e : Event) (k' : Kernel) : Prop
  | quiet (h : Fixed σ.k k')
  | handed {p : Slot} (ht : e.Terminates σ p)
      (h : HandOver σ.k p (e.victim σ.k).isSome k') (hl : Loses (Household σ.k p) σ.k k')
  | added {entry : Nat} {name : CStr} {prio : Int} {fg : Bool} {i : Slot}
      (he : e = .syscall (.createProcess (some entry) (some name) prio fg))
      (hr : HasRoom (collectZombies σ.k)) (h : Added σ.k k' i fg)
      (hf : ∀ x, x ≠ i → (k'.procs x).used → (σ.k.procs x).pid ≠ σ.k.nextPid)

lemma Loses.live_iff (h : Loses (fun _ => False) k k') (x : Slot) : Live k' x ↔ Live k x :=
  ⟨h.dead x, h.live x id⟩

lemma collect_fixed (h : Sound k) (hz : Reapables k) : Fixed k (collectZombies k) :=
  .steady ((Steady.closed none).collectZombies k) (collect_live h hz)

lemma kill_change {pid : Int} (h : Kept σ idle) (hn : Numbers σ.k) (hsp : SparesCaller σ e)
    (hv : e.victim σ.k = some pid) : Change σ e (procKill σ.k σ.exec pid).1 := by
  have hc := collect_fixed h.sane.sound h.zombies
  by_cases hp : ∃ p, procByPid (collectZombies σ.k) pid = some p ∧ σ.k.idleProc ≠ some p
  · obtain ⟨p, hp, hi⟩ := hp
    obtain ⟨-, hu, hpid⟩ := procByPid_some hp
    obtain ⟨hu0, e0, -⟩ := hc.slots p hu
    rw [e0] at hpid
    refine .handed ?_ ?_ (kill_loses h hsp hv hp hi ⟨hu0, hpid⟩)
    · exact .inr ⟨hu0, by rw [hv, hpid], hi⟩
    · rw [hv]
      exact kill_handOver h hn hp hi
  · have e0 : (procKill σ.k σ.exec pid).1 = collectZombies σ.k := by
      rw [procKill_eq]
      split
      · rfl
      · rename_i p hp'
        rw [if_pos]
        rw [collect_idle h.sane.sound h.zombies]
        by_contra hi
        exact hp ⟨p, hp', hi⟩
    rw [e0]
    exact .quiet hc

lemma create_change {entry : Nat} {name : CStr} {prio : Int} (h : Kept σ idle)
    (he : e = .syscall (.createProcess (some entry) (some name) prio fg))
    (hf : CreatesFresh σ e) :
    Change σ e (procCreate σ.k (some entry) prio fg (some name)).1 := by
  have hc := collect_fixed h.sane.sound h.zombies
  have hs := (Steady.closed none).collectZombies σ.k
  have hcur := collect_current h
  obtain ⟨h1, -⟩ := (listed_rule anything).collects .idle σ.k
    (h.zombies.listed fun _ => trivial)
  obtain ⟨h1', -⟩ := (listed_rule anything).collect .idle σ.k (h.zombies.listed fun _ => trivial)
  have hen := (steps_static h.sane.sound h1).2.1.trans h.enabled
  have hfree : ∀ i, ((collectZombies σ.k).procs i).used = false →
      (collectZombies σ.k).current ≠ some i := by
    intro i hi hci
    rw [hcur] at hci
    have hx := steps_executing h.sane.sound h1' id (h.current i hci).2
    rw [hx.used] at hi
    cases hi
  rw [procCreate_some]
  rcases createTail_change hfree (by simp [hen]) (clampPrio prio) fg name with hk | ⟨hr, i, ha⟩
  · apply Change.quiet
    refine ⟨fun hp => hk.next (hc.next hp), hk.fgPid.trans hc.fgPid, fun x hx => ?_,
      fun x => (hk.live x).trans (hc.live x)⟩
    obtain ⟨h2, e2, e2'⟩ := hk.slots x hx
    obtain ⟨h3, e3, e3'⟩ := hc.slots x h2
    exact ⟨h3, e2.trans e3, e2'.trans e3'⟩
  · refine .added he hr (ha.after hc hs.nextPid) fun x hxi hx => ?_
    obtain ⟨h2, -, -⟩ := ha.others x hxi hx
    rw [← (hc.slots x h2).2.1]
    exact hf _ _ _ _ he hr x h2

/-- An event changes no pid or flag and neither creates nor terminates a process, or it
terminates one and hands the terminal over, or it creates one. -/
theorem step_change (h : Kept σ idle) (hn : Numbers σ.k) (hsp : SparesCaller σ e)
    (hf : CreatesFresh σ e) (hs : System.step σ e = some σ') : Change σ e σ'.k := by
  have hcl := Steady.closed σ.k.current
  have hnone : EventOk (losing fun _ => False) σ e → Steady σ.k σ'.k → Change σ e σ'.k :=
    fun hd h0 => .quiet (.steady h0 (quiet_loses h hd hs).live_iff)
  cases e with
  | syscall c =>
    simp only [System.step] at hs
    split at hs
    · rename_i hg
      cases hs
      have hkeeps : Syscall.keepsProcs c = true → EventOk (losing fun _ => False) σ (.syscall c) →
          Change σ (.syscall c) (syscall σ.k σ.exec c).1 :=
        fun hk hd => hnone hd (hcl.syscall rfl (collect_current h) σ.exec hk fun _ _ => trivial)
      cases c with
      | createProcess entry name prio fg =>
        have hnull : Change σ (.syscall (.createProcess entry name prio fg)) σ.k :=
          .quiet (.steady (.refl _) fun _ => .rfl)
        cases entry with
        | none => exact hnull
        | some entry =>
          cases name with
          | none => exact hnull
          | some name => exact create_change h rfl hf
      | kill pid => exact kill_change h hn hsp rfl
      | exit code =>
        cases hc : σ.k.current with
        | none =>
          have hc0 := (collect_current h).trans hc
          have e0 : (procExit σ.k σ.exec code).1 = collectZombies σ.k := by
            rw [procExit_eq, hc0]
          simp only [syscall]
          rw [e0]
          exact .quiet (collect_fixed h.sane.sound h.zombies)
        | some p =>
          have hi : σ.k.idleProc ≠ some p := (h.current p hc).1 ▸ hg.2
          exact .handed (.inl ⟨⟨code, rfl⟩, hc⟩) (exit_handOver h hn hc hi _ _)
            (exit_loses h hg.2 hc code)
      | block pid => exact hkeeps rfl ⟨fun _ _ => trivial, fun _ => trivial⟩
      | nice pid newPrio =>
        exact hkeeps rfl ⟨fun _ _ => ⟨trivial, fun _ _ => trivial⟩, fun _ => trivial⟩
      | _ => exact hkeeps rfl ⟨trivial, fun _ => trivial⟩
    · cases hs
  | resume =>
    apply hnone trivial
    simp only [System.step, Option.map_eq_some_iff] at hs
    obtain ⟨r, hr, rfl⟩ := hs
    exact hcl.resume rfl σ.exec hr
  | tick =>
    apply hnone trivial
    simp only [System.step] at hs
    split at hs
    · cases hs
      exact .redispatch (.schedule σ.k σ.cpu)
    · cases hs
  | key c =>
    by_cases h3 : c = 3
    · simp only [System.step] at hs
      split at hs
      · cases hs
        simp only [ttyPushChar]
        rw [if_pos h3]
        split
        · exact kill_change h hn hsp (by simp [Event.victim, h3])
        · exact .quiet (.steady (.refl _) fun _ => .rfl)
      · cases hs
    · apply hnone fun h => absurd h h3
      simp only [System.step] at hs
      split at hs
      · cases hs
        exact hcl.ttyPushChar σ.k σ.exec h3
      · cases hs

lemma Change.numbers (h : Change σ e k') (hn : Numbers σ.k) : Numbers k' := by
  cases h with
  | quiet h => exact h.numbers hn
  | handed _ h _ =>
    cases h with
    | keep _ h => exact hn.steady h
    | drop _ _ hnum hx _ _ => exact hn.numbered hnum (hx ▸ hn.next)
    | give _ _ _ hnum hx _ => exact hn.numbered hnum (hx ▸ hn.next)
  | added _ _ h hf => exact h.numbers hn hf

/-- What holds before the shell is created. -/
structure Quiet (k : Kernel) : Prop where
  numbers : Numbers k
  fgPid : k.tty.fgPid = -1
  flags : ∀ x, (k.procs x).fg = false

lemma Alone.quiet (h : Alone k idle) : Quiet k ∧ ∀ x, (k.procs x).used → (k.procs x).pid ≠ k.nextPid := by
  obtain ⟨stack, table, -, hself⟩ := h.self
  have hused : ∀ x, (k.procs x).used → x = idle := by
    intro x hx
    by_contra hne
    rw [h.others x hne] at hx
    cases hx
  have hpid : (k.procs idle).pid = 1 := by rw [hself]
  refine ⟨⟨⟨fun x y hx hy _ => ?_, fun x hx => ?_, ?_⟩, ?_, fun x => ?_⟩, fun x hx => ?_⟩
  · rw [hused x hx, hused y hy]
  · rw [hused x hx, hpid]
    omega
  · rw [h.nextPid]
    omega
  · exact (congrArg (fun k => k.tty.fgPid) h.same :)
  · by_cases hx : x = idle
    · rw [hx, hself]
      rfl
    · rw [h.others x hx]
      rfl
  · rw [hused x hx, hpid, h.nextPid]
    omega

/-- The shell is created in the foreground, if there is room for it. -/
lemma boot_change (h : Boot σ) : ∃ k, Quiet k ∧
    (Fixed k σ.k ∨ ∃ i, Added k σ.k i true) ∧ Numbers σ.k := by
  obtain ⟨fails, idle, hk, hi, -⟩ := h
  rw [hk] at hi
  obtain ⟨k0, ha, e⟩ := bootKernel_cases hi
  obtain ⟨hq, hfresh⟩ := ha.quiet
  have hx := ha.sane.2
  have hfree : ∀ i, (k0.procs i).used = false → k0.current ≠ some i := by
    intro i hui hci
    rw [hx.current] at hci
    cases hci
    rw [hx.used] at hui
    cases hui
  have hon : ¬(k0.schedulerEnabled = false ∧ k0.current = none) := by simp [hx.current]
  rw [← hk] at e
  have hc := createTail_change hfree hon (clampPrio defaultPrio) true shellName
  rw [e]
  generalize (createTail k0 (clampPrio defaultPrio) true shellName).1 = k1 at hc
  refine ⟨k0, hq, ?_⟩
  rcases hc with hf | ⟨-, i, ha⟩
  · have hf' : Fixed k0 (schedStart k1) := ⟨hf.next, hf.fgPid, hf.slots, hf.live⟩
    exact ⟨.inl hf', hf'.numbers hq.numbers⟩
  · have ha' : Added k0 (schedStart k1) i true :=
      ⟨ha.next, ha.fgPid, ha.free, ha.self, ha.others, ha.live⟩
    exact ⟨.inr ⟨i, ha'⟩, ha'.numbers hq.numbers fun x hxi hu => hfresh x (ha.others x hxi hu).1⟩

/-- The terminal has no foreground, or names a live process that has the flag. -/
def Fronted (k : Kernel) : Prop :=
  k.tty.fgPid = -1 ∨ ∃ p, Live k p ∧ (k.procs p).pid = k.tty.fgPid ∧ (k.procs p).fg = true

lemma Fixed.fronted (h : Fixed k k') (hf : Fronted k) : Fronted k' := by
  rcases hf with hf | ⟨p, hp, hpid, hfg⟩
  · exact .inl (h.fgPid.trans hf)
  · have hp' := (h.live p).mpr hp
    obtain ⟨-, e1, e2⟩ := h.slots p hp'.1
    refine .inr ⟨p, hp', ?_, e2.trans hfg⟩
    rw [e1, h.fgPid, hpid]

lemma Added.fronted (h : Added k k' i fg) (hf : Fronted k) : Fronted k' := by
  cases fg with
  | true =>
    refine .inr ⟨i, h.self.1, ?_, h.self.2.2⟩
    rw [h.self.2.1, h.fgPid]
    rfl
  | false =>
    rcases hf with hf | ⟨p, hp, hpid, hfg⟩
    · exact .inl (h.fgPid.trans hf)
    · have hpi : p ≠ i := by
        rintro rfl
        exact h.free hp
      have hp' := (h.live p hpi).mpr hp
      obtain ⟨-, e1, e2⟩ := h.others p hpi hp'.1
      refine .inr ⟨p, hp', ?_, e2.trans hfg⟩
      rw [e1, hpid, h.fgPid]
      rfl

/-- The heir of a terminated process is live behind the termination. -/
lemma HandOver.fronted (h : HandOver k p killed k') (hn : Numbers k)
    (hl : Loses (Household k p) k k')
    (hsp : ∀ q, heir k p killed = some q → q ≠ p ∧ ¬OnChildList k p q) (hf : Fronted k) :
    Fronted k' := by
  have hspared : ∀ q, heir k p killed = some q → Live k q → Live k' q := by
    intro q hq hlq
    apply hl.live q _ hlq
    obtain ⟨h1, h2⟩ := hsp q hq
    exact fun hd => hd.elim h1 h2
  cases h with
  | keep hfp hs =>
    rcases hf with hf | ⟨q, hq, hpid, hfg⟩
    · exact .inl (hs.fgPid.trans hf)
    · have hheir : heir k p killed = some q := by
        unfold heir
        rw [hfp, ← hpid]
        exact hn.find hq.1
      obtain ⟨e1, -, e2⟩ := hs.names q
      refine .inr ⟨q, hspared q hheir hq, ?_, e2.trans hfg⟩
      rw [e1, hpid, hs.fgPid]
  | drop _ _ _ _ ht _ => exact .inl ht
  | give _ hh hq hnum _ hg =>
    have hq' := hspared _ hh hq
    refine .inr ⟨_, hq', ?_, (hg.flags _ hq'.1).mpr rfl⟩
    rw [(hnum _ hq'.1).2, hg.fgPid]

lemma Change.fronted (h : Change σ e k') (hn : Numbers σ.k) (hsp : SparesHeir σ e)
    (hf : Fronted σ.k) : Fronted k' := by
  cases h with
  | quiet h => exact h.fronted hf
  | handed ht h hl => exact h.fronted hn hl (fun q => hsp _ q ht) hf
  | added _ _ h _ => exact h.fronted hf

/-- The events of the sample runs: processes that are created in the background, and exits of
childless processes. -/
def plainEvent (σ : System) : Event → Bool
  | .tick | .syscall .yield => true
  | .syscall (.createProcess _ _ _ fg) => !fg && decide (σ.k.nextPid ≠ σ.k.tty.fgPid ∧
      ∀ p, ((collectZombies σ.k).procs p).used → ((collectZombies σ.k).procs p).pid ≠ σ.k.nextPid)
  | .syscall (.exit _) => decide (∀ p, σ.k.current = some p →
      σ.k.childHead p = none ∧ heir σ.k p false ≠ some p)
  | _ => false

lemma plainEvent_ok (h : plainEvent σ e = true) :
    SparesCaller σ e ∧ CreatesFresh σ e ∧ SparesHeir σ e ∧ CreatesApart σ e := by
  have hcalm : e.victim σ.k = none → (∀ code, e ≠ .syscall (.exit code)) → SparesHeir σ e := by
    rintro hv hx p q (⟨⟨code, he⟩, -⟩ | ⟨-, hvp, -⟩) -
    · exact absurd he (hx code)
    · rw [hv] at hvp
      cases hvp
  have hspares : e.victim σ.k = none → SparesCaller σ e := by
    intro hv p hp
    rw [Event.KillsOther, hv] at hp
    cases hp.2.1
  have hcreates : (∀ entry name prio fg, e ≠ .syscall (.createProcess entry name prio fg)) →
      CreatesFresh σ e ∧ CreatesApart σ e :=
    fun hne => ⟨fun _ _ _ _ he => absurd he (hne _ _ _ _), fun _ _ _ _ he => absurd he (hne _ _ _ _)⟩
  cases e with
  | tick => exact ⟨hspares rfl, (hcreates nofun).1, hcalm rfl nofun, (hcreates nofun).2⟩
  | syscall c =>
    cases c with
    | yield =>
      have hc := hcreates nofun
      exact ⟨hspares rfl, hc.1, hcalm rfl nofun, hc.2⟩
    | createProcess entry name prio fg =>
      simp only [plainEvent, Bool.and_eq_true, Bool.not_eq_true', decide_eq_true_eq] at h
      obtain ⟨rfl, hne, hu⟩ := h
      refine ⟨hspares rfl, fun _ _ _ _ _ _ => hu, hcalm rfl nofun, ?_⟩
      intro entry' name' prio' fg' he _
      cases he
      exact hne
    | exit code =>
      have hc := hcreates nofun
      refine ⟨hspares rfl, hc.1, ?_, hc.2⟩
      rintro p q (⟨-, hp⟩ | ⟨-, hv, -⟩) hq
      · obtain ⟨h1, h2⟩ := of_decide_eq_true h p hp
        refine ⟨fun e => h2 ?_, not_onChildList h1⟩
        rw [← e]
        exact e ▸ hq
      · cases hv
    | _ => cases h
  | _ => cases h

/-- The child of the shell exits. -/
def exitRun : List Event := childRun ++ [.syscall (.exit 0)]

def exited : System := Transition.final System.step plainEvent booted exitRun

lemma exited_reach : Transition.Reach Boot System.step (fun σ e => plainEvent σ e) exited :=
  Transition.Reach.final exitRun booted_boot (by decide +kernel)

/-- A background process creates a process in the foreground and exits. -/
def orphanRun : List Event :=
  childRun ++ [.syscall (.createProcess (some 0) (some [98]) 2 true), .syscall (.exit 0)]

lemma Event.Terminates.unique (hn : Numbers σ.k) (hp : e.Terminates σ p) (hq : e.Terminates σ q) :
    p = q := by
  rcases hp with ⟨⟨code, rfl⟩, hp⟩ | ⟨hpu, hp, -⟩
  · rcases hq with ⟨-, hq⟩ | ⟨-, hq, -⟩
    · exact Option.some.inj (hp.symm.trans hq)
    · cases hq
  · rcases hq with ⟨⟨code, rfl⟩, -⟩ | ⟨hqu, hq, -⟩
    · cases hp
    · exact hn.distinct p q hpu hqu (Option.some.inj (hp.symm.trans hq))

lemma Fixed.oneForeground (h : Fixed k k') (ho : OneForeground k) : OneForeground k' := by
  refine ⟨fun x y hx hy hfx hfy => ?_, fun x ht hx hpid => ?_⟩
  · rw [(h.slots x hx.1).2.2] at hfx
    rw [(h.slots y hy.1).2.2] at hfy
    exact ho.unique x y ((h.live x).mp hx) ((h.live y).mp hy) hfx hfy
  · rw [h.fgPid] at ht hpid
    rw [(h.slots x hx.1).2.1] at hpid
    rw [(h.slots x hx.1).2.2]
    exact ho.named x ht ((h.live x).mp hx) hpid

/-- A hand-over leaves the flag to the process that gets the terminal. -/
lemma HandOver.oneForeground {T : Slot → Prop} (h : HandOver k p killed k') (hn : Numbers k)
    (hl : Loses T k k') (ho : OneForeground k) : OneForeground k' := by
  cases h with
  | keep _ hs =>
    refine ⟨fun x y hx hy hfx hfy => ?_, fun x ht hx hpid => ?_⟩
    · rw [(hs.names x).2.2] at hfx
      rw [(hs.names y).2.2] at hfy
      exact ho.unique x y (hl.dead x hx) (hl.dead y hy) hfx hfy
    · rw [hs.fgPid] at ht hpid
      rw [(hs.names x).1] at hpid
      rw [(hs.names x).2.2]
      exact ho.named x ht (hl.dead x hx) hpid
  | drop _ _ _ _ ht hfl =>
    refine ⟨fun x y hx hy hfx hfy => ?_, fun x hpos _ _ => ?_⟩
    · exact ho.unique x y (hl.dead x hx) (hl.dead y hy) (hfl x hx.1 hfx) (hfl y hy.1 hfy)
    · rw [ht] at hpos
      omega
  | give _ _ hq hnum _ hg =>
    refine ⟨fun x y hx hy hfx hfy => ?_, fun x _ hx hpid => ?_⟩
    · rw [(hg.flags x hx.1).mp hfx, (hg.flags y hy.1).mp hfy]
    · rw [hg.flags x hx.1]
      obtain ⟨hu, e⟩ := hnum x hx.1
      exact hn.distinct x _ hu hq.1 (e.symm.trans (hpid.trans hg.fgPid))

/-- A creation in the foreground where nobody has the flag, or in the background under a pid that
the terminal does not name. -/
lemma Added.oneForeground (h : Added k k' i fg)
    (hf : ∀ x, x ≠ i → (k'.procs x).used → (k.procs x).pid ≠ k.nextPid)
    (ha : if fg then ∀ p, Live k p → (k.procs p).fg = false else k.nextPid ≠ k.tty.fgPid)
    (ho : OneForeground k) : OneForeground k' := by
  have hold : ∀ x, x ≠ i → Live k' x → Live k x ∧ (k'.procs x).pid = (k.procs x).pid ∧
      (k'.procs x).fg = (k.procs x).fg := fun x hx hl =>
    ⟨(h.live x hx).mp hl, (h.others x hx hl.1).2⟩
  cases fg with
  | true =>
    have hnone : ∀ x, x ≠ i → Live k' x → (k'.procs x).fg = false := by
      intro x hx hl
      obtain ⟨hl', -, e⟩ := hold x hx hl
      rw [e]
      exact ha x hl'
    have hi : ∀ x, Live k' x → (k'.procs x).fg = true → x = i := by
      intro x hl hfx
      by_contra hx
      rw [hnone x hx hl] at hfx
      cases hfx
    refine ⟨fun x y hx hy hfx hfy => ?_, fun x _ hx hpid => ?_⟩
    · rw [hi x hx hfx, hi y hy hfy]
    · by_cases hxi : x = i
      · rw [hxi]
        exact h.self.2.2
      · rw [(hold x hxi hx).2.1, h.fgPid] at hpid
        exact absurd hpid (hf x hxi hx.1)
  | false =>
    have hi : ∀ x, Live k' x → (k'.procs x).fg = true → x ≠ i := by
      rintro x - hfx rfl
      rw [h.self.2.2] at hfx
      cases hfx
    refine ⟨fun x y hx hy hfx hfy => ?_, fun x ht hx hpid => ?_⟩
    · obtain ⟨hlx, -, ex⟩ := hold x (hi x hx hfx) hx
      obtain ⟨hly, -, ey⟩ := hold y (hi y hy hfy) hy
      exact ho.unique x y hlx hly (ex ▸ hfx) (ey ▸ hfy)
    · rw [h.fgPid] at ht hpid
      by_cases hxi : x = i
      · rw [hxi, h.self.2.1] at hpid
        exact absurd hpid ha
      · obtain ⟨hlx, e1, e2⟩ := hold x hxi hx
        rw [e1] at hpid
        rw [e2]
        exact ho.named x ht hlx hpid

lemma Change.oneForeground (h : Change σ e k') (hn : Numbers σ.k) (ha : CreatesApart σ e)
    (ho : OneForeground σ.k) : OneForeground k' := by
  cases h with
  | quiet h => exact h.oneForeground ho
  | handed _ h hl => exact h.oneForeground hn hl ho
  | added he hr h hf => exact h.oneForeground hf (ha _ _ _ _ he hr) ho

/-- The flag of a process that the terminal does not name is not raised. -/
lemma Change.keepsTerminal (h : Change σ e k') (hn : Numbers σ.k) (ho : OneForeground σ.k) :
    KeepsTerminal σ e k' := by
  intro p q hp hlp hne hlq hq
  have hpos : 0 < σ.k.tty.fgPid := hq ▸ hn.pos q hlq.1
  have hlow : (σ.k.procs p).fg ≠ true := by
    intro hf
    have hpq := ho.unique p q hlp hlq hf (ho.named q hpos hlq hq)
    exact hne (hpq ▸ hq)
  cases h with
  | quiet h => exact h.fgPid
  | handed ht h _ =>
    obtain rfl := Event.Terminates.unique hn hp ht
    cases h with
    | keep _ hs => exact hs.fgPid
    | drop hf => exact absurd hf hlow
    | give hf => exact absurd hf hlow
  | added he _ _ _ =>
    rw [he] at hp
    rcases hp with ⟨⟨code, he'⟩, -⟩ | ⟨-, hv, -⟩
    · cases he'
    · cases hv

/-- In a run that creates no process in the foreground beside another one, at most one live
process has the flag, it is the one that the terminal names, and only its termination changes
the terminal while it is alive. -/
theorem one_foreground (h : Transition.Reach Boot System.step
    (fun σ e => SparesCaller σ e ∧ CreatesFresh σ e ∧ CreatesApart σ e) σ) :
    OneForeground σ.k ∧ ∀ e σ', SparesCaller σ e → CreatesFresh σ e →
      System.step σ e = some σ' → KeepsTerminal σ e σ'.k := by
  have hinv : (∃ idle, Kept σ idle) ∧ Numbers σ.k ∧ OneForeground σ.k := by
    apply h.invariant (I := fun σ => (∃ idle, Kept σ idle) ∧ Numbers σ.k ∧ OneForeground σ.k)
    · intro σ hb
      obtain ⟨idle, hk, -⟩ := boot_kept hb
      obtain ⟨k, hq, hc, hn⟩ := boot_change hb
      have ho : OneForeground k := by
        refine ⟨fun x _ _ _ hfx _ => ?_, fun x hpos _ _ => ?_⟩
        · rw [hq.flags x] at hfx
          cases hfx
        · rw [hq.fgPid] at hpos
          omega
      refine ⟨⟨idle, hk⟩, hn, ?_⟩
      rcases hc with hc | ⟨i, hc⟩
      · exact hc.oneForeground ho
      · refine hc.oneForeground (fun x hxi hu => ?_) (fun x _ => hq.flags x) ho
        intro he
        apply hxi
        apply hn.distinct x i hu hc.self.1.1
        rw [(hc.others x hxi hu).2.1, he, hc.self.2.1]
    · rintro σ e σ' ⟨⟨idle, hk⟩, hn, ho⟩ ⟨hsp, hfr, ha⟩ hs
      have hc := step_change hk hn hsp hfr hs
      exact ⟨⟨idle, (step_kept hk hsp hs).1⟩, hc.numbers hn, hc.oneForeground hn ha ho⟩
  obtain ⟨⟨idle, hk⟩, hn, ho⟩ := hinv
  exact ⟨ho, fun e σ' hsp hfr hs => (step_change hk hn hsp hfr hs).keepsTerminal hn ho⟩

theorem one_foreground_sample : OneForeground exited.k := by
  have h := one_foreground (exited_reach.mono fun σ e h => by
    obtain ⟨h1, h2, -, h4⟩ := plainEvent_ok h
    exact ⟨h1, h2, h4⟩)
  exact h.1

/-- The shell creates a process in the foreground. -/
def frontRun : List Event :=
  List.replicate 5 .tick ++ [.syscall (.createProcess (some 0) (some [97]) 2 true)]

/-- The shell keeps its flag beside the new process. -/
theorem two_in_foreground : ∃ σ, Transition.Reach Boot System.step (fun _ _ => True) σ ∧
    ¬OneForeground σ.k := by
  have hrun : (Transition.run System.step booted frontRun).any (fun σ =>
      decide (((σ.k.procs 1).used ∧ (σ.k.procs 1).state ≠ .exited ∧ (σ.k.procs 1).fg) ∧
        (σ.k.procs 2).used ∧ (σ.k.procs 2).state ≠ .exited ∧ (σ.k.procs 2).fg)) = true := by
    decide +kernel
  obtain ⟨σ, hσ, h⟩ := (Option.any_eq_true _ _).mp hrun
  obtain ⟨⟨h1, h2, h3⟩, h4, h5, h6⟩ := of_decide_eq_true h
  refine ⟨σ, .of_run (.start booted_boot) hσ, fun ho => ?_⟩
  exact absurd (ho.unique 1 2 ⟨h1, h2⟩ ⟨h4, h5⟩ h3 h6) (by decide)

end TP2Kernel.Proofs
