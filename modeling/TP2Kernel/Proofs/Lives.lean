import TP2Kernel.Proofs.CallerSurvives

/-!
# Which processes an event terminates

No event but a `proc_create` brings a process to life, and none terminates another process than
the one it is about and the children of that process.
-/

namespace TP2Kernel.Proofs
open Function

variable {s : Scope} {k k' : Kernel} {idle x : Slot} {σ σ' : System} {e : Event}

lemma act_dead (h : Sound k) (hf : ¬s.fresh) (ha : Act s k k') (hx : Live k' x) : Live k x := by
  cases act_fate h ha x with
  | same hs hst _ => exact ⟨by rw [← hs.2.1]; exact hx.1, by rw [← hst]; exact hx.2⟩
  | woken _ _ hu hb _ => exact ⟨hu, by simp [hb]⟩
  | retired _ _ _ h => exact absurd h hx.2
  | reaped _ h _ _ => exact absurd h hx.2
  | drafted h _ _ _ _ _ => exact absurd h hf
  | entered _ hu hn _ => exact ⟨hu, by simp [hn]⟩
  | suspended hs _ _ he _ => exact ⟨by rw [← hs.2.1]; exact hx.1, he⟩

/-- Actions that create no process bring none to life. -/
theorem steps_dead (h : Sound k) (hf : ¬s.fresh) (hs : Steps s k k') (hx : Live k' x) :
    Live k x := by
  induction hs with
  | refl => exact hx
  | tail h1 ha ih => exact ih (act_dead (steps_sound h h1) hf ha hx)

/-- Everything may happen except that a process is created, or terminated outside `T`. -/
def losing (T : Slot → Prop) : Scope := { anything with terminated := T, fresh := False }

lemma losing_open (T : Slot → Prop) : Open (losing T) :=
  ⟨fun _ => trivial, fun _ => trivial, trivial⟩

/-- `k'` has the live processes of `k`, except for some of `T`. -/
structure Loses (T : Slot → Prop) (k k' : Kernel) : Prop where
  dead : ∀ x, Live k' x → Live k x
  live : ∀ x, ¬T x → Live k x → Live k' x

lemma steps_loses {T : Slot → Prop} (h : Sound k) (hs : Steps (losing T) k k') : Loses T k k' :=
  ⟨fun _ => steps_dead h id hs, fun _ ht => steps_live h hs ht⟩

lemma Turn.loses {T : Slot → Prop} {k'' : Kernel} (h : Turn k' k'') (h0 : Loses T k k') :
    Loses T k k'' :=
  ⟨fun x hx => h0.dead x ((h.live x).mp hx), fun x ht hx => (h.live x).mpr (h0.live x ht hx)⟩

/-- `collect_zombies` reaps processes that are not live. -/
lemma collect_live (h : Sound k) (hz : Reapables k) (x : Slot) :
    Live (collectZombies k) x ↔ Live k x := by
  obtain ⟨h1, -⟩ := (listed_rule (losing fun _ => False)).collects .idle k
    (hz.listed fun _ => trivial)
  have h2 := steps_loses h h1
  exact ⟨h2.dead x, h2.live x id⟩

lemma collect_current (h : Kept σ idle) : (collectZombies σ.k).current = σ.k.current := by
  obtain ⟨h1, -⟩ := (listed_rule anything).collects .idle σ.k
    (h.zombies.listed fun _ => trivial)
  exact steps_sameCurrent h.sane.sound h1 fun c hc =>
    .inl ⟨(h.current c hc).2.used, (h.current c hc).2.running⟩

lemma collect_idle (h : Sound k) (hz : Reapables k) :
    (collectZombies k).idleProc = k.idleProc := by
  obtain ⟨h1, -⟩ := (listed_rule anything).collects .idle k (hz.listed fun _ => trivial)
  exact (steps_static h h1).1

/-- A process and the processes on its list of children. -/
def Household (k : Kernel) (p x : Slot) : Prop := x = p ∨ OnChildList k p x

lemma dies_household (k : Kernel) (p : Slot) : Dies (losing (Household k p)) k p :=
  ⟨.inl rfl, fun _ hd => .inr hd⟩

lemma household_not_idle (h : Kept σ idle) {p : Slot} (hp : σ.k.idleProc ≠ some p) :
    ¬Household σ.k p idle := by
  rintro (rfl | hd)
  · exact hp h.sane.idleProc
  · exact h.sane.unlinked (onChildList_linked hd)

/-- The yield behind actions that may have terminated the current process. -/
lemma yield_turned {T : Slot → Prop} {rsp : Frame} (h : Kept σ idle)
    (h1 : Steps (losing T) σ.k k) (hti : ¬T idle) : Turn k (k.yield rsp).1 := by
  have hoff : CurrentOff σ.k := fun c hc =>
    .inl ⟨(h.current c hc).2.used, (h.current c hc).2.running⟩
  have hs1 := steps_sane h.sane h1 hti
  have hoff1 := steps_currentOff h.sane.sound h1 hoff
  apply yield_turn hs1.sound.consistent hs1.idleProc (hs1.sound.frame idle hs1.idleLive)
  · simp [hs1.idleRunning]
  · simp [hs1.idleRunning]
  · exact fun d hd => hoff1.used d hd

lemma yield_loses {T : Slot → Prop} {rsp : Frame} (h : Kept σ idle)
    (h1 : Steps (losing T) σ.k k) (hti : ¬T idle) : Loses T σ.k (k.yield rsp).1 :=
  (yield_turned h h1 hti).loses (steps_loses h.sane.sound h1)

/-- A call that spares the idle process and the current one. -/
lemma ends_loses {T : Slot → Prop} {r : Kernel × Outcome} {Q : Kernel → Prop} (h : Kept σ idle)
    (hti : ¬T idle) (htx : ∀ c, σ.k.current = some c → ¬T c)
    (he : Ends Q (losing T) σ.k σ.exec r) : Loses T σ.k r.1 := by
  obtain ⟨k1, h1, -, hturn⟩ := ends_turn h.sane h.enabled (fun c hc => (h.current c hc).2) hti htx he
  exact hturn.loses (steps_loses h.sane.sound h1)

lemma exit_loses (h : Kept σ idle) (hni : σ.k.idleProc ≠ some σ.exec) {p : Slot}
    (hc : σ.k.current = some p) (code : Int) :
    Loses (Household σ.k p) σ.k (procExit σ.k σ.exec code).1 := by
  obtain ⟨rfl, hx⟩ := h.current p hc
  obtain ⟨k1, h1, -, e1⟩ := procExit_yields σ.exec
    (listed_rule (losing (Household σ.k σ.exec))) trivial trivial (fun _ => trivial) h.sane.sound hx hni
    (dies_household σ.k σ.exec) (.inl fun _ => trivial) (h.zombies.listed fun _ => trivial) code
  rw [e1]
  exact yield_loses h h1 (household_not_idle h hni)

/-- A kill loses the process that it finds and its children. -/
lemma kill_loses {pid : Int} {p : Slot} (h : Kept σ idle) (hsp : SparesCaller σ e)
    (hv : e.victim σ.k = some pid) (hp : procByPid (collectZombies σ.k) pid = some p)
    (hi : σ.k.idleProc ≠ some p) (hu : (σ.k.procs p).used ∧ (σ.k.procs p).pid = pid) :
    Loses (Household σ.k p) σ.k (procKill σ.k σ.exec pid).1 := by
  have hti := household_not_idle h hi
  have hl : Listed (losing (Household σ.k p)) .idle σ.k := h.zombies.listed fun _ => trivial
  by_cases hc : σ.k.current = some p
  · obtain ⟨k1, h1, -, e1⟩ := procKill_yields σ.exec (listed_rule _) trivial trivial
      (fun _ => trivial) h.sane.sound (h.current p hc).2 hp hi (dies_household σ.k p)
      (.inl fun _ => trivial) hl
    rw [e1]
    exact yield_loses h h1 hti
  · apply ends_loses h hti
    · rintro c hcc (rfl | hd)
      · exact hc hcc
      · obtain ⟨rfl, -⟩ := h.current c hcc
        refine hsp p ⟨hu.1, by rw [hv, hu.2], ?_, hi⟩ hd
        rintro rfl
        exact hc hcc
    · apply ends_procKill (listed_rule _) trivial trivial (fun _ => trivial) h.sane.sound
        (fun c hc => (h.current c hc).2) _ (.inl fun _ => trivial) (fun _ => id) hl
      intro p' hp' _
      rw [hp, Option.some.injEq] at hp'
      exact hp' ▸ dies_household σ.k p

/-- An event by which no process is terminated or created. -/
lemma quiet_loses (h : Kept σ idle) (hd : EventOk (losing fun _ => False) σ e)
    (hs : System.step σ e = some σ') : Loses (fun _ => False) σ.k σ'.k := by
  rcases step_ends h (losing_open _) hd hs with ⟨-, e1⟩ | ⟨r, he, e1⟩
  · rw [e1]
    exact (schedule_turn h).loses ⟨fun _ => id, fun _ _ => id⟩
  · rw [e1]
    exact ends_loses h id (fun _ _ => id) he

end TP2Kernel.Proofs
