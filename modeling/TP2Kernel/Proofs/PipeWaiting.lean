import TP2Kernel.Proofs.PipeCalls

/-!
# Processes that wait on a pipe

When the queues of a pipe hold processes for which there is something to do. A transfer
wakes one process of the other side, and the woken process may return without waking the
next one; a writer that is about to sleep does not look at the readers again.
-/

namespace TP2Kernel.Proofs
open Function

variable {σ σ' : PipeSystem} {p : Slot}

/-- The queue `ws` of the processes in a call of kind `S`: they are asleep, and while there
is something to do for them one of their kind was woken. -/
structure Side (S : Call → Prop) (calls : Slot → Call) (ws : List Waiter) (todo : Prop) : Prop where
  asleep : ∀ w ∈ ws, S (calls w.proc)
  nodup : (ws.map Waiter.proc).Nodup
  woken : todo → ws = [] ∨ ∃ q, S (calls q) ∧ ∀ w ∈ ws, w.proc ≠ q

namespace Side

variable {S : Call → Prop} {calls : Slot → Call} {ws : List Waiter} {todo todo' : Prop} {c : Call}

/-- Another process moves on. -/
lemma other (h : Side S calls ws todo) (hp : ¬S (calls p)) (ht : todo' → todo) :
    Side S (update calls p c) ws todo' := by
  have hne : ∀ q, S (calls q) → S (update calls p c q) := by
    intro q hq
    rw [update_of_ne]
    · exact hq
    · rintro rfl
      exact hp hq
  refine ⟨fun w hw => hne _ (h.asleep w hw), h.nodup, fun hd => ?_⟩
  rcases h.woken (ht hd) with h1 | ⟨q, hq, hw⟩
  · exact .inl h1
  · exact .inr ⟨q, hne q hq, hw⟩

/-- Another process wakes the first one of the queue. -/
lemma tail (h : Side S calls ws todo) (hp : ¬S (calls p)) :
    Side S (update calls p c) ws.tail todo' := by
  have ho : Side S (update calls p c) ws todo := h.other hp id
  cases ws with
  | nil => exact ⟨ho.asleep, ho.nodup, fun _ => .inl rfl⟩
  | cons w ws =>
    obtain ⟨hw, hnd⟩ := List.nodup_cons.mp ho.nodup
    refine ⟨fun x hx => ho.asleep x (List.mem_cons_of_mem w hx), hnd, fun _ => .inr ⟨w.proc, ?_, ?_⟩⟩
    · exact ho.asleep w (by simp)
    · intro x hx he
      apply hw
      rw [← he]
      exact List.mem_map_of_mem hx

/-- A process goes to sleep when there is nothing to do for it. -/
lemma push (h : Side S calls ws todo) (hp : ¬S (calls p)) (hc : S c) (ht : ¬todo) (node : Nat) :
    Side S (update calls p c) (ws ++ [⟨node, p⟩]) todo := by
  have hno : ∀ w ∈ ws, w.proc ≠ p := by
    intro w hw he
    exact hp (he ▸ h.asleep w hw)
  refine ⟨fun w hw => ?_, ?_, fun hd => absurd hd ht⟩
  · rcases List.mem_append.mp hw with hw | hw
    · rw [update_of_ne (hno w hw)]
      exact h.asleep w hw
    · rw [List.mem_singleton.mp hw, update_self]
      exact hc
  · rw [List.map_append]
    apply List.Nodup.append h.nodup (by simp)
    intro q hq hq'
    obtain ⟨w, hw, rfl⟩ := List.mem_map.mp hq
    exact hno w hw (by simpa using hq')

/-- A woken process moves on. -/
lemma leave (h : Side S calls ws todo) (hp : ∀ w ∈ ws, w.proc ≠ p)
    (ht : todo' → ws = [] ∨ ∃ q, q ≠ p ∧ S (calls q) ∧ ∀ w ∈ ws, w.proc ≠ q) :
    Side S (update calls p c) ws todo' := by
  refine ⟨fun w hw => ?_, h.nodup, fun hd => ?_⟩
  · rw [update_of_ne (hp w hw)]
    exact h.asleep w hw
  · rcases ht hd with h1 | ⟨q, hq, hs, hw⟩
    · exact .inl h1
    · exact .inr ⟨q, by rwa [update_of_ne hq], hw⟩

lemma mono (h : Side S calls ws todo) (ht : todo' → todo) : Side S calls ws todo' :=
  ⟨h.asleep, h.nodup, fun hd => h.woken (ht hd)⟩

end Side

/-- A reader behind its yield. -/
def IsReadSleep (c : Call) : Prop := ∃ n, c = .readSleep n

/-- A writer behind its yield. -/
def IsWriteSleep (c : Call) : Prop := ∃ src, c = .writeSleep src

lemma wokenReader_iff (σ : PipeSystem) (p : Slot) : σ.wokenReader p = true ↔
    IsReadSleep (σ.calls p) ∧ ∀ w ∈ σ.pipe.rWaiters, w.proc ≠ p := by
  unfold PipeSystem.wokenReader IsReadSleep
  cases σ.calls p <;> simp

lemma wokenWriter_iff (σ : PipeSystem) (p : Slot) : σ.wokenWriter p = true ↔
    IsWriteSleep (σ.calls p) ∧ ∀ w ∈ σ.pipe.wWaiters, w.proc ≠ p := by
  unfold PipeSystem.wokenWriter IsWriteSleep
  cases σ.calls p <;> simp

lemma took_size {c : Kpipe} (h : c.ring.Wf) (n : Nat) : (c.took n).ring.size = c.ring.size - n := by
  obtain ⟨-, hc, hl⟩ := h.takeList (min c.ring.size n) (by omega)
  have hlen := congrArg List.length hc
  rw [List.length_append, CircularBuffer.contents_length, CircularBuffer.contents_length, hl] at hlen
  show (c.ring.takeList (min c.ring.size n)).2.size = _
  omega

lemma stored_size {c : Kpipe} (h : c.ring.Wf) (src : List UInt8) :
    (c.stored src).ring.size = min pipeCap (c.ring.size + src.length) := by
  have hle := h.size_le
  have hlen : (src.take (c.room src)).length = c.room src := by
    rw [List.length_take, Kpipe.room]
    omega
  obtain ⟨-, -, hs⟩ := h.putList (src.take (c.room src)) (by
    rw [hlen, Kpipe.room]
    omega)
  show (c.ring.putList (src.take (c.room src))).size = _
  rw [hs, hlen, Kpipe.room]
  omega

/-- Another woken reader has to rerun its loop. -/
def otherReader (σ : PipeSystem) (p : Slot) : Bool :=
  (List.finRange maxProcs).any fun q => decide (q ≠ p) && σ.wokenReader q

/-- Another woken writer has to rerun its loop. -/
def otherWriter (σ : PipeSystem) (p : Slot) : Bool :=
  (List.finRange maxProcs).any fun q => decide (q ≠ p) && σ.wokenWriter q

/-- A woken reader that leaves bytes behind, and a woken writer that leaves space behind,
returns only when nobody is queued on its side or another woken process is still to come. -/
def passesOn (σ : PipeSystem) : PipeEvent → Bool
  | .run p =>
    match σ.calls p with
    | .readSleep n =>
      decide (σ.pipe.ring.size ≤ n) || σ.pipe.rWaiters.isEmpty || otherReader σ p
    | .writeSleep src =>
      decide (pipeCap ≤ σ.pipe.ring.size) ||
        (decide (σ.pipe.readers ≠ 0) && decide (pipeCap ≤ σ.pipe.ring.size + src.length)) ||
        σ.pipe.wWaiters.isEmpty || otherWriter σ p
    | _ => true
  | _ => true

/-- While there are bytes, no reader is queued or one was woken, and the same for space and
writers. -/
structure Attended (σ : PipeSystem) : Prop where
  fifo : Fifo σ
  readers : Side IsReadSleep σ.calls σ.pipe.rWaiters (0 < σ.pipe.ring.size)
  writers : Side IsWriteSleep σ.calls σ.pipe.wWaiters (σ.pipe.ring.size < pipeCap)

section Steps

variable {n : Nat} {src : List UInt8} {c : Call}

lemma reading_side {n : Nat}
    (h : σ.calls p = .read n ∨ (σ.calls p = .readSleep n ∧ σ.wokenReader p)) :
    ¬IsWriteSleep (σ.calls p) := by
  rintro ⟨src, hs⟩
  rcases h with h | ⟨h, -⟩ <;> simp [h] at hs

lemma writing_side {src : List UInt8}
    (h : σ.calls p = .write src ∨ (σ.calls p = .writeSleep src ∧ σ.wokenWriter p)) :
    ¬IsReadSleep (σ.calls p) := by
  rintro ⟨n, hs⟩
  rcases h with h | ⟨h, -⟩ <;> simp [h] at hs

/-- A reader moves on, and what it leaves does not strand the readers that are queued. -/
lemma readers_leave (h : Attended σ) {todo : Prop}
    (hp : σ.calls p = .read n ∨ (σ.calls p = .readSleep n ∧ σ.wokenReader p))
    (hok : passesOn σ (.run p)) (ht : todo → n < σ.pipe.ring.size) :
    Side IsReadSleep (update σ.calls p c) σ.pipe.rWaiters todo := by
  rcases hp with hp | ⟨hp, hw⟩
  · apply h.readers.other
    · rintro ⟨m, hm⟩
      simp [hp] at hm
    · intro hd
      have := ht hd
      omega
  · apply h.readers.leave ((wokenReader_iff σ p).mp hw).2
    intro hd
    have hlt := ht hd
    simp only [passesOn, hp, Bool.or_eq_true, decide_eq_true_eq, List.isEmpty_iff, otherReader,
      List.any_eq_true, Bool.and_eq_true] at hok
    rcases hok with (hle | he) | ⟨q, -, hq, hwq⟩
    · omega
    · exact .inl he
    · exact .inr ⟨q, hq, (wokenReader_iff σ q).mp hwq⟩

/-- A writer moves on, and what it leaves does not strand the writers that are queued. -/
lemma writers_leave (h : Attended σ) {todo : Prop}
    (hp : σ.calls p = .write src ∨ (σ.calls p = .writeSleep src ∧ σ.wokenWriter p))
    (hok : passesOn σ (.run p)) (ht : todo → σ.pipe.ring.size < pipeCap ∧
      (σ.pipe.readers ≠ 0 → σ.pipe.ring.size + src.length < pipeCap)) :
    Side IsWriteSleep (update σ.calls p c) σ.pipe.wWaiters todo := by
  rcases hp with hp | ⟨hp, hw⟩
  · apply h.writers.other
    · rintro ⟨m, hm⟩
      simp [hp] at hm
    · exact fun hd => (ht hd).1
  · apply h.writers.leave ((wokenWriter_iff σ p).mp hw).2
    intro hd
    obtain ⟨hlt, hlen⟩ := ht hd
    simp only [passesOn, hp, Bool.or_eq_true, decide_eq_true_eq, List.isEmpty_iff, otherWriter,
      List.any_eq_true, Bool.and_eq_true] at hok
    rcases hok with ((hle | ⟨hr, hle⟩) | he) | ⟨q, -, hq, hwq⟩
    · omega
    · have := hlen hr
      omega
    · exact .inl he
    · exact .inr ⟨q, hq, (wokenWriter_iff σ q).mp hwq⟩

/-- A step that leaves the ring and the queues alone, by a process that is not asleep. -/
lemma Attended.moved (h : Attended σ) (hf : Fifo σ') (hp : ¬IsReadSleep (σ.calls p))
    (hp' : ¬IsWriteSleep (σ.calls p)) (hc : σ'.calls = update σ.calls p c)
    (hr : σ'.pipe.rWaiters = σ.pipe.rWaiters) (hw : σ'.pipe.wWaiters = σ.pipe.wWaiters)
    (hs : σ'.pipe.ring.size = σ.pipe.ring.size) : Attended σ' := by
  refine ⟨hf, ?_, ?_⟩
  · rw [hc, hr, hs]
    exact h.readers.other hp id
  · rw [hc, hw, hs]
    exact h.writers.other hp' id

end Steps

theorem attended_step {e : PipeEvent} (h : Attended σ) (hok : passesOn σ e)
    (hs : σ.step e = some σ') : Attended σ' := by
  have hf := fifo_step h.fifo hs
  cases PipeSystem.step_cases hs with
  | start ha hc => exact h.moved hf (by simp [ha, IsReadSleep]) (by simp [ha, IsWriteSleep]) rfl rfl rfl rfl
  | take hp hsize =>
    have ht := took_size h.fifo.ring
    refine ⟨hf, readers_leave h hp hok ?_, h.writers.tail (reading_side hp)⟩
    intro hd
    have hd' : 0 < (σ.pipe.took _).ring.size := hd
    rw [ht] at hd'
    omega
  | empty hp hsize hc =>
    refine ⟨hf, readers_leave h hp hok ?_, h.writers.other (reading_side hp) id⟩
    intro hd
    have hd' : 0 < σ.pipe.ring.size := hd
    omega
  | store hp hr hsize =>
    have ht := stored_size h.fifo.ring
    refine ⟨hf, h.readers.tail (writing_side hp), writers_leave h hp hok ?_⟩
    intro hd
    have hd' : (σ.pipe.stored _).ring.size < pipeCap := hd
    rw [ht] at hd'
    exact ⟨hsize, fun _ => by omega⟩
  | epipe hp hr =>
    refine ⟨hf, h.readers.other (writing_side hp) id, writers_leave h hp hok ?_⟩
    exact fun hd => ⟨hd, fun hr' => absurd hr hr'⟩
  | full hp hsize =>
    refine ⟨hf, h.readers.other (writing_side hp) id, writers_leave h hp hok ?_⟩
    exact fun hd => absurd hd hsize
  | close ha =>
    exact h.moved hf (by simp [ha, IsReadSleep]) (by simp [ha, IsWriteSleep])
      (runClose_calls σ _ _ _) rfl rfl rfl
  | @wakeReader p _ w ws ha hw =>
    have ht : Side IsReadSleep (update σ.calls p (σ.calls p)) σ.pipe.rWaiters.tail
        (0 < σ.pipe.ring.size) := h.readers.tail (by simp [ha, IsReadSleep])
    rw [update_eq_self, hw] at ht
    exact ⟨hf, ht, h.writers⟩
  | drainedReaders ha =>
    exact h.moved hf (by simp [ha, IsReadSleep]) (by simp [ha, IsWriteSleep]) rfl rfl rfl rfl
  | @wakeWriter p w ws ha hw =>
    have ht : Side IsWriteSleep (update σ.calls p (σ.calls p)) σ.pipe.wWaiters.tail
        (σ.pipe.ring.size < pipeCap) := h.writers.tail (by simp [ha, IsWriteSleep])
    rw [update_eq_self, hw] at ht
    exact ⟨hf, h.readers, ht⟩
  | drainedWriters ha =>
    exact h.moved hf (by simp [ha, IsReadSleep]) (by simp [ha, IsWriteSleep]) rfl rfl rfl rfl
  | retryRead ha =>
    exact h.moved hf (by simp [ha, IsReadSleep]) (by simp [ha, IsWriteSleep]) rfl rfl rfl rfl
  | sleepRead ha hsize =>
    refine ⟨hf, h.readers.push (by simp [ha, IsReadSleep]) ⟨_, rfl⟩ ?_ _, h.writers.other ?_ id⟩
    · omega
    · simp [ha, IsWriteSleep]
  | retryWrite ha =>
    exact h.moved hf (by simp [ha, IsReadSleep]) (by simp [ha, IsWriteSleep]) rfl rfl rfl rfl
  | sleepWrite ha hsize =>
    refine ⟨hf, h.readers.other ?_ id, h.writers.push (by simp [ha, IsWriteSleep]) ⟨_, rfl⟩ hsize _⟩
    simp [ha, IsReadSleep]
  | noMemory ha =>
    exact h.moved hf (by simp [ha, IsReadSleep]) (by simp [ha, IsWriteSleep]) rfl rfl rfl rfl

lemma fresh_attended (h : PipeSystem.Fresh σ) : Attended σ := by
  obtain ⟨hr, hw⟩ := h.queues
  refine ⟨fresh_fifo h, ?_, ?_⟩
  · rw [hr]
    exact ⟨by simp, by simp, fun _ => .inl rfl⟩
  · rw [hw]
    exact ⟨by simp, by simp, fun _ => .inl rfl⟩

/-- No wake-up is lost in a run in which no woken process returns from a transfer that leaves
something for others that are queued, unless another woken process is still to come: when no
woken process has to rerun its loop, nobody waits for bytes that are there or for space that
is there. -/
theorem pipe_no_lost_wakeup
    (h : Transition.Reach PipeSystem.Fresh PipeSystem.step (fun σ e => passesOn σ e) σ)
    (hr : ∀ p, σ.wokenReader p = false) (hw : ∀ p, σ.wokenWriter p = false) :
    (0 < σ.pipe.ring.size → σ.pipe.rWaiters = []) ∧
      (σ.pipe.ring.size < pipeCap → σ.pipe.wWaiters = []) := by
  have ha := h.invariant (fun _ => fresh_attended) fun _ _ _ ha hok hs => attended_step ha hok hs
  constructor
  · intro hs
    rcases ha.readers.woken hs with he | ⟨q, hq⟩
    · exact he
    · have := (wokenReader_iff σ q).mpr hq
      simp [hr] at this
  · intro hs
    rcases ha.writers.woken hs with he | ⟨q, hq⟩
    · exact he
    · have := (wokenWriter_iff σ q).mpr hq
      simp [hw] at this

/-- Two readers block, a write of one byte wakes the first, which takes it and returns. -/
def sampleServed : PipeSystem :=
  Transition.final PipeSystem.step passesOn samplePipe
    [.start 1 (.read 1), .run 1, .alloc 1 (some 0), .start 3 (.read 1), .run 3, .alloc 3 (some 1),
      .start 2 (.write [7]), .run 2, .run 1]

theorem pipe_no_lost_wakeup_sample :
    (0 < sampleServed.pipe.ring.size → sampleServed.pipe.rWaiters = []) ∧
      (sampleServed.pipe.ring.size < pipeCap → sampleServed.pipe.wWaiters = []) :=
  pipe_no_lost_wakeup (Transition.Reach.final _ samplePipe_fresh (by decide +kernel))
    (by decide +kernel) (by decide +kernel)

/-- Two readers block, a write of two bytes wakes the first, which takes one of them. -/
def sampleStranded : PipeSystem :=
  Transition.final PipeSystem.step (fun _ _ => true) samplePipe
    [.start 1 (.read 1), .run 1, .alloc 1 (some 0), .start 3 (.read 1), .run 3, .alloc 3 (some 1),
      .start 2 (.write [7, 8]), .run 2, .run 1]

/-- The second reader sleeps beside the second byte, and nobody is woken. -/
theorem pipe_lost_wakeup :
    Transition.Reach PipeSystem.Fresh PipeSystem.step (fun _ _ => True) sampleStranded ∧
      (∀ p, sampleStranded.wokenReader p = false ∧ sampleStranded.wokenWriter p = false) ∧
      0 < sampleStranded.pipe.ring.size ∧ sampleStranded.pipe.rWaiters = [⟨1, 3⟩] := by
  refine ⟨?_, by decide +kernel, by decide +kernel, by decide +kernel⟩
  exact (Transition.Reach.final _ samplePipe_fresh (by decide +kernel)).mono fun _ _ _ => trivial

/-- The `kpipe_close` that closed the last read end still has to wake the queued writers. -/
def drainsWriters (σ : PipeSystem) : Bool :=
  match σ.noReaders with
  | some p => decide (σ.calls p = .drainReaders true ∨ σ.calls p = .drainWriters)
  | none => false

/-- The `kpipe_close` that closed the last write end still has to wake the queued readers. -/
def drainsReaders (σ : PipeSystem) : Bool :=
  match σ.noWriters with
  | some p => decide (σ.calls p = .drainReaders true ∨ σ.calls p = .drainReaders false)
  | none => false

/-- A writer does not go to sleep on a full pipe without readers, unless the `kpipe_close` of
the last read end is still to wake it. -/
def rechecksReaders (σ : PipeSystem) : PipeEvent → Bool
  | .alloc p (some _) =>
    match σ.calls p with
    | .writeAlloc _ =>
      decide (σ.pipe.ring.size < pipeCap) || decide (σ.pipe.readers ≠ 0) || drainsWriters σ
    | _ => true
  | _ => true

/-- Nobody is queued for an end of the pipe that is closed. -/
structure NobodyStranded (σ : PipeSystem) : Prop where
  readers : σ.pipe.writers = 0 → σ.pipe.rWaiters = [] ∨ drainsReaders σ
  writers : σ.pipe.readers = 0 → σ.pipe.wWaiters = [] ∨ drainsWriters σ

/-- A call that is draining a queue. -/
def Call.drains : Call → Bool
  | .drainReaders _ | .drainWriters => true
  | _ => false

lemma drainsReaders_iff (σ : PipeSystem) : drainsReaders σ = true ↔
    ∃ p b, σ.noWriters = some p ∧ σ.calls p = .drainReaders b := by
  unfold drainsReaders
  cases σ.noWriters with
  | none => simp
  | some p =>
    simp only [decide_eq_true_eq, Option.some.injEq]
    constructor
    · rintro (h | h)
      · exact ⟨p, true, rfl, h⟩
      · exact ⟨p, false, rfl, h⟩
    · rintro ⟨q, b, rfl, h⟩
      cases b with
      | true => exact .inl h
      | false => exact .inr h

lemma drainsWriters_iff (σ : PipeSystem) : drainsWriters σ = true ↔ ∃ p, σ.noReaders = some p ∧
    (σ.calls p = .drainReaders true ∨ σ.calls p = .drainWriters) := by
  unfold drainsWriters
  cases σ.noReaders <;> simp

section Stranded

variable {c : Call}

lemma drainsReaders_goto (h : drainsReaders σ) (hp : Call.drains (σ.calls p) = false)
    (hc : σ'.calls = update σ.calls p c) (hn : σ'.noWriters = σ.noWriters) : drainsReaders σ' := by
  obtain ⟨q, b, hq, hb⟩ := (drainsReaders_iff σ).mp h
  refine (drainsReaders_iff σ').mpr ⟨q, b, hn.trans hq, ?_⟩
  rw [hc, update_of_ne]
  · exact hb
  · rintro rfl
    simp [hb, Call.drains] at hp

lemma drainsWriters_goto (h : drainsWriters σ) (hp : Call.drains (σ.calls p) = false)
    (hc : σ'.calls = update σ.calls p c) (hn : σ'.noReaders = σ.noReaders) : drainsWriters σ' := by
  obtain ⟨q, hq, hb⟩ := (drainsWriters_iff σ).mp h
  refine (drainsWriters_iff σ').mpr ⟨q, hn.trans hq, ?_⟩
  rw [hc, update_of_ne]
  · exact hb
  · rintro rfl
    rcases hb with hb | hb <;> simp [hb, Call.drains] at hp

/-- A step by a process that drains nothing, which queues nobody and leaves the counters. -/
lemma NobodyStranded.moved (h : NobodyStranded σ) (hp : Call.drains (σ.calls p) = false)
    (hc : σ'.calls = update σ.calls p c) (hn : σ'.noReaders = σ.noReaders)
    (hn' : σ'.noWriters = σ.noWriters)
    (hk : σ'.pipe.readers = σ.pipe.readers ∧ σ'.pipe.writers = σ.pipe.writers)
    (hr : σ.pipe.rWaiters = [] → σ'.pipe.rWaiters = [])
    (hw : σ.pipe.wWaiters = [] → σ'.pipe.wWaiters = []) : NobodyStranded σ' := by
  constructor
  · intro h0
    rcases h.readers (hk.2 ▸ h0) with h1 | h1
    · exact .inl (hr h1)
    · exact .inr (drainsReaders_goto h1 hp hc hn')
  · intro h0
    rcases h.writers (hk.1 ▸ h0) with h1 | h1
    · exact .inl (hw h1)
    · exact .inr (drainsWriters_goto h1 hp hc hn)

lemma stranded_close (h : NobodyStranded σ) {wasRead wasWrite : Bool}
    (hp : σ.calls p = .close wasRead wasWrite) :
    NobodyStranded (σ.runClose p wasRead wasWrite) := by
  have hcalls := runClose_calls σ p wasRead wasWrite
  have hd : Call.drains (σ.calls p) = false := by simp [hp, Call.drains]
  constructor
  · intro h0
    by_cases hz : σ.pipe.writers = 0
    · rcases h.readers hz with h1 | h1
      · exact .inl h1
      · exact .inr (drainsReaders_goto h1 hd hcalls (if_neg (by simp [hz])))
    · by_cases he : σ.pipe.rWaiters = []
      · exact .inl he
      · right
        have h0' : (pipeDropUser σ.pipe wasRead wasWrite).writers = 0 := h0
        have he' : (pipeDropUser σ.pipe wasRead wasWrite).rWaiters ≠ [] := he
        refine (drainsReaders_iff _).mpr ⟨p, decide ((pipeDropUser σ.pipe wasRead wasWrite).readers = 0) &&
          !(pipeDropUser σ.pipe wasRead wasWrite).wWaiters.isEmpty, if_pos ⟨hz, h0⟩, ?_⟩
        rw [hcalls, goto_calls, if_pos rfl, closeNext, if_pos (by simp [h0', he'])]
  · intro h0
    by_cases hz : σ.pipe.readers = 0
    · rcases h.writers hz with h1 | h1
      · exact .inl h1
      · exact .inr (drainsWriters_goto h1 hd hcalls (if_neg (by simp [hz])))
    · by_cases he : σ.pipe.wWaiters = []
      · exact .inl he
      · right
        refine (drainsWriters_iff _).mpr ⟨p, if_pos ⟨hz, h0⟩, ?_⟩
        have h0' : (pipeDropUser σ.pipe wasRead wasWrite).readers = 0 := h0
        have he' : (pipeDropUser σ.pipe wasRead wasWrite).wWaiters ≠ [] := he
        rw [hcalls, goto_calls, if_pos rfl, closeNext]
        split_ifs
        · left
          simp [h0', he']
        · exact .inr rfl
        · simp_all

end Stranded

lemma reading_drains {n : Nat}
    (h : σ.calls p = .read n ∨ (σ.calls p = .readSleep n ∧ σ.wokenReader p)) :
    Call.drains (σ.calls p) = false := by
  rcases h with h | ⟨h, -⟩ <;> simp [h, Call.drains]

lemma writing_drains {src : List UInt8}
    (h : σ.calls p = .write src ∨ (σ.calls p = .writeSleep src ∧ σ.wokenWriter p)) :
    Call.drains (σ.calls p) = false := by
  rcases h with h | ⟨h, -⟩ <;> simp [h, Call.drains]

theorem stranded_step {e : PipeEvent} (h : NobodyStranded σ) (hok : rechecksReaders σ e)
    (hs : σ.step e = some σ') : NobodyStranded σ' := by
  cases PipeSystem.step_cases hs with
  | start ha => exact h.moved (by simp [ha, Call.drains]) rfl rfl rfl ⟨rfl, rfl⟩ id id
  | take hp =>
    refine h.moved (reading_drains hp) rfl rfl rfl ⟨rfl, rfl⟩ id fun hw => ?_
    show σ.pipe.wWaiters.tail = []
    simp [hw]
  | empty hp => exact h.moved (reading_drains hp) rfl rfl rfl ⟨rfl, rfl⟩ id id
  | store hp =>
    refine h.moved (writing_drains hp) rfl rfl rfl ⟨rfl, rfl⟩ (fun hr => ?_) id
    show σ.pipe.rWaiters.tail = []
    simp [hr]
  | epipe hp => exact h.moved (writing_drains hp) rfl rfl rfl ⟨rfl, rfl⟩ id id
  | full hp => exact h.moved (writing_drains hp) rfl rfl rfl ⟨rfl, rfl⟩ id id
  | close ha => exact stranded_close h ha
  | wakeReader ha hw =>
    refine ⟨fun h0 => ?_, h.writers⟩
    rcases h.readers h0 with h1 | h1
    · simp [hw] at h1
    · exact .inr h1
  | @drainedReaders p b ha hw =>
    refine ⟨fun _ => .inl hw, fun h0 => ?_⟩
    rcases h.writers h0 with h1 | h1
    · exact .inl h1
    · right
      obtain ⟨q, hq, hb⟩ := (drainsWriters_iff σ).mp h1
      refine (drainsWriters_iff _).mpr ⟨q, hq, ?_⟩
      rw [goto_calls]
      split_ifs with hqp hbt
      · exact .inr rfl
      · rw [hqp, ha] at hb
        simp [hbt] at hb
      · exact hb
  | wakeWriter ha hw =>
    refine ⟨h.readers, fun h0 => ?_⟩
    rcases h.writers h0 with h1 | h1
    · simp [hw] at h1
    · exact .inr h1
  | @drainedWriters p ha hw =>
    refine ⟨fun h0 => ?_, fun _ => .inl hw⟩
    rcases h.readers h0 with h1 | h1
    · exact .inl h1
    · right
      obtain ⟨q, b, hq, hb⟩ := (drainsReaders_iff σ).mp h1
      refine (drainsReaders_iff _).mpr ⟨q, b, hq, ?_⟩
      rw [goto_calls, if_neg]
      · exact hb
      · rintro rfl
        simp [ha] at hb
  | retryRead ha => exact h.moved (by simp [ha, Call.drains]) rfl rfl rfl ⟨rfl, rfl⟩ id id
  | sleepRead ha hsize hne =>
    refine ⟨fun h0 => absurd h0 hne, fun h0 => ?_⟩
    rcases h.writers h0 with h1 | h1
    · exact .inl h1
    · exact .inr (drainsWriters_goto h1 (by simp [ha, Call.drains]) rfl rfl)
  | retryWrite ha => exact h.moved (by simp [ha, Call.drains]) rfl rfl rfl ⟨rfl, rfl⟩ id id
  | sleepWrite ha hsize =>
    refine ⟨fun h0 => ?_, fun h0 => ?_⟩
    · rcases h.readers h0 with h1 | h1
      · exact .inl h1
      · exact .inr (drainsReaders_goto h1 (by simp [ha, Call.drains]) rfl rfl)
    · have h0' : σ.pipe.readers = 0 := h0
      simp only [rechecksReaders, ha, Bool.or_eq_true, decide_eq_true_eq] at hok
      rcases hok with (h1 | h1) | h1
      · exact absurd h1 hsize
      · exact absurd h0' h1
      · exact .inr (drainsWriters_goto h1 (by simp [ha, Call.drains]) rfl rfl)
  | noMemory ha => exact h.moved (by simp [ha, Call.drains]) rfl rfl rfl ⟨rfl, rfl⟩ id id

/-- In a run in which no writer goes to sleep on a full pipe whose last read end was closed
while it allocated its waiter, nobody is queued for an end of the pipe that is closed, except
while the `kpipe_close` of that end is still waking the queue. -/
theorem pipe_nobody_stranded
    (h : Transition.Reach PipeSystem.Fresh PipeSystem.step (fun σ e => rechecksReaders σ e) σ) :
    (σ.pipe.writers = 0 → σ.pipe.rWaiters = [] ∨ drainsReaders σ) ∧
      (σ.pipe.readers = 0 → σ.pipe.wWaiters = [] ∨ drainsWriters σ) := by
  have h0 : ∀ τ, PipeSystem.Fresh τ → NobodyStranded τ := fun τ hf =>
    ⟨fun _ => .inl hf.queues.1, fun _ => .inl hf.queues.2⟩
  have hn := h.invariant h0 fun _ _ _ hn hok hs => stranded_step hn hok hs
  exact ⟨hn.readers, hn.writers⟩

/-- A reader that sleeps is woken when the last write end is closed. -/
def sampleEof : PipeSystem :=
  Transition.final PipeSystem.step rechecksReaders samplePipe
    [.start 1 (.read 1), .run 1, .alloc 1 (some 0), .start 2 (.close false true), .run 2, .run 2,
      .run 2, .run 1]

theorem pipe_nobody_stranded_sample :
    (sampleEof.pipe.writers = 0 → sampleEof.pipe.rWaiters = [] ∨ drainsReaders sampleEof) ∧
      (sampleEof.pipe.readers = 0 → sampleEof.pipe.wWaiters = [] ∨ drainsWriters sampleEof) :=
  pipe_nobody_stranded (Transition.Reach.final _ samplePipe_fresh (by decide +kernel))

/-- A full pipe: the last read end is closed while a writer allocates its waiter. -/
def sampleBroken : PipeSystem :=
  Transition.final PipeSystem.step (fun _ _ => true) samplePipe
    [.start 2 (.write (List.replicate pipeCap 0)), .run 2, .start 2 (.write [7]), .run 2,
      .start 1 (.close true false), .run 1, .alloc 2 (some 0)]

/-- The writer sleeps on a pipe without readers, and nobody is closing it any more. -/
theorem pipe_writer_stranded :
    Transition.Reach PipeSystem.Fresh PipeSystem.step (fun _ _ => True) sampleBroken ∧
      sampleBroken.pipe.readers = 0 ∧ sampleBroken.pipe.wWaiters = [⟨0, 2⟩] ∧
      ∀ p, sampleBroken.calls p = if p = 2 then .writeSleep [7] else .away := by
  refine ⟨?_, by decide +kernel, by decide +kernel, by decide +kernel⟩
  exact (Transition.Reach.final _ samplePipe_fresh (by decide +kernel)).mono fun _ _ _ => trivial

end TP2Kernel.Proofs
