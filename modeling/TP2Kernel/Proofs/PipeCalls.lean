import TP2Kernel.PipeCalls

/-!
# A pipe is a first-in first-out buffer

What each section of a call on a pipe does, and the simulation of the ring buffer by an
unbounded queue: everything that was copied in, less what was copied out, is in the ring.
-/

namespace TP2Kernel
open Function

namespace Kpipe

lemma dequeueReader_eq (p : Kpipe) :
    p.dequeueReader = ({ p with rWaiters := p.rWaiters.tail }, p.rWaiters.head?) := by
  obtain ⟨name, ring, readers, writers, unlinked, rs, ws⟩ := p
  cases rs with
  | nil => rfl
  | cons w ws => rfl

lemma dequeueWriter_eq (p : Kpipe) :
    p.dequeueWriter = ({ p with wWaiters := p.wWaiters.tail }, p.wWaiters.head?) := by
  obtain ⟨name, ring, readers, writers, unlinked, rs, ws⟩ := p
  cases ws with
  | nil => rfl
  | cons w ws => rfl

/-- The pipe behind a read of at most `n` bytes, with the bytes that were read. -/
def took (p : Kpipe) (n : Nat) : Kpipe :=
  { p with ring := (p.ring.takeList (min p.ring.size n)).2, wWaiters := p.wWaiters.tail }

/-- The number of bytes that a write of `src` stores. -/
def room (p : Kpipe) (src : List UInt8) : Nat := min (pipeCap - p.ring.size) src.length

/-- The pipe behind a write of `src`. -/
def stored (p : Kpipe) (src : List UInt8) : Kpipe :=
  { p with ring := p.ring.putList (src.take (p.room src)), rWaiters := p.rWaiters.tail }

lemma readSection_eq (p : Kpipe) (n : Nat) : p.readSection n =
    if 0 < p.ring.size then
      .transfer (p.took n) (p.ring.takeList (min p.ring.size n)).1 p.wWaiters.head?
    else if p.writers = 0 then .eof else .block := by
  have hmin : (if p.ring.size < n then p.ring.size else n) = min p.ring.size n := by
    split <;> omega
  unfold readSection
  simp only [hmin, dequeueWriter_eq]
  rfl

lemma writeSection_eq (p : Kpipe) (src : List UInt8) : p.writeSection src =
    if p.readers = 0 then .epipe
    else if p.ring.size < pipeCap then .transfer (p.stored src) (p.room src) p.rWaiters.head?
    else .block := by
  have hmin : (if pipeCap - p.ring.size < src.length then pipeCap - p.ring.size else src.length) =
      p.room src := by
    unfold room
    split <;> omega
  unfold writeSection
  simp only [hmin, dequeueReader_eq]
  rfl

end Kpipe

namespace PipeSystem

variable {σ σ' : PipeSystem} {p : Slot}

/-- What a step does: `p` is the process that makes it. -/
inductive Stepped (σ : PipeSystem) : PipeEvent → PipeSystem → Prop
  | start {p : Slot} {c : Call} (h : σ.calls p = .away) (hc : c.starts) :
      Stepped σ (.start p c) (σ.goto p c)
  | take {p : Slot} {n : Nat}
      (h : σ.calls p = .read n ∨ (σ.calls p = .readSleep n ∧ σ.wokenReader p))
      (hs : 0 < σ.pipe.ring.size) : Stepped σ (.run p) { σ.goto p .away with
        pipe := σ.pipe.took n
        output := σ.output ++ (σ.pipe.ring.takeList (min σ.pipe.ring.size n)).1 }
  | empty {p : Slot} {n : Nat} {c : Call}
      (h : σ.calls p = .read n ∨ (σ.calls p = .readSleep n ∧ σ.wokenReader p))
      (hs : σ.pipe.ring.size = 0) (hc : c = .away ∨ c = .readAlloc n) :
      Stepped σ (.run p) (σ.goto p c)
  | store {p : Slot} {src : List UInt8}
      (h : σ.calls p = .write src ∨ (σ.calls p = .writeSleep src ∧ σ.wokenWriter p))
      (hr : σ.pipe.readers ≠ 0) (hs : σ.pipe.ring.size < pipeCap) :
      Stepped σ (.run p) { σ.goto p .away with
        pipe := σ.pipe.stored src
        input := σ.input ++ src.take (σ.pipe.room src)
        writes := σ.writes ++ [⟨src, σ.pipe.room src, src.take (σ.pipe.room src)⟩] }
  | epipe {p : Slot} {src : List UInt8}
      (h : σ.calls p = .write src ∨ (σ.calls p = .writeSleep src ∧ σ.wokenWriter p))
      (hr : σ.pipe.readers = 0) :
      Stepped σ (.run p) { σ.goto p .away with writes := σ.writes ++ [⟨src, -1, []⟩] }
  | full {p : Slot} {src : List UInt8}
      (h : σ.calls p = .write src ∨ (σ.calls p = .writeSleep src ∧ σ.wokenWriter p))
      (hs : ¬σ.pipe.ring.size < pipeCap) : Stepped σ (.run p) (σ.goto p (.writeAlloc src))
  | close {p : Slot} {wasRead wasWrite : Bool} (h : σ.calls p = .close wasRead wasWrite) :
      Stepped σ (.run p) (σ.runClose p wasRead wasWrite)
  | wakeReader {p : Slot} {wakeWriters : Bool} {w : Waiter} {ws : List Waiter}
      (h : σ.calls p = .drainReaders wakeWriters) (hw : σ.pipe.rWaiters = w :: ws) :
      Stepped σ (.run p) { σ with pipe := { σ.pipe with rWaiters := ws } }
  | drainedReaders {p : Slot} {wakeWriters : Bool} (h : σ.calls p = .drainReaders wakeWriters)
      (hw : σ.pipe.rWaiters = []) :
      Stepped σ (.run p) (σ.goto p (if wakeWriters then .drainWriters else .away))
  | wakeWriter {p : Slot} {w : Waiter} {ws : List Waiter} (h : σ.calls p = .drainWriters)
      (hw : σ.pipe.wWaiters = w :: ws) :
      Stepped σ (.run p) { σ with pipe := { σ.pipe with wWaiters := ws } }
  | drainedWriters {p : Slot} (h : σ.calls p = .drainWriters) (hw : σ.pipe.wWaiters = []) :
      Stepped σ (.run p) (σ.goto p .away)
  | retryRead {p : Slot} {n : Nat} {node : Option Nat} {c : Call} (h : σ.calls p = .readAlloc n)
      (hc : c = .away ∨ c = .read n) : Stepped σ (.alloc p node) (σ.goto p c)
  | sleepRead {p : Slot} {n node : Nat} (h : σ.calls p = .readAlloc n)
      (hs : σ.pipe.ring.size = 0) (hw : σ.pipe.writers ≠ 0) : Stepped σ (.alloc p (some node))
        { σ.goto p (.readSleep n) with pipe := σ.pipe.enqueueReader ⟨node, p⟩ }
  | retryWrite {p : Slot} {src : List UInt8} {node : Nat} (h : σ.calls p = .writeAlloc src)
      (hs : σ.pipe.ring.size < pipeCap) : Stepped σ (.alloc p (some node)) (σ.goto p (.write src))
  | sleepWrite {p : Slot} {src : List UInt8} {node : Nat} (h : σ.calls p = .writeAlloc src)
      (hs : ¬σ.pipe.ring.size < pipeCap) : Stepped σ (.alloc p (some node))
        { σ.goto p (.writeSleep src) with pipe := σ.pipe.enqueueWriter ⟨node, p⟩ }
  | noMemory {p : Slot} {src : List UInt8} (h : σ.calls p = .writeAlloc src) :
      Stepped σ (.alloc p none) { σ.goto p .away with writes := σ.writes ++ [⟨src, -1, []⟩] }

lemma stepped_runRead {n : Nat}
    (h : σ.calls p = .read n ∨ (σ.calls p = .readSleep n ∧ σ.wokenReader p)) :
    Stepped σ (.run p) (σ.runRead p n) := by
  unfold runRead
  rw [Kpipe.readSection_eq]
  by_cases hs : 0 < σ.pipe.ring.size
  · rw [if_pos hs]
    exact .take h hs
  · rw [if_neg hs]
    have h0 : σ.pipe.ring.size = 0 := by omega
    split_ifs
    · exact .empty h h0 (.inl rfl)
    · exact .empty h h0 (.inr rfl)

lemma stepped_runWrite {src : List UInt8}
    (h : σ.calls p = .write src ∨ (σ.calls p = .writeSleep src ∧ σ.wokenWriter p)) :
    Stepped σ (.run p) (σ.runWrite p src) := by
  unfold runWrite
  rw [Kpipe.writeSection_eq]
  by_cases hr : σ.pipe.readers = 0
  · rw [if_pos hr]
    exact .epipe h hr
  · rw [if_neg hr]
    by_cases hs : σ.pipe.ring.size < pipeCap
    · rw [if_pos hs]
      exact .store h hr hs
    · rw [if_neg hs]
      exact .full h hs

lemma stepped_run (h : σ.run p = some σ') : Stepped σ (.run p) σ' := by
  unfold run at h
  split at h
  · rename_i n hc
    cases h
    exact stepped_runRead (.inl hc)
  · rename_i n hc
    split at h
    · rename_i hw
      cases h
      exact stepped_runRead (.inr ⟨hc, hw⟩)
    · cases h
  · rename_i src hc
    cases h
    exact stepped_runWrite (.inl hc)
  · rename_i src hc
    split at h
    · rename_i hw
      cases h
      exact stepped_runWrite (.inr ⟨hc, hw⟩)
    · cases h
  · rename_i hc
    cases h
    exact .close hc
  · rename_i wakeWriters hc
    cases h
    unfold runDrainReaders
    rw [Kpipe.dequeueReader_eq]
    cases hw : σ.pipe.rWaiters with
    | nil => exact .drainedReaders hc hw
    | cons w ws => exact .wakeReader hc hw
  · rename_i hc
    cases h
    unfold runDrainWriters
    rw [Kpipe.dequeueWriter_eq]
    cases hw : σ.pipe.wWaiters with
    | nil => exact .drainedWriters hc hw
    | cons w ws => exact .wakeWriter hc hw
  · cases h
  · cases h
  · cases h

lemma stepped_alloc {node : Option Nat} (h : σ.alloc p node = some σ') :
    Stepped σ (.alloc p node) σ' := by
  unfold alloc at h
  split at h
  · rename_i n node hc
    cases h
    unfold recheckRead Kpipe.readRecheck
    by_cases hs : 0 < σ.pipe.ring.size
    · rw [if_pos hs]
      exact .retryRead hc (.inr rfl)
    · rw [if_neg hs]
      by_cases hw : σ.pipe.writers = 0
      · rw [if_pos hw]
        exact .retryRead hc (.inl rfl)
      · rw [if_neg hw]
        exact .sleepRead hc (by omega) hw
  · rename_i n hc
    cases h
    exact .retryRead hc (.inl rfl)
  · rename_i src node hc
    cases h
    unfold recheckWrite Kpipe.writeRecheck
    by_cases hs : σ.pipe.ring.size < pipeCap
    · rw [if_pos hs]
      exact .retryWrite hc hs
    · rw [if_neg hs]
      exact .sleepWrite hc hs
  · rename_i src hc
    cases h
    exact .noMemory hc
  · cases h

theorem step_cases {e : PipeEvent} (h : σ.step e = some σ') : Stepped σ e σ' := by
  cases e with
  | start p c =>
    simp only [step] at h
    split at h
    · rename_i hc
      cases h
      exact .start hc.1 hc.2
    · cases h
  | run p => exact stepped_run h
  | alloc p node => exact stepped_alloc h

end PipeSystem

namespace Proofs

variable {σ σ' : PipeSystem}

/-- The first `result` bytes of the buffer were stored, or none and the result is -1. -/
def WroteExactly (c : WriteCall) : Prop :=
  (c.result = -1 ∧ c.stored = []) ∨
    ∃ k, 0 < k ∧ k ≤ c.src.length ∧ c.result = (k : Int) ∧ c.stored = c.src.take k

/-- The process `p` is in a call of `kpipe_write` with the buffer `src`. -/
def Writing (σ : PipeSystem) (p : Slot) (src : List UInt8) : Prop :=
  σ.calls p = .write src ∨ σ.calls p = .writeAlloc src ∨ σ.calls p = .writeSleep src

/-- What was copied in is what was copied out followed by what the ring holds, and every
finished write says how much it stored. -/
structure Fifo (σ : PipeSystem) : Prop where
  ring : σ.pipe.ring.Wf
  queue : σ.output ++ σ.pipe.ring.contents = σ.input
  stored : (σ.writes.map WriteCall.stored).flatten = σ.input
  exact : ∀ c ∈ σ.writes, WroteExactly c
  buffers : ∀ p src, Writing σ p src → src ≠ []

lemma goto_calls (σ : PipeSystem) (p q : Slot) (c : Call) :
    (σ.goto p c).calls q = if q = p then c else σ.calls q := by
  simp only [PipeSystem.goto, update_apply]

/-- A process that moves on keeps its buffer or starts with one of its own. -/
lemma writing_goto {p q : Slot} {c : Call} {src : List UInt8} (h : Writing (σ.goto p c) q src) :
    Writing σ q src ∨ (q = p ∧ (c = .write src ∨ c = .writeAlloc src ∨ c = .writeSleep src)) := by
  unfold Writing at h
  rw [goto_calls] at h
  split at h
  · rename_i hq
    exact .inr ⟨hq, h⟩
  · exact .inl h

/-- A step that copies nothing. -/
lemma Fifo.moved (h : Fifo σ) {p : Slot} {c : Call} (hc : σ'.calls = (σ.goto p c).calls)
    (hr : σ'.pipe.ring = σ.pipe.ring) (hi : σ'.input = σ.input) (ho : σ'.output = σ.output)
    (hw : σ'.writes = σ.writes ∨ ∃ src, σ'.writes = σ.writes ++ [⟨src, -1, []⟩])
    (hs : ∀ src, c = .write src ∨ c = .writeAlloc src ∨ c = .writeSleep src →
      Writing σ p src ∨ src ≠ []) : Fifo σ' := by
  have hbuf : ∀ q src, Writing σ' q src → src ≠ [] := by
    intro q src hq
    have hq' : Writing (σ.goto p c) q src := by
      unfold Writing at hq ⊢
      rw [← hc]
      exact hq
    rcases writing_goto hq' with h1 | ⟨rfl, h1⟩
    · exact h.buffers q src h1
    · rcases hs src h1 with h2 | h2
      · exact h.buffers q src h2
      · exact h2
  rcases hw with hw | ⟨src, hw⟩
  · exact ⟨hr ▸ h.ring, by rw [hr, hi, ho, h.queue], by rw [hw, hi, h.stored], hw ▸ h.exact, hbuf⟩
  · refine ⟨hr ▸ h.ring, by rw [hr, hi, ho, h.queue], ?_, ?_, hbuf⟩
    · rw [hw, hi, ← h.stored]
      simp
    · intro d hd
      rw [hw] at hd
      rcases List.mem_append.mp hd with hd | hd
      · exact h.exact d hd
      · rw [List.mem_singleton.mp hd]
        exact .inl ⟨rfl, rfl⟩

lemma fifo_take (h : Fifo σ) (p : Slot) (n : Nat) : Fifo { σ.goto p .away with
    pipe := σ.pipe.took n
    output := σ.output ++ (σ.pipe.ring.takeList (min σ.pipe.ring.size n)).1 } := by
  obtain ⟨hw, hc, -⟩ := h.ring.takeList (min σ.pipe.ring.size n) (by omega)
  refine ⟨hw, ?_, h.stored, h.exact, ?_⟩
  · show (σ.output ++ (σ.pipe.ring.takeList (min σ.pipe.ring.size n)).1) ++
      (σ.pipe.ring.takeList (min σ.pipe.ring.size n)).2.contents = σ.input
    rw [← h.queue, hc, List.append_assoc]
  · intro q src hq
    rcases writing_goto hq with h1 | ⟨-, h1⟩
    · exact h.buffers q src h1
    · simp at h1

lemma fifo_store (h : Fifo σ) {p : Slot} {src : List UInt8} (hp : Writing σ p src)
    (hs : σ.pipe.ring.size < pipeCap) : Fifo { σ.goto p .away with
      pipe := σ.pipe.stored src
      input := σ.input ++ src.take (σ.pipe.room src)
      writes := σ.writes ++ [⟨src, σ.pipe.room src, src.take (σ.pipe.room src)⟩] } := by
  have hlen : (src.take (σ.pipe.room src)).length = σ.pipe.room src := by
    rw [List.length_take, Kpipe.room]
    omega
  have hpos : 0 < src.length := List.length_pos_iff.mpr (h.buffers p src hp)
  obtain ⟨hw, hc, -⟩ := h.ring.putList (src.take (σ.pipe.room src)) (by
    rw [hlen, Kpipe.room]
    omega)
  refine ⟨hw, ?_, ?_, ?_, ?_⟩
  · show σ.output ++ (σ.pipe.ring.putList (src.take (σ.pipe.room src))).contents = _
    rw [hc, ← h.queue, List.append_assoc]
  · rw [List.map_append, List.flatten_append, h.stored]
    simp
  · intro c hc'
    rcases List.mem_append.mp hc' with hc' | hc'
    · exact h.exact c hc'
    · rw [List.mem_singleton.mp hc']
      have hroom : 0 < σ.pipe.room src ∧ σ.pipe.room src ≤ src.length := by
        rw [Kpipe.room]
        omega
      exact .inr ⟨σ.pipe.room src, hroom.1, hroom.2, rfl, rfl⟩
  · intro q src' hq
    rcases writing_goto hq with h1 | ⟨-, h1⟩
    · exact h.buffers q src' h1
    · simp at h1

lemma goto_self (σ : PipeSystem) (p : Slot) : σ.goto p (σ.calls p) = σ := by
  simp [PipeSystem.goto]

/-- Where `kpipe_close` goes on behind its first section. -/
def closeNext (c : Kpipe) : Call :=
  if decide (c.writers = 0) && !c.rWaiters.isEmpty then
    .drainReaders (decide (c.readers = 0) && !c.wWaiters.isEmpty)
  else if decide (c.readers = 0) && !c.wWaiters.isEmpty then .drainWriters else .away

lemma runClose_calls (σ : PipeSystem) (p : Slot) (wasRead wasWrite : Bool) :
    (σ.runClose p wasRead wasWrite).calls =
      (σ.goto p (closeNext (pipeDropUser σ.pipe wasRead wasWrite))).calls := rfl

lemma closeNext_drains (c : Kpipe) :
    closeNext c = .away ∨ (∃ b, closeNext c = .drainReaders b) ∨ closeNext c = .drainWriters := by
  unfold closeNext
  split_ifs
  · exact .inr (.inl ⟨_, rfl⟩)
  · exact .inr (.inr rfl)
  · exact .inl rfl

theorem fifo_step {e : PipeEvent} (h : Fifo σ) (hs : σ.step e = some σ') : Fifo σ' := by
  cases PipeSystem.step_cases hs with
  | start ha hc =>
    apply h.moved rfl rfl rfl rfl (.inl rfl)
    intro src hsrc
    rcases hsrc with rfl | rfl | rfl
    · exact .inr (by simpa [Call.starts] using hc)
    · simp [Call.starts] at hc
    · simp [Call.starts] at hc
  | take => exact fifo_take h _ _
  | empty _ _ hc =>
    apply h.moved rfl rfl rfl rfl (.inl rfl)
    rcases hc with rfl | rfl <;> simp
  | store hp _ hsize =>
    apply fifo_store h _ hsize
    rcases hp with hp | ⟨hp, -⟩
    · exact .inl hp
    · exact .inr (.inr hp)
  | epipe => exact h.moved rfl rfl rfl rfl (.inr ⟨_, rfl⟩) (by simp)
  | full hp =>
    apply h.moved rfl rfl rfl rfl (.inl rfl)
    intro src hsrc
    left
    rcases hsrc with h1 | h1 | h1
    · cases h1
    · cases h1
      rcases hp with hp | ⟨hp, -⟩
      · exact .inl hp
      · exact .inr (.inr hp)
    · cases h1
  | @close p wasRead wasWrite =>
    have hc := closeNext_drains (pipeDropUser σ.pipe wasRead wasWrite)
    apply h.moved (runClose_calls σ p wasRead wasWrite) rfl rfl rfl (.inl rfl)
    rcases hc with hc | ⟨b, hc⟩ | hc <;> simp [hc]
  | @wakeReader p =>
    have hc : σ.calls = (σ.goto p (σ.calls p)).calls := by rw [goto_self]
    exact h.moved hc rfl rfl rfl (.inl rfl) fun src hsrc => .inl hsrc
  | drainedReaders =>
    apply h.moved rfl rfl rfl rfl (.inl rfl)
    intro src hsrc
    split_ifs at hsrc <;> simp at hsrc
  | @wakeWriter p =>
    have hc : σ.calls = (σ.goto p (σ.calls p)).calls := by rw [goto_self]
    exact h.moved hc rfl rfl rfl (.inl rfl) fun src hsrc => .inl hsrc
  | drainedWriters => exact h.moved rfl rfl rfl rfl (.inl rfl) (by simp)
  | retryRead _ hc =>
    apply h.moved rfl rfl rfl rfl (.inl rfl)
    rcases hc with rfl | rfl <;> simp
  | sleepRead => exact h.moved rfl rfl rfl rfl (.inl rfl) (by simp)
  | retryWrite hp =>
    apply h.moved rfl rfl rfl rfl (.inl rfl)
    intro src hsrc
    rcases hsrc with h1 | h1 | h1 <;> cases h1
    exact .inl (.inr (.inl hp))
  | @sleepWrite p src node hp =>
    have hbuf : ∀ src', (Call.writeSleep src = .write src' ∨ Call.writeSleep src = .writeAlloc src' ∨
        Call.writeSleep src = .writeSleep src') → Writing σ p src' ∨ src' ≠ [] := by
      intro src' h1
      rcases h1 with h1 | h1 | h1 <;> cases h1
      exact .inl (.inr (.inl hp))
    exact h.moved rfl rfl rfl rfl (.inl rfl) hbuf
  | noMemory => exact h.moved rfl rfl rfl rfl (.inr ⟨_, rfl⟩) (by simp)

lemma fresh_fifo (h : PipeSystem.Fresh σ) : Fifo σ := by
  obtain ⟨hr, hw, hz⟩ := h.empty
  obtain ⟨hi, ho, hl⟩ := h.history
  refine ⟨⟨by simp [hz], by simp [hr], by simp [hr, hw, hz]⟩, ?_, ?_, ?_, ?_⟩
  · rw [hi, ho]
    simp [CircularBuffer.contents, hz]
  · rw [hi, hl]
    rfl
  · simp [hl]
  · intro p src hp
    unfold Writing at hp
    rw [h.calls] at hp
    simp at hp

/-- Every run of calls on a pipe moves the bytes first in, first out: what the writes copied
in is what the reads copied out followed by the contents of the ring, whose indices stay in
range, and a finished write stored exactly what its result says. -/
theorem pipe_fifo (h : Transition.Reach PipeSystem.Fresh PipeSystem.step (fun _ _ => True) σ) :
    σ.output ++ σ.pipe.ring.contents = σ.input ∧
      (σ.writes.map WriteCall.stored).flatten = σ.input ∧
      σ.pipe.ring.size ≤ pipeCap ∧ σ.pipe.ring.w = (σ.pipe.ring.r + σ.pipe.ring.size) % pipeCap ∧
      ∀ c ∈ σ.writes, WroteExactly c := by
  have hf := h.invariant (fun _ => fresh_fifo) fun _ _ _ hf _ hs => fifo_step hf hs
  exact ⟨hf.queue, hf.stored, hf.ring.size_le, hf.ring.w_eq, hf.exact⟩

/-- A pipe with one reader and one writer, before any call. -/
def samplePipe : PipeSystem where
  pipe := ⟨[], ⟨fun _ => 0, 0, 0, 0⟩, 1, 1, false, [], []⟩
  calls _ := .away
  input := []
  output := []
  writes := []
  noReaders := none
  noWriters := none

lemma samplePipe_fresh : PipeSystem.Fresh samplePipe :=
  ⟨⟨rfl, rfl, rfl⟩, by decide, by decide, rfl, ⟨rfl, rfl⟩, fun _ => rfl, ⟨rfl, rfl, rfl⟩⟩

/-- A reader that blocks, a write of two bytes that wakes it, and its second turn. -/
def sampleCalls : PipeSystem :=
  Transition.final PipeSystem.step (fun _ _ => true) samplePipe
    [.start 1 (.read 1), .run 1, .alloc 1 (some 0), .start 2 (.write [7, 8]), .run 2, .run 1]

theorem pipe_fifo_sample : sampleCalls.output ++ sampleCalls.pipe.ring.contents = sampleCalls.input :=
  (pipe_fifo ((Transition.Reach.final _ samplePipe_fresh (by decide +kernel)).mono
    fun _ _ _ => trivial)).1

end Proofs

end TP2Kernel
