import TP2Kernel.FdCalls
import TP2Kernel.Proofs.Frames

/-!
# The ends of a pipe

A pipe's counters are the numbers of its live files that read and write, except inside a
call that holds a user of its own. A file and a pipe are freed when nothing refers to them
any more. Waking processes does not reach this data as long as no process on the zombie
list still has a descriptor table.
-/

namespace TP2Kernel.Proofs
open Function FdSystem

variable {k k' : Kernel}

/-- Two pipes that differ at most in what they hold and in who waits. -/
def SamePipe (c c' : Kpipe) : Prop :=
  c' = { c with ring := c'.ring, rWaiters := c'.rWaiters, wWaiters := c'.wWaiters }

/-- Two PCBs with the same table, of which the reaper thinks the same. -/
def SameTable (c c' : Pcb) : Prop := c'.fdTable = c.fdTable ∧ reapable c' = reapable c

/-- The files and the descriptor tables are the same. -/
structure SameFiles (k k' : Kernel) : Prop where
  files : k'.files = k.files
  tables : k'.tables = k.tables
  std : k'.stdinFile = k.stdinFile ∧ k'.stdoutFile = k.stdoutFile ∧ k'.stderrFile = k.stderrFile
  next : k.heap.next ≤ k'.heap.next

/-- Nothing happens to the files, and nothing to the pipes that concerns files. -/
structure FdSame (k k' : Kernel) : Prop extends SameFiles k k' where
  buckets : k'.pipeBuckets = k.pipeBuckets
  pipes : ∀ p, SamePipe (k.pipes p) (k'.pipes p)
  freed : ∀ b : Block, b.kind = .file ∨ b.kind = .pipe →
    k'.heap.freed.count b = k.heap.freed.count b

/-- The zombies stay without tables, too. -/
structure FdCalm (k k' : Kernel) : Prop extends FdSame k k' where
  bare : Bare k → Bare k'

lemma SameFiles.refl (k : Kernel) : SameFiles k k := ⟨rfl, rfl, ⟨rfl, rfl, rfl⟩, le_rfl⟩

lemma SameFiles.trans {k'' : Kernel} (h : SameFiles k k') (h' : SameFiles k' k'') :
    SameFiles k k'' :=
  ⟨h'.files.trans h.files, h'.tables.trans h.tables, ⟨h'.std.1.trans h.std.1,
    h'.std.2.1.trans h.std.2.1, h'.std.2.2.trans h.std.2.2⟩, h.next.trans h'.next⟩

lemma FdSame.refl (k : Kernel) : FdSame k k := ⟨.refl k, rfl, fun _ => rfl, fun _ _ => rfl⟩

lemma FdSame.trans {k'' : Kernel} (h : FdSame k k') (h' : FdSame k' k'') : FdSame k k'' := by
  refine ⟨h.toSameFiles.trans h'.toSameFiles, h'.buckets.trans h.buckets, fun p => ?_,
    fun b hb => (h'.freed b hb).trans (h.freed b hb)⟩
  have h1 := h.pipes p
  have h2 := h'.pipes p
  rw [SamePipe] at h1 h2 ⊢
  rw [h2, h1]

lemma FdSame.mem_freed (h : FdSame k k') {b : Block} (hb : b.kind = .file ∨ b.kind = .pipe) :
    b ∈ k'.heap.freed ↔ b ∈ k.heap.freed := by
  rw [← List.count_pos_iff, ← List.count_pos_iff, h.freed b hb]

/-- Writes to the processes and their lists. -/
lemma FdSame.of_same (h : k' = { k with
    procs := k'.procs, queueNext := k'.queueNext, cleanupNext := k'.cleanupNext
    childHead := k'.childHead, siblingNext := k'.siblingNext, zombieHead := k'.zombieHead
    readyHead := k'.readyHead, readyTail := k'.readyTail, current := k'.current }) :
    FdSame k k' := by
  have hs : SameFiles k k' := by
    rw [h]
    exact ⟨rfl, rfl, ⟨rfl, rfl, rfl⟩, le_rfl⟩
  refine ⟨hs, ?_, fun p => ?_, fun b _ => ?_⟩ <;> rw [h]
  rfl

namespace FdCalm

lemma refl (k : Kernel) : FdCalm k k := ⟨.refl k, id⟩

lemma trans {k'' : Kernel} (h : FdCalm k k') (h' : FdCalm k' k'') : FdCalm k k'' :=
  ⟨h.toFdSame.trans h'.toFdSame, fun hb => h'.bare (h.bare hb)⟩

lemma thenIf {c : Prop} [Decidable c] {k'' : Kernel} (h : FdCalm k k') (h' : FdCalm k' k'') :
    FdCalm k (if c then k'' else k') := by
  split
  · exact h.trans h'
  · exact h

/-- Writes to other data that leave the zombie list alone. -/
lemma of_same (h : k' = { k with
    procs := k'.procs, queueNext := k'.queueNext, childHead := k'.childHead
    siblingNext := k'.siblingNext, readyHead := k'.readyHead, readyTail := k'.readyTail
    current := k'.current }) (ht : ∀ p, SameTable (k.procs p) (k'.procs p)) :
    FdCalm k k' := by
  have hb : Bare k → Bare k' := by
    rintro ⟨Z, h1, h2, h3⟩
    refine ⟨Z, fun p hp => ?_, ?_, ?_⟩
    · rw [(ht p).1, (ht p).2]
      exact h1 p hp
    · rw [h]
      exact h2
    · rw [h]
      exact h3
  refine ⟨.of_same ?_, hb⟩
  rw [h]

lemma mmFree (k : Kernel) {b : Block} (hb : ¬(b.kind = .file ∨ b.kind = .pipe)) :
    FdCalm k (k.mmFree b) := by
  refine ⟨⟨⟨rfl, rfl, ⟨rfl, rfl, rfl⟩, le_rfl⟩, rfl, fun _ => rfl, fun c hc => ?_⟩, id⟩
  have hne : b ≠ c := by
    rintro rfl
    exact hb hc
  simp [Kernel.mmFree, hne]

lemma mmFrees (k : Kernel) (bs : List Block) (hb : ∀ b ∈ bs, ¬(b.kind = .file ∨ b.kind = .pipe)) :
    FdCalm k (bs.foldl Kernel.mmFree k) := by
  induction bs generalizing k with
  | nil => exact refl k
  | cons b bs ih =>
    have h1 := mmFree k (hb b (by simp))
    exact h1.trans (ih _ fun c hc => hb c (by simp [hc]))

lemma mmMalloc (k : Kernel) : FdCalm k k.mmMalloc.1 :=
  ⟨⟨⟨rfl, rfl, ⟨rfl, rfl, rfl⟩, Nat.le_succ _⟩, rfl, fun _ => rfl, fun _ _ => rfl⟩, id⟩

lemma modifyPipe (k : Kernel) (p : Nat) (f : Kpipe → Kpipe)
    (hf : SamePipe (k.pipes p) (f (k.pipes p))) : FdCalm k (k.modifyPipe p f) := by
  refine ⟨⟨⟨rfl, rfl, ⟨rfl, rfl, rfl⟩, le_rfl⟩, rfl, fun q => ?_, fun _ _ => rfl⟩, id⟩
  by_cases hq : q = p
  · subst hq
    simpa [Kernel.modifyPipe] using hf
  · simp [Kernel.modifyPipe, hq, SamePipe]

lemma modify (k : Kernel) (p : Slot) (f : Pcb → Pcb)
    (hf : SameTable (k.procs p) (f (k.procs p))) : FdCalm k (k.modify p f) := by
  apply of_same rfl
  intro q
  rw [Kernel.modify_procs]
  split
  · rename_i hq
    rw [hq]
    exact hf
  · exact ⟨rfl, rfl⟩

end FdCalm

lemma fdCalm_qPush (k : Kernel) (p : Slot) : FdCalm k (qPush k p) := by
  unfold qPush
  dsimp only
  split <;> exact .of_same rfl fun _ => ⟨rfl, rfl⟩

lemma fdCalm_schedEnqueue (k : Kernel) (p : Slot) : FdCalm k (schedEnqueue k p) := by
  unfold schedEnqueue
  split
  · have h1 := FdCalm.modify k p
      (fun c => { c with state := .running, ticksLeft := timeSliceTicks }) ⟨rfl, rfl⟩
    exact h1.trans (.of_same rfl fun _ => ⟨rfl, rfl⟩)
  · have h1 := FdCalm.modify k p (fun c => { c with priority := clampPrio c.priority }) ⟨rfl, rfl⟩
    have h2 : FdCalm _ { k.modify p fun c => { c with priority := clampPrio c.priority } with
        queueNext := update k.queueNext p none } := h1.trans (.of_same rfl fun _ => ⟨rfl, rfl⟩)
    have h3 := h2.trans (.modify _ p
      (fun c => { c with state := .ready, ticksLeft := timeSliceTicks, agingTicks := 0 }) ⟨rfl, rfl⟩)
    exact h3.trans (fdCalm_qPush _ p)

lemma fdCalm_unblockTarget (k : Kernel) (pid : Int) : FdCalm k (unblockTarget k pid).1 := by
  unfold unblockTarget
  split
  · exact .refl k
  · rename_i p _
    split
    · exact .refl k
    · split
      · have h1 := FdCalm.modify k p
          (fun c => { c with state := .ready, ticksLeft := timeSliceTicks, agingTicks := 0 }) ⟨rfl, rfl⟩
        exact h1.trans (fdCalm_schedEnqueue _ p)
      · exact .refl k

/-- The zombie list and everything it leads to lies in `Z`, where no process has a table that
it would lose. -/
def BareBy (Z : Slot → Prop) (k : Kernel) : Prop :=
  (∀ p, Z p → (k.procs p).fdTable = none ∨ reapable (k.procs p) = false) ∧
    (∀ p, k.zombieHead = some p → Z p) ∧ ∀ p z, Z p → k.cleanupNext p = some z → Z z

lemma fdCalm_cleanupWaitResults (k : Kernel) (p : Slot) : FdCalm k (cleanupWaitResults k p) := by
  have h1 := FdCalm.mmFrees k
    ((k.procs p).waitRes.map fun r => (⟨.waitResult, r.node⟩ : Block)) fun b hb => by
      obtain ⟨r, -, rfl⟩ := List.mem_map.mp hb
      simp
  unfold cleanupWaitResults
  exact h1.trans (.modify _ p _ ⟨rfl, rfl⟩)

lemma fdCalm_freeKstack (k : Kernel) (p : Slot) : FdCalm k (freeKstack k p) := by
  unfold freeKstack
  split
  · rename_i a _
    have h1 : FdCalm k (k.mmFree ⟨.stack, a⟩) := .mmFree k (by simp)
    exact h1.trans (.modify _ p _ ⟨rfl, rfl⟩)
  · exact .refl k

/-- A step that keeps the tables and the links of the zombie list. -/
lemma BareBy.of_eq {Z : Slot → Prop} (h : BareBy Z k)
    (ht : ∀ p, SameTable (k.procs p) (k'.procs p)) (hz : k'.zombieHead = k.zombieHead)
    (hc : k'.cleanupNext = k.cleanupNext) : BareBy Z k' := by
  obtain ⟨h1, h2, h3⟩ := h
  refine ⟨fun p hp => ?_, ?_, ?_⟩
  · rw [(ht p).1, (ht p).2]
    exact h1 p hp
  · rwa [hz]
  · rwa [hc]

lemma BareBy.modify {Z : Slot → Prop} (h : BareBy Z k) (p : Slot) {f : Pcb → Pcb}
    (hf : ∀ c, SameTable c (f c)) : BareBy Z (k.modify p f) := by
  have ht : ∀ q, SameTable (k.procs q) ((k.modify p f).procs q) := by
    intro q
    rw [Kernel.modify_procs]
    split
    · rename_i hq
      rw [hq]
      exact hf _
    · exact ⟨rfl, rfl⟩
  exact h.of_eq ht rfl rfl

lemma BareBy.cleanupWaitResults {Z : Slot → Prop} (h : BareBy Z k) (p : Slot) :
    BareBy Z (cleanupWaitResults k p) := by
  rw [TP2Kernel.cleanupWaitResults, Kernel.mmFrees_eq]
  apply BareBy.modify
  · exact h
  · exact fun _ => ⟨rfl, rfl⟩

lemma BareBy.freeKstack {Z : Slot → Prop} (h : BareBy Z k) (p : Slot) :
    BareBy Z (freeKstack k p) := by
  unfold TP2Kernel.freeKstack
  split
  · apply BareBy.modify
    · exact h
    · exact fun _ => ⟨rfl, rfl⟩
  · exact h

lemma cleanupWaitResults_fdTable (k : Kernel) (p : Slot) :
    ((cleanupWaitResults k p).procs p).fdTable = (k.procs p).fdTable := by
  rw [cleanupWaitResults, Kernel.mmFrees_eq]
  simp [Kernel.modify]

lemma freeKstack_fdTable (k : Kernel) (p : Slot) :
    ((freeKstack k p).procs p).fdTable = (k.procs p).fdTable := by
  unfold freeKstack
  split
  · simp [Kernel.modify, Kernel.mmFree]
  · rfl

/-- A zombie without a table closes no file. -/
lemma releaseSlot_bare {Z : Slot → Prop} (unblock : Kernel → Int → Kernel) {p : Slot}
    (h : BareBy Z k) (hp : (k.procs p).fdTable = none) :
    FdSame k (releaseSlot unblock k p) ∧ BareBy Z (releaseSlot unblock k p) := by
  unfold releaseSlot
  rw [hp]
  dsimp only
  have h1 := (fdCalm_cleanupWaitResults k p).toFdSame
  have h2 := h.cleanupWaitResults p
  generalize cleanupWaitResults k p = k1 at h1 h2
  have h3 := FdCalm.modify k1 p (fun c => { c with pendingExitValid := false, used := false }) ⟨rfl, rfl⟩
  have h4 : BareBy Z (k1.modify p fun c => { c with pendingExitValid := false, used := false }) :=
    h2.modify p fun _ => ⟨rfl, rfl⟩
  constructor
  · exact (h1.trans h3.toFdSame).trans (.of_same rfl)
  · exact h4

lemma BareBy.relink {Z : Slot → Prop} (h : BareBy Z k) (p : Slot) {x : Option Slot}
    (hx : ∀ z, x = some z → Z z) :
    BareBy Z { k with cleanupNext := update k.cleanupNext p x } := by
  refine ⟨h.1, h.2.1, fun q z hq hz => ?_⟩
  by_cases e : q = p
  · subst e
    exact hx z (by simpa using hz)
  · exact h.2.2 q z hq (by simpa [e] using hz)

lemma collectLoop_bare {Z : Slot → Prop} {unblock : Kernel → Int → Kernel} {n : Nat}
    {cursor pending : Option Slot} (h : BareBy Z k) (hc : ∀ p, cursor = some p → Z p)
    (hp : ∀ p, pending = some p → Z p) :
    FdSame k (collectLoop unblock n cursor pending k) ∧
      BareBy Z (collectLoop unblock n cursor pending k) := by
  induction n generalizing cursor pending k with
  | zero => exact ⟨.of_same rfl, h.1, hp, h.2.2⟩
  | succ n ih =>
    cases cursor with
    | none => exact ⟨.of_same rfl, h.1, hp, h.2.2⟩
    | some p =>
      have hZ := hc p rfl
      have hnext : ∀ z, k.cleanupNext p = some z → Z z := fun z hz => h.2.2 p z hZ hz
      have h1 : FdSame k { k with cleanupNext := update k.cleanupNext p none } :=
        .of_same rfl
      have h2 := h.relink p (x := none) fun _ e => by cases e
      simp only [collectLoop]
      split
      · have h3 := h1.trans (fdCalm_freeKstack _ p).toFdSame
        have h4 := h3.trans (fdCalm_cleanupWaitResults _ p).toFdSame
        have ht : ((cleanupWaitResults (freeKstack { k with
            cleanupNext := update k.cleanupNext p none } p) p).procs p).fdTable = none := by
          rw [cleanupWaitResults_fdTable, freeKstack_fdTable]
          exact (h.1 p hZ).resolve_right (by simp [*])
        obtain ⟨h5, h6⟩ := releaseSlot_bare unblock ((h2.freeKstack p).cleanupWaitResults p) ht
        obtain ⟨h7, h8⟩ := ih h6 hnext hp
        exact ⟨(h4.trans h5).trans h7, h8⟩
      · have h3 := h2.relink p hp
        have hp' : ∀ z, some p = some z → Z z := by
          intro z e
          cases e
          exact hZ
        obtain ⟨h4, h5⟩ := ih h3 hnext hp'
        exact ⟨(h1.trans (.of_same rfl)).trans h4, h5⟩

/-- Waking through `unblock` reaches no file and no counter. -/
def WakesCalmly (unblock : Kernel → Int → Kernel) : Prop :=
  ∀ k, Bare k → ∀ pid, FdCalm k (unblock k pid)

theorem fdCalm_wake : WakesCalmly wake := by
  intro k hb pid
  obtain ⟨Z, hZ⟩ := hb
  have h1 : FdSame k (collectZombies k) ∧ BareBy Z (collectZombies k) :=
    collectLoop_bare hZ hZ.2.1 fun _ e => by cases e
  have h2 : FdCalm k (collectZombies k) := ⟨h1.1, fun _ => ⟨Z, h1.2⟩⟩
  exact h2.trans (fdCalm_unblockTarget _ pid)

/-- The number of live files on a pipe with the right `r`. -/
def endCount (k : Kernel) (p : Nat) (r : File → Bool) : Nat :=
  ((liveFiles k p).filter fun f => r (k.files f)).card

/-- A user of a pipe that no file stands for yet, or no longer: the pipe, and whether its
readers and its writers still count this user. -/
abbrev PipeUser := Nat × Bool × Bool

/-- What the user `e` adds to a counter of the pipe `p`. -/
def owes (e : Option PipeUser) (right : PipeUser → Bool) (p : Nat) : Nat :=
  if ∃ x, e = some x ∧ x.1 = p ∧ right x = true then 1 else 0

/-- The counters of the pipes match the live files, except for the user `e`; files and pipes
have been freed exactly when they have no reference left, except for the file `d`. -/
structure PipesOwing (d : Option Nat) (e : Option PipeUser) (k : Kernel) : Prop where
  newFile : ∀ f, k.heap.next ≤ f → (k.files f).ptr = .tty ∧ (k.files f).refcount = 0
  pos : ∀ f, 0 ≤ (k.files f).refcount
  file : ∀ f p, (k.files f).ptr = .pipe p → p < k.heap.next ∧
    ((k.files f).canRead = true ∨ (k.files f).canWrite = true)
  owed : ∀ x, e = some x → x.1 < k.heap.next
  readers : ∀ p, (k.pipes p).readers =
    (endCount k p File.canRead + owes e (fun x => x.2.1) p : Nat)
  writers : ∀ p, (k.pipes p).writers =
    (endCount k p File.canWrite + owes e (fun x => x.2.2) p : Nat)
  fileOnce : ∀ f, k.heap.freed.count ⟨.file, f⟩ ≤ 1
  fileFreed : ∀ f, ⟨.file, f⟩ ∈ k.heap.freed ↔
    (k.files f).ptr ≠ .tty ∧ (k.files f).refcount = 0 ∧ d ≠ some f
  pipeOnce : ∀ p, k.heap.freed.count ⟨.pipe, p⟩ ≤ 1
  pipeFreed : ∀ p, ⟨.pipe, p⟩ ∈ k.heap.freed ↔
    (k.pipes p).unlinked = true ∧ liveFiles k p = ∅ ∧ ∀ x, e = some x → x.1 ≠ p
  newPipe : ∀ p, k.heap.next ≤ p → (k.pipes p).unlinked = false
  bucket : ∀ b, ∀ p ∈ k.pipeBuckets b, p < k.heap.next ∧ (k.pipes p).unlinked = false
  nodup : ∀ b, (k.pipeBuckets b).Nodup
  apart : ∀ b b' p, p ∈ k.pipeBuckets b → p ∈ k.pipeBuckets b' → b = b'
  bare : Bare k

section Ends

variable {d : Option Nat} {e : Option PipeUser} {p : Nat}

lemma mem_liveFiles {f : Nat} : f ∈ liveFiles k p ↔
    f < k.heap.next ∧ (k.files f).ptr = .pipe p ∧ 0 < (k.files f).refcount := by
  rw [liveFiles, Finset.mem_filter, Finset.mem_range]

lemma PipesOwing.mem_live (h : PipesOwing d e k) {f : Nat} : f ∈ liveFiles k p ↔
    (k.files f).ptr = .pipe p ∧ 0 < (k.files f).refcount := by
  rw [mem_liveFiles, and_iff_right_iff_imp]
  intro hf
  by_contra hn
  have := (h.newFile f (not_lt.mp hn)).2
  omega

/-- Allocations do not change which files live. -/
lemma PipesOwing.live_congr (h : PipesOwing d e k) (hs : SameFiles k k') (p : Nat) :
    liveFiles k' p = liveFiles k p := by
  ext f
  rw [h.mem_live, mem_liveFiles, hs.files]
  constructor
  · exact fun hf => hf.2
  · intro hf
    exact ⟨(mem_liveFiles.mp (h.mem_live.mpr hf)).1.trans_le hs.next, hf⟩

lemma PipesOwing.endCount_congr (h : PipesOwing d e k) (hs : SameFiles k k') (p : Nat)
    (r : File → Bool) : endCount k' p r = endCount k p r := by
  rw [endCount, endCount, h.live_congr hs, hs.files]

lemma owes_none (right : PipeUser → Bool) (p : Nat) : owes none right p = 0 := by simp [owes]

lemma owes_some (x : PipeUser) (right : PipeUser → Bool) (p : Nat) :
    owes (some x) right p = if x.1 = p ∧ right x = true then 1 else 0 := by simp [owes]

/-- A pipe that counts no user has no live file, and the other way round. -/
lemma PipesOwing.unused_iff (h : PipesOwing d e k) (p : Nat)
    (he : owes e (fun x => x.2.1) p = 0 ∧ owes e (fun x => x.2.2) p = 0) :
    (k.pipes p).readers = 0 ∧ (k.pipes p).writers = 0 ↔ liveFiles k p = ∅ := by
  rw [h.readers, h.writers, he.1, he.2, endCount, endCount]
  constructor
  · rintro ⟨h1, h2⟩
    rw [Finset.eq_empty_iff_forall_notMem]
    intro f hf
    rcases (h.file f p (mem_liveFiles.mp hf).2.1).2 with hr | hr
    · have hpos : 0 < ((liveFiles k p).filter fun f => (k.files f).canRead).card :=
        Finset.card_pos.mpr ⟨f, Finset.mem_filter.mpr ⟨hf, hr⟩⟩
      omega
    · have hpos : 0 < ((liveFiles k p).filter fun f => (k.files f).canWrite).card :=
        Finset.card_pos.mpr ⟨f, Finset.mem_filter.mpr ⟨hf, hr⟩⟩
      omega
  · intro hl
    rw [hl]
    simp

/-- Calls that do not reach the files. -/
lemma PipesOwing.calm (h : PipesOwing d e k) (hc : FdCalm k k') : PipesOwing d e k' := by
  have hs := hc.toSameFiles
  have hn := hs.next
  have hp : ∀ p, (k'.pipes p).readers = (k.pipes p).readers ∧
      (k'.pipes p).writers = (k.pipes p).writers ∧
      (k'.pipes p).unlinked = (k.pipes p).unlinked := by
    intro p
    rw [hc.pipes p]
    exact ⟨rfl, rfl, rfl⟩
  constructor
  · intro f hf
    rw [hs.files]
    exact h.newFile f (hn.trans hf)
  · intro f
    rw [hs.files]
    exact h.pos f
  · intro f p hf
    rw [hs.files] at hf ⊢
    exact ⟨(h.file f p hf).1.trans_le hn, (h.file f p hf).2⟩
  · exact fun x hx => (h.owed x hx).trans_le hn
  · intro p
    rw [(hp p).1, h.endCount_congr hs]
    exact h.readers p
  · intro p
    rw [(hp p).2.1, h.endCount_congr hs]
    exact h.writers p
  · intro f
    rw [hc.freed _ (.inl rfl)]
    exact h.fileOnce f
  · intro f
    rw [hc.mem_freed (.inl rfl), hs.files]
    exact h.fileFreed f
  · intro p
    rw [hc.freed _ (.inr rfl)]
    exact h.pipeOnce p
  · intro p
    rw [hc.mem_freed (.inr rfl), (hp p).2.2, h.live_congr hs]
    exact h.pipeFreed p
  · intro p hle
    rw [(hp p).2.2]
    exact h.newPipe p (hn.trans hle)
  · intro b p hm
    rw [(hp p).2.2]
    rw [hc.buckets] at hm
    exact ⟨(h.bucket b p hm).1.trans_le hn, (h.bucket b p hm).2⟩
  · rw [hc.buckets]
    exact h.nodup
  · rw [hc.buckets]
    exact h.apart
  · exact hc.bare h.bare

/-- A waiter is taken from its queue and woken. -/
lemma fdCalm_dequeue {unblock : Kernel → Int → Kernel} (hu : WakesCalmly unblock) (hb : Bare k)
    (p : Nat) {c : Kpipe} (w : Waiter) (pid : Int) (hc : SamePipe (k.pipes p) c) :
    FdCalm k (unblock ((k.modifyPipe p fun _ => c).mmFree ⟨.pipeWaiter, w.node⟩) pid) := by
  have h1 : FdCalm k (k.modifyPipe p fun _ => c) := .modifyPipe k p _ hc
  have h2 := h1.trans (.mmFree _ (b := ⟨.pipeWaiter, w.node⟩) (by simp))
  exact h2.trans (hu _ (h2.bare hb) pid)

lemma fdCalm_drainReaders {unblock : Kernel → Int → Kernel} (hu : WakesCalmly unblock) (hb : Bare k)
    (p n : Nat) : FdCalm k (drainReaders unblock p n k) := by
  induction n generalizing k with
  | zero => exact .refl k
  | succ n ih =>
    rw [drainReaders, Kpipe.dequeueReader]
    cases (k.pipes p).rWaiters with
    | nil => exact .refl k
    | cons w ws =>
      have hw := fun pid => fdCalm_dequeue hu hb p (c := { k.pipes p with rWaiters := ws }) w pid rfl
      exact (hw _).trans (ih ((hw _).bare hb))

lemma fdCalm_drainWriters {unblock : Kernel → Int → Kernel} (hu : WakesCalmly unblock) (hb : Bare k)
    (p n : Nat) : FdCalm k (drainWriters unblock p n k) := by
  induction n generalizing k with
  | zero => exact .refl k
  | succ n ih =>
    rw [drainWriters, Kpipe.dequeueWriter]
    cases (k.pipes p).wWaiters with
    | nil => exact .refl k
    | cons w ws =>
      have hw := fun pid => fdCalm_dequeue hu hb p (c := { k.pipes p with wWaiters := ws }) w pid rfl
      exact (hw _).trans (ih ((hw _).bare hb))

/-- The waiting nodes of a pipe, and the pipe itself, are freed. -/
lemma PipesOwing.free (h : PipesOwing d (some (p, false, false)) k)
    (hu : (k.pipes p).unlinked = true) (hl : liveFiles k p = ∅) :
    PipesOwing d none (pipeFree k p) := by
  have hc : FdCalm k ((((k.pipes p).rWaiters ++ (k.pipes p).wWaiters).map fun w =>
      (⟨.pipeWaiter, w.node⟩ : Block)).foldl Kernel.mmFree k) := by
    apply FdCalm.mmFrees
    intro b hb
    obtain ⟨w, -, rfl⟩ := List.mem_map.mp hb
    simp
  have hu' := hc.pipes p
  have hl' := h.live_congr hc.toSameFiles p
  have h1 := h.calm hc
  unfold pipeFree
  dsimp only
  generalize List.foldl Kernel.mmFree k _ = k1 at *
  have hu1 : (k1.pipes p).unlinked = true := by rw [hu', hu]
  have hl1 : liveFiles k1 p = ∅ := by rw [hl', hl]
  have hn : (⟨.pipe, p⟩ : Block) ∉ k1.heap.freed := by
    rw [h1.pipeFreed]
    exact fun hx => hx.2.2 _ rfl rfl
  refine { h1 with
    owed := fun _ hx => by cases hx
    readers := fun q => ?_, writers := fun q => ?_
    fileOnce := fun f => ?_, fileFreed := fun f => ?_
    pipeOnce := fun q => ?_, pipeFreed := fun q => ?_ }
  · change (k1.pipes q).readers = (endCount k1 q File.canRead + owes none _ q : Nat)
    rw [h1.readers q, owes_some, owes_none]
    simp
  · change (k1.pipes q).writers = (endCount k1 q File.canWrite + owes none _ q : Nat)
    rw [h1.writers q, owes_some, owes_none]
    simp
  · have := h1.fileOnce f
    simpa [Kernel.mmFree] using this
  · have := h1.fileFreed f
    simpa [Kernel.mmFree] using this
  · by_cases hq : p = q
    · subst hq
      simp [Kernel.mmFree, List.count_eq_zero_of_not_mem hn]
    · have := h1.pipeOnce q
      simpa [Kernel.mmFree, hq] using this
  · change _ ↔ (k1.pipes q).unlinked = true ∧ liveFiles k1 q = ∅ ∧ _
    by_cases hq : p = q
    · subst hq
      simp [Kernel.mmFree, hu1, hl1]
    · have := h1.pipeFreed q
      simpa [Kernel.mmFree, hq, Ne.symm hq] using this

/-- The user `e` leaves the counters of its pipe. -/
lemma PipesOwing.drop {rd wr : Bool} (h : PipesOwing d (some (p, rd, wr)) k) :
    PipesOwing d (some (p, false, false)) (k.modifyPipe p fun c => pipeDropUser c rd wr) := by
  have hr := h.readers
  have hw := h.writers
  simp only [owes_some] at hr hw
  have hpipe : ∀ q, q ≠ p →
      (k.modifyPipe p fun c => pipeDropUser c rd wr).pipes q = k.pipes q := fun q hq => by
    simp [Kernel.modifyPipe, hq]
  have hself : (k.modifyPipe p fun c => pipeDropUser c rd wr).pipes p =
      pipeDropUser (k.pipes p) rd wr := by simp [Kernel.modifyPipe]
  have hu : ∀ q, ((k.modifyPipe p fun c => pipeDropUser c rd wr).pipes q).unlinked =
      (k.pipes q).unlinked := by
    intro q
    by_cases hq : q = p
    · rw [hq, hself, pipeDropUser]
    · rw [hpipe q hq]
  refine { h with
    owed := fun x hx => ?_
    readers := fun q => ?_, writers := fun q => ?_
    pipeFreed := fun q => ?_
    newPipe := fun q hq => (hu q).trans (h.newPipe q hq)
    bucket := fun b q hm => ⟨(h.bucket b q hm).1, (hu q).trans (h.bucket b q hm).2⟩ }
  · cases hx
    exact h.owed (p, rd, wr) rfl
  · change _ = ((endCount k q File.canRead + _ : Nat) : Int)
    rw [owes_some]
    by_cases hq : q = p
    · subst hq
      have := hr q
      rw [hself, pipeDropUser]
      cases rd <;> simp at this ⊢ <;> omega
    · have := hr q
      rw [hpipe q hq]
      simpa [Ne.symm hq] using this
  · change _ = ((endCount k q File.canWrite + _ : Nat) : Int)
    rw [owes_some]
    by_cases hq : q = p
    · subst hq
      have := hw q
      rw [hself, pipeDropUser]
      cases wr <;> simp at this ⊢ <;> omega
    · have := hw q
      rw [hpipe q hq]
      simpa [Ne.symm hq] using this
  · change (⟨.pipe, q⟩ : Block) ∈ k.heap.freed ↔ _ ∧ liveFiles k q = ∅ ∧ _
    rw [hu, h.pipeFreed]
    simp

/-- A pipe that counts no user any more is freed if it is unlinked. -/
lemma PipesOwing.settle (h : PipesOwing d (some (p, false, false)) k) :
    PipesOwing d none (if (k.pipes p).unlinked && decide ((k.pipes p).readers = 0) &&
      decide ((k.pipes p).writers = 0) then pipeFree k p else k) := by
  have hunused := h.unused_iff p ⟨by simp [owes_some], by simp [owes_some]⟩
  split
  · rename_i hc
    simp only [Bool.and_eq_true, decide_eq_true_eq] at hc
    exact h.free hc.1.1 (hunused.mp ⟨hc.1.2, hc.2⟩)
  · rename_i hc
    simp only [Bool.and_eq_true, decide_eq_true_eq, not_and] at hc
    refine { h with
      owed := fun _ hx => by cases hx
      readers := fun q => ?_, writers := fun q => ?_, pipeFreed := fun q => ?_ }
    · rw [h.readers q, owes_some, owes_none]
      simp
    · rw [h.writers q, owes_some, owes_none]
      simp
    · rw [h.pipeFreed]
      by_cases hq : p = q
      · subst hq
        simp only [Option.some.injEq]
        constructor
        · exact fun hx => absurd rfl (hx.2.2 _ rfl)
        · intro hx
          have hz := hunused.mpr hx.2.1
          exact absurd hz.2 (hc ⟨hx.1, hz.1⟩)
      · simp [hq]

lemma sameFiles_pipeFree (k : Kernel) (p : Nat) : SameFiles k (pipeFree k p) := by
  rw [pipeFree, Kernel.mmFrees_eq]
  exact ⟨rfl, rfl, ⟨rfl, rfl, rfl⟩, le_rfl⟩

/-- `kpipe_close` ends the use of `e`. -/
theorem PipesOwing.kpipeClose {unblock : Kernel → Int → Kernel} (hu : WakesCalmly unblock)
    {rd wr : Bool} (h : PipesOwing d (some (p, rd, wr)) k) :
    SameFiles k (kpipeClose unblock k p rd wr) ∧
      PipesOwing d none (kpipeClose unblock k p rd wr) := by
  have h1 := h.drop
  have hs1 : SameFiles k (k.modifyPipe p fun c => pipeDropUser c rd wr) :=
    ⟨rfl, rfl, ⟨rfl, rfl, rfl⟩, le_rfl⟩
  unfold TP2Kernel.kpipeClose
  dsimp only
  generalize k.modifyPipe p (fun c => pipeDropUser c rd wr) = k1 at h1 hs1
  have hc2 : FdCalm k1 (if (decide ((k1.pipes p).writers = 0) && !(k1.pipes p).rWaiters.isEmpty) =
      true then drainReaders unblock p (k1.pipes p).rWaiters.length k1 else k1) :=
    (FdCalm.refl k1).thenIf (fdCalm_drainReaders hu h1.bare p _)
  generalize (if (decide ((k1.pipes p).writers = 0) && !(k1.pipes p).rWaiters.isEmpty) = true then
    drainReaders unblock p (k1.pipes p).rWaiters.length k1 else k1) = k2 at hc2 ⊢
  have hc3 : FdCalm k1 (if (decide ((k1.pipes p).readers = 0) && !(k1.pipes p).wWaiters.isEmpty) =
      true then drainWriters unblock p (k2.pipes p).wWaiters.length k2 else k2) :=
    hc2.thenIf (fdCalm_drainWriters hu (hc2.bare h1.bare) p _)
  generalize (if (decide ((k1.pipes p).readers = 0) && !(k1.pipes p).wWaiters.isEmpty) = true then
    drainWriters unblock p (k2.pipes p).wWaiters.length k2 else k2) = k3 at hc3 ⊢
  have hp : (k1.pipes p).unlinked = (k3.pipes p).unlinked ∧
      (k1.pipes p).readers = (k3.pipes p).readers ∧
      (k1.pipes p).writers = (k3.pipes p).writers := by
    rw [hc3.pipes p]
    exact ⟨rfl, rfl, rfl⟩
  rw [hp.1, hp.2.1, hp.2.2]
  refine ⟨?_, (h1.calm hc3).settle⟩
  split
  · exact (hs1.trans hc3.toSameFiles).trans (sameFiles_pipeFree k3 p)
  · exact hs1.trans hc3.toSameFiles

/-- The reference counts change by `x`. -/
structure Recounted (x : Nat → Int) (k k' : Kernel) : Prop where
  refcount : ∀ f, (k'.files f).refcount = (k.files f).refcount + x f
  ptr : ∀ f, (k'.files f).ptr = (k.files f).ptr
  tables : k'.tables = k.tables
  std : k'.stdinFile = k.stdinFile ∧ k'.stdoutFile = k.stdoutFile ∧ k'.stderrFile = k.stderrFile
  next : k.heap.next ≤ k'.heap.next

/-- One reference to `f`. -/
def oneRef (f g : Nat) : Int := if g = f then 1 else 0

/-- A write to a live file that keeps it alive. -/
lemma PipesOwing.recount (h : PipesOwing d e k) {f : Nat} {n : Int}
    (hf : 0 < (k.files f).refcount) (hn : 0 < n) :
    PipesOwing d e (k.modifyFile f fun c => { c with refcount := n }) := by
  have hfile : ∀ g, ∃ m, (k.modifyFile f fun c => { c with refcount := n }).files g =
      { k.files g with refcount := m } ∧ (0 ≤ (k.files g).refcount → 0 ≤ m) ∧
        (0 < m ↔ 0 < (k.files g).refcount) := by
    intro g
    by_cases hg : g = f
    · subst hg
      exact ⟨n, by simp [Kernel.modifyFile], fun _ => hn.le, by simp [hn, hf]⟩
    · exact ⟨(k.files g).refcount, by simp [Kernel.modifyFile, hg], id, Iff.rfl⟩
  have hlive : ∀ p, liveFiles (k.modifyFile f fun c => { c with refcount := n }) p =
      liveFiles k p := by
    intro p
    ext g
    obtain ⟨m, hg, -, hm⟩ := hfile g
    rw [mem_liveFiles, mem_liveFiles, hg]
    simp only [hm]
    rfl
  have hcount : ∀ p r, (∀ c m, r { c with refcount := m } = r c) →
      endCount (k.modifyFile f fun c => { c with refcount := n }) p r = endCount k p r := by
    intro p r hr
    rw [endCount, endCount, hlive]
    congr 1
    apply Finset.filter_congr
    intro g _
    obtain ⟨m, hg, -⟩ := hfile g
    rw [hg, hr]
  refine { h with
    newFile := fun g hg => ?_, pos := fun g => ?_, file := fun g p hp => ?_
    readers := fun p => ?_, writers := fun p => ?_, fileFreed := fun g => ?_
    pipeFreed := fun p => ?_ }
  · obtain ⟨m, e, hpos, hm⟩ := hfile g
    have := h.newFile g hg
    have := hpos (h.pos g)
    rw [e]
    exact ⟨by tauto, by dsimp only; omega⟩
  · obtain ⟨m, e, hpos, -⟩ := hfile g
    rw [e]
    exact hpos (h.pos g)
  · obtain ⟨m, e, -⟩ := hfile g
    rw [e] at hp ⊢
    exact h.file g p hp
  · rw [hcount p _ fun _ _ => rfl]
    exact h.readers p
  · rw [hcount p _ fun _ _ => rfl]
    exact h.writers p
  · obtain ⟨m, e, hpos, hm⟩ := hfile g
    have h1 := h.pos g
    have h2 := hpos h1
    have hz : m = 0 ↔ (k.files g).refcount = 0 := by omega
    rw [e]
    dsimp only
    rw [hz]
    exact h.fileFreed g
  · rw [hlive]
    exact h.pipeFreed p

lemma endCount_erase {f : Nat} {r : File → Bool} (hf : f ∈ liveFiles k p)
    (hr : ∀ c m, r { c with refcount := m } = r c)
    (hl : liveFiles k' p = (liveFiles k p).erase f)
    (hfiles : ∀ g, ∃ m, k'.files g = { k.files g with refcount := m }) :
    endCount k p r = endCount k' p r + if r (k.files f) = true then 1 else 0 := by
  have hset : (liveFiles k' p).filter (fun g => r (k'.files g) = true) =
      ((liveFiles k p).filter fun g => r (k.files g) = true).erase f := by
    rw [hl]
    ext g
    obtain ⟨m, hg⟩ := hfiles g
    simp only [Finset.mem_filter, Finset.mem_erase, hg, hr]
    tauto
  rw [endCount, endCount, hset]
  split
  · rename_i hc
    have hm : f ∈ (liveFiles k p).filter fun g => r (k.files g) = true :=
      Finset.mem_filter.mpr ⟨hf, hc⟩
    rw [Finset.card_erase_of_mem hm]
    have := Finset.card_pos.mpr ⟨f, hm⟩
    omega
  · rename_i hc
    have hm : f ∉ (liveFiles k p).filter fun g => r (k.files g) = true :=
      fun hm => hc (Finset.mem_filter.mp hm).2
    rw [Finset.erase_eq_of_notMem hm]
    rfl

/-- The last reference to a file on a pipe goes. -/
lemma PipesOwing.lastRef (h : PipesOwing none none k) {f : Nat}
    (hf : (k.files f).refcount = 1) (hp : (k.files f).ptr = .pipe p) :
    PipesOwing (some f) (some (p, (k.files f).canRead, (k.files f).canWrite))
      (k.modifyFile f fun c => { c with refcount := 0 }) := by
  have hlive : f ∈ liveFiles k p := h.mem_live.mpr ⟨hp, by omega⟩
  have hfile : ∀ g, ∃ m, (k.modifyFile f fun c => { c with refcount := 0 }).files g =
      { k.files g with refcount := m } ∧
        m = if g = f then 0 else (k.files g).refcount := by
    intro g
    by_cases hg : g = f
    · subst hg
      exact ⟨0, by simp [Kernel.modifyFile], by simp⟩
    · exact ⟨(k.files g).refcount, by simp [Kernel.modifyFile, hg], by simp [hg]⟩
  have hfiles : ∀ g, ∃ m, (k.modifyFile f fun c => { c with refcount := 0 }).files g =
      { k.files g with refcount := m } := fun g => (hfile g).imp fun _ hm => hm.1
  have herase : ∀ q, liveFiles (k.modifyFile f fun c => { c with refcount := 0 }) q =
      (liveFiles k q).erase f := by
    intro q
    ext g
    obtain ⟨m, e, hm⟩ := hfile g
    rw [Finset.mem_erase, mem_liveFiles, mem_liveFiles, e]
    change g < k.heap.next ∧ _ ∧ 0 < m ↔ _
    rw [hm]
    split <;> simp [*]
  have hother : ∀ q, q ≠ p → liveFiles (k.modifyFile f fun c => { c with refcount := 0 }) q =
      liveFiles k q := by
    intro q hq
    rw [herase, Finset.erase_eq_of_notMem]
    intro hm
    rw [mem_liveFiles, hp] at hm
    exact hq (FilePtr.pipe.inj hm.2.1).symm
  have hcount : ∀ q (r : File → Bool), (∀ c m, r { c with refcount := m } = r c) →
      endCount k q r = endCount (k.modifyFile f fun c => { c with refcount := 0 }) q r +
        if p = q ∧ r (k.files f) = true then 1 else 0 := by
    intro q r hr
    by_cases hq : p = q
    · subst hq
      simp only [true_and]
      exact endCount_erase hlive hr (herase p) hfiles
    · simp only [hq, false_and, if_false, add_zero]
      rw [endCount, endCount, hother q (Ne.symm hq)]
      congr 1
      apply Finset.filter_congr
      intro g _
      obtain ⟨m, e, -⟩ := hfile g
      have hrm : r { k.files g with refcount := m } = r (k.files g) := hr _ m
      rw [e, hrm]
  refine { h with
    newFile := fun g hg => ?_, pos := fun g => ?_, file := fun g q hq => ?_, owed := fun x hx => ?_
    readers := fun q => ?_, writers := fun q => ?_, fileFreed := fun g => ?_
    pipeFreed := fun q => ?_ }
  · obtain ⟨m, e, hm⟩ := hfile g
    have hnew := h.newFile g hg
    rw [e]
    refine ⟨hnew.1, ?_⟩
    dsimp only
    rw [hm, hnew.2]
    split <;> rfl
  · obtain ⟨m, e, hm⟩ := hfile g
    rw [e]
    dsimp only
    rw [hm]
    split
    · rfl
    · exact h.pos g
  · obtain ⟨m, e, -⟩ := hfile g
    rw [e] at hq ⊢
    exact h.file g q hq
  · cases hx
    exact (h.file f p hp).1
  · rw [owes_some]
    have := h.readers q
    rw [hcount q File.canRead fun _ _ => rfl, owes_none, add_zero] at this
    exact this
  · rw [owes_some]
    have := h.writers q
    rw [hcount q File.canWrite fun _ _ => rfl, owes_none, add_zero] at this
    exact this
  · obtain ⟨m, e, hm⟩ := hfile g
    rw [e]
    change (⟨.file, g⟩ : Block) ∈ k.heap.freed ↔ _
    rw [h.fileFreed g]
    dsimp only
    by_cases hg : g = f
    · subst hg
      simp [hf]
    · simp [hm, hg, Ne.symm hg]
  · change (⟨.pipe, q⟩ : Block) ∈ k.heap.freed ↔ (k.pipes q).unlinked = true ∧ _
    rw [h.pipeFreed q]
    by_cases hq : q = p
    · subst hq
      have hne : liveFiles k q ≠ ∅ := Finset.ne_empty_of_mem hlive
      simp [hne]
    · simp [hother q hq, Ne.symm hq]

/-- The block of a file without references is freed. -/
lemma PipesOwing.freeFile {f : Nat} (h : PipesOwing (some f) none k)
    (hf : (k.files f).ptr ≠ .tty ∧ (k.files f).refcount = 0) :
    PipesOwing none none (k.mmFree ⟨.file, f⟩) := by
  have hn : (⟨.file, f⟩ : Block) ∉ k.heap.freed := by
    rw [h.fileFreed]
    exact fun hx => hx.2.2 rfl
  refine { h with
    fileOnce := fun g => ?_, fileFreed := fun g => ?_, pipeOnce := fun q => ?_
    pipeFreed := fun q => ?_ }
  · by_cases hg : f = g
    · subst hg
      simp [Kernel.mmFree, List.count_eq_zero_of_not_mem hn]
    · have := h.fileOnce g
      simpa [Kernel.mmFree, hg] using this
  · change _ ↔ (k.files g).ptr ≠ .tty ∧ (k.files g).refcount = 0 ∧ _
    by_cases hg : f = g
    · subst hg
      simp [Kernel.mmFree, hf]
    · have := h.fileFreed g
      simpa [Kernel.mmFree, hg, Ne.symm hg] using this
  · have := h.pipeOnce q
    simpa [Kernel.mmFree] using this
  · change _ ↔ (k.pipes q).unlinked = true ∧ liveFiles k q = ∅ ∧ _
    have := h.pipeFreed q
    simpa [Kernel.mmFree] using this

lemma recounted_modifyFile (k : Kernel) (f : Nat) (n : Int) :
    Recounted (fun g => n * oneRef f g) k
      (k.modifyFile f fun c => { c with refcount := c.refcount + n }) := by
  refine ⟨fun g => ?_, fun g => ?_, rfl, ⟨rfl, rfl, rfl⟩, le_rfl⟩
  · by_cases hg : g = f
    · subst hg
      simp [Kernel.modifyFile, oneRef]
    · simp [Kernel.modifyFile, oneRef, hg]
  · by_cases hg : g = f
    · subst hg
      simp [Kernel.modifyFile]
    · simp [Kernel.modifyFile, hg]

lemma Recounted.same {x : Nat → Int} {k'' : Kernel} (h : Recounted x k k')
    (hs : SameFiles k' k'') : Recounted x k k'' := by
  refine ⟨fun f => ?_, fun f => ?_, hs.tables.trans h.tables, ⟨hs.std.1.trans h.std.1,
    hs.std.2.1.trans h.std.2.1, hs.std.2.2.trans h.std.2.2⟩, h.next.trans hs.next⟩
  · rw [hs.files]
    exact h.refcount f
  · rw [hs.files]
    exact h.ptr f

/-- `file_release`. The terminal is never closed. -/
theorem PipesOwing.fileRelease {unblock : Kernel → Int → Kernel} (hu : WakesCalmly unblock)
    (h : PipesOwing none none k) {f : Nat}
    (hf : 0 < (k.files f).refcount)
    (htty : (k.files f).ptr = .tty → 1 < (k.files f).refcount) :
    Recounted (fun g => -1 * oneRef f g) k (fileRelease unblock k f) ∧
      PipesOwing none none (fileRelease unblock k f) := by
  have hr : Recounted (fun g => -1 * oneRef f g) k
      (k.modifyFile f fun c => { c with refcount := c.refcount - 1 }) :=
    recounted_modifyFile k f (-1)
  unfold TP2Kernel.fileRelease
  dsimp only
  have hself : ((k.modifyFile f fun c => { c with refcount := c.refcount - 1 }).files f).refcount =
      (k.files f).refcount - 1 := by simp [Kernel.modifyFile]
  rw [hself]
  split
  · rename_i hlt
    have h1 := h.recount hf hlt
    have e : (k.modifyFile f fun c => { c with refcount := (k.files f).refcount - 1 }) =
        k.modifyFile f fun c => { c with refcount := c.refcount - 1 } := rfl
    rw [e] at h1
    exact ⟨hr, h1⟩
  · rename_i hle
    have hone : (k.files f).refcount = 1 := by omega
    have hne : (k.files f).ptr ≠ .tty := fun e => by
      have := htty e
      omega
    cases hp : (k.files f).ptr with
    | tty => exact absurd hp hne
    | pipe p =>
      have h1 := h.lastRef hone hp
      have e : (k.modifyFile f fun c => { c with refcount := 0 }) =
          k.modifyFile f fun c => { c with refcount := c.refcount - 1 } := by
        rw [Kernel.modifyFile, Kernel.modifyFile, hone]
        rfl
      rw [e] at h1
      have hk : (k.modifyFile f fun c => { c with refcount := c.refcount - 1 }).files f =
          { k.files f with refcount := (k.files f).refcount - 1 } := by simp [Kernel.modifyFile]
      rw [fileClose, hk, hp]
      dsimp only
      generalize k.modifyFile f (fun c => { c with refcount := c.refcount - 1 }) = k1 at *
      obtain ⟨hs, h2⟩ := h1.kpipeClose hu
      refine ⟨(hr.same hs).same ⟨rfl, rfl, ⟨rfl, rfl, rfl⟩, le_rfl⟩, h2.freeFile ?_⟩
      rw [hs.files, hk, hp, hone]
      simp

/-- `file_ref` of a live file. -/
lemma PipesOwing.fileRef (h : PipesOwing d e k) {f : Nat} (hf : 0 < (k.files f).refcount) :
    Recounted (oneRef f) k (fileRef k f) ∧ PipesOwing d e (fileRef k f) := by
  have hr := recounted_modifyFile k f 1
  simp only [one_mul] at hr
  exact ⟨hr, h.recount hf (n := (k.files f).refcount + 1) (by omega)⟩

lemma findPipe_mem {name : CStr} (h : findPipe k name = some p) :
    p ∈ k.pipeBuckets (pipeHash name) := List.mem_of_find?_eq_some h

/-- One more user of a pipe that is not unlinked. -/
lemma PipesOwing.addUser (h : PipesOwing none none k) (hp : p < k.heap.next)
    (hu : (k.pipes p).unlinked = false) (rd wr : Bool) :
    PipesOwing none (some (p, rd, wr)) (pipeAddUser k p rd wr) := by
  have hpipe : ∀ q, q ≠ p → (pipeAddUser k p rd wr).pipes q = k.pipes q := fun q hq => by
    simp [pipeAddUser, Kernel.modifyPipe, hq]
  have hself : (pipeAddUser k p rd wr).pipes p = { k.pipes p with
      readers := if rd then (k.pipes p).readers + 1 else (k.pipes p).readers
      writers := if wr then (k.pipes p).writers + 1 else (k.pipes p).writers } := by
    simp [pipeAddUser, Kernel.modifyPipe]
  have hun : ∀ q, ((pipeAddUser k p rd wr).pipes q).unlinked = (k.pipes q).unlinked := by
    intro q
    by_cases hq : q = p
    · rw [hq, hself]
    · rw [hpipe q hq]
  refine { h with
    owed := fun x hx => ?_, readers := fun q => ?_, writers := fun q => ?_
    pipeFreed := fun q => ?_
    newPipe := fun q hq => (hun q).trans (h.newPipe q hq)
    bucket := fun b q hm => ⟨(h.bucket b q hm).1, (hun q).trans (h.bucket b q hm).2⟩ }
  · cases hx
    exact hp
  · change _ = ((endCount k q File.canRead + _ : Nat) : Int)
    have hr := h.readers q
    rw [owes_none] at hr
    rw [owes_some]
    by_cases hq : q = p
    · subst hq
      rw [hself]
      cases rd <;> simp at hr ⊢ <;> omega
    · rw [hpipe q hq, hr]
      simp [Ne.symm hq]
  · change _ = ((endCount k q File.canWrite + _ : Nat) : Int)
    have hr := h.writers q
    rw [owes_none] at hr
    rw [owes_some]
    by_cases hq : q = p
    · subst hq
      rw [hself]
      cases wr <;> simp at hr ⊢ <;> omega
    · rw [hpipe q hq, hr]
      simp [Ne.symm hq]
  · change (⟨.pipe, q⟩ : Block) ∈ k.heap.freed ↔ _ ∧ liveFiles k q = ∅ ∧ _
    rw [hun, h.pipeFreed]
    by_cases hq : p = q
    · subst hq
      simp [hu]
    · simp [hq]

/-- The record of a new pipe. -/
def blankPipe (name : CStr) (rd wr : Bool) (c : Kpipe) : Kpipe :=
  { name := pipeNameCopy name
    ring := { c.ring with r := 0, w := 0, size := 0, buf := fun _ => 0 }
    readers := if rd then 1 else 0
    writers := if wr then 1 else 0
    unlinked := false
    rWaiters := []
    wWaiters := [] }

/-- A pipe that nobody uses yet enters its bucket. -/
lemma PipesOwing.enterBucket (h : PipesOwing none none k) (hp : p < k.heap.next)
    (hlive : liveFiles k p = ∅) (hu : (k.pipes p).unlinked = false)
    (hnot : ∀ b, p ∉ k.pipeBuckets b) (name : CStr) (b : Fin pipeHashBuckets) :
    PipesOwing none none { k.modifyPipe p (blankPipe name false false) with
      pipeBuckets := update k.pipeBuckets b (p :: k.pipeBuckets b) } := by
  have hpipe : ∀ q, q ≠ p → (k.modifyPipe p (blankPipe name false false)).pipes q =
      k.pipes q := fun q hq => by simp [Kernel.modifyPipe, hq]
  have hself : (k.modifyPipe p (blankPipe name false false)).pipes p =
      blankPipe name false false (k.pipes p) := by simp [Kernel.modifyPipe]
  have hun : ∀ q, ((k.modifyPipe p (blankPipe name false false)).pipes q).unlinked =
      (k.pipes q).unlinked := by
    intro q
    by_cases hq : q = p
    · rw [hq, hself, hu]
      rfl
    · rw [hpipe q hq]
  have hmem : ∀ b' q, q ∈ update k.pipeBuckets b (p :: k.pipeBuckets b) b' ↔
      (q = p ∧ b' = b) ∨ q ∈ k.pipeBuckets b' := by
    intro b' q
    by_cases hb : b' = b
    · subst hb
      simp
    · simp [hb]
  refine { h with
    readers := fun q => ?_, writers := fun q => ?_, pipeFreed := fun q => ?_
    newPipe := fun q hq => (hun q).trans (h.newPipe q hq)
    bucket := fun b' q hm => ?_, nodup := fun b' => ?_, apart := fun b1 b2 q h1 h2 => ?_ }
  · change ((k.modifyPipe p (blankPipe name false false)).pipes q).readers =
      ((endCount k q File.canRead + _ : Nat) : Int)
    by_cases hq : q = p
    · subst hq
      rw [hself, owes_none, endCount, hlive]
      rfl
    · rw [hpipe q hq]
      exact h.readers q
  · change ((k.modifyPipe p (blankPipe name false false)).pipes q).writers =
      ((endCount k q File.canWrite + _ : Nat) : Int)
    by_cases hq : q = p
    · subst hq
      rw [hself, owes_none, endCount, hlive]
      rfl
    · rw [hpipe q hq]
      exact h.writers q
  · change (⟨.pipe, q⟩ : Block) ∈ k.heap.freed ↔
      ((k.modifyPipe p (blankPipe name false false)).pipes q).unlinked = true ∧
        liveFiles k q = ∅ ∧ _
    rw [hun]
    exact h.pipeFreed q
  · refine ⟨?_, (hun q).trans ?_⟩
    · rcases (hmem b' q).mp hm with ⟨rfl, -⟩ | hm
      · exact hp
      · exact (h.bucket b' q hm).1
    · rcases (hmem b' q).mp hm with ⟨rfl, -⟩ | hm
      · exact hu
      · exact (h.bucket b' q hm).2
  · dsimp only
    by_cases hb : b' = b
    · subst hb
      rw [update_self]
      exact List.nodup_cons.mpr ⟨hnot b', h.nodup b'⟩
    · rw [update_of_ne hb]
      exact h.nodup b'
  · rcases (hmem b1 q).mp h1 with ⟨e1, e1'⟩ | m1 <;> rcases (hmem b2 q).mp h2 with ⟨e2, e2'⟩ | m2
    · exact e1'.trans e2'.symm
    · rw [e1] at m2
      exact absurd m2 (hnot b2)
    · rw [e2] at m1
      exact absurd m1 (hnot b1)
    · exact h.apart b1 b2 q m1 m2

/-- `kpipe_open` of a name that neither search finds. -/
lemma kpipeOpen_new {k1 : Kernel} {name : CStr} {rd wr : Bool} (hfind : findPipe k name = none)
    (hm : k.mmMalloc = (k1, some p))
    (hagain : findPipe (k1.modifyPipe p (blankPipe name rd wr)) name = none) :
    kpipeOpen k name rd wr = ({ k1.modifyPipe p (blankPipe name rd wr) with
      pipeBuckets := update k1.pipeBuckets (pipeHash name) (p :: k1.pipeBuckets (pipeHash name)) },
      some p) := by
  unfold kpipeOpen
  simp only [hfind, hm]
  split
  · rename_i q hq
    cases hagain.symm.trans hq
  · rfl

/-- A pipe that was just allocated is in no bucket. -/
lemma PipesOwing.findPipe_blank (h : PipesOwing none none k) {name : CStr}
    (hfind : findPipe k name = none) (rd wr : Bool) :
    findPipe (k.mmMalloc.1.modifyPipe k.heap.next (blankPipe name rd wr)) name = none := by
  rw [findPipe, List.find?_eq_none] at hfind ⊢
  intro q hq
  have hne : q ≠ k.heap.next := (h.bucket _ q hq).1.ne
  have e : (k.mmMalloc.1.modifyPipe k.heap.next (blankPipe name rd wr)).pipes q = k.pipes q := by
    simp [Kernel.modifyPipe, Kernel.mmMalloc, hne]
  rw [e]
  exact hfind q hq

/-- `kpipe_open` counts a user that no file stands for yet. -/
theorem PipesOwing.kpipeOpen (h : PipesOwing none none k) (name : CStr) (rd wr : Bool) :
    SameFiles k (kpipeOpen k name rd wr).1 ∧
      match (kpipeOpen k name rd wr).2 with
      | some p => PipesOwing none (some (p, rd, wr)) (kpipeOpen k name rd wr).1
      | none => PipesOwing none none (kpipeOpen k name rd wr).1 := by
  cases hfind : findPipe k name with
  | some p =>
    obtain ⟨h1, h2⟩ := h.bucket _ p (findPipe_mem hfind)
    simp only [TP2Kernel.kpipeOpen, hfind]
    exact ⟨⟨rfl, rfl, ⟨rfl, rfl, rfl⟩, le_rfl⟩, h.addUser h1 h2 rd wr⟩
  | none =>
    have hc := FdCalm.mmMalloc k
    have h1 := h.calm hc
    rcases hm : k.mmMalloc with ⟨k1, o⟩
    have hnext : k1.heap.next = k.heap.next + 1 := by
      have := congrArg (fun r => r.1.heap.next) hm
      exact this.symm
    have hp : ∀ p, o = some p → p = k.heap.next := by
      intro p e
      have := congrArg Prod.snd hm
      rw [e] at this
      simp only [Kernel.mmMalloc] at this
      split at this <;> cases this
      rfl
    rw [hm] at hc h1
    cases o with
    | none =>
      simp only [TP2Kernel.kpipeOpen, hfind, hm]
      exact ⟨hc.toSameFiles, h1⟩
    | some p =>
      -- A new pipe is in no bucket yet, so the second search finds nothing either.
      obtain rfl := hp p rfl
      have hb : k1.pipeBuckets = k.pipeBuckets := hc.buckets
      have hlt : k.heap.next < k1.heap.next := by omega
      have hnot : ∀ b, k.heap.next ∉ k1.pipeBuckets b := by
        intro b hm
        rw [hb] at hm
        exact lt_irrefl _ (h.bucket b _ hm).1
      have hlive : liveFiles k1 k.heap.next = ∅ := by
        rw [h.live_congr hc.toSameFiles, Finset.eq_empty_iff_forall_notMem]
        intro f hm
        exact lt_irrefl _ (h.file f _ (mem_liveFiles.mp hm).2.1).1
      have hu : (k1.pipes k.heap.next).unlinked = false := by
        rw [hc.pipes]
        exact h.newPipe _ le_rfl
      have hagain : findPipe (k1.modifyPipe k.heap.next (blankPipe name rd wr)) name = none := by
        have hk1 : k1 = k.mmMalloc.1 := by rw [hm]
        rw [hk1]
        exact h.findPipe_blank hfind rd wr
      have he : ({ k1.modifyPipe k.heap.next (blankPipe name rd wr) with
          pipeBuckets := update k1.pipeBuckets (pipeHash name)
            (k.heap.next :: k1.pipeBuckets (pipeHash name)) } : Kernel) =
          pipeAddUser { k1.modifyPipe k.heap.next (blankPipe name false false) with
            pipeBuckets := update k1.pipeBuckets (pipeHash name)
              (k.heap.next :: k1.pipeBuckets (pipeHash name)) } k.heap.next rd wr := by
        cases rd <;> cases wr <;> simp [pipeAddUser, Kernel.modifyPipe, blankPipe]
      rw [kpipeOpen_new hfind hm hagain, he]
      refine ⟨hc.toSameFiles.trans ⟨rfl, rfl, ⟨rfl, rfl, rfl⟩, le_rfl⟩, ?_⟩
      apply (h1.enterBucket hlt hlive hu hnot name (pipeHash name)).addUser hlt
      simp [Kernel.modifyPipe, blankPipe]

/-- What `mm_malloc` returns. -/
lemma mmMalloc_cases (k : Kernel) : FdCalm k k.mmMalloc.1 ∧
    k.mmMalloc.1 = { k with heap := { k.heap with next := k.heap.next + 1 } } ∧
    (k.mmMalloc.2 = none ∨ k.mmMalloc.2 = some k.heap.next) := by
  refine ⟨.mmMalloc k, rfl, ?_⟩
  simp only [Kernel.mmMalloc]
  split
  · exact .inl rfl
  · exact .inr rfl

/-- The record of a file that stands for the user of a pipe. -/
def pipeFile (p : Nat) (rd wr : Bool) : File :=
  { ptr := .pipe p, canRead := rd, canWrite := wr, fgReadGuard := false, refcount := 1 }

lemma endCount_insert {f : Nat} {r : File → Bool} (hf : f ∉ liveFiles k p)
    (hl : liveFiles k' p = insert f (liveFiles k p)) (hfiles : ∀ g, g ≠ f → k'.files g = k.files g) :
    endCount k' p r = endCount k p r + if r (k'.files f) = true then 1 else 0 := by
  have hsame : (liveFiles k p).filter (fun g => r (k'.files g) = true) =
      (liveFiles k p).filter fun g => r (k.files g) = true := by
    apply Finset.filter_congr
    intro g hg
    rw [hfiles g (by rintro rfl; exact hf hg)]
  rw [endCount, endCount, hl, Finset.filter_insert, hsame]
  split
  · rw [Finset.card_insert_of_notMem]
    exact fun hm => hf (Finset.mem_filter.mp hm).1
  · rfl

/-- A file is created for the user of a pipe. -/
lemma PipesOwing.newPipeFile {rd wr : Bool} {f : Nat}
    (h : PipesOwing none (some (p, rd, wr)) k) (hr : rd = true ∨ wr = true)
    (hf : (k.files f).refcount = 0 ∧ (k.files f).ptr = .tty) (hlt : f < k.heap.next) :
    PipesOwing none none (k.modifyFile f fun _ => pipeFile p rd wr) := by
  have hself : (k.modifyFile f fun _ => pipeFile p rd wr).files f = pipeFile p rd wr := by
    simp [Kernel.modifyFile]
  have hfiles : ∀ g, g ≠ f → (k.modifyFile f fun _ => pipeFile p rd wr).files g = k.files g :=
    fun g hg => by simp [Kernel.modifyFile, hg]
  have hnot : ∀ q, f ∉ liveFiles k q := by
    intro q hm
    have := (mem_liveFiles.mp hm).2.2
    omega
  have hlive : ∀ q, liveFiles (k.modifyFile f fun _ => pipeFile p rd wr) q =
      if q = p then insert f (liveFiles k q) else liveFiles k q := by
    intro q
    ext g
    rw [mem_liveFiles]
    change g < k.heap.next ∧ _ ↔ _
    by_cases hg : g = f
    · subst hg
      rw [hself]
      by_cases hq : q = p
      · simp [hq, hlt, pipeFile]
      · have := hnot q
        simp [hq, this, pipeFile, Ne.symm hq]
    · rw [hfiles g hg]
      split <;> simp [mem_liveFiles, hg]
  have hcount : ∀ q (r : File → Bool), endCount (k.modifyFile f fun _ => pipeFile p rd wr) q r =
      endCount k q r + if p = q ∧ r (pipeFile p rd wr) = true then 1 else 0 := by
    intro q r
    by_cases hq : p = q
    · subst hq
      have hl := hlive p
      rw [if_pos rfl] at hl
      rw [endCount_insert (hnot p) hl hfiles, hself]
      simp
    · have hl := hlive q
      rw [if_neg (Ne.symm hq)] at hl
      rw [endCount, endCount, hl]
      simp only [hq, false_and, if_false, add_zero]
      congr 1
      apply Finset.filter_congr
      intro g hg
      rw [hfiles g (by rintro rfl; exact hnot q hg)]
  refine { h with
    newFile := fun g hg => ?_, pos := fun g => ?_, file := fun g q hq => ?_
    owed := fun _ hx => by cases hx
    readers := fun q => ?_, writers := fun q => ?_, fileFreed := fun g => ?_
    pipeFreed := fun q => ?_ }
  · have hne : g ≠ f := by
      rintro rfl
      exact absurd hlt (not_lt.mpr hg)
    rw [hfiles g hne]
    exact h.newFile g hg
  · by_cases hg : g = f
    · rw [hg, hself]
      exact zero_le_one
    · rw [hfiles g hg]
      exact h.pos g
  · by_cases hg : g = f
    · rw [hg, hself] at hq ⊢
      cases hq
      exact ⟨h.owed _ rfl, hr⟩
    · rw [hfiles g hg] at hq ⊢
      exact h.file g q hq
  · rw [hcount, owes_none]
    have := h.readers q
    rwa [owes_some] at this
  · rw [hcount, owes_none]
    have := h.writers q
    rwa [owes_some] at this
  · change (⟨.file, g⟩ : Block) ∈ k.heap.freed ↔ _
    rw [h.fileFreed]
    by_cases hg : g = f
    · rw [hg, hself]
      simp [hf, pipeFile]
    · rw [hfiles g hg]
  · change (⟨.pipe, q⟩ : Block) ∈ k.heap.freed ↔ (k.pipes q).unlinked = true ∧ _
    rw [h.pipeFreed, hlive]
    by_cases hq : q = p
    · simp [hq]
    · simp [hq, Ne.symm hq]

/-- A pipe leaves its bucket, and nobody finds it any more. -/
def unlinkedPipe (k : Kernel) (b : Fin pipeHashBuckets) (p : Nat) : Kernel :=
  Kernel.modifyPipe { k with
    pipeBuckets := update k.pipeBuckets b ((k.pipeBuckets b).erase p) } p
    fun c => { c with unlinked := true }

lemma unlinkedPipe_pipes (k : Kernel) (b : Fin pipeHashBuckets) (p q : Nat) :
    (unlinkedPipe k b p).pipes q =
      if q = p then { k.pipes p with unlinked := true } else k.pipes q := by
  simp only [unlinkedPipe, Kernel.modifyPipe, update_apply]

lemma PipesOwing.unlink (h : PipesOwing none none k) {b : Fin pipeHashBuckets}
    (hp : p ∈ k.pipeBuckets b) :
    PipesOwing none (some (p, false, false)) (unlinkedPipe k b p) := by
  obtain ⟨hlt, hu⟩ := h.bucket b p hp
  have hmem : ∀ b' q, q ∈ update k.pipeBuckets b ((k.pipeBuckets b).erase p) b' →
      q ∈ k.pipeBuckets b' ∧ q ≠ p := by
    intro b' q hm
    by_cases hb : b' = b
    · subst hb
      rw [update_self, (h.nodup b').mem_erase_iff] at hm
      exact ⟨hm.2, hm.1⟩
    · rw [update_of_ne hb] at hm
      refine ⟨hm, ?_⟩
      rintro rfl
      exact hb (h.apart b' b q hm hp)
  have hr : ∀ q, ((unlinkedPipe k b p).pipes q).readers = (k.pipes q).readers ∧
      ((unlinkedPipe k b p).pipes q).writers = (k.pipes q).writers := by
    intro q
    rw [unlinkedPipe_pipes]
    split
    · rename_i hq
      rw [hq]
      exact ⟨rfl, rfl⟩
    · exact ⟨rfl, rfl⟩
  refine { h with
    owed := fun x hx => ?_, readers := fun q => ?_, writers := fun q => ?_
    pipeFreed := fun q => ?_, newPipe := fun q hq => ?_, bucket := fun b' q hm => ?_
    nodup := fun b' => ?_, apart := fun b1 b2 q h1 h2 => ?_ }
  · cases hx
    exact hlt
  · change _ = ((endCount k q File.canRead + _ : Nat) : Int)
    rw [(hr q).1, h.readers, owes_some, owes_none]
    simp
  · change _ = ((endCount k q File.canWrite + _ : Nat) : Int)
    rw [(hr q).2, h.writers, owes_some, owes_none]
    simp
  · change (⟨.pipe, q⟩ : Block) ∈ k.heap.freed ↔ _ ∧ liveFiles k q = ∅ ∧ _
    rw [unlinkedPipe_pipes, h.pipeFreed]
    by_cases hq : q = p
    · simp [hq, hu]
    · simp [hq, Ne.symm hq]
  · have hne : q ≠ p := by
      rintro rfl
      exact absurd hlt (not_lt.mpr hq)
    rw [unlinkedPipe_pipes, if_neg hne]
    exact h.newPipe q hq
  · obtain ⟨h1, h2⟩ := hmem b' q hm
    rw [unlinkedPipe_pipes, if_neg h2]
    exact h.bucket b' q h1
  · change (update k.pipeBuckets b ((k.pipeBuckets b).erase p) b').Nodup
    by_cases hb : b' = b
    · subst hb
      rw [update_self]
      exact (h.nodup b').erase p
    · rw [update_of_ne hb]
      exact h.nodup b'
  · exact h.apart b1 b2 q (hmem b1 q h1).1 (hmem b2 q h2).1

lemma kpipeUnlink_some {name : CStr} (h : findPipe k name = some p) :
    (kpipeUnlink k name).1 = if ((unlinkedPipe k (pipeHash name) p).pipes p).readers = 0 ∧
        ((unlinkedPipe k (pipeHash name) p).pipes p).writers = 0 then
      pipeFree (unlinkedPipe k (pipeHash name) p) p else unlinkedPipe k (pipeHash name) p := by
  unfold kpipeUnlink
  rw [h]
  change (ite _ _ _ : Kernel × Int).1 = _
  rw [apply_ite Prod.fst]
  rfl

theorem PipesOwing.kpipeUnlink (h : PipesOwing none none k) (name : CStr) :
    SameFiles k (kpipeUnlink k name).1 ∧ PipesOwing none none (kpipeUnlink k name).1 := by
  cases hfind : findPipe k name with
  | none =>
    simp only [TP2Kernel.kpipeUnlink, hfind]
    exact ⟨.refl k, h⟩
  | some p =>
    have h1 := (h.unlink (findPipe_mem hfind)).settle
    have hs : SameFiles k (unlinkedPipe k (pipeHash name) p) :=
      ⟨rfl, rfl, ⟨rfl, rfl, rfl⟩, le_rfl⟩
    have hu : ((unlinkedPipe k (pipeHash name) p).pipes p).unlinked = true := by
      rw [unlinkedPipe_pipes, if_pos rfl]
    rw [hu, Bool.true_and] at h1
    simp only [Bool.and_eq_true, decide_eq_true_eq] at h1
    rw [kpipeUnlink_some hfind]
    refine ⟨?_, h1⟩
    split
    · exact hs.trans (sameFiles_pipeFree _ p)
    · exact hs

end Ends

end TP2Kernel.Proofs
