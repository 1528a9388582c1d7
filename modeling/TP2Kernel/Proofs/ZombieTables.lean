import TP2Kernel.Proofs.Reentry

/-!
# Zombies with descriptor tables

`collect_zombies` gives back what the reaped zombies own exactly once, unless the table of
the first zombie holds the last end of a pipe on which somebody waits: the call back reaps
this zombie a second time, and the file that is being closed loses a reference that it
does not have.
-/

namespace TP2Kernel.Proofs
open Function FdSystem

variable {k k' k0 : Kernel} {unblock : Kernel → Int → Kernel}

/-- Files lose references and keep everything else. -/
def Lowers (k k' : Kernel) : Prop :=
  ∀ f, ∃ n ≤ (k.files f).refcount, k'.files f = { k.files f with refcount := n }

namespace Lowers

lemma of_files (h : k'.files = k.files) : Lowers k k' := fun f => ⟨_, le_rfl, by rw [h]⟩

lemma refl (k : Kernel) : Lowers k k := of_files rfl

lemma trans {k'' : Kernel} (h : Lowers k k') (h' : Lowers k' k'') : Lowers k k'' := by
  intro f
  obtain ⟨n, hn, e⟩ := h f
  obtain ⟨m, hm, e'⟩ := h' f
  rw [e] at hm e'
  exact ⟨m, hm.trans hn, e'⟩

lemma before {k'' : Kernel} (h : Lowers k' k'') (hf : k'.files = k.files) : Lowers k k'' :=
  (of_files hf).trans h

lemma thenIf {c : Prop} [Decidable c] {k'' : Kernel} (h : Lowers k k') (h' : Lowers k' k'') :
    Lowers k (if c then k'' else k') := by
  split
  · exact h.trans h'
  · exact h

lemma refcount (h : Lowers k k') (f : Nat) : (k'.files f).refcount ≤ (k.files f).refcount := by
  obtain ⟨n, hn, e⟩ := h f
  rw [e]
  exact hn

lemma rights (h : Lowers k k') (f : Nat) : (k'.files f).ptr = (k.files f).ptr ∧
    (k'.files f).canRead = (k.files f).canRead ∧ (k'.files f).canWrite = (k.files f).canWrite := by
  obtain ⟨n, -, e⟩ := h f
  rw [e]
  exact ⟨rfl, rfl, rfl⟩

lemma dropEntry {z : Slot} (h : Lowers k k') :
    Lowers k (k'.modify z fun c => { c with fdTable := none }) := h.trans (of_files rfl)

lemma mmFrees (k : Kernel) (bs : List Block) : Lowers k (bs.foldl Kernel.mmFree k) := by
  rw [Kernel.mmFrees_eq]
  exact of_files rfl

lemma cleanupWaitResults (k : Kernel) (z : Slot) : Lowers k (cleanupWaitResults k z) :=
  (mmFrees k _).trans (of_files rfl)

lemma freeKstack (k : Kernel) (z : Slot) : Lowers k (freeKstack k z) := by
  unfold TP2Kernel.freeKstack
  split <;> exact of_files rfl

section Closing

variable (hu : ∀ k pid, Lowers k (unblock k pid))
include hu

lemma drainReaders (p n : Nat) (k : Kernel) : Lowers k (drainReaders unblock p n k) := by
  induction n generalizing k with
  | zero => exact refl k
  | succ n ih =>
    rw [TP2Kernel.drainReaders, Kpipe.dequeueReader]
    cases (k.pipes p).rWaiters with
    | nil => exact refl k
    | cons w ws =>
      dsimp only
      exact ((hu _ _).trans (ih _)).before rfl

lemma drainWriters (p n : Nat) (k : Kernel) : Lowers k (drainWriters unblock p n k) := by
  induction n generalizing k with
  | zero => exact refl k
  | succ n ih =>
    rw [TP2Kernel.drainWriters, Kpipe.dequeueWriter]
    cases (k.pipes p).wWaiters with
    | nil => exact refl k
    | cons w ws =>
      dsimp only
      exact ((hu _ _).trans (ih _)).before rfl

omit hu in
lemma pipeFree (k : Kernel) (p : Nat) : Lowers k (pipeFree k p) :=
  (mmFrees k _).trans (of_files rfl)

lemma kpipeClose (k : Kernel) (p : Nat) (rd wr : Bool) :
    Lowers k (kpipeClose unblock k p rd wr) := by
  have h0 : Lowers k (k.modifyPipe p fun c => pipeDropUser c rd wr) := of_files rfl
  unfold TP2Kernel.kpipeClose
  dsimp only
  exact ((h0.thenIf (drainReaders hu p _ _)).thenIf (drainWriters hu p _ _)).thenIf (pipeFree _ p)

lemma fileRelease (k : Kernel) (f : Nat) : Lowers k (fileRelease unblock k f) := by
  have h1 : Lowers k (k.modifyFile f fun c => { c with refcount := c.refcount - 1 }) := by
    intro g
    rw [Kernel.modifyFile]
    by_cases hg : g = f
    · subst hg
      exact ⟨(k.files g).refcount - 1, by omega, update_self ..⟩
    · exact ⟨_, le_rfl, update_of_ne hg ..⟩
  unfold TP2Kernel.fileRelease
  dsimp only
  split
  · exact h1
  · refine h1.trans (Lowers.trans (?_ : Lowers _ (fileClose unblock _ f)) (of_files rfl))
    unfold fileClose
    split
    · exact refl _
    · exact kpipeClose hu _ _ _ _

lemma destroyFold (t : Nat) (l : List (Fin fdMax)) (k : Kernel) :
    Lowers k (l.foldl (fdTableDestroyStep unblock t) k) := by
  induction l generalizing k with
  | nil => exact refl k
  | cons fd l ih =>
    refine Lowers.trans ?_ (ih _)
    unfold fdTableDestroyStep
    split
    · exact refl k
    · exact (fileRelease hu k _).trans (of_files rfl)

lemma destroy (t : Nat) (k : Kernel) : Lowers k (fdTableDestroy unblock k t) := by
  rw [fdTableDestroy]
  exact (destroyFold hu t _ k).trans (mmFrees _ [⟨.table, t⟩])

lemma reap (k : Kernel) (z : Slot) : Lowers k (reap unblock k z) := by
  have h1 := (freeKstack k z).trans (cleanupWaitResults _ z)
  refine h1.trans (Lowers.trans (?_ : Lowers _ (dropTable unblock _ z))
    ((cleanupWaitResults _ z).trans (of_files rfl)))
  unfold dropTable
  split
  · exact dropEntry (destroy hu _ _)
  · exact refl _

lemma collectLoop (n : Nat) (cursor pending : Option Slot) (k : Kernel) :
    Lowers k (collectLoop unblock n cursor pending k) := by
  induction n generalizing cursor pending k with
  | zero => exact of_files rfl
  | succ n ih =>
    cases cursor with
    | none => exact of_files rfl
    | some z =>
      simp only [TP2Kernel.collectLoop]
      split
      · have h1 := reap hu { k with cleanupNext := update k.cleanupNext z none } z
        exact (h1.trans (ih _ _ _)).before rfl
      · exact (ih _ _ _).before rfl

end Closing

lemma nobody (k : Kernel) (pid : Int) : Lowers k (wakeNobody k pid) := refl k

lemma unblockDepth (n : Nat) (k : Kernel) (pid : Int) : Lowers k (procUnblockDepth n k pid) := by
  induction n generalizing k pid with
  | zero => exact (collectLoop nobody _ _ _ k).trans (of_files (fdCalm_unblockTarget _ pid).files)
  | succ n ih =>
    exact (collectLoop ih _ _ _ k).trans (of_files (fdCalm_unblockTarget _ pid).files)

end Lowers

/-- Somebody waits on a pipe although the other side has no user. -/
def Starves (c : Kpipe) : Prop :=
  c.writers = 0 ∧ c.rWaiters ≠ [] ∨ c.readers = 0 ∧ c.wWaiters ≠ []

/-- The release of one reference to `f` wakes somebody. -/
def WakesAt (k : Kernel) (f : Nat) : Prop :=
  (k.files f).refcount ≤ 1 ∧ ∃ p, (k.files f).ptr = .pipe p ∧
    Starves (pipeDropUser (k.pipes p) (k.files f).canRead (k.files f).canWrite)

/-- The tables, the processes and the zombie list are the same. -/
def SameLists (k k' : Kernel) : Prop :=
  k'.tables = k.tables ∧ k'.procs = k.procs ∧ k'.zombieHead = k.zombieHead ∧
    k'.cleanupNext = k.cleanupNext

lemma kpipeClose_quiet (unblock : Kernel → Int → Kernel) {p : Nat} {rd wr : Bool}
    (h : ¬Starves (pipeDropUser (k.pipes p) rd wr)) :
    kpipeClose unblock k p rd wr =
      if (k.pipes p).unlinked && decide ((pipeDropUser (k.pipes p) rd wr).readers = 0) &&
          decide ((pipeDropUser (k.pipes p) rd wr).writers = 0) then
        pipeFree (k.modifyPipe p fun c => pipeDropUser c rd wr) p
      else k.modifyPipe p fun c => pipeDropUser c rd wr := by
  have e : (k.modifyPipe p fun c => pipeDropUser c rd wr).pipes p =
      pipeDropUser (k.pipes p) rd wr := by simp [Kernel.modifyPipe]
  obtain ⟨h1, h2⟩ := not_or.mp h
  have hr : ¬(decide ((pipeDropUser (k.pipes p) rd wr).writers = 0) &&
      !(pipeDropUser (k.pipes p) rd wr).rWaiters.isEmpty) = true := by simpa using h1
  have hw : ¬(decide ((pipeDropUser (k.pipes p) rd wr).readers = 0) &&
      !(pipeDropUser (k.pipes p) rd wr).wWaiters.isEmpty) = true := by simpa using h2
  unfold kpipeClose
  dsimp only
  rw [e, if_neg hr, if_neg hw]
  rfl

lemma kpipeClose_loud (hu : ∀ k pid, Lowers k (unblock k pid)) {p : Nat} {rd wr : Bool}
    (h : Starves (pipeDropUser (k.pipes p) rd wr)) :
    ∃ k1 pid, k1.files = k.files ∧ SameLists k k1 ∧
      Lowers (unblock k1 pid) (kpipeClose unblock k p rd wr) := by
  have e : (k.modifyPipe p fun c => pipeDropUser c rd wr).pipes p =
      pipeDropUser (k.pipes p) rd wr := by simp [Kernel.modifyPipe]
  unfold kpipeClose
  dsimp only
  by_cases hr : (decide ((pipeDropUser (k.pipes p) rd wr).writers = 0) &&
      !(pipeDropUser (k.pipes p) rd wr).rWaiters.isEmpty) = true
  · rw [e, if_pos hr]
    cases hq : (pipeDropUser (k.pipes p) rd wr).rWaiters with
    | nil => simp [hq] at hr
    | cons w ws =>
      rw [List.length_cons, drainReaders, e, Kpipe.dequeueReader, hq]
      dsimp only
      refine ⟨_, _, ?_, ?_, ((Lowers.drainReaders hu p _ _).thenIf
        (Lowers.drainWriters hu p _ _)).thenIf (Lowers.pipeFree _ p)⟩
      · rfl
      · exact ⟨rfl, rfl, rfl, rfl⟩
  · rw [e, if_neg hr]
    have hw : (decide ((pipeDropUser (k.pipes p) rd wr).readers = 0) &&
        !(pipeDropUser (k.pipes p) rd wr).wWaiters.isEmpty) = true := by
      rcases h with h | h
      · simp [h] at hr
      · simpa using h
    rw [if_pos hw, e]
    cases hq : (pipeDropUser (k.pipes p) rd wr).wWaiters with
    | nil => simp [hq] at hw
    | cons w ws =>
      rw [List.length_cons, drainWriters, e, Kpipe.dequeueWriter, hq]
      dsimp only
      refine ⟨_, _, ?_, ?_, (Lowers.drainWriters hu p _ _).thenIf (Lowers.pipeFree _ p)⟩
      · rfl
      · exact ⟨rfl, rfl, rfl, rfl⟩

section Release

variable {f : Nat}

lemma fileRelease_shared (unblock : Kernel → Int → Kernel) (h : 1 < (k.files f).refcount) :
    fileRelease unblock k f = k.modifyFile f fun c => { c with refcount := c.refcount - 1 } := by
  have e : 0 < ((k.modifyFile f fun c => { c with refcount := c.refcount - 1 }).files f).refcount := by
    simp only [Kernel.modifyFile, update_self]
    omega
  rw [fileRelease, if_pos e]

/-- The last reference to a file on a pipe. -/
lemma fileRelease_last (unblock : Kernel → Int → Kernel) {p : Nat} (h : (k.files f).refcount ≤ 1)
    (hp : (k.files f).ptr = .pipe p) :
    fileRelease unblock k f = (kpipeClose unblock
      (k.modifyFile f fun c => { c with refcount := c.refcount - 1 }) p (k.files f).canRead
      (k.files f).canWrite).mmFree ⟨.file, f⟩ := by
  have e : (k.modifyFile f fun c => { c with refcount := c.refcount - 1 }).files f =
      { k.files f with refcount := (k.files f).refcount - 1 } := by simp [Kernel.modifyFile]
  have hle : ¬0 < (k.files f).refcount - 1 := by omega
  unfold fileRelease fileClose
  dsimp only
  rw [e, if_neg hle, hp]

lemma fileRelease_tty (unblock : Kernel → Int → Kernel) (h : (k.files f).refcount ≤ 1)
    (hp : (k.files f).ptr = .tty) :
    fileRelease unblock k f = (k.modifyFile f fun c =>
      { c with refcount := c.refcount - 1 }).mmFree ⟨.file, f⟩ := by
  have e : (k.modifyFile f fun c => { c with refcount := c.refcount - 1 }).files f =
      { k.files f with refcount := (k.files f).refcount - 1 } := by simp [Kernel.modifyFile]
  have hle : ¬0 < (k.files f).refcount - 1 := by omega
  unfold fileRelease fileClose
  dsimp only
  rw [e, if_neg hle, hp]

lemma fileRelease_quiet (unblock : Kernel → Int → Kernel) (h : ¬WakesAt k f) :
    fileRelease unblock k f = fileRelease wakeNobody k f := by
  by_cases hle : (k.files f).refcount ≤ 1
  · cases hp : (k.files f).ptr with
    | tty => rw [fileRelease_tty _ hle hp, fileRelease_tty _ hle hp]
    | pipe p =>
      have hs : ¬Starves (pipeDropUser (k.pipes p) (k.files f).canRead (k.files f).canWrite) :=
        fun hs => h ⟨hle, p, hp, hs⟩
      have hq := fun u => kpipeClose_quiet
        (k := k.modifyFile f fun c => { c with refcount := c.refcount - 1 }) u hs
      rw [fileRelease_last _ hle hp, fileRelease_last _ hle hp, hq, hq]
  · rw [fileRelease_shared _ (by omega), fileRelease_shared _ (by omega)]

lemma fileRelease_loud (hu : ∀ k pid, Lowers k (unblock k pid)) (h : WakesAt k f) :
    ∃ k1 pid, (k1.files f).refcount ≤ 0 ∧ SameLists k k1 ∧
      Lowers (unblock k1 pid) (fileRelease unblock k f) := by
  obtain ⟨hle, p, hp, hs⟩ := h
  rw [fileRelease_last _ hle hp]
  obtain ⟨k1, pid, hf, hl, h1⟩ := kpipeClose_loud hu
    (k := k.modifyFile f fun c => { c with refcount := c.refcount - 1 }) hs
  refine ⟨k1, pid, ?_, hl, h1.trans (.of_files rfl)⟩
  rw [hf]
  simp only [Kernel.modifyFile, update_self]
  omega

lemma fileRelease_refcount (hu : ∀ k pid, Lowers k (unblock k pid)) (k : Kernel) (f : Nat) :
    ((fileRelease unblock k f).files f).refcount ≤ (k.files f).refcount - 1 := by
  by_cases hle : (k.files f).refcount ≤ 1
  · have e : ((k.modifyFile f fun c => { c with refcount := c.refcount - 1 }).files f).refcount =
        (k.files f).refcount - 1 := by simp [Kernel.modifyFile]
    rw [← e]
    cases hp : (k.files f).ptr with
    | tty =>
      rw [fileRelease_tty _ hle hp]
      exact le_rfl
    | pipe p =>
      rw [fileRelease_last _ hle hp]
      exact (Lowers.kpipeClose hu _ _ _ _).refcount f
  · rw [fileRelease_shared _ (by omega)]
    simp [Kernel.modifyFile]

lemma kpipeClose_keeps {p : Nat} {rd wr : Bool}
    (h : ¬Starves (pipeDropUser (k.pipes p) rd wr)) :
    ((kpipeClose wakeNobody k p rd wr).stdinFile = k.stdinFile ∧
      (kpipeClose wakeNobody k p rd wr).stdoutFile = k.stdoutFile ∧
      (kpipeClose wakeNobody k p rd wr).stderrFile = k.stderrFile) ∧
    (kpipeClose wakeNobody k p rd wr).pipes =
      update k.pipes p (pipeDropUser (k.pipes p) rd wr) := by
  rw [kpipeClose_quiet wakeNobody h]
  split
  · rw [pipeFree, Kernel.mmFrees_eq]
    exact ⟨⟨rfl, rfl, rfl⟩, rfl⟩
  · exact ⟨⟨rfl, rfl, rfl⟩, rfl⟩

/-- What a release that wakes nobody does to the pipes. -/
lemma fileRelease_pipes (h : ¬WakesAt k f) :
    ((fileRelease wakeNobody k f).stdinFile = k.stdinFile ∧
      (fileRelease wakeNobody k f).stdoutFile = k.stdoutFile ∧
      (fileRelease wakeNobody k f).stderrFile = k.stderrFile) ∧
    (((fileRelease wakeNobody k f).pipes = k.pipes ∧
        ((k.files f).refcount ≤ 1 → (k.files f).ptr = .tty)) ∨
      ∃ p, (k.files f).refcount ≤ 1 ∧ (k.files f).ptr = .pipe p ∧
        (fileRelease wakeNobody k f).pipes = update k.pipes p
          (pipeDropUser (k.pipes p) (k.files f).canRead (k.files f).canWrite)) := by
  by_cases hle : (k.files f).refcount ≤ 1
  · cases hp : (k.files f).ptr with
    | tty =>
      rw [fileRelease_tty _ hle hp]
      exact ⟨⟨rfl, rfl, rfl⟩, .inl ⟨rfl, fun _ => rfl⟩⟩
    | pipe p =>
      have hs : ¬Starves (pipeDropUser (k.pipes p) (k.files f).canRead (k.files f).canWrite) :=
        fun hs => h ⟨hle, p, hp, hs⟩
      obtain ⟨hstd, hpipes⟩ := kpipeClose_keeps
        (k := k.modifyFile f fun c => { c with refcount := c.refcount - 1 }) hs
      rw [fileRelease_last _ hle hp]
      exact ⟨hstd, .inr ⟨p, hle, rfl, hpipes⟩⟩
  · rw [fileRelease_shared _ (by omega)]
    exact ⟨⟨rfl, rfl, rfl⟩, .inl ⟨rfl, fun hle' => absurd hle' hle⟩⟩

end Release

/-- The kernel before its zombies are listed. -/
abbrev unlisted (k : Kernel) : Kernel := { k with zombieHead := none }

lemma sameStore_unlisted (k : Kernel) : SameStore (unlisted k) k :=
  .of_same rfl fun _ => ⟨rfl, rfl, rfl, rfl⟩

lemma wakesCalmly_nobody : WakesCalmly wakeNobody := fun k _ _ => .refl k

variable {T : Finset Nat} {t : Nat}

lemma FdCounted.unlist (h : FdCounted T k) (hs : SameStore k k') : FdCounted T (unlisted k') := by
  refine h.same ⟨⟨⟨hs.files, hs.tables, hs.std, ?_⟩, hs.buckets, fun p => ?_, fun b _ => ?_⟩,
    fun _ => bare_of_none rfl⟩
  · rw [hs.heap]
  · rw [hs.pipes]
    rfl
  · rw [hs.heap]

/-- The references to `f` that are not entries of the table `t`. -/
def refsElsewhere (T : Finset Nat) (t : Nat) (k : Kernel) (f : Nat) : Nat :=
  fileEntries (T.erase t) k f + if IsStd k f then 1 else 0

lemma refcount_split (h : FdCounted T (unlisted k)) (ht : t ∈ T) (f : Nat) :
    (k.files f).refcount = (fileEntries {t} k f + refsElsewhere T t k f : Nat) := by
  have h1 := h.refs.count f
  have h2 : fileEntries T k f = fileEntries {t} k f + fileEntries (T.erase t) k f := by
    rw [fileEntries_eq, fileEntries_eq, fileEntries_eq, Finset.sum_singleton]
    exact (Finset.add_sum_erase T (fun s => tableEntries (k.tables s) f) ht).symm
  rw [refsElsewhere]
  change (k.files f).refcount = fileEntries T k f + (if IsStd k f then 1 else 0) + 0 at h1
  rw [h1, h2]
  push_cast
  ring

lemma onlyIn_iff (h : FdCounted T (unlisted k)) (ht : t ∈ T) (f : Nat) :
    OnlyIn k t f ↔ refsElsewhere T t k f = 0 := by
  rw [OnlyIn, refcount_split h ht]
  omega

lemma entries_pos {fd : Fin fdMax} {f : Nat} (h : k.tables t fd = some f) :
    0 < fileEntries {t} k f := fileEntries_pos (Finset.mem_singleton_self t) h

/-- Part of the table `t` of `k0` has been destroyed, and nobody has been woken. -/
structure Midway (T : Finset Nat) (t : Nat) (k0 k : Kernel) : Prop where
  counted : FdCounted T (unlisted k)
  lowers : Lowers k0 k
  others : ∀ s, s ≠ t → k.tables s = k0.tables s
  entries : ∀ fd f, k.tables t fd = some f → k0.tables t fd = some f
  std : k.stdinFile = k0.stdinFile ∧ k.stdoutFile = k0.stdoutFile ∧ k.stderrFile = k0.stderrFile
  waiting : ∀ p, (k.pipes p).rWaiters = (k0.pipes p).rWaiters ∧
    (k.pipes p).wWaiters = (k0.pipes p).wWaiters
  ended : ∀ p, ∀ f ∈ liveFiles k0 p, f ∉ liveFiles k p → ¬Starves (k.pipes p)

namespace Midway

lemma refl (h : FdCounted T (unlisted k)) : Midway T t k k :=
  ⟨h, .refl k, fun _ _ => rfl, fun _ _ => id, ⟨rfl, rfl, rfl⟩, fun _ => ⟨rfl, rfl⟩,
    fun _ _ hf hf' => absurd hf hf'⟩

lemma refsElsewhere (h : Midway T t k0 k) (f : Nat) :
    refsElsewhere T t k f = refsElsewhere T t k0 f := by
  have hstd : IsStd k f ↔ IsStd k0 f := by
    rw [IsStd, IsStd, h.std.1, h.std.2.1, h.std.2.2]
  have hsum : fileEntries (T.erase t) k f = fileEntries (T.erase t) k0 f := by
    rw [fileEntries_eq, fileEntries_eq]
    refine Finset.sum_congr rfl fun s hs => ?_
    rw [h.others s (Finset.ne_of_mem_erase hs)]
  rw [Proofs.refsElsewhere, Proofs.refsElsewhere, hsum]
  simp only [hstd]

lemma mem_live (h : FdCounted T (unlisted k)) {f p : Nat} :
    f ∈ liveFiles k p ↔ (k.files f).ptr = .pipe p ∧ 0 < (k.files f).refcount :=
  h.ends.mem_live

/-- One entry of the table. -/
lemma step (h : Midway T t k0 k) (ht : t ∈ T) {fd : Fin fdMax}
    (hq : ∀ f, k.tables t fd = some f → ¬WakesAt k f) :
    Midway T t k0 (fdTableDestroyStep wakeNobody t k fd) := by
  unfold fdTableDestroyStep
  cases hfd : k.tables t fd with
  | none => exact h
  | some f =>
    dsimp only
    obtain ⟨hpos, htty⟩ := h.counted.refs.live (f := f) (by
      have := fileEntries_pos (k := unlisted k) ht hfd
      omega)
    obtain ⟨hr, -⟩ := h.counted.ends.fileRelease wakesCalmly_nobody hpos htty
    obtain ⟨hc, -, -⟩ := h.counted.clear wakesCalmly_nobody ht hfd
    obtain ⟨hs, -⟩ := nested_nobody.fileRelease (k := k) trivial (sameStore_unlisted k) f
    obtain ⟨hstd, hpipes⟩ := fileRelease_pipes (hq f hfd)
    have hlow := Lowers.fileRelease Lowers.nobody k f
    have htab : (fileRelease wakeNobody k f).tables = k.tables := hs.tables.trans hr.tables
    have hcount : ∀ g, ((fileRelease wakeNobody k f).files g).refcount =
        (k.files g).refcount + -1 * oneRef f g := by
      intro g
      rw [hs.files]
      exact hr.refcount g
    have hcl := hc.unlist (hs.setEntry t fd none)
    generalize fileRelease wakeNobody k f = k1 at hstd hpipes hlow htab hcount hcl
    have hlow1 : Lowers k0 (k1.setEntry t fd none) := (h.lowers.trans hlow).trans (.of_files rfl)
    have hclose : ∀ p, (k1.pipes p).rWaiters = (k.pipes p).rWaiters ∧
        (k1.pipes p).wWaiters = (k.pipes p).wWaiters := by
      intro p
      rcases hpipes with ⟨e, -⟩ | ⟨q, -, -, e⟩
      · rw [e]
        exact ⟨rfl, rfl⟩
      · rw [e]
        by_cases hp : p = q
        · subst hp
          rw [update_self]
          exact ⟨rfl, rfl⟩
        · rw [update_of_ne hp]
          exact ⟨rfl, rfl⟩
    refine ⟨hcl, hlow1, fun s hs' => ?_, fun x g hx => ?_, ⟨hstd.1.trans h.std.1,
      hstd.2.1.trans h.std.2.1, hstd.2.2.trans h.std.2.2⟩, fun p =>
      ⟨(hclose p).1.trans (h.waiting p).1, (hclose p).2.trans (h.waiting p).2⟩, fun p g hg hd => ?_⟩
    · rw [← h.others s hs', ← htab]
      simp [Kernel.setEntry, hs']
    · refine h.entries x g ?_
      rw [← htab]
      by_cases hxf : x = fd
      · simp [Kernel.setEntry, hxf] at hx
      · simpa [Kernel.setEntry, hxf] using hx
    · change ¬Starves (k1.pipes p)
      have hclosed : ∀ q, (k.files f).refcount ≤ 1 → (k.files f).ptr = .pipe q →
          ¬Starves (pipeDropUser (k.pipes q) (k.files f).canRead (k.files f).canWrite) :=
        fun q h1 h2 hs => hq f hfd ⟨h1, q, h2, hs⟩
      by_cases hl : g ∈ liveFiles k p
      · obtain ⟨hptr, hlive⟩ := (mem_live h.counted).mp hl
        have hdead : (k1.files g).refcount ≤ 0 := by
          by_contra hn
          refine hd ((mem_live hcl).mpr ⟨?_, by simpa [Kernel.setEntry] using hn⟩)
          exact (hlow.rights g).1.trans hptr
        rw [hcount, oneRef] at hdead
        have hgf : g = f := by
          by_contra hne
          rw [if_neg hne] at hdead
          omega
        subst hgf
        rw [if_pos rfl] at hdead
        rcases hpipes with ⟨-, htt⟩ | ⟨q, hle, hptr', e⟩
        · rw [htt (by omega)] at hptr
          cases hptr
        · obtain rfl : q = p := FilePtr.pipe.inj (hptr'.symm.trans hptr)
          rw [e, update_self]
          exact hclosed q hle hptr'
      · have hold := h.ended p g hg hl
        rcases hpipes with ⟨e, -⟩ | ⟨q, hle, hptr', e⟩
        · rwa [e]
        · rw [e]
          by_cases hp : p = q
          · subst hp
            rw [update_self]
            exact hclosed p hle hptr'
          · rwa [update_of_ne hp]

/-- A side of a pipe that another live file uses is still used when `f` is closed. -/
lemma drop_pos {k : Kernel} {f g p : Nat} {r : File → Bool} (hf : f ∈ liveFiles k p)
    (hg : g ∈ liveFiles k p) (hne : f ≠ g) (hr : r (k.files g) = true) :
    (if r (k.files f) && decide (0 < (endCount k p r : Int)) then (endCount k p r : Int) - 1
      else endCount k p r) ≠ 0 := by
  have hmem : g ∈ (liveFiles k p).filter fun f => r (k.files f) := Finset.mem_filter.mpr ⟨hg, hr⟩
  have hpos : 0 < endCount k p r := Finset.card_pos.mpr ⟨g, hmem⟩
  split
  · rename_i h
    have hrf : r (k.files f) = true := by simp_all
    have htwo : 1 < endCount k p r :=
      Finset.one_lt_card.mpr ⟨f, Finset.mem_filter.mpr ⟨hf, hrf⟩, g, hmem, hne⟩
    omega
  · omega

lemma live_of_elsewhere (h : Midway T t k0 k) (ht : t ∈ T) (h0 : FdCounted T (unlisted k0))
    {g p : Nat} (hg : g ∈ liveFiles k0 p) (hn : ¬OnlyIn k0 t g) : g ∈ liveFiles k p := by
  rw [onlyIn_iff h0 ht, ← h.refsElsewhere] at hn
  have := refcount_split h.counted ht g
  refine (mem_live h.counted).mpr ⟨?_, by omega⟩
  exact (h.lowers.rights g).1.trans ((mem_live h0).mp hg).1

/-- While every pipe keeps an end for those who wait, nobody is woken. -/
lemma quietAt (h : Midway T t k0 k) (ht : t ∈ T) (h0 : FdCounted T (unlisted k0))
    (hno : ∀ p, ¬DropsLastEnd k0 t p) {fd : Fin fdMax} {f : Nat} (hfd : k.tables t fd = some f) :
    ¬WakesAt k f := by
  rintro ⟨hle, p, hp, hs⟩
  have hpos := entries_pos hfd
  have hsplit := refcount_split h.counted ht f
  have honly : OnlyIn k0 t f := by
    rw [onlyIn_iff h0 ht, ← h.refsElsewhere]
    omega
  have hf : f ∈ liveFiles k p := (mem_live h.counted).mpr ⟨hp, by omega⟩
  have hf0 : f ∈ liveFiles k0 p := by
    have := h.lowers.refcount f
    exact (mem_live h0).mpr ⟨(h.lowers.rights f).1.symm.trans hp, by omega⟩
  have hne : ∀ g, ¬OnlyIn k0 t g → f ≠ g := by
    rintro g hg rfl
    exact hg honly
  have hwriters : (k.pipes p).writers = endCount k p File.canWrite := h.counted.ends.writers p
  have hreaders : (k.pipes p).readers = endCount k p File.canRead := h.counted.ends.readers p
  refine hno p ⟨⟨f, hf0, honly⟩, hs.imp ?_ ?_⟩
  · rintro ⟨hw, hq⟩
    refine ⟨(h.waiting p).1 ▸ hq, fun g hg hgw => ?_⟩
    by_contra hn
    have hgw' := (h.lowers.rights g).2.2.trans hgw
    refine drop_pos (r := File.canWrite) hf (h.live_of_elsewhere ht h0 hg hn) (hne g hn) hgw' ?_
    rw [← hwriters]
    exact hw
  · rintro ⟨hw, hq⟩
    refine ⟨(h.waiting p).2 ▸ hq, fun g hg hgr => ?_⟩
    by_contra hn
    have hgr' := (h.lowers.rights g).2.1.trans hgr
    refine drop_pos (r := File.canRead) hf (h.live_of_elsewhere ht h0 hg hn) (hne g hn) hgr' ?_
    rw [← hreaders]
    exact hw

lemma dead_of_onlyIn (h : Midway T t k0 k) (ht : t ∈ T) (h0 : FdCounted T (unlisted k0))
    (hempty : ∀ fd, k.tables t fd = none) {f p : Nat} (hf : OnlyIn k0 t f) :
    f ∉ liveFiles k p := by
  rw [onlyIn_iff h0 ht, ← h.refsElsewhere] at hf
  have hzero : fileEntries {t} k f = 0 := by
    rw [fileEntries_eq, Finset.sum_singleton, tableEntries, Finset.card_eq_zero,
      Finset.filter_eq_empty_iff]
    intro fd _ hfd
    rw [hempty fd] at hfd
    cases hfd
  have hsplit := refcount_split h.counted ht f
  intro hl
  have := ((mem_live h.counted).mp hl).2
  omega

/-- When the whole table is gone, an end that was only there has no user. -/
lemma endCount_zero (h : Midway T t k0 k) (ht : t ∈ T) (h0 : FdCounted T (unlisted k0))
    (hempty : ∀ fd, k.tables t fd = none) {p : Nat} {r : File → Bool}
    (hr : ∀ f, r (k.files f) = r (k0.files f))
    (hall : ∀ f ∈ liveFiles k0 p, r (k0.files f) = true → OnlyIn k0 t f) :
    endCount k p r = 0 := by
  rw [endCount, Finset.card_eq_zero, Finset.filter_eq_empty_iff]
  intro g hg hgr
  obtain ⟨hptr, hpos⟩ := (mem_live h.counted).mp hg
  have hg0 : g ∈ liveFiles k0 p := by
    have := h.lowers.refcount g
    exact (mem_live h0).mpr ⟨(h.lowers.rights g).1.symm.trans hptr, by omega⟩
  exact h.dead_of_onlyIn ht h0 hempty (hall g hg0 (by rwa [← hr])) hg

end Midway

/-- Nobody is woken while the entries of `l` are destroyed. -/
def QuietOn (t : Nat) : List (Fin fdMax) → Kernel → Prop
  | [], _ => True
  | fd :: l, k => (∀ f, k.tables t fd = some f → ¬WakesAt k f) ∧
      QuietOn t l (fdTableDestroyStep wakeNobody t k fd)

lemma destroyStep_quiet (unblock : Kernel → Int → Kernel) {fd : Fin fdMax}
    (h : ∀ f, k.tables t fd = some f → ¬WakesAt k f) :
    fdTableDestroyStep unblock t k fd = fdTableDestroyStep wakeNobody t k fd := by
  unfold fdTableDestroyStep
  cases hfd : k.tables t fd with
  | none => rfl
  | some f =>
    dsimp only
    rw [fileRelease_quiet unblock (h f hfd)]

lemma destroyFold_quiet (unblock : Kernel → Int → Kernel) {l : List (Fin fdMax)}
    (h : QuietOn t l k) : l.foldl (fdTableDestroyStep unblock t) k =
      l.foldl (fdTableDestroyStep wakeNobody t) k := by
  induction l generalizing k with
  | nil => rfl
  | cons fd l ih =>
    rw [List.foldl_cons, List.foldl_cons, destroyStep_quiet unblock h.1, ih h.2]

/-- The first entry at which somebody is woken. -/
lemma exists_loud {l : List (Fin fdMax)} (h : ¬QuietOn t l k) :
    ∃ pre fd post f, l = pre ++ fd :: post ∧ QuietOn t pre k ∧
      (pre.foldl (fdTableDestroyStep wakeNobody t) k).tables t fd = some f ∧
      WakesAt (pre.foldl (fdTableDestroyStep wakeNobody t) k) f := by
  induction l generalizing k with
  | nil => exact absurd trivial h
  | cons fd l ih =>
    by_cases hfd : ∀ f, k.tables t fd = some f → ¬WakesAt k f
    · obtain ⟨pre, fd', post, f, rfl, hq, hf, hw⟩ := ih fun hl => h ⟨hfd, hl⟩
      exact ⟨fd :: pre, fd', post, f, rfl, ⟨hfd, hq⟩, hf, hw⟩
    · push Not at hfd
      obtain ⟨f, hf, hw⟩ := hfd
      exact ⟨[], fd, l, f, rfl, trivial, hf, hw⟩

lemma Midway.fold (h : Midway T t k0 k) (ht : t ∈ T) {l : List (Fin fdMax)} (hq : QuietOn t l k) :
    Midway T t k0 (l.foldl (fdTableDestroyStep wakeNobody t) k) := by
  induction l generalizing k with
  | nil => exact h
  | cons fd l ih => exact ih (h.step ht hq.1) hq.2

lemma Midway.quiet (h : Midway T t k0 k) (ht : t ∈ T) (h0 : FdCounted T (unlisted k0))
    (hno : ∀ p, ¬DropsLastEnd k0 t p) (l : List (Fin fdMax)) : QuietOn t l k := by
  induction l generalizing k with
  | nil => trivial
  | cons fd l ih =>
    have hfd : ∀ f, k.tables t fd = some f → ¬WakesAt k f := fun f => h.quietAt ht h0 hno
    exact ⟨hfd, ih (h.step ht hfd)⟩

lemma destroyed_empty (h0 : FdCounted T (unlisted k)) (ht : t ∈ T) (l : List (Fin fdMax))
    {fd : Fin fdMax} (hfd : fd ∈ l ∨ k.tables t fd = none) :
    (l.foldl (fdTableDestroyStep wakeNobody t) k).tables t fd = none := by
  have h1 := (h0.destroyFold wakesCalmly_nobody ht l).2 fd hfd
  rwa [← (nested_nobody.destroyFold (k := k) trivial (sameStore_unlisted k) t l).1.tables] at h1

/-- Where the last end of a pipe goes on which somebody waits, somebody is woken. -/
lemma not_quiet (h0 : FdCounted T (unlisted k)) (ht : t ∈ T) {p : Nat}
    (hd : DropsLastEnd k t p) : ¬QuietOn t (List.finRange fdMax) k := by
  intro hq
  have hm := (Midway.refl h0).fold ht hq
  have hempty : ∀ fd, ((List.finRange fdMax).foldl (fdTableDestroyStep wakeNobody t) k).tables t fd =
      none := fun fd => destroyed_empty h0 ht _ (.inl (List.mem_finRange fd))
  generalize (List.finRange fdMax).foldl (fdTableDestroyStep wakeNobody t) k = k1 at hm hempty
  obtain ⟨⟨f, hf, honly⟩, hside⟩ := hd
  refine hm.ended p f hf (hm.dead_of_onlyIn ht h0 hempty honly) (hside.imp ?_ ?_)
  · rintro ⟨hw, hall⟩
    have hz := hm.endCount_zero ht h0 hempty (r := File.canWrite)
      (fun g => (hm.lowers.rights g).2.2) hall
    refine ⟨?_, (hm.waiting p).1 ▸ hw⟩
    have : (k1.pipes p).writers = endCount k1 p File.canWrite := hm.counted.ends.writers p
    rw [this, hz]
    rfl
  · rintro ⟨hw, hall⟩
    have hz := hm.endCount_zero ht h0 hempty (r := File.canRead)
      (fun g => (hm.lowers.rights g).2.1) hall
    refine ⟨?_, (hm.waiting p).2 ▸ hw⟩
    have : (k1.pipes p).readers = endCount k1 p File.canRead := hm.counted.ends.readers p
    rw [this, hz]
    rfl

lemma destroyFold_skip (unblock : Kernel → Int → Kernel) {l : List (Fin fdMax)}
    (h : ∀ fd ∈ l, k.tables t fd = none) : l.foldl (fdTableDestroyStep unblock t) k = k := by
  induction l with
  | nil => rfl
  | cons fd l ih =>
    rw [List.foldl_cons, fdTableDestroyStep, h fd (by simp)]
    exact ih fun x hx => h x (by simp [hx])

lemma reap_refcount (hu : ∀ k pid, Lowers k (unblock k pid)) {z : Slot} {fd : Fin fdMax} {f : Nat}
    {pre post : List (Fin fdMax)} (hz : (k.procs z).fdTable = some t)
    (hl : List.finRange fdMax = pre ++ fd :: post) (hpre : ∀ x ∈ pre, k.tables t x = none)
    (hfd : k.tables t fd = some f) :
    ((reap unblock k z).files f).refcount ≤ (k.files f).refcount - 1 := by
  have h1 := (Lowers.freeKstack k z).trans (.cleanupWaitResults _ z)
  have htab : (cleanupWaitResults (freeKstack k z) z).tables = k.tables := by
    rw [cleanupWaitResults, Kernel.mmFrees_eq]
    unfold freeKstack
    split <;> rfl
  have hzt : ((cleanupWaitResults (freeKstack k z) z).procs z).fdTable = some t := by
    rw [cleanupWaitResults_fdTable, freeKstack_fdTable, hz]
  unfold reap
  rw [releaseSlot_drop]
  generalize cleanupWaitResults (freeKstack k z) z = k1 at h1 htab hzt
  have h2 : Lowers (fileRelease unblock k1 f) (dropTable unblock k1 z) := by
    have hskip := destroyFold_skip (k := k1) (t := t) unblock (l := pre) (by rwa [htab])
    rw [dropTable, hzt]
    dsimp only
    rw [fdTableDestroy, hl, List.foldl_append, hskip, List.foldl_cons, fdTableDestroyStep, htab, hfd]
    dsimp only
    refine Lowers.before ((Lowers.destroyFold hu t post _).trans (.of_files rfl)) rfl
  have h3 : Lowers (dropTable unblock k1 z) (freeSlot (cleanupWaitResults
      (dropTable unblock k1 z) z) z) := (Lowers.cleanupWaitResults _ z).trans (.of_files rfl)
  calc _ ≤ ((fileRelease unblock k1 f).files f).refcount := (h2.trans h3).refcount f
    _ ≤ (k1.files f).refcount - 1 := fileRelease_refcount hu k1 f
    _ ≤ (k.files f).refcount - 1 := by
      have := h1.refcount f
      omega

/-- A call back reaps the first zombie. -/
lemma unblockDepth_reap (n : Nat) (pid : Int) {z : Slot} (hz : k.zombieHead = some z)
    (hc : k.cleanupNext z = none) (hr : reapable (k.procs z) = true) :
    Lowers (reap (procUnblockDepth n) k z) (procUnblockDepth (n + 1) k pid) := by
  have e : { k with cleanupNext := update k.cleanupNext z none } = k := by
    rw [← hc, update_eq_self]
  have h1 : collectZombiesWith (procUnblockDepth n) k =
      { reap (procUnblockDepth n) k z with zombieHead := none } := by
    unfold collectZombiesWith
    obtain ⟨m, hm⟩ : ∃ m, maxProcs = m + 1 := ⟨_, rfl⟩
    rw [hm, hz]
    simp only [collectLoop]
    rw [hc, e, if_pos hr, collectLoop_none]
    rfl
  rw [procUnblockDepth, h1]
  exact (Lowers.of_files rfl).trans (.of_files (fdCalm_unblockTarget _ pid).files)

/-- The table of the first zombie is destroyed, and the first process that this wakes is
woken by a call back. -/
lemma destroy_loud (n : Nat) (h0 : FdCounted T (unlisted k)) (ht : t ∈ T) {z : Slot}
    (hz : k.zombieHead = some z) (hc : k.cleanupNext z = none)
    (hr : reapable (k.procs z) = true) (hzt : (k.procs z).fdTable = some t)
    (hq : ¬QuietOn t (List.finRange fdMax) k) :
    ∃ f, ((fdTableDestroy (procUnblockDepth (n + 1)) k t).files f).refcount < 0 := by
  have hu := Lowers.unblockDepth (n + 1)
  obtain ⟨pre, fd, post, f, hl, hpre, hf, hw⟩ := exists_loud hq
  have hempty : ∀ x ∈ pre, (pre.foldl (fdTableDestroyStep wakeNobody t) k).tables t x = none :=
    fun x hx => destroyed_empty h0 ht _ (.inl hx)
  obtain ⟨hp1, hz1, hc1⟩ := ((nested_frame k).destroyFold ⟨rfl, rfl, rfl⟩ (.refl k) t pre).2
  refine ⟨f, ?_⟩
  rw [fdTableDestroy, hl, List.foldl_append, destroyFold_quiet _ hpre, List.foldl_cons]
  generalize pre.foldl (fdTableDestroyStep wakeNobody t) k = k1 at hf hw hempty hp1 hz1 hc1
  rw [fdTableDestroyStep, hf]
  dsimp only
  obtain ⟨k2, pid, hle, ⟨htab2, hp2, hz2, hc2⟩, hlow⟩ := fileRelease_loud hu hw
  have hreap := unblockDepth_reap n pid (k := k2) (z := z) (by rw [hz2, hz1, hz])
    (by rw [hc2, hc1, hc]) (by rw [hp2, hp1, hr])
  have hlast := reap_refcount (Lowers.unblockDepth n) (k := k2) (z := z) (by rw [hp2, hp1, hzt]) hl
    (by rwa [htab2]) (by rwa [htab2])
  have hrest : Lowers (procUnblockDepth (n + 1) k2 pid)
      ((post.foldl (fdTableDestroyStep (procUnblockDepth (n + 1)) t)
        ((fileRelease (procUnblockDepth (n + 1)) k1 f).setEntry t fd none)).mmFree ⟨.table, t⟩) :=
    hlow.trans (.before ((Lowers.destroyFold hu t post _).trans (.of_files rfl)) rfl)
  have := (hreap.trans hrest).refcount f
  omega

/-- A block that closing files frees. -/
def IsEnd (b : Block) : Prop := b.kind = .file ∨ b.kind = .pipe ∨ b.kind = .pipeWaiter

/-- The nodes of waiting processes are distinct blocks that have not been freed. -/
structure WaitersOk (k : Kernel) : Prop where
  once : ∀ i, k.heap.freed.count ⟨.pipeWaiter, i⟩ ≤ 1
  nodup : ∀ p, (waiterBlocks (k.pipes p)).Nodup
  apart : ∀ p q, ∀ b ∈ waiterBlocks (k.pipes p), b ∈ waiterBlocks (k.pipes q) → p = q
  unfreed : ∀ p, ∀ b ∈ waiterBlocks (k.pipes p), b ∉ k.heap.freed

namespace WaitersOk

lemma of_eq (h : WaitersOk k) (hf : k'.heap.freed = k.heap.freed)
    (hp : ∀ p, waiterBlocks (k'.pipes p) = waiterBlocks (k.pipes p)) : WaitersOk k' := by
  constructor
  · rw [hf]
    exact h.once
  · intro p
    rw [hp]
    exact h.nodup p
  · intro p q
    rw [hp, hp]
    exact h.apart p q
  · intro p
    rw [hp, hf]
    exact h.unfreed p

lemma mmFree (h : WaitersOk k) {b : Block} (hb : b.kind ≠ .pipeWaiter) : WaitersOk (k.mmFree b) := by
  have hne : ∀ i, b ≠ ⟨.pipeWaiter, i⟩ := by
    rintro i rfl
    exact hb rfl
  refine ⟨fun i => ?_, h.nodup, h.apart, fun p c hc hm => ?_⟩
  · simpa [Kernel.mmFree, hne] using h.once i
  · obtain ⟨w, -, rfl⟩ := List.mem_map.mp hc
    have hm' : (⟨.pipeWaiter, w.node⟩ : Block) ∈ k.heap.freed := by
      simpa [Kernel.mmFree, (hne _).symm] using hm
    exact h.unfreed p _ hc hm'

/-- A node leaves its queue and is freed. -/
lemma pop (h : WaitersOk k) (p : Nat) {c : Kpipe} {i : Nat}
    (hc : (waiterBlocks (k.pipes p)).Perm (⟨.pipeWaiter, i⟩ :: waiterBlocks c)) :
    WaitersOk ((k.modifyPipe p fun _ => c).mmFree ⟨.pipeWaiter, i⟩) := by
  have hmem : ∀ q, ∀ b ∈ waiterBlocks ((k.modifyPipe p fun _ => c).pipes q),
      b ∈ waiterBlocks (k.pipes q) ∧ b ≠ ⟨.pipeWaiter, i⟩ := by
    intro q b hb
    have hi : (⟨.pipeWaiter, i⟩ : Block) ∈ waiterBlocks (k.pipes p) := hc.mem_iff.mpr (by simp)
    by_cases hq : q = p
    · subst hq
      have hb : b ∈ waiterBlocks c := by simpa [Kernel.modifyPipe] using hb
      have hnd := (hc.nodup_iff.mp (h.nodup q))
      exact ⟨hc.mem_iff.mpr (List.mem_cons_of_mem _ hb),
        ne_of_mem_of_not_mem hb (List.nodup_cons.mp hnd).1⟩
    · have hb : b ∈ waiterBlocks (k.pipes q) := by simpa [Kernel.modifyPipe, hq] using hb
      refine ⟨hb, ?_⟩
      rintro rfl
      exact hq (h.apart q p _ hb hi)
  constructor
  · intro j
    have hj := h.once j
    by_cases hij : i = j
    · subst hij
      have := h.unfreed p ⟨.pipeWaiter, i⟩ (hc.mem_iff.mpr (by simp))
      simp [Kernel.mmFree, Kernel.modifyPipe, List.count_eq_zero.mpr this]
    · simpa [Kernel.mmFree, Kernel.modifyPipe, hij] using hj
  · intro q
    by_cases hq : q = p
    · subst hq
      have hnd := (List.nodup_cons.mp (hc.nodup_iff.mp (h.nodup q))).2
      simpa [Kernel.mmFree, Kernel.modifyPipe] using hnd
    · simpa [Kernel.mmFree, Kernel.modifyPipe, hq] using h.nodup q
  · intro q r b hb hb'
    exact h.apart q r b (hmem q b hb).1 (hmem r b hb').1
  · intro q b hb hm
    obtain ⟨h1, h2⟩ := hmem q b hb
    have hm : b ∈ k.heap.freed := by simpa [Kernel.mmFree, Kernel.modifyPipe, h2] using hm
    exact h.unfreed q b h1 hm

end WaitersOk

/-- Closing files frees only what closing files frees, and each node once. -/
structure EndsFreed (k k' : Kernel) : Prop where
  tables : k'.tables = k.tables
  std : k'.stdinFile = k.stdinFile ∧ k'.stdoutFile = k.stdoutFile ∧ k'.stderrFile = k.stderrFile
  held : ∀ b, ¬IsEnd b → k'.heap.freed.count b = k.heap.freed.count b
  waiters : WaitersOk k → WaitersOk k'

namespace EndsFreed

lemma refl (k : Kernel) : EndsFreed k k := ⟨rfl, ⟨rfl, rfl, rfl⟩, fun _ _ => rfl, id⟩

lemma trans {k'' : Kernel} (h : EndsFreed k k') (h' : EndsFreed k' k'') : EndsFreed k k'' :=
  ⟨h'.tables.trans h.tables, ⟨h'.std.1.trans h.std.1, h'.std.2.1.trans h.std.2.1,
    h'.std.2.2.trans h.std.2.2⟩, fun b hb => (h'.held b hb).trans (h.held b hb),
    fun hw => h'.waiters (h.waiters hw)⟩

lemma mmFree (k : Kernel) {b : Block} (hb : b.kind = .file ∨ b.kind = .pipe) :
    EndsFreed k (k.mmFree b) := by
  refine ⟨rfl, ⟨rfl, rfl, rfl⟩, fun c hc => ?_, fun hw => hw.mmFree ?_⟩
  · have hne : b ≠ c := by
      rintro rfl
      exact hc (by rw [IsEnd]; tauto)
    simp [Kernel.mmFree, hne]
  · rcases hb with hb | hb <;> simp [hb]

lemma pop (k : Kernel) (p : Nat) {c : Kpipe} {i : Nat}
    (hc : (waiterBlocks (k.pipes p)).Perm (⟨.pipeWaiter, i⟩ :: waiterBlocks c)) :
    EndsFreed k ((k.modifyPipe p fun _ => c).mmFree ⟨.pipeWaiter, i⟩) := by
  refine ⟨rfl, ⟨rfl, rfl, rfl⟩, fun b hb => ?_, fun hw => hw.pop p hc⟩
  have hne : (⟨.pipeWaiter, i⟩ : Block) ≠ b := by
    rintro rfl
    exact hb (.inr (.inr rfl))
  simp [Kernel.mmFree, Kernel.modifyPipe, hne]

lemma modifyPipe (k : Kernel) (p : Nat) {f : Kpipe → Kpipe}
    (hf : waiterBlocks (f (k.pipes p)) = waiterBlocks (k.pipes p)) :
    EndsFreed k (k.modifyPipe p f) := by
  refine ⟨rfl, ⟨rfl, rfl, rfl⟩, fun _ _ => rfl, fun hw => hw.of_eq rfl fun q => ?_⟩
  by_cases hq : q = p
  · subst hq
    simpa [Kernel.modifyPipe] using hf
  · simp [Kernel.modifyPipe, hq]

lemma drainReaders (p n : Nat) (k : Kernel) :
    EndsFreed k (drainReaders wakeNobody p n k) ∧ (drainReaders wakeNobody p n k).pipes p =
      { k.pipes p with rWaiters := (k.pipes p).rWaiters.drop n } := by
  induction n generalizing k with
  | zero => exact ⟨refl k, rfl⟩
  | succ n ih =>
    rw [TP2Kernel.drainReaders, Kpipe.dequeueReader]
    cases hq : (k.pipes p).rWaiters with
    | nil =>
      refine ⟨refl k, ?_⟩
      dsimp only
      rw [List.drop_nil, ← hq]
    | cons w ws =>
      have h1 := pop k p (c := { k.pipes p with rWaiters := ws }) (i := w.node) (by
        rw [waiterBlocks, waiterBlocks, hq]
        exact .rfl)
      dsimp only [wakeNobody]
      obtain ⟨h2, e⟩ := ih ((k.modifyPipe p fun _ => { k.pipes p with rWaiters := ws }).mmFree
        ⟨.pipeWaiter, w.node⟩)
      refine ⟨h1.trans h2, e.trans ?_⟩
      simp [Kernel.mmFree, Kernel.modifyPipe]

lemma drainWriters (p n : Nat) (k : Kernel) :
    EndsFreed k (drainWriters wakeNobody p n k) ∧ (drainWriters wakeNobody p n k).pipes p =
      { k.pipes p with wWaiters := (k.pipes p).wWaiters.drop n } := by
  induction n generalizing k with
  | zero => exact ⟨refl k, rfl⟩
  | succ n ih =>
    rw [TP2Kernel.drainWriters, Kpipe.dequeueWriter]
    cases hq : (k.pipes p).wWaiters with
    | nil =>
      refine ⟨refl k, ?_⟩
      dsimp only
      rw [List.drop_nil, ← hq]
    | cons w ws =>
      have h1 := pop k p (c := { k.pipes p with wWaiters := ws }) (i := w.node) (by
        rw [waiterBlocks, waiterBlocks, hq, List.map_append, List.map_append]
        exact List.perm_middle)
      dsimp only [wakeNobody]
      obtain ⟨h2, e⟩ := ih ((k.modifyPipe p fun _ => { k.pipes p with wWaiters := ws }).mmFree
        ⟨.pipeWaiter, w.node⟩)
      refine ⟨h1.trans h2, e.trans ?_⟩
      simp [Kernel.mmFree, Kernel.modifyPipe]

/-- A side that is drained when nobody is left on the other side has no queue afterwards. -/
lemma kpipeClose (k : Kernel) (p : Nat) (rd wr : Bool) :
    EndsFreed k (kpipeClose wakeNobody k p rd wr) := by
  have h1 : EndsFreed k (k.modifyPipe p fun c => pipeDropUser c rd wr) := modifyPipe k p rfl
  unfold TP2Kernel.kpipeClose
  dsimp only
  generalize k.modifyPipe p (fun c => pipeDropUser c rd wr) = k1 at h1
  obtain ⟨hd2, e2⟩ := drainReaders p (k1.pipes p).rWaiters.length k1
  have h2 : EndsFreed k1 (if (decide ((k1.pipes p).writers = 0) &&
      !(k1.pipes p).rWaiters.isEmpty) = true then
      TP2Kernel.drainReaders wakeNobody p (k1.pipes p).rWaiters.length k1 else k1) := by
    split
    · exact hd2
    · exact refl k1
  have hq2 : (k1.pipes p).writers = 0 → ((if (decide ((k1.pipes p).writers = 0) &&
      !(k1.pipes p).rWaiters.isEmpty) = true then
      TP2Kernel.drainReaders wakeNobody p (k1.pipes p).rWaiters.length k1 else k1).pipes p).rWaiters =
      [] := by
    intro hw
    split
    · rw [e2, List.drop_length]
    · simp_all
  have hw2 : ((if (decide ((k1.pipes p).writers = 0) && !(k1.pipes p).rWaiters.isEmpty) = true then
      TP2Kernel.drainReaders wakeNobody p (k1.pipes p).rWaiters.length k1 else k1).pipes p).wWaiters =
      (k1.pipes p).wWaiters := by
    split
    · rw [e2]
    · rfl
  generalize (if (decide ((k1.pipes p).writers = 0) && !(k1.pipes p).rWaiters.isEmpty) = true then
    TP2Kernel.drainReaders wakeNobody p (k1.pipes p).rWaiters.length k1 else k1) = k2
    at h2 hq2 hw2 ⊢
  obtain ⟨hd3, e3⟩ := drainWriters p (k2.pipes p).wWaiters.length k2
  have h3 : EndsFreed k2 (if (decide ((k1.pipes p).readers = 0) &&
      !(k1.pipes p).wWaiters.isEmpty) = true then
      TP2Kernel.drainWriters wakeNobody p (k2.pipes p).wWaiters.length k2 else k2) := by
    split
    · exact hd3
    · exact refl k2
  have hq3 : (k1.pipes p).writers = 0 → (k1.pipes p).readers = 0 →
      waiterBlocks ((if (decide ((k1.pipes p).readers = 0) && !(k1.pipes p).wWaiters.isEmpty) = true
        then TP2Kernel.drainWriters wakeNobody p (k2.pipes p).wWaiters.length k2 else k2).pipes p) =
      [] := by
    intro hw hr
    split
    · rw [e3, List.drop_length, waiterBlocks, hq2 hw]
      rfl
    · have hnil : (k2.pipes p).wWaiters = [] := by simp_all
      rw [waiterBlocks, hq2 hw, hnil]
      rfl
  generalize (if (decide ((k1.pipes p).readers = 0) && !(k1.pipes p).wWaiters.isEmpty) = true then
    TP2Kernel.drainWriters wakeNobody p (k2.pipes p).wWaiters.length k2 else k2) = k3 at h3 hq3 ⊢
  have h4 := (h1.trans h2).trans h3
  split
  · rename_i hfree
    have hnone : (((k3.pipes p).rWaiters ++ (k3.pipes p).wWaiters).map fun w =>
        (⟨.pipeWaiter, w.node⟩ : Block)) = [] := hq3 (by simp_all) (by simp_all)
    rw [pipeFree, hnone]
    exact h4.trans (mmFree k3 (.inr rfl))
  · exact h4

lemma fileRelease (k : Kernel) (f : Nat) : EndsFreed k (fileRelease wakeNobody k f) := by
  have h1 : EndsFreed k (k.modifyFile f fun c => { c with refcount := c.refcount - 1 }) :=
    ⟨rfl, ⟨rfl, rfl, rfl⟩, fun _ _ => rfl, fun hw => hw.of_eq rfl fun _ => rfl⟩
  unfold TP2Kernel.fileRelease
  dsimp only
  split
  · exact h1
  · refine (h1.trans ?_).trans (mmFree _ (.inl rfl))
    unfold fileClose
    split
    · exact refl _
    · exact kpipeClose _ _ _ _

end EndsFreed

lemma destroyFold_ends (l : List (Fin fdMax)) (k : Kernel) :
    let k' := l.foldl (fdTableDestroyStep wakeNobody t) k
    (∀ s, s ≠ t → k'.tables s = k.tables s) ∧ EndsFreed { k with tables := k'.tables } k' := by
  induction l generalizing k with
  | nil => exact ⟨fun _ _ => rfl, .refl k⟩
  | cons fd l ih =>
    dsimp only at ih ⊢
    rw [List.foldl_cons]
    obtain ⟨h1, h2⟩ := ih (fdTableDestroyStep wakeNobody t k fd)
    generalize l.foldl (fdTableDestroyStep wakeNobody t) (fdTableDestroyStep wakeNobody t k fd) = k2
      at h1 h2
    unfold fdTableDestroyStep at h1 h2
    cases hfd : k.tables t fd with
    | none =>
      rw [hfd] at h1 h2
      exact ⟨h1, h2⟩
    | some f =>
      rw [hfd] at h1 h2
      dsimp only at h1 h2
      have h3 := EndsFreed.fileRelease k f
      refine ⟨fun s hs => ?_, ?_⟩
      · rw [h1 s hs]
        simp [Kernel.setEntry, hs, h3.tables]
      · refine ⟨rfl, ⟨h2.std.1.trans h3.std.1, h2.std.2.1.trans h3.std.2.1,
          h2.std.2.2.trans h3.std.2.2⟩, fun b hb => (h2.held b hb).trans (h3.held b hb), fun hw => ?_⟩
        have hw1 : WaitersOk k := hw.of_eq rfl fun _ => rfl
        exact h2.waiters ((h3.waiters hw1).of_eq rfl fun _ => rfl)

/-- The blocks `bs` are freed once, and the descriptors of `z` drop their references. -/
structure HandedBack (T : Finset Nat) (z : Slot) (bs : List Block) (k k' : Kernel) : Prop where
  counted : ∃ T', FdCounted T' (unlisted k') ∧ ∀ s ∈ T, (k.procs z).fdTable ≠ some s → s ∈ T'
  waiters : WaitersOk k'
  tables : ∀ s, (k.procs z).fdTable ≠ some s → k'.tables s = k.tables s
  refs : ∀ f, (k'.files f).refcount = (k.files f).refcount - heldRefs k f z
  held : ∀ b, ¬IsEnd b → k'.heap.freed.count b = k.heap.freed.count b + bs.count b

/-- Writes that do not reach the files. -/
lemma FdCounted.quiet (h : FdCounted T (unlisted k)) (hs : FdSame k k') :
    FdCounted T (unlisted k') :=
  h.same ⟨⟨⟨hs.files, hs.tables, hs.std, hs.next⟩, hs.buckets, hs.pipes, hs.freed⟩,
    fun _ => bare_of_none rfl⟩

lemma destroy_ends (k : Kernel) (t : Nat) :
    (∀ s, s ≠ t → (fdTableDestroy wakeNobody k t).tables s = k.tables s) ∧
    (∀ f, IsStd (fdTableDestroy wakeNobody k t) f ↔ IsStd k f) ∧
    (∀ b, ¬IsEnd b → (fdTableDestroy wakeNobody k t).heap.freed.count b =
      k.heap.freed.count b + [Block.mk .table t].count b) ∧
    (WaitersOk k → WaitersOk (fdTableDestroy wakeNobody k t)) := by
  obtain ⟨htab, he⟩ := destroyFold_ends (t := t) (List.finRange fdMax) k
  rw [fdTableDestroy]
  generalize (List.finRange fdMax).foldl (fdTableDestroyStep wakeNobody t) k = kd at htab he ⊢
  refine ⟨htab, fun f => ?_, fun b hb => ?_, fun h => ?_⟩
  · simp only [IsStd, Kernel.mmFree, he.std.1, he.std.2.1, he.std.2.2]
  · exact List.count_append.trans (by rw [he.held b hb])
  · exact (he.waiters (h.of_eq rfl fun _ => rfl)).mmFree (by simp)

lemma handedBack_dropTable {z : Slot} (h : FdCounted T (unlisted k)) (hw : WaitersOk k)
    (hz : ∀ s, (k.procs z).fdTable = some s → s ∈ T) :
    HandedBack T z ((k.procs z).fdTable.map (Block.mk .table)).toList k (dropTable wakeNobody k z) := by
  unfold dropTable
  cases ht : (k.procs z).fdTable with
  | none =>
    refine ⟨⟨T, h, fun s hs _ => hs⟩, hw, fun _ _ => rfl, fun f => ?_, fun b _ => by simp⟩
    rw [heldRefs, ht]
    simp
  | some t =>
    have htT := hz t ht
    obtain ⟨htab, hstd, hfreed, hwait⟩ := destroy_ends k t
    have hs := (nested_nobody.destroy (k := k) trivial (sameStore_unlisted k) t).1
    have hc := (h.destroy wakesCalmly_nobody htT).unlist hs
    dsimp only
    generalize fdTableDestroy wakeNobody k t = kd at hc htab hstd hfreed hwait ⊢
    have hrefs : ∀ f, (kd.files f).refcount = (k.files f).refcount - fileEntries {t} k f := by
      intro f
      have hsum : fileEntries (T.erase t) kd f = fileEntries (T.erase t) k f := by
        rw [fileEntries_eq, fileEntries_eq]
        exact Finset.sum_congr rfl fun s hs => by rw [htab s (Finset.ne_of_mem_erase hs)]
      have h1 : (kd.files f).refcount =
          fileEntries (T.erase t) kd f + (if IsStd kd f then 1 else 0) + 0 := hc.refs.count f
      have h2 := refcount_split h htT f
      rw [refsElsewhere] at h2
      simp only [hstd, hsum] at h1
      rw [h1, h2]
      push_cast
      ring
    refine ⟨⟨T.erase t, hc.quiet (.of_same rfl), fun s hs hne => ?_⟩,
      (hwait hw).of_eq rfl fun _ => rfl, fun s hne => ?_, fun f => ?_, fun b hb => ?_⟩
    · refine Finset.mem_erase.mpr ⟨?_, hs⟩
      rintro rfl
      exact hne ht
    · refine htab s ?_
      rintro rfl
      exact hne ht
    · rw [heldRefs, ht]
      exact hrefs f
    · exact hfreed b hb

lemma WaitersOk.frees (h : WaitersOk k) {bs : List Block} (hb : ∀ b ∈ bs, b.kind ≠ .pipeWaiter)
    (hf : k'.heap.freed = k.heap.freed ++ bs) (hp : k'.pipes = k.pipes) : WaitersOk k' := by
  have h1 : WaitersOk (bs.foldl Kernel.mmFree k) := by
    clear hf
    induction bs generalizing k with
    | nil => exact h
    | cons b bs ih => exact ih (h.mmFree (hb b (by simp))) (fun c hc => hb c (by simp [hc])) hp
  rw [Kernel.mmFrees_eq] at h1
  exact h1.of_eq hf fun p => by rw [hp]

lemma freeKstack_frees (k : Kernel) (z : Slot) :
    (freeKstack k z).heap.freed = k.heap.freed ++
        ((k.procs z).kstackBase.map (Block.mk .stack)).toList ∧
      (freeKstack k z).pipes = k.pipes ∧
      ((freeKstack k z).procs z).waitRes = (k.procs z).waitRes ∧
      (freeKstack k z).heap.next = k.heap.next := by
  unfold freeKstack
  cases h : (k.procs z).kstackBase with
  | none => simp
  | some a => simp [Kernel.modify, Kernel.mmFree]

lemma cleanupWaitResults_frees (k : Kernel) (z : Slot) :
    (cleanupWaitResults k z).heap.freed = k.heap.freed ++
        (k.procs z).waitRes.map (fun r => ⟨.waitResult, r.node⟩) ∧
      (cleanupWaitResults k z).pipes = k.pipes ∧
      (cleanupWaitResults k z).heap.next = k.heap.next := by
  rw [cleanupWaitResults, Kernel.mmFrees_eq]
  exact ⟨rfl, rfl, rfl⟩

lemma handedBack_reap {z : Slot} (h : FdCounted T (unlisted k)) (hw : WaitersOk k)
    (hz : ∀ s, (k.procs z).fdTable = some s → s ∈ T) :
    HandedBack T z (zombieBlocks (k.procs z)) k (reap wakeNobody k z) := by
  obtain ⟨a1, a2, a3, -⟩ := freeKstack_frees k z
  obtain ⟨b1, b2, -⟩ := cleanupWaitResults_frees (freeKstack k z) z
  have hs := (fdCalm_freeKstack k z).toFdSame.trans
    (fdCalm_cleanupWaitResults (freeKstack k z) z).toFdSame
  have ht : ((cleanupWaitResults (freeKstack k z) z).procs z).fdTable = (k.procs z).fdTable :=
    (cleanupWaitResults_fdTable _ z).trans (freeKstack_fdTable k z)
  have hfreed := b1
  rw [a1, a3, List.append_assoc] at hfreed
  have hres := (reaped_cleanupWaitResults (freeKstack k z) z).2.1
  unfold reap
  rw [releaseSlot_drop]
  generalize cleanupWaitResults (freeKstack k z) z = k2 at hs ht hfreed b2 hres
  have hw2 : WaitersOk k2 := by
    refine hw.frees (fun b hb => ?_) hfreed (b2.trans a2)
    rcases List.mem_append.mp hb with hb | hb
    · obtain ⟨a, -, rfl⟩ := Option.map_eq_some_iff.mp (Option.mem_toList.mp hb)
      simp
    · obtain ⟨r, -, rfl⟩ := List.mem_map.mp hb
      simp
  obtain ⟨⟨T', hT', hsub⟩, hw3, htab, hrefs, hheld⟩ := handedBack_dropTable (h.quiet hs) hw2
    (z := z) (by rwa [ht])
  have hres3 : ((dropTable wakeNobody k2 z).procs z).waitRes = [] :=
    (reaped_dropTable k2 z).2.2.2.trans hres
  obtain ⟨c1, c2, -⟩ := cleanupWaitResults_frees (dropTable wakeNobody k2 z) z
  rw [hres3, List.map_nil, List.append_nil] at c1
  have hs4 := (fdCalm_cleanupWaitResults (dropTable wakeNobody k2 z) z).toFdSame
  have hs5 : FdSame (dropTable wakeNobody k2 z)
      (freeSlot (cleanupWaitResults (dropTable wakeNobody k2 z) z) z) := hs4.trans (.of_same rfl)
  refine ⟨⟨T', hT'.quiet hs5, fun s hsT hne => hsub s hsT (by rwa [ht])⟩,
    hw3.of_eq c1 fun p => ?_, fun s hne => ?_, fun f => ?_, fun b hb => ?_⟩
  · rw [show (freeSlot (cleanupWaitResults (dropTable wakeNobody k2 z) z) z).pipes =
      (dropTable wakeNobody k2 z).pipes from c2]
  · rw [hs5.tables, htab s (by rwa [ht]), hs.tables]
  · rw [hs5.files, hrefs, hs.files]
    simp only [heldRefs, fileEntries, ht, hs.tables]
  · rw [show (freeSlot (cleanupWaitResults (dropTable wakeNobody k2 z) z) z).heap.freed =
      (dropTable wakeNobody k2 z).heap.freed from c1, hheld b hb, hfreed, ht, zombieBlocks]
    simp only [List.count_append]
    omega

/-- A zombie list and what its processes own, in a kernel whose files are counted. -/
structure Collectable (zs : List Slot) (T : Finset Nat) (k : Kernel) : Prop where
  chain : LinkedList.IsChain k.cleanupNext k.zombieHead zs
  counted : FdCounted T (unlisted k)
  tables : ∀ z ∈ zs, ∀ t, (k.procs z).fdTable = some t → t ∈ T
  blocks : (k.heap.freed ++ zs.flatMap fun z => zombieBlocks (k.procs z)).Nodup
  waiters : WaitersOk k

/-- What the walk over `zs` gives back when nobody is woken. -/
structure ListHandedBack (zs : List Slot) (k k' : Kernel) : Prop where
  counted : ∃ T, FdCounted T (unlisted k')
  waiters : WaitersOk k'
  refs : ∀ f, (k'.files f).refcount =
    (k.files f).refcount - ((reapedOf k zs).map (heldRefs k f)).sum
  held : ∀ b, ¬IsEnd b → k'.heap.freed.count b = k.heap.freed.count b +
    ((reapedOf k zs).flatMap fun z => zombieBlocks (k.procs z)).count b

lemma heldRefs_congr {f : Nat} {z : Slot} (hp : (k'.procs z).fdTable = (k.procs z).fdTable)
    (ht : ∀ t, (k.procs z).fdTable = some t → k'.tables t = k.tables t) :
    heldRefs k' f z = heldRefs k f z := by
  rw [heldRefs, heldRefs, hp]
  cases h : (k.procs z).fdTable with
  | none => rfl
  | some t =>
    dsimp only
    rw [fileEntries_eq, fileEntries_eq, Finset.sum_singleton, Finset.sum_singleton, ht t h]

lemma reapedOf_congr {zs : List Slot} (hp : ∀ z ∈ zs, k'.procs z = k.procs z) :
    reapedOf k' zs = reapedOf k zs := by
  rw [reapedOf, reapedOf]
  refine List.filter_congr fun z hz => ?_
  rw [hp z hz]

namespace ListHandedBack

variable {zs : List Slot} {z : Slot} {kr : Kernel}

/-- A zombie that is reaped, in the kernel `kr` after it, and those behind it. -/
lemma cons (h : ListHandedBack zs kr k') (hr : reapable (k.procs z) = true)
    (hprocs : ∀ y ∈ zs, kr.procs y = k.procs y)
    (htab : ∀ y ∈ zs, ∀ t, (k.procs y).fdTable = some t → kr.tables t = k.tables t)
    (hrefs : ∀ f, (kr.files f).refcount = (k.files f).refcount - heldRefs k f z)
    (hheld : ∀ b, ¬IsEnd b → kr.heap.freed.count b =
      k.heap.freed.count b + (zombieBlocks (k.procs z)).count b) :
    ListHandedBack (z :: zs) k k' := by
  have hreaped : reapedOf k (z :: zs) = z :: reapedOf k zs := by
    rw [reapedOf, reapedOf, List.filter_cons_of_pos (p := fun z => reapable (k.procs z)) hr]
  have hsame := reapedOf_congr hprocs
  have hmem : ∀ y ∈ reapedOf k zs, y ∈ zs := fun y hy => (List.mem_filter.mp hy).1
  refine ⟨h.counted, h.waiters, fun f => ?_, fun b hb => ?_⟩
  · have hsum : (reapedOf k zs).map (heldRefs kr f) = (reapedOf k zs).map (heldRefs k f) :=
      List.map_congr_left fun y hy => heldRefs_congr (by rw [hprocs y (hmem y hy)]) fun t hyt =>
        htab y (hmem y hy) t hyt
    rw [h.refs, hsame, hsum, hrefs, hreaped, List.map_cons, List.sum_cons]
    push_cast
    ring
  · have hflat : ((reapedOf k zs).flatMap fun y => zombieBlocks (kr.procs y)) =
        (reapedOf k zs).flatMap fun y => zombieBlocks (k.procs y) := by
      rw [List.flatMap_def, List.flatMap_def]
      congr 1
      exact List.map_congr_left fun y hy => by rw [hprocs y (hmem y hy)]
    rw [h.held b hb, hsame, hflat, hheld b hb, hreaped, List.flatMap_cons, List.count_append]
    omega

/-- A zombie that stays on the list. -/
lemma skip {next : Slot → Option Slot} (h : ListHandedBack zs { k with cleanupNext := next } k')
    (hr : ¬reapable (k.procs z) = true) : ListHandedBack (z :: zs) k k' := by
  have hreaped : reapedOf k (z :: zs) = reapedOf k zs := by
    rw [reapedOf, reapedOf, List.filter_cons_of_neg (p := fun z => reapable (k.procs z)) hr]
  refine ⟨h.counted, h.waiters, ?_, ?_⟩
  · rw [hreaped]
    exact h.refs
  · rw [hreaped]
    exact h.held

end ListHandedBack

/-- The walk of `collect_zombies` when nobody is woken. -/
lemma collectLoop_gives {zs : List Slot} {n : Nat} (hn : zs.length ≤ n)
    {cursor pending : Option Slot} (hzs : LinkedList.IsChain k.cleanupNext cursor zs)
    (hc : FdCounted T (unlisted k)) (hw : WaitersOk k)
    (ht : ∀ z ∈ zs, ∀ t, (k.procs z).fdTable = some t → t ∈ T)
    (hd : zs.Pairwise fun z z' => ∀ t, (k.procs z').fdTable = some t → (k.procs z).fdTable ≠ some t) :
    ListHandedBack zs k (collectLoop wakeNobody n cursor pending k) := by
  induction zs generalizing n cursor pending k T with
  | nil =>
    cases hzs
    rw [collectLoop_none]
    exact ⟨⟨T, hc⟩, hw.of_eq rfl fun _ => rfl, fun f => by simp [reapedOf], fun b _ => by
      simp [reapedOf]⟩
  | cons z zs ih =>
    have hzz : z ∉ zs := (List.nodup_cons.mp (LinkedList.isChain_nodup hzs)).1
    obtain ⟨rfl, hzs⟩ := hzs
    obtain ⟨n, rfl⟩ : ∃ m, n = m + 1 := ⟨n - 1, by simp at hn; omega⟩
    have hn' : zs.length ≤ n := by simpa using hn
    have hne : ∀ y ∈ zs, y ≠ z := fun y hy => ne_of_mem_of_not_mem hy hzz
    obtain ⟨hd1, hd2⟩ := List.pairwise_cons.mp hd
    simp only [collectLoop]
    split
    · rename_i hr
      set k1 : Kernel := { k with cleanupNext := update k.cleanupNext z none } with hk1
      have hg : HandedBack T z (zombieBlocks (k.procs z)) k1 (reap wakeNobody k1 z) :=
        handedBack_reap (k := k1) (hc.quiet (.of_same rfl)) (hw.of_eq rfl fun _ => rfl)
          (ht z List.mem_cons_self)
      obtain ⟨hrd, -⟩ := reaped_reap k1 z
      change ListHandedBack (z :: zs) k (collectLoop wakeNobody n (k.cleanupNext z) pending
        (reap wakeNobody k1 z))
      obtain ⟨⟨T', hT', hsub⟩, hw', htab, hrefs, hheld⟩ := hg
      have hprocs : ∀ y ∈ zs, (reap wakeNobody k1 z).procs y = k.procs y := fun y hy =>
        hrd.others y (hne y hy)
      have hchain : LinkedList.IsChain (reap wakeNobody k1 z).cleanupNext (k.cleanupNext z) zs := by
        rw [hrd.cleanup]
        exact (LinkedList.isChain_congr fun y hy => update_of_ne (hne y hy) _ _).mpr hzs
      have hrest : ListHandedBack zs (reap wakeNobody k1 z)
          (collectLoop wakeNobody n (k.cleanupNext z) pending (reap wakeNobody k1 z)) := by
        refine ih hn' hchain hT' hw' (fun y hy t hyt => ?_) (hd2.imp_of_mem ?_)
        · rw [hprocs y hy] at hyt
          exact hsub t (ht y (List.mem_cons_of_mem z hy) t hyt) (hd1 y hy t hyt)
        · intro y y' hy hy' hyy t hyt
          rw [hprocs y' hy'] at hyt
          rw [hprocs y hy]
          exact hyy t hyt
      exact hrest.cons hr hprocs (fun y hy t hyt => htab t (hd1 y hy t hyt)) hrefs hheld
    · rename_i hr
      have hchain : LinkedList.IsChain (update (update k.cleanupNext z none) z pending)
          (k.cleanupNext z) zs := by
        refine (LinkedList.isChain_congr fun y hy => ?_).mpr hzs
        rw [update_of_ne (hne y hy), update_of_ne (hne y hy)]
      set k1 : Kernel :=
        { k with cleanupNext := update (update k.cleanupNext z none) z pending } with hk1
      have hrest : ListHandedBack zs k1
          (collectLoop wakeNobody n (k.cleanupNext z) (some z) k1) :=
        ih hn' hchain (hc.quiet (.of_same rfl)) (hw.of_eq rfl fun _ => rfl)
          (fun y hy => ht y (List.mem_cons_of_mem z hy)) hd2
      exact hrest.skip hr

namespace Collectable

variable {zs : List Slot}

lemma apart (h : Collectable zs T k) :
    zs.Pairwise fun z z' => ∀ t, (k.procs z').fdTable = some t → (k.procs z).fdTable ≠ some t := by
  have hmem : ∀ z t, (k.procs z).fdTable = some t →
      (⟨.table, t⟩ : Block) ∈ zombieBlocks (k.procs z) := by
    intro z t ht
    simp [zombieBlocks, ht]
  refine List.Pairwise.imp ?_ (List.nodup_flatMap.mp (List.nodup_append.mp h.blocks).2.1).2
  intro z z' hd t ht' ht
  exact hd (hmem z t ht) (hmem z' t ht')

lemma ends (b : Block) {c : Pcb} (hb : b ∈ zombieBlocks c) : ¬IsEnd b := by
  rw [zombieBlocks, List.mem_append, List.mem_append] at hb
  rcases hb with (hb | hb) | hb
  · obtain ⟨a, -, rfl⟩ := Option.map_eq_some_iff.mp (Option.mem_toList.mp hb)
    simp [IsEnd]
  · obtain ⟨a, -, rfl⟩ := Option.map_eq_some_iff.mp (Option.mem_toList.mp hb)
    simp [IsEnd]
  · obtain ⟨r, -, rfl⟩ := List.mem_map.mp hb
    simp [IsEnd]

lemma once (h : Collectable zs T k) (hg : ListHandedBack zs k k') : k'.heap.freed.Nodup := by
  rw [List.nodup_iff_count_le_one]
  intro b
  obtain ⟨T', hc⟩ := hg.counted
  by_cases hb : IsEnd b
  · obtain ⟨kind, i⟩ := b
    rcases hb with hb | hb | hb <;> dsimp only at hb <;> subst hb
    · exact hc.ends.fileOnce i
    · exact hc.ends.pipeOnce i
    · exact hg.waiters.once i
  · have hsub : ((reapedOf k zs).flatMap fun z => zombieBlocks (k.procs z)).Sublist
        (zs.flatMap fun z => zombieBlocks (k.procs z)) := List.filter_sublist.flatMap _
    have h1 := List.nodup_iff_count_le_one.mp h.blocks b
    rw [List.count_append] at h1
    have h2 := hsub.count_le b
    rw [hg.held b hb]
    omega

/-- When nobody is woken, everything is given back once. -/
lemma collectedOnce (h : Collectable zs T k) :
    CollectedOnce zs k (collectZombiesWith wakeNobody k) := by
  have hlen : zs.length ≤ maxProcs := by
    simpa using LinkedList.isChain_length_le h.chain
  have hg : ListHandedBack zs k (collectZombiesWith wakeNobody k) :=
    collectLoop_gives hlen h.chain h.counted h.waiters h.tables h.apart
  have hnd := h.once hg
  refine ⟨fun z hz b hb => ?_, hg.refs, fun f => ?_, hnd⟩
  · have hmem : b ∈ (reapedOf k zs).flatMap fun z => zombieBlocks (k.procs z) :=
      List.mem_flatMap.mpr ⟨z, hz, hb⟩
    have hpos := List.count_pos_iff.mpr hmem
    have hle := List.nodup_iff_count_le_one.mp hnd b
    have heq := hg.held b (ends b hb)
    omega
  · obtain ⟨T', hc⟩ := hg.counted
    exact hc.ends.pos f

end Collectable

/-- What the call has freed and which references are left does not depend on the rest. -/
lemma CollectedOnce.store {zs : List Slot} (h : CollectedOnce zs k k0) (hs : SameStore k0 k') :
    CollectedOnce zs k k' := by
  obtain ⟨h1, h2, h3, h4⟩ := h
  refine ⟨?_, ?_, ?_, ?_⟩
  · rwa [hs.heap]
  · rwa [hs.files]
  · rwa [hs.files]
  · rwa [hs.heap]

lemma dropsLastEnd_congr (hf : k'.files = k.files) (ht : k'.tables = k.tables)
    (hp : k'.pipes = k.pipes) (hn : k'.heap.next = k.heap.next) (t p : Nat) :
    DropsLastEnd k' t p ↔ DropsLastEnd k t p := by
  simp only [DropsLastEnd, OnlyIn, liveFiles, fileEntries, hf, ht, hp, hn]

/-- The first zombie when its table is destroyed. -/
lemma before_destroy (hc : FdCounted T (unlisted k)) {z : Slot} :
    let k1 : Kernel := { k with cleanupNext := update k.cleanupNext z none }
    let k2 := cleanupWaitResults (freeKstack k1 z) z
    FdCounted T (unlisted k2) ∧ Reaped z k1 k2 ∧ (k2.procs z).fdTable = (k.procs z).fdTable ∧
      (∀ t p, DropsLastEnd k2 t p ↔ DropsLastEnd k t p) ∧ Lowers k k2 := by
  intro k1 k2
  obtain ⟨-, a2, -, a4⟩ := freeKstack_frees k1 z
  obtain ⟨-, b2, b3⟩ := cleanupWaitResults_frees (freeKstack k1 z) z
  have hs : FdSame k1 k2 := (fdCalm_freeKstack k1 z).toFdSame.trans
    (fdCalm_cleanupWaitResults (freeKstack k1 z) z).toFdSame
  have hr : Reaped z k1 k2 :=
    (reaped_freeKstack k1 z).1.trans (reaped_cleanupWaitResults (freeKstack k1 z) z).1
  have ht : (k2.procs z).fdTable = (k.procs z).fdTable :=
    (cleanupWaitResults_fdTable _ z).trans (freeKstack_fdTable k1 z)
  have hnext : k2.heap.next = k.heap.next := b3.trans a4
  have hc1 : FdCounted T (unlisted k1) := hc.quiet (.of_same rfl)
  refine ⟨hc1.quiet hs, hr, ht, fun t p => ?_, .of_files hs.files⟩
  exact dropsLastEnd_congr hs.files hs.tables (b2.trans a2) hnext t p

/-- A first zombie whose table wakes nobody is reaped as if nobody could be woken. -/
lemma reap_first (unblock : Kernel → Int → Kernel) (hc : FdCounted T (unlisted k)) {z : Slot}
    (ht : ∀ t, (k.procs z).fdTable = some t → t ∈ T)
    (hno : ∀ t p, (k.procs z).fdTable = some t → ¬DropsLastEnd k t p) :
    reap unblock { k with cleanupNext := update k.cleanupNext z none } z =
      reap wakeNobody { k with cleanupNext := update k.cleanupNext z none } z := by
  obtain ⟨hc2, -, ht2, hdrop, -⟩ := before_destroy hc (z := z)
  unfold reap
  rw [releaseSlot_drop, releaseSlot_drop]
  generalize cleanupWaitResults (freeKstack { k with
    cleanupNext := update k.cleanupNext z none } z) z = k2 at hc2 ht2 hdrop
  have he : dropTable unblock k2 z = dropTable wakeNobody k2 z := by
    unfold dropTable
    rw [ht2]
    cases h : (k.procs z).fdTable with
    | none => rfl
    | some t =>
      have hq : QuietOn t (List.finRange fdMax) k2 :=
        (Midway.refl hc2).quiet (ht t h) hc2 (fun p hd => hno t p h ((hdrop t p).mp hd)) _
      dsimp only
      rw [fdTableDestroy, fdTableDestroy, destroyFold_quiet unblock hq]
  rw [he]

lemma collect_nobody {zs : List Slot} (h : Collectable zs T k) (hno : ¬FirstWakes k) (d : Nat) :
    SameStore (collectZombiesWith wakeNobody k) (collectZombiesWith (procUnblockDepth d) k) := by
  unfold collectZombiesWith
  obtain ⟨m, hm⟩ : ∃ m, maxProcs = m + 1 := ⟨_, rfl⟩
  rw [hm]
  cases zs with
  | nil =>
    have hz : k.zombieHead = none := h.chain
    rw [hz, collectLoop_none, collectLoop_none]
    exact .refl _
  | cons z zs =>
    have hnd : z ∉ zs := (List.nodup_cons.mp (LinkedList.isChain_nodup h.chain)).1
    obtain ⟨hz, hzs⟩ := h.chain
    have hne : ∀ y ∈ zs, y ≠ z := fun y hy => ne_of_mem_of_not_mem hy hnd
    rw [hz]
    simp only [collectLoop]
    split
    · rename_i hr
      have hreap := reap_first (procUnblockDepth d) h.counted (h.tables z List.mem_cons_self)
        fun t p ht hd => hno ⟨z, t, p, hz, hr, ht, hd⟩
      unfold reap at hreap
      rw [hreap]
      obtain ⟨hrd, hown⟩ := reaped_reap { k with cleanupNext := update k.cleanupNext z none } z
      unfold reap at hrd hown
      generalize releaseSlot wakeNobody (cleanupWaitResults (freeKstack { k with
        cleanupNext := update k.cleanupNext z none } z) z) z = k1 at hrd hown
      have hspent : Spent z k1 := by
        intro y hy
        rw [hrd.head] at hy
        obtain rfl : y = z := Option.some.inj (hy.symm.trans hz)
        rw [hrd.cleanup]
        exact ⟨rfl, update_self .., fun _ => hown⟩
      refine collectLoop_spent (nested_spent d z) hspent (.refl k1) ?_ hnd
      rw [hrd.cleanup]
      exact (LinkedList.isChain_congr fun y hy => update_of_ne (hne y hy) _ _).mpr hzs
    · rename_i hr
      have hspent : Spent z { k with
          cleanupNext := update (update k.cleanupNext z none) z none } := by
        intro y hy
        obtain rfl : y = z := Option.some.inj (hy.symm.trans hz)
        exact ⟨rfl, update_self .., fun h => absurd h hr⟩
      refine collectLoop_spent (nested_spent d z) hspent (.refl _) ?_ hnd
      refine (LinkedList.isChain_congr fun y hy => ?_).mpr hzs
      exact (update_of_ne (hne y hy) _ _).trans (update_of_ne (hne y hy) _ _)

/-- With a first zombie that wakes somebody, a file loses a reference that it does not have. -/
lemma collect_twice {zs : List Slot} (h : Collectable zs T k) (hw : FirstWakes k) (d : Nat) :
    ∃ f, ((collectZombiesWith (procUnblockDepth (d + 1)) k).files f).refcount < 0 := by
  obtain ⟨z, t, p, hz, hr, ht, hd⟩ := hw
  have htT : t ∈ T := by
    cases zs with
    | nil =>
      have hz' : k.zombieHead = none := h.chain
      rw [hz'] at hz
      cases hz
    | cons y zs =>
      obtain rfl : y = z := Option.some.inj (h.chain.1.symm.trans hz)
      exact h.tables y List.mem_cons_self t ht
  unfold collectZombiesWith
  obtain ⟨m, hm⟩ : ∃ m, maxProcs = m + 1 := ⟨_, rfl⟩
  rw [hm, hz]
  simp only [collectLoop]
  rw [if_pos hr, releaseSlot_drop]
  obtain ⟨hc2, hrd, ht2, hdrop, -⟩ := before_destroy h.counted (z := z)
  generalize cleanupWaitResults (freeKstack { k with
    cleanupNext := update k.cleanupNext z none } z) z = k2 at hc2 hrd ht2 hdrop ⊢
  obtain ⟨f, hf⟩ := destroy_loud d hc2 htT (z := z) (by rw [hrd.head, hz])
    (by rw [hrd.cleanup]; exact update_self ..) (by rw [hrd.reapable, hr]) (by rw [ht2, ht])
    (not_quiet hc2 htT ((hdrop t p).mpr hd))
  refine ⟨f, ?_⟩
  have hlow : Lowers (fdTableDestroy (procUnblockDepth (d + 1)) k2 t)
      (dropTable (procUnblockDepth (d + 1)) k2 z) := by
    rw [dropTable, ht2, ht]
    exact (Lowers.refl _).dropEntry
  have hslot := (Lowers.cleanupWaitResults (dropTable (procUnblockDepth (d + 1)) k2 z) z).trans
    (.of_files rfl : Lowers _ (freeSlot _ z))
  have hrest := Lowers.collectLoop (Lowers.unblockDepth (d + 1)) m (k.cleanupNext z) none
    (freeSlot (cleanupWaitResults (dropTable (procUnblockDepth (d + 1)) k2 z) z) z)
  exact ((hlow.trans (hslot.trans hrest)).refcount f).trans_lt hf

lemma pipeWaiters_pos {p : Nat} (hp : p < k.heap.next)
    (h : (k.pipes p).rWaiters ≠ [] ∨ (k.pipes p).wWaiters ≠ []) : 0 < pipeWaiters k := by
  have hpos : 0 < (k.pipes p).rWaiters.length + (k.pipes p).wWaiters.length := by
    rcases h with h | h
    · have := List.length_pos_iff.mpr h
      omega
    · have := List.length_pos_iff.mpr h
      omega
  refine hpos.trans_le (List.single_le_sum (fun _ _ => Nat.zero_le _) _ ?_)
  exact List.mem_map.mpr ⟨p, List.mem_range.mpr hp, rfl⟩

/-- One call of `collect_zombies` frees everything once, unless it reaps the first zombie with
a table whose destruction wakes somebody. -/
theorem collect_once_iff {zs : List Slot} (h : Collectable zs T k) :
    CollectedOnce zs k (collectZombies k) ↔ ¬FirstWakes k := by
  constructor
  · intro hc hw
    obtain ⟨z, t, p, hz, hr, ht, ⟨f, hf, hfo⟩, hside⟩ := id hw
    have hp : p < k.heap.next := (h.counted.ends.file f p (mem_liveFiles.mp hf).2.1).1
    obtain ⟨d, hd⟩ := Nat.exists_eq_add_of_lt (pipeWaiters_pos hp (hside.imp And.left And.left))
    obtain ⟨g, hg⟩ := collect_twice h hw d
    have hpos := hc.pos g
    rw [collectZombies, hd, Nat.zero_add] at hpos
    exact absurd hpos (not_le.mpr hg)
  · intro hno
    exact CollectedOnce.store h.collectedOnce (collect_nobody h hno (pipeWaiters k))

/-- The calls on descriptors leave counted files. -/
lemma FdCounted.of_reach {σ : FdSystem}
    (h : Transition.Reach FdSystem.Start FdSystem.step FdSystem.BareElsewhere σ) :
    FdCounted σ.tables σ.k := by
  apply Transition.Reach.invariant (I := fun σ => FdCounted σ.tables σ.k) _ _ h
  · exact fun _ hs => FdCounted.start hs
  · exact fun _ _ _ h hok hs => FdCounted.step h hok hs

/-- Two terminated processes, the first one without a table; a third one reads from the pipe
whose ends are in the table 3. -/
def zombieQueue : Kernel :=
  let dead : Pcb := { Pcb.zero with used := true, state := .exited, zombieReapable := true }
  let k := kernelZero fun _ => false
  { k with
    procs := update (update (update k.procs 1 { dead with
        pid := 1, kstackBase := some 31, fdTable := some 3 })
      2 { dead with pid := 2, kstackBase := some 32 })
      3 { Pcb.zero with used := true, pid := 5, state := .blocked }
    cleanupNext := update k.cleanupNext 2 (some 1)
    pipes := update k.pipes 4 { k.pipes 4 with rWaiters := [⟨33, 3⟩] } }

lemma zombieQueue_waiters (p : Nat) : waiterBlocks (zombieQueue.pipes p) =
    if p = 4 then [⟨.pipeWaiter, 33⟩] else [] := by
  by_cases hp : p = 4
  · subst hp
    rfl
  · rw [if_neg hp]
    simp [zombieQueue, hp, kernelZero, waiterBlocks]

theorem collect_once_sample : ∃ σ : FdSystem,
    Transition.run FdSystem.step fdStart [.attachStd, .elsewhere fdCaller 0,
      .call 1 (.pipeOpen [97] 3)] = some σ ∧
    let k := { graft σ.k zombieQueue 0 with zombieHead := some 2 }
    CollectedOnce [2, 1] k (collectZombies k) := by
  have hrun : (Transition.run FdSystem.step fdStart [.attachStd, .elsewhere fdCaller 0,
      .call 1 (.pipeOpen [97] 3)]).any (fun σ =>
      decide (σ.tables = {3} ∧ σ.k.heap.freed = [])) = true := by decide +kernel
  obtain ⟨σ, hσ, hd⟩ := (Option.any_eq_true _ _).mp hrun
  obtain ⟨htab, hfreed⟩ := of_decide_eq_true hd
  have hreach : Transition.Reach FdSystem.Start FdSystem.step FdSystem.BareElsewhere σ := by
    apply Transition.Reach.of_run_ok (.start fdStart_start) _ hσ
    intro e he t
    simp only [List.mem_cons, List.not_mem_nil, or_false] at he
    rcases he with rfl | rfl | rfl
    · trivial
    · exact bare_of_none rfl
    · trivial
  refine ⟨σ, hσ, ?_⟩
  have hc : FdCounted {3} (graft σ.k zombieQueue 0) := by
    have hbare : Bare zombieQueue := bare_of_none rfl
    have h := (FdCounted.of_reach hreach).graft hbare 0
    rwa [htab] at h
  have hw : WaitersOk (graft σ.k zombieQueue 0) := by
    have hq : ∀ p, waiterBlocks ((graft σ.k zombieQueue 0).pipes p) =
        if p = 4 then [⟨.pipeWaiter, 33⟩] else [] := zombieQueue_waiters
    have hf : (graft σ.k zombieQueue 0).heap.freed = [] := hfreed
    refine ⟨fun i => by simp [hf], fun p => ?_, fun p q b => ?_, fun p b _ => by simp [hf]⟩
    · rw [hq]
      split <;> simp
    · rw [hq, hq]
      split <;> split <;> simp_all
  have hk : Collectable [2, 1] {3} { graft σ.k zombieQueue 0 with zombieHead := some 2 } := by
    refine ⟨⟨rfl, rfl, rfl⟩, hc, fun z hz t ht => ?_, ?_, hw.of_eq rfl fun _ => rfl⟩
    · simp only [List.mem_cons, List.not_mem_nil, or_false] at hz
      rcases hz with rfl | rfl
      · cases ht
      · cases ht
        simp
    · change (σ.k.heap.freed ++
        [2, 1].flatMap fun z => zombieBlocks (zombieQueue.procs z)).Nodup
      rw [hfreed]
      decide
  refine (collect_once_iff hk).mpr ?_
  rintro ⟨z, t, p, hz, -, ht, -⟩
  cases hz
  cases ht

end TP2Kernel.Proofs
