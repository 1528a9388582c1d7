import TP2Kernel.PipelineFds
import TP2Kernel.Proofs.FdLifetime
import TP2Kernel.Proofs.PipeNames
import TP2Kernel.Proofs.Printf

/-!
# The descriptors of a pipeline

Whatever fails, `execute_pipe` gives the shell its table back. It forgets the temporary pipe when
it fails between the creation of the pipe and `pipe_created = 1`.
-/

namespace TP2Kernel.Proofs
open Function FdSystem

variable {k k' : Kernel} {t t' f p : Nat} {name : CStr}

/-- The standard files and the names of the pipes stay, and so do the tables outside `T`. -/
structure KeepsBut (T : Set Nat) (k k' : Kernel) : Prop where
  tables : ∀ t, t ∉ T → k'.tables t = k.tables t
  std : k'.stdinFile = k.stdinFile ∧ k'.stdoutFile = k.stdoutFile ∧ k'.stderrFile = k.stderrFile
  buckets : k'.pipeBuckets = k.pipeBuckets
  pipes : ∀ p, (k'.pipes p).name = (k.pipes p).name ∧
    (k'.pipes p).unlinked = (k.pipes p).unlinked

namespace KeepsBut

variable {T : Set Nat}

lemma refl (T : Set Nat) (k : Kernel) : KeepsBut T k k :=
  ⟨fun _ _ => rfl, ⟨rfl, rfl, rfl⟩, rfl, fun _ => ⟨rfl, rfl⟩⟩

lemma trans {k'' : Kernel} (h : KeepsBut T k k') (h' : KeepsBut T k' k'') : KeepsBut T k k'' := by
  refine ⟨fun t ht => (h'.tables t ht).trans (h.tables t ht), ?_, h'.buckets.trans h.buckets,
    fun p => ⟨(h'.pipes p).1.trans (h.pipes p).1, (h'.pipes p).2.trans (h.pipes p).2⟩⟩
  obtain ⟨h1, h2, h3⟩ := h.std
  obtain ⟨h1', h2', h3'⟩ := h'.std
  exact ⟨h1'.trans h1, h2'.trans h2, h3'.trans h3⟩

lemma mono {T' : Set Nat} (h : KeepsBut T k k') (hT : T ⊆ T') : KeepsBut T' k k' :=
  ⟨fun t ht => h.tables t fun hm => ht (hT hm), h.std, h.buckets, h.pipes⟩

lemma of_calm (h : FdCalm k k') : KeepsBut T k k' := by
  refine ⟨fun t _ => congrFun h.tables t, h.std, h.buckets, fun p => ?_⟩
  rw [h.pipes p]
  exact ⟨rfl, rfl⟩

lemma findPipe (h : KeepsBut T k k') (name : CStr) : findPipe k' name = findPipe k name := by
  unfold TP2Kernel.findPipe
  rw [h.buckets]
  apply List.find?_congr
  intro p _
  rw [(h.pipes p).1, (h.pipes p).2]

lemma setEntry (k : Kernel) (t : Nat) (fd : Fin fdMax) (e : Option Nat) :
    KeepsBut {t} k (k.setEntry t fd e) := by
  refine ⟨fun t' ht => ?_, ⟨rfl, rfl, rfl⟩, rfl, fun _ => ⟨rfl, rfl⟩⟩
  exact update_of_ne ht _ _

lemma modifyPipe (k : Kernel) (p : Nat) {g : Kpipe → Kpipe}
    (hg : (g (k.pipes p)).name = (k.pipes p).name ∧
      (g (k.pipes p)).unlinked = (k.pipes p).unlinked) : KeepsBut T k (k.modifyPipe p g) := by
  refine ⟨fun _ _ => rfl, ⟨rfl, rfl, rfl⟩, rfl, fun q => ?_⟩
  by_cases hq : q = p
  · subst hq
    simpa [Kernel.modifyPipe] using hg
  · simp [Kernel.modifyPipe, hq]

lemma pipeFree (k : Kernel) (p : Nat) : KeepsBut T k (pipeFree k p) := by
  obtain ⟨hb, -, -, hp⟩ := pipeFree_names k p
  have hs := sameFiles_pipeFree k p
  exact ⟨fun t _ => congrFun hs.tables t, hs.std, hb, fun q => by rw [hp]; exact ⟨rfl, rfl⟩⟩

/-- Closing an end of a pipe. -/
lemma kpipeClose (hb : Bare k) (p : Nat) (rd wr : Bool) :
    KeepsBut T k (kpipeClose wake k p rd wr) := by
  have h1 : KeepsBut T k (k.modifyPipe p fun c => pipeDropUser c rd wr) :=
    modifyPipe k p ⟨rfl, rfl⟩
  have hb1 : Bare (k.modifyPipe p fun c => pipeDropUser c rd wr) := hb
  unfold TP2Kernel.kpipeClose
  dsimp only
  generalize k.modifyPipe p (fun c => pipeDropUser c rd wr) = k1 at h1 hb1 ⊢
  have hc2 : FdCalm k1 (if (decide ((k1.pipes p).writers = 0) && !(k1.pipes p).rWaiters.isEmpty) =
      true then drainReaders wake p (k1.pipes p).rWaiters.length k1 else k1) :=
    (FdCalm.refl k1).thenIf (fdCalm_drainReaders fdCalm_wake hb1 p _)
  generalize (if (decide ((k1.pipes p).writers = 0) && !(k1.pipes p).rWaiters.isEmpty) = true then
    drainReaders wake p (k1.pipes p).rWaiters.length k1 else k1) = k2 at hc2 ⊢
  have hc3 : FdCalm k1 (if (decide ((k1.pipes p).readers = 0) && !(k1.pipes p).wWaiters.isEmpty) =
      true then drainWriters wake p (k2.pipes p).wWaiters.length k2 else k2) :=
    hc2.thenIf (fdCalm_drainWriters fdCalm_wake (hc2.bare hb1) p _)
  split
  · exact (h1.trans (of_calm hc3)).trans (pipeFree _ p)
  · exact h1.trans (of_calm hc3)

lemma fileRelease (hb : Bare k) (f : Nat) : KeepsBut T k (fileRelease wake k f) := by
  have h1 : KeepsBut T k (k.modifyFile f fun c => { c with refcount := c.refcount - 1 }) :=
    ⟨fun _ _ => rfl, ⟨rfl, rfl, rfl⟩, rfl, fun _ => ⟨rfl, rfl⟩⟩
  have hb1 : Bare (k.modifyFile f fun c => { c with refcount := c.refcount - 1 }) := hb
  unfold TP2Kernel.fileRelease
  dsimp only
  generalize k.modifyFile f (fun c => { c with refcount := c.refcount - 1 }) = k1 at h1 hb1 ⊢
  split
  · exact h1
  · have h2 : KeepsBut T k1 (fileClose wake k1 f) := by
      unfold fileClose
      cases (k1.files f).ptr with
      | tty => exact refl T k1
      | pipe p => exact kpipeClose hb1 p _ _
    exact (h1.trans h2).trans ⟨fun _ _ => rfl, ⟨rfl, rfl, rfl⟩, rfl, fun _ => ⟨rfl, rfl⟩⟩

lemma fileRef (k : Kernel) (f : Nat) : KeepsBut T k (fileRef k f) :=
  ⟨fun _ _ => rfl, ⟨rfl, rfl, rfl⟩, rfl, fun _ => ⟨rfl, rfl⟩⟩

lemma tableClose (hb : Bare k) (t : Nat) (fd : Int) :
    KeepsBut {t} k (fdTableClose wake k t fd).1 := by
  unfold fdTableClose
  split
  · rename_i hfd
    cases k.tables t ⟨fd.toNat, by omega⟩ with
    | none => exact refl _ k
    | some f =>
      have hb1 : Bare (k.setEntry t ⟨fd.toNat, by omega⟩ none) := hb
      exact (setEntry k t _ none).trans (fileRelease hb1 f)
  · exact refl _ k

lemma tableDup2 (hb : Bare k) (t : Nat) (oldfd newfd : Int) :
    KeepsBut {t} k (fdTableDup2 wake k t oldfd newfd).1 := by
  unfold fdTableDup2
  split
  · rename_i hfd
    cases k.tables t ⟨oldfd.toNat, by omega⟩ with
    | none => exact refl _ k
    | some src =>
      dsimp only
      split
      · exact refl _ k
      · refine .trans ?_ ((fileRef _ src).trans (setEntry _ t _ _))
        cases k.tables t ⟨newfd.toNat, by omega⟩ with
        | none => exact refl _ k
        | some f => exact fileRelease hb f
  · exact refl _ k

end KeepsBut

/-- The three ways of `kpipe_open`. -/
lemma kpipeOpen_cases (h : PipesOwing none none k) (name : CStr) (rd wr : Bool) :
    (∃ p, findPipe k name = some p ∧ kpipeOpen k name rd wr = (pipeAddUser k p rd wr, some p)) ∨
      (findPipe k name = none ∧ k.heap.fails k.heap.next = true ∧
        kpipeOpen k name rd wr = (k.mmMalloc.1, none)) ∨
      (findPipe k name = none ∧ k.heap.fails k.heap.next = false ∧
        kpipeOpen k name rd wr = (pipeInserted k name rd wr, some k.heap.next)) := by
  cases hfind : findPipe k name with
  | some p => exact .inl ⟨p, rfl, by simp only [kpipeOpen, hfind]⟩
  | none =>
    right
    cases hf : k.heap.fails k.heap.next with
    | true =>
      have hm : k.mmMalloc = (k.mmMalloc.1, none) := by simp [Kernel.mmMalloc, hf]
      refine .inl ⟨rfl, rfl, ?_⟩
      simp only [kpipeOpen, hfind]
      rw [hm]
    | false =>
      have hm : k.mmMalloc = (k.mmMalloc.1, some k.heap.next) := by simp [Kernel.mmMalloc, hf]
      refine .inr ⟨rfl, rfl, ?_⟩
      rw [kpipeOpen_new hfind hm (h.findPipe_blank hfind rd wr)]
      rfl

/-- What `sys_pipe_open` does behind a `kpipe_open` that succeeds. -/
lemma tablePipeOpen_some {flags : Nat} {k1 : Kernel}
    (hright : flags.testBit 0 = true ∨ flags.testBit 1 = true)
    (hopen : kpipeOpen k name (flags.testBit 0) (flags.testBit 1) = (k1, some p))
    (hb : Bare k1) (t : Nat) :
    KeepsBut {t} k1 (tablePipeOpen k t name flags).1 ∧
      (((tablePipeOpen k t name flags).2 = -1 ∧
          (tablePipeOpen k t name flags).1.tables t = k1.tables t ∧
          (k1.heap.fails k1.heap.next = true ∨ ∀ fd, k1.tables t fd ≠ none)) ∨
        ∃ (fd : Fin fdMax) (f : Nat), (tablePipeOpen k t name flags).2 = fd.val ∧
          k1.tables t fd = none ∧
          (tablePipeOpen k t name flags).1.tables t = update (k1.tables t) fd (some f) ∧
          k1.heap.fails k1.heap.next = false ∧
          (tablePipeOpen k t name flags).1.heap.next = k1.heap.next + 1 ∧
          (tablePipeOpen k t name flags).1.heap.fails = k1.heap.fails) := by
  have hnot : (!flags.testBit 0 && !flags.testBit 1) = false := by
    rcases hright with h | h <;> simp [h]
  have hm1 : KeepsBut ∅ k1 k1.mmMalloc.1 := .of_calm (.mmMalloc k1)
  have hb1 : Bare k1.mmMalloc.1 := (FdCalm.mmMalloc k1).bare hb
  simp only [tablePipeOpen, hnot, hopen, fileCreate, Bool.false_eq_true, if_false]
  cases hf : k1.heap.fails k1.heap.next with
  | true =>
    have hm : k1.mmMalloc = (k1.mmMalloc.1, none) := by simp [Kernel.mmMalloc, hf]
    rw [hm]
    have h2 := hm1.trans (KeepsBut.kpipeClose hb1 p (flags.testBit 0) (flags.testBit 1))
    exact ⟨h2.mono (Set.empty_subset _), .inl ⟨rfl, h2.tables t (Set.notMem_empty t), .inl rfl⟩⟩
  | false =>
    have hm : k1.mmMalloc = (k1.mmMalloc.1, some k1.heap.next) := by simp [Kernel.mmMalloc, hf]
    rw [hm]
    dsimp only
    generalize hk2 : k1.mmMalloc.1.modifyFile k1.heap.next (fun _ =>
      { ptr := .pipe p, canRead := flags.testBit 0, canWrite := flags.testBit 1
        fgReadGuard := false, refcount := 1 }) = k2
    have h2 : KeepsBut ∅ k1 k2 := by
      rw [← hk2]
      exact hm1.trans ⟨fun _ _ => rfl, ⟨rfl, rfl, rfl⟩, rfl, fun _ => ⟨rfl, rfl⟩⟩
    have hb2 : Bare k2 := by
      rw [← hk2]
      exact hb1
    have htab : k2.tables t = k1.tables t := h2.tables t (Set.notMem_empty t)
    unfold fdTableAllocate
    cases hfind : (List.finRange fdMax).find? fun fd => (k2.tables t fd).isNone with
    | none =>
      dsimp only
      rw [if_pos (by decide)]
      have h3 := h2.trans (KeepsBut.fileRelease hb2 k1.heap.next)
      refine ⟨h3.mono (Set.empty_subset _),
        .inl ⟨rfl, h3.tables t (Set.notMem_empty t), .inr fun fd he => ?_⟩⟩
      have := List.find?_eq_none.mp hfind fd (List.mem_finRange fd)
      rw [htab, he] at this
      exact this rfl
    | some fd =>
      dsimp only
      rw [if_neg (by omega)]
      have hnone := List.find?_some hfind
      rw [htab] at hnone
      refine ⟨(h2.mono (Set.empty_subset _)).trans (KeepsBut.setEntry k2 t fd _), .inr
        ⟨fd, k1.heap.next, rfl, Option.isNone_iff_eq_none.mp hnone, ?_, rfl, ?_, ?_⟩⟩
      · rw [← htab]
        exact update_self t _ _
      · rw [← hk2]
        rfl
      · rw [← hk2]
        rfl

/-- At most one pipe is linked under a name. -/
def OneLinked (k : Kernel) (name : CStr) : Prop :=
  ∀ p ∈ k.pipeBuckets (pipeHash name), ∀ q ∈ k.pipeBuckets (pipeHash name),
    (k.pipes p).name = name → (k.pipes q).name = name → p = q

namespace OneLinked

lemma keep {T : Set Nat} (h : OneLinked k name) (hk : KeepsBut T k k') : OneLinked k' name := by
  intro p hp q hq hpn hqn
  rw [hk.buckets] at hp hq
  rw [(hk.pipes _).1] at hpn hqn
  exact h p hp q hq hpn hqn

/-- A name that is not cut off is not linked twice by `kpipe_open`. -/
lemma kpipeOpen (h : OneLinked k name) (hn : name.length + 1 < pipeNameMax)
    (he : PipesOwing none none k) (name' : CStr) (rd wr : Bool) :
    OneLinked (kpipeOpen k name' rd wr).1 name := by
  rcases kpipeOpen_cases he name' rd wr with ⟨p, -, e⟩ | ⟨-, -, e⟩ | ⟨hfind, -, e⟩
  · rw [e]
    have hk : KeepsBut ∅ k (pipeAddUser k p rd wr) := .modifyPipe k p ⟨rfl, rfl⟩
    exact h.keep hk
  · rw [e]
    have hk : KeepsBut ∅ k k.mmMalloc.1 := .of_calm (.mmMalloc k)
    exact h.keep hk
  · rw [e]
    have hold : ∀ q ∈ k.pipeBuckets (pipeHash name),
        (pipeInserted k name' rd wr).pipes q = k.pipes q := fun q hq =>
      pipeInserted_pipes k name' rd wr (he.bucket _ q hq).1.ne
    have hmem : ∀ q, q ∈ (pipeInserted k name' rd wr).pipeBuckets (pipeHash name) →
        q ∈ k.pipeBuckets (pipeHash name) ∨ (q = k.heap.next ∧ pipeHash name' = pipeHash name) := by
      intro q hq
      simp only [pipeInserted, BucketTable.insert, update_apply] at hq
      split at hq
      · rename_i hb
        rcases List.mem_cons.mp hq with hq | hq
        · exact .inr ⟨hq, hb.symm⟩
        · rw [← hb] at hq
          exact .inl hq
      · exact .inl hq
    -- The new pipe has the name only if `kpipe_open` was called with it, and found nothing.
    have hnew : ((pipeInserted k name' rd wr).pipes k.heap.next).name = name →
        ∀ q ∈ k.pipeBuckets (pipeHash name), (k.pipes q).name ≠ name := by
      intro hname q hq hqn
      rw [(pipeInserted_new k name' rd wr).1, pipeNameCopy] at hname
      have hlen := congrArg List.length hname
      rw [List.length_take] at hlen
      have e' : name' = name := by
        rw [← hname, List.take_of_length_le (by omega)]
      subst e'
      have := List.find?_eq_none.mp hfind q hq
      simp [hqn, (he.bucket _ q hq).2] at this
    intro p hp q hq hpn hqn
    rcases hmem p hp with hp | ⟨rfl, -⟩ <;> rcases hmem q hq with hq | ⟨rfl, -⟩
    · rw [hold p hp] at hpn
      rw [hold q hq] at hqn
      exact h p hp q hq hpn hqn
    · rw [hold p hp] at hpn
      exact absurd hpn (hnew hqn p hp)
    · rw [hold q hq] at hqn
      exact absurd hqn (hnew hpn q hq)
    · rfl

/-- `kpipe_unlink` takes the pipe that it finds out of the table. -/
lemma unlink_cases (he : PipesOwing none none k) (name : CStr) :
    (findPipe k name = none ∧ (TP2Kernel.kpipeUnlink k name).1 = k) ∨
      ∃ p, findPipe k name = some p ∧
        (∀ b, ∀ q ∈ (TP2Kernel.kpipeUnlink k name).1.pipeBuckets b,
          q ∈ k.pipeBuckets b ∧ q ≠ p) ∧
        ∀ q, ((TP2Kernel.kpipeUnlink k name).1.pipes q).name = (k.pipes q).name := by
  cases hfind : findPipe k name with
  | none => exact .inl ⟨rfl, by rw [TP2Kernel.kpipeUnlink, hfind]⟩
  | some p =>
    obtain ⟨k', e, hb, -, -, hp⟩ := kpipeUnlink_found hfind
    have hin := findPipe_mem hfind
    rw [e]
    refine .inr ⟨p, rfl, fun b q hq => ?_, fun q => ?_⟩
    · dsimp only at hq
      rw [hb] at hq
      change q ∈ update k.pipeBuckets (pipeHash name) ((k.pipeBuckets (pipeHash name)).erase p) b
        at hq
      by_cases hbn : b = pipeHash name
      · subst hbn
        rw [update_self, (he.nodup _).mem_erase_iff] at hq
        exact hq.symm
      · rw [update_of_ne hbn] at hq
        refine ⟨hq, ?_⟩
        rintro rfl
        exact hbn (he.apart _ _ q hq hin)
    · dsimp only
      rw [hp]
      by_cases hq : q = p
      · simp [pipeRemoved, Kernel.modifyPipe, hq]
      · simp [pipeRemoved, Kernel.modifyPipe, hq]

lemma kpipeUnlink (h : OneLinked k name) (he : PipesOwing none none k) (name' : CStr) :
    OneLinked (kpipeUnlink k name').1 name := by
  rcases unlink_cases he name' with ⟨-, e⟩ | ⟨p, -, hmem, hname⟩
  · rw [e]
    exact h
  · intro q hq r hr hqn hrn
    rw [hname] at hqn hrn
    exact h q (hmem _ q hq).1 r (hmem _ r hr).1 hqn hrn

/-- `kpipe_unlink` of the only pipe of the name. -/
lemma unlinks (h : OneLinked k name) (he : PipesOwing none none k) :
    findPipe (TP2Kernel.kpipeUnlink k name).1 name = none := by
  rcases unlink_cases he name with ⟨hnone, e⟩ | ⟨p, hfind, hmem, hname⟩
  · rw [e]
    exact hnone
  · apply List.find?_eq_none.mpr
    intro q hq
    obtain ⟨hqk, hqp⟩ := hmem _ q hq
    have hp := List.find?_some hfind
    simp only [Bool.and_eq_true, Bool.not_eq_true', decide_eq_true_eq] at hp
    have hqn : (k.pipes q).name ≠ name := fun hqn =>
      hqp (h q hqk p (findPipe_mem hfind) hqn hp.2)
    simp [hname, hqn]

lemma tablePipeOpen (h : OneLinked k name) (hn : name.length + 1 < pipeNameMax)
    (he : PipesOwing none none k) (t : Nat) (name' : CStr) (flags : Nat) :
    OneLinked (tablePipeOpen k t name' flags).1 name ∧
      (∀ t', t' ≠ t → (TP2Kernel.tablePipeOpen k t name' flags).1.tables t' = k.tables t') ∧
      ((TP2Kernel.tablePipeOpen k t name' flags).1.stdinFile = k.stdinFile ∧
        (TP2Kernel.tablePipeOpen k t name' flags).1.stdoutFile = k.stdoutFile ∧
        (TP2Kernel.tablePipeOpen k t name' flags).1.stderrFile = k.stderrFile) := by
  by_cases hright : flags.testBit 0 = true ∨ flags.testBit 1 = true
  · have h1 := h.kpipeOpen hn he name' (flags.testBit 0) (flags.testBit 1)
    obtain ⟨hs, he1⟩ := he.kpipeOpen name' (flags.testBit 0) (flags.testBit 1)
    rcases hopen : TP2Kernel.kpipeOpen k name' (flags.testBit 0) (flags.testBit 1) with ⟨k1, o⟩
    rw [hopen] at h1 hs he1
    cases o with
    | none =>
      have e : (TP2Kernel.tablePipeOpen k t name' flags).1 = k1 := by
        have hnot : (!flags.testBit 0 && !flags.testBit 1) = false := by
          rcases hright with h | h <;> simp [h]
        simp only [TP2Kernel.tablePipeOpen, hnot, hopen, Bool.false_eq_true, if_false]
      rw [e]
      exact ⟨h1, fun t' _ => congrFun hs.tables t', hs.std⟩
    | some p =>
      obtain ⟨hk, -⟩ := tablePipeOpen_some hright hopen he1.bare t
      refine ⟨h1.keep hk, fun t' ht => ?_, ?_⟩
      · rw [hk.tables t' ht]
        exact congrFun hs.tables t'
      · obtain ⟨h1, h2, h3⟩ := hk.std
        obtain ⟨h1', h2', h3'⟩ := hs.std
        exact ⟨h1.trans h1', h2.trans h2', h3.trans h3'⟩
  · have e : (TP2Kernel.tablePipeOpen k t name' flags).1 = k := by
      rw [not_or, Bool.not_eq_true, Bool.not_eq_true] at hright
      simp [TP2Kernel.tablePipeOpen, hright]
    rw [e]
    exact ⟨h, fun _ _ => rfl, rfl, rfl, rfl⟩

end OneLinked

/-- The shell has the table `t` with the entries `g`. -/
structure ShellAt (t : Nat) (name : CStr) (k0 : Kernel) (g : FdTable) (σ : FdSystem) : Prop where
  counted : FdCounted σ.tables σ.k
  one : OneLinked σ.k name
  mem : t ∈ σ.tables
  table : σ.k.tables t = g
  std : σ.k.stdinFile = k0.stdinFile ∧ σ.k.stdoutFile = k0.stdoutFile ∧
    σ.k.stderrFile = k0.stderrFile

lemma KeepsBut.cloneFold (t src : Nat) (k : Kernel) (l : List (Fin fdMax)) :
    KeepsBut {t} k (l.foldl (fdTableCloneStep t src) k) := by
  induction l generalizing k with
  | nil => exact .refl _ k
  | cons fd l ih =>
    have h1 : KeepsBut {t} k (fdTableCloneStep t src k fd) := by
      unfold fdTableCloneStep
      cases k.tables src fd with
      | none => exact .refl _ k
      | some f => exact (KeepsBut.fileRef k f).trans (.setEntry _ t fd _)
    exact h1.trans (ih _)

lemma KeepsBut.attachStd (k : Kernel) (t : Nat) (file : Option Nat) (fd : Fin fdMax) :
    KeepsBut {t} k (attachStd k t file fd) := by
  unfold TP2Kernel.attachStd
  cases file with
  | none => exact .refl _ k
  | some f => exact (KeepsBut.fileRef k f).trans (.setEntry _ t fd _)

lemma KeepsBut.destroyFold {T : Finset Nat} (h : FdCounted T k) (ht : t ∈ T)
    (l : List (Fin fdMax)) : KeepsBut {t} k (l.foldl (fdTableDestroyStep wake t) k) := by
  induction l generalizing k with
  | nil => exact .refl _ k
  | cons fd l ih =>
    have h1 : KeepsBut {t} k (fdTableDestroyStep wake t k fd) := by
      unfold fdTableDestroyStep
      cases k.tables t fd with
      | none => exact .refl _ k
      | some f => exact (KeepsBut.fileRelease h.ends.bare f).trans (.setEntry _ t fd none)
    exact h1.trans (ih (h.destroyFold fdCalm_wake ht [fd]).1)

/-- A new table is filled. -/
lemma KeepsBut.create {σ : FdSystem} {fill : Kernel → Nat → Kernel}
    (hfill : ∀ k t, KeepsBut {t} k (fill k t)) :
    KeepsBut {σ.k.heap.next} σ.k (σ.create fill).k ∧ σ.tables ⊆ (σ.create fill).tables := by
  have h1 : KeepsBut {σ.k.heap.next} σ.k σ.k.mmMalloc.1 := .of_calm (.mmMalloc σ.k)
  obtain ⟨-, -, hm⟩ := mmMalloc_cases σ.k
  unfold FdSystem.create fdTableCreate
  generalize σ.k.mmMalloc = r at h1 hm ⊢
  obtain ⟨k1, o⟩ := r
  cases o with
  | none => exact ⟨h1, Finset.Subset.refl _⟩
  | some t =>
    obtain rfl : t = σ.k.heap.next := by simpa using hm
    have h2 : KeepsBut {σ.k.heap.next} k1
        { k1 with tables := update k1.tables σ.k.heap.next fun _ => none } :=
      ⟨fun t ht => update_of_ne ht _ _, ⟨rfl, rfl, rfl⟩, rfl, fun _ => ⟨rfl, rfl⟩⟩
    exact ⟨h1.trans (h2.trans (hfill _ _)), Finset.subset_insert _ _⟩

/-- At most one pipe has the name, and the tables that a step does not work on stay. -/
structure StepKeeps (name : CStr) (out : Nat → Prop) (σ σ' : FdSystem) : Prop where
  one : OneLinked σ'.k name
  std : σ'.k.stdinFile = σ.k.stdinFile ∧ σ'.k.stdoutFile = σ.k.stdoutFile ∧
    σ'.k.stderrFile = σ.k.stderrFile
  tables : ∀ t ∈ σ.tables, out t → t ∈ σ'.tables ∧ σ'.k.tables t = σ.k.tables t

lemma KeepsBut.stepKeeps {T : Set Nat} {out : Nat → Prop} {σ σ' : FdSystem}
    (hk : KeepsBut T σ.k σ'.k) (h : OneLinked σ.k name)
    (hm : ∀ t ∈ σ.tables, out t → t ∉ T ∧ t ∈ σ'.tables) : StepKeeps name out σ σ' :=
  ⟨h.keep hk, hk.std, fun t ht ho => ⟨(hm t ht ho).2, hk.tables t (hm t ht ho).1⟩⟩

/-- A system call. -/
lemma OneLinked.call {σ : FdSystem} {exec : Slot} {c : Syscall} (h : OneLinked σ.k name)
    (hn : name.length + 1 < pipeNameMax) (hcount : FdCounted σ.tables σ.k) (hc : c.onFd = true) :
    StepKeeps name (fun t => ∀ y, callerTable σ.k = some y → y.2 ≠ t) σ
      { σ with k := (syscall σ.k exec c).1 } := by
  rcases syscall_onFd σ.k exec hc with e | ⟨name', e⟩ | ⟨y, hy, ⟨name', flags, e⟩ | ⟨fd, e⟩ |
    ⟨oldfd, newfd, e⟩⟩
  · rw [e]
    exact ⟨h, ⟨rfl, rfl, rfl⟩, fun t ht _ => ⟨ht, rfl⟩⟩
  · rw [e]
    have hs := (hcount.ends.kpipeUnlink name').1
    exact ⟨h.kpipeUnlink hcount.ends name', hs.std, fun t ht _ => ⟨ht, congrFun hs.tables t⟩⟩
  · rw [e]
    obtain ⟨hone, htab, hs⟩ := h.tablePipeOpen hn hcount.ends y.2 name' flags
    exact ⟨hone, hs, fun t ht hout => ⟨ht, htab t (hout y hy).symm⟩⟩
  · rw [e]
    exact (KeepsBut.tableClose hcount.ends.bare y.2 fd).stepKeeps h
      fun t ht hout => ⟨(hout y hy).symm, ht⟩
  · rw [e]
    exact (KeepsBut.tableDup2 hcount.ends.bare y.2 oldfd newfd).stepKeeps h
      fun t ht hout => ⟨(hout y hy).symm, ht⟩

lemma OneLinked.step {σ σ' : FdSystem} {e : FdEvent} (h : OneLinked σ.k name)
    (hn : name.length + 1 < pipeNameMax) (hcount : FdCounted σ.tables σ.k)
    (hs : σ.step e = some σ') : StepKeeps name (fun t => Outside t σ e) σ σ' := by
  have hfresh : ∀ t ∈ σ.tables, t ∉ ({σ.k.heap.next} : Set Nat) := fun t ht =>
    (hcount.refs.tables t ht).ne
  cases e with
  | call exec c =>
    rw [FdSystem.step] at hs
    split at hs
    · rename_i hc
      cases hs
      rw [Bool.and_eq_true] at hc
      exact h.call hn hcount hc.1
    · cases hs
  | clone src =>
    rw [FdSystem.step] at hs
    split at hs
    · cases hs
      have hfill : ∀ k t, KeepsBut {t} k (fdTableClone k t src) := by
        intro k t
        have h1 : KeepsBut {t} k { k with tables := update k.tables t fun _ => none } :=
          ⟨fun t' ht => update_of_ne ht _ _, ⟨rfl, rfl, rfl⟩, rfl, fun _ => ⟨rfl, rfl⟩⟩
        exact h1.trans (.cloneFold t src _ _)
      obtain ⟨hk, hsub⟩ := KeepsBut.create (σ := σ) hfill
      exact hk.stepKeeps h fun t ht _ => ⟨hfresh t ht, hsub ht⟩
    · cases hs
  | attachStd =>
    rw [FdSystem.step, Option.some.injEq] at hs
    rw [← hs]
    have hfill : ∀ k t, KeepsBut {t} k (fdTableAttachStd k t) := fun k t =>
      ((KeepsBut.attachStd k t _ _).trans (.attachStd _ t _ _)).trans (.attachStd _ t _ _)
    obtain ⟨hk, hsub⟩ := KeepsBut.create (σ := σ) hfill
    exact hk.stepKeeps h fun t ht _ => ⟨hfresh t ht, hsub ht⟩
  | destroy t' =>
    rw [FdSystem.step] at hs
    split at hs
    · rename_i ht'
      cases hs
      have hk : KeepsBut {t'} σ.k (fdTableDestroy wake σ.k t') := by
        have hk1 := KeepsBut.destroyFold hcount ht' (List.finRange fdMax)
        unfold fdTableDestroy
        generalize (List.finRange fdMax).foldl (fdTableDestroyStep wake t') σ.k = k1 at hk1 ⊢
        exact hk1.trans ⟨fun _ _ => rfl, ⟨rfl, rfl, rfl⟩, rfl, fun _ => ⟨rfl, rfl⟩⟩
      exact hk.stepKeeps h fun t ht hout =>
        ⟨fun e => hout e.symm, Finset.mem_erase.mpr ⟨fun e => hout e.symm, ht⟩⟩
    · cases hs
  | elsewhere k' allocs =>
    rw [FdSystem.step, Option.some.injEq] at hs
    rw [← hs]
    have hk : KeepsBut ∅ σ.k (graft σ.k k' allocs) :=
      ⟨fun _ _ => rfl, ⟨rfl, rfl, rfl⟩, rfl, fun _ => ⟨rfl, rfl⟩⟩
    exact hk.stepKeeps h fun t ht _ => ⟨Set.notMem_empty t, ht⟩

/-- In every reachable state. -/
lemma oneLinked_of_reach {σ : FdSystem} (hn : name.length + 1 < pipeNameMax)
    (h : Transition.Reach FdSystem.Start FdSystem.step FdSystem.BareElsewhere σ) :
    FdCounted σ.tables σ.k ∧ OneLinked σ.k name := by
  apply Transition.Reach.invariant
    (I := fun σ => FdCounted σ.tables σ.k ∧ OneLinked σ.k name) _ _ h
  · intro s hs
    refine ⟨FdCounted.start hs, fun p hp => ?_⟩
    rw [hs.buckets] at hp
    cases hp
  · intro s e s' hs hok hstep
    exact ⟨FdCounted.step hs.1 hok hstep, (hs.2.step hn hs.1 hstep).one⟩

namespace ShellAt

variable {k0 : Kernel} {g : FdTable} {σ σ' : FdSystem}

/-- A step that makes no call on the table of the shell. -/
lemma outside {e : FdEvent} (h : ShellAt t name k0 g σ) (hn : name.length + 1 < pipeNameMax)
    (hout : Outside t σ e) (hs : σ.step e = some σ') : ShellAt t name k0 g σ' := by
  have hbare : σ.BareElsewhere e := by
    cases e with
    | elsewhere k' allocs => exact hout
    | _ => trivial
  have hk := h.one.step hn h.counted hs
  obtain ⟨hm, ht⟩ := hk.tables t h.mem hout
  refine ⟨FdCounted.step h.counted hbare hs, hk.one, hm, ht.trans h.table, ?_⟩
  obtain ⟨h1, h2, h3⟩ := hk.std
  obtain ⟨h1', h2', h3'⟩ := h.std
  exact ⟨h1.trans h1', h2.trans h2', h3.trans h3'⟩

lemma outsideRun (h : ShellAt t name k0 g σ) (hn : name.length + 1 < pipeNameMax)
    (hr : OutsideRun t σ σ') : ShellAt t name k0 g σ' := by
  apply Transition.Reach.invariant (I := ShellAt t name k0 g) _ _ hr
  · rintro s rfl
    exact h
  · exact fun s e s' hs hok hstep => hs.outside hn hok hstep

end ShellAt

/-- The entries that `execute_pipe` names. -/
def NamedFd (fd : Fin fdMax) : Prop := fd = 0 ∨ fd = 1 ∨ fd = 60 ∨ fd = 61

/-- `i` is -1, or the descriptor `backup`, which keeps the file of `stream`. -/
def Saved (g0 g : FdTable) (stream backup : Fin fdMax) (i : Int) : Prop :=
  (i = -1 ∧ g stream = g0 stream ∧ g backup = none) ∨ (i = backup.val ∧ g backup = g0 stream)

/-- `i` is negative, or a descriptor that the shell has opened. -/
def OpenedFd (g0 g : FdTable) (i : Int) : Prop :=
  i < 0 ∨ ∃ fd : Fin fdMax, i = fd.val ∧ ¬NamedFd fd ∧ g0 fd = none ∧ g fd ≠ none

/-- What the shell needs of its table before `execute_pipe`. -/
structure EntryTable (g0 : FdTable) : Prop where
  stdin : g0 0 ≠ none
  stdout : g0 1 ≠ none
  backupIn : g0 60 = none
  backupOut : g0 61 = none

/-- The table of the shell inside `execute_pipe`, which it entered with the table `g0`. -/
structure Redirected (g0 g : FdTable) (v : PipelineVars) : Prop where
  backupIn : Saved g0 g 0 60 v.backupIn
  backupOut : Saved g0 g 1 61 v.backupOut
  writeFd : OpenedFd g0 g v.writeFd
  readFd : OpenedFd g0 g v.readFd
  apart : v.writeFd = v.readFd → v.readFd < 0
  streams : g 0 ≠ none ∧ g 1 ≠ none
  rest : ∀ fd : Fin fdMax, ¬NamedFd fd → (fd.val : Int) ≠ v.writeFd → (fd.val : Int) ≠ v.readFd →
    g fd = g0 fd

namespace Saved

variable {g0 g : FdTable} {stream backup x : Fin fdMax} {i : Int} {e : Option Nat}

lemma other (h : Saved g0 g stream backup i) (hs : x ≠ stream) (hb : x ≠ backup) :
    Saved g0 (update g x e) stream backup i := by
  unfold Saved
  rw [update_of_ne hs.symm, update_of_ne hb.symm]
  exact h

lemma save (h : Saved g0 g stream backup i) (hi : i = -1) :
    Saved g0 (update g backup (g stream)) stream backup backup.val := by
  rcases h with ⟨-, hs, -⟩ | ⟨hi', -⟩
  · exact .inr ⟨rfl, (update_self _ _ _).trans hs⟩
  · omega

/-- The stream may be redirected once it is saved. -/
lemma redirect (h : Saved g0 g stream backup i) (hi : i = backup.val) (hne : stream ≠ backup) :
    Saved g0 (update g stream e) stream backup i := by
  rcases h with ⟨hi', -⟩ | ⟨-, hb⟩
  · omega
  · exact .inr ⟨hi, (update_of_ne hne.symm _ _).trans hb⟩

/-- The backup may be closed once the stream is restored. -/
lemma drop (hs : g stream = g0 stream) (hne : stream ≠ backup) :
    Saved g0 (update g backup none) stream backup (-1) :=
  .inl ⟨rfl, (update_of_ne hne _ _).trans hs, update_self _ _ _⟩

end Saved

namespace OpenedFd

variable {g0 g : FdTable} {x : Fin fdMax} {i : Int} {e : Option Nat}

lemma other (h : OpenedFd g0 g i) (hx : (x.val : Int) ≠ i) : OpenedFd g0 (update g x e) i := by
  rcases h with hi | ⟨fd, rfl, hn, h0, hg⟩
  · exact .inl hi
  · refine .inr ⟨fd, rfl, hn, h0, ?_⟩
    rwa [update_of_ne]
    rintro rfl
    exact hx rfl

lemma named (h : OpenedFd g0 g i) (hx : NamedFd x) : OpenedFd g0 (update g x e) i := by
  rcases h with hi | ⟨fd, rfl, hn, h0, hg⟩
  · exact .inl hi
  · refine .inr ⟨fd, rfl, hn, h0, ?_⟩
    rwa [update_of_ne]
    rintro rfl
    exact hn hx

end OpenedFd

namespace Redirected

variable {g0 g : FdTable} {v : PipelineVars} {x : Fin fdMax} {e : Option Nat}

lemma start (he : EntryTable g0) : Redirected g0 g0 ⟨-1, -1, -1, -1, false⟩ where
  backupIn := .inl ⟨rfl, rfl, he.backupIn⟩
  backupOut := .inl ⟨rfl, rfl, he.backupOut⟩
  writeFd := .inl (by decide)
  readFd := .inl (by decide)
  apart _ := by decide
  streams := ⟨he.stdin, he.stdout⟩
  rest _ _ _ _ := rfl

/-- A change at a named entry. -/
lemma named (h : Redirected g0 g v) (hx : NamedFd x) (hs : x = 0 ∨ x = 1 → e ≠ none) {i o : Int}
    (hi : Saved g0 (update g x e) 0 60 i) (ho : Saved g0 (update g x e) 1 61 o) :
    Redirected g0 (update g x e) { v with backupIn := i, backupOut := o } where
  backupIn := hi
  backupOut := ho
  writeFd := h.writeFd.named hx
  readFd := h.readFd.named hx
  apart := h.apart
  streams := by
    constructor
    · by_cases h0 : x = 0
      · rw [h0, update_self]
        exact hs (.inl h0)
      · rw [update_of_ne (Ne.symm h0)]
        exact h.streams.1
    · by_cases h1 : x = 1
      · rw [h1, update_self]
        exact hs (.inr h1)
      · rw [update_of_ne (Ne.symm h1)]
        exact h.streams.2
  rest fd hn hw hr := by
    rw [update_of_ne]
    · exact h.rest fd hn hw hr
    · rintro rfl
      exact hn hx

/-- A change at an entry that the shell has opened, or opens. -/
lemma unnamed (h : Redirected g0 g v) (hx : ¬NamedFd x) {w r : Int}
    (hw : OpenedFd g0 (update g x e) w) (hr : OpenedFd g0 (update g x e) r) (ha : w = r → r < 0)
    (hrest : ∀ fd : Fin fdMax, ¬NamedFd fd → (fd.val : Int) ≠ w → (fd.val : Int) ≠ r →
      update g x e fd = g0 fd) :
    Redirected g0 (update g x e) { v with writeFd := w, readFd := r } := by
  have hne : ∀ y, NamedFd y → x ≠ y := by
    rintro y hy rfl
    exact hx hy
  refine ⟨h.backupIn.other (hne 0 ?_) (hne 60 ?_), h.backupOut.other (hne 1 ?_) (hne 61 ?_), hw, hr,
    ha, ?_, hrest⟩
  · exact .inl rfl
  · exact .inr (.inr (.inl rfl))
  · exact .inr (.inl rfl)
  · exact .inr (.inr (.inr rfl))
  · rw [update_of_ne (hne 0 (.inl rfl)).symm, update_of_ne (hne 1 (.inr (.inl rfl))).symm]
    exact h.streams

/-- An entry that is not in use while the streams are saved. -/
lemma free (h : Redirected g0 g v) (he : EntryTable g0) (hi : v.backupIn = 60) (ho : v.backupOut = 61)
    (hx : g x = none) : ¬NamedFd x ∧ g0 x = none ∧ (x.val : Int) ≠ v.writeFd ∧
      (x.val : Int) ≠ v.readFd := by
  have hn : ¬NamedFd x := by
    rintro (rfl | rfl | rfl | rfl)
    · exact h.streams.1 hx
    · exact h.streams.2 hx
    · rcases h.backupIn with ⟨hi', -⟩ | ⟨-, hb⟩
      · omega
      · exact he.stdin (hb.symm.trans hx)
    · rcases h.backupOut with ⟨ho', -⟩ | ⟨-, hb⟩
      · omega
      · exact he.stdout (hb.symm.trans hx)
  have hne : ∀ i, OpenedFd g0 g i → (x.val : Int) ≠ i := by
    rintro i (hneg | ⟨fd, rfl, -, -, hg⟩) hxi
    · omega
    · rw [← Fin.ext (Int.ofNat_inj.mp hxi)] at hg
      exact hg hx
  have hw := hne _ h.writeFd
  have hr := hne _ h.readFd
  exact ⟨hn, (h.rest x hn hw hr).symm.trans hx, hw, hr⟩

lemma openWrite (h : Redirected g0 g v) (he : EntryTable g0) (hi : v.backupIn = 60)
    (ho : v.backupOut = 61) (hw : v.writeFd < 0) (hx : g x = none) (f : Nat) :
    Redirected g0 (update g x (some f)) { v with writeFd := x.val } := by
  obtain ⟨hn, h0, -, hr⟩ := h.free he hi ho hx
  apply h.unnamed hn (.inr ⟨x, rfl, hn, h0, by simp⟩) (h.readFd.other hr) (fun e => absurd e hr)
  intro fd hfd hne hr'
  rw [update_of_ne fun e => hne (by rw [e])]
  exact h.rest fd hfd (by omega) hr'

lemma openRead (h : Redirected g0 g v) (he : EntryTable g0) (hi : v.backupIn = 60)
    (ho : v.backupOut = 61) (hr : v.readFd < 0) (hx : g x = none) (f : Nat) :
    Redirected g0 (update g x (some f)) { v with readFd := x.val } := by
  obtain ⟨hn, h0, hw, -⟩ := h.free he hi ho hx
  apply h.unnamed hn (h.writeFd.other hw) (.inr ⟨x, rfl, hn, h0, by simp⟩)
    (fun e => absurd e.symm hw)
  intro fd hfd hw' hne
  rw [update_of_ne fun e => hne (by rw [e])]
  exact h.rest fd hfd hw' (by omega)

/-- Nothing is left to be undone. -/
lemma done (h : Redirected g0 g v) (he : EntryTable g0) (hi : v.backupIn = -1) (ho : v.backupOut = -1)
    (hw : v.writeFd < 0) (hr : v.readFd < 0) : g = g0 := by
  obtain ⟨-, hi0, hi60⟩ | ⟨hi', -⟩ := h.backupIn
  · obtain ⟨-, ho1, ho61⟩ | ⟨ho', -⟩ := h.backupOut
    · funext fd
      by_cases hfd : NamedFd fd
      · rcases hfd with rfl | rfl | rfl | rfl
        · exact hi0
        · exact ho1
        · exact hi60.trans he.backupIn.symm
        · exact ho61.trans he.backupOut.symm
      · exact h.rest fd hfd (by omega) (by omega)
    · omega
  · omega

end Redirected

namespace ShellAt

variable {k0 : Kernel} {g : FdTable} {σ : FdSystem}

/-- `dup2` of an open descriptor. -/
lemma dup2 (h : ShellAt t name k0 g σ) (old new : Fin fdMax) (hne : old ≠ new)
    (hold : g old = some f) :
    ShellAt t name k0 (update g new (some f)) (dup2 t σ old.val new.val).1 ∧
      (dup2 t σ old.val new.val).2 = new.val ∧
      findPipe (FdSystem.dup2 t σ old.val new.val).1.k name = findPipe σ.k name ∧
      (g new = none → (FdSystem.dup2 t σ old.val new.val).1.k.heap = σ.k.heap) := by
  have hk := KeepsBut.tableDup2 h.counted.ends.bare t old.val new.val
  have hc := h.counted.tableDup2 h.mem old.val new.val
  have hcond : (0 ≤ (old.val : Int) ∧ (old.val : Int) < fdMax) ∧ 0 ≤ (new.val : Int) ∧
      (new.val : Int) < fdMax := by omega
  have hne' : (old.val : Int) ≠ new.val := by
    intro he
    exact hne (Fin.ext (Int.ofNat_inj.mp he))
  have hold' : σ.k.tables t old = some f := by rw [h.table, hold]
  -- `k'` is the kernel behind the release of what `new` was.
  obtain ⟨k', hk', hnone, e⟩ : ∃ k', KeepsBut ∅ σ.k k' ∧ (g new = none → k' = σ.k) ∧
      fdTableDup2 wake σ.k t old.val new.val =
        ((fileRef k' f).setEntry t new (some f), (new.val : Int)) := by
    unfold fdTableDup2
    rw [dif_pos hcond]
    simp only [Int.toNat_natCast, Fin.eta, hold', if_neg hne', h.table]
    cases g new with
    | none => exact ⟨σ.k, .refl _ _, fun _ => rfl, rfl⟩
    | some f' =>
      exact ⟨fileRelease wake σ.k f', .fileRelease h.counted.ends.bare f',
        fun hg => absurd hg (Option.some_ne_none f'), rfl⟩
  have htab : (fdTableDup2 wake σ.k t old.val new.val).1.tables t = update g new (some f) := by
    have ht : k'.tables t = g := (hk'.tables t (Set.notMem_empty t)).trans h.table
    rw [e]
    simp [Kernel.setEntry, fileRef, Kernel.modifyFile, ht]
  refine ⟨⟨hc, h.one.keep hk, h.mem, htab, ?_⟩, ?_, hk.findPipe name, fun hnew => ?_⟩
  · obtain ⟨h1, h2, h3⟩ := hk.std
    obtain ⟨h1', h2', h3'⟩ := h.std
    exact ⟨h1.trans h1', h2.trans h2', h3.trans h3'⟩
  · rw [FdSystem.dup2, onKernel, e]
  · rw [FdSystem.dup2, onKernel, e, hnone hnew]
    rfl

/-- `close` of an open descriptor. -/
lemma closeFd (h : ShellAt t name k0 g σ) {fd : Fin fdMax} (hfd : g fd = some f) :
    ShellAt t name k0 (update g fd none) (closeFd t σ fd.val).1 ∧
      findPipe (FdSystem.closeFd t σ fd.val).1.k name = findPipe σ.k name := by
  have hk := KeepsBut.tableClose h.counted.ends.bare t fd.val
  have hc := h.counted.tableClose h.mem fd.val
  have hbare : Bare (σ.k.setEntry t fd none) := h.counted.ends.bare
  have hb : KeepsBut ∅ (σ.k.setEntry t fd none) (fileRelease wake (σ.k.setEntry t fd none) f) :=
    .fileRelease hbare f
  have e : fdTableClose wake σ.k t fd.val = (fileRelease wake (σ.k.setEntry t fd none) f, 0) := by
    have hcond : 0 ≤ (fd.val : Int) ∧ (fd.val : Int) < fdMax := by omega
    have hfd' : σ.k.tables t fd = some f := by rw [h.table, hfd]
    unfold fdTableClose
    rw [dif_pos hcond]
    simp only [Int.toNat_natCast, Fin.eta, hfd']
  have htab : (fdTableClose wake σ.k t fd.val).1.tables t = update g fd none := by
    rw [e]
    dsimp only
    rw [hb.tables t (Set.notMem_empty t), ← h.table]
    exact update_self t _ _
  refine ⟨⟨hc, h.one.keep hk, h.mem, htab, ?_⟩, hk.findPipe name⟩
  obtain ⟨h1, h2, h3⟩ := hk.std
  obtain ⟨h1', h2', h3'⟩ := h.std
  exact ⟨h1.trans h1', h2.trans h2', h3.trans h3'⟩

/-- A stream whose file is at `backup` is restored. -/
lemma restoreStream (h : ShellAt t name k0 g σ) (backup stream : Fin fdMax)
    (hne : backup ≠ stream) (hb : g backup = some f) :
    ShellAt t name k0 (update (update g stream (some f)) backup none)
        (restoreStream t backup.val stream.val σ) ∧
      findPipe (TP2Kernel.restoreStream t backup.val stream.val σ).k name =
        findPipe σ.k name := by
  rw [TP2Kernel.restoreStream, if_pos (Int.natCast_nonneg _)]
  obtain ⟨h1, -, hp1, -⟩ := h.dup2 backup stream hne hb
  have hb1 : update g stream (some f) backup = some f := by rw [update_of_ne hne, hb]
  obtain ⟨h2, hp2⟩ := h1.closeFd hb1
  exact ⟨h2, hp2.trans hp1⟩

end ShellAt

/-- The allocation with which `sys_pipe_open` makes its file. -/
def fileNumber (k : Kernel) (name : CStr) : Nat :=
  if (findPipe k name).isSome then k.heap.next else k.heap.next + 1

lemma findPipe_inserted (hn : name.length + 1 < pipeNameMax) (k : Kernel) (rd wr : Bool) :
    findPipe (pipeInserted k name rd wr) name = some k.heap.next := by
  obtain ⟨hname, hunl⟩ := pipeInserted_new k name rd wr
  rw [pipeNameCopy_short (Nat.lt_of_succ_lt hn)] at hname
  have hb : (pipeInserted k name rd wr).pipeBuckets (pipeHash name) =
      k.heap.next :: k.pipeBuckets (pipeHash name) := update_self _ _ _
  rw [findPipe, hb]
  apply List.find?_cons_of_pos
  simp [hname, hunl]

/-- The result of `sys_pipe_open` once the pipe is linked. -/
def EndOpened (t : Nat) (name : CStr) (k0 : Kernel) (g : FdTable) (σ : FdSystem)
    (r : FdSystem × Int) : Prop :=
  findPipe r.1.k name ≠ none ∧
    ((r.2 = -1 ∧ ShellAt t name k0 g r.1 ∧
        (σ.k.heap.fails (fileNumber σ.k name) = true ∨ ∀ fd, g fd ≠ none)) ∨
      ∃ (fd : Fin fdMax) (f : Nat), r.2 = fd.val ∧ g fd = none ∧
        ShellAt t name k0 (update g fd (some f)) r.1 ∧
        σ.k.heap.fails (fileNumber σ.k name) = false ∧
        r.1.k.heap.next = fileNumber σ.k name + 1 ∧ r.1.k.heap.fails = σ.k.heap.fails)

namespace ShellAt

variable {k0 : Kernel} {g : FdTable} {σ : FdSystem}

/-- What `sys_pipe_open` does to the table and the name. -/
lemma pipeOpen (h : ShellAt t name k0 g σ) (hn : name.length + 1 < pipeNameMax) {flags : Nat}
    (hright : flags.testBit 0 = true ∨ flags.testBit 1 = true) :
    (findPipe σ.k name = none ∧ σ.k.heap.fails σ.k.heap.next = true ∧
        (pipeOpen t σ name flags).2 = -1 ∧
        ShellAt t name k0 g (FdSystem.pipeOpen t σ name flags).1 ∧
        findPipe (FdSystem.pipeOpen t σ name flags).1.k name = none) ∨
      ((findPipe σ.k name ≠ none ∨ σ.k.heap.fails σ.k.heap.next = false) ∧
        EndOpened t name k0 g σ (FdSystem.pipeOpen t σ name flags)) := by
  have hc := h.counted.tablePipeOpen h.mem name flags
  obtain ⟨hone, -, hstd⟩ := h.one.tablePipeOpen hn h.counted.ends t name flags
  have hstd' : (tablePipeOpen σ.k t name flags).1.stdinFile = k0.stdinFile ∧
      (tablePipeOpen σ.k t name flags).1.stdoutFile = k0.stdoutFile ∧
      (tablePipeOpen σ.k t name flags).1.stderrFile = k0.stderrFile := by
    obtain ⟨h1, h2, h3⟩ := hstd
    obtain ⟨h1', h2', h3'⟩ := h.std
    exact ⟨h1.trans h1', h2.trans h2', h3.trans h3'⟩
  have hat : ∀ g', (tablePipeOpen σ.k t name flags).1.tables t = g' →
      ShellAt t name k0 g' (FdSystem.pipeOpen t σ name flags).1 := fun g' hg' =>
    ⟨hc, hone, h.mem, hg', hstd'⟩
  -- Behind a `kpipe_open` that returns a pipe.
  have hsome : ∀ k1 p, kpipeOpen σ.k name (flags.testBit 0) (flags.testBit 1) = (k1, some p) →
      Bare k1 → k1.tables = σ.k.tables → k1.heap.fails = σ.k.heap.fails →
      k1.heap.next = fileNumber σ.k name → findPipe k1 name ≠ none →
      EndOpened t name k0 g σ (FdSystem.pipeOpen t σ name flags) := by
    intro k1 p hopen hb htab hfails hnext hfind
    have ht1 : k1.tables t = g := (congrFun htab t).trans h.table
    obtain ⟨hk, hcase⟩ := tablePipeOpen_some hright hopen hb t
    rw [ht1, hfails, hnext] at hcase
    refine ⟨fun he => hfind ((hk.findPipe name).symm.trans he), ?_⟩
    rcases hcase with ⟨hr, hg, hwhy⟩ | ⟨fd, f, hr, hfd, hg, hf, hnx, hfl⟩
    · exact .inl ⟨hr, hat g hg, hwhy⟩
    · exact .inr ⟨fd, f, hr, hfd, hat _ hg, hf, hnx, hfl⟩
  have hends := h.counted.ends.kpipeOpen name (flags.testBit 0) (flags.testBit 1)
  rcases kpipeOpen_cases h.counted.ends name (flags.testBit 0) (flags.testBit 1) with
    ⟨p, hp, e⟩ | ⟨hp, hf, e⟩ | ⟨hp, hf, e⟩
  · refine .inr ⟨.inl (by simp [hp]), ?_⟩
    have hk : KeepsBut ∅ σ.k (pipeAddUser σ.k p (flags.testBit 0) (flags.testBit 1)) :=
      .modifyPipe σ.k p ⟨rfl, rfl⟩
    refine hsome _ p e h.counted.ends.bare rfl rfl ?_ ?_
    · simp [fileNumber, hp, pipeAddUser, Kernel.modifyPipe]
    · rw [hk.findPipe name, hp]
      exact Option.some_ne_none p
  · have hnot : (!flags.testBit 0 && !flags.testBit 1) = false := by
      rcases hright with h | h <;> simp [h]
    have hres : tablePipeOpen σ.k t name flags = (σ.k.mmMalloc.1, -1) := by
      simp only [tablePipeOpen, hnot, e, Bool.false_eq_true, if_false]
    have hk : KeepsBut ∅ σ.k σ.k.mmMalloc.1 := .of_calm (.mmMalloc σ.k)
    refine .inl ⟨hp, hf, ?_, hat g ?_, ?_⟩
    · rw [FdSystem.pipeOpen, onKernel, hres]
    · rw [hres]
      exact h.table
    · rw [FdSystem.pipeOpen, onKernel, hres]
      exact (hk.findPipe name).trans hp
  · refine .inr ⟨.inr hf, hsome _ _ e ?_ rfl rfl ?_ ?_⟩
    · rw [e] at hends
      exact hends.2.bare
    · simp [fileNumber, hp, pipeInserted, Kernel.modifyPipe]
    · rw [findPipe_inserted hn]
      exact Option.some_ne_none _

end ShellAt

/-- The shell is inside `execute_pipe` with the variables `v`. -/
def PipelineAt (t : Nat) (name : CStr) (k0 : Kernel) (g0 : FdTable) (v : PipelineVars)
    (σ : FdSystem) : Prop :=
  ∃ g, ShellAt t name k0 g σ ∧ Redirected g0 g v

namespace PipelineAt

variable {k0 : Kernel} {g0 : FdTable} {v : PipelineVars} {σ σ' : FdSystem}

lemma outsideRun (h : PipelineAt t name k0 g0 v σ) (hn : name.length + 1 < pipeNameMax)
    (hr : OutsideRun t σ σ') : PipelineAt t name k0 g0 v σ' := by
  obtain ⟨g, hs, hg⟩ := h
  exact ⟨g, hs.outsideRun hn hr, hg⟩

lemma restoreIn (h : PipelineAt t name k0 g0 v σ) (he : EntryTable g0) :
    PipelineAt t name k0 g0 { v with backupIn := -1 }
        (restoreStream t v.backupIn shellStdin σ) ∧
      findPipe (restoreStream t v.backupIn shellStdin σ).k name = findPipe σ.k name := by
  obtain ⟨g, hs, hg⟩ := h
  rcases hg.backupIn with ⟨hi, -⟩ | ⟨hi, hb⟩
  · have e : { v with backupIn := -1 } = v := by rw [← hi]
    rw [e, hi]
    exact ⟨⟨g, hs, hg⟩, rfl⟩
  · obtain ⟨f, hf⟩ := Option.ne_none_iff_exists'.mp he.stdin
    rw [hi]
    obtain ⟨hs', hp⟩ := hs.restoreStream 60 0 (by decide) (hb.trans hf)
    have h1 := hg.named (x := 0) (e := some f) (.inl rfl) (fun _ => by simp)
      (hg.backupIn.redirect hi (by decide)) (hg.backupOut.other (by decide) (by decide))
    have h2 := h1.named (x := 60) (e := none) (.inr (.inr (.inl rfl))) (by decide)
      (.drop ((update_self _ _ _).trans hf.symm) (by decide))
      (h1.backupOut.other (by decide) (by decide))
    exact ⟨⟨_, hs', h2⟩, hp⟩

lemma restoreOut (h : PipelineAt t name k0 g0 v σ) (he : EntryTable g0) :
    PipelineAt t name k0 g0 { v with backupOut := -1 }
        (restoreStream t v.backupOut shellStdout σ) ∧
      findPipe (restoreStream t v.backupOut shellStdout σ).k name = findPipe σ.k name := by
  obtain ⟨g, hs, hg⟩ := h
  rcases hg.backupOut with ⟨ho, -⟩ | ⟨ho, hb⟩
  · have e : { v with backupOut := -1 } = v := by rw [← ho]
    rw [e, ho]
    exact ⟨⟨g, hs, hg⟩, rfl⟩
  · obtain ⟨f, hf⟩ := Option.ne_none_iff_exists'.mp he.stdout
    rw [ho]
    obtain ⟨hs', hp⟩ := hs.restoreStream 61 1 (by decide) (hb.trans hf)
    have h1 := hg.named (x := 1) (e := some f) (.inr (.inl rfl)) (fun _ => by simp)
      (hg.backupIn.other (by decide) (by decide)) (hg.backupOut.redirect ho (by decide))
    have h2 := h1.named (x := 61) (e := none) (.inr (.inr (.inr rfl))) (by decide)
      (h1.backupIn.other (by decide) (by decide))
      (.drop ((update_self _ _ _).trans hf.symm) (by decide))
    exact ⟨⟨_, hs', h2⟩, hp⟩

lemma closeRead (h : PipelineAt t name k0 g0 v σ) :
    PipelineAt t name k0 g0 { v with readFd := -1 } (closeOpen t v.readFd σ) ∧
      findPipe (closeOpen t v.readFd σ).k name = findPipe σ.k name := by
  obtain ⟨g, hs, hg⟩ := h
  have hneg : (-1 : Int) < 0 := by decide
  unfold closeOpen
  rcases hg.readFd with hr | ⟨fd, hr, hn, h0, hfd⟩
  · rw [if_neg (not_le.mpr hr)]
    refine ⟨⟨g, hs, { hg with readFd := .inl hneg, apart := fun _ => hneg, rest := ?_ }⟩, rfl⟩
    exact fun fd hn hw _ => hg.rest fd hn hw (by omega)
  · obtain ⟨f, hf⟩ := Option.ne_none_iff_exists'.mp hfd
    rw [hr, if_pos (Int.natCast_nonneg _)]
    obtain ⟨hs', hp⟩ := hs.closeFd hf
    have hw : (fd.val : Int) ≠ v.writeFd := by
      have := hg.apart
      omega
    refine ⟨⟨_, hs', hg.unnamed hn (hg.writeFd.other hw) (.inl (by decide)) (fun _ => by decide)
      fun fd' hn' hw' _ => ?_⟩, hp⟩
    by_cases hfd' : fd' = fd
    · rw [hfd', update_self, h0]
    · rw [update_of_ne hfd']
      exact hg.rest fd' hn' hw' (by rw [hr]; omega)

lemma closeWrite (h : PipelineAt t name k0 g0 v σ) :
    PipelineAt t name k0 g0 { v with writeFd := -1 } (closeOpen t v.writeFd σ) ∧
      findPipe (closeOpen t v.writeFd σ).k name = findPipe σ.k name := by
  obtain ⟨g, hs, hg⟩ := h
  have hneg : (-1 : Int) < 0 := by decide
  unfold closeOpen
  rcases hg.writeFd with hw | ⟨fd, hw, hn, h0, hfd⟩
  · rw [if_neg (not_le.mpr hw)]
    have ha : (-1 : Int) = v.readFd → v.readFd < 0 := by omega
    refine ⟨⟨g, hs, { hg with writeFd := .inl hneg, apart := ha, rest := ?_ }⟩, rfl⟩
    exact fun fd hn _ hr => hg.rest fd hn (by omega) hr
  · obtain ⟨f, hf⟩ := Option.ne_none_iff_exists'.mp hfd
    rw [hw, if_pos (Int.natCast_nonneg _)]
    obtain ⟨hs', hp⟩ := hs.closeFd hf
    have hr : (fd.val : Int) ≠ v.readFd := by
      have := hg.apart
      omega
    refine ⟨⟨_, hs', hg.unnamed hn (.inl (by decide)) (hg.readFd.other hr) (fun _ => by omega)
      fun fd' hn' _ hr' => ?_⟩, hp⟩
    by_cases hfd' : fd' = fd
    · rw [hfd', update_self, h0]
    · rw [update_of_ne hfd']
      exact hg.rest fd' hn' (by rw [hw]; omega) hr'

/-- Behind the label `cleanup` the table is that of the entry, and the name is forgotten only if
`pipe_created` is set. -/
lemma cleanup (h : PipelineAt t name k0 g0 v σ) (he : EntryTable g0) :
    ShellAt t name k0 g0 (pipelineCleanup t name v σ) ∧
      findPipe (pipelineCleanup t name v σ).k name =
        if v.pipeCreated then none else findPipe σ.k name := by
  obtain ⟨h1, p1⟩ := h.restoreIn he
  obtain ⟨h2, p2⟩ := h1.restoreOut he
  obtain ⟨h3, p3⟩ := h2.closeRead
  obtain ⟨⟨g, h4, hg⟩, p4⟩ := h3.closeWrite
  dsimp only at h4 hg p2 p3 p4
  have hneg : (-1 : Int) < 0 := by decide
  obtain rfl := hg.done he rfl rfl hneg hneg
  unfold pipelineCleanup
  dsimp only
  split
  · obtain ⟨hs, hc⟩ := h4.counted.ends.kpipeUnlink name
    refine ⟨⟨⟨h4.counted.refs.same hs, hc⟩, h4.one.kpipeUnlink h4.counted.ends name, h4.mem,
      (congrFun hs.tables t).trans h4.table, ?_⟩, h4.one.unlinks h4.counted.ends⟩
    obtain ⟨h1, h2, h3⟩ := hs.std
    obtain ⟨h1', h2', h3'⟩ := h4.std
    exact ⟨h1.trans h1', h2.trans h2', h3.trans h3'⟩
  · exact ⟨h4, p4.trans (p3.trans (p2.trans p1))⟩

/-- Keep the standard input. -/
lemma saveIn (h : PipelineAt t name k0 g0 v σ) (hi : v.backupIn = -1) :
    (dup2 t σ shellStdin shellBackupStdin).2 = 60 ∧
      PipelineAt t name k0 g0 { v with backupIn := 60 }
        (dup2 t σ shellStdin shellBackupStdin).1 ∧
      findPipe (dup2 t σ shellStdin shellBackupStdin).1.k name = findPipe σ.k name ∧
      (dup2 t σ shellStdin shellBackupStdin).1.k.heap = σ.k.heap := by
  obtain ⟨g, hs, hg⟩ := h
  obtain ⟨f, hf⟩ := Option.ne_none_iff_exists'.mp hg.streams.1
  obtain ⟨hs', hr, hp, hheap⟩ := hs.dup2 0 60 (by decide) hf
  have h60 : g 60 = none := by
    rcases hg.backupIn with ⟨-, -, hb⟩ | ⟨hi', -⟩
    · exact hb
    · omega
  have h1 := hg.named (x := 60) (e := some f) (.inr (.inr (.inl rfl))) (fun _ => by simp)
    (hf ▸ hg.backupIn.save hi) (hg.backupOut.other (by decide) (by decide))
  exact ⟨hr, ⟨_, hs', h1⟩, hp, hheap h60⟩

/-- Keep the standard output. -/
lemma saveOut (h : PipelineAt t name k0 g0 v σ) (ho : v.backupOut = -1) :
    (dup2 t σ shellStdout shellBackupStdout).2 = 61 ∧
      PipelineAt t name k0 g0 { v with backupOut := 61 }
        (dup2 t σ shellStdout shellBackupStdout).1 ∧
      findPipe (dup2 t σ shellStdout shellBackupStdout).1.k name = findPipe σ.k name ∧
      (dup2 t σ shellStdout shellBackupStdout).1.k.heap = σ.k.heap := by
  obtain ⟨g, hs, hg⟩ := h
  obtain ⟨f, hf⟩ := Option.ne_none_iff_exists'.mp hg.streams.2
  obtain ⟨hs', hr, hp, hheap⟩ := hs.dup2 1 61 (by decide) hf
  have h61 : g 61 = none := by
    rcases hg.backupOut with ⟨-, -, hb⟩ | ⟨ho', -⟩
    · exact hb
    · omega
  have h1 := hg.named (x := 61) (e := some f) (.inr (.inr (.inr rfl))) (fun _ => by simp)
    (hg.backupIn.other (by decide) (by decide)) (hf ▸ hg.backupOut.save ho)
  exact ⟨hr, ⟨_, hs', h1⟩, hp, hheap h61⟩

/-- Redirect the standard output to the pipe. -/
lemma redirectOut (h : PipelineAt t name k0 g0 v σ) (ho : v.backupOut = 61)
    (hw : 0 ≤ v.writeFd) :
    (dup2 t σ v.writeFd shellStdout).2 = 1 ∧
      PipelineAt t name k0 g0 v (dup2 t σ v.writeFd shellStdout).1 := by
  obtain ⟨g, hs, hg⟩ := h
  rcases hg.writeFd with hneg | ⟨fd, hfd, hn, -, hopen⟩
  · omega
  · obtain ⟨f, hf⟩ := Option.ne_none_iff_exists'.mp hopen
    have hne : fd ≠ 1 := fun e => hn (.inr (.inl e))
    obtain ⟨hs', hr, -⟩ := hs.dup2 fd 1 hne hf
    rw [hfd]
    have h1 := hg.named (x := 1) (e := some f) (.inr (.inl rfl)) (fun _ => by simp)
      (hg.backupIn.other (by decide) (by decide)) (hg.backupOut.redirect ho (by decide))
    exact ⟨hr, _, hs', h1⟩

/-- Redirect the standard input to the pipe. -/
lemma redirectIn (h : PipelineAt t name k0 g0 v σ) (hi : v.backupIn = 60) (hr : 0 ≤ v.readFd) :
    (dup2 t σ v.readFd shellStdin).2 = 0 ∧
      PipelineAt t name k0 g0 v (dup2 t σ v.readFd shellStdin).1 := by
  obtain ⟨g, hs, hg⟩ := h
  rcases hg.readFd with hneg | ⟨fd, hfd, hn, -, hopen⟩
  · omega
  · obtain ⟨f, hf⟩ := Option.ne_none_iff_exists'.mp hopen
    have hne : fd ≠ 0 := fun e => hn (.inl e)
    obtain ⟨hs', hres, -⟩ := hs.dup2 fd 0 hne hf
    rw [hfd]
    have h1 := hg.named (x := 0) (e := some f) (.inl rfl) (fun _ => by simp)
      (hg.backupIn.redirect hi (by decide)) (hg.backupOut.other (by decide) (by decide))
    exact ⟨hres, _, hs', h1⟩

end PipelineAt

section Execute

variable {k0 : Kernel} {g0 g : FdTable} {v : PipelineVars} {σ : FdSystem}

lemma runPipelineCommand_outside (env : PipelineEnv t) (cmd param : CStr) (σ : FdSystem) :
    OutsideRun t σ (runPipelineCommand env cmd param σ).1 := by
  unfold runPipelineCommand
  split
  · exact .start rfl
  · split
    · exact env.spawnOutside cmd σ
    · split
      · exact env.builtinOutside cmd param σ
      · exact .start rfl

/-- The right command and the cleanup behind it. -/
lemma PipelineAt.pipelineRight (h : PipelineAt t name k0 g0 v σ) (he : EntryTable g0)
    (hn : name.length + 1 < pipeNameMax) (hi : v.backupIn = 60) (hr : 0 ≤ v.readFd)
    (hc : v.pipeCreated = true) (env : PipelineEnv t) (right : CStr × CStr) (status : Int) :
    ShellAt t name k0 g0 (pipelineRight env name right v status σ) ∧
      findPipe (pipelineRight env name right v status σ).k name = none := by
  have hdone : ∀ v' σ', PipelineAt t name k0 g0 v' σ' → v'.pipeCreated = true →
      ShellAt t name k0 g0 (pipelineCleanup t name v' σ') ∧
        findPipe (pipelineCleanup t name v' σ').k name = none := by
    intro v' σ' h' hc'
    obtain ⟨h1, h2⟩ := h'.cleanup he
    rw [if_pos hc'] at h2
    exact ⟨h1, h2⟩
  unfold TP2Kernel.pipelineRight
  split
  · obtain ⟨hres, h1⟩ := h.redirectIn hi hr
    dsimp only
    rw [hres, if_neg (by decide)]
    have h2 := h1.closeRead.1
    rw [closeOpen, if_pos hr] at h2
    exact hdone _ _ (h2.outsideRun hn (runPipelineCommand_outside env right.1 right.2 _)) hc
  · exact hdone v σ h hc

/-- Both commands and the cleanup behind them. -/
lemma PipelineAt.pipelineLeft (h : PipelineAt t name k0 g0 v σ) (he : EntryTable g0)
    (hn : name.length + 1 < pipeNameMax) (hi : v.backupIn = 60) (ho : v.backupOut = 61)
    (hw : 0 ≤ v.writeFd) (hr : 0 ≤ v.readFd) (hc : v.pipeCreated = true) (env : PipelineEnv t)
    (left right : CStr × CStr) :
    ShellAt t name k0 g0 (pipelineLeft env name left right v σ) ∧
      findPipe (pipelineLeft env name left right v σ).k name = none := by
  unfold TP2Kernel.pipelineLeft
  obtain ⟨hres, h1⟩ := h.redirectOut ho hw
  dsimp only
  rw [hres, if_neg (by decide)]
  have h2 := h1.closeWrite.1
  rw [closeOpen, if_pos hw] at h2
  have h3 := h2.outsideRun hn (runPipelineCommand_outside env left.1 left.2 _)
  exact (h3.restoreOut he).1.pipelineRight he hn hi hr hc env right _

/-- Both ends of the pipe can be opened, or not even the pipe can be created. -/
def EndsOpen (k : Kernel) (name : CStr) (g : FdTable) : Prop :=
  (findPipe k name = none ∧ k.heap.fails k.heap.next = true) ∨
    ((findPipe k name ≠ none ∨ k.heap.fails k.heap.next = false) ∧
      k.heap.fails (fileNumber k name) = false ∧ k.heap.fails (fileNumber k name + 1) = false ∧
      ∃ i j, i ≠ j ∧ g i = none ∧ g j = none)

/-- Behind the backups the name is forgotten exactly if an end of the pipe cannot be opened. -/
lemma ShellAt.pipelineOpen (h : ShellAt t name k0 g σ) (hg : Redirected g0 g ⟨60, 61, -1, -1, false⟩)
    (he : EntryTable g0) (hn : name.length + 1 < pipeNameMax) (env : PipelineEnv t)
    (left right : CStr × CStr) :
    ShellAt t name k0 g0 (pipelineOpen env name left right ⟨60, 61, -1, -1, false⟩ σ) ∧
      (findPipe (pipelineOpen env name left right ⟨60, 61, -1, -1, false⟩ σ).k name = none ↔
        EndsOpen σ.k name g) := by
  have hneg : (-1 : Int) < 0 := by decide
  unfold TP2Kernel.pipelineOpen
  dsimp only
  have hw : (2 : Nat).testBit 0 = true ∨ (2 : Nat).testBit 1 = true := .inr rfl
  have hrd : (1 : Nat).testBit 0 = true ∨ (1 : Nat).testBit 1 = true := .inl rfl
  rcases h.pipeOpen hn hw with ⟨hnone, hf, hr, h1, hp⟩ | ⟨hlink, hp, hend⟩
  · obtain ⟨h2, hc⟩ := PipelineAt.cleanup ⟨g, h1, hg⟩ he
    rw [hr, if_pos hneg]
    refine ⟨h2, iff_of_true (hc.trans hp) (.inl ⟨hnone, hf⟩)⟩
  · have hno : ¬(findPipe σ.k name = none ∧ σ.k.heap.fails σ.k.heap.next = true) := by
      rintro ⟨h1, h2⟩
      rcases hlink with h | h
      · exact h h1
      · rw [h] at h2
        cases h2
    rcases hend with ⟨hr, h1, hwhy⟩ | ⟨fd, f, hr, hfd, h1, hf, hnext, hfails⟩
    · obtain ⟨h2, hc⟩ := PipelineAt.cleanup ⟨g, h1, hg⟩ he
      rw [hr, if_pos hneg]
      refine ⟨h2, iff_of_false (fun e => hp (hc.symm.trans e)) ?_⟩
      rintro (hx | ⟨-, hfile, -, i, -, -, hi, -⟩)
      · exact hno hx
      · rcases hwhy with hw | hw
        · rw [hw] at hfile
          cases hfile
        · exact hw i hi
    · rw [hr, if_neg (not_lt.mpr (Int.natCast_nonneg _))]
      have hg1 := hg.openWrite he rfl rfl hneg hfd f
      have hfile : fileNumber (FdSystem.pipeOpen t σ name 2).1.k name =
          fileNumber σ.k name + 1 := by
        rw [fileNumber, if_pos (Option.isSome_iff_ne_none.mpr hp), hnext]
      rcases h1.pipeOpen hn hrd with ⟨hnone, -⟩ | ⟨-, hp2, hend2⟩
      · exact absurd hnone hp
      · rw [hfails, hfile] at hend2
        rcases hend2 with ⟨hr2, h2, hwhy⟩ | ⟨fd2, f2, hr2, hfd2, h2, hf2, -, -⟩
        · obtain ⟨h3, hc⟩ := PipelineAt.cleanup ⟨_, h2, hg1⟩ he
          rw [hr2, if_pos hneg]
          refine ⟨h3, iff_of_false (fun e => hp2 (hc.symm.trans e)) ?_⟩
          rintro (hx | ⟨-, -, hfile2, i, j, hij, hi, hj⟩)
          · exact hno hx
          · rcases hwhy with hw | hw
            · rw [hw] at hfile2
              cases hfile2
            · by_cases hifd : i = fd
              · apply hw j
                rw [update_of_ne fun e => hij (hifd.trans e.symm)]
                exact hj
              · apply hw i
                rw [update_of_ne hifd]
                exact hi
        · rw [hr2, if_neg (not_lt.mpr (Int.natCast_nonneg _))]
          have hg2 := hg1.openRead he rfl rfl hneg hfd2 f2
          obtain ⟨h3, hc⟩ := PipelineAt.pipelineLeft (v := ⟨60, 61, fd.val, fd2.val, true⟩)
            ⟨_, h2, { hg2 with }⟩ he hn rfl rfl (Int.natCast_nonneg _) (Int.natCast_nonneg _) rfl
            env left right
          refine ⟨h3, iff_of_true hc (.inr ⟨hlink, hf, hf2, fd, fd2, ?_, hfd, ?_⟩)⟩
          · rintro rfl
            rw [update_self] at hfd2
            cases hfd2
          · by_cases hij : fd2 = fd
            · exact hij ▸ hfd
            · rwa [update_of_ne hij] at hfd2

/-- The backups take two of the unused entries. -/
lemma Redirected.unused (hg : Redirected g0 g ⟨60, 61, -1, -1, false⟩) (he : EntryTable g0) :
    (Finset.univ.filter fun fd => g0 fd = none).card =
      (Finset.univ.filter fun fd => g fd = none).card + 2 := by
  have h60 : g 60 ≠ none := by
    rcases hg.backupIn with ⟨hi, -⟩ | ⟨-, hb⟩
    · cases hi
    · rw [hb]
      exact he.stdin
  have h61 : g 61 ≠ none := by
    rcases hg.backupOut with ⟨ho, -⟩ | ⟨-, hb⟩
    · cases ho
    · rw [hb]
      exact he.stdout
  have hset : (Finset.univ.filter fun fd => g0 fd = none) =
      insert 60 (insert 61 (Finset.univ.filter fun fd => g fd = none)) := by
    ext fd
    simp only [Finset.mem_filter, Finset.mem_univ, true_and, Finset.mem_insert]
    by_cases hfd : NamedFd fd
    · rcases hfd with rfl | rfl | rfl | rfl
      · simp [he.stdin, hg.streams.1]
      · simp [he.stdout, hg.streams.2]
      · simp [he.backupIn]
      · simp [he.backupOut]
    · have hne : fd ≠ 60 ∧ fd ≠ 61 :=
        ⟨fun e => hfd (.inr (.inr (.inl e))), fun e => hfd (.inr (.inr (.inr e)))⟩
      have := hg.rest fd hfd (by dsimp only; omega) (by dsimp only; omega)
      simp [hne.1, hne.2, this]
  rw [hset, Finset.card_insert_of_notMem, Finset.card_insert_of_notMem]
  · simp [h61]
  · simp [h60]

lemma endsOpen_iff (hg : Redirected g0 g ⟨60, 61, -1, -1, false⟩) (he : EntryTable g0) {k : Kernel}
    (hk : k.tables t = g0) : EndsOpen k name g ↔ PipelineOpens k t name := by
  have hcard := hg.unused he
  have hex : (∃ i j, i ≠ j ∧ g i = none ∧ g j = none) ↔ 4 ≤ unusedEntries k t := by
    have h1 : (∃ i j, i ≠ j ∧ g i = none ∧ g j = none) ↔
        1 < (Finset.univ.filter fun fd => g fd = none).card := by
      rw [Finset.one_lt_card_iff]
      simp only [Finset.mem_filter, Finset.mem_univ, true_and]
      constructor
      · rintro ⟨i, j, hij, hi, hj⟩
        exact ⟨i, j, hi, hj, hij⟩
      · rintro ⟨i, j, hi, hj, hij⟩
        exact ⟨i, j, hij, hi, hj⟩
    rw [h1, unusedEntries, hk, hcard]
    omega
  unfold EndsOpen PipelineOpens fileNumber
  rw [hex]
  cases hfind : findPipe k name with
  | none => simp
  | some p => simp

lemma ShellAt.pipelineBody (h : ShellAt t name k0 g0 σ) (he : EntryTable g0)
    (hn : name.length + 1 < pipeNameMax) (env : PipelineEnv t) (left right : CStr × CStr) :
    ShellAt t name k0 g0 (pipelineBody env name left right σ) ∧
      (findPipe (pipelineBody env name left right σ).k name = none ↔
        PipelineOpens σ.k t name) := by
  unfold TP2Kernel.pipelineBody
  obtain ⟨hr1, h1, hp1, hh1⟩ := PipelineAt.saveIn ⟨g0, h, .start he⟩ rfl
  dsimp only
  rw [hr1, if_neg (by decide)]
  obtain ⟨hr2, ⟨g, h2, hg⟩, hp2, hh2⟩ := h1.saveOut rfl
  rw [hr2, if_neg (by decide)]
  obtain ⟨h3, hiff⟩ := h2.pipelineOpen hg he hn env left right
  refine ⟨h3, hiff.trans ?_⟩
  rw [← endsOpen_iff hg he h.table]
  unfold EndsOpen fileNumber
  rw [hp2, hp1, hh2, hh1]

end Execute

/-- The names of the pipes, whatever stood on the stack. -/
lemma read_sprintf_pipeName (e : StackBytes) (mem : Nat → UInt8) (seq : Int32) :
    ∃ out, Stdio.sprintf e ⟨mem, 32, true⟩ "tmp_pipe_%d".toUTF8.toList [.int seq] = some out ∧
      CString.read out.1.mem 0 32 = "tmp_pipe_".toUTF8.toList ++ decimalText seq.toInt := by
  have hargs : NoMinimum [.int seq] := fun v hv => by simp at hv
  have hplain : ∀ c ∈ "tmp_pipe_".toUTF8.toList, c ≠ 37 := by decide +kernel
  have hzero : 0 ∉ "tmp_pipe_".toUTF8.toList := by decide +kernel
  have hstem : ("tmp_pipe_".toUTF8.toList).length = 9 := by decide +kernel
  have hformat : "tmp_pipe_%d".toUTF8.toList = "tmp_pipe_".toUTF8.toList ++ [37, 100] := by
    decide +kernel
  have hr : Renders false ("tmp_pipe_".toUTF8.toList ++ [37, 100]) [.int seq]
      ("tmp_pipe_".toUTF8.toList.map ([·]) ++ [decimalText seq.toInt]) :=
    renders_plain hplain (.conversion (.int (.inl rfl)) .nil)
  have hflat : ("tmp_pipe_".toUTF8.toList.map ([·]) ++ [decimalText seq.toInt]).flatten =
      "tmp_pipe_".toUTF8.toList ++ decimalText seq.toInt := by
    rw [List.flatten_append, ← List.flatMap_def, List.flatMap_singleton']
    simp
  have hdecimal : decimalText seq.toInt = decimal seq.toInt64.toInt := by
    rw [Int32.toInt_toInt64, decimalText_eq]
  have hlen := decimal_length_le seq.toInt64
  rw [← hdecimal] at hlen
  rw [hformat]
  refine ⟨_, (sprintf_iff hargs).mpr ⟨_, hr, rfl⟩, ?_⟩
  rw [hflat]
  have hstored := storesText ⟨mem, 32, true⟩ ("tmp_pipe_".toUTF8.toList ++ decimalText seq.toInt)
  rw [CString.read_eq_bytes _ _ _, hstored.stored]
  · rw [hstored.stored, List.mem_append, hdecimal, not_or]
    exact ⟨hzero, zero_notMem_decimal _⟩
  · rw [Nat.zero_add]
    exact hstored.terminated
  · rw [List.length_append, hstem]
    omega

lemma tmpPipeName_length (seq : Int32) : (tmpPipeName seq).length + 1 < pipeNameMax := by
  obtain ⟨out, hout, hread⟩ := read_sprintf_pipeName ⟨fun _ => 0, fun _ _ => 0⟩ (fun _ => 0) seq
  have hlen := decimal_length_le seq.toInt64
  have hstem : ("tmp_pipe_".toUTF8.toList).length = 9 := by decide +kernel
  have hmax : pipeNameMax = 32 := rfl
  rw [Int32.toInt_toInt64, ← decimalText_eq] at hlen
  rw [tmpPipeName, hout]
  dsimp only
  rw [hread, List.length_append]
  omega

/-- With the same tables come the same references. -/
lemma ShellAt.refcount {k0 : Kernel} {g : FdTable} {σ σ' : FdSystem}
    (h : ShellAt t name k0 g σ) (h' : ShellAt t name k0 g σ') (ht : σ'.tables = σ.tables)
    (hs : ∀ t' ∈ σ.tables, t' ≠ t → σ'.k.tables t' = σ.k.tables t') (f : Nat) :
    (σ'.k.files f).refcount = (σ.k.files f).refcount := by
  have hstd : IsStd σ'.k f ↔ IsStd σ.k f := by
    unfold IsStd
    rw [h'.std.1, h'.std.2.1, h'.std.2.2, h.std.1, h.std.2.1, h.std.2.2]
  have hent : fileEntries σ'.tables σ'.k f = fileEntries σ.tables σ.k f := by
    rw [fileEntries_eq, fileEntries_eq, ht]
    apply Finset.sum_congr rfl
    intro t' ht'
    by_cases he : t' = t
    · rw [he, h'.table, h.table]
    · rw [hs t' ht' he]
  rw [h'.counted.refs.count, h.counted.refs.count, hent]
  simp only [hstd]

/-- `execute_pipe` undoes all it did exactly if it refuses its lines, cannot create the pipe, or
opens both ends of it. -/
theorem executePipe_undone {σ : FdSystem}
    (h : Transition.Reach FdSystem.Start FdSystem.step FdSystem.BareElsewhere σ)
    (ht : t ∈ σ.tables) (hstdin : σ.k.tables t 0 ≠ none) (hstdout : σ.k.tables t 1 ≠ none)
    (hin : σ.k.tables t 60 = none) (hout : σ.k.tables t 61 = none) (env : PipelineEnv t)
    (seq : Int32) (leftLine rightLine : CStr) :
    PipelineUndone t (executePipe env seq leftLine rightLine σ).2 σ
        (executePipe env seq leftLine rightLine σ).1 ↔
      (parseCommandLine leftLine).1 < 0 ∨ (parseCommandLine rightLine).1 < 0 ∨
        PipelineOpens σ.k t (tmpPipeName seq) := by
  have hn := tmpPipeName_length seq
  obtain ⟨hcount, hone⟩ := oneLinked_of_reach hn h
  have hat : ShellAt t (tmpPipeName seq) σ.k (σ.k.tables t) σ :=
    ⟨hcount, hone, ht, rfl, rfl, rfl, rfl⟩
  have he : EntryTable (σ.k.tables t) := ⟨hstdin, hstdout, hin, hout⟩
  have hundone : ∀ σ' n, ShellAt t (tmpPipeName seq) σ.k (σ.k.tables t) σ' →
      (PipelineUndone t n σ σ' ↔ ∀ m ∈ n, findPipe σ'.k m = none) := by
    intro σ' n h'
    refine ⟨fun hu => hu.unlinked, fun hu => ⟨h'.table, fun σ'' hr hT hs f => ?_, hu⟩⟩
    exact hat.refcount (h'.outsideRun hn hr) hT hs f
  unfold executePipe
  dsimp only
  by_cases hp : (parseCommandLine leftLine).1 < 0 ∨ (parseCommandLine rightLine).1 < 0
  · rw [if_pos hp]
    refine iff_of_true ((hundone σ none hat).mpr fun m hm => by cases hm) ?_
    rcases hp with hp | hp
    · exact .inl hp
    · exact .inr (.inl hp)
  · rw [if_neg hp]
    obtain ⟨h1, hiff⟩ := hat.pipelineBody he hn env (parseCommandLine leftLine).2
      (parseCommandLine rightLine).2
    rw [not_or] at hp
    rw [hundone _ _ h1]
    simp [hp.1, hp.2, hiff]

/-- A process gets a copy of the table `t`, and ends. -/
def commandRun (t : Nat) (σ : FdSystem) : FdSystem :=
  if σ.k.heap.next = t then σ
  else (Transition.run FdSystem.step σ [.clone t, .destroy σ.k.heap.next]).getD σ

lemma commandRun_outside (t : Nat) (σ : FdSystem) : OutsideRun t σ (commandRun t σ) := by
  unfold commandRun
  split
  · exact .start rfl
  · rename_i hne
    cases hr : Transition.run FdSystem.step σ [.clone t, .destroy σ.k.heap.next] with
    | none => exact .start rfl
    | some σ' =>
      have h0 : OutsideRun t σ σ := .start rfl
      apply Transition.Reach.of_run_ok h0 _ hr
      intro e he s
      simp only [List.mem_cons, List.not_mem_nil, or_false] at he
      rcases he with rfl | rfl
      · trivial
      · exact hne

/-- Commands that end at once. -/
def commandEnv (t : Nat) : PipelineEnv t where
  spawn _ σ := (commandRun t σ, 0)
  builtin _ _ σ := σ
  spawnOutside _ σ := commandRun_outside t σ
  builtinOutside _ _ _ := .start rfl

/-- A booting system in which some allocations fail. -/
def failingStart (fails : Nat → Bool) : FdSystem :=
  ⟨{ fdStart.k with heap := { fdStart.k.heap with fails := fails } }, ∅⟩

lemma failingStart_start (fails : Nat → Bool) : (failingStart fails).Start :=
  ⟨rfl, fdStart_start.files, fdStart_start.std, fdStart_start.pipes, fdStart_start.buckets,
    fdStart_start.freed, fdStart_start.bare⟩

/-- The shell gets the table 3. -/
def shellRun : List FdEvent := [.attachStd, .elsewhere fdCaller 0]

lemma shellRun_reach {fails : Nat → Bool} {σ : FdSystem}
    (hr : Transition.run FdSystem.step (failingStart fails) shellRun = some σ) :
    Transition.Reach FdSystem.Start FdSystem.step FdSystem.BareElsewhere σ := by
  apply Transition.Reach.of_run_ok (.start (failingStart_start fails)) _ hr
  intro e he s
  simp only [shellRun, List.mem_cons, List.not_mem_nil, or_false] at he
  rcases he with rfl | rfl
  · trivial
  · exact bare_of_none rfl

/-- `cat | wc`. -/
theorem executePipe_undone_sample : ∃ σ,
    Transition.run FdSystem.step (failingStart fun _ => false) shellRun = some σ ∧
    PipelineUndone 3 (executePipe (commandEnv 3) 0 [99, 97, 116] [119, 99] σ).2 σ
      (executePipe (commandEnv 3) 0 [99, 97, 116] [119, 99] σ).1 := by
  have hrun : (Transition.run FdSystem.step (failingStart fun _ => false) shellRun).any (fun σ =>
      decide (3 ∈ σ.tables ∧ σ.k.tables 3 0 ≠ none ∧ σ.k.tables 3 1 ≠ none ∧
        σ.k.tables 3 60 = none ∧ σ.k.tables 3 61 = none ∧
        PipelineOpens σ.k 3 (tmpPipeName 0))) = true := by decide +kernel
  obtain ⟨σ, hσ, hok⟩ := (Option.any_eq_true _ _).mp hrun
  obtain ⟨ht, h0, h1, h60, h61, hopen⟩ := of_decide_eq_true hok
  refine ⟨σ, hσ, ?_⟩
  exact (executePipe_undone (shellRun_reach hσ) ht h0 h1 h60 h61 (commandEnv 3) 0 [99, 97, 116]
    [119, 99]).mpr (.inr (.inr hopen))

/-- The file of the write end cannot be allocated: the pipe stays under its name. -/
theorem pipe_stays_linked : ∃ σ,
    Transition.run FdSystem.step (failingStart fun n => decide (n = 5)) shellRun = some σ ∧
    3 ∈ σ.tables ∧ σ.k.tables 3 0 ≠ none ∧ σ.k.tables 3 1 ≠ none ∧
    σ.k.tables 3 60 = none ∧ σ.k.tables 3 61 = none ∧
    findPipe (executePipe (commandEnv 3) 0 [99, 97, 116] [119, 99] σ).1.k (tmpPipeName 0) = some 4 ∧
    ¬PipelineUndone 3 (executePipe (commandEnv 3) 0 [99, 97, 116] [119, 99] σ).2 σ
      (executePipe (commandEnv 3) 0 [99, 97, 116] [119, 99] σ).1 := by
  have hrun : (Transition.run FdSystem.step (failingStart fun n => decide (n = 5)) shellRun).any
      (fun σ => decide (3 ∈ σ.tables ∧ σ.k.tables 3 0 ≠ none ∧ σ.k.tables 3 1 ≠ none ∧
        σ.k.tables 3 60 = none ∧ σ.k.tables 3 61 = none ∧
        (executePipe (commandEnv 3) 0 [99, 97, 116] [119, 99] σ).2 = some (tmpPipeName 0) ∧
        findPipe (executePipe (commandEnv 3) 0 [99, 97, 116] [119, 99] σ).1.k (tmpPipeName 0) =
          some 4)) = true := by decide +kernel
  obtain ⟨σ, hσ, hok⟩ := (Option.any_eq_true _ _).mp hrun
  obtain ⟨ht, h0, h1, h60, h61, hname, hfind⟩ := of_decide_eq_true hok
  refine ⟨σ, hσ, ht, h0, h1, h60, h61, hfind, fun hu => ?_⟩
  have := hu.unlinked _ hname
  rw [hfind] at this
  cases this

end TP2Kernel.Proofs
