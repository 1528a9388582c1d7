import TP2Kernel.System
import TP2Kernel.Proofs.PipeEnds

/-!
# The lifetime of files

A file's `refcount` is the number of table entries that point to it, and one more for a
standard file, except inside a call that holds references of its own.
-/

namespace TP2Kernel.Proofs
open Function FdSystem

variable {k k' : Kernel} {x : Nat → Int} {T : Finset Nat} {t f : Nat}

/-- The reference counts match the table entries and the standard files, but `x` references
more are held. -/
structure RefsOwing (x : Nat → Int) (T : Finset Nat) (k : Kernel) : Prop where
  count : ∀ f, (k.files f).refcount =
    fileEntries T k f + (if IsStd k f then 1 else 0) + x f
  tty : ∀ f, (k.files f).ptr = .tty → 0 < (k.files f).refcount → IsStd k f
  tables : ∀ t ∈ T, t < k.heap.next

/-- The number of entries of one table that point to a file. -/
def tableEntries (g : FdTable) (f : Nat) : Nat := (Finset.univ.filter fun fd => g fd = some f).card

lemma fileEntries_eq (T : Finset Nat) (k : Kernel) (f : Nat) :
    fileEntries T k f = ∑ t ∈ T, tableEntries (k.tables t) f := rfl

/-- A write to one entry. -/
lemma tableEntries_update (g : FdTable) (fd : Fin fdMax) (e : Option Nat) (f : Nat) :
    tableEntries (update g fd e) f + (if g fd = some f then 1 else 0) =
      tableEntries g f + if e = some f then 1 else 0 := by
  have hsum : ∀ g : FdTable, tableEntries g f = (if g fd = some f then 1 else 0) +
      ∑ i ∈ Finset.univ.erase fd, if g i = some f then 1 else 0 := by
    intro g
    rw [tableEntries, Finset.card_filter, ← Finset.add_sum_erase _ _ (Finset.mem_univ fd)]
  have hrest : (∑ i ∈ Finset.univ.erase fd, if update g fd e i = some f then 1 else 0) =
      ∑ i ∈ Finset.univ.erase fd, if g i = some f then 1 else 0 := by
    apply Finset.sum_congr rfl
    intro i hi
    rw [update_of_ne (Finset.ne_of_mem_erase hi)]
  rw [hsum (update g fd e), hsum g, hrest, update_self]
  omega

lemma fileEntries_setEntry (ht : t ∈ T) (fd : Fin fdMax) (e : Option Nat) (f : Nat) :
    fileEntries T (k.setEntry t fd e) f + (if k.tables t fd = some f then 1 else 0) =
      fileEntries T k f + if e = some f then 1 else 0 := by
  have hself : (k.setEntry t fd e).tables t = update (k.tables t) fd e := by
    simp [Kernel.setEntry]
  have hrest : (∑ s ∈ T.erase t, tableEntries ((k.setEntry t fd e).tables s) f) =
      ∑ s ∈ T.erase t, tableEntries (k.tables s) f := by
    apply Finset.sum_congr rfl
    intro s hs
    rw [Kernel.setEntry]
    dsimp only
    rw [update_of_ne (Finset.ne_of_mem_erase hs)]
  have := tableEntries_update (k.tables t) fd e f
  rw [fileEntries_eq, fileEntries_eq, ← Finset.add_sum_erase _ _ ht,
    ← Finset.add_sum_erase _ _ ht, hself, hrest]
  omega

lemma fileEntries_pos (ht : t ∈ T) {fd : Fin fdMax} (h : k.tables t fd = some f) :
    0 < fileEntries T k f := by
  have h1 : 0 < tableEntries (k.tables t) f := by
    apply Finset.card_pos.mpr
    exact ⟨fd, Finset.mem_filter.mpr ⟨Finset.mem_univ fd, h⟩⟩
  rw [fileEntries_eq]
  exact h1.trans_le (Finset.single_le_sum (f := fun t => tableEntries (k.tables t) f)
    (fun _ _ => Nat.zero_le _) ht)

namespace RefsOwing

lemma same (h : RefsOwing x T k) (hs : SameFiles k k') : RefsOwing x T k' := by
  have hstd : ∀ f, IsStd k' f ↔ IsStd k f := by
    intro f
    rw [IsStd, IsStd, hs.std.1, hs.std.2.1, hs.std.2.2]
  have hentries : ∀ f, fileEntries T k' f = fileEntries T k f := by
    intro f
    rw [fileEntries, fileEntries, hs.tables]
  refine ⟨fun f => ?_, fun f h1 h2 => ?_, fun t ht => (h.tables t ht).trans_le hs.next⟩
  · rw [hs.files, hentries]
    simp only [hstd]
    exact h.count f
  · rw [hs.files] at h1 h2
    exact (hstd f).mpr (h.tty f h1 h2)

lemma of_eq {y : Nat → Int} (h : RefsOwing x T k) (hx : ∀ f, x f = y f) : RefsOwing y T k := by
  obtain rfl : x = y := funext hx
  exact h

/-- References are taken and given back; only live files get new ones. -/
lemma recounted {y : Nat → Int} (h : RefsOwing x T k) (hr : Recounted y k k')
    (hup : ∀ f, 0 < y f → 0 < (k.files f).refcount) : RefsOwing (fun f => x f + y f) T k' := by
  have hstd : ∀ f, IsStd k' f ↔ IsStd k f := by
    intro f
    rw [IsStd, IsStd, hr.std.1, hr.std.2.1, hr.std.2.2]
  have hentries : ∀ f, fileEntries T k' f = fileEntries T k f := by
    intro f
    rw [fileEntries, fileEntries, hr.tables]
  refine ⟨fun f => ?_, fun f h1 h2 => ?_, fun t ht => (h.tables t ht).trans_le hr.next⟩
  · have := h.count f
    rw [hr.refcount, hentries]
    simp only [hstd]
    omega
  · rw [hr.ptr] at h1
    rw [hr.refcount] at h2
    have := hup f
    exact (hstd f).mpr (h.tty f h1 (by omega))

/-- An entry is written. -/
lemma setEntry (h : RefsOwing x T k) (ht : t ∈ T) (fd : Fin fdMax) (e : Option Nat) :
    RefsOwing (fun f => x f + (if k.tables t fd = some f then 1 else 0) -
      if e = some f then 1 else 0) T (k.setEntry t fd e) := by
  refine ⟨fun f => ?_, h.tty, h.tables⟩
  have h1 := h.count f
  have h2 := fileEntries_setEntry (k := k) ht fd e f
  have hstd : (if IsStd (k.setEntry t fd e) f then (1 : Int) else 0) =
      if IsStd k f then 1 else 0 := rfl
  rw [hstd]
  change (k.files f).refcount = _
  generalize (if IsStd k f then (1 : Int) else 0) = s at *
  split_ifs at h2 ⊢ <;> omega

/-- A file that something points to is live, and the terminal has a global reference, too. -/
lemma live (h : RefsOwing x T k) (hf : 0 < (fileEntries T k f : Int) + x f) :
    0 < (k.files f).refcount ∧ ((k.files f).ptr = .tty → 1 < (k.files f).refcount) := by
  have hc := h.count f
  have hpos : 0 < (k.files f).refcount := by
    split at hc <;> omega
  refine ⟨hpos, fun htty => ?_⟩
  have hstd := h.tty f htty hpos
  rw [if_pos hstd] at hc
  omega

end RefsOwing

/-- A process whose table is `t` makes these calls on it. -/
lemma syscall_table {exec p : Slot} (h : callerTable k = some (p, t)) :
    (∀ name flags, syscall k exec (.pipeOpen name flags) =
        returning (tablePipeOpen k t name flags)) ∧
      (∀ fd, syscall k exec (.close fd) = returning (fdTableClose wake k t fd)) ∧
      ∀ oldfd newfd, syscall k exec (.dup2 oldfd newfd) =
        returning (fdTableDup2 wake k t oldfd newfd) := by
  refine ⟨fun name flags => ?_, fun fd => ?_, fun oldfd newfd => ?_⟩
  · simp only [syscall, sysPipeOpen, h]
    rfl
  · simp only [syscall, h]
  · simp only [syscall, h]

/-- A call on descriptors does nothing, unlinks a pipe or works on the table of its caller. -/
lemma syscall_onFd (k : Kernel) (exec : Slot) {c : Syscall} (hc : c.onFd = true) :
    (syscall k exec c).1 = k ∨ (∃ name, (syscall k exec c).1 = (kpipeUnlink k name).1) ∨
      ∃ y, callerTable k = some y ∧
        ((∃ name flags, (syscall k exec c).1 = (tablePipeOpen k y.2 name flags).1) ∨
          (∃ fd, (syscall k exec c).1 = (fdTableClose wake k y.2 fd).1) ∨
          ∃ oldfd newfd, (syscall k exec c).1 = (fdTableDup2 wake k y.2 oldfd newfd).1) := by
  cases hct : callerTable k with
  | none =>
    cases c with
    | pipeUnlink name => exact .inr (.inl ⟨name, rfl⟩)
    | pipeOpen name flags => exact .inl (by simp only [syscall, sysPipeOpen, hct, returning])
    | close fd => exact .inl (by simp only [syscall, hct])
    | dup2 oldfd newfd => exact .inl (by simp only [syscall, hct])
    | _ => cases hc
  | some y =>
    obtain ⟨hopen, hclose, hdup⟩ := syscall_table hct
    cases c with
    | pipeUnlink name => exact .inr (.inl ⟨name, rfl⟩)
    | pipeOpen name flags =>
      exact .inr (.inr ⟨y, rfl, .inl ⟨name, flags, congrArg Prod.fst (hopen name flags)⟩⟩)
    | close fd => exact .inr (.inr ⟨y, rfl, .inr (.inl ⟨fd, congrArg Prod.fst (hclose fd)⟩)⟩)
    | dup2 oldfd newfd =>
      exact .inr (.inr ⟨y, rfl, .inr (.inr ⟨oldfd, newfd, congrArg Prod.fst (hdup oldfd newfd)⟩)⟩)
    | _ => cases hc

/-- Every reference is counted. -/
structure FdCounted (T : Finset Nat) (k : Kernel) : Prop where
  refs : RefsOwing (fun _ => 0) T k
  ends : PipesOwing none none k

namespace FdCounted

/-- A live file gets a new entry. -/
lemma share (h : FdCounted T k) (ht : t ∈ T) {fd : Fin fdMax} (hfd : k.tables t fd = none)
    (hf : 0 < (k.files f).refcount) :
    FdCounted T ((fileRef k f).setEntry t fd (some f)) := by
  obtain ⟨hr, h1⟩ := h.ends.fileRef hf
  have h2 := h.refs.recounted hr fun g hg => by
    rw [oneRef] at hg
    split at hg
    · rename_i e
      rwa [e]
    · omega
  have h3 := h2.setEntry ht fd (some f)
  have htab : (fileRef k f).tables t fd = none := hfd
  refine ⟨h3.of_eq fun g => ?_, { h1 with }⟩
  rw [htab, oneRef]
  by_cases hg : g = f
  · simp [hg]
  · simp [hg, Ne.symm hg]

/-- `fd_table_close` of an open descriptor. -/
lemma close (h : FdCounted T k) (ht : t ∈ T) {fd : Fin fdMax} (hfd : k.tables t fd = some f) :
    FdCounted T (fileRelease wake (k.setEntry t fd none) f) := by
  have h1 := h.refs.setEntry ht fd none
  rw [hfd] at h1
  have h2 : PipesOwing none none (k.setEntry t fd none) := { h.ends with }
  obtain ⟨hpos, htty⟩ := h1.live (f := f) (by simp)
  obtain ⟨hr, h3⟩ := h2.fileRelease fdCalm_wake hpos htty
  refine ⟨(h1.recounted hr fun g hg => ?_).of_eq fun g => ?_, h3⟩
  · rw [oneRef] at hg
    split at hg <;> omega
  · rw [oneRef]
    by_cases hg : g = f
    · simp [hg]
    · simp [hg, Ne.symm hg]

/-- A file is released before its entry is cleared. -/
lemma clear {unblock : Kernel → Int → Kernel} (hu : WakesCalmly unblock) (h : FdCounted T k)
    (ht : t ∈ T) {fd : Fin fdMax} (hfd : k.tables t fd = some f) :
    FdCounted T ((fileRelease unblock k f).setEntry t fd none) ∧
      (fileRelease unblock k f).tables = k.tables ∧
      k.heap.next ≤ (fileRelease unblock k f).heap.next := by
  obtain ⟨hpos, htty⟩ := h.refs.live (f := f) (by
    have := fileEntries_pos ht hfd
    omega)
  obtain ⟨hr, h1⟩ := h.ends.fileRelease hu hpos htty
  have h2 := h.refs.recounted hr fun g hg => by
    rw [oneRef] at hg
    split at hg <;> omega
  have h3 := h2.setEntry ht fd none
  refine ⟨⟨h3.of_eq fun g => ?_, { h1 with }⟩, hr.tables, hr.next⟩
  rw [hr.tables, hfd, oneRef]
  by_cases hg : g = f
  · simp [hg]
  · simp [hg, Ne.symm hg]

/-- `fd_table_dup2` of an open descriptor onto another one. -/
lemma dup (h : FdCounted T k) (ht : t ∈ T) (old : Fin fdMax) {fd : Fin fdMax} (hne : old ≠ fd)
    (hold : k.tables t old = some f) :
    FdCounted T ((fileRef (match k.tables t fd with
      | some g => fileRelease wake k g
      | none => k) f).setEntry t fd (some f)) := by
  cases hfd : k.tables t fd with
  | none =>
    have hpos := fileEntries_pos ht hold
    exact h.share ht hfd (h.refs.live (by omega)).1
  | some g =>
    obtain ⟨h1, htab, -⟩ := h.clear fdCalm_wake ht hfd
    dsimp only
    generalize fileRelease wake k g = k1 at h1 htab ⊢
    have hold1 : (k1.setEntry t fd none).tables t old = some f := by
      simp [Kernel.setEntry, htab, hne, hold]
    have hfd1 : (k1.setEntry t fd none).tables t fd = none := by simp [Kernel.setEntry]
    have hpos := fileEntries_pos ht hold1
    have hlive := h1.refs.live (f := f) (by omega)
    have h2 := h1.share ht hfd1 hlive.1
    have e : (fileRef (k1.setEntry t fd none) f).setEntry t fd (some f) =
        (fileRef k1 f).setEntry t fd (some f) := by
      simp [fileRef, Kernel.modifyFile, Kernel.setEntry]
    rwa [e] at h2

lemma same (h : FdCounted T k) (hc : FdCalm k k') : FdCounted T k' :=
  ⟨h.refs.same hc.toSameFiles, h.ends.calm hc⟩

lemma destroyFold {unblock : Kernel → Int → Kernel} (hu : WakesCalmly unblock)
    (h : FdCounted T k) (ht : t ∈ T) (l : List (Fin fdMax)) :
    FdCounted T (l.foldl (fdTableDestroyStep unblock t) k) ∧
      ∀ fd, fd ∈ l ∨ k.tables t fd = none →
        (l.foldl (fdTableDestroyStep unblock t) k).tables t fd = none := by
  induction l generalizing k with
  | nil => exact ⟨h, fun fd hfd => hfd.resolve_left List.not_mem_nil⟩
  | cons i l ih =>
    rw [List.foldl_cons]
    have hstep : FdCounted T (fdTableDestroyStep unblock t k i) ∧ ∀ fd, fd = i ∨
        k.tables t fd = none → (fdTableDestroyStep unblock t k i).tables t fd = none := by
      unfold fdTableDestroyStep
      cases hi : k.tables t i with
      | none =>
        refine ⟨h, fun fd hfd => ?_⟩
        rcases hfd with rfl | hfd
        · exact hi
        · exact hfd
      | some f =>
        obtain ⟨h1, htab, -⟩ := h.clear hu ht hi
        refine ⟨h1, fun fd hfd => ?_⟩
        dsimp only
        by_cases he : fd = i
        · simp [Kernel.setEntry, he]
        · simpa [Kernel.setEntry, htab, he] using hfd
    obtain ⟨h1, h2⟩ := ih hstep.1
    refine ⟨h1, fun fd hfd => h2 fd ?_⟩
    rcases hfd with hfd | hfd
    · rcases List.mem_cons.mp hfd with rfl | hfd
      · exact .inr (hstep.2 fd (.inl rfl))
      · exact .inl hfd
    · exact .inr (hstep.2 fd (.inr hfd))

/-- `fd_table_destroy`. -/
theorem destroy {unblock : Kernel → Int → Kernel} (hu : WakesCalmly unblock)
    (h : FdCounted T k) (ht : t ∈ T) : FdCounted (T.erase t) (fdTableDestroy unblock k t) := by
  obtain ⟨h1, hempty⟩ := h.destroyFold hu ht (List.finRange fdMax)
  unfold fdTableDestroy
  generalize (List.finRange fdMax).foldl (fdTableDestroyStep unblock t) k = k1 at h1 hempty
  have h2 := h1.same (.mmFree k1 (b := ⟨.table, t⟩) (by simp))
  have hzero : ∀ f, tableEntries ((k1.mmFree ⟨.table, t⟩).tables t) f = 0 := by
    intro f
    rw [tableEntries, Finset.card_eq_zero, Finset.filter_eq_empty_iff]
    intro fd _ hfd
    have := hempty fd (.inl (List.mem_finRange fd))
    change k1.tables t fd = some f at hfd
    rw [this] at hfd
    cases hfd
  generalize k1.mmFree ⟨.table, t⟩ = k2 at h2 hzero
  refine ⟨⟨fun f => ?_, h2.refs.tty, fun s hs => h2.refs.tables s (Finset.mem_of_mem_erase hs)⟩,
    h2.ends⟩
  have := h2.refs.count f
  rw [fileEntries_eq, ← Finset.add_sum_erase _ _ ht, hzero, zero_add] at this
  exact this

lemma tableEntries_none (f : Nat) : tableEntries (fun _ => none) f = 0 := by
  simp [tableEntries]

/-- A new table without entries. -/
lemma newTable (h : FdCounted T k) (ht : t ∉ T) (hlt : t < k.heap.next) :
    FdCounted (insert t T) { k with tables := update k.tables t fun _ => none } := by
  refine ⟨⟨fun f => ?_, h.refs.tty, fun s hs => ?_⟩, { h.ends with }⟩
  · have hrest : (∑ s ∈ T, tableEntries (update k.tables t (fun _ => none) s) f) =
        fileEntries T k f := by
      rw [fileEntries_eq]
      apply Finset.sum_congr rfl
      intro s hs
      rw [update_of_ne (by rintro rfl; exact ht hs)]
    rw [fileEntries_eq]
    dsimp only
    rw [Finset.sum_insert ht, hrest, update_self, tableEntries_none, zero_add]
    exact h.refs.count f
  · rcases Finset.mem_insert.mp hs with rfl | hs
    · exact hlt
    · exact h.refs.tables s hs

/-- The copies of `fd_table_clone` into an empty table. -/
lemma cloneFold {src : Nat} (h : FdCounted T k) (ht : t ∈ T) (hsrc : src ∈ T)
    {l : List (Fin fdMax)} (hl : l.Nodup) (hempty : ∀ fd ∈ l, k.tables t fd = none) :
    FdCounted T (l.foldl (fdTableCloneStep t src) k) := by
  induction l generalizing k with
  | nil => exact h
  | cons i l ih =>
    rw [List.foldl_cons]
    obtain ⟨hi, hl⟩ := List.nodup_cons.mp hl
    have hrest : ∀ fd ∈ l, (fdTableCloneStep t src k i).tables t fd = none := by
      intro fd hfd
      have hfdi : fd ≠ i := by
        rintro rfl
        exact hi hfd
      have := hempty fd (List.mem_cons_of_mem i hfd)
      unfold fdTableCloneStep
      split
      · exact this
      · simpa [Kernel.setEntry, fileRef, Kernel.modifyFile, hfdi] using this
    refine ih ?_ hl hrest
    unfold fdTableCloneStep
    cases hf : k.tables src i with
    | none => exact h
    | some f =>
      have hpos := fileEntries_pos hsrc hf
      have hlive := h.refs.live (f := f) (by omega)
      exact h.share ht (hempty i List.mem_cons_self) hlive.1

/-- One of the standard files is attached to an unused descriptor. -/
lemma attach (h : FdCounted T k) (ht : t ∈ T) (file : Option Nat) {fd : Fin fdMax}
    (hfile : ∀ f, file = some f → IsStd k f) (hfd : k.tables t fd = none) :
    FdCounted T (attachStd k t file fd) ∧
      ((attachStd k t file fd).stdinFile = k.stdinFile ∧
        (attachStd k t file fd).stdoutFile = k.stdoutFile ∧
        (attachStd k t file fd).stderrFile = k.stderrFile) ∧
      ∀ fd', fd' ≠ fd → (attachStd k t file fd).tables t fd' = k.tables t fd' := by
  unfold attachStd
  cases file with
  | none => exact ⟨h, ⟨rfl, rfl, rfl⟩, fun _ _ => rfl⟩
  | some f =>
    have hc := h.refs.count f
    rw [if_pos (hfile f rfl)] at hc
    refine ⟨h.share ht hfd (by omega), ⟨rfl, rfl, rfl⟩, fun fd' hne => ?_⟩
    simp [Kernel.setEntry, fileRef, Kernel.modifyFile, hne]

/-- `fd_table_attach_std` of an empty table. -/
lemma attachStd (h : FdCounted T k) (ht : t ∈ T) (hempty : ∀ fd, k.tables t fd = none) :
    FdCounted T (fdTableAttachStd k t) := by
  unfold fdTableAttachStd
  obtain ⟨h1, hstd1, htab1⟩ := h.attach ht k.stdinFile (fun f e => .inl e)
    (hempty fdStdin)
  dsimp only
  generalize TP2Kernel.attachStd k t k.stdinFile fdStdin = k1 at h1 hstd1 htab1
  obtain ⟨h2, hstd2, htab2⟩ := h1.attach ht k1.stdoutFile
    (fun f e => .inr (.inl e)) ((htab1 fdStdout (by decide)).trans (hempty _))
  generalize TP2Kernel.attachStd k1 t k1.stdoutFile fdStdout = k2 at h2 hstd2 htab2
  have hfd : k2.tables t fdStderr = none :=
    (htab2 _ (by decide)).trans ((htab1 _ (by decide)).trans (hempty _))
  exact (h2.attach ht k2.stderrFile (fun f e => .inr (.inr e)) hfd).1

/-- A file is created whose only reference is held by the call. -/
lemma RefsOwing.newPipeFile (h : RefsOwing (fun _ => 0) T k) (p : Nat) (rd wr : Bool)
    (hf : (k.files f).refcount = 0) :
    RefsOwing (oneRef f) T (k.modifyFile f fun _ => pipeFile p rd wr) := by
  refine ⟨fun g => ?_, fun g h1 h2 => ?_, h.tables⟩
  · have hc := h.count g
    change _ = (fileEntries T k g : Int) + (if IsStd k g then 1 else 0) + oneRef f g
    by_cases hg : g = f
    · subst hg
      simp only [Kernel.modifyFile, update_self, pipeFile, oneRef, if_true]
      omega
    · simp only [Kernel.modifyFile, update_of_ne hg, oneRef, if_neg hg]
      exact hc
  · by_cases hg : g = f
    · subst hg
      simp [Kernel.modifyFile, pipeFile] at h1
    · simp only [Kernel.modifyFile, update_of_ne hg] at h1 h2
      exact h.tty g h1 h2

/-- The end of `sys_pipe_open`: the new file gets a descriptor or is released. -/
lemma allocate (hr : RefsOwing (oneRef f) T k) (he : PipesOwing none none k) (ht : t ∈ T) :
    FdCounted T (if (fdTableAllocate k t f).2 < 0 then
      fileRelease wake (fdTableAllocate k t f).1 f else (fdTableAllocate k t f).1) := by
  unfold fdTableAllocate
  cases hfind : (List.finRange fdMax).find? fun fd => (k.tables t fd).isNone with
  | none =>
    dsimp only
    rw [if_pos (by decide)]
    obtain ⟨hpos, htty⟩ := hr.live (f := f) (by simp [oneRef])
    obtain ⟨hrel, h1⟩ := he.fileRelease fdCalm_wake hpos htty
    refine ⟨(hr.recounted hrel fun g hg => ?_).of_eq fun g => ?_, h1⟩
    · rw [oneRef] at hg
      split at hg <;> omega
    · rw [oneRef]
      split <;> rfl
  | some fd =>
    dsimp only
    rw [if_neg (by omega)]
    have hfd : k.tables t fd = none := by
      have := List.find?_some hfind
      simpa using this
    refine ⟨(hr.setEntry ht fd (some f)).of_eq fun g => ?_, { he with }⟩
    rw [hfd, oneRef]
    by_cases hg : g = f
    · simp [hg]
    · simp [hg, Ne.symm hg]

/-- `sys_pipe_open` on a table that exists. -/
theorem tablePipeOpen (h : FdCounted T k) (ht : t ∈ T) (name : CStr) (flags : Nat) :
    FdCounted T (tablePipeOpen k t name flags).1 := by
  unfold TP2Kernel.tablePipeOpen
  dsimp only
  split
  · exact h
  · rename_i hrw
    have hright : flags.testBit 0 = true ∨ flags.testBit 1 = true := by
      cases h0 : flags.testBit 0 <;> cases h1 : flags.testBit 1 <;> simp_all
    generalize flags.testBit 0 = rd at *
    generalize flags.testBit 1 = wr at *
    obtain ⟨hs, h1⟩ := h.ends.kpipeOpen name rd wr
    have hr1 := h.refs.same hs
    generalize kpipeOpen k name rd wr = r at hs h1 hr1 ⊢
    obtain ⟨k1, o⟩ := r
    cases o with
    | none => exact ⟨hr1, h1⟩
    | some p =>
      obtain ⟨hcalm, hk2, hm⟩ := mmMalloc_cases k1
      have h2 := PipesOwing.calm h1 hcalm
      have hr2 := hr1.same hcalm.toSameFiles
      unfold fileCreate
      dsimp only
      generalize k1.mmMalloc = r at hcalm hk2 hm h2 hr2 ⊢
      obtain ⟨k2, o⟩ := r
      cases o with
      | none =>
        obtain ⟨hs3, h3⟩ := h2.kpipeClose fdCalm_wake
        dsimp only
        exact ⟨hr2.same hs3, h3⟩
      | some f =>
        obtain rfl : f = k1.heap.next := by simpa using hm
        have hfile := h1.newFile k1.heap.next le_rfl
        have hfile2 : (k2.files k1.heap.next).refcount = 0 ∧
            (k2.files k1.heap.next).ptr = .tty := by
          rw [hcalm.files]
          exact ⟨hfile.2, hfile.1⟩
        have hlt : k1.heap.next < k2.heap.next := by
          dsimp only at hk2
          rw [hk2]
          exact Nat.lt_succ_self _
        have h3 := h2.newPipeFile hright hfile2 hlt
        have hr3 := RefsOwing.newPipeFile hr2 p rd wr hfile2.1
        dsimp only
        rw [apply_ite Prod.fst]
        exact allocate hr3 h3 ht

lemma tableClose (h : FdCounted T k) (ht : t ∈ T) (fd : Int) :
    FdCounted T (fdTableClose wake k t fd).1 := by
  unfold fdTableClose
  split
  · rename_i hfd
    cases hf : k.tables t ⟨fd.toNat, by omega⟩ with
    | none => exact h
    | some f => exact h.close ht hf
  · exact h

lemma tableDup2 (h : FdCounted T k) (ht : t ∈ T) (oldfd newfd : Int) :
    FdCounted T (fdTableDup2 wake k t oldfd newfd).1 := by
  unfold fdTableDup2
  split
  · rename_i hfd
    cases hf : k.tables t ⟨oldfd.toNat, by omega⟩ with
    | none => exact h
    | some f =>
      dsimp only
      split
      · exact h
      · rename_i hne
        apply h.dup ht ⟨oldfd.toNat, by omega⟩ _ hf
        intro e
        have := congrArg Fin.val e
        dsimp only at this
        omega
  · exact h

/-- The system calls. -/
theorem syscall (h : FdCounted T k) (ht : ∀ y, callerTable k = some y → y.2 ∈ T) (exec : Slot)
    {c : Syscall} (hc : c.onFd = true) : FdCounted T (syscall k exec c).1 := by
  rcases syscall_onFd k exec hc with e | ⟨name, e⟩ | ⟨y, hy, ⟨name, flags, e⟩ | ⟨fd, e⟩ |
    ⟨oldfd, newfd, e⟩⟩
  · rw [e]
    exact h
  · rw [e]
    obtain ⟨hs, h1⟩ := h.ends.kpipeUnlink name
    exact ⟨h.refs.same hs, h1⟩
  · rw [e]
    exact h.tablePipeOpen (ht y hy) name flags
  · rw [e]
    exact h.tableClose (ht y hy) fd
  · rw [e]
    exact h.tableDup2 (ht y hy) oldfd newfd

/-- A table is created and filled. -/
lemma create {σ : FdSystem} (h : FdCounted σ.tables σ.k) {fill : Kernel → Nat → Kernel}
    (hfill : ∀ k t, FdCounted (insert t σ.tables) k → (∀ fd, k.tables t fd = none) →
      FdCounted (insert t σ.tables) (fill k t)) :
    FdCounted (σ.create fill).tables (σ.create fill).k := by
  obtain ⟨hcalm, hk1, hm⟩ := mmMalloc_cases σ.k
  have h1 := h.same hcalm
  unfold FdSystem.create fdTableCreate
  generalize σ.k.mmMalloc = r at hcalm hk1 hm h1 ⊢
  obtain ⟨k1, o⟩ := r
  cases o with
  | none => exact h1
  | some t =>
    obtain rfl : t = σ.k.heap.next := by simpa using hm
    have hlt : σ.k.heap.next < k1.heap.next := by
      dsimp only at hk1
      rw [hk1]
      exact Nat.lt_succ_self _
    have hnot : σ.k.heap.next ∉ σ.tables := fun hm => lt_irrefl _ (h.refs.tables _ hm)
    apply hfill
    · exact h1.newTable hnot hlt
    · simp

lemma graft (h : FdCounted T k) (hb : Bare k') (allocs : Nat) :
    FdCounted T (FdSystem.graft k k' allocs) := by
  apply h.same
  refine ⟨⟨⟨rfl, rfl, ⟨rfl, rfl, rfl⟩, Nat.le_add_right _ _⟩, rfl, fun _ => rfl,
    fun _ _ => rfl⟩, fun _ => ?_⟩
  obtain ⟨Z, hZ⟩ := hb
  exact ⟨Z, hZ⟩

lemma step {σ σ' : FdSystem} {e : FdEvent} (h : FdCounted σ.tables σ.k)
    (hok : σ.BareElsewhere e) (hs : σ.step e = some σ') : FdCounted σ'.tables σ'.k := by
  cases e with
  | call exec c =>
    rw [FdSystem.step] at hs
    split at hs
    · rename_i hc
      rw [Option.some.injEq] at hs
      rw [← hs]
      rw [Bool.and_eq_true, Option.all_eq_true] at hc
      exact h.syscall (fun y hy => by simpa using hc.2 y hy) exec hc.1
    · cases hs
  | clone src =>
    rw [FdSystem.step] at hs
    split at hs
    · rename_i hsrc
      rw [Option.some.injEq] at hs
      rw [← hs]
      apply h.create
      intro k t h1 hempty
      have hself : update k.tables t (fun _ => none) = k.tables := by
        rw [show (fun _ => none) = k.tables t from funext fun fd => (hempty fd).symm,
          update_eq_self]
      unfold fdTableClone
      rw [hself]
      exact h1.cloneFold (Finset.mem_insert_self t _) (Finset.mem_insert_of_mem hsrc)
        (List.nodup_finRange _) fun fd _ => hempty fd
    · cases hs
  | attachStd =>
    rw [FdSystem.step, Option.some.injEq] at hs
    rw [← hs]
    exact h.create fun k t h1 hempty => h1.attachStd (Finset.mem_insert_self t _) hempty
  | destroy t =>
    rw [FdSystem.step] at hs
    split at hs
    · rename_i ht
      rw [Option.some.injEq] at hs
      rw [← hs]
      exact h.destroy fdCalm_wake ht
    · cases hs
  | elsewhere k' allocs =>
    rw [FdSystem.step, Option.some.injEq] at hs
    rw [← hs]
    exact h.graft hok allocs

/-- No reference has been taken. -/
lemma start {σ : FdSystem} (h : σ.Start) : FdCounted σ.tables σ.k := by
  have hptr : ∀ f, (σ.k.files f).ptr = .tty := fun f => by rw [h.files f]
  have href : ∀ f, (σ.k.files f).refcount = if IsStd σ.k f then 1 else 0 := fun f => by
    rw [h.files f]
  have hlive : ∀ p, liveFiles σ.k p = ∅ := by
    intro p
    rw [Finset.eq_empty_iff_forall_notMem]
    intro f hf
    have := (mem_liveFiles.mp hf).2.1
    rw [hptr] at this
    cases this
  constructor
  · refine ⟨fun f => ?_, fun f _ hpos => ?_, fun t ht => ?_⟩
    · rw [href, h.tables, fileEntries, Finset.sum_empty]
      simp
    · by_contra hn
      rw [href, if_neg hn] at hpos
      exact lt_irrefl _ hpos
    · rw [h.tables] at ht
      cases ht
  · constructor
    · intro f hf
      refine ⟨hptr f, ?_⟩
      rw [href, if_neg fun hs => absurd (h.std f hs) (not_lt.mpr hf)]
    · intro f
      rw [href]
      split <;> omega
    · intro f p hf
      rw [hptr] at hf
      cases hf
    · exact fun _ he => by cases he
    · intro p
      rw [(h.pipes p).1, endCount, hlive, owes_none]
      rfl
    · intro p
      rw [(h.pipes p).2.1, endCount, hlive, owes_none]
      rfl
    · intro f
      rw [List.count_eq_zero_of_not_mem (h.freed f).1]
      exact Nat.zero_le 1
    · intro f
      simp [(h.freed f).1, hptr]
    · intro p
      rw [List.count_eq_zero_of_not_mem (h.freed p).2]
      exact Nat.zero_le 1
    · intro p
      simp [(h.freed p).2, (h.pipes p).2.2]
    · exact fun p _ => (h.pipes p).2.2
    · intro b p hm
      rw [h.buckets] at hm
      cases hm
    · intro b
      rw [h.buckets]
      exact List.nodup_nil
    · intro b b' p hm
      rw [h.buckets] at hm
      cases hm
    · exact h.bare

end FdCounted

/-- In every run of the calls on descriptors, every reference is counted, and files and pipes
are freed once, when the last reference goes. -/
theorem fd_lifetime {σ : FdSystem}
    (h : Transition.Reach FdSystem.Start FdSystem.step FdSystem.BareElsewhere σ) :
    σ.Counted := by
  have hc : FdCounted σ.tables σ.k := by
    apply Transition.Reach.invariant (I := fun σ => FdCounted σ.tables σ.k) _ _ h
    · exact fun s hs => FdCounted.start hs
    · exact fun s e s' h hok hs => FdCounted.step h hok hs
  have hcount : ∀ f, (σ.k.files f).refcount =
      fileEntries σ.tables σ.k f + if IsStd σ.k f then 1 else 0 := by
    intro f
    rw [hc.refs.count f, add_zero]
  have hfreed : ∀ f, ⟨.file, f⟩ ∈ σ.k.heap.freed ↔
      (σ.k.files f).ptr ≠ .tty ∧ (σ.k.files f).refcount = 0 := by
    intro f
    rw [hc.ends.fileFreed f]
    simp
  have hpipe : ∀ p, ⟨.pipe, p⟩ ∈ σ.k.heap.freed ↔
      (σ.k.pipes p).unlinked = true ∧ liveFiles σ.k p = ∅ := by
    intro p
    rw [hc.ends.pipeFreed p]
    simp
  refine ⟨hcount, fun p => ?_, fun p => ?_, hc.ends.fileOnce, hfreed, hc.ends.pipeOnce, hpipe,
    fun t ht fd f hf hm => ?_, fun f p hpos hp hm => ?_⟩
  · rw [hc.ends.readers p, owes_none]
    rfl
  · rw [hc.ends.writers p, owes_none]
    rfl
  · have h1 := fileEntries_pos ht hf
    have h2 := (hc.refs.live (f := f) (by omega)).1
    have h3 := ((hfreed f).mp hm).2
    omega
  · have h1 := ((hpipe p).mp hm).2
    have h2 : f ∈ liveFiles σ.k p := hc.ends.mem_live.mpr ⟨hp, hpos⟩
    rw [h1] at h2
    cases h2

lemma bare_of_none (h : k.zombieHead = none) : Bare k := by
  refine ⟨fun _ => False, fun _ hp => hp.elim, fun p hp => ?_, fun _ _ hp => hp.elim⟩
  rw [h] at hp
  cases hp

/-- The standard files of a booting kernel. -/
def fdStart : FdSystem := ⟨fdInitStd (kernelZero fun _ => false), ∅⟩

lemma fdStart_start : fdStart.Start where
  tables := rfl
  files f := by
    by_cases h0 : f = 0
    · subst h0
      rfl
    · by_cases h1 : f = 1
      · subst h1
        rfl
      · by_cases h2 : f = 2
        · subst h2
          rfl
        · have hno : ¬IsStd fdStart.k f := by
            rintro (h | h | h) <;> cases h <;> contradiction
          rw [if_neg hno]
          simp [fdStart, fdInitStd, fileCreate, Kernel.mmMalloc, kernelZero, Kernel.modifyFile,
            h0, h1, h2]
  std f h := by
    rcases h with h | h | h <;> cases h <;> decide
  pipes _ := ⟨rfl, rfl, rfl⟩
  buckets _ := rfl
  freed _ := ⟨List.not_mem_nil, List.not_mem_nil⟩
  bare := bare_of_none rfl

/-- A process owns the table 3. -/
def fdCaller : Kernel :=
  { fdStart.k.modify 1 fun c => { c with used := true, pid := 1, fdTable := some 3 } with
    current := some 1 }

/-- A pipe is opened, its descriptor is duplicated, and both copies go. -/
def fdRun : List FdEvent :=
  [.attachStd, .elsewhere fdCaller 0, .call 1 (.pipeOpen [97] 3), .call 1 (.dup2 3 5),
    .call 1 (.close 3), .call 1 (.pipeUnlink [97]), .destroy 3]

theorem fd_lifetime_sample : ∃ σ, Transition.run FdSystem.step fdStart fdRun = some σ ∧
    σ.Counted ∧ ⟨.pipe, 4⟩ ∈ σ.k.heap.freed := by
  have hrun : (Transition.run FdSystem.step fdStart fdRun).any (fun σ =>
      decide (⟨.pipe, 4⟩ ∈ σ.k.heap.freed)) = true := by decide +kernel
  obtain ⟨σ, hσ, hfreed⟩ := (Option.any_eq_true _ _).mp hrun
  refine ⟨σ, hσ, ?_, of_decide_eq_true hfreed⟩
  apply fd_lifetime
  apply Transition.Reach.of_run_ok (.start fdStart_start) _ hσ
  intro e he t
  simp only [fdRun, List.mem_cons, List.not_mem_nil, or_false] at he
  rcases he with rfl | rfl | rfl | rfl | rfl | rfl | rfl
  · trivial
  · exact bare_of_none rfl
  all_goals trivial

end TP2Kernel.Proofs
