import TP2Kernel.NameTables
import TP2Kernel.System

/-!
# The table of pipes

A name of at most 31 bytes leads to one pipe until it is unlinked. A longer name is cut when
it is stored, and then leads to no pipe.
-/

namespace TP2Kernel.Proofs
open Function PipeNames

variable {k k' : Kernel} {name : CStr} {p q : Nat} {rd wr : Bool}

/-- The names of all calls of a run fit in `kpipe_t`. -/
def ShortName (name : CStr) : Prop := name.length < pipeNameMax

/-- The invariant of the table. -/
structure PipeTable (k : Kernel) : Prop where
  table : BucketTable.WellFormed pipeHash (fun p => (k.pipes p).name) k.pipeBuckets
  linked : ∀ p, BucketTable.Mem k.pipeBuckets p → (k.pipes p).unlinked = false
  named : ∀ p, BucketTable.Mem k.pipeBuckets p → ShortName (k.pipes p).name
  allocated : ∀ p, BucketTable.Mem k.pipeBuckets p → p < k.heap.next
  fails : ∀ n, k.heap.fails n = false

/-- In a table whose entries are linked, the walk over a bucket is a lookup. -/
lemma PipeTable.find (h : PipeTable k) (name : CStr) : findPipe k name =
    BucketTable.lookup pipeHash (fun p => (k.pipes p).name) k.pipeBuckets name := by
  rw [findPipe, BucketTable.lookup]
  apply List.find?_congr
  intro p hp
  rw [h.linked p ⟨_, hp⟩]
  rfl

lemma PipeTable.reachable_iff (h : PipeTable k) :
    PipeNames.Reachable k name p ↔
      BucketTable.Mem k.pipeBuckets p ∧ (k.pipes p).name = name := by
  constructor
  · rintro ⟨hp, -, hn⟩
    exact ⟨⟨_, hp⟩, hn⟩
  · rintro ⟨hp, rfl⟩
    exact ⟨h.table.mem_home hp, h.linked p hp, rfl⟩

lemma PipeTable.find_some (h : PipeTable k) :
    findPipe k name = some p ↔ PipeNames.Reachable k name p := by
  rw [h.find, h.reachable_iff]
  exact BucketTable.lookup_eq_some h.table

lemma PipeTable.find_none (h : PipeTable k) : findPipe k name = none ↔
    ∀ p, BucketTable.Mem k.pipeBuckets p → (k.pipes p).name ≠ name := by
  rw [h.find]
  exact BucketTable.lookup_eq_none h.table

/-- A long name leads to no pipe. -/
lemma PipeTable.find_long (h : PipeTable k) (hn : ¬ShortName name) : findPipe k name = none := by
  apply h.find_none.mpr
  rintro p hp rfl
  exact hn (h.named p hp)

lemma PipeTable.unique (h : PipeTable k) (hp : PipeNames.Reachable k name p)
    (hq : PipeNames.Reachable k name q) : p = q := by
  obtain ⟨hp, hpn⟩ := h.reachable_iff.mp hp
  obtain ⟨hq, hqn⟩ := h.reachable_iff.mp hq
  exact h.table.names p q hp hq (hpn.trans hqn.symm)

/-- Writes that change neither the table nor the names in it. -/
lemma PipeTable.keep (h : PipeTable k) (hb : k'.pipeBuckets = k.pipeBuckets)
    (hh : k.heap.next ≤ k'.heap.next ∧ k'.heap.fails = k.heap.fails)
    (hs : ∀ p, (k'.pipes p).name = (k.pipes p).name ∧
      (k'.pipes p).unlinked = (k.pipes p).unlinked) :
    PipeTable k' ∧ ∀ name p, PipeNames.Reachable k' name p ↔ PipeNames.Reachable k name p := by
  constructor
  · refine ⟨?_, fun p hm => ?_, fun p hm => ?_, fun p hm => ?_, fun n => ?_⟩
    · rw [hb]
      exact h.table.congr _ fun p _ => (hs p).1
    · rw [hb] at hm
      rw [(hs p).2]
      exact h.linked p hm
    · rw [hb] at hm
      rw [(hs p).1]
      exact h.named p hm
    · rw [hb] at hm
      exact (h.allocated p hm).trans_le hh.1
    · rw [hh.2]
      exact h.fails n
  · intro name p
    rw [PipeNames.Reachable, hb, (hs p).1, (hs p).2, PipeNames.Reachable]

/-- The state in which `kpipe_open` has put a new pipe in its bucket. -/
def pipeInserted (k : Kernel) (name : CStr) (rd wr : Bool) : Kernel :=
  let k1 := { k with heap := { k.heap with next := k.heap.next + 1 } }
  let k1 := k1.modifyPipe k.heap.next fun c =>
    { name := pipeNameCopy name
      ring := { c.ring with r := 0, w := 0, size := 0, buf := fun _ => 0 }
      readers := if rd then 1 else 0
      writers := if wr then 1 else 0
      unlinked := false
      rWaiters := []
      wWaiters := [] }
  { k1 with pipeBuckets := BucketTable.insert k.pipeBuckets (pipeHash name) k.heap.next }

/-- Without a failing allocation `kpipe_open` finds its name or creates a pipe. -/
lemma PipeTable.opened (h : PipeTable k) (name : CStr) (rd wr : Bool) :
    (∃ p, PipeNames.Reachable k name p ∧ kpipeOpen k name rd wr = (pipeAddUser k p rd wr, some p)) ∨
      ((∀ p, BucketTable.Mem k.pipeBuckets p → (k.pipes p).name ≠ name) ∧
        kpipeOpen k name rd wr = (pipeInserted k name rd wr, some k.heap.next)) := by
  unfold kpipeOpen
  cases hfind : findPipe k name with
  | some p => exact .inl ⟨p, h.find_some.mp hfind, rfl⟩
  | none =>
    refine .inr ⟨h.find_none.mp hfind, ?_⟩
    have hm : k.mmMalloc =
        ({ k with heap := { k.heap with next := k.heap.next + 1 } }, some k.heap.next) := by
      rw [Kernel.mmMalloc, h.fails]
      rfl
    dsimp only
    rw [hm]
    dsimp only
    have hnone : findPipe ({ k with heap := { k.heap with next := k.heap.next + 1 } }.modifyPipe
        k.heap.next fun c =>
          { name := pipeNameCopy name
            ring := { c.ring with r := 0, w := 0, size := 0, buf := fun _ => 0 }
            readers := if rd then 1 else 0
            writers := if wr then 1 else 0
            unlinked := false
            rWaiters := []
            wWaiters := [] }) name = none := by
      rw [← hfind]
      apply List.find?_congr
      intro q hq
      have hne := (h.allocated q ⟨_, hq⟩).ne
      simp [Kernel.modifyPipe, hne]
    rw [hnone]
    rfl

lemma pipeInserted_pipes (k : Kernel) (name : CStr) (rd wr : Bool) (hne : q ≠ k.heap.next) :
    (pipeInserted k name rd wr).pipes q = k.pipes q := by
  simp [pipeInserted, Kernel.modifyPipe, hne]

lemma pipeInserted_new (k : Kernel) (name : CStr) (rd wr : Bool) :
    ((pipeInserted k name rd wr).pipes k.heap.next).name = pipeNameCopy name ∧
      ((pipeInserted k name rd wr).pipes k.heap.next).unlinked = false := by
  simp [pipeInserted, Kernel.modifyPipe]

lemma pipeNameCopy_short (hn : ShortName name) : pipeNameCopy name = name := by
  apply List.take_of_length_le
  unfold ShortName at hn
  omega

lemma PipeTable.inserted (h : PipeTable k) (rd wr : Bool) (hn : ShortName name)
    (ha : ∀ p, BucketTable.Mem k.pipeBuckets p → (k.pipes p).name ≠ name) :
    PipeTable (pipeInserted k name rd wr) ∧
      PipeNames.Reachable (pipeInserted k name rd wr) name k.heap.next ∧
      ∀ n p, PipeNames.Reachable k n p → PipeNames.Reachable (pipeInserted k name rd wr) n p := by
  obtain ⟨hnew, hlink⟩ := pipeInserted_new k name rd wr
  rw [pipeNameCopy_short hn] at hnew
  have hold : ∀ p, BucketTable.Mem k.pipeBuckets p →
      (pipeInserted k name rd wr).pipes p = k.pipes p := fun p hp =>
    pipeInserted_pipes k name rd wr (h.allocated p hp).ne
  have hmem : ∀ p, BucketTable.Mem (pipeInserted k name rd wr).pipeBuckets p ↔
      p = k.heap.next ∨ BucketTable.Mem k.pipeBuckets p := fun p => BucketTable.mem_insert
  have ht : PipeTable (pipeInserted k name rd wr) := by
    refine ⟨?_, fun p hp => ?_, fun p hp => ?_, fun p hp => ?_, h.fails⟩
    · have hw := (h.table.congr (fun p => ((pipeInserted k name rd wr).pipes p).name)
        fun p hp => by rw [hold p hp]).insert (i := k.heap.next) fun p hp => by
          rw [hold p hp, hnew]
          exact ha p hp
      rw [hnew] at hw
      exact hw
    · rcases (hmem p).mp hp with rfl | hp
      · exact hlink
      · rw [hold p hp]
        exact h.linked p hp
    · rcases (hmem p).mp hp with rfl | hp
      · rw [hnew]
        exact hn
      · rw [hold p hp]
        exact h.named p hp
    · have hnext : (pipeInserted k name rd wr).heap.next = k.heap.next + 1 := rfl
      rcases (hmem p).mp hp with rfl | hp
      · omega
      · have := h.allocated p hp
        omega
  refine ⟨ht, ht.reachable_iff.mpr ⟨(hmem _).mpr (.inl rfl), hnew⟩, fun n p hp => ?_⟩
  obtain ⟨hp, hpn⟩ := h.reachable_iff.mp hp
  refine ht.reachable_iff.mpr ⟨(hmem p).mpr (.inr hp), ?_⟩
  rw [hold p hp]
  exact hpn

lemma PipeTable.addUser (h : PipeTable k) (p : Nat) (rd wr : Bool) :
    PipeTable (pipeAddUser k p rd wr) ∧ ∀ name q,
      PipeNames.Reachable (pipeAddUser k p rd wr) name q ↔ PipeNames.Reachable k name q := by
  refine h.keep rfl ⟨le_rfl, rfl⟩ fun q => ?_
  by_cases hq : q = p
  · subst hq
    simp [pipeAddUser, Kernel.modifyPipe]
  · simp [pipeAddUser, Kernel.modifyPipe, hq]

/-- `kpipe_open` of a short name. -/
lemma PipeTable.opens (h : PipeTable k) (hn : ShortName name) (rd wr : Bool) :
    PipeTable (kpipeOpen k name rd wr).1 ∧
      (∃ p, (kpipeOpen k name rd wr).2 = some p ∧
        PipeNames.Reachable (kpipeOpen k name rd wr).1 name p) ∧
      ∀ n p, PipeNames.Reachable k n p → PipeNames.Reachable (kpipeOpen k name rd wr).1 n p := by
  rcases h.opened name rd wr with ⟨p, hp, e⟩ | ⟨ha, e⟩
  · rw [e]
    obtain ⟨h1, h2⟩ := h.addUser p rd wr
    exact ⟨h1, ⟨p, rfl, (h2 name p).mpr hp⟩, fun n q hq => (h2 n q).mpr hq⟩
  · rw [e]
    obtain ⟨h1, h2, h3⟩ := h.inserted rd wr hn ha
    exact ⟨h1, ⟨_, rfl, h2⟩, h3⟩

/-- `kpipe_open` of a reachable name. -/
lemma PipeTable.opens_reachable (h : PipeTable k) (hp : PipeNames.Reachable k name p)
    (rd wr : Bool) : (kpipeOpen k name rd wr).2 = some p := by
  rw [kpipeOpen, h.find_some.mpr hp]

/-- The state in which `kpipe_unlink` has taken a pipe out of its bucket. -/
def pipeRemoved (k : Kernel) (name : CStr) (p : Nat) : Kernel :=
  Kernel.modifyPipe { k with pipeBuckets := BucketTable.erase k.pipeBuckets (pipeHash name) p } p
    fun c => { c with unlinked := true }

lemma pipeFree_names (k : Kernel) (p : Nat) : (pipeFree k p).pipeBuckets = k.pipeBuckets ∧
    (pipeFree k p).heap.next = k.heap.next ∧ (pipeFree k p).heap.fails = k.heap.fails ∧
    (pipeFree k p).pipes = k.pipes := by
  unfold pipeFree
  dsimp only
  rw [Kernel.mmFrees_eq]
  exact ⟨rfl, rfl, rfl, rfl⟩

lemma kpipeUnlink_found (h : findPipe k name = some p) : ∃ k', kpipeUnlink k name = (k', 0) ∧
    k'.pipeBuckets = (pipeRemoved k name p).pipeBuckets ∧ k'.heap.next = k.heap.next ∧
    k'.heap.fails = k.heap.fails ∧ k'.pipes = (pipeRemoved k name p).pipes := by
  unfold kpipeUnlink
  rw [h]
  dsimp only
  split
  · obtain ⟨h1, h2, h3, h4⟩ := pipeFree_names (pipeRemoved k name p) p
    exact ⟨_, rfl, h1, h2, h3, h4⟩
  · exact ⟨_, rfl, rfl, rfl, rfl, rfl⟩

lemma PipeTable.removed (h : PipeTable k) (hp : PipeNames.Reachable k name p) :
    PipeTable (pipeRemoved k name p) ∧ ∀ n q, n ≠ name → PipeNames.Reachable k n q →
      PipeNames.Reachable (pipeRemoved k name p) n q := by
  obtain ⟨hp, rfl⟩ := h.reachable_iff.mp hp
  have hmem : ∀ q, BucketTable.Mem (pipeRemoved k (k.pipes p).name p).pipeBuckets q ↔
      q ≠ p ∧ BucketTable.Mem k.pipeBuckets q := fun q => BucketTable.mem_erase h.table
  have hold : ∀ q, q ≠ p → (pipeRemoved k (k.pipes p).name p).pipes q = k.pipes q :=
    fun q hq => by simp [pipeRemoved, Kernel.modifyPipe, hq]
  have ht : PipeTable (pipeRemoved k (k.pipes p).name p) := by
    refine ⟨?_, fun q hq => ?_, fun q hq => ?_, fun q hq => ?_, h.fails⟩
    · exact (h.table.erase p).congr _ fun q hq => by rw [hold q ((hmem q).mp hq).1]
    · obtain ⟨hqp, hq⟩ := (hmem q).mp hq
      rw [hold q hqp]
      exact h.linked q hq
    · obtain ⟨hqp, hq⟩ := (hmem q).mp hq
      rw [hold q hqp]
      exact h.named q hq
    · exact h.allocated q ((hmem q).mp hq).2
  refine ⟨ht, fun n q hn hq => ?_⟩
  obtain ⟨hm, rfl⟩ := h.reachable_iff.mp hq
  have hqp : q ≠ p := by
    rintro rfl
    exact hn rfl
  refine ht.reachable_iff.mpr ⟨(hmem q).mpr ⟨hqp, hm⟩, ?_⟩
  rw [hold q hqp]

/-- `kpipe_unlink` of any name. -/
lemma PipeTable.unlinks (h : PipeTable k) (name : CStr) :
    PipeTable (kpipeUnlink k name).1 ∧ ∀ n p, n ≠ name → PipeNames.Reachable k n p →
      PipeNames.Reachable (kpipeUnlink k name).1 n p := by
  cases hfind : findPipe k name with
  | none =>
    rw [show kpipeUnlink k name = (k, -1) by rw [kpipeUnlink, hfind]]
    exact ⟨h, fun _ _ _ hp => hp⟩
  | some p =>
    obtain ⟨k', e, hb, hn, hf, hps⟩ := kpipeUnlink_found hfind
    obtain ⟨h1, h2⟩ := h.removed (h.find_some.mp hfind)
    obtain ⟨h3, h4⟩ := h1.keep hb ⟨hn.ge, hf⟩ fun q => by rw [hps]; exact ⟨rfl, rfl⟩
    rw [e]
    exact ⟨h3, fun n q hne hq => (h4 n q).mpr (h2 n q hne hq)⟩

lemma PipeTable.unlinks_reachable (h : PipeTable k) (hp : PipeNames.Reachable k name p) :
    (kpipeUnlink k name).2 = 0 := by
  obtain ⟨k', e, -⟩ := kpipeUnlink_found (h.find_some.mpr hp)
  rw [e]

lemma pipeTable_start (h : PipeNames.Start k) : PipeTable k := by
  have hb : k.pipeBuckets = fun _ => [] := funext h.1
  have hno : ∀ p, ¬BucketTable.Mem k.pipeBuckets p := by
    rintro p ⟨b, hp⟩
    rw [h.1 b] at hp
    cases hp
  refine ⟨?_, fun p hp => absurd hp (hno p), fun p hp => absurd hp (hno p),
    fun p hp => absurd hp (hno p), h.2⟩
  rw [hb]
  exact BucketTable.wellFormed_empty

lemma pipeTable_step {e : PipeNameEvent} (h : PipeTable k) (hn : ShortName e.name)
    (hs : PipeNames.step k e = some k') :
    PipeTable k' ∧ ∀ n p, e ≠ .unlink n → PipeNames.Reachable k n p →
      PipeNames.Reachable k' n p := by
  cases e with
  | openPipe name rd wr =>
    obtain rfl := Option.some.inj hs
    obtain ⟨h1, -, h2⟩ := h.opens hn rd wr
    exact ⟨h1, fun n p _ => h2 n p⟩
  | unlink name =>
    obtain rfl := Option.some.inj hs
    obtain ⟨h1, h2⟩ := h.unlinks name
    refine ⟨h1, fun n p hne => h2 n p ?_⟩
    rintro rfl
    exact hne rfl

lemma pipeTable_run {k1 : Kernel} (h : PipeTable k1) (hp : PipeNames.Reachable k1 name p)
    (hr : Transition.Reach (· = k1) PipeNames.step
      (fun _ e => ShortName e.name ∧ e ≠ .unlink name) k) :
    PipeTable k ∧ PipeNames.Reachable k name p := by
  apply hr.invariant (I := fun k => PipeTable k ∧ PipeNames.Reachable k name p)
  · rintro _ rfl
    exact ⟨h, hp⟩
  · rintro _ e _ ⟨h, hp⟩ ⟨hn, hne⟩ hs
    obtain ⟨h1, h2⟩ := pipeTable_step h hn hs
    exact ⟨h1, h2 name p hne hp⟩

/-- A pipe that was created for a long name is not found again. -/
lemma PipeTable.lost (h : PipeTable k) (hn : ¬ShortName name) :
    findPipe (pipeInserted k name rd wr) name = none := by
  apply List.find?_eq_none.mpr
  intro q hq hm
  simp only [Bool.and_eq_true, decide_eq_true_eq] at hm
  obtain ⟨hnew, -⟩ := pipeInserted_new k name rd wr
  rcases BucketTable.mem_insert.mp ⟨_, hq⟩ with rfl | hq
  · have hlen : (pipeNameCopy name).length ≤ pipeNameMax - 1 := List.length_take_le _ _
    rw [← hnew, hm.2] at hlen
    have : 0 < pipeNameMax := by decide
    apply hn
    unfold ShortName
    omega
  · rw [pipeInserted_pipes k name rd wr (h.allocated q hq).ne] at hm
    exact hn (hm.2 ▸ h.named q hq)

/-- From `k` on, a name that is opened leads to the same pipe until it is unlinked, and can
be unlinked. -/
def NameHolds (k : Kernel) (name : CStr) : Prop :=
  ∀ rd wr k1 p, kpipeOpen k name rd wr = (k1, some p) →
    ∀ k2, Transition.Reach (· = k1) PipeNames.step
      (fun _ e => ShortName e.name ∧ e ≠ .unlink name) k2 →
    (∀ rd wr, (kpipeOpen k2 name rd wr).2 = some p) ∧ (kpipeUnlink k2 name).2 = 0

/-- In runs whose names have at most 31 bytes no name leads to two pipes, and the names that
hold are those of at most 31 bytes. -/
theorem pipe_names_hold
    (h : Transition.Reach PipeNames.Start PipeNames.step (fun _ e => ShortName e.name) k) :
    (∀ n p q, PipeNames.Reachable k n p → PipeNames.Reachable k n q → p = q) ∧
      ∀ name, NameHolds k name ↔ ShortName name := by
  have ht : PipeTable k := h.invariant (fun _ => pipeTable_start) fun _ _ _ ht hn hs =>
    (pipeTable_step ht hn hs).1
  refine ⟨fun n p q hp hq => ht.unique hp hq, fun name => ⟨fun hh => ?_, fun hn => ?_⟩⟩
  · by_contra hn
    rcases ht.opened name true true with ⟨p, hp, -⟩ | ⟨-, e⟩
    · have hlong := ht.find_some.mpr hp
      rw [ht.find_long hn] at hlong
      cases hlong
    · obtain ⟨-, hu⟩ := hh true true _ _ e _ (.start rfl)
      rw [kpipeUnlink, ht.lost hn] at hu
      cases hu
  · intro rd wr k1 p ho k2 hr
    obtain ⟨h1, ⟨q, hq, hreach⟩, -⟩ := ht.opens hn rd wr
    rw [ho] at h1 hq hreach
    obtain rfl := Option.some.inj hq
    obtain ⟨h2, hp2⟩ := pipeTable_run h1 hreach hr
    exact ⟨h2.opens_reachable hp2, h2.unlinks_reachable hp2⟩

/-- A kernel in which no pipe has been opened. -/
def noPipes : Kernel := kernelZero fun _ => false

lemma noPipes_start : PipeNames.Start noPipes := ⟨fun _ => rfl, fun _ => rfl⟩

/-- Two names are opened, and one of them is unlinked. -/
def pipeNamesSample : Kernel :=
  Transition.final PipeNames.step (fun _ e => decide (e.name.length < pipeNameMax)) noPipes
    [.openPipe [97] true false, .openPipe [98] true false, .unlink [98]]

theorem pipe_names_hold_sample : NameHolds pipeNamesSample [97] ∧
    (kpipeOpen pipeNamesSample [97] false true).2 = some 0 := by
  have hr : Transition.Reach PipeNames.Start PipeNames.step
      (fun _ e => decide (e.name.length < pipeNameMax) = true) pipeNamesSample :=
    Transition.Reach.final _ noPipes_start (by decide +kernel)
  have hh := pipe_names_hold (hr.mono fun _ _ h => of_decide_eq_true h)
  have hs : ShortName [97] := by
    unfold ShortName
    decide
  exact ⟨(hh.2 [97]).mpr hs, by decide +kernel⟩

/-- A name of 32 bytes. -/
def longName : CStr := List.replicate 32 97

/-- Two calls with a name of 32 bytes return two pipes, and the name cannot be unlinked. -/
theorem pipe_name_lost : ¬NameHolds noPipes longName ∧
    (kpipeOpen noPipes longName true false).2 = some 0 ∧
    (kpipeOpen (kpipeOpen noPipes longName true false).1 longName true false).2 = some 1 ∧
    (kpipeUnlink (kpipeOpen noPipes longName true false).1 longName).2 = -1 := by
  have h1 : (kpipeOpen noPipes longName true false).2 = some 0 := by decide +kernel
  have h2 : (kpipeUnlink (kpipeOpen noPipes longName true false).1 longName).2 = -1 := by
    decide +kernel
  refine ⟨fun hh => ?_, h1, by decide +kernel, h2⟩
  obtain ⟨-, hu⟩ := hh true false (kpipeOpen noPipes longName true false).1 0 (Prod.ext rfl h1)
    (kpipeOpen noPipes longName true false).1 (.start rfl)
  exact absurd (h2.symm.trans hu) (by decide)

end TP2Kernel.Proofs
