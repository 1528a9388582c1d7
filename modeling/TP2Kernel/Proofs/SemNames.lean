import TP2Kernel.NameTables
import TP2Kernel.Proofs.SemLifetime

/-!
# The table of semaphores is a map

Names of at most 31 bytes are stored whole, so that the hash, the comparison and the stored
copy agree on what a name is.
-/

namespace TP2Kernel.Proofs
open Function SemNames

variable {k k' : Kernel} {name : CStr} {s t : Nat}

/-- The invariant of the table. -/
structure SemTable (k : Kernel) : Prop where
  table : BucketTable.WellFormed semHash (fun s => (k.sems s).name) k.semBuckets
  linked : ∀ s, SemNames.InTable k s → (k.sems s).unlinked = false
  named : ∀ s, SemNames.InTable k s → 0 < (k.sems s).name.length ∧ (k.sems s).name.length < ksemNameMax
  allocated : ∀ s, SemNames.InTable k s → s < k.heap.next

lemma semNameLen_ok : ¬(semNameLen name = 0 ∨ ksemNameMax ≤ semNameLen name) ↔
    0 < name.length ∧ name.length < ksemNameMax := by
  have : 0 < ksemNameMax := by decide
  rw [semNameLen]
  omega

/-- In a table whose entries are linked, the walk over a bucket is a lookup. -/
lemma SemTable.find (h : SemTable k) (name : CStr) : findSem k name =
    BucketTable.lookup semHash (fun s => (k.sems s).name) k.semBuckets name := by
  rw [findSem, BucketTable.lookup]
  apply List.find?_congr
  intro s hs
  rw [h.linked s ⟨_, hs⟩]
  rfl

lemma SemTable.find_some (h : SemTable k) :
    findSem k name = some s ↔ SemNames.InTable k s ∧ (k.sems s).name = name := by
  rw [h.find]
  exact BucketTable.lookup_eq_some h.table

lemma SemTable.find_none (h : SemTable k) :
    findSem k name = none ↔ ∀ s, SemNames.InTable k s → (k.sems s).name ≠ name := by
  rw [h.find]
  exact BucketTable.lookup_eq_none h.table

/-- Writes that change neither the table nor the names in it. -/
lemma SemTable.keep (h : SemTable k) (hb : k'.semBuckets = k.semBuckets)
    (hn : k.heap.next ≤ k'.heap.next) (hs : ∀ s, SemNames.InTable k s →
      (k'.sems s).name = (k.sems s).name ∧ (k'.sems s).unlinked = (k.sems s).unlinked) :
    SemTable k' := by
  have hl : ∀ s, SemNames.InTable k' s ↔ SemNames.InTable k s := fun s => by
    rw [SemNames.InTable, hb, SemNames.InTable]
  refine ⟨?_, fun s hm => ?_, fun s hm => ?_, fun s hm => ?_⟩
  · rw [hb]
    exact h.table.congr _ fun s hm => (hs s hm).1
  · rw [(hs s ((hl s).mp hm)).2]
    exact h.linked s ((hl s).mp hm)
  · rw [(hs s ((hl s).mp hm)).1]
    exact h.named s ((hl s).mp hm)
  · exact (h.allocated s ((hl s).mp hm)).trans_le hn

lemma SemTable.modify (h : SemTable k) (s : Nat) {f : Ksem → Ksem}
    (hf : ∀ c, (f c).name = c.name ∧ (f c).unlinked = c.unlinked) : SemTable (k.modifySem s f) := by
  refine h.keep rfl le_rfl fun t _ => ?_
  by_cases ht : t = s
  · subst ht
    simpa [Kernel.modifySem] using hf (k.sems t)
  · simp [Kernel.modifySem, ht]

/-- What `ksem_open` does, by the state of the table. -/
inductive Opened (k : Kernel) (name : CStr) (init : Nat) : Kernel × Option Nat → Prop
  | invalid (hv : ¬(0 < name.length ∧ name.length < ksemNameMax)) : Opened k name init (k, none)
  | found {s : Nat} (hs : SemNames.InTable k s) (hn : (k.sems s).name = name) :
      Opened k name init
        (k.modifySem s fun c => { c with refcount := incUnsigned c.refcount }, some s)
  | failed (ha : ∀ s, SemNames.InTable k s → (k.sems s).name ≠ name) :
      Opened k name init (k.mmMalloc.1, none)
  | created (hv : 0 < name.length ∧ name.length < ksemNameMax)
      (ha : ∀ s, SemNames.InTable k s → (k.sems s).name ≠ name) :
      Opened k name init (semInserted k k.heap.next name init, some k.heap.next)

lemma SemTable.opened (h : SemTable k) (name : CStr) (init : Nat) :
    Opened k name init (ksemOpen k name init) := by
  unfold ksemOpen
  split
  · rename_i hlen
    exact .invalid fun hv => (semNameLen_ok.mpr hv) hlen
  · rename_i hlen
    have hv := semNameLen_ok.mp hlen
    cases hfind : findSem k name with
    | some s =>
      obtain ⟨hs, hn⟩ := h.find_some.mp hfind
      exact .found hs hn
    | none =>
      have ha := h.find_none.mp hfind
      dsimp only
      rcases hm : k.mmMalloc with ⟨k1, n⟩
      cases n with
      | none =>
        have e : k1 = k.mmMalloc.1 := by rw [hm]
        rw [e]
        exact .failed ha
      | some s =>
        obtain ⟨rfl, rfl⟩ := mmMalloc_some hm
        have hnone : findSem ({ k with heap := { k.heap with next := k.heap.next + 1 } }.modifySem
            k.heap.next fun _ => ⟨semNameCopy name, init, 1, false, false, []⟩) name = none := by
          rw [← hfind]
          apply List.find?_congr
          intro t ht
          have hne := (h.allocated t ⟨_, ht⟩).ne
          simp [Kernel.modifySem, hne]
        dsimp only
        rw [hnone]
        exact .created hv ha

lemma semInserted_sems (k : Kernel) (name : CStr) (init : Nat) (hne : t ≠ s) :
    (semInserted k s name init).sems t = k.sems t := by
  simp [semInserted, Kernel.modifySem, hne]

lemma semInserted_new (k : Kernel) (init : Nat) (hv : name.length < ksemNameMax) :
    (semInserted k s name init).sems s = ⟨name, init, 1, false, false, []⟩ := by
  have hcopy : semNameCopy name = name := by
    apply List.take_of_length_le
    omega
  simp [semInserted, Kernel.modifySem, hcopy]

lemma inTable_inserted (k : Kernel) (name : CStr) (init : Nat) :
    SemNames.InTable (semInserted k s name init) t ↔ t = s ∨ SemNames.InTable k t :=
  BucketTable.mem_insert

lemma SemTable.inserted (h : SemTable k) (init : Nat)
    (hv : 0 < name.length ∧ name.length < ksemNameMax)
    (ha : ∀ s, SemNames.InTable k s → (k.sems s).name ≠ name) :
    SemTable (semInserted k k.heap.next name init) := by
  have hnew := semInserted_new (s := k.heap.next) k init hv.2
  have hold : ∀ t, SemNames.InTable k t →
      (semInserted k k.heap.next name init).sems t = k.sems t := fun t ht =>
    semInserted_sems k name init (h.allocated t ht).ne
  have hfresh : ∀ t, SemNames.InTable (semInserted k k.heap.next name init) t →
      t = k.heap.next ∨ SemNames.InTable k t := fun t => (inTable_inserted k name init).mp
  refine ⟨?_, fun t ht => ?_, fun t ht => ?_, fun t ht => ?_⟩
  · have hw := (h.table.congr (fun t => ((semInserted k k.heap.next name init).sems t).name)
      fun t ht => by rw [hold t ht]).insert (i := k.heap.next) fun t ht => by
        rw [hold t ht, hnew]
        exact ha t ht
    rw [hnew] at hw
    exact hw
  · rcases hfresh t ht with rfl | ht
    · rw [hnew]
    · rw [hold t ht]
      exact h.linked t ht
  · rcases hfresh t ht with rfl | ht
    · rw [hnew]
      exact hv
    · rw [hold t ht]
      exact h.named t ht
  · have hnext : (semInserted k k.heap.next name init).heap.next = k.heap.next + 1 := rfl
    rcases hfresh t ht with rfl | ht
    · omega
    · have := h.allocated t ht
      omega

lemma SemTable.opens (h : SemTable k) (name : CStr) (init : Nat) :
    SemTable (ksemOpen k name init).1 := by
  have ho := h.opened name init
  generalize ksemOpen k name init = r at ho
  cases ho with
  | invalid _ => exact h
  | found _ _ =>
    exact h.modify _ (f := fun c => { c with refcount := incUnsigned c.refcount })
      fun _ => ⟨rfl, rfl⟩
  | failed _ => exact h.keep rfl (Nat.le_succ _) fun _ _ => ⟨rfl, rfl⟩
  | created hv ha => exact h.inserted init hv ha

/-- Destroying a semaphore leaves the table, the names and the flags. -/
lemma semDestroyIfReady_names (k : Kernel) (s : Nat) :
    (semDestroyIfReady k s).semBuckets = k.semBuckets ∧
      (semDestroyIfReady k s).heap.next = k.heap.next ∧
      ∀ t, ((semDestroyIfReady k s).sems t).name = (k.sems t).name ∧
        ((semDestroyIfReady k s).sems t).unlinked = (k.sems t).unlinked := by
  unfold semDestroyIfReady
  split
  · unfold semFree
    dsimp only
    rw [Kernel.mmFrees_eq]
    refine ⟨rfl, rfl, fun t => ?_⟩
    by_cases ht : t = s
    · subst ht
      simp [Kernel.modifySem, Kernel.mmFree]
    · simp [Kernel.modifySem, Kernel.mmFree, ht]
  · exact ⟨rfl, rfl, fun _ => ⟨rfl, rfl⟩⟩

lemma SemTable.destroyIfReady (h : SemTable k) (s : Nat) : SemTable (semDestroyIfReady k s) := by
  obtain ⟨hb, hn, hs⟩ := semDestroyIfReady_names k s
  exact h.keep hb hn.ge fun t _ => hs t

lemma SemTable.closes (h : SemTable k) (s : Nat) : SemTable (ksemClose k s).1 := by
  unfold ksemClose
  split
  · exact h
  · apply SemTable.destroyIfReady
    exact h.modify s fun _ => ⟨rfl, rfl⟩

lemma inTable_removed (h : SemTable k) (hn : (k.sems s).name = name) :
    SemNames.InTable (semRemoved k s name) t ↔ t ≠ s ∧ SemNames.InTable k t := by
  subst hn
  exact BucketTable.mem_erase h.table

lemma SemTable.removed (h : SemTable k) (hn : (k.sems s).name = name) :
    SemTable (semRemoved k s name) := by
  have hold : ∀ t, SemNames.InTable (semRemoved k s name) t →
      SemNames.InTable k t ∧ (semRemoved k s name).sems t = k.sems t := by
    intro t ht
    obtain ⟨hts, ht⟩ := (inTable_removed h hn).mp ht
    exact ⟨ht, by simp [semRemoved, Kernel.modifySem, hts]⟩
  refine ⟨?_, fun t ht => ?_, fun t ht => ?_, fun t ht => ?_⟩
  · have hw := h.table.erase s
    rw [hn] at hw
    exact hw.congr _ fun t ht => by rw [(hold t ht).2]
  · rw [(hold t ht).2]
    exact h.linked t (hold t ht).1
  · rw [(hold t ht).2]
    exact h.named t (hold t ht).1
  · exact h.allocated t (hold t ht).1

/-- What `ksem_unlink` does, by the state of the table. -/
inductive Unlinked (k : Kernel) (name : CStr) : Kernel × Int → Prop
  | absent (ha : ∀ s, SemNames.InTable k s → (k.sems s).name ≠ name) :
      Unlinked k name (k, -1)
  | removed {s : Nat} (hs : SemNames.InTable k s) (hn : (k.sems s).name = name) :
      Unlinked k name (semDestroyIfReady (semRemoved k s name) s, 0)

lemma SemTable.unlinked (h : SemTable k) (name : CStr) : Unlinked k name (ksemUnlink k name) := by
  unfold ksemUnlink
  split
  · rename_i hlen
    refine .absent fun s hs hn => ?_
    have hv := h.named s hs
    rw [hn] at hv
    exact (semNameLen_ok.mpr hv) hlen
  · cases hfind : findSem k name with
    | none => exact .absent (h.find_none.mp hfind)
    | some s =>
      obtain ⟨hs, hn⟩ := h.find_some.mp hfind
      exact .removed hs hn

lemma SemTable.unlink (h : SemTable k) (name : CStr) : SemTable (ksemUnlink k name).1 := by
  have hu := h.unlinked name
  generalize ksemUnlink k name = r at hu
  cases hu with
  | absent _ => exact h
  | removed _ hn => exact (h.removed hn).destroyIfReady _

lemma semTable_start (h : SemNames.Start k) : SemTable k := by
  have hb : k.semBuckets = fun _ => [] := funext h
  have hno : ∀ s, ¬SemNames.InTable k s := by
    rintro s ⟨b, hs⟩
    rw [h b] at hs
    cases hs
  refine ⟨?_, fun s hs => absurd hs (hno s), fun s hs => absurd hs (hno s),
    fun s hs => absurd hs (hno s)⟩
  rw [hb]
  exact BucketTable.wellFormed_empty

lemma semTable_step {e : SemNameEvent} (h : SemTable k) (hs : SemNames.step k e = some k') :
    SemTable k' := by
  cases e with
  | openSem name init =>
    obtain rfl := Option.some.inj hs
    exact h.opens name init
  | close s =>
    obtain rfl := Option.some.inj hs
    exact h.closes s
  | unlink name =>
    obtain rfl := Option.some.inj hs
    exact h.unlink name

/-- The result of `ksem_open` where the table is a map. -/
structure OpensName (k : Kernel) (name : CStr) (init : Nat) : Prop where
  found : ∀ s, SemNames.InTable k s → (k.sems s).name = name → 0 < name.length → name.length ≤ 31 →
    ksemOpen k name init =
      (k.modifySem s fun c => { c with refcount := incUnsigned c.refcount }, some s)
  created : ∀ s, (ksemOpen k name init).2 = some s →
    (∀ t, SemNames.InTable k t → (k.sems t).name ≠ name) →
    ¬SemNames.InTable k s ∧ ((ksemOpen k name init).1.sems s).name = name ∧
      ((ksemOpen k name init).1.sems s).count = init ∧
      ∀ t, SemNames.InTable (ksemOpen k name init).1 t ↔ t = s ∨ SemNames.InTable k t

/-- The result of `ksem_unlink` where the table is a map. -/
structure UnlinksName (k : Kernel) (name : CStr) : Prop where
  ret : (ksemUnlink k name).2 = 0 ↔ ∃ s, SemNames.InTable k s ∧ (k.sems s).name = name
  removed : ∀ t, SemNames.InTable (ksemUnlink k name).1 t ↔
    SemNames.InTable k t ∧ (k.sems t).name ≠ name

/-- After every sequence of calls, with any allocations failing, the hash table is a finite
map from names to semaphores. -/
theorem sem_table_map
    (h : Transition.Reach SemNames.Start SemNames.step (fun _ _ => True) k) :
    (∀ b, ∀ s ∈ k.semBuckets b, (k.sems s).unlinked = false ∧ semHash (k.sems s).name = b) ∧
      (∀ b, (k.semBuckets b).Nodup) ∧
      (∀ s t, SemNames.InTable k s → SemNames.InTable k t → (k.sems s).name = (k.sems t).name →
        s = t) ∧
      (∀ name init, OpensName k name init) ∧ ∀ name, UnlinksName k name := by
  have ht : SemTable k := h.invariant (fun _ => semTable_start) fun _ _ _ ht _ hs => semTable_step ht hs
  refine ⟨fun b s hs => ⟨ht.linked s ⟨b, hs⟩, ht.table.home b s hs⟩, ht.table.once,
    ht.table.names, fun name init => ⟨fun s hs hn h0 h31 => ?_, fun s hs ha => ?_⟩,
    fun name => ⟨?_, fun t => ?_⟩⟩
  · have ho := ht.opened name init
    generalize ksemOpen k name init = r at ho
    cases ho with
    | invalid hv => exact absurd ⟨h0, by simp [ksemNameMax]; omega⟩ hv
    | found hs' hn' => rw [ht.table.names s _ hs hs' (hn.trans hn'.symm)]
    | failed ha => exact absurd hn (ha s hs)
    | created _ ha => exact absurd hn (ha s hs)
  · have ho := ht.opened name init
    generalize ksemOpen k name init = r at ho hs
    cases ho with
    | invalid _ => cases hs
    | found hs' hn' => exact absurd hn' (ha _ hs')
    | failed _ => cases hs
    | created hv _ =>
      obtain rfl := Option.some.inj hs
      have hnew := semInserted_new (s := k.heap.next) k init hv.2
      refine ⟨fun hm => (ht.allocated _ hm).ne rfl, ?_, ?_, fun t => inTable_inserted k name init⟩
      · rw [hnew]
      · rw [hnew]
  · have hu := ht.unlinked name
    generalize ksemUnlink k name = r at hu
    cases hu with
    | absent ha => exact ⟨fun h0 => by simp at h0, fun ⟨s, hs, hn⟩ => absurd hn (ha s hs)⟩
    | removed hs hn => exact ⟨fun _ => ⟨_, hs, hn⟩, fun _ => rfl⟩
  · have hu := ht.unlinked name
    generalize ksemUnlink k name = r at hu
    cases hu with
    | absent ha => exact ⟨fun hm => ⟨hm, ha t hm⟩, fun hm => hm.1⟩
    | removed hs hn =>
      rename_i s
      have hb := (semDestroyIfReady_names (semRemoved k s name) s).1
      rw [SemNames.InTable, hb]
      refine (inTable_removed ht hn).trans ⟨fun hm => ⟨hm.2, fun e => ?_⟩, fun hm => ⟨?_, hm.1⟩⟩
      · exact hm.1 (ht.table.names t s hm.2 hs (e.trans hn.symm))
      · rintro rfl
        exact hm.2 hn

/-- Two names are opened, one of them twice, and one is unlinked. -/
def semNamesSample : Kernel :=
  Transition.final SemNames.step (fun _ _ => true) sampleNoSems
    [.openSem [97] 3, .openSem [98] 1, .openSem [97] 7, .unlink [98], .close 0]

theorem sem_table_map_sample :
    SemNames.InTable semNamesSample 0 ∧ (semNamesSample.sems 0).count = 3 ∧
      (ksemOpen semNamesSample [97] 9).2 = some 0 ∧ (ksemUnlink semNamesSample [97]).2 = 0 ∧
      (ksemUnlink semNamesSample [98]).2 ≠ 0 := by
  have hr : Transition.Reach SemNames.Start SemNames.step (fun _ _ => true = true)
      semNamesSample := Transition.Reach.final _ (fun _ => rfl) (by decide +kernel)
  obtain ⟨-, -, -, ho, hu⟩ := sem_table_map (hr.mono fun _ _ _ => trivial)
  have hm : SemNames.InTable semNamesSample 0 := ⟨semHash [97], by decide +kernel⟩
  have hn : (semNamesSample.sems 0).name = [97] := by decide +kernel
  refine ⟨hm, by decide +kernel, ?_, (hu [97]).ret.mpr ⟨0, hm, hn⟩, fun h0 => ?_⟩
  · rw [(ho [97] 9).found 0 hm hn (by decide) (by decide)]
  · revert h0
    decide +kernel

end TP2Kernel.Proofs
