import Mathlib.Tactic

/-!
# Hash tables with chained buckets

A table is an array of lists of entries. Every entry has a name and is in the bucket that a
hash function gives for it. `WellFormed` tables are finite maps from names to entries.
-/

namespace BucketTable
open Function

variable {α ι : Type*} {n : ℕ} {hash : α → Fin n} {name : ι → α} {buckets : Fin n → List ι}

/-- The entry `i` is in some bucket. -/
def Mem (buckets : Fin n → List ι) (i : ι) : Prop := ∃ b, i ∈ buckets b

/-- Every entry is in the bucket of its name and occurs once, and no two entries have the
same name. -/
structure WellFormed (hash : α → Fin n) (name : ι → α) (buckets : Fin n → List ι) : Prop where
  home : ∀ b, ∀ i ∈ buckets b, hash (name i) = b
  once : ∀ b, (buckets b).Nodup
  names : ∀ i j, Mem buckets i → Mem buckets j → name i = name j → i = j

/-- The first entry with the name `x` in the bucket of `x`. -/
def lookup [DecidableEq α] (hash : α → Fin n) (name : ι → α) (buckets : Fin n → List ι) (x : α) :
    Option ι :=
  (buckets (hash x)).find? fun i => decide (name i = x)

/-- The table with a new entry at the head of a bucket. -/
def insert (buckets : Fin n → List ι) (b : Fin n) (i : ι) : Fin n → List ι :=
  update buckets b (i :: buckets b)

/-- The table without an entry of a bucket. -/
def erase [DecidableEq ι] (buckets : Fin n → List ι) (b : Fin n) (i : ι) : Fin n → List ι :=
  update buckets b ((buckets b).erase i)

lemma wellFormed_empty : WellFormed hash name fun _ => [] := by
  refine ⟨fun _ _ h => ?_, fun _ => List.nodup_nil, fun _ _ h => ?_⟩
  · cases h
  · obtain ⟨_, h⟩ := h
    cases h

lemma WellFormed.mem_home (h : WellFormed hash name buckets) {i : ι} (hi : Mem buckets i) :
    i ∈ buckets (hash (name i)) := by
  obtain ⟨b, hb⟩ := hi
  rwa [h.home b i hb]

/-- Only the names of the entries matter. -/
lemma WellFormed.congr (h : WellFormed hash name buckets) (name' : ι → α)
    (hn : ∀ i, Mem buckets i → name' i = name i) : WellFormed hash name' buckets := by
  refine ⟨fun b i hi => ?_, h.once, fun i j hi hj e => ?_⟩
  · rw [hn i ⟨b, hi⟩]
    exact h.home b i hi
  · rw [hn i hi, hn j hj] at e
    exact h.names i j hi hj e

section Lookup

variable [DecidableEq α]

lemma lookup_eq_some (h : WellFormed hash name buckets) {x : α} {i : ι} :
    lookup hash name buckets x = some i ↔ Mem buckets i ∧ name i = x := by
  constructor
  · intro hl
    have hn : name i = x := by simpa using List.find?_some hl
    exact ⟨⟨_, List.mem_of_find?_eq_some hl⟩, hn⟩
  · rintro ⟨hi, rfl⟩
    obtain ⟨j, hj⟩ : ∃ j, lookup hash name buckets (name i) = some j := by
      apply Option.isSome_iff_exists.mp
      rw [lookup, List.find?_isSome]
      exact ⟨i, h.mem_home hi, by simp⟩
    have hn : name j = name i := by simpa using List.find?_some hj
    rw [hj, h.names j i ⟨_, List.mem_of_find?_eq_some hj⟩ hi hn]

lemma lookup_eq_none (h : WellFormed hash name buckets) {x : α} :
    lookup hash name buckets x = none ↔ ∀ i, Mem buckets i → name i ≠ x := by
  rw [← Option.not_isSome_iff_eq_none, Option.isSome_iff_exists, not_exists]
  constructor
  · intro hl i hi hn
    exact hl i ((lookup_eq_some h).mpr ⟨hi, hn⟩)
  · intro hl i hi
    obtain ⟨hm, hn⟩ := (lookup_eq_some h).mp hi
    exact hl i hm hn

end Lookup

lemma mem_insert {b : Fin n} {i j : ι} : Mem (insert buckets b i) j ↔ j = i ∨ Mem buckets j := by
  constructor
  · rintro ⟨c, hc⟩
    by_cases hcb : c = b
    · subst hcb
      rw [insert, update_self] at hc
      exact (List.mem_cons.mp hc).imp_right fun hj => ⟨c, hj⟩
    · rw [insert, update_of_ne hcb] at hc
      exact .inr ⟨c, hc⟩
  · rintro (rfl | ⟨c, hc⟩)
    · exact ⟨b, by simp [insert]⟩
    · by_cases hcb : c = b
      · subst hcb
        exact ⟨c, by simp [insert, hc]⟩
      · exact ⟨c, by simpa [insert, hcb] using hc⟩

lemma WellFormed.insert (h : WellFormed hash name buckets) {i : ι}
    (hi : ∀ j, Mem buckets j → name j ≠ name i) :
    WellFormed hash name (BucketTable.insert buckets (hash (name i)) i) := by
  have hnew : ¬Mem buckets i := fun hm => hi i hm rfl
  refine ⟨fun b j hj => ?_, fun b => ?_, fun j l hj hl e => ?_⟩
  · by_cases hb : b = hash (name i)
    · subst hb
      rw [BucketTable.insert, update_self] at hj
      rcases List.mem_cons.mp hj with rfl | hj
      · rfl
      · exact h.home _ j hj
    · rw [BucketTable.insert, update_of_ne hb] at hj
      exact h.home b j hj
  · by_cases hb : b = hash (name i)
    · subst hb
      rw [BucketTable.insert, update_self]
      exact List.nodup_cons.mpr ⟨fun hm => hnew ⟨_, hm⟩, h.once _⟩
    · rw [BucketTable.insert, update_of_ne hb]
      exact h.once b
  · rcases mem_insert.mp hj with rfl | hj'
    · rcases mem_insert.mp hl with rfl | hl'
      · rfl
      · exact absurd e.symm (hi l hl')
    · rcases mem_insert.mp hl with rfl | hl'
      · exact absurd e (hi j hj')
      · exact h.names j l hj' hl' e

section Erase

variable [DecidableEq ι]

lemma mem_erase (h : WellFormed hash name buckets) {i j : ι} :
    Mem (erase buckets (hash (name i)) i) j ↔ j ≠ i ∧ Mem buckets j := by
  constructor
  · rintro ⟨b, hb⟩
    by_cases hbi : b = hash (name i)
    · subst hbi
      rw [erase, update_self, (h.once _).mem_erase_iff] at hb
      exact ⟨hb.1, _, hb.2⟩
    · rw [erase, update_of_ne hbi] at hb
      refine ⟨?_, b, hb⟩
      rintro rfl
      exact hbi (h.home b j hb).symm
  · rintro ⟨hji, hj⟩
    refine ⟨hash (name j), ?_⟩
    by_cases hb : hash (name j) = hash (name i)
    · rw [erase, hb, update_self, (h.once _).mem_erase_iff, ← hb]
      exact ⟨hji, h.mem_home hj⟩
    · rw [erase, update_of_ne hb]
      exact h.mem_home hj

lemma WellFormed.erase (h : WellFormed hash name buckets) (i : ι) :
    WellFormed hash name (BucketTable.erase buckets (hash (name i)) i) := by
  have hsub : ∀ b, List.Sublist (BucketTable.erase buckets (hash (name i)) i b) (buckets b) := by
    intro b
    by_cases hb : b = hash (name i)
    · subst hb
      rw [BucketTable.erase, update_self]
      exact List.erase_sublist
    · rw [BucketTable.erase, update_of_ne hb]
  refine ⟨fun b j hj => h.home b j ((hsub b).subset hj), fun b => (h.once b).sublist (hsub b),
    fun j l hj hl e => ?_⟩
  exact h.names j l ((mem_erase h).mp hj).2 ((mem_erase h).mp hl).2 e

end Erase

end BucketTable
