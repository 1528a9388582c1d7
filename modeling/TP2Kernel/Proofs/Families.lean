import TP2Kernel.Families
import TP2Kernel.Proofs.Terminal

/-!
# Lists of children

The loops of `unlink_child` and `detach_children` as operations on lists of children. While a
loop walks over a list, the pointer that it has reached stands for the head of the list.
-/

namespace TP2Kernel.Proofs
open Function LinkedList

variable {k k' k'' : Kernel} {kids : Slot → List Slot} {p q c x : Slot} {l l' : List Slot}

/-- The loop of `unlink_child` behind the list `l` of the children that it has passed. -/
lemma unlinkChildLoop_forest (h : Forest k.childHead k.siblingNext kids)
    (hq : kids q = l ++ l') {n : Nat} (hn : l'.length ≤ n) :
    Forest (unlinkChildLoop q c n l.getLast? l'.head? k).childHead
      (unlinkChildLoop q c n l.getLast? l'.head? k).siblingNext
      (update kids q (l ++ l'.erase c)) := by
  induction l' generalizing l n with
  | nil =>
    have e : unlinkChildLoop q c n l.getLast? none k = k := by cases n <;> rfl
    rw [List.erase_nil, ← hq, update_eq_self, List.head?_nil, e]
    exact h
  | cons d l' ih =>
    obtain ⟨n, rfl⟩ : ∃ m, n = m + 1 := ⟨n - 1, by simp at hn; omega⟩
    have hnext : k.siblingNext d = l'.head? := by
      have hch := h.chain q
      rw [hq] at hch
      have hd := isChain_suffix hch
      exact isChain_head_eq hd.2
    rw [List.head?_cons, unlinkChildLoop]
    dsimp only
    by_cases hdc : d = c
    · subst hdc
      rw [if_pos rfl, List.erase_cons_head]
      exact h.unlink hq
    · rw [if_neg hdc, List.erase_cons_tail (by simpa using hdc), hnext]
      have hq' : kids q = (l ++ [d]) ++ l' := by simp [hq]
      have hlen : l'.length ≤ n := by simpa using hn
      have hih := ih hq' hlen
      rw [List.getLast?_concat, List.append_assoc] at hih
      exact hih

lemma unlinkChild_forest (h : Forest k.childHead k.siblingNext kids) (q c : Slot) :
    Forest (unlinkChild k q c).childHead (unlinkChild k q c).siblingNext
      (update kids q ((kids q).erase c)) := by
  have hlen : (kids q).length ≤ maxProcs :=
    (isChain_length_le (h.chain q)).trans_eq (Fintype.card_fin _)
  have hl := unlinkChildLoop_forest (l := []) (c := c) h rfl hlen
  rw [← h.head_eq] at hl
  exact hl

/-- `c'` is `c`, terminated if `d` holds and made an orphan if `o` holds. -/
structure Fated (d o : Prop) (c c' : Pcb) : Prop where
  pid : c'.pid = c.pid
  used : c'.used = c.used
  dead : d → c'.state = .exited
  alive : ¬d → c'.state = c.state
  orphan : o → c'.parentPid = -1
  parent : ¬o → c'.parentPid = c.parentPid

namespace Fated

variable {d d' o o' : Prop} {a a' a'' : Pcb}

lemma refl (a : Pcb) : Fated False False a a :=
  ⟨rfl, rfl, False.elim, fun _ => rfl, False.elim, fun _ => rfl⟩

lemma trans (h : Fated d o a a') (h' : Fated d' o' a' a'') : Fated (d ∨ d') (o ∨ o') a a'' := by
  refine ⟨h'.pid.trans h.pid, h'.used.trans h.used, fun hd => ?_, fun hd => ?_, fun ho => ?_,
    fun ho => ?_⟩
  · by_cases hd' : d'
    · exact h'.dead hd'
    · exact (h'.alive hd').trans (h.dead (hd.resolve_right hd'))
  · rw [not_or] at hd
    exact (h'.alive hd.2).trans (h.alive hd.1)
  · by_cases ho' : o'
    · exact h'.orphan ho'
    · exact (h'.parent ho').trans (h.orphan (ho.resolve_right ho'))
  · rw [not_or] at ho
    exact (h'.parent ho.2).trans (h.parent ho.1)

lemma congr (h : Fated d o a a') (hd : d' ↔ d) (ho : o' ↔ o) : Fated d' o' a a' := by
  rw [hd, ho]
  exact h

end Fated

/-- The loop over the children of a killed child cuts its list and makes orphans of them. `head`
is `child_head` with the pointer that the loop has reached. -/
lemma orphanLoop_forest {head : Slot → Option Slot} (h : Forest head k.siblingNext kids)
    (hc : kids c = l) {n : Nat} (hn : l.length ≤ n) :
    Forest (update head c none) (orphanLoop n (head c) k).siblingNext (update kids c []) ∧
      ∀ x, Fated False (x ∈ l) (k.procs x) ((orphanLoop n (head c) k).procs x) := by
  induction l generalizing head kids k n with
  | nil =>
    rw [h.head_none hc]
    have e : orphanLoop n none k = k := by cases n <;> rfl
    rw [e]
    refine ⟨?_, fun x => (Fated.refl _).congr .rfl (by simp)⟩
    rwa [← hc, update_eq_self, ← h.head_none hc, update_eq_self]
  | cons g l ih =>
    obtain ⟨n, rfl⟩ : ∃ m, n = m + 1 := ⟨n - 1, by simp at hn; omega⟩
    rw [h.head_eq c, hc, List.head?_cons, orphanLoop]
    dsimp only
    have h1 := h.pop hc
    set k1 : Kernel := { k.modify g fun c => { c with parentPid := -1 } with
      siblingNext := update k.siblingNext g none } with hk1
    have hl : l.length ≤ n := by simpa using hn
    obtain ⟨h2, hf⟩ := ih (k := k1) h1 (update_self ..) hl
    rw [update_self, update_idem, update_idem] at h2
    simp only [update_self] at hf
    refine ⟨h2, fun x => ?_⟩
    have hx1 : Fated False (x = g) (k.procs x) (k1.procs x) := by
      by_cases hx : x = g
      · subst hx
        rw [hk1]
        simp only [Kernel.modify_procs_self]
        exact ⟨rfl, rfl, False.elim, fun _ => rfl, fun _ => rfl, fun hx => absurd trivial hx⟩
      · have e : k1.procs x = k.procs x :=
          Kernel.modify_procs_of_ne k (fun c => { c with parentPid := -1 }) hx
        rw [e]
        exact (Fated.refl _).congr .rfl (by simp [hx])
    exact (hx1.trans (hf x)).congr (by simp) (by simp)

lemma orphanLoop_heads (n : Nat) (g : Option Slot) (k : Kernel) :
    (orphanLoop n g k).childHead = k.childHead := by
  induction n generalizing g k with
  | zero => rfl
  | succ n ih =>
    cases g with
    | none => rfl
    | some g => exact ih _ _

lemma cleanupWaitResults_links (k : Kernel) (p : Slot) :
    (cleanupWaitResults k p).childHead = k.childHead ∧
      (cleanupWaitResults k p).siblingNext = k.siblingNext := by
  have h : ∀ (bs : List Block) (k : Kernel), (bs.foldl Kernel.mmFree k).childHead = k.childHead ∧
      (bs.foldl Kernel.mmFree k).siblingNext = k.siblingNext := by
    intro bs
    induction bs with
    | nil => exact fun _ => ⟨rfl, rfl⟩
    | cons b bs ih => exact fun k => ih (k.mmFree b)
  exact h _ k

/-- Killing a child cuts its own list and makes orphans of its children. -/
lemma killChild_forest {head : Slot → Option Slot} (h : Forest head k.siblingNext kids)
    (hc : head c = k.childHead c) :
    Forest (update head c none) (killChild k c).siblingNext (update kids c []) ∧
      (killChild k c).childHead = update k.childHead c none ∧
      ∀ x, Fated (x = c) (x = c ∨ x ∈ kids c) (k.procs x) ((killChild k c).procs x) := by
  obtain ⟨k1, hk1⟩ : ∃ k1 : Kernel, k1 = { (unready k c).modify c markKilled with
      childHead := update k.childHead c none } := ⟨_, rfl⟩
  have hw := unready_write k c
  have hnext : k1.siblingNext = k.siblingNext := by
    rw [hk1]
    exact (congrArg Kernel.siblingNext hw :)
  have hprocs : ∀ x, k1.procs x = if x = c then markKilled (k.procs c) else k.procs x := by
    intro x
    rw [hk1]
    by_cases hx : x = c
    · subst hx
      simp [Kernel.modify, unready_procs]
    · simp [Kernel.modify, unready_procs, hx]
  have hlen : (kids c).length ≤ maxProcs :=
    (isChain_length_le (h.chain c)).trans_eq (Fintype.card_fin _)
  obtain ⟨h2, hf⟩ := orphanLoop_forest (k := k1) (hnext ▸ h) rfl hlen
  have hkin := orphanLoop_kin maxProcs (head c) k1
  have hheads := orphanLoop_heads maxProcs (head c) k1
  rw [killChild_eq, ← hk1, ← hc]
  generalize orphanLoop maxProcs (head c) k1 = k2 at h2 hf hkin hheads ⊢
  refine ⟨?_, ?_, fun x => ?_⟩
  · have e : (enqueueZombie (cleanupWaitResults k2 c) c).siblingNext = k2.siblingNext :=
      (cleanupWaitResults_links k2 c).2
    rw [e]
    exact h2
  · have e : (enqueueZombie (cleanupWaitResults k2 c) c).childHead = k2.childHead :=
      (cleanupWaitResults_links k2 c).1
    rw [e, hheads, hk1]
  · have hx2 : (enqueueZombie (cleanupWaitResults k2 c) c).procs x =
        (cleanupWaitResults k2 c).procs x := rfl
    rw [hx2, cleanupWaitResults_procs]
    have h0 := hf x
    rw [hprocs] at h0
    by_cases hx : x = c
    · subst hx
      rw [if_pos rfl] at h0
      rw [update_self]
      have hp : (k2.procs x).parentPid = -1 := by
        by_cases hm : x ∈ kids x
        · exact h0.orphan hm
        · exact h0.parent hm
      exact ⟨h0.pid, h0.used, fun _ => h0.alive id, fun hd => absurd rfl hd, fun _ => hp,
        fun ho => absurd (.inl rfl) ho⟩
    · rw [if_neg hx] at h0
      rw [update_of_ne hx]
      exact h0.congr (by simp [hx]) (by simp [hx])

/-- The loop over the children. `head` is `child_head` with the child that the loop has reached. -/
lemma detachLoop_forest {head : Slot → Option Slot} (h : Forest head k.siblingNext kids)
    (hp : kids p = l) (hself : p ∉ l) (hcut : k.childHead p = none)
    (hhead : ∀ x, x ≠ p → head x = k.childHead x)
    (halive : ∀ c ∈ l, (k.procs c).state ≠ .exited) {n : Nat} (hn : l.length ≤ n) :
    Forest (detachLoop p n (head p) k).childHead (detachLoop p n (head p) k).siblingNext
        (fun x => if x = p ∨ x ∈ l then [] else kids x) ∧
      ∀ x, Fated (x ∈ l) (x ∈ l ∨ ∃ c ∈ l, x ∈ kids c) (k.procs x)
        ((detachLoop p n (head p) k).procs x) := by
  induction l generalizing head kids k n with
  | nil =>
    have e : detachLoop p n none k = k := by cases n <;> rfl
    have hnone := h.head_none hp
    rw [hnone, e]
    have hh : head = k.childHead := by
      funext x
      by_cases hx : x = p
      · rw [hx, hnone, hcut]
      · exact hhead x hx
    have hk : (fun x => if x = p ∨ x ∈ ([] : List Slot) then [] else kids x) = kids := by
      funext x
      by_cases hx : x = p
      · simp [hx, hp]
      · simp [hx]
    rw [hk, ← hh]
    exact ⟨h, fun x => (Fated.refl _).congr (by simp) (by simp)⟩
  | cons c l ih =>
    obtain ⟨n, rfl⟩ : ∃ m, n = m + 1 := ⟨n - 1, by simp at hn; omega⟩
    have hlen : l.length ≤ n := by simpa using hn
    have hnd := h.nodup p
    rw [hp, List.nodup_cons] at hnd
    rw [List.mem_cons, not_or] at hself
    obtain ⟨hpc, hpl⟩ := hself
    have h1 := h.pop hp
    obtain ⟨k1, hk1⟩ : ∃ k1 : Kernel,
        k1 = { k with siblingNext := update k.siblingNext c none } := ⟨_, rfl⟩
    have hprocs : k1.procs = k.procs := by rw [hk1]
    have hheads : k1.childHead = k.childHead := by rw [hk1]
    have hc1 : update head p (k.siblingNext c) c = k1.childHead c := by
      rw [update_of_ne (Ne.symm hpc), hheads]
      exact hhead c (Ne.symm hpc)
    obtain ⟨h2, e2, hf2⟩ := killChild_forest (k := k1) (c := c)
      (by rw [hk1]; exact h1) hc1
    rw [update_of_ne (Ne.symm hpc)] at hf2
    rw [h.head_eq p, hp, List.head?_cons, detachLoop_some hk1,
      if_pos (by rw [hprocs]; exact halive c (by simp))]
    generalize killChild k1 c = k2 at h2 e2 hf2 ⊢
    have hcur : update (update head p (k.siblingNext c)) c none p = k.siblingNext c := by
      rw [update_of_ne hpc, update_self]
    have hkp : update (update kids p l) c [] p = l := by rw [update_of_ne hpc, update_self]
    have hcut2 : k2.childHead p = none := by rw [e2, update_of_ne hpc, hheads, hcut]
    have hhead2 : ∀ x, x ≠ p → update (update head p (k.siblingNext c)) c none x =
        k2.childHead x := by
      intro x hx
      rw [e2, hheads]
      by_cases hxc : x = c
      · rw [hxc, update_self, update_self]
      · rw [update_of_ne hxc, update_of_ne hxc, update_of_ne hx]
        exact hhead x hx
    have hlc : ∀ {x}, x ∈ l → x ≠ c := fun hx e => hnd.1 (e ▸ hx)
    have halive2 : ∀ d ∈ l, (k2.procs d).state ≠ .exited := by
      intro d hd
      rw [(hf2 d).alive (hlc hd), hprocs]
      exact halive d (List.mem_cons_of_mem _ hd)
    obtain ⟨h3, hf3⟩ := ih h2 hkp hpl hcut2 hhead2 halive2 hlen
    rw [hcur] at h3 hf3
    have hk3 : (fun x => if x = p ∨ x ∈ l then [] else update (update kids p l) c [] x) =
        fun x => if x = p ∨ x ∈ c :: l then [] else kids x := by
      funext x
      by_cases hxp : x = p
      · simp [hxp]
      · by_cases hxc : x = c
        · simp [hxc]
        · simp [hxp, hxc]
    refine ⟨hk3 ▸ h3, fun x => ?_⟩
    have hold : (∃ d ∈ l, x ∈ update (update kids p l) c [] d) ↔ ∃ d ∈ l, x ∈ kids d := by
      refine exists_congr fun d => and_congr_right fun hd => ?_
      have hdp : d ≠ p := fun e => hpl (e ▸ hd)
      rw [update_of_ne (hlc hd), update_of_ne hdp]
    have hx := (hf2 x).trans (hf3 x)
    rw [hprocs] at hx
    refine hx.congr (by simp) ?_
    rw [hold]
    simp only [List.mem_cons, exists_eq_or_imp]
    tauto

/-- `detach_children` kills the children of `p` and makes orphans of their children. -/
theorem detachChildren_forest (h : Forest k.childHead k.siblingNext kids) (hself : p ∉ kids p)
    (halive : ∀ c ∈ kids p, (k.procs c).state ≠ .exited) :
    Forest (detachChildren k p).childHead (detachChildren k p).siblingNext
        (fun x => if x = p ∨ x ∈ kids p then [] else kids x) ∧
      ∀ x, Fated (x ∈ kids p) (x ∈ kids p ∨ ∃ c ∈ kids p, x ∈ kids c) (k.procs x)
        ((detachChildren k p).procs x) := by
  have hlen : (kids p).length ≤ maxProcs :=
    (isChain_length_le (h.chain p)).trans_eq (Fintype.card_fin _)
  exact detachLoop_forest (k := { k with childHead := update k.childHead p none }) h rfl hself
    (update_self ..) (fun x hx => (update_of_ne hx _ _).symm) halive hlen

end TP2Kernel.Proofs
