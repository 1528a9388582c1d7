import TP2Kernel.Lib.LinkedList

/-!
# Forests of linked lists

A forest in first-child, next-sibling form: every node has a pointer to its first child and
one to its next sibling. `Forest head next kids` says that the pointers hold the lists
`kids`, that no node is a child of two nodes, and that a root has no sibling. The rules say
which lists the pointers hold after a child is put in front, taken out, or cut off with the
rest of its list.
-/

namespace LinkedList

variable {α : Type*}

/-- The pointers hold the lists of children `kids`. -/
structure Forest (head next : α → Option α) (kids : α → List α) : Prop where
  chain : ∀ p, IsChain next (head p) (kids p)
  apart : ∀ {p q c}, c ∈ kids p → c ∈ kids q → p = q
  root : ∀ c, (∀ p, c ∉ kids p) → next c = none

namespace Forest

variable {head next : α → Option α} {kids : α → List α} {p q c : α} {l l' : List α}

lemma nodup (h : Forest head next kids) (p : α) : (kids p).Nodup := isChain_nodup (h.chain p)

lemma head_eq (h : Forest head next kids) (p : α) : head p = (kids p).head? :=
  isChain_head_eq (h.chain p)

lemma head_none (h : Forest head next kids) (hp : kids p = []) : head p = none := by
  rw [h.head_eq, hp]
  rfl

/-- The pointers determine the lists. -/
theorem unique {kids' : α → List α} (h : Forest head next kids) (h' : Forest head next kids') :
    kids' = kids := by
  funext p
  exact isChain_unique (h'.chain p) (h.chain p)

lemma empty (hh : ∀ p, head p = none) (hn : ∀ c, next c = none) :
    Forest head next fun _ => [] :=
  ⟨fun p => hh p, fun hc => absurd hc List.not_mem_nil, fun c _ => hn c⟩

variable [DecidableEq α]

/-- A root becomes the first child of `q`. -/
theorem link (h : Forest head next kids) (hc : ∀ p, c ∉ kids p) (q : α) :
    Forest (Function.update head q (some c)) (Function.update next c (head q))
      (Function.update kids q (c :: kids q)) := by
  refine ⟨fun p => ?_, fun {p p' x} hx hx' => ?_, fun x hx => ?_⟩
  · by_cases hp : p = q
    · subst hp
      rw [Function.update_self, Function.update_self, isChain_cons, Function.update_self]
      exact ⟨rfl, (isChain_update_of_notMem (hc p) _).mpr (h.chain p)⟩
    · rw [Function.update_of_ne hp, Function.update_of_ne hp]
      exact (isChain_update_of_notMem (hc p) _).mpr (h.chain p)
  · have hmem : ∀ y, x ∈ Function.update kids q (c :: kids q) y → x = c ∧ y = q ∨ x ∈ kids y := by
      intro y hy
      by_cases hyq : y = q
      · subst hyq
        rw [Function.update_self] at hy
        exact (List.mem_cons.mp hy).imp_left fun e => ⟨e, rfl⟩
      · rw [Function.update_of_ne hyq] at hy
        exact .inr hy
    rcases hmem p hx with ⟨rfl, rfl⟩ | h1
    · rcases hmem p' hx' with ⟨-, rfl⟩ | h2
      · rfl
      · exact absurd h2 (hc p')
    · rcases hmem p' hx' with ⟨rfl, rfl⟩ | h2
      · exact absurd h1 (hc p)
      · exact h.apart h1 h2
  · have hxq := hx q
    rw [Function.update_self, List.mem_cons, not_or] at hxq
    rw [Function.update_of_ne hxq.1]
    refine h.root x fun p hp => ?_
    by_cases hpq : p = q
    · exact hxq.2 (hpq ▸ hp)
    · refine hx p ?_
      rwa [Function.update_of_ne hpq]

/-- A child of `q` becomes a root. -/
theorem unlink (h : Forest head next kids) (hq : kids q = l ++ c :: l') :
    Forest (Function.update head q (spliceHead (head q) l.getLast? (next c)))
      (Function.update (spliceNext next l.getLast? (next c)) c none)
      (Function.update kids q (l ++ l')) := by
  have hcq : c ∈ kids q := by simp [hq]
  have hnd := h.nodup q
  rw [hq] at hnd
  have hcl : c ∉ l ++ l' := (List.nodup_middle.mp hnd).notMem
  have hsub : ∀ x ∈ l ++ l', x ∈ kids q := by
    intro x hx
    rw [hq]
    simp only [List.mem_append, List.mem_cons] at hx ⊢
    tauto
  have hl : ∀ {p x}, p ≠ q → x ∈ kids p → x ∉ l := fun hp hx hxl =>
    hp (h.apart hx (hsub _ (by simp [hxl])))
  refine ⟨fun p => ?_, fun {p p' x} hx hx' => ?_, fun x hx => ?_⟩
  · by_cases hp : p = q
    · subst hp
      rw [Function.update_self, Function.update_self]
      have hch := h.chain p
      rw [hq] at hch
      exact (isChain_update_of_notMem hcl _).mpr (isChain_splice hch)
    · rw [Function.update_of_ne hp, Function.update_of_ne hp]
      refine (isChain_congr fun x hx => ?_).mpr (h.chain p)
      have hxc : x ≠ c := fun e => hp (h.apart hx (e ▸ hcq))
      rw [Function.update_of_ne hxc, spliceNext_of_notMem _ _ _ (hl hp hx)]
  · have hmem : ∀ y, x ∈ Function.update kids q (l ++ l') y → x ∈ kids y := by
      intro y hy
      by_cases hyq : y = q
      · subst hyq
        rw [Function.update_self] at hy
        exact hsub x hy
      · rwa [Function.update_of_ne hyq] at hy
    exact h.apart (hmem p hx) (hmem p' hx')
  · by_cases hxc : x = c
    · rw [hxc, Function.update_self]
    · have hxq := hx q
      rw [Function.update_self] at hxq
      rw [Function.update_of_ne hxc,
        spliceNext_of_notMem _ _ _ fun hxl => hxq (List.mem_append_left _ hxl)]
      refine h.root x fun p hp => ?_
      by_cases hpq : p = q
      · subst hpq
        rw [hq] at hp
        simp only [List.mem_append, List.mem_cons] at hp hxq
        tauto
      · refine hx p ?_
        rwa [Function.update_of_ne hpq]

/-- The first child of `q` becomes a root. -/
lemma pop (h : Forest head next kids) (hq : kids q = c :: l) :
    Forest (Function.update head q (next c)) (Function.update next c none)
      (Function.update kids q l) := by
  have := h.unlink (l := []) hq
  simpa using this

end Forest

end LinkedList
