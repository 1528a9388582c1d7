import Mathlib.Tactic
import Mathlib.Data.Fintype.Card

/-!
# Singly linked lists

A linked list is a `next` function and a head pointer. `Segment next h l e` says that
following `next` from `h` visits exactly the nodes of `l`, in order, and stops at `e`;
a chain is a segment that stops at the null pointer. The file has the rules for the
pointer updates that queues perform: writes outside the list, appending at the tail,
popping the head and splicing a node out.
-/

namespace LinkedList

variable {α : Type*}

/-- Following `next` from `h` visits the nodes of `l` and stops at `e`. -/
def Segment (next : α → Option α) : Option α → List α → Option α → Prop
  | h, [], e => h = e
  | h, a :: l, e => h = some a ∧ Segment next (next a) l e

/-- A null-terminated list. -/
def IsChain (next : α → Option α) (h : Option α) (l : List α) : Prop := Segment next h l none

@[simp] lemma segment_nil (next : α → Option α) (h e : Option α) :
    Segment next h [] e ↔ h = e := Iff.rfl

@[simp] lemma segment_cons (next : α → Option α) (h e : Option α) (a : α) (l : List α) :
    Segment next h (a :: l) e ↔ h = some a ∧ Segment next (next a) l e := Iff.rfl

@[simp] lemma isChain_nil (next : α → Option α) (h : Option α) :
    IsChain next h [] ↔ h = none := Iff.rfl

@[simp] lemma isChain_cons (next : α → Option α) (h : Option α) (a : α) (l : List α) :
    IsChain next h (a :: l) ↔ h = some a ∧ IsChain next (next a) l := Iff.rfl

lemma isChain_head_none {next : α → Option α} {l : List α} (h : IsChain next none l) : l = [] := by
  cases l with
  | nil => rfl
  | cons a l => simp at h

lemma isChain_head_some {next : α → Option α} {a : α} {l : List α} (h : IsChain next (some a) l) :
    ∃ l', l = a :: l' ∧ IsChain next (next a) l' := by
  cases l with
  | nil => simp at h
  | cons b l =>
    obtain ⟨hb, hl⟩ := h
    cases hb
    exact ⟨l, rfl, hl⟩

lemma isChain_head_eq {next : α → Option α} {h : Option α} {l : List α} (hc : IsChain next h l) :
    h = l.head? := by
  cases l with
  | nil => exact hc
  | cons a l => exact hc.1

lemma segment_append (next : α → Option α) (h e : Option α) (l l' : List α) :
    Segment next h (l ++ l') e ↔ ∃ m, Segment next h l m ∧ Segment next m l' e := by
  induction l generalizing h with
  | nil => simp
  | cons a l ih => simp [ih, and_assoc]

lemma segment_congr {next next' : α → Option α} {h e : Option α} {l : List α}
    (hn : ∀ a ∈ l, next' a = next a) : Segment next' h l e ↔ Segment next h l e := by
  induction l generalizing h with
  | nil => rfl
  | cons a l ih =>
    rw [segment_cons, segment_cons, hn a (by simp), ih (fun b hb => hn b (by simp [hb]))]

lemma isChain_congr {next next' : α → Option α} {h : Option α} {l : List α}
    (hn : ∀ a ∈ l, next' a = next a) : IsChain next' h l ↔ IsChain next h l :=
  segment_congr hn

/-- A head pointer determines the list it starts. -/
theorem isChain_unique {next : α → Option α} {h : Option α} {l l' : List α}
    (hl : IsChain next h l) (hl' : IsChain next h l') : l = l' := by
  induction l generalizing h l' with
  | nil =>
    rw [isChain_nil] at hl
    rw [hl] at hl'
    exact (isChain_head_none hl').symm
  | cons a l ih =>
    rw [hl.1] at hl'
    obtain ⟨l'', rfl, hl''⟩ := isChain_head_some hl'
    rw [ih hl.2 hl'']

lemma isChain_suffix {next : α → Option α} {h : Option α} {l l' : List α}
    (hc : IsChain next h (l ++ l')) : IsChain next l'.head? l' := by
  obtain ⟨m, -, hm⟩ := (segment_append next h none l l').mp hc
  rwa [← isChain_head_eq hm]

/-- A list is closed under its links. -/
lemma isChain_next_mem {next : α → Option α} {h : Option α} {l : List α} {a b : α}
    (hc : IsChain next h l) (ha : a ∈ l) (hn : next a = some b) : b ∈ l := by
  induction l generalizing h with
  | nil => cases ha
  | cons c l ih =>
    rw [isChain_cons] at hc
    rcases List.mem_cons.mp ha with rfl | ha
    · have hc := hc.2
      rw [hn] at hc
      apply List.mem_cons_of_mem
      obtain ⟨l', rfl, -⟩ := isChain_head_some hc
      exact List.mem_cons_self
    · exact List.mem_cons_of_mem _ (ih hc.2 ha)

/-- A null-terminated list visits no node twice: two visits would start two suffixes
of different length at the same pointer. -/
theorem isChain_nodup {next : α → Option α} {h : Option α} {l : List α}
    (hc : IsChain next h l) : l.Nodup := by
  induction l generalizing h with
  | nil => exact List.nodup_nil
  | cons a l ih =>
    refine List.nodup_cons.mpr ⟨fun ha => ?_, ih hc.2⟩
    obtain ⟨s, t, rfl⟩ := List.append_of_mem ha
    have h1 : IsChain next (next a) t := by
      have := isChain_suffix (l := s) hc.2
      simpa using this
    have h2 := isChain_unique hc.2 h1
    have hlen := congrArg List.length h2
    simp only [List.length_append, List.length_cons] at hlen
    omega

lemma isChain_length_le [Fintype α] [DecidableEq α] {next : α → Option α} {h : Option α}
    {l : List α} (hc : IsChain next h l) : l.length ≤ Fintype.card α :=
  (isChain_nodup hc).length_le_card

/-- The first nodes of the list that starts at `h`. -/
def follow (next : α → Option α) : ℕ → Option α → List α
  | 0, _ => []
  | _ + 1, none => []
  | n + 1, some a => a :: follow next n (next a)

lemma follow_eq {next : α → Option α} {h : Option α} {l : List α} (hc : IsChain next h l) {n : ℕ}
    (hn : l.length ≤ n) : follow next n h = l := by
  induction l generalizing h n with
  | nil =>
    rw [isChain_nil] at hc
    subst hc
    cases n with
    | zero => rfl
    | succ n => rfl
  | cons a l ih =>
    obtain ⟨rfl, hc⟩ := hc
    cases n with
    | zero => simp at hn
    | succ n =>
      rw [List.length_cons] at hn
      rw [follow, ih hc (by omega)]

/-- Where the write `if (prev == NULL) head = x; else prev->next = x;` leaves the head. -/
def spliceHead (head prev x : Option α) : Option α :=
  match prev with
  | none => x
  | some _ => head

@[simp] lemma spliceHead_none (head x : Option α) : spliceHead head none x = x := rfl

@[simp] lemma spliceHead_some (head x : Option α) (q : α) : spliceHead head (some q) x = head := rfl

section Updates

variable [DecidableEq α]

lemma segment_update_of_notMem {next : α → Option α} {h e : Option α} {l : List α} {a : α}
    (ha : a ∉ l) (x : Option α) :
    Segment (Function.update next a x) h l e ↔ Segment next h l e := by
  apply segment_congr
  intro b hb
  have hba : b ≠ a := fun he => ha (he ▸ hb)
  exact Function.update_of_ne hba _ _

lemma isChain_update_of_notMem {next : α → Option α} {h : Option α} {l : List α} {a : α}
    (ha : a ∉ l) (x : Option α) :
    IsChain (Function.update next a x) h l ↔ IsChain next h l :=
  segment_update_of_notMem ha x

/-- Redirecting the last node of a segment moves its end. -/
lemma segment_update_last {next : α → Option α} {h e : Option α} {l : List α} {a : α}
    (hs : Segment next h (l ++ [a]) e) (ha : a ∉ l) (x : Option α) :
    Segment (Function.update next a x) h (l ++ [a]) x := by
  obtain ⟨m, hl, hm⟩ := (segment_append next h e l [a]).mp hs
  refine (segment_append _ _ _ _ _).mpr ⟨m, (segment_update_of_notMem ha x).mpr hl, ?_⟩
  simp [hm.1]

/-- Where the same write leaves `next`. -/
def spliceNext (next : α → Option α) (prev x : Option α) : α → Option α :=
  match prev with
  | none => next
  | some q => Function.update next q x

@[simp] lemma spliceNext_none (next : α → Option α) (x : Option α) :
    spliceNext next none x = next := rfl

@[simp] lemma spliceNext_some (next : α → Option α) (q : α) (x : Option α) :
    spliceNext next (some q) x = Function.update next q x := rfl

lemma spliceNext_of_notMem (next : α → Option α) (l : List α) (x : Option α) {a : α}
    (ha : a ∉ l) : spliceNext next l.getLast? x a = next a := by
  cases hl : l.getLast? with
  | none => rfl
  | some q =>
    rw [spliceNext_some, Function.update_of_ne]
    rintro rfl
    exact ha (List.mem_of_getLast? hl)

/-- Splicing a node out of a list by redirecting its predecessor. -/
theorem isChain_splice {next : α → Option α} {h : Option α} {l l' : List α} {a : α}
    (hc : IsChain next h (l ++ a :: l')) :
    IsChain (spliceNext next l.getLast? (next a)) (spliceHead h l.getLast? (next a)) (l ++ l') := by
  have hnd := isChain_nodup hc
  obtain ⟨m, hl, hm⟩ := (segment_append next h none l (a :: l')).mp hc
  rcases List.eq_nil_or_concat' l with rfl | ⟨s, q, rfl⟩
  · simpa [IsChain] using hm.2
  · have hq : q ∉ s := by grind
    have hq' : q ∉ l' := by grind
    simp only [List.getLast?_append, List.getLast?_singleton, Option.some_or, spliceNext_some,
      spliceHead_some]
    exact (segment_append _ _ _ _ _).mpr ⟨next a, segment_update_last hl hq _,
      (segment_update_of_notMem hq' _).mpr hm.2⟩

end Updates

/-- A list with a head and a tail pointer; the tail is the last node, null when empty. -/
structure IsQueue (next : α → Option α) (head tail : Option α) (l : List α) : Prop where
  chain : IsChain next head l
  tail_eq : tail = l.getLast?

namespace IsQueue

variable {next : α → Option α} {head tail : Option α} {l : List α}

lemma nodup (h : IsQueue next head tail l) : l.Nodup := isChain_nodup h.chain

lemma head_eq (h : IsQueue next head tail l) : head = l.head? := isChain_head_eq h.chain

lemma congr {next' : α → Option α} (h : IsQueue next head tail l)
    (hn : ∀ a ∈ l, next' a = next a) : IsQueue next' head tail l :=
  ⟨(isChain_congr hn).mpr h.chain, h.tail_eq⟩

variable [DecidableEq α]

lemma update_of_notMem (h : IsQueue next head tail l) {a : α} (ha : a ∉ l) (x : Option α) :
    IsQueue (Function.update next a x) head tail l :=
  ⟨(isChain_update_of_notMem ha x).mpr h.chain, h.tail_eq⟩

/-- The first node of an empty queue. -/
lemma push_nil (next : α → Option α) (a : α) :
    IsQueue (Function.update next a none) (some a) (some a) [a] :=
  ⟨by simp, by simp⟩

/-- Appending behind the tail. -/
theorem push (h : IsQueue next head (some t) l) {a : α} (ha : a ∉ l) (hn : next a = none) :
    IsQueue (Function.update next t (some a)) head (some a) (l ++ [a]) := by
  rcases List.eq_nil_or_concat' l with rfl | ⟨s, q, rfl⟩
  · simpa using h.tail_eq
  · have hq : t = q := by simpa using h.tail_eq
    subst hq
    have hs : t ∉ s := by have := h.nodup; grind
    have hat : a ≠ t := by grind
    refine ⟨(segment_append _ _ _ _ _).mpr ⟨some a, segment_update_last h.chain hs _, ?_⟩, by simp⟩
    simp [Function.update_of_ne hat, hn]

/-- Removing the head. -/
theorem pop {a : α} (h : IsQueue next head tail (a :: l)) :
    IsQueue (Function.update next a none) (next a) (if next a = none then none else tail) l := by
  have ha : a ∉ l := (List.nodup_cons.mp h.nodup).1
  refine ⟨(isChain_update_of_notMem ha _).mpr h.chain.2, ?_⟩
  have hh := isChain_head_eq h.chain.2
  cases l with
  | nil => simp [hh]
  | cons b l => simp [hh, h.tail_eq]

/-- Splicing a node out of the middle of a queue. -/
theorem splice {l' : List α} {a : α} (h : IsQueue next head tail (l ++ a :: l')) :
    IsQueue (spliceNext next l.getLast? (next a)) (spliceHead head l.getLast? (next a))
      (if tail = some a then l.getLast? else tail) (l ++ l') := by
  refine ⟨isChain_splice h.chain, ?_⟩
  have hnd := h.nodup
  rcases List.eq_nil_or_concat' l' with rfl | ⟨s, q, rfl⟩
  · simp [h.tail_eq]
  · have hqa : q ≠ a := by grind
    have ht : tail = some q := by
      rw [h.tail_eq, ← List.cons_append, ← List.append_assoc, List.getLast?_concat]
    rw [if_neg (by simpa [ht] using hqa), ht, ← List.append_assoc, List.getLast?_concat]

end IsQueue

section Closed

variable [DecidableEq α] {next : α → Option α} {S : α → Prop}

/-- The links of the nodes in `S` lead to nodes in `S`. -/
def LinkClosed (next : α → Option α) (S : α → Prop) : Prop :=
  ∀ a b, S a → next a = some b → S b

lemma LinkClosed.update (h : LinkClosed next S) (a : α) {x : Option α} (hx : ∀ b, x = some b → S b) :
    LinkClosed (Function.update next a x) S := by
  intro b c hb hc
  rw [Function.update_apply] at hc
  split at hc
  · exact hx c hc
  · exact h b c hb hc

lemma LinkClosed.splice (h : LinkClosed next S) (prev : Option α) {x : Option α}
    (hx : ∀ b, x = some b → S b) : LinkClosed (spliceNext next prev x) S := by
  cases prev with
  | none => exact h
  | some a => exact h.update a hx

omit [DecidableEq α] in
/-- A node without a successor joins. -/
lemma LinkClosed.insert (h : LinkClosed next S) {a : α} (ha : next a = none) :
    LinkClosed next fun b => S b ∨ b = a := by
  rintro b c (hb | rfl) hc
  · exact .inl (h b c hb hc)
  · rw [ha] at hc
    cases hc

end Closed

end LinkedList
