import TP2Kernel.System
import TP2Kernel.TtyCalls
import TP2Kernel.Proofs.Frames

/-!
# Characters and end-of-file

The ring of the terminal is a list that loses its oldest characters. End-of-file is kept beside
it, and so reaches the readers behind all that the ring holds.
-/

namespace TP2Kernel.Proofs
open CircularBuffer TtyRun

variable {σ : TtyRun} {k k' : Kernel} {exec : Slot} {e : TtyEvent} {es : List TtyEvent}
  {log : List TtyEntry} {c : UInt8} {n : Nat}

lemma DispatchWrite.tty (h : DispatchWrite k k') : k'.tty = k.tty := (congrArg Kernel.tty h :)

/-- The input is as it was. -/
def SameInput (k k' : Kernel) : Prop := k'.tty.ring = k.tty.ring ∧ k'.tty.eof = k.tty.eof

/-- The three ways of a reader. -/
lemma ttyReadLoop_cases (exec : Slot) (n i : Nat) (k : Kernel) :
    (0 < k.tty.ring.size ∧
      (ttyReadLoop exec n (i + 1) k).1.tty.ring = (k.tty.ring.takeList (min k.tty.ring.size n)).2 ∧
      (ttyReadLoop exec n (i + 1) k).1.tty.eof = k.tty.eof ∧
      entryOf (ttyReadLoop exec n (i + 1) k).2 =
        [.got (k.tty.ring.takeList (min k.tty.ring.size n)).1]) ∨
    (k.tty.ring.size = 0 ∧ k.tty.eof = true ∧
      (ttyReadLoop exec n (i + 1) k).1.tty.ring = k.tty.ring ∧
      (ttyReadLoop exec n (i + 1) k).1.tty.eof = false ∧
      entryOf (ttyReadLoop exec n (i + 1) k).2 = [.zero]) ∨
    (k.tty.ring.size = 0 ∧ k.tty.eof = false ∧
      SameInput k (ttyReadLoop exec n (i + 1) k).1 ∧
      entryOf (ttyReadLoop exec n (i + 1) k).2 = []) := by
  rw [ttyReadLoop]
  by_cases hs : 0 < k.tty.ring.size
  · rw [if_pos hs]
    have hmin : (if k.tty.ring.size < n then k.tty.ring.size else n) = min k.tty.ring.size n := by
      split
      · omega
      · omega
    dsimp only
    rw [hmin]
    exact Or.inl ⟨hs, rfl, rfl, rfl⟩
  rw [if_neg hs]
  have h0 : k.tty.ring.size = 0 := by omega
  by_cases he : k.tty.eof = true
  · rw [if_pos he]
    exact Or.inr (Or.inl ⟨h0, he, rfl, rfl, rfl⟩)
  have hf : k.tty.eof = false := Bool.not_eq_true _ ▸ he
  rw [if_neg he]
  refine Or.inr (Or.inr ⟨h0, hf, ?_⟩)
  cases k.current with
  | none => exact ⟨⟨rfl, rfl⟩, rfl⟩
  | some cur =>
    have htty : k.mmMalloc.1.tty = k.tty := rfl
    dsimp only
    split
    · rename_i k1 heq
      rw [heq] at htty
      exact ⟨⟨by rw [htty], by rw [htty]⟩, rfl⟩
    · rename_i k1 node heq
      rw [heq] at htty
      rw [htty, if_neg (by simp [h0, hf])]
      have hy := (Redispatch.blockAndYield
        (k1.modifyTty fun t => { t with waiters := t.waiters ++ [⟨node, cur⟩] }) cur
        ⟨exec, .ttyRead n⟩).write.tty
      exact ⟨⟨by rw [hy, ← htty]; rfl, by rw [hy, ← htty]; rfl⟩, rfl⟩

/-- Waking the first waiter. -/
lemma dequeue_wake (k : Kernel) :
    SameInput k (wakeDequeued (dequeueWaiter k).1 (dequeueWaiter k).2) := by
  have hd : SameInput k (dequeueWaiter k).1 := by
    rw [dequeueWaiter]
    split
    · exact ⟨rfl, rfl⟩
    · exact ⟨rfl, rfl⟩
  generalize (dequeueWaiter k).1 = k1 at hd
  cases (dequeueWaiter k).2 with
  | none => exact hd
  | some p =>
    have hw := (reapWrite_loose.closed.wake k1 (k1.procs p).pid trivial).tty
    rw [wakeDequeued, SameInput, hw]
    exact hd

/-- A key other than Ctrl-C and Ctrl-D. -/
lemma ttyPushChar_char (k : Kernel) (exec : Slot) (h3 : c ≠ 3) (h4 : c ≠ 4) :
    (ttyPushChar k exec c).1.tty.ring =
        (if k.tty.ring.size = ttyBufferCap then k.tty.ring.drop else k.tty.ring).put c ∧
      (ttyPushChar k exec c).1.tty.eof = k.tty.eof := by
  rw [ttyPushChar, if_neg h3, if_neg h4]
  split
  · exact dequeue_wake _
  · exact dequeue_wake _

lemma ttyPushChar_eof (k : Kernel) (exec : Slot) :
    (ttyPushChar k exec 4).1.tty.ring = k.tty.ring ∧ (ttyPushChar k exec 4).1.tty.eof = true :=
  dequeue_wake (k.modifyTty fun t => { t with eof := true })

/-- The terminal and the list machine have done the same. -/
structure ActsAs (σ : TtyRun) (l : ListTty) : Prop where
  wf : σ.k.tty.ring.Wf
  unread : σ.k.tty.ring.contents = l.unread
  eof : σ.k.tty.eof = false
  log : σ.log = l.log

lemma ActsAs.reader {l : ListTty} (h : ActsAs σ l) (hn : 0 < n) (exec : Slot) :
    ActsAs (σ.reader (ttyReadLoop exec n 2 σ.k)) (l.read n) := by
  obtain ⟨hs, hr, he, ho⟩ | ⟨-, he, -⟩ | ⟨hs, -, hsame, ho⟩ := ttyReadLoop_cases exec n 1 σ.k
  · obtain ⟨hw, ht, hd⟩ := h.wf.takeList_min n
    have hne : l.unread ≠ [] := by
      intro hnil
      rw [← contents_length, h.unread, hnil] at hs
      exact absurd hs (lt_irrefl 0)
    have hread : l.read n = ⟨l.unread.drop n, l.log ++ [.got (l.unread.take n)]⟩ := by
      rw [ListTty.read, if_neg]
      rw [not_or]
      exact ⟨by omega, hne⟩
    rw [hread]
    constructor
    · rwa [TtyRun.reader, hr]
    · rw [TtyRun.reader, hr, hd, h.unread]
    · rw [TtyRun.reader, he, h.eof]
    · rw [TtyRun.reader, ho, ht, h.unread, h.log]
  · rw [h.eof] at he
    cases he
  · have hnil : l.unread = [] := by
      rw [← h.unread]
      exact List.eq_nil_of_length_eq_zero (by rw [contents_length, hs])
    have hread : l.read n = l := by rw [ListTty.read, if_pos (Or.inr hnil)]
    rw [hread]
    constructor
    · rw [TtyRun.reader, hsame.1]
      exact h.wf
    · rw [TtyRun.reader, hsame.1, h.unread]
    · rw [TtyRun.reader, hsame.2, h.eof]
    · rw [TtyRun.reader, ho, List.append_nil, h.log]

lemma ActsAs.step {l : ListTty} (h : ActsAs σ l) (he : e.Plain) : ActsAs (σ.step e) (l.step e) := by
  cases e with
  | push exec c =>
    obtain ⟨hr, heof⟩ := ttyPushChar_char σ.k exec he.1 he.2
    obtain ⟨hw, hc⟩ := h.wf.overwrite c
    have hlen : σ.k.tty.ring.size = l.unread.length := by rw [← contents_length, h.unread]
    constructor
    · rw [TtyRun.step, hr]
      exact hw
    · rw [TtyRun.step, ListTty.step, hr, hc, hlen, h.unread]
    · rw [TtyRun.step, heof, h.eof]
    · rw [TtyRun.step, if_neg he.2, h.log]
      rfl
  | read exec n =>
    rw [TtyRun.step, ListTty.step, ttyRead]
    by_cases hn : n ≤ 0
    · rw [if_pos hn, show n.toNat = 0 by omega, ListTty.read, if_pos (Or.inl rfl)]
      exact ⟨h.wf, h.unread, h.eof, by rw [TtyRun.reader, h.log]; exact List.append_nil _⟩
    · rw [if_neg hn]
      exact h.reader (by omega) exec
  | resume exec n =>
    rw [TtyRun.step, ListTty.step]
    by_cases hn : n = 0
    · rw [if_pos hn, ListTty.read, if_pos (Or.inl hn)]
      exact h
    · rw [if_neg hn]
      exact h.reader (by omega) exec
  | elsewhere k' => exact ⟨h.wf, h.unread, h.eof, h.log⟩

lemma ActsAs.run {l : ListTty} (h : ActsAs σ l) (he : ∀ e ∈ es, e.Plain) :
    ActsAs (σ.run es) (l.run es) := by
  induction es generalizing σ l with
  | nil => exact h
  | cons e es ih =>
    exact ih (h.step (he e List.mem_cons_self)) fun e' h' => he e' (List.mem_cons_of_mem e h')

lemma ttyFresh_wf (h : TtyFresh k) : k.tty.ring.Wf := by
  constructor
  · rw [h.size]
    exact Nat.zero_le _
  · rw [h.head]
    decide
  · rw [h.tail, h.head, h.size]
    rfl

lemma ttyFresh_contents (h : TtyFresh k) : k.tty.ring.contents = [] :=
  List.eq_nil_of_length_eq_zero (by rw [contents_length, h.size])

/-- However characters are typed and read, the ring holds what the
list machine holds, readers get what it gives, and the indices stay in the ring. -/
theorem tty_acts_as_list (hk : TtyFresh k) (he : ∀ e ∈ es, e.Plain) :
    ((⟨k, []⟩ : TtyRun).run es).k.tty.ring.contents = ((⟨[], []⟩ : ListTty).run es).unread ∧
      ((⟨k, []⟩ : TtyRun).run es).log = ((⟨[], []⟩ : ListTty).run es).log ∧
      ((⟨k, []⟩ : TtyRun).run es).k.tty.ring.size ≤ 256 ∧
      ((⟨k, []⟩ : TtyRun).run es).k.tty.ring.r < 256 ∧
      ((⟨k, []⟩ : TtyRun).run es).k.tty.ring.w < 256 ∧
      ((⟨k, []⟩ : TtyRun).run es).k.tty.ring.w =
        (((⟨k, []⟩ : TtyRun).run es).k.tty.ring.r +
          ((⟨k, []⟩ : TtyRun).run es).k.tty.ring.size) % 256 := by
  have hstart : ActsAs ⟨k, []⟩ ⟨[], []⟩ := ⟨ttyFresh_wf hk, ttyFresh_contents hk, hk.eof, rfl⟩
  have h := hstart.run he
  exact ⟨h.unread, h.log, h.wf.size_le, h.wf.r_lt, h.wf.w_lt, h.wf.w_eq⟩

/-- Two characters are typed, and one of them is read. -/
theorem tty_acts_as_list_sample :
    ((⟨kernelZero fun _ => false, []⟩ : TtyRun).run [.push 0 97, .push 0 98, .read 0 1]).log =
      [.key 97, .key 98, .got [97]] :=
  (tty_acts_as_list (k := kernelZero fun _ => false) ⟨rfl, rfl, rfl, rfl⟩
    (by simp [TtyEvent.Plain])).2.1

lemma typedChars_append (l l' : List TtyEntry) :
    typedChars (l ++ l') = typedChars l ++ typedChars l' := List.flatMap_append

lemma returnedBytes_append (l l' : List TtyEntry) :
    returnedBytes (l ++ l') = returnedBytes l ++ returnedBytes l' := List.flatMap_append

lemma lastKey_concat (log : List TtyEntry) (x : TtyEntry) :
    lastKey (log ++ [x]) = if x.isKey then some x else lastKey log := by
  rw [lastKey, List.filter_append]
  by_cases hx : x.isKey = true
  · rw [if_pos hx, List.filter_cons_of_pos hx, List.filter_nil, List.getLast?_concat]
  · rw [if_neg hx, List.filter_cons_of_neg hx, List.filter_nil, List.append_nil, lastKey]

/-- Where the last key is. -/
lemma exists_lastKey {x : TtyEntry} (h : lastKey log = some x) :
    ∃ pre post, log = pre ++ x :: post ∧ ∀ y ∈ post, y.isKey = false := by
  induction log using List.reverseRecOn with
  | nil => cases h
  | append_singleton log y ih =>
    rw [lastKey_concat] at h
    split at h
    · cases h
      exact ⟨log, [], rfl, by simp⟩
    · rename_i hy
      obtain ⟨pre, post, rfl, hpost⟩ := ih h
      refine ⟨pre, post ++ [y], by simp, ?_⟩
      intro z hz
      obtain hz | hz := List.mem_append.mp hz
      · exact hpost z hz
      · rw [List.mem_singleton.mp hz]
        simpa using hy

/-- No character is typed behind the Ctrl-D. -/
lemma lastKey_of_chars {pre post : List TtyEntry} (h : typedChars post = []) :
    lastKey (pre ++ .eofKey :: post) = some .eofKey := by
  induction post using List.reverseRecOn with
  | nil => exact lastKey_concat pre .eofKey
  | append_singleton post y ih =>
    rw [typedChars_append, List.append_eq_nil_iff] at h
    rw [show pre ++ .eofKey :: (post ++ [y]) = pre ++ .eofKey :: post ++ [y] by simp,
      lastKey_concat]
    cases y with
    | key c => simp [typedChars] at h
    | eofKey => rfl
    | got bytes => exact ih h.1
    | zero => exact ih h.1

lemma typedChars_eq_nil {l : List TtyEntry} (h : ∀ y ∈ l, y.isKey = false) : typedChars l = [] := by
  rw [typedChars, List.flatMap_eq_nil_iff]
  intro y hy
  cases y with
  | key c => cases h _ hy
  | eofKey => rfl
  | got bytes => rfl
  | zero => rfl

lemma eofMatches_left {l : List TtyEntry} {f : Nat → Nat} (h : EofMatches (log ++ l) f) :
    EofMatches log f := by
  have hlt : ∀ j : Nat, log[j]? = some TtyEntry.zero → j < log.length := by
    intro j hj
    rw [List.getElem?_eq_some_iff] at hj
    exact hj.1
  have hin : ∀ j : Nat, log[j]? = some TtyEntry.zero → (log ++ l)[j]? = some TtyEntry.zero := by
    intro j hj
    rw [List.getElem?_append_left (hlt j hj), hj]
  constructor
  · intro j hj
    obtain ⟨h1, h2⟩ := h.eofKey j (hin j hj)
    have hj' := hlt j hj
    rw [List.getElem?_append_left (by omega)] at h2
    exact ⟨h1, h2⟩
  · intro j hj
    have h1 := (h.eofKey j (hin j hj)).1
    have h2 := h.chars j (hin j hj)
    have hj' := hlt j hj
    rwa [List.take_append_of_le_length (by omega), List.take_append_of_le_length (by omega)] at h2
  · intro i j hi hj
    exact h.distinct i j (hin i hi) (hin j hj)

/-- Nothing has to be matched for another entry. -/
lemma eofInOrder_concat {x : TtyEntry} (h : EofInOrder log) (hx : x ≠ .zero) :
    EofInOrder (log ++ [x]) := by
  obtain ⟨f, hf⟩ := h
  have hin : ∀ j : Nat, (log ++ [x])[j]? = some TtyEntry.zero →
      j < log.length ∧ log[j]? = some TtyEntry.zero := by
    intro j hj
    by_cases hlt : j < log.length
    · rw [List.getElem?_append_left hlt] at hj
      exact ⟨hlt, hj⟩
    · obtain ⟨hle, hj'⟩ := List.getElem?_eq_some_iff.mp hj
      rw [List.length_append, List.length_singleton] at hle
      rw [List.getElem_append_right (by omega), List.getElem_singleton] at hj'
      exact absurd hj' hx
  refine ⟨f, ?_, ?_, ?_⟩
  · intro j hj
    obtain ⟨hlt, hj⟩ := hin j hj
    obtain ⟨h1, h2⟩ := hf.eofKey j hj
    rw [List.getElem?_append_left (by omega)]
    exact ⟨h1, h2⟩
  · intro j hj
    obtain ⟨hlt, hj⟩ := hin j hj
    have h1 := (hf.eofKey j hj).1
    rw [List.take_append_of_le_length (by omega), List.take_append_of_le_length (by omega)]
    exact hf.chars j hj
  · intro i j hi hj
    exact hf.distinct i j (hin i hi).2 (hin j hj).2

/-- A zero behind its own Ctrl-D, all of whose characters have been returned. -/
lemma eofInOrder_zero {pre post : List TtyEntry} (h : EofInOrder log)
    (hlog : log = pre ++ .eofKey :: post)
    (hzero : ∀ j : Nat, log[j]? = some TtyEntry.zero → j < pre.length)
    (hchars : returnedBytes log = typedChars pre) : EofInOrder (log ++ [.zero]) := by
  obtain ⟨f, hf⟩ := h
  have hlen : pre.length < log.length := by
    rw [hlog, List.length_append, List.length_cons]
    omega
  have hkey : log[pre.length]? = some TtyEntry.eofKey := by
    rw [hlog, List.getElem?_append_right (le_refl _), Nat.sub_self]
    rfl
  have htake : log.take pre.length = pre := by rw [hlog, List.take_left]
  have hin : ∀ j : Nat, (log ++ [.zero])[j]? = some TtyEntry.zero →
      j = log.length ∨ j < log.length ∧ log[j]? = some TtyEntry.zero := by
    intro j hj
    by_cases hlt : j < log.length
    · rw [List.getElem?_append_left hlt] at hj
      exact Or.inr ⟨hlt, hj⟩
    · have hle := (List.getElem?_eq_some_iff.mp hj).1
      rw [List.length_append, List.length_singleton] at hle
      exact Or.inl (by omega)
  refine ⟨Function.update f log.length pre.length, ?_, ?_, ?_⟩
  · intro j hj
    obtain rfl | ⟨hlt, hj⟩ := hin j hj
    · rw [Function.update_self, List.getElem?_append_left hlen]
      exact ⟨hlen, hkey⟩
    · obtain ⟨h1, h2⟩ := hf.eofKey j hj
      rw [Function.update_of_ne (by omega), List.getElem?_append_left (by omega)]
      exact ⟨h1, h2⟩
  · intro j hj
    obtain rfl | ⟨hlt, hj⟩ := hin j hj
    · rw [Function.update_self, List.take_left, List.take_append_of_le_length hlen.le, htake,
        hchars]
    · have h1 := (hf.eofKey j hj).1
      rw [Function.update_of_ne (by omega), List.take_append_of_le_length (by omega),
        List.take_append_of_le_length (by omega)]
      exact hf.chars j hj
  · intro i j hi hj he
    obtain rfl | ⟨hlt, hi⟩ := hin i hi
    · obtain rfl | ⟨hlt', hj⟩ := hin j hj
      · rfl
      · rw [Function.update_self, Function.update_of_ne (by omega)] at he
        have h1 := (hf.eofKey j hj).1
        have h2 := hzero j hj
        omega
    · obtain rfl | ⟨hlt', hj⟩ := hin j hj
      · rw [Function.update_self, Function.update_of_ne (by omega)] at he
        have h1 := (hf.eofKey i hi).1
        have h2 := hzero i hi
        omega
      · rw [Function.update_of_ne (by omega), Function.update_of_ne (by omega)] at he
        exact hf.distinct i j hi hj he

/-- Without an overflow, what was typed is what was returned and what is still held. -/
structure TtyFifo (σ : TtyRun) : Prop where
  wf : σ.k.tty.ring.Wf
  chars : typedChars σ.log = returnedBytes σ.log ++ σ.k.tty.ring.contents

/-- Behind a Ctrl-D whose end-of-file is pending no zero has been read. -/
def PendingBehind (σ : TtyRun) : Prop :=
  σ.k.tty.eof = true → ∃ i : Nat, σ.log[i]? = some TtyEntry.eofKey ∧
    ∀ j : Nat, σ.log[j]? = some TtyEntry.zero → j < i

/-- What one event does to the terminal. -/
inductive TtyStep (σ σ' : TtyRun) : TtyEvent → Prop
  | key (exec : Slot) (c : UInt8) (hlog : σ'.log = σ.log ++ [.key c])
      (hring : σ'.k.tty.ring = σ.k.tty.ring.put c) (heof : σ'.k.tty.eof = σ.k.tty.eof)
      (hroom : σ.k.tty.ring.size < ttyBufferCap) : TtyStep σ σ' (.push exec c)
  | eofKey (exec : Slot) (hlog : σ'.log = σ.log ++ [.eofKey])
      (hring : σ'.k.tty.ring = σ.k.tty.ring) : TtyStep σ σ' (.push exec 4)
  | got (e : TtyEvent) (m : Nat) (hm : m ≤ σ.k.tty.ring.size)
      (hlog : σ'.log = σ.log ++ [.got (σ.k.tty.ring.takeList m).1])
      (hring : σ'.k.tty.ring = (σ.k.tty.ring.takeList m).2)
      (heof : σ'.k.tty.eof = σ.k.tty.eof) (hcond : σ.ReadsEofLast e) : TtyStep σ σ' e
  | zero (e : TtyEvent) (hsize : σ.k.tty.ring.size = 0) (hpending : σ.k.tty.eof = true)
      (hlog : σ'.log = σ.log ++ [.zero]) (hring : σ'.k.tty.ring = σ.k.tty.ring)
      (heof : σ'.k.tty.eof = false)
      (hcond : σ.ReadsEofLast e ↔ lastKey σ.log = some .eofKey) : TtyStep σ σ' e
  | none (e : TtyEvent) (hlog : σ'.log = σ.log) (hsame : SameInput σ.k σ'.k)
      (hcond : σ.ReadsEofLast e) : TtyStep σ σ' e

/-- A reader in the loop. -/
lemma reader_step (e : TtyEvent) (hcond : σ.ReadsEofLast e ↔ σ.EofLast) (exec : Slot) (n : Nat) :
    TtyStep σ (σ.reader (ttyReadLoop exec n 2 σ.k)) e := by
  obtain ⟨hs, hr, he, ho⟩ | ⟨hs, he, hr, hf, ho⟩ | ⟨hs, he, hsame, ho⟩ :=
    ttyReadLoop_cases exec n 1 σ.k
  · refine .got e (min σ.k.tty.ring.size n) (Nat.min_le_left _ _) ?_ hr he ?_
    · rw [TtyRun.reader, ho]
    · rw [hcond]
      intro h0
      omega
  · refine .zero e hs he ?_ hr hf ?_
    · rw [TtyRun.reader, ho]
    · rw [hcond]
      exact ⟨fun h => h hs he, fun h _ _ => h⟩
  · refine .none e ?_ hsame ?_
    · rw [TtyRun.reader, ho, List.append_nil]
    · rw [hcond]
      intro _ h
      rw [he] at h
      cases h

lemma tty_step (hroom : σ.Roomy e) : TtyStep σ (σ.step e) e := by
  cases e with
  | push exec c =>
    by_cases h4 : c = 4
    · subst h4
      exact .eofKey exec rfl (ttyPushChar_eof σ.k exec).1
    · obtain ⟨hr, he⟩ := ttyPushChar_char σ.k exec hroom.1 h4
      have hsize := hroom.2 h4
      rw [if_neg (by omega)] at hr
      refine .key exec c ?_ hr he hsize
      rw [TtyRun.step, if_neg h4]
  | read exec n =>
    rw [TtyRun.step, ttyRead]
    by_cases hn : n ≤ 0
    · rw [if_pos hn]
      exact .none _ (List.append_nil _) ⟨rfl, rfl⟩ fun h0 => absurd h0 (by omega)
    · rw [if_neg hn]
      exact reader_step (.read exec n) ⟨fun h => h (by omega), fun h _ => h⟩ exec n.toNat
  | resume exec n =>
    rw [TtyRun.step]
    by_cases hn : n = 0
    · rw [if_pos hn]
      exact .none _ rfl ⟨rfl, rfl⟩ fun h0 => absurd h0 (by omega)
    · rw [if_neg hn]
      exact reader_step (.resume exec n) ⟨fun h => h (by omega), fun h _ => h⟩ exec n
  | elsewhere k' => exact .none _ rfl ⟨rfl, rfl⟩ trivial

variable {σ' : TtyRun}

lemma TtyFifo.step (h : TtyFifo σ) (hs : TtyStep σ σ' e) : TtyFifo σ' := by
  cases hs with
  | key exec c hlog hring heof hroom =>
    constructor
    · rw [hring]
      exact h.wf.put hroom c
    · rw [hlog, hring, h.wf.contents_put hroom, typedChars_append, returnedBytes_append, h.chars,
        ← List.append_assoc]
      simp [typedChars, returnedBytes]
  | eofKey exec hlog hring =>
    constructor
    · rw [hring]
      exact h.wf
    · rw [hlog, hring, typedChars_append, returnedBytes_append, h.chars]
      simp [typedChars, returnedBytes]
  | got _ m hm hlog hring heof hcond =>
    obtain ⟨hw, hc, -⟩ := h.wf.takeList m hm
    constructor
    · rw [hring]
      exact hw
    · rw [hlog, hring, typedChars_append, returnedBytes_append, h.chars, hc]
      simp [typedChars, returnedBytes]
  | zero _ hsize hpending hlog hring heof hcond =>
    constructor
    · rw [hring]
      exact h.wf
    · rw [hlog, hring, typedChars_append, returnedBytes_append, h.chars]
      simp [typedChars, returnedBytes]
  | none _ hlog hsame hcond =>
    constructor
    · rw [hsame.1]
      exact h.wf
    · rw [hlog, hsame.1, h.chars]

lemma PendingBehind.step (h : PendingBehind σ) (hs : TtyStep σ σ' e) : PendingBehind σ' := by
  have hkeep : ∀ x : TtyEntry, x ≠ .zero → σ'.log = σ.log ++ [x] → σ'.k.tty.eof = σ.k.tty.eof →
      PendingBehind σ' := by
    intro x hx hlog heof he
    obtain ⟨i, hi, hzero⟩ := h (heof ▸ he)
    have hlt := (List.getElem?_eq_some_iff.mp hi).1
    rw [hlog]
    refine ⟨i, by rw [List.getElem?_append_left hlt, hi], ?_⟩
    intro j hj
    rw [List.getElem?_append] at hj
    split at hj
    · exact hzero j hj
    · rw [List.getElem?_singleton] at hj
      split at hj
      · exact absurd (Option.some_inj.mp hj) hx
      · cases hj
  cases hs with
  | key exec c hlog hring heof hroom => exact hkeep _ (by simp) hlog heof
  | got _ m hm hlog hring heof hcond => exact hkeep _ (by simp) hlog heof
  | eofKey exec hlog hring =>
    intro _
    rw [hlog]
    refine ⟨σ.log.length, List.getElem?_concat_length, ?_⟩
    intro j hj
    by_contra hle
    rw [List.getElem?_append_right (by omega), List.getElem?_singleton] at hj
    split at hj
    · cases hj
    · cases hj
  | zero _ hsize hpending hlog hring heof hcond =>
    intro he
    rw [heof] at he
    cases he
  | none _ hlog hsame hcond =>
    intro he
    rw [hlog]
    exact h (hsame.2 ▸ he)

lemma TtyStep.log_eq (hs : TtyStep σ σ' e) : ∃ l, σ'.log = σ.log ++ l := by
  cases hs with
  | key exec c hlog hring heof hroom => exact ⟨_, hlog⟩
  | eofKey exec hlog hring => exact ⟨_, hlog⟩
  | got _ m hm hlog hring heof hcond => exact ⟨_, hlog⟩
  | zero _ hsize hpending hlog hring heof hcond => exact ⟨_, hlog⟩
  | none _ hlog hsame hcond => exact ⟨[], by rw [hlog, List.append_nil]⟩

/-- At an empty ring all characters have been returned. -/
lemma TtyFifo.drained (h : TtyFifo σ) (h0 : σ.k.tty.ring.size = 0) :
    returnedBytes σ.log = typedChars σ.log := by
  have hnil : σ.k.tty.ring.contents = [] :=
    List.eq_nil_of_length_eq_zero (by rw [contents_length, h0])
  rw [h.chars, hnil, List.append_nil]

lemma order_step (hf : TtyFifo σ) (hp : PendingBehind σ) (hs : TtyStep σ σ' e)
    (ho : EofInOrder σ.log) (hc : σ.ReadsEofLast e) : EofInOrder σ'.log := by
  cases hs with
  | key exec c hlog hring heof hroom => exact hlog ▸ eofInOrder_concat ho (by simp)
  | eofKey exec hlog hring => exact hlog ▸ eofInOrder_concat ho (by simp)
  | got _ m hm hlog hring heof hcond => exact hlog ▸ eofInOrder_concat ho (by simp)
  | none _ hlog hsame hcond => exact hlog ▸ ho
  | zero _ hsize hpending hlog hring heof hcond =>
    obtain ⟨pre, post, hsplit, hpost⟩ := exists_lastKey (hcond.mp hc)
    obtain ⟨i, hi, hzero⟩ := hp hpending
    have hle : i ≤ pre.length := by
      by_contra hlt
      rw [hsplit, List.getElem?_append_right (by omega)] at hi
      obtain ⟨m, hm⟩ : ∃ m, i - pre.length = m + 1 := ⟨i - pre.length - 1, by omega⟩
      rw [hm, List.getElem?_cons_succ] at hi
      cases hpost _ (List.mem_of_getElem? hi)
    rw [hlog]
    apply eofInOrder_zero ho hsplit
    · intro j hj
      exact (hzero j hj).trans_le hle
    · rw [hf.drained hsize, hsplit, typedChars_append,
        show TtyEntry.eofKey :: post = [.eofKey] ++ post from rfl, typedChars_append,
        typedChars_eq_nil hpost]
      simp [typedChars]

lemma order_step_back (hf : TtyFifo σ) (hs : TtyStep σ σ' e) (ho : EofInOrder σ'.log) :
    σ.ReadsEofLast e := by
  cases hs with
  | key exec c hlog hring heof hroom => trivial
  | eofKey exec hlog hring => trivial
  | got _ m hm hlog hring heof hcond => exact hcond
  | none _ hlog hsame hcond => exact hcond
  | zero _ hsize hpending hlog hring heof hcond =>
    rw [hcond]
    obtain ⟨f, hf'⟩ := ho
    rw [hlog] at hf'
    have hj : (σ.log ++ [.zero])[σ.log.length]? = some TtyEntry.zero := List.getElem?_concat_length
    obtain ⟨h1, h2⟩ := hf'.eofKey _ hj
    have h3 := hf'.chars _ hj
    rw [List.getElem?_append_left h1] at h2
    rw [List.take_left, List.take_append_of_le_length h1.le, hf.drained hsize] at h3
    have hsplit : σ.log.take (f σ.log.length) ++
        TtyEntry.eofKey :: σ.log.drop (f σ.log.length + 1) = σ.log := by
      obtain ⟨hlt, hget⟩ := List.getElem?_eq_some_iff.mp h2
      rw [← hget, ← List.drop_eq_getElem_cons hlt, List.take_append_drop]
    generalize σ.log.take (f σ.log.length) = pre at h3 hsplit
    generalize σ.log.drop (f σ.log.length + 1) = post at hsplit
    rw [← hsplit] at h3 ⊢
    apply lastKey_of_chars
    rw [typedChars_append, show TtyEntry.eofKey :: post = [.eofKey] ++ post from rfl,
      typedChars_append] at h3
    simpa [typedChars] using h3

lemma run_log (hr : Along Roomy σ es) : ∃ l, (σ.run es).log = σ.log ++ l := by
  induction es generalizing σ with
  | nil => exact ⟨[], (List.append_nil _).symm⟩
  | cons e es ih =>
    obtain ⟨l, hl⟩ := ih hr.2
    obtain ⟨l', hl'⟩ := (tty_step hr.1).log_eq
    refine ⟨l' ++ l, ?_⟩
    rw [← List.append_assoc, ← hl']
    exact hl

lemma order_run (hf : TtyFifo σ) (hp : PendingBehind σ) (hr : Along Roomy σ es)
    (ho : EofInOrder σ.log) : EofInOrder (σ.run es).log ↔ Along ReadsEofLast σ es := by
  induction es generalizing σ with
  | nil => exact iff_of_true ho trivial
  | cons e es ih =>
    have hs := tty_step hr.1
    constructor
    · intro hall
      obtain ⟨l, hl⟩ := run_log hr.2
      have hnext : EofInOrder (σ.step e).log := by
        obtain ⟨f, hf'⟩ := hall
        exact ⟨f, eofMatches_left (hl ▸ hf')⟩
      exact ⟨order_step_back hf hs hnext, (ih (hf.step hs) (hp.step hs) hr.2 hnext).mp hall⟩
    · rintro ⟨hc, hrest⟩
      exact (ih (hf.step hs) (hp.step hs) hr.2 (order_step hf hp hs ho hc)).mpr hrest

/-- In a run without an overflow, end-of-file is delivered in order exactly when
every reader that gets it finds that the last key was Ctrl-D. -/
theorem eof_in_order (hk : TtyFresh k) (hr : Along Roomy ⟨k, []⟩ es) :
    EofInOrder ((⟨k, []⟩ : TtyRun).run es).log ↔ Along ReadsEofLast ⟨k, []⟩ es := by
  apply order_run _ _ hr
  · exact ⟨id, by simp, by simp, by simp⟩
  · exact ⟨ttyFresh_wf hk, by rw [ttyFresh_contents hk]; rfl⟩
  · intro he
    rw [hk.eof] at he
    cases he

/-- A character, Ctrl-D, and two reads. -/
theorem eof_in_order_sample :
    EofInOrder ((⟨kernelZero fun _ => false, []⟩ : TtyRun).run
      [.push 0 97, .push 0 4, .read 0 1, .read 0 1]).log :=
  have hroom : Along Roomy ⟨kernelZero fun _ => false, []⟩
      [.push 0 97, .push 0 4, .read 0 1, .read 0 1] :=
    ⟨⟨by decide, fun _ => by decide⟩, ⟨by decide, fun h => absurd rfl h⟩, trivial, trivial, trivial⟩
  (eof_in_order (k := kernelZero fun _ => false) ⟨rfl, rfl, rfl, rfl⟩ hroom).mpr
    ⟨trivial, trivial, fun _ h => absurd h (by decide), fun _ _ _ => by decide, trivial⟩

/-- A character is typed behind Ctrl-D, and returned before the 0. -/
theorem typed_behind_eof :
    ¬EofInOrder ((⟨kernelZero fun _ => false, []⟩ : TtyRun).run
      [.push 0 97, .push 0 4, .push 0 98, .read 0 2, .read 0 1]).log := by
  have hlog : ((⟨kernelZero fun _ => false, []⟩ : TtyRun).run
      [.push 0 97, .push 0 4, .push 0 98, .read 0 2, .read 0 1]).log =
      [.key 97, .eofKey, .key 98, .got [97, 98], .zero] := by
    decide +kernel
  rw [hlog]
  rintro ⟨f, h⟩
  obtain ⟨h1, h2⟩ := h.eofKey 4 rfl
  have h3 := h.chars 4 rfl
  generalize f 4 = i at h1 h2 h3
  interval_cases i
  · cases h2
  · cases h3
  · cases h2
  · cases h2

end TP2Kernel.Proofs
