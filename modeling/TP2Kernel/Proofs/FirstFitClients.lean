import TP2Kernel.Proofs.FirstFitBytes

/-!
# First fit and its clients

The writes of the allocator stay out of live payloads, and none of them lets a pointer that is
not live look allocated.
-/

namespace TP2Kernel.Proofs
open Function ByteMemory FirstFitBytes

section Isolation

variable {σ σ' : FirstFitClients} {a n p q s x : Nat} {b : Cell} {bs pre post : List Cell}

/-- The payload of another cell lies outside of a free cell. -/
lemma spans_outside (h : (p, s) ∈ spans a (pre ++ b :: post)) (hb : b.isFree = true) :
    p + s ≤ a + total pre ∨ a + total pre + b.bytes ≤ p := by
  rw [spans_append, spans, if_pos hb, List.nil_append] at h
  rcases List.mem_append.mp h with h | h
  · exact .inl (spans_bound h).2
  · have := (spans_bound h).1
    omega

lemma spans_malloc (h : (p, s) ∈ spans a (pre ++ b :: post)) (hb : b.isFree = true)
    (hn : n ≤ b.size) : (p, s) ∈ spans a (pre ++ (allocated b n ++ post)) := by
  obtain ⟨t, -, ht⟩ := spans_allocated (a + total pre) post hb hn
  rw [spans_append] at h ⊢
  rw [ht]
  rcases List.mem_append.mp h with h | h
  · exact List.mem_append_left _ h
  · exact List.mem_append_right _ (List.mem_cons_of_mem _ h)

lemma spans_new (a : Nat) (pre post : List Cell) (hb : b.isFree = true) (hn : n ≤ b.size) :
    ∃ s, n ≤ s ∧ (a + total pre + headerSize, s) ∈ spans a (pre ++ (allocated b n ++ post)) := by
  obtain ⟨t, hle, ht⟩ := spans_allocated (a + total pre) post hb hn
  refine ⟨t, hle, ?_⟩
  rw [spans_append, ht]
  exact List.mem_append_right _ List.mem_cons_self

/-- The payloads of the other cells stay when a cell is freed. -/
lemma spans_free (h : (p, s) ∈ spans a (pre ++ b :: post)) (hb : b.isFree = false)
    (hne : p ≠ a + total pre + headerSize) : (p, s) ∈ spans a (pre ++ ⟨b.size, true⟩ :: post) := by
  rw [spans_append] at h ⊢
  rcases List.mem_append.mp h with h | h
  · exact List.mem_append_left _ h
  · rw [spans, hb] at h
    rcases List.mem_append.mp h with h | h
    · exact absurd (Prod.mk.inj (List.mem_singleton.mp h)).1 hne
    · exact List.mem_append_right _ h

lemma HeapLayout.byteAddr {h : FirstFitBytes} {i : Nat} (hl : HeapLayout h a bs)
    (hp : (p, s) ∈ spans a bs) (hi : i < s) : byteAddr p i = p + i := by
  have h1 := (spans_bound hp).2
  have h2 := hl.end_eq
  have h3 := hl.bound
  exact Nat.mod_eq_of_lt (by omega)

/-- Every live allocation has a cell that is large enough, and the payload holds what its
owner stored. -/
structure Isolated (σ : FirstFitClients) (a : Nat) (bs : List Cell) : Prop where
  layout : HeapLayout σ.h a bs
  live : ∀ l ∈ σ.live, ∃ s, (l.ptr, s) ∈ spans a bs ∧ l.size ≤ s ∧
    ∀ i < l.size, σ.h.mem (l.ptr + i) = l.content i

/-- No request is so large that rounding it up wraps a `size_t`; only live pointers are
freed. -/
def FirstFitRequest (σ : FirstFitClients) : FirstFitClientEvent → Prop
  | .malloc n => n + 7 < sizeMod
  | .free (some p) => σ.IsLive p
  | _ => True

lemma isolated_malloc (h : Isolated σ a bs) (hn : n + 7 < sizeMod)
    (hs : σ.step (.malloc n) = some σ') : ∃ bs', Isolated σ' a bs' := by
  unfold FirstFitClients.step at hs
  dsimp only at hs
  rcases h.layout.malloc n with e | ⟨pre, b, post, rfl, hb, hsize, e⟩
  · rw [e] at hs
    obtain rfl := Option.some.inj hs
    exact ⟨bs, h⟩
  · rw [e] at hs
    obtain rfl := Option.some.inj hs
    obtain ⟨h1, h2⟩ := h.layout.mallocAt hb hsize (mallocSize_mod n)
    refine ⟨_, h1, ?_⟩
    intro l hl
    rcases List.mem_cons.mp hl with rfl | hl
    · obtain ⟨s, hle, hsp⟩ := spans_new a pre post hb hsize
      have hns : n ≤ s := (mallocSize_ge hn).trans hle
      refine ⟨s, hsp, hns, fun i hi => ?_⟩
      have hi' : i < n := hi
      show _ = (mallocAt σ.h _ _).mem (TP2Kernel.byteAddr _ i)
      rw [h1.byteAddr hsp (by omega)]
    · obtain ⟨s, hsp, hle, hc⟩ := h.live l hl
      refine ⟨s, spans_malloc hsp hb hsize, hle, fun i hi => ?_⟩
      have hout := spans_outside hsp hb
      rw [← hc i hi]
      exact h2 _ (by omega)

lemma isolated_free (h : Isolated σ a bs) (hp : σ.IsLive p)
    (hs : σ.step (.free (some p)) = some σ') : ∃ bs', Isolated σ' a bs' := by
  obtain ⟨l, hl, rfl⟩ := hp
  obtain ⟨s, hsp, -, -⟩ := h.live l hl
  obtain ⟨pre, b, post, rfl, hb, hptr, rfl⟩ := mem_spans hsp
  unfold FirstFitClients.step at hs
  dsimp only at hs
  split_ifs at hs
  obtain rfl := Option.some.inj hs
  rw [hptr]
  -- coalescing writes headers, and no header shares a byte with a payload
  have hkeep : ∀ mem c s nx, c ∈ addrs a (pre ++ b :: post) → s ≤ total (pre ++ b :: post) →
      (∀ y, nx = some y → y ∈ addrs a (pre ++ b :: post)) →
      (∀ q t, (q, t) ∈ spans a (pre ++ ⟨b.size, true⟩ :: post) → ∀ x, q ≤ x → x < q + t →
        mem x = σ.h.mem x) →
      ∀ q t, (q, t) ∈ spans a (pre ++ ⟨b.size, true⟩ :: post) → ∀ x, q ≤ x → x < q + t →
        mergedBytes mem c s nx x = σ.h.mem x := by
    intro mem c s nx hc _ _ hm q t hq x h1 h2
    rw [addrs_append] at hc
    have hap := spans_header hq (d := c) (by rw [addrs_append]; exact hc)
    rw [writes_merged mem c s nx x (by omega)]
    exact hm q t hq x h1 h2
  have hclear : ∀ q t, (q, t) ∈ spans a (pre ++ ⟨b.size, true⟩ :: post) → ∀ x, q ≤ x →
      x < q + t → clearedBytes σ.h.mem (a + total pre) b.size x = σ.h.mem x := by
    intro q t hq x h1 h2
    have hout := spans_outside hq rfl
    rw [bytes_mk] at hout
    apply clearedBytes_apart
    omega
  obtain ⟨h1, h2⟩ := h.layout.free hb hkeep hclear
  refine ⟨_, h1, ?_⟩
  intro l' hl'
  obtain ⟨hl', hne⟩ := List.mem_filter.mp hl'
  have hne' : l'.ptr ≠ a + total pre + headerSize := by
    simpa using hne
  obtain ⟨s', hsp', hle, hc⟩ := h.live l' hl'
  have hsp2 := spans_free hsp' hb hne'
  refine ⟨s', by rwa [spans_coalesce], hle, fun i hi => ?_⟩
  rw [← hc i hi]
  exact h2 _ _ hsp2 _ (by omega) (by omega)

lemma isolated_write {i : Nat} {v : UInt8} (h : Isolated σ a bs)
    (hs : σ.step (.write p i v) = some σ') : Isolated σ' a bs := by
  unfold FirstFitClients.step at hs
  dsimp only at hs
  split_ifs at hs with hany
  obtain rfl := Option.some.inj hs
  obtain ⟨l, hl, hw⟩ := List.any_eq_true.mp hany
  obtain ⟨rfl, hi⟩ := of_decide_eq_true hw
  obtain ⟨s, hsp, hle, -⟩ := h.live l hl
  have haddr := h.layout.byteAddr hsp (hi.trans_le hle)
  rw [haddr]
  refine ⟨⟨h.layout.initialized, h.layout.start, h.layout.cells, ?_, h.layout.size, h.layout.pos,
    h.layout.bound, h.layout.aligned⟩, ?_⟩
  · apply holds_congr _ h.layout.holds
    intro c hc
    have hap := spans_header hsp hc
    apply header_congr
    intro y h1 h2
    exact update_of_ne (by omega) _ _
  · intro l' hl'
    obtain ⟨l0, hl0, rfl⟩ := List.mem_map.mp hl'
    obtain ⟨s0, hsp0, hle0, hc0⟩ := h.live l0 hl0
    by_cases hp : l0.ptr = l.ptr
    · rw [if_pos hp]
      refine ⟨s0, hsp0, hle0, fun j hj => ?_⟩
      show update σ.h.mem (l.ptr + i) v (l0.ptr + j) = update l0.content i v j
      rw [hp]
      by_cases hij : j = i
      · rw [hij, update_self, update_self]
      · rw [update_of_ne (by omega), update_of_ne hij, ← hp]
        exact hc0 j hj
    · rw [if_neg hp]
      refine ⟨s0, hsp0, hle0, fun j hj => ?_⟩
      have hne : l0.ptr + j ≠ l.ptr + i := by
        intro he
        have hj' : j < l0.size := hj
        exact hp (spans_unique (x := l0.ptr + j) hsp0 hsp (by omega) (by omega) (by omega)
          (by omega))
      show update σ.h.mem (l.ptr + i) v (l0.ptr + j) = _
      rw [update_of_ne hne]
      exact hc0 j hj

lemma isolated_step {e : FirstFitClientEvent} (h : Isolated σ a bs) (hc : FirstFitRequest σ e)
    (hs : σ.step e = some σ') : ∃ bs', Isolated σ' a bs' := by
  match e, hc with
  | .malloc n, hc => exact isolated_malloc h hc hs
  | .free none, _ =>
    obtain rfl := Option.some.inj hs
    exact ⟨bs, h⟩
  | .free (some p), hc => exact isolated_free h hc hs
  | .write p i v, _ => exact ⟨bs, isolated_write h hs⟩

end Isolation

/-- In a run without requests that wrap a `size_t`, every live payload holds what its owner
has stored there since it was allocated. -/
theorem payloads_isolated {σ : FirstFitClients}
    (h : Transition.Reach FirstFitClients.Start FirstFitClients.step FirstFitRequest σ) :
    ∀ l ∈ σ.live, ∀ i < l.size, σ.h.mem (byteAddr l.ptr i) = l.content i := by
  have hi : ∃ a bs, Isolated σ a bs := by
    apply h.invariant (I := fun σ => ∃ a bs, Isolated σ a bs)
    · intro σ hs
      obtain ⟨a, bs, hl, he, -⟩ := start_layout hs
      refine ⟨a, bs, hl, fun l hm => ?_⟩
      rw [he] at hm
      cases hm
    · rintro σ e σ' ⟨a, bs, hI⟩ hc hs
      exact ⟨a, isolated_step hI hc hs⟩
  obtain ⟨a, bs, hI⟩ := hi
  intro l hl i hlt
  obtain ⟨s, hsp, hle, hc⟩ := hI.live l hl
  rw [hI.layout.byteAddr hsp (hlt.trans_le hle)]
  exact hc i hlt

/-- A heap of 4 KiB of zeros. -/
def bytesHeap : FirstFitClients :=
  ⟨FirstFitBytes.init ⟨fun _ => 0, none, 0, 0, false, 0, 0, 0⟩ 4096 4096, [], []⟩

lemma bytesHeap_start : bytesHeap.Start :=
  ⟨_, 4096, 4096, by decide, by decide, by decide, rfl⟩

/-- `FirstFitRequest` on a run, decided. -/
def firstFitRequestB (σ : FirstFitClients) : FirstFitClientEvent → Bool
  | .malloc n => decide (n + 7 < sizeMod)
  | .free (some p) => σ.live.any fun l => decide (l.ptr = p)
  | _ => true

lemma firstFitRequestB_sound {σ : FirstFitClients} {e : FirstFitClientEvent}
    (h : firstFitRequestB σ e = true) : FirstFitRequest σ e := by
  match e, h with
  | .malloc n, h => exact (of_decide_eq_true h : n + 7 < sizeMod)
  | .free none, _ => exact trivial
  | .free (some p), h =>
    obtain ⟨l, hl, hp⟩ := List.any_eq_true.mp h
    exact ⟨l, hl, of_decide_eq_true hp⟩
  | .write p i v, _ => exact trivial

/-- Two owners write, and the block between them is freed. -/
def bytesSample : FirstFitClients :=
  Transition.final FirstFitClients.step firstFitRequestB bytesHeap
    [.malloc 10, .malloc 20, .malloc 30, .write 4128 9 7, .write 4232 29 8, .free (some 4176)]

theorem payloads_isolated_sample : bytesSample.live.map Allocation.ptr = [4232, 4128] ∧
    ∀ l ∈ bytesSample.live, ∀ i < l.size, bytesSample.h.mem (byteAddr l.ptr i) = l.content i := by
  have hr : Transition.Reach FirstFitClients.Start FirstFitClients.step
      (fun σ e => firstFitRequestB σ e = true) bytesSample :=
    Transition.Reach.final _ bytesHeap_start (by decide +kernel)
  exact ⟨by decide +kernel, payloads_isolated (hr.mono fun _ _ => firstFitRequestB_sound)⟩

/-- A request of `2 ^ 64 - 1` bytes is rounded up to zero. -/
def wrappedRequest : FirstFitClients :=
  Transition.final FirstFitClients.step (fun _ _ => true) bytesHeap
    [.malloc (2 ^ 64 - 1), .malloc 16]

/-- The next `first_fit_malloc` changes a byte of the payload of that size. -/
theorem payload_overwritten :
    Transition.Reach FirstFitClients.Start FirstFitClients.step (fun _ _ => True)
      wrappedRequest ∧
    ∃ l ∈ wrappedRequest.live, l.ptr = 4128 ∧ 24 < l.size ∧
      wrappedRequest.h.mem (byteAddr l.ptr 24) ≠ l.content 24 := by
  constructor
  · have hr : Transition.Reach FirstFitClients.Start FirstFitClients.step (fun _ _ => true = true)
        wrappedRequest := Transition.Reach.final _ bytesHeap_start (by decide +kernel)
    exact hr.mono fun _ _ _ => trivial
  · have h : (wrappedRequest.live.any fun l => decide (l.ptr = 4128 ∧ 24 < l.size ∧
        wrappedRequest.h.mem (byteAddr l.ptr 24) ≠ l.content 24)) = true := by decide +kernel
    obtain ⟨l, hl, hd⟩ := List.any_eq_true.mp h
    exact ⟨l, hl, of_decide_eq_true hd⟩

section Keeps

variable {mem mem' mem'' : Nat → UInt8} {w c : Nat}

/-- The word at `w` is as before, or at least is not `BLOCK_MAGIC`. -/
def Keeps (w : Nat) (mem mem' : Nat → UInt8) : Prop :=
  readWord mem' 4 w = readWord mem 4 w ∨ readWord mem' 4 w ≠ blockMagic

lemma Keeps.trans (h1 : Keeps w mem mem') (h2 : Keeps w mem' mem'') : Keeps w mem mem'' := by
  rcases h2 with h2 | h2
  · rw [Keeps, h2]
    exact h1
  · exact .inr h2

/-- Eight bytes stored at a multiple of eight: only their low word counts. -/
lemma keeps_writeWord {v : Nat} (hw : w % 8 = 0) (hc : c % 8 = 0)
    (hv : v % 2 ^ 32 ≠ blockMagic) : Keeps w mem (writeWord mem 8 c v) := by
  by_cases h : w = c
  · right
    rw [h, ← readWord_low _ 4 4 c, readWord_writeWord]
    have hd : v % 256 ^ (4 + 4) % 256 ^ 4 = v % 2 ^ 32 := by norm_num
    rw [hd]
    exact hv
  · left
    apply readWord_writeWord_apart
    omega

lemma keeps_setSize {s : Nat} (hw : w % 8 = 0) (hc : c % 8 = 0) (hs : s < 2 ^ 31) :
    Keeps w mem (setSize mem c s) := by
  apply keeps_writeWord hw hc
  have hm : blockMagic = 3735928559 := rfl
  omega

lemma keeps_setNext {nx : Option Nat} (hw : w % 8 = 0) (hc : c % 8 = 0)
    (hx : ∀ y, nx = some y → y % 8 = 0) : Keeps w mem (setNext mem c nx) := by
  apply keeps_writeWord hw (by omega)
  have hm : blockMagic = 3735928559 := rfl
  cases nx with
  | none => decide
  | some y =>
    have := hx y rfl
    rw [Option.getD_some]
    omega

lemma keeps_setIsFree {f : Bool} (hw : w % 8 = 0) (hc : c % 8 = 0) :
    Keeps w mem (setIsFree mem c f) := by
  by_cases h : w = c + 8
  · right
    rw [h, setIsFree, readWord_writeWord, mod_int (by cases f <;> decide)]
    cases f <;> decide
  · left
    apply readWord_writeWord_apart
    omega

lemma keeps_setMagic_free (hw : w % 8 = 0) (hc : c % 8 = 0) :
    Keeps w mem (setMagic mem c freeMagic) := by
  by_cases h : w = c + 24
  · right
    rw [h, setMagic, readWord_writeWord, mod_int (by decide)]
    decide
  · left
    apply readWord_writeWord_apart
    omega

lemma keeps_setMagic {m : Nat} (hw : w % 8 = 0) (hc : c % 8 = 0) (hne : w ≠ c + 24) :
    Keeps w mem (setMagic mem c m) := by
  left
  apply readWord_writeWord_apart
  omega

lemma keeps_merged {s : Nat} {nx : Option Nat} (hw : w % 8 = 0) (hc : c % 8 = 0)
    (hs : s < 2 ^ 31) (hx : ∀ y, nx = some y → y % 8 = 0) :
    Keeps w mem (mergedBytes mem c s nx) :=
  (keeps_setSize hw hc hs).trans (keeps_setNext hw hc hx)

lemma keeps_new {s : Nat} {nx : Option Nat} (hw : w % 8 = 0) (hc : c % 8 = 0)
    (hs : s < 2 ^ 31) (hx : ∀ y, nx = some y → y % 8 = 0) :
    Keeps w mem (newBytes mem c s nx) :=
  (((keeps_setSize hw hc hs).trans (keeps_setIsFree hw hc)).trans
    (keeps_setNext hw hc hx)).trans (keeps_setMagic_free hw hc)

lemma keeps_splitBlock {n : Nat} (hw : w % 8 = 0) (hc : c % 8 = 0) (hn : n % 8 = 0)
    (hf : (header mem c).isFree = true) (hle : n ≤ (header mem c).size)
    (hs : (header mem c).size < 2 ^ 31) (hx : ∀ y, (header mem c).next = some y → y % 8 = 0) :
    Keeps w mem (splitBlock mem c n) := by
  by_cases hrem : (header mem c).size - n < headerSize + minBlockSize
  · rw [splitBlock_small hf hrem]
    exact .inl rfl
  · rw [splitBlock_large hf hrem]
    have hnew : (c + headerSize + n) % 8 = 0 := by
      rw [headerSize]
      omega
    have hnx : ∀ y, some (c + headerSize + n) = some y → y % 8 = 0 := by
      intro y hy
      rw [← Option.some.inj hy]
      exact hnew
    generalize hr : (header mem c).size - n - headerSize = r
    have hr' : r < 2 ^ 31 := by omega
    exact (keeps_new hw hnew hr' hx).trans (keeps_merged hw hc (hle.trans_lt hs) hnx)

lemma keeps_takeBytes {n : Nat} (hw : w % 8 = 0) (hc : c % 8 = 0) (hn : n % 8 = 0)
    (hf : (header mem c).isFree = true) (hle : n ≤ (header mem c).size)
    (hs : (header mem c).size < 2 ^ 31) (hx : ∀ y, (header mem c).next = some y → y % 8 = 0)
    (hne : w ≠ c + 24) : Keeps w mem (takeBytes mem c n) :=
  ((keeps_splitBlock hw hc hn hf hle hs hx).trans (keeps_setIsFree hw hc)).trans
    (keeps_setMagic hw hc hne)

/-- A word is cleared as a whole or not at all. -/
lemma keeps_fill {p n : Nat} (hw : w % 8 = 0) (hp : p % 8 = 0)
    (hend : (p + n) % 8 = 0 ∨ w + 8 ≤ p + n) : Keeps w mem (fill mem p 0 n) := by
  by_cases h : p ≤ w ∧ w + 4 ≤ p + n
  · right
    rw [readWord_fill_zero h.1 h.2]
    decide
  · left
    apply readWord_fill_apart
    omega

end Keeps

section Stale

variable {σ σ' : FirstFitClients} {h : FirstFitBytes} {a n p s w x : Nat} {b : Cell}
  {bs pre post : List Cell}

/-- Every pointer that was returned is live, or the word where the magic number of its block
was is not `BLOCK_MAGIC`. -/
structure Guarded (σ : FirstFitClients) (a : Nat) (bs : List Cell) : Prop where
  layout : HeapLayout σ.h a bs
  small : total bs < 2 ^ 31
  live : ∀ l ∈ σ.live, ∃ s, (l.ptr, s) ∈ spans a bs
  returned : ∀ p ∈ σ.returned, p % 8 = 0 ∧ headerSize ≤ p ∧ p ≤ σ.h.heapEnd
  stale : ∀ p ∈ σ.returned, σ.IsLive p ∨ readWord σ.h.mem 4 (p - 8) ≠ blockMagic

lemma Keeps.ne {mem mem' : Nat → UInt8} (h : Keeps w mem mem')
    (hne : readWord mem 4 w ≠ blockMagic) : readWord mem' 4 w ≠ blockMagic := by
  rcases h with h | h
  · rw [h]
    exact hne
  · exact h

lemma HeapLayout.next_aligned (hl : HeapLayout h a (pre ++ b :: post)) {y : Nat}
    (hy : (header h.mem (a + total pre)).next = some y) : y % 8 = 0 := by
  obtain ⟨-, -, -, hx⟩ := holds_head (holds_append.mp hl.holds).2
  rw [hx] at hy
  cases post with
  | nil => cases hy
  | cons c post =>
    obtain rfl := Option.some.inj hy
    apply hl.aligned
    rw [addrs_append]
    exact List.mem_append_right _ (List.mem_cons_of_mem _ List.mem_cons_self)

lemma HeapLayout.block_aligned (hl : HeapLayout h a (pre ++ b :: post)) :
    (a + total pre) % 8 = 0 := hl.aligned _ (addrs_block a pre post b)

lemma guarded_malloc (hg : Guarded σ a bs) (hs : σ.step (.malloc n) = some σ') :
    ∃ bs', Guarded σ' a bs' := by
  unfold FirstFitClients.step at hs
  dsimp only at hs
  rcases hg.layout.malloc n with e | ⟨pre, b, post, rfl, hb, hsize, e⟩
  · rw [e] at hs
    obtain rfl := Option.some.inj hs
    exact ⟨bs, hg⟩
  · rw [e] at hs
    obtain rfl := Option.some.inj hs
    obtain ⟨h1, -⟩ := hg.layout.mallocAt hb hsize (mallocSize_mod n)
    obtain ⟨hsz, hf, -, -⟩ := holds_head (holds_append.mp hg.layout.holds).2
    have hA := hg.layout.block_aligned
    have htot := hg.layout.size.symm.trans h1.size
    have hend := hg.layout.end_eq
    have hsmall := hg.small
    have h32 : headerSize = 32 := rfl
    rw [total_append, total_cons, Cell.bytes] at hend hsmall
    refine ⟨_, h1, htot ▸ hg.small, ?_, ?_, ?_⟩
    · intro l hl
      rcases List.mem_cons.mp hl with rfl | hl
      · obtain ⟨s, -, hsp⟩ := spans_new a pre post hb hsize
        exact ⟨s, hsp⟩
      · obtain ⟨s, hsp⟩ := hg.live l hl
        exact ⟨s, spans_malloc hsp hb hsize⟩
    · intro p hp
      rcases List.mem_cons.mp hp with rfl | hp
      · refine ⟨by omega, by omega, ?_⟩
        show _ ≤ σ.h.heapEnd
        omega
      · exact hg.returned p hp
    · intro p hp
      by_cases hnew : p = a + total pre + headerSize
      · subst hnew
        exact .inl ⟨_, List.mem_cons_self, rfl⟩
      · have hp' : p ∈ σ.returned := (List.mem_cons.mp hp).resolve_left hnew
        obtain ⟨hp8, hp32, -⟩ := hg.returned p hp'
        rcases hg.stale p hp' with ⟨l, hl, hlp⟩ | hne
        · exact .inl ⟨l, List.mem_cons_of_mem _ hl, hlp⟩
        · right
          have hk : Keeps (p - 8) σ.h.mem (takeBytes σ.h.mem (a + total pre) (mallocSize n)) := by
            apply keeps_takeBytes (by omega) hA (mallocSize_mod n) (hf.trans hb)
            · rw [hsz]
              exact hsize
            · rw [hsz]
              omega
            · exact fun y hy => hg.layout.next_aligned hy
            · omega
          exact hk.ne hne

lemma keeps_clearedBytes {mem : Nat → UInt8} {c m : Nat} (hw : w % 8 = 0) (hc : c % 8 = 0)
    (hend : (c + headerSize + m) % 8 = 0 ∨ w + 8 ≤ c + headerSize + m) :
    Keeps w mem (clearedBytes mem c m) := by
  have h8 : (c + headerSize) % 8 = 0 := by
    rw [headerSize]
    omega
  exact ((keeps_setIsFree hw hc).trans (keeps_setMagic_free hw hc)).trans (keeps_fill hw h8 hend)

lemma clearedBytes_magic (mem : Nat → UInt8) (c m : Nat) :
    readWord (clearedBytes mem c m) 4 (c + 24) ≠ blockMagic := by
  have h32 : headerSize = 32 := rfl
  rw [clearedBytes, readWord_fill_apart (by omega), setMagic, readWord_writeWord,
    mod_int (by decide)]
  decide

/-- The end of a block is aligned, or it is the end of the heap. -/
lemma HeapLayout.block_end (hl : HeapLayout h a (pre ++ b :: post)) :
    (a + total pre + headerSize + b.size) % 8 = 0 ∨
      a + total pre + headerSize + b.size = h.heapEnd := by
  cases post with
  | nil =>
    right
    have hend := hl.end_eq
    have h0 : total [] = 0 := rfl
    rw [total_append, total_cons, Cell.bytes, h0] at hend
    omega
  | cons c post =>
    left
    have h8 : (a + total pre + b.bytes) % 8 = 0 := by
      apply hl.aligned
      rw [addrs_append]
      exact List.mem_append_right _ (List.mem_cons_of_mem _ List.mem_cons_self)
    rw [Cell.bytes] at h8
    omega

lemma guarded_free_live (hg : Guarded σ a bs) (hp : σ.IsLive p)
    (hs : σ.step (.free (some p)) = some σ') : ∃ bs', Guarded σ' a bs' := by
  obtain ⟨l, hl, rfl⟩ := hp
  obtain ⟨s, hsp⟩ := hg.live l hl
  obtain ⟨pre, b, post, rfl, hb, hptr, rfl⟩ := mem_spans hsp
  unfold FirstFitClients.step at hs
  dsimp only at hs
  split_ifs at hs
  obtain rfl := Option.some.inj hs
  rw [hptr]
  have h32 : headerSize = 32 := rfl
  have hA := hg.layout.block_aligned
  have hkeep : ∀ mem c s nx, c ∈ addrs a (pre ++ b :: post) → s ≤ total (pre ++ b :: post) →
      (∀ y, nx = some y → y ∈ addrs a (pre ++ b :: post)) →
      (∀ p ∈ σ.returned, (p = a + total pre + headerSize ∨ ¬σ.IsLive p) →
        readWord mem 4 (p - 8) ≠ blockMagic) →
      ∀ p ∈ σ.returned, (p = a + total pre + headerSize ∨ ¬σ.IsLive p) →
        readWord (mergedBytes mem c s nx) 4 (p - 8) ≠ blockMagic := by
    intro mem c s nx hc hsle hnx hm p hp hor
    obtain ⟨hp8, hp32, -⟩ := hg.returned p hp
    have hk : Keeps (p - 8) mem (mergedBytes mem c s nx) :=
      keeps_merged (by omega) (hg.layout.aligned c hc) (hsle.trans_lt hg.small)
        fun y hy => hg.layout.aligned y (hnx y hy)
    exact hk.ne (hm p hp hor)
  have hclear : ∀ p ∈ σ.returned, (p = a + total pre + headerSize ∨ ¬σ.IsLive p) →
      readWord (clearedBytes σ.h.mem (a + total pre) b.size) 4 (p - 8) ≠ blockMagic := by
    intro p hp hor
    by_cases hpe : p = a + total pre + headerSize
    · have h24 : p - 8 = a + total pre + 24 := by omega
      rw [h24]
      exact clearedBytes_magic _ _ _
    · obtain ⟨hp8, hp32, hple⟩ := hg.returned p hp
      have hne := (hg.stale p hp).resolve_left (hor.resolve_left hpe)
      have hend := hg.layout.block_end
      exact (keeps_clearedBytes (by omega) hA (by omega)).ne hne
  obtain ⟨h1, h2⟩ := hg.layout.free hb hkeep hclear
  have hheap : (σ.h.free (some (a + total pre + headerSize))).heapEnd = σ.h.heapEnd := by
    rw [hg.layout.free_eq hb]
    rfl
  refine ⟨_, h1, ?_, ?_, ?_, ?_⟩
  · have h3 := h1.end_eq
    have h4 := hg.layout.end_eq
    have h5 := hg.small
    have h6 : total (coalesce (pre ++ ⟨b.size, true⟩ :: post)) = total (pre ++ b :: post) := by
      omega
    rw [h6]
    exact h5
  · intro l' hl'
    obtain ⟨hl', hne⟩ := List.mem_filter.mp hl'
    obtain ⟨s', hsp'⟩ := hg.live l' hl'
    refine ⟨s', ?_⟩
    rw [spans_coalesce]
    exact spans_free hsp' hb (by simpa using hne)
  · intro p hp
    show _ ∧ _ ∧ p ≤ (σ.h.free _).heapEnd
    rw [hheap]
    exact hg.returned p hp
  · intro p hp
    by_cases hlive : p ≠ a + total pre + headerSize ∧ σ.IsLive p
    · obtain ⟨hne, l', hl', rfl⟩ := hlive
      exact .inl ⟨l', List.mem_filter.mpr ⟨hl', by simpa using hne⟩, rfl⟩
    · right
      apply h2 p hp
      by_cases hpe : p = a + total pre + headerSize
      · exact .inl hpe
      · exact .inr fun hlp => hlive ⟨hpe, hlp⟩

/-- `first_fit_free` of a pointer that is not live returns at its checks. -/
lemma Guarded.free_stale (hg : Guarded σ a bs) (hp : p ∈ σ.returned) (hn : ¬σ.IsLive p) :
    σ.step (.free (some p)) = some σ := by
  obtain ⟨-, hp32, -⟩ := hg.returned p hp
  have h32 : headerSize = 32 := rfl
  have hne := (hg.stale p hp).resolve_left hn
  have hm : (header σ.h.mem (p - headerSize)).magic ≠ blockMagic := by
    have h24 : p - headerSize + 24 = p - 8 := by omega
    show readWord σ.h.mem 4 (p - headerSize + 24) ≠ blockMagic
    rw [h24]
    exact hne
  have hfree : σ.h.free (some p) = σ.h := by
    unfold FirstFitBytes.free
    rw [hg.layout.start]
    dsimp only
    rw [if_pos (.inr (.inl hm))]
  have hlive : σ.live.filter (fun l => decide (l.ptr ≠ p)) = σ.live := by
    apply List.filter_eq_self.mpr
    intro l hl
    rw [decide_eq_true_eq]
    intro hlp
    exact hn ⟨l, hl, hlp⟩
  unfold FirstFitClients.step
  dsimp only
  rw [if_pos hp, hfree, hlive]

/-- No client writes into the heap. -/
def NoClientWrite (_ : FirstFitClients) : FirstFitClientEvent → Prop
  | .write _ _ _ => False
  | _ => True

lemma guarded_step {e : FirstFitClientEvent} (hg : Guarded σ a bs) (hc : NoClientWrite σ e)
    (hs : σ.step e = some σ') : ∃ bs', Guarded σ' a bs' := by
  match e, hc with
  | .malloc n, _ => exact guarded_malloc hg hs
  | .free none, _ =>
    obtain rfl := Option.some.inj hs
    exact ⟨bs, hg⟩
  | .free (some p), _ =>
    by_cases hp : σ.IsLive p
    · exact guarded_free_live hg hp hs
    · by_cases hr : p ∈ σ.returned
      · rw [hg.free_stale hr hp] at hs
        obtain rfl := Option.some.inj hs
        exact ⟨bs, hg⟩
      · unfold FirstFitClients.step at hs
        dsimp only at hs
        rw [if_neg hr] at hs
        cases hs

end Stale

/-- In a heap of less than `2 ^ 31` bytes into which no client writes, `first_fit_free` of a
pointer that was returned before and is not live changes nothing. -/
theorem stale_free_ignored {σ : FirstFitClients}
    (h : Transition.Reach (fun σ => σ.Start ∧ σ.h.totalHeapSize < 2 ^ 31) FirstFitClients.step
      NoClientWrite σ) :
    ∀ p ∈ σ.returned, ¬σ.IsLive p → σ.step (.free (some p)) = some σ := by
  have hg : ∃ a bs, Guarded σ a bs := by
    apply h.invariant (I := fun σ => ∃ a bs, Guarded σ a bs)
    · rintro σ ⟨hs, hsmall⟩
      obtain ⟨a, bs, hl, he, hr⟩ := start_layout hs
      refine ⟨a, bs, hl, hl.size ▸ hsmall, ?_, ?_, ?_⟩
      · rw [he]
        exact fun l hl => by cases hl
      · rw [hr]
        exact fun p hp => by cases hp
      · rw [hr]
        exact fun p hp => by cases hp
    · rintro σ e σ' ⟨a, bs, hg⟩ hc hs
      exact ⟨a, guarded_step hg hc hs⟩
  obtain ⟨a, bs, hg⟩ := hg
  exact fun p hp hn => hg.free_stale hp hn

/-- `NoClientWrite`, decided. -/
def noClientWriteB (_ : FirstFitClients) : FirstFitClientEvent → Bool
  | .write _ _ _ => false
  | _ => true

lemma noClientWriteB_sound {σ : FirstFitClients} {e : FirstFitClientEvent}
    (h : noClientWriteB σ e = true) : NoClientWrite σ e := by
  cases e with
  | write p i v => cases h
  | malloc n => exact trivial
  | free p => exact trivial

/-- A block is freed, merged into its neighbour, and freed again. -/
def staleSample : FirstFitClients :=
  Transition.final FirstFitClients.step noClientWriteB bytesHeap
    [.malloc 16, .malloc 100, .malloc 16, .free (some 4176), .free (some 4128), .free (some 4176)]

theorem stale_free_ignored_sample :
    4176 ∈ staleSample.returned ∧ staleSample.step (.free (some 4176)) = some staleSample := by
  have hr : Transition.Reach (fun σ => σ.Start ∧ σ.h.totalHeapSize < 2 ^ 31) FirstFitClients.step
      (fun σ e => noClientWriteB σ e = true) staleSample :=
    Transition.Reach.final _ ⟨bytesHeap_start, by decide⟩ (by decide +kernel)
  have hp : 4176 ∈ staleSample.returned := by decide +kernel
  have hlive : (staleSample.live.all fun l => decide (l.ptr ≠ 4176)) = true := by decide +kernel
  refine ⟨hp, stale_free_ignored (hr.mono fun _ _ => noClientWriteB_sound) 4176 hp ?_⟩
  rintro ⟨l, hl, hlp⟩
  exact of_decide_eq_true (List.all_eq_true.mp hlive l hl) hlp

end TP2Kernel.Proofs
