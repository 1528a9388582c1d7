import TP2Kernel.FirstFitBytes
import TP2Kernel.Proofs.FirstFit

/-!
# First fit over bytes

The allocator on bytes does to the cells of its heap what the allocator on headers does, and
its writes stay in the headers and in the block that is allocated or freed.
-/

namespace TP2Kernel.Proofs
open Function ByteMemory FirstFitBytes

section Fields

variable {mem mem' mem'' : Nat → UInt8} {c d x : Nat}

/-- Only bytes of the header at `c` differ. -/
def Writes (c : Nat) (mem mem' : Nat → UInt8) : Prop :=
  ∀ x, x < c ∨ c + headerSize ≤ x → mem' x = mem x

lemma Writes.trans (h1 : Writes c mem mem') (h2 : Writes c mem' mem'') : Writes c mem mem'' :=
  fun x hx => (h2 x hx).trans (h1 x hx)

lemma writes_setSize (mem : Nat → UInt8) (c s : Nat) : Writes c mem (setSize mem c s) := by
  intro x hx
  apply writeWord_of_notMem
  rw [headerSize] at hx
  omega

lemma writes_setIsFree (mem : Nat → UInt8) (c : Nat) (f : Bool) :
    Writes c mem (setIsFree mem c f) := by
  intro x hx
  apply writeWord_of_notMem
  rw [headerSize] at hx
  omega

lemma writes_setNext (mem : Nat → UInt8) (c : Nat) (nx : Option Nat) :
    Writes c mem (setNext mem c nx) := by
  intro x hx
  apply writeWord_of_notMem
  rw [headerSize] at hx
  omega

lemma writes_setMagic (mem : Nat → UInt8) (c m : Nat) : Writes c mem (setMagic mem c m) := by
  intro x hx
  apply writeWord_of_notMem
  rw [headerSize] at hx
  omega

lemma header_congr (h : ∀ x, d ≤ x → x < d + headerSize → mem' x = mem x) :
    header mem' d = header mem d := by
  unfold header
  have h1 : readWord mem' 8 d = readWord mem 8 d :=
    readWord_congr fun x hx hlt => h x hx (by rw [headerSize]; omega)
  have h2 : readWord mem' 4 (d + 8) = readWord mem 4 (d + 8) :=
    readWord_congr fun x hx hlt => h x (by omega) (by rw [headerSize]; omega)
  have h3 : readWord mem' 8 (d + 16) = readWord mem 8 (d + 16) :=
    readWord_congr fun x hx hlt => h x (by omega) (by rw [headerSize]; omega)
  have h4 : readWord mem' 4 (d + 24) = readWord mem 4 (d + 24) :=
    readWord_congr fun x hx hlt => h x (by omega) (by rw [headerSize]; omega)
  rw [h1, h2, h3, h4]

lemma Writes.header (h : Writes c mem mem') (hd : d + headerSize ≤ c ∨ c + headerSize ≤ d) :
    header mem' d = header mem d := by
  apply header_congr
  intro x h1 h2
  apply h
  omega

lemma mod_size {v : Nat} (hv : v < sizeMod) : v % 256 ^ 8 = v := by
  apply Nat.mod_eq_of_lt
  norm_num [sizeMod] at hv ⊢
  exact hv

lemma mod_int {v : Nat} (hv : v < 2 ^ 32) : v % 256 ^ 4 = v := by
  apply Nat.mod_eq_of_lt
  norm_num at hv ⊢
  exact hv

lemma header_setSize {s : Nat} (hs : s < sizeMod) :
    header (setSize mem c s) c = { header mem c with size := s } := by
  have h1 : readWord (setSize mem c s) 8 c = s := by
    rw [setSize, readWord_writeWord, mod_size hs]
  have h2 : ∀ m b, c + 8 ≤ b → readWord (setSize mem c s) m b = readWord mem m b :=
    fun m b hb => readWord_writeWord_apart (.inr hb)
  simp only [header]
  rw [h1, h2 4 (c + 8) le_rfl, h2 8 (c + 16) (by omega), h2 4 (c + 24) (by omega)]

lemma header_setIsFree (f : Bool) :
    header (setIsFree mem c f) c = { header mem c with isFree := f } := by
  have h1 : readWord (setIsFree mem c f) 4 (c + 8) = f.toNat := by
    rw [setIsFree, readWord_writeWord]
    apply mod_int
    cases f <;> decide
  have h2 : ∀ m b, b + m ≤ c + 8 ∨ c + 12 ≤ b →
      readWord (setIsFree mem c f) m b = readWord mem m b :=
    fun m b hb => readWord_writeWord_apart hb
  have h3 : decide (f.toNat ≠ 0) = f := by cases f <;> rfl
  simp only [header]
  rw [h1, h2 8 c (by omega), h2 8 (c + 16) (by omega), h2 4 (c + 24) (by omega), h3]

/-- A pointer that `next` can hold. -/
def IsPointer (nx : Option Nat) : Prop := ∀ y, nx = some y → 0 < y ∧ y < sizeMod

lemma header_setNext {nx : Option Nat} (hx : IsPointer nx) :
    header (setNext mem c nx) c = { header mem c with next := nx } := by
  have h1 : readWord (setNext mem c nx) 8 (c + 16) = nx.getD 0 := by
    rw [setNext, readWord_writeWord]
    apply mod_size
    cases nx with
    | none => decide
    | some y => exact (hx y rfl).2
  have h2 : ∀ m b, b + m ≤ c + 16 ∨ c + 24 ≤ b →
      readWord (setNext mem c nx) m b = readWord mem m b :=
    fun m b hb => readWord_writeWord_apart hb
  have h3 : (if nx.getD 0 = 0 then none else some (nx.getD 0)) = nx := by
    cases nx with
    | none => rfl
    | some y => exact if_neg (hx y rfl).1.ne'
  simp only [header]
  rw [h1, h2 8 c (by omega), h2 4 (c + 8) (by omega), h2 4 (c + 24) (by omega), h3]

lemma header_setMagic {m : Nat} (hm : m < 2 ^ 32) :
    header (setMagic mem c m) c = { header mem c with magic := m } := by
  have h1 : readWord (setMagic mem c m) 4 (c + 24) = m := by
    rw [setMagic, readWord_writeWord, mod_int hm]
  have h2 : ∀ k b, b + k ≤ c + 24 → readWord (setMagic mem c m) k b = readWord mem k b :=
    fun k b hb => readWord_writeWord_apart (.inl hb)
  simp only [header]
  rw [h1, h2 8 c (by omega), h2 4 (c + 8) (by omega), h2 8 (c + 16) (by omega)]

end Fields

section Spans

variable {mem mem' : Nat → UInt8} {a e n x p q s t : Nat} {b c : Cell} {bs cs pre post : List Cell}

/-- The payloads of the cells that are not free, each with its size. -/
def spans : Nat → List Cell → List (Nat × Nat)
  | _, [] => []
  | a, b :: bs => (if b.isFree then [] else [(a + headerSize, b.size)]) ++ spans (a + b.bytes) bs

lemma spans_append : spans a (bs ++ cs) = spans a bs ++ spans (a + total bs) cs := by
  induction bs generalizing a with
  | nil => simp [spans, total]
  | cons b bs ih =>
    simp only [List.cons_append, spans, ih, List.append_assoc, total_cons, Nat.add_assoc]

lemma spans_coalesce (a : Nat) (bs : List Cell) : spans a (coalesce bs) = spans a bs := by
  induction bs using coalesce.induct generalizing a with
  | case1 => rw [coalesce]
  | case2 b => rw [coalesce]
  | case3 b c bs h ih =>
    rw [coalesce, if_pos h, ih]
    rw [Bool.and_eq_true] at h
    simp [spans, bytes_merge, h, Nat.add_assoc]
  | case4 b c bs h ih =>
    rw [coalesce, if_neg h, spans, ih]
    rfl

lemma mem_spans (h : (p, s) ∈ spans a bs) : ∃ pre b post, bs = pre ++ b :: post ∧
    b.isFree = false ∧ p = a + total pre + headerSize ∧ s = b.size := by
  induction bs generalizing a with
  | nil => cases h
  | cons b bs ih =>
    rcases List.mem_append.mp h with h | h
    · split at h
      · cases h
      · rename_i hb
        have he := List.mem_singleton.mp h
        refine ⟨[], b, bs, rfl, by simpa using hb, ?_, ?_⟩
        · rw [total, List.map_nil, List.sum_nil]
          exact congrArg Prod.fst he
        · exact congrArg Prod.snd he
    · obtain ⟨pre, c, post, rfl, hc, rfl, rfl⟩ := ih h
      exact ⟨b :: pre, c, post, rfl, hc, by rw [total_cons, ← Nat.add_assoc a], rfl⟩

lemma spans_bound (h : (p, s) ∈ spans a bs) : a + headerSize ≤ p ∧ p + s ≤ a + total bs := by
  obtain ⟨pre, b, post, rfl, -, rfl, rfl⟩ := mem_spans h
  rw [total_append, total_cons, Cell.bytes]
  omega

/-- A payload has no byte of a header. -/
lemma spans_header (h : (p, s) ∈ spans a bs) (hc : d ∈ addrs a bs) :
    p + s ≤ d ∨ d + headerSize ≤ p := by
  induction bs generalizing a with
  | nil => cases h
  | cons b bs ih =>
    have hbytes : b.bytes = headerSize + b.size := rfl
    rcases List.mem_cons.mp hc with rfl | hc
    · exact .inr (spans_bound h).1
    · rcases List.mem_append.mp h with h | h
      · split at h
        · cases h
        · obtain ⟨rfl, rfl⟩ := Prod.mk.inj (List.mem_singleton.mp h)
          have := (mem_addrs hc).1
          omega
      · exact ih h hc

/-- Two payloads that share a byte are one. -/
lemma spans_unique (hp : (p, s) ∈ spans a bs) (hq : (q, t) ∈ spans a bs) (h1 : p ≤ x)
    (h2 : x < p + s) (h3 : q ≤ x) (h4 : x < q + t) : p = q := by
  induction bs generalizing a with
  | nil => cases hp
  | cons b bs ih =>
    have hbytes : b.bytes = headerSize + b.size := rfl
    have hhead : ∀ {r u : Nat}, (r, u) ∈ (if b.isFree then [] else [(a + headerSize, b.size)]) →
        r = a + headerSize ∧ u = b.size := by
      intro r u h
      split at h
      · cases h
      · exact Prod.mk.inj (List.mem_singleton.mp h)
    rcases List.mem_append.mp hp with hp | hp
    · obtain ⟨rfl, rfl⟩ := hhead hp
      rcases List.mem_append.mp hq with hq | hq
      · exact (hhead hq).1.symm
      · have := (spans_bound hq).1
        omega
    · rcases List.mem_append.mp hq with hq | hq
      · obtain ⟨rfl, rfl⟩ := hhead hq
        have := (spans_bound hp).1
        omega
      · exact ih hp hq

lemma spans_allocated (a : Nat) (post : List Cell) (hb : b.isFree = true) (hn : n ≤ b.size) : ∃ s, n ≤ s ∧
    spans a (allocated b n ++ post) = (a + headerSize, s) :: spans a (b :: post) := by
  have hpost : spans a (b :: post) = spans (a + b.bytes) post := by
    rw [spans, if_pos hb, List.nil_append]
  obtain ⟨c, cs, hc, hf⟩ := allocated_cons b n
  refine ⟨c.size, allocated_size hc hn, ?_⟩
  rw [spans_append, total_allocated b hn, hpost]
  unfold allocated at hc ⊢
  split
  · rename_i hsmall
    rw [if_pos hsmall] at hc
    obtain ⟨rfl, -⟩ := List.cons.inj hc
    simp [spans]
  · rename_i hbig
    rw [if_neg hbig] at hc
    obtain ⟨rfl, -⟩ := List.cons.inj hc
    simp [spans]

end Spans

section Merge

variable {mem : Nat → UInt8} {a e n : Nat} {bs : List Cell}

/-- The memory after two blocks were merged. -/
def mergedBytes (mem : Nat → UInt8) (c s : Nat) (nx : Option Nat) : Nat → UInt8 :=
  setNext (setSize mem c s) c nx

lemma writes_merged (mem : Nat → UInt8) (c s : Nat) (nx : Option Nat) :
    Writes c mem (mergedBytes mem c s nx) :=
  (writes_setSize mem c s).trans (writes_setNext _ c nx)

lemma header_merged {c s : Nat} {nx : Option Nat} (hs : s < sizeMod) (hx : IsPointer nx) :
    header (mergedBytes mem c s nx) c = { header mem c with size := s, next := nx } := by
  rw [mergedBytes, header_setNext hx, header_setSize hs]

lemma coalesceLoop_bytes_some {c next : Nat} (hx : (header mem c).next = some next)
    (hc : c + headerSize ≤ next) : FirstFitBytes.coalesceLoop (n + 1) (some c) mem =
      if (header mem c).isFree ∧ (header mem next).isFree ∧
          c + headerSize + (header mem c).size = next then
        FirstFitBytes.coalesceLoop n (some c) (mergedBytes mem c
          ((header mem c).size + (headerSize + (header mem next).size)) (header mem next).next)
      else FirstFitBytes.coalesceLoop n (some next) mem := by
  rw [FirstFitBytes.coalesceLoop]
  simp only [hx]
  rw [(writes_setSize mem c _).header (.inr hc)]
  rfl

lemma addrs_merge (a : Nat) (b c : Cell) (bs : List Cell) :
    ∀ y ∈ addrs a (Cell.mk (b.size + c.bytes) true :: bs), y ∈ addrs a (b :: c :: bs) := by
  intro y hy
  simp only [addrs, bytes_merge, ← Nat.add_assoc, List.mem_cons] at hy ⊢
  exact hy.imp_right .inr

lemma total_merge (b c : Cell) (bs : List Cell) :
    total (Cell.mk (b.size + c.bytes) true :: bs) = total (b :: c :: bs) := by
  rw [total_cons, total_cons, total_cons, bytes_merge, Nat.add_assoc]

/-- What follows two neighbours is null or the address of a block. -/
lemma next_after {b c : Cell} {y : Nat}
    (hy : (if bs.isEmpty then none else some (a + b.bytes + c.bytes)) = some y) :
    y = a + b.bytes + c.bytes ∧ y ∈ addrs a (b :: c :: bs) := by
  cases bs with
  | nil => cases hy
  | cons d ds =>
    obtain rfl := Option.some.inj hy
    exact ⟨rfl, by simp [addrs]⟩

/-- Two free neighbours become one cell. -/
lemma holds_merge_bytes {b c : Cell} (h : Holds (header mem) e none a (b :: c :: bs))
    (hb : b.isFree = true) (he : e < sizeMod) :
    Holds (header (mergedBytes mem a ((header mem a).size +
      (headerSize + (header mem (a + b.bytes)).size)) (header mem (a + b.bytes)).next)) e none a
        (⟨b.size + c.bytes, true⟩ :: bs) := by
  obtain ⟨hs, -, -, -⟩ := holds_head h
  obtain ⟨hs', -, -, hx'⟩ := holds_head h.2
  have hbytes : b.bytes = headerSize + b.size := rfl
  have hcbytes : c.bytes = headerSize + c.size := rfl
  have hend := holds_end h
  have hptr : IsPointer (header mem (a + b.bytes)).next := by
    intro y hy
    rw [hx'] at hy
    obtain ⟨hya, hym⟩ := next_after hy
    have hle := (mem_addrs hym).2
    have hpos := b.bytes_pos
    rw [headerSize] at hle
    omega
  have hsize : (header mem a).size + (headerSize + (header mem (a + b.bytes)).size) < sizeMod := by
    rw [total_cons, total_cons] at hend
    omega
  apply holds_congr _ (holds_merge h hb)
  intro x hxm
  rcases List.mem_cons.mp hxm with rfl | hxm
  · rw [header_merged hsize hptr, update_self]
    rfl
  · have hlt := (mem_addrs hxm).1
    rw [bytes_merge] at hlt
    have hxa : a + headerSize ≤ x := by omega
    have hne : x ≠ a := by
      rw [headerSize] at hxa
      omega
    rw [update_of_ne hne, (writes_merged mem a _ _).header (.inr hxa)]

/-- `coalesce_blocks` on bytes does what it does on headers. A property of the memory that
every write to `size` and `next` of a block of the list keeps is kept. -/
lemma coalesceLoop_bytes {P : (Nat → UInt8) → Prop} (h : Holds (header mem) e none a bs)
    (hne : bs ≠ []) (hn : bs.length ≤ n) (he : e < sizeMod)
    (hP : ∀ mem c s nx, c ∈ addrs a bs → s ≤ total bs → (∀ y, nx = some y → y ∈ addrs a bs) →
      P mem → P (mergedBytes mem c s nx)) (h0 : P mem) :
    Holds (header (FirstFitBytes.coalesceLoop n (some a) mem)) e none a (coalesce bs) ∧
      P (FirstFitBytes.coalesceLoop n (some a) mem) := by
  induction n generalizing a bs mem P with
  | zero =>
    simp at hn
    exact absurd hn hne
  | succ n ih =>
    match bs, hne with
    | [b], _ =>
      obtain ⟨-, -, -, hx⟩ := holds_head h
      rw [coalesce, FirstFitBytes.coalesceLoop]
      simp only [hx, List.isEmpty_nil, if_true]
      exact ⟨h, h0⟩
    | b :: c :: bs, _ =>
      obtain ⟨hs, hf, -, hx⟩ := holds_head h
      obtain ⟨hs', hf', -, hx'⟩ := holds_head h.2
      have hbytes : b.bytes = headerSize + b.size := rfl
      have hcbytes : c.bytes = headerSize + c.size := rfl
      have hadj : a + headerSize + (header mem a).size = a + b.bytes := by
        rw [hs, Cell.bytes, Nat.add_assoc]
      have hx1 : (header mem a).next = some (a + b.bytes) := by simpa using hx
      rw [coalesceLoop_bytes_some hx1 (by omega), coalesce]
      simp only [hf, hf', hadj, and_true, Bool.and_eq_true]
      by_cases hfree : b.isFree = true ∧ c.isFree = true
      · rw [if_pos hfree, if_pos hfree]
        apply ih (holds_merge_bytes h hfree.1 he) (by simp) (by simpa using hn)
        · intro mem d s nx hd hs hnx
          rw [total_merge] at hs
          exact hP mem d s nx (addrs_merge a b c bs d hd) hs fun y hy =>
            addrs_merge a b c bs y (hnx y hy)
        · apply hP _ _ _ _ List.mem_cons_self _ _ h0
          · rw [total_cons, total_cons]
            omega
          · intro y hy
            rw [hx'] at hy
            exact (next_after hy).2
      · rw [if_neg hfree, if_neg hfree]
        have hP' : ∀ m d s nx, d ∈ addrs (a + b.bytes) (c :: bs) → s ≤ total (c :: bs) →
            (∀ y, nx = some y → y ∈ addrs (a + b.bytes) (c :: bs)) →
            (P m ∧ header m a = header mem a) →
            P (mergedBytes m d s nx) ∧ header (mergedBytes m d s nx) a = header mem a := by
          rintro m d s nx hd hsz hnx ⟨h1, h2⟩
          have hge := (mem_addrs hd).1
          constructor
          · apply hP _ _ _ _ (List.mem_cons_of_mem a hd) _ _ h1
            · rw [total_cons]
              omega
            · exact fun y hy => List.mem_cons_of_mem a (hnx y hy)
          · rw [(writes_merged m d s nx).header (.inl (by omega)), h2]
        obtain ⟨h1, h2, h3⟩ := ih (P := fun m => P m ∧ header m a = header mem a) h.2 (by simp)
          (by simpa using hn) hP' ⟨h0, rfl⟩
        refine ⟨⟨?_, h1⟩, h2⟩
        rw [h3, h.1]
        simp [coalesce_ne_nil]

end Merge

section Take

variable {mem : Nat → UInt8} {a e n x : Nat} {b : Cell} {post : List Cell}

/-- The part of `first_fit_malloc` behind the search. -/
def takeBytes (mem : Nat → UInt8) (block size : Nat) : Nat → UInt8 :=
  setMagic (setIsFree (splitBlock mem block size) block false) block blockMagic

/-- The new block of `split_block`. -/
def newBytes (mem : Nat → UInt8) (block size : Nat) (nx : Option Nat) : Nat → UInt8 :=
  setMagic (setNext (setIsFree (setSize mem block size) block true) block nx) block freeMagic

lemma writes_new (mem : Nat → UInt8) (c s : Nat) (nx : Option Nat) :
    Writes c mem (newBytes mem c s nx) :=
  (((writes_setSize mem c s).trans (writes_setIsFree _ c true)).trans
    (writes_setNext _ c nx)).trans (writes_setMagic _ c freeMagic)

lemma header_new {c s : Nat} {nx : Option Nat} (hs : s < sizeMod) (hx : IsPointer nx) :
    header (newBytes mem c s nx) c = ⟨s, true, nx, freeMagic⟩ := by
  rw [newBytes, header_setMagic (by decide), header_setNext hx, header_setIsFree,
    header_setSize hs]

lemma writes_taken (mem : Nat → UInt8) (c : Nat) :
    Writes c mem (setMagic (setIsFree mem c false) c blockMagic) :=
  (writes_setIsFree mem c false).trans (writes_setMagic _ c blockMagic)

lemma header_taken (c : Nat) : header (setMagic (setIsFree mem c false) c blockMagic) c =
    { header mem c with isFree := false, magic := blockMagic } := by
  rw [header_setMagic (by decide), header_setIsFree]

/-- `split_block` of a block that is large enough for two. -/
lemma splitBlock_large (hf : (header mem a).isFree = true)
    (hn : ¬(header mem a).size - n < headerSize + minBlockSize) : splitBlock mem a n =
      mergedBytes (newBytes mem (a + headerSize + n) ((header mem a).size - n - headerSize)
        (header mem a).next) a n (some (a + headerSize + n)) := by
  have hw : Writes (a + headerSize + n) mem (setIsFree (setSize mem (a + headerSize + n)
      ((header mem a).size - n - headerSize)) (a + headerSize + n) true) :=
    (writes_setSize mem _ _).trans (writes_setIsFree _ _ true)
  have hnext := hw.header (d := a) (.inl (by omega))
  unfold splitBlock
  rw [hf, if_neg (by simp)]
  dsimp only
  rw [if_neg hn, hnext]
  rfl

lemma splitBlock_small (hf : (header mem a).isFree = true)
    (hn : (header mem a).size - n < headerSize + minBlockSize) : splitBlock mem a n = mem := by
  unfold splitBlock
  rw [hf, if_neg (by simp)]
  dsimp only
  rw [if_pos hn]

/-- What `first_fit_malloc` writes lies in the block that it found. -/
lemma takeBytes_apart (h : Holds (header mem) e none a (b :: post)) (hb : b.isFree = true)
    (hn : n ≤ b.size) (hx : x < a ∨ a + b.bytes ≤ x) : takeBytes mem a n x = mem x := by
  have hbytes : b.bytes = headerSize + b.size := rfl
  obtain ⟨hs, hf, -, -⟩ := holds_head h
  rw [hb] at hf
  have hsplit : splitBlock mem a n x = mem x := by
    by_cases hrem : (header mem a).size - n < headerSize + minBlockSize
    · rw [splitBlock_small hf hrem]
    · rw [splitBlock_large hf hrem, writes_merged _ _ _ _ x (by omega)]
      apply writes_new
      rw [hs] at hrem
      omega
  rw [takeBytes, writes_taken _ a x (by omega), hsplit]

/-- `first_fit_malloc` on bytes does to the cells what it does on headers. -/
lemma holds_takeBytes (h : Holds (header mem) e none a (b :: post)) (hb : b.isFree = true)
    (hn : n ≤ b.size) (he : e < sizeMod) :
    Holds (header (takeBytes mem a n)) e none a (allocated b n ++ post) := by
  have hbytes : b.bytes = headerSize + b.size := rfl
  obtain ⟨hs, hf, -, hx⟩ := holds_head h
  have hend := holds_end h
  rw [total_cons] at hend
  have hfree : (header mem a).isFree = true := hf.trans hb
  have hpost : Holds (header (takeBytes mem a n)) e none (a + b.bytes) post := by
    apply holds_congr _ h.2
    intro x hxm
    apply header_congr
    intro y hy _
    have := (mem_addrs hxm).1
    exact takeBytes_apart h hb hn (.inr (by omega))
  unfold allocated
  by_cases hrem : b.size - n < headerSize + minBlockSize
  · rw [if_pos hrem]
    refine ⟨?_, hpost⟩
    have hrem' := hrem
    rw [← hs] at hrem'
    rw [takeBytes, splitBlock_small hfree hrem', header_taken, h.1]
    rfl
  · rw [if_neg hrem]
    have hend' : a + (headerSize + n) + (headerSize + (b.size - n - headerSize)) = a + b.bytes := by
      omega
    have hlast : a + headerSize + n + (Cell.mk (b.size - n - headerSize) true).bytes =
        a + b.bytes := by
      rw [bytes_mk]
      omega
    have hptr : IsPointer (header mem a).next := by
      intro y hy
      rw [hx] at hy
      cases post with
      | nil => cases hy
      | cons c post =>
        obtain rfl := Option.some.inj hy
        have hc : c.bytes = headerSize + c.size := rfl
        have hpos := b.bytes_pos
        rw [total_cons] at hend
        rw [headerSize] at hc
        omega
    have hnew : IsPointer (some (a + headerSize + n)) := by
      intro y hy
      obtain rfl := Option.some.inj hy
      have hpos : 0 < headerSize := by decide
      omega
    have hrem' := hrem
    rw [← hs] at hrem'
    have hw := writes_new mem (a + headerSize + n) ((header mem a).size - n - headerSize)
      (header mem a).next
    rw [takeBytes, splitBlock_large hfree hrem'] at hpost ⊢
    refine ⟨?_, ?_, ?_⟩
    · rw [header_taken, header_merged (by omega) hnew, hw.header (.inl (by omega)), Nat.add_assoc]
      rfl
    · rw [bytes_mk, ← Nat.add_assoc, (writes_taken _ a).header (.inr (by omega)),
        (writes_merged _ a _ _).header (.inr (by omega)), header_new (by omega) hptr, hx, hs, hlast]
      rfl
    · rw [bytes_mk, bytes_mk, hend']
      exact hpost

end Take

section Heap

variable {h : FirstFitBytes} {a p s n w x : Nat} {b : Cell} {bs pre post : List Cell}

/-- The heap holds a list of cells that tile it. -/
structure HeapLayout (h : FirstFitBytes) (a : Nat) (bs : List Cell) : Prop where
  initialized : h.initialized = true
  start : h.heapStart = some a
  cells : bs ≠ []
  holds : Holds (header h.mem) h.heapEnd none a bs
  size : h.totalHeapSize = total bs
  pos : 0 < a
  bound : h.heapEnd < sizeMod
  aligned : ∀ x ∈ addrs a bs, x % 8 = 0

lemma HeapLayout.length (hl : HeapLayout h a bs) : bs.length ≤ h.totalHeapSize := by
  have := length_le_total bs
  rw [hl.size]
  rw [headerSize] at this
  omega

lemma HeapLayout.end_eq (hl : HeapLayout h a bs) : a + total bs = h.heapEnd := holds_end hl.holds

/-- What `first_fit_malloc` does when it finds the block at `block`. -/
def mallocAt (h : FirstFitBytes) (block size : Nat) : FirstFitBytes :=
  { h with
    mem := takeBytes h.mem block size
    totalAllocations := h.totalAllocations + 1
    currentAllocatedBlocks := h.currentAllocatedBlocks + 1 }

lemma HeapLayout.malloc (hl : HeapLayout h a bs) (n : Nat) : h.malloc n = (h, none) ∨
    ∃ pre b post, bs = pre ++ b :: post ∧ b.isFree = true ∧ mallocSize n ≤ b.size ∧
      h.malloc n =
        (mallocAt h (a + total pre) (mallocSize n), some (a + total pre + headerSize)) := by
  have hempty : bs.isEmpty = false := by simpa using hl.cells
  have hfind := findLoop_spec (mallocSize n) hl.holds hl.length
  rw [hempty, if_neg (by simp), ← hl.start] at hfind
  unfold FirstFitBytes.malloc findFreeBlock
  by_cases hn : n = 0
  · left
    rw [if_pos (.inr hn)]
  · rw [if_neg (by simp [hl.initialized, hn])]
    unfold mallocSize at hfind ⊢
    rcases hfind with ⟨hno, -⟩ | ⟨pre, b, post, rfl, ⟨hb, hsize⟩, -, hfound⟩
    · left
      dsimp only
      rw [hno]
    · right
      refine ⟨pre, b, post, rfl, hb, hsize, ?_⟩
      dsimp only
      rw [hfound]
      rfl

lemma addrs_block (a : Nat) (pre post : List Cell) (b : Cell) :
    a + total pre ∈ addrs a (pre ++ b :: post) := by
  rw [addrs_append]
  exact List.mem_append_right _ List.mem_cons_self

/-- The cells and the memory behind a `first_fit_malloc` that finds a block. -/
lemma HeapLayout.mallocAt (hl : HeapLayout h a (pre ++ b :: post)) (hb : b.isFree = true)
    (hn : n ≤ b.size) (hn8 : n % 8 = 0) :
    HeapLayout (mallocAt h (a + total pre) n) a (pre ++ (allocated b n ++ post)) ∧
      ∀ x, x < a + total pre ∨ a + total pre + b.bytes ≤ x →
        (TP2Kernel.Proofs.mallocAt h (a + total pre) n).mem x = h.mem x := by
  obtain ⟨h1, h2⟩ := holds_append.mp hl.holds
  have happ : ∀ x, x < a + total pre ∨ a + total pre + b.bytes ≤ x →
      takeBytes h.mem (a + total pre) n x = h.mem x := fun x hx => takeBytes_apart h2 hb hn hx
  have h3 := holds_takeBytes h2 hb hn hl.bound
  obtain ⟨c, cs, hc, -⟩ := allocated_cons b n
  refine ⟨⟨hl.initialized, hl.start, by simp [hc], ?_, ?_, hl.pos, hl.bound, ?_⟩, happ⟩
  · rw [hc, List.cons_append] at h3 ⊢
    apply holds_replace hl.holds _ h3
    intro x hx
    apply header_congr
    intro y _ hy
    exact happ y (.inl (by omega))
  · show h.totalHeapSize = _
    rw [hl.size, total_append, total_append, total_append, total_allocated b hn, total_cons]
  · exact aligned_allocated hl.aligned hn8 hn

/-- What `first_fit_free` does with the block of `p`. -/
def freeAt (h : FirstFitBytes) (a p size : Nat) : FirstFitBytes :=
  { h with
    mem := FirstFitBytes.coalesceLoop h.totalHeapSize (some a) (fill
      (setMagic (setIsFree h.mem (p - headerSize) true) (p - headerSize) freeMagic) p 0 size)
    totalFrees := h.totalFrees + 1
    currentAllocatedBlocks := h.currentAllocatedBlocks - 1 }

lemma writes_freed (mem : Nat → UInt8) (c : Nat) :
    Writes c mem (setMagic (setIsFree mem c true) c freeMagic) :=
  (writes_setIsFree mem c true).trans (writes_setMagic _ c freeMagic)

lemma header_freed {mem : Nat → UInt8} (c : Nat) :
    header (setMagic (setIsFree mem c true) c freeMagic) c =
      { header mem c with isFree := true, magic := freeMagic } := by
  rw [header_setMagic (by decide), header_setIsFree]

lemma HeapLayout.free_eq (hl : HeapLayout h a (pre ++ b :: post)) (hb : b.isFree = false) :
    h.free (some (a + total pre + headerSize)) =
      freeAt h a (a + total pre + headerSize) b.size := by
  obtain ⟨hs, hf, hm, -⟩ := holds_head (holds_append.mp hl.holds).2
  have hend := hl.end_eq
  have hpos := b.bytes_pos
  rw [total_append, total_cons] at hend
  have hok : ¬(h.initialized = false ∨ (header h.mem (a + total pre)).magic ≠ blockMagic ∨
      (header h.mem (a + total pre)).isFree = true ∨ a + total pre < a ∨
      h.heapEnd ≤ a + total pre) := by
    rw [hm, hf, hb, hl.initialized]
    rintro (hx | hx | hx | hx | hx)
    · cases hx
    · exact hx rfl
    · cases hx
    · omega
    · omega
  unfold FirstFitBytes.free freeAt
  rw [hl.start]
  dsimp only
  rw [Nat.add_sub_cancel, if_neg hok, header_freed, hs]

/-- The memory that `coalesce_blocks` starts with in `first_fit_free`. -/
def clearedBytes (mem : Nat → UInt8) (block size : Nat) : Nat → UInt8 :=
  fill (setMagic (setIsFree mem block true) block freeMagic) (block + headerSize) 0 size

lemma clearedBytes_apart (mem : Nat → UInt8) (block size : Nat)
    (hx : x < block ∨ block + headerSize + size ≤ x) : clearedBytes mem block size x = mem x := by
  rw [clearedBytes, fill_of_notMem (by omega), writes_freed]
  omega

lemma holds_clearedBytes (hl : HeapLayout h a (pre ++ b :: post)) :
    Holds (header (clearedBytes h.mem (a + total pre) b.size)) h.heapEnd none a
      (pre ++ ⟨b.size, true⟩ :: post) := by
  obtain ⟨-, h2⟩ := holds_append.mp hl.holds
  have hbytes : b.bytes = headerSize + b.size := rfl
  apply holds_replace hl.holds
  · intro x hx
    apply header_congr
    intro y _ hy
    exact clearedBytes_apart _ _ _ (.inl (by omega))
  · constructor
    · have hfill : header (clearedBytes h.mem (a + total pre) b.size) (a + total pre) =
          header (setMagic (setIsFree h.mem (a + total pre) true) (a + total pre) freeMagic)
            (a + total pre) := by
        apply header_congr
        intro y _ hy
        exact fill_of_notMem (.inl hy)
      rw [hfill, header_freed, h2.1]
      rfl
    · apply holds_congr _ h2.2
      intro x hx
      have hge := (mem_addrs hx).1
      apply header_congr
      intro y hy _
      exact clearedBytes_apart _ _ _ (.inr (by omega))

/-- A property that `coalesce_blocks` keeps holds behind `first_fit_free` when it holds before
`coalesce_blocks`. -/
lemma HeapLayout.free {P : (Nat → UInt8) → Prop} (hl : HeapLayout h a (pre ++ b :: post))
    (hb : b.isFree = false)
    (hP : ∀ mem c s nx, c ∈ addrs a (pre ++ b :: post) → s ≤ total (pre ++ b :: post) →
      (∀ y, nx = some y → y ∈ addrs a (pre ++ b :: post)) →
      P mem → P (mergedBytes mem c s nx))
    (h0 : P (clearedBytes h.mem (a + total pre) b.size)) :
    HeapLayout (h.free (some (a + total pre + headerSize))) a
        (coalesce (pre ++ ⟨b.size, true⟩ :: post)) ∧
      P (h.free (some (a + total pre + headerSize))).mem := by
  have htot : total (pre ++ ⟨b.size, true⟩ :: post) = total (pre ++ b :: post) := by
    rw [total_append, total_append, total_cons, total_cons]
    rfl
  have haddrs : addrs a (pre ++ ⟨b.size, true⟩ :: post) = addrs a (pre ++ b :: post) := by
    rw [addrs_append, addrs_append]
    rfl
  have hlen : (pre ++ ⟨b.size, true⟩ :: post).length ≤ h.totalHeapSize := by
    have := hl.length
    simpa using this
  rw [← htot, ← haddrs] at hP
  obtain ⟨h1, h2⟩ := coalesceLoop_bytes (P := P) (holds_clearedBytes hl) (by simp) hlen hl.bound
    hP h0
  rw [hl.free_eq hb]
  unfold freeAt
  rw [Nat.add_sub_cancel]
  refine ⟨⟨hl.initialized, hl.start, ?_, h1, ?_, hl.pos, hl.bound, ?_⟩, h2⟩
  · cases pre with
    | nil => exact coalesce_ne_nil _ _
    | cons c pre => exact coalesce_ne_nil _ _
  · show h.totalHeapSize = _
    have h3 := holds_end h1
    have h4 := holds_end hl.holds
    rw [hl.size]
    omega
  · intro x hx
    have := addrs_coalesce a _ x hx
    rw [haddrs] at this
    exact hl.aligned x this

lemma start_layout {σ : FirstFitClients} (h : σ.Start) :
    ∃ a bs, HeapLayout σ.h a bs ∧ σ.live = [] ∧ σ.returned = [] := by
  obtain ⟨h, startAddr, totalSize, h0, hwrap, hsize, rfl⟩ := h
  have hlt : ¬(startAddr = 0 ∨ totalSize < headerSize) := by
    rintro (h1 | h1)
    · exact h0 h1
    · omega
  have hpos : 0 < headerSize := by decide
  have h7 : startAddr + 7 < sizeMod := by
    have h32 : headerSize = 32 := rfl
    omega
  have hge : startAddr ≤ alignSize startAddr := by
    unfold alignSize
    rw [Nat.mod_eq_of_lt h7]
    omega
  generalize hn : totalSize - (alignSize startAddr - startAddr) = n at hsize
  have hb : (Cell.mk (n - headerSize) true).bytes = n := by
    rw [bytes_mk]
    omega
  have hnone : IsPointer none := fun y hy => by cases hy
  refine ⟨alignSize startAddr, [⟨n - headerSize, true⟩], ?_, rfl, rfl⟩
  unfold FirstFitBytes.init
  rw [if_neg hlt]
  dsimp only
  rw [hn]
  refine ⟨rfl, rfl, by simp, ⟨?_, ?_⟩, ?_, by omega, ?_, ?_⟩
  · exact header_new (by omega) hnone
  · rw [hb]
    rfl
  · rw [total_cons, hb]
    rfl
  · show alignSize startAddr + n < sizeMod
    omega
  · intro x hx
    have : x = alignSize startAddr := by simpa [addrs] using hx
    rw [this]
    exact alignSize_mod startAddr

end Heap

end TP2Kernel.Proofs
