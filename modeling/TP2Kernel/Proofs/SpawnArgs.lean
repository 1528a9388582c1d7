import TP2Kernel.SpawnArgs

/-!
# Argument vectors

While `build_spawn_argv` fills an argument vector, the blocks that it has allocated are the
vector and the strings of the filled entries. Freeing these entries and the vector frees them
all, at every exit.
-/

namespace TP2Kernel.Proofs
open Function

variable {h0 h : UserHeap} {argv : Nat} {bs : List Nat} {strs : List CStr}

/-- A later state of the heap. -/
structure Later (h0 h : UserHeap) : Prop where
  next : h0.next ≤ h.next
  fails : h.fails = h0.fails

lemma Later.refl (h : UserHeap) : Later h h := ⟨le_rfl, rfl⟩

lemma Later.sysMalloc (hl : Later h0 h) : Later h0 h.sysMalloc.1 :=
  ⟨hl.next.trans (Nat.le_succ _), hl.fails⟩

lemma allocated_refl (h : UserHeap) : allocatedBetween h h = [] := by simp [allocatedBetween]

/-- A request adds its block if it succeeds. -/
lemma allocated_sysMalloc (hl : Later h0 h) :
    allocatedBetween h0 h.sysMalloc.1 =
      allocatedBetween h0 h ++ if h.fails h.next then [] else [h.next] := by
  obtain ⟨n, hn⟩ := Nat.exists_eq_add_of_le hl.next
  have hsub : h.next + 1 - h0.next = n + 1 := by omega
  have hsub' : h.next - h0.next = n := by omega
  change (List.range' h0.next (h.next + 1 - h0.next)).filter _ = _
  rw [allocatedBetween, hsub, hsub', List.range'_concat, List.filter_append, hl.fails, hn]
  cases hf : h0.fails (h0.next + n) with
  | false => simp [hf]
  | true => simp [hf]

lemma sysMalloc_cases (h : UserHeap) :
    (h.fails h.next = true ∧ h.sysMalloc.2 = none) ∨
      (h.fails h.next = false ∧ h.sysMalloc.2 = some h.next) := by
  cases hf : h.fails h.next with
  | true => exact .inl ⟨rfl, by simp [UserHeap.sysMalloc, hf]⟩
  | false => exact .inr ⟨rfl, by simp [UserHeap.sysMalloc, hf]⟩

lemma freeArg_some {i b : Nat} (hb : h.pointers argv i = some b) :
    freeArg argv h i = h.sysFree b := by
  rw [freeArg, hb]

/-- Freeing the first entries. -/
lemma foldl_freeArg (he : ∀ i (hi : i < bs.length), h.pointers argv i = some bs[i]) (n : Nat)
    (hn : n ≤ bs.length) : (List.range n).foldl (freeArg argv) h =
      { h with freed := h.freed ++ bs.take n } := by
  induction n with
  | zero => simp
  | succ n ih =>
    have hb : ({ h with freed := h.freed ++ bs.take n } : UserHeap).pointers argv n = some bs[n] :=
      he n hn
    rw [List.range_succ, List.foldl_append, ih (by omega), List.foldl_cons, List.foldl_nil,
      freeArg_some hb, UserHeap.sysFree, List.append_assoc, List.take_append_getElem hn]

lemma freeArgs_eq (he : ∀ i (hi : i < bs.length), h.pointers argv i = some bs[i]) {count : Int}
    (hc : count.toNat = bs.length) :
    freeArgs h (some argv) count = { h with freed := h.freed ++ (bs ++ [argv]) } := by
  rw [freeArgs, hc, foldl_freeArg he _ le_rfl, UserHeap.sysFree, List.take_length]
  simp

/-- The entries of `argv` that are filled, with their blocks and strings. -/
structure Filled (h0 h : UserHeap) (argv : Nat) (bs : List Nat) (strs : List CStr) : Prop
    extends Later h0 h where
  blocks : allocatedBetween h0 h = argv :: bs
  strings : bs.map h.strings = strs
  entries : ∀ i (hi : i < bs.length), h.pointers argv i = some bs[i]
  freed : h.freed = h0.freed

lemma allocated_lt {b : Nat} (hb : b ∈ allocatedBetween h0 h) : h0.next ≤ b ∧ b < h.next := by
  rw [allocatedBetween, List.mem_filter, List.mem_range'_1] at hb
  omega

/-- The entries and `argv` are all that was allocated. -/
lemma Filled.frees (hf : Filled h0 h argv bs strs) {count : Int} (hc : count.toNat = bs.length) :
    FreesAllocated h0 (freeArgs h (some argv) count) (bs ++ [argv]) := by
  rw [freeArgs_eq hf.entries hc]
  refine ⟨by rw [hf.freed], ?_⟩
  change (bs ++ [argv]).Perm (allocatedBetween h0 h)
  rw [hf.blocks]
  exact List.perm_append_singleton argv bs

/-- A string more, or a failed request. -/
lemma Filled.dup (hf : Filled h0 h argv bs strs) (s : CStr) :
    (∃ h1, dupArgString h (some s) = (h1, none) ∧
      Filled h0 (h1.setPointer argv bs.length none) argv bs strs) ∨
    ∃ h1 b, dupArgString h (some s) = (h1, some b) ∧
      Filled h0 (h1.setPointer argv bs.length (some b)) argv (bs ++ [b]) (strs ++ [s]) := by
  have hblocks := allocated_sysMalloc hf.toLater
  have hold : ∀ e i, i < bs.length →
      (h.sysMalloc.1.setPointer argv bs.length e).pointers argv i = h.pointers argv i := by
    intro e i hi
    simp [UserHeap.setPointer, UserHeap.sysMalloc, hi.ne]
  obtain ⟨hfail, hm⟩ | ⟨hfail, hm⟩ := sysMalloc_cases h
  · refine .inl ⟨h.sysMalloc.1, ?_, ⟨hf.sysMalloc.next, hf.fails⟩, ?_, hf.strings, fun i hi => ?_, hf.freed⟩
    · rw [dupArgString, show h.sysMalloc = (h.sysMalloc.1, none) from Prod.ext rfl hm]
    · rw [hfail, if_pos rfl, List.append_nil, hf.blocks] at hblocks
      exact hblocks
    · rw [hold none i hi]
      exact hf.entries i hi
  · rw [hfail, if_neg Bool.false_ne_true, hf.blocks] at hblocks
    have hne : ∀ b ∈ bs, b ≠ h.next := by
      intro b hb
      have hb' : b ∈ allocatedBetween h0 h := hf.blocks ▸ List.mem_cons_of_mem argv hb
      exact (allocated_lt hb').2.ne
    refine .inr ⟨h.sysMalloc.1.setString h.next s, h.next, ?_, ⟨hf.sysMalloc.next, hf.fails⟩,
      hblocks, ?_, fun i hi => ?_, hf.freed⟩
    · rw [dupArgString, show h.sysMalloc = (h.sysMalloc.1, some h.next) from Prod.ext rfl hm]
    · rw [List.map_append, List.map_singleton, ← hf.strings]
      change bs.map (update h.strings h.next s) ++ [update h.strings h.next s h.next] = _
      rw [update_self]
      congr 1
      apply List.map_congr_left
      intro b hb
      exact update_of_ne (hne b hb) _ _
    · by_cases hlt : i < bs.length
      · rw [List.getElem_append_left hlt, ← hf.entries i hlt]
        exact hold (some h.next) i hlt
      · obtain rfl : i = bs.length := by
          rw [List.length_append, List.length_singleton] at hi
          omega
        simp [UserHeap.setPointer]

/-- The null pointer behind the entries. -/
lemma Filled.close (hf : Filled h0 h argv bs strs) :
    Filled h0 (h.setPointer argv bs.length none) argv bs strs ∧
      (h.setPointer argv bs.length none).pointers argv bs.length = none := by
  refine ⟨⟨⟨hf.next, hf.fails⟩, hf.blocks, hf.strings, fun i hi => ?_, hf.freed⟩, ?_⟩
  · rw [← hf.entries i hi]
    simp [UserHeap.setPointer, hi.ne]
  · simp [UserHeap.setPointer]

/-- The loop fills all entries, or frees what was allocated. -/
lemma fillArgs_cases (extraArgs : Option (Nat → Option CStr)) (n i : Nat)
    (hf : Filled h0 h argv bs strs) (hi : bs.length = i + 1) :
    (∃ h1 l, fillArgs argv extraArgs n i h = (h1, false) ∧ FreesAllocated h0 h1 l) ∨
    ∃ h1 bs' args, fillArgs argv extraArgs n i h = (h1, true) ∧ bs'.length = i + 1 + n ∧
      Filled h0 h1 argv bs' (strs ++ args) ∧ args.length = n ∧
      ∀ j (hj : j < args.length), (extraArgs.bind fun a => a (i + j)) = some args[j] := by
  induction n generalizing h bs strs i with
  | zero => exact .inr ⟨h, bs, [], rfl, hi, by simpa using hf, rfl, fun j hj => absurd hj (by simp)⟩
  | succ n ih =>
    rw [fillArgs]
    cases ha : extraArgs.bind fun args => args i with
    | none => exact .inl ⟨_, _, rfl, hf.frees (by omega)⟩
    | some arg =>
      dsimp only
      have hdup := hf.dup arg
      rw [hi] at hdup
      obtain ⟨h1, e, hf1⟩ | ⟨h1, b, e, hf1⟩ := hdup
      · rw [e]
        exact .inl ⟨_, _, rfl, hf1.frees (by omega)⟩
      · rw [e]
        dsimp only
        obtain ⟨h2, l, e2, hl⟩ | ⟨h2, bs', args, e2, hlen, hf2, hn, hargs⟩ :=
          ih (i + 1) hf1 (by simp [hi])
        · exact .inl ⟨h2, l, e2, hl⟩
        · refine .inr ⟨h2, bs', arg :: args, e2, by omega, ?_, by simp [hn], fun j hj => ?_⟩
          · rwa [List.append_assoc, List.singleton_append] at hf2
          · cases j with
            | zero => exact ha
            | succ j =>
              have h1 := hargs j (by simpa using hj)
              rw [add_assoc, add_comm 1 j] at h1
              exact h1

/-- `build_spawn_argv` returns an argument vector that `free_spawn_args` frees completely, or
frees what it has allocated. -/
theorem buildSpawnArgv_builds (h : UserHeap) (cmdName : Option CStr)
    (extraArgs : Option (Nat → Option CStr)) (extraCount : Int) (argcOut : Option Int) :
    BuildsArgv h cmdName extraArgs extraCount.toNat argcOut
      (buildSpawnArgv h cmdName extraArgs extraCount argcOut) := by
  have hnothing : FreesAllocated h h [] := ⟨by simp, by rw [allocated_refl]⟩
  cases cmdName with
  | none => exact ⟨nofun, fun _ => ⟨rfl, [], hnothing⟩⟩
  | some cmd =>
    have hblocks := allocated_sysMalloc (Later.refl h)
    rw [allocated_refl, List.nil_append] at hblocks
    rw [buildSpawnArgv]
    obtain ⟨hfail, hm⟩ | ⟨hfail, hm⟩ := sysMalloc_cases h
    · rw [show h.sysMalloc = (h.sysMalloc.1, none) from Prod.ext rfl hm]
      rw [hfail, if_pos rfl] at hblocks
      exact ⟨nofun, fun _ => ⟨rfl, [], (List.append_nil _).symm, by rw [hblocks]⟩⟩
    · rw [show h.sysMalloc = (h.sysMalloc.1, some h.next) from Prod.ext rfl hm]
      rw [hfail, if_neg Bool.false_ne_true] at hblocks
      have hf : Filled h h.sysMalloc.1 h.next [] [] :=
        ⟨(Later.refl h).sysMalloc, hblocks, rfl, fun i hi => absurd hi (by simp), rfl⟩
      dsimp only
      obtain ⟨h1, e, hf1⟩ | ⟨h1, b, e, hf1⟩ := hf.dup cmd
      · rw [e]
        exact ⟨nofun, fun _ => ⟨rfl, _, hf1.frees rfl⟩⟩
      · rw [e]
        dsimp only
        obtain ⟨h2, l, e2, hl⟩ | ⟨h2, bs, args, e2, hlen, hf2, hn, hargs⟩ :=
          fillArgs_cases extraArgs extraCount.toNat 0 hf1 rfl
        · rw [List.length_nil] at e2
          rw [e2]
          exact ⟨nofun, fun _ => ⟨rfl, l, hl⟩⟩
        · rw [List.length_nil] at e2
          rw [e2]
          dsimp only
          have htotal : (1 + if 0 < extraCount then extraCount else 0) =
              1 + (extraCount.toNat : Int) := by
            split
            · omega
            · omega
          have hpos : (1 + (extraCount.toNat : Int)).toNat = bs.length := by omega
          obtain ⟨hf3, hlast⟩ := hf2.close
          rw [htotal, hpos]
          refine ⟨fun argv ha => ?_, nofun⟩
          obtain rfl : h.next = argv := Option.some.inj ha
          refine ⟨cmd, args, rfl, hn, fun i hi => ?_, ⟨bs, hf3.blocks, hf3.strings, hf3.entries,
            hlast⟩, rfl, hf3.freed, _, hf3.frees hpos⟩
          rw [← hargs i hi, zero_add]

end TP2Kernel.Proofs
