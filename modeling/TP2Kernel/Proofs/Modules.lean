import TP2Kernel.Modules

/-!
# Packing and loading

What `ModulePacker` writes is what `loadModules` reads: the bytes of every module arrive at its
target. `memcpy` moves a block as a whole in both of its loops, and only the block that is copied
upwards into itself is lost.
-/

namespace TP2Kernel.Proofs
open ByteMemory ModuleImage

section Packing

variable {fs : FileSystem} {target : List UInt8} {names : List String}
  {modules : List (List UInt8)}

/-- Nothing is lost between the two files, and nothing is left where the end is met. -/
structure Copied (all : List UInt8) (w : List UInt8 × Source) : Prop where
  whole : w.1 ++ w.2.rest = all
  done : w.2.eof = true → w.2.rest = []

/-- The turns that are left at most. -/
def turnsLeft (w : List UInt8 × Source) : ℕ := w.2.rest.length + if w.2.eof then 0 else 1

lemma copyBuffer_copied {all : List UInt8} {w : List UInt8 × Source} (h : Copied all w)
    (heof : w.2.eof = false) :
    Copied all (Packer.copyBuffer w) ∧ turnsLeft (Packer.copyBuffer w) < turnsLeft w := by
  refine ⟨⟨?_, ?_⟩, ?_⟩
  · rw [← h.whole]
    simp [Packer.copyBuffer, fread]
  · intro hend
    rw [Packer.copyBuffer, fread, heof, Bool.false_or, decide_eq_true_eq] at hend
    exact List.drop_eq_nil_of_le hend.le
  · -- the last turn may read nothing, but it then meets the end
    by_cases hlt : w.2.rest.length < Packer.bufferSize
    · have : w.2.rest.length - Packer.bufferSize = 0 := by omega
      simp [turnsLeft, Packer.copyBuffer, fread, heof, hlt, this]
    · have : 0 < Packer.bufferSize := by decide
      simp [turnsLeft, Packer.copyBuffer, fread, heof, hlt]
      omega

lemma writeFile_eq (target bytes : List UInt8) :
    Packer.writeFile target ⟨bytes, false⟩ = target ++ bytes := by
  have h0 : Copied (target ++ bytes) (target, ⟨bytes, false⟩) := ⟨rfl, fun h => by cases h⟩
  obtain ⟨n, hn, hturns⟩ : ∃ n ≤ turnsLeft (target, ⟨bytes, false⟩),
      WhileLoop.Turns (fun w : List UInt8 × Source => w.2.eof = false) Packer.copyBuffer
        (target, ⟨bytes, false⟩) n :=
    WhileLoop.exists_turns h0 fun w hw heof => copyBuffer_copied hw heof
  change n ≤ bytes.length + 1 at hn
  have hcopied := hturns.invariant h0 (fun w hw heof => (copyBuffer_copied hw heof).1) le_rfl
  have heof := hturns.ends
  rw [Bool.not_eq_false] at heof
  rw [Packer.writeFile, hturns.run_eq hn, ← hcopied.whole, hcopied.done heof, List.append_nil]

lemma writeBinaries_eq (h : names.map fs = modules.map some) :
    Packer.writeBinaries fs target names = some (target ++ entries modules) := by
  induction names generalizing target modules with
  | nil =>
    obtain rfl : modules = [] := by simpa using h.symm
    simp [Packer.writeBinaries, entries]
  | cons name names ih =>
    cases modules with
    | nil => cases h
    | cons bytes modules =>
      obtain ⟨h1, h2⟩ := List.cons.inj h
      rw [Packer.writeBinaries, h1]
      simp only [Option.bind_eq_bind, Option.bind_some]
      rw [writeFile_eq, ih h2, Packer.writeSize, entries, entries, List.map_cons,
        List.flatten_cons, List.append_assoc, List.append_assoc, List.append_assoc]

lemma foldlM_parseArg {args : List String}
    (h : args.length + names.length ≤ Packer.maxFiles) :
    names.foldlM Packer.parseArg ⟨args, 0⟩ = some ⟨args ++ names, 0⟩ := by
  induction names generalizing args with
  | nil => simp
  | cons name names ih =>
    rw [List.length_cons] at h
    rw [List.foldlM_cons, Packer.parseArg, if_pos (by dsimp only; omega)]
    simp only [Option.bind_eq_bind, Option.bind_some]
    rw [ih (by rw [List.length_append, List.length_singleton]; omega), List.append_assoc,
      List.singleton_append]

lemma argpParse_eq (hpos : names ≠ []) (h : names.length ≤ Packer.maxFiles) :
    Packer.argpParse names = some ⟨names, names.length⟩ := by
  have hlen : ¬names.length < 1 := by
    rw [Nat.lt_one_iff, List.length_eq_zero_iff]
    exact hpos
  have hfold : names.foldlM Packer.parseArg ⟨[], 0⟩ = some ⟨names, 0⟩ :=
    foldlM_parseArg (by simpa using h)
  rw [Packer.argpParse, hfold]
  simp only [Option.bind_eq_bind, Option.bind_some]
  rw [Packer.parseEnd, if_neg hlen]

/-- Where all files can be read and their names fit in the array, the packer leaves the image of
their contents. -/
lemma main_eq {files : List String} {kernel : List UInt8}
    (h : files.map fs = (kernel :: modules).map some) (hcount : modules.length < Packer.maxFiles) :
    Packer.main fs files = some (image kernel modules) := by
  have hcheck : Packer.checkFiles fs files = true := by
    rw [Packer.checkFiles, List.all_eq_true]
    intro name hname
    have hmem : fs name ∈ (kernel :: modules).map some := h ▸ List.mem_map_of_mem hname
    obtain ⟨bytes, -, hb⟩ := List.mem_map.mp hmem
    rw [← hb]
    rfl
  cases files with
  | nil => cases h
  | cons name names =>
    obtain ⟨h1, h2⟩ := List.cons.inj h
    have hlen : names.length = modules.length := by simpa using congrArg List.length h2
    rw [Packer.main, argpParse_eq (by simp) (by rw [List.length_cons, hlen]; omega)]
    simp only [Option.bind_eq_bind, Option.bind_some, List.take_length]
    rw [if_pos hcheck, Packer.buildImage, h1]
    simp only [Option.bind_eq_bind, Option.bind_some]
    rw [writeFile_eq, writeBinaries_eq h2, List.nil_append, hlen, image]

end Packing

section Copying

variable {mem : ℕ → UInt8} {destination source length : ℕ}

lemma memcpy_eq_move
    (h : destination ≤ source ∨ source + length ≤ destination) :
    memcpy mem destination source length = move destination source length mem := by
  rw [memcpy]
  split
  · next hw =>
    have hlen : 4 * (length / 4) = length := by omega
    rw [copyCells_eq_move (by omega), hlen]
  · rw [copyCells_eq_move (by omega), one_mul]

/-- Copied upwards into itself, the block repeats its beginning. -/
lemma memcpy_repeats {x : ℕ} (h : source < destination) (hx : x < length) :
    memcpy mem destination source length (destination + x) =
      memcpy mem destination source length (source + x) := by
  rw [memcpy]
  split
  · exact copyCells_repeats (by omega) (by omega)
  · exact copyCells_repeats (by omega) (by omega)

lemma memcpy_of_notMem {x : ℕ} (h : x < destination ∨ destination + length ≤ x) :
    memcpy mem destination source length x = mem x := by
  rw [memcpy]
  split
  · exact copyCells_of_notMem (by omega)
  · exact copyCells_of_notMem (by omega)

/-- Both loops of `memcpy` move a block whatever its bytes are, exactly where it is not copied
upwards into itself. -/
theorem memcpy_moves_iff (destination source length : ℕ) :
    (∀ mem, memcpy mem destination source length = move destination source length mem) ↔
      ¬(source < destination ∧ destination < source + length) := by
  refine ⟨?_, fun h mem => memcpy_eq_move (by omega)⟩
  rintro h ⟨h1, h2⟩
  -- a one at the destination, which is overwritten before it is read
  obtain ⟨mem, hone, hzero⟩ : ∃ mem : ℕ → UInt8, mem destination = 1 ∧ mem source = 0 :=
    ⟨Function.update (fun _ => 0) destination 1, Function.update_self _ _ _,
      Function.update_of_ne h1.ne _ _⟩
  obtain ⟨k, rfl⟩ : ∃ k, destination = source + k := ⟨destination - source, by omega⟩
  have hmove : memcpy mem (source + k) source length (source + k + k) = 1 := by
    rw [h mem, move_of_mem (by omega) (by omega), Nat.add_sub_cancel_left, hone]
  have hrepeat : memcpy mem (source + k) source length (source + k + k) = 0 := by
    have hfirst : memcpy mem (source + k) source length (source + k) =
        memcpy mem (source + k) source length source := memcpy_repeats (x := 0) h1 (by omega)
    rw [memcpy_repeats h1 (by omega), hfirst, memcpy_of_notMem (Or.inl h1), hzero]
  rw [hmove] at hrepeat
  cases hrepeat

end Copying

/-- A kernel and two modules. -/
def threeFiles : FileSystem
  | "kernel.bin" => some [0xFA, 0xF4]
  | "code.bin" => some [1, 2, 3]
  | "data.bin" => some [4]
  | _ => none

lemma stores_getD (a : ℕ) (bs : List UInt8) : Stores (fun x => bs.getD (x - a) 0) a bs := by
  intro i hi
  change bs.getD (a + i - a) 0 = bs[i]
  rw [Nat.add_sub_cancel_left, List.getD_eq_getElem?_getD, List.getElem?_eq_getElem hi,
    Option.getD_some]

section Loading

variable {mem : ℕ → UInt8} {modules : List (List UInt8)} {targets ts : List ℕ} {a e i t : ℕ}

lemma entries_cons (bytes : List UInt8) (modules : List (List UInt8)) :
    entries (bytes :: modules) = wordBytes 4 bytes.length ++ (bytes ++ entries modules) := by
  rw [entries, List.map_cons, List.flatten_cons, List.append_assoc]
  rfl

lemma loadModule_eq {bytes : List UInt8} (hsize : bytes.length < 2 ^ 32)
    (hword : Stores mem a (wordBytes 4 bytes.length))
    (h : t ≤ a + 4 ∨ a + 4 + bytes.length ≤ t) :
    loadModule mem a t = (move t (a + 4) bytes.length mem, a + 4 + bytes.length) := by
  have hread : readWord mem 4 a = bytes.length := by
    rw [hword.readWord]
    exact Nat.mod_eq_of_lt hsize
  simp only [loadModule, readUint32, hread]
  rw [memcpy_eq_move h]

/-- The turns of the loop on a payload that ends at `e`. -/
lemma loadLoop_spec (hts : ∀ j, targets[i + j]? = ts[j]?) (hlen : modules.length ≤ ts.length)
    (hstores : Stores mem a (entries modules)) (he : a + (entries modules).length ≤ e)
    (hsize : ∀ m ∈ modules, m.length < 2 ^ 32) (hclear : Clear e a ts modules)
    (hapart : TargetsApart (ts.zip modules)) :
    ∃ mem', loadLoop targets modules.length i a mem = some mem' ∧
      (∀ p ∈ ts.zip modules, Stores mem' p.1 p.2) ∧
      ∀ x, (∀ p ∈ ts.zip modules, x < p.1 ∨ p.1 + p.2.length ≤ x) → mem' x = mem x := by
  induction modules generalizing ts i a mem with
  | nil => exact ⟨mem, rfl, by simp, fun _ _ => rfl⟩
  | cons bytes modules ih =>
    cases ts with
    | nil => simp at hlen
    | cons t ts =>
      rw [entries_cons, stores_append, stores_append, length_wordBytes] at hstores
      rw [entries_cons, List.length_append, List.length_append, length_wordBytes] at he
      obtain ⟨hword, hbytes, hrest⟩ := hstores
      obtain ⟨ht, hclear⟩ := hclear
      rw [List.zip_cons_cons, TargetsApart, List.pairwise_cons] at hapart
      obtain ⟨hfirst, hapart⟩ := hapart
      have hturn := loadModule_eq (t := t) (hsize bytes (by simp)) hword (by omega)
      have hrest' : Stores (move t (a + 4) bytes.length mem) (a + 4 + bytes.length)
          (entries modules) := by
        apply hrest.congr
        intro x h1 h2
        exact move_of_notMem (by omega)
      obtain ⟨mem', hloop, hplaced, hframe⟩ := ih (i := i + 1)
        (fun j => by rw [Nat.add_assoc, Nat.add_comm 1, hts (j + 1), List.getElem?_cons_succ])
        (by simpa using hlen) hrest' (by omega) (fun m hm => hsize m (by simp [hm])) hclear hapart
      refine ⟨mem', ?_, ?_, ?_⟩
      · have h0 := hts 0
        rw [Nat.add_zero, List.getElem?_cons_zero] at h0
        rw [List.length_cons, loadLoop, h0]
        simpa only [Option.bind_eq_bind, Option.bind_some, hturn] using hloop
      · intro p hp
        rw [List.zip_cons_cons, List.mem_cons] at hp
        obtain rfl | hp := hp
        · -- the modules after it are placed elsewhere
          apply (stores_move hbytes le_rfl).congr
          intro x h1 h2
          apply hframe
          intro q hq
          have := hfirst q hq
          dsimp only at h1 h2 this
          omega
        · exact hplaced p hp
      · intro x hx
        rw [List.zip_cons_cons, List.forall_mem_cons] at hx
        rw [hframe x hx.2, move_of_notMem hx.1]

lemma loadModules_spec {kernel : List UInt8} {base : ℕ}
    (hcount : modules.length < 2 ^ 32) (hsize : ∀ m ∈ modules, m.length < 2 ^ 32)
    (hmem : Stores mem base (image kernel modules)) (hlen : modules.length ≤ targets.length)
    (hclear : Clear (base + (image kernel modules).length) (base + kernel.length + 4) targets
      modules)
    (hapart : TargetsApart (targets.zip modules)) :
    ∃ mem', loadModules mem (base + kernel.length) targets = some mem' ∧
      (∀ p ∈ targets.zip modules, Stores mem' p.1 p.2) ∧
      ∀ x, (∀ p ∈ targets.zip modules, x < p.1 ∨ p.1 + p.2.length ≤ x) → mem' x = mem x := by
  rw [image, stores_append, stores_append, List.length_append, length_wordBytes,
    ← Nat.add_assoc] at hmem
  obtain ⟨⟨-, hword⟩, hentries⟩ := hmem
  have hread : readWord mem 4 (base + kernel.length) = modules.length := by
    rw [hword.readWord]
    exact Nat.mod_eq_of_lt hcount
  simp only [loadModules, readUint32, hread]
  refine loadLoop_spec (fun j => by rw [Nat.zero_add]) hlen hentries ?_ hsize hclear hapart
  simp only [image, List.length_append, length_wordBytes]
  omega

/-- The round trip of an image: what the packer writes of readable files, a kernel and at most 127
modules, is, wherever it stands in memory, loaded back module by module, and nothing else
changes. -/
theorem loadModules_main {fs : FileSystem} {files : List String} {kernel : List UInt8}
    (hfs : files.map fs = (kernel :: modules).map some) (hcount : modules.length < Packer.maxFiles)
    (hsize : ∀ m ∈ modules, m.length < 2 ^ 32) :
    ∃ image, Packer.main fs files = some image ∧
      ∀ mem base targets, Stores mem base image → modules.length ≤ targets.length →
        Clear (base + image.length) (base + kernel.length + 4) targets modules →
        TargetsApart (targets.zip modules) →
        ∃ mem', loadModules mem (base + kernel.length) targets = some mem' ∧
          (∀ p ∈ targets.zip modules, Stores mem' p.1 p.2) ∧
          ∀ x, (∀ p ∈ targets.zip modules, x < p.1 ∨ p.1 + p.2.length ≤ x) → mem' x = mem x :=
  ⟨_, main_eq hfs hcount, fun _ _ _ hmem hlen hclear hapart =>
    loadModules_spec (hcount.trans (by decide)) hsize hmem hlen hclear hapart⟩

theorem loadModules_main_sample :
    ∃ image mem mem', Packer.main threeFiles ["kernel.bin", "code.bin", "data.bin"] = some image ∧
      Stores mem 0 image ∧ loadModules mem 2 [100, 200] = some mem' ∧
      Stores mem' 100 [1, 2, 3] ∧ Stores mem' 200 [4] := by
  have hfs : ["kernel.bin", "code.bin", "data.bin"].map threeFiles =
      ([0xFA, 0xF4] :: [[1, 2, 3], [4]]).map some := rfl
  obtain ⟨image, himage, hload⟩ := loadModules_main hfs (by decide) (by decide)
  have hlen : image.length = 18 := by
    rw [main_eq hfs (by decide)] at himage
    rw [← Option.some.inj himage]
    rfl
  obtain ⟨mem', hmem', hplaced, -⟩ := hload _ 0 [100, 200] (stores_getD 0 image) (by decide)
    ⟨Or.inr (by omega), Or.inr (by omega), trivial⟩ (by simp [TargetsApart])
  exact ⟨image, _, mem', himage, stores_getD 0 image, hmem', hplaced (100, [1, 2, 3]) (.head _),
    hplaced (200, [4]) (.tail _ (.head _))⟩

end Loading

section Booting

variable {mem : ℕ → UInt8} {image : List UInt8} {l : KernelLayout}

lemma le_alignPage (a : ℕ) : a ≤ alignPage a := by
  unfold alignPage
  omega

lemma stores_moveTrailingBinary (h : Stores mem trailingBinary image)
    (hsize : image.length ≤ trailingSize) :
    Stores (moveTrailingBinary mem) kernelAddress image := by
  rw [moveTrailingBinary, copyCells_eq_move (by decide)]
  exact stores_move h hsize

lemma stores_memset {a destination length : ℕ} {c : Int32} {bs : List UInt8}
    (h : Stores mem a bs) (hapart : a + bs.length ≤ destination ∨ destination + length ≤ a) :
    Stores (memset mem destination c length) a bs :=
  h.congr fun x _ _ => fill_of_notMem (by omega)

/-- The boot of a packed kernel with the two modules it knows: kernel and modules are in place
before `main` runs, and the memory that `kernel.bin` does not hold is zero. -/
theorem boot_places {fs : FileSystem} {files : List String} {kernel code data : List UInt8}
    (hfs : files.map fs = [some kernel, some code, some data])
    (hbinary : l.binarySize = kernel.length) (hend : l.endOfKernel ≤ sampleCodeModuleAddress) :
    ∃ image, Packer.main fs files = some image ∧
      (image.length ≤ trailingSize → ∀ mem, Stores mem trailingBinary image →
        ∃ mem', initializeKernelBinary l (moveTrailingBinary mem) = some (mem', getStackBase l) ∧
          Stores mem' kernelAddress kernel ∧ Stores mem' sampleCodeModuleAddress code ∧
          Stores mem' sampleDataModuleAddress data ∧
          ∀ x, l.bss ≤ x → x < l.endOfKernel → mem' x = 0) := by
  have hfs' : files.map fs = (kernel :: [code, data]).map some := by simpa using hfs
  refine ⟨_, main_eq hfs' (by simp [Packer.maxFiles]), fun hsize mem hmem => ?_⟩
  have hmoved := stores_moveTrailingBinary hmem hsize
  have hkernel := hmoved
  rw [ModuleImage.image, List.append_assoc, stores_append] at hkernel
  have hlen : (ModuleImage.image kernel [code, data]).length =
      kernel.length + code.length + data.length + 12 := by
    simp [ModuleImage.image, entries]
    omega
  have h1 : l.endOfKernelBinary = kernelAddress + kernel.length := by
    rw [KernelLayout.endOfKernelBinary, hbinary]
  have h2 : l.endOfKernelBinary ≤ l.bss := le_alignPage _
  have h3 : l.bss ≤ l.endOfKernel := le_trans (Nat.le_add_right _ _) (le_alignPage _)
  have h4 : trailingSize = 0x40000 := rfl
  have h5 : kernelAddress = 0x100000 := rfl
  have h6 : sampleCodeModuleAddress = 0x400000 := rfl
  have h7 : sampleDataModuleAddress = 0x500000 := rfl
  have hsizes : ∀ m ∈ [code, data], m.length < 2 ^ 32 := by
    intro m hm
    have : m = code ∨ m = data := by simpa using hm
    rcases this with rfl | rfl <;> omega
  have hapart :
      TargetsApart ([sampleCodeModuleAddress, sampleDataModuleAddress].zip [code, data]) := by
    simp [TargetsApart]
    omega
  have hclear : Clear (kernelAddress + (ModuleImage.image kernel [code, data]).length)
      (kernelAddress + kernel.length + 4) [sampleCodeModuleAddress, sampleDataModuleAddress]
      [code, data] := ⟨Or.inr (by omega), Or.inr (by omega), trivial⟩
  obtain ⟨mem', hload, hplaced, hframe⟩ :=
    loadModules_spec (by simp) hsizes hmoved le_rfl hclear hapart
  have hcode : Stores mem' sampleCodeModuleAddress code := hplaced (_, code) (.head _)
  have hdata : Stores mem' sampleDataModuleAddress data := hplaced (_, data) (.tail _ (.head _))
  have hkernel' : Stores mem' kernelAddress kernel := by
    apply hkernel.1.congr
    intro x hx hlt
    apply hframe
    simp
    omega
  refine ⟨memset mem' l.bss 0 (l.endOfKernel - l.bss), ?_, stores_memset hkernel' (by omega),
    stores_memset hcode (by omega), stores_memset hdata (by omega), fun x hx hlt => ?_⟩
  · rw [initializeKernelBinary, h1, hload]
    rfl
  · exact fill_of_mem hx (by omega)

theorem boot_places_sample :
    ∃ image mem mem', Packer.main threeFiles ["kernel.bin", "code.bin", "data.bin"] = some image ∧
      Stores mem trailingBinary image ∧
      initializeKernelBinary ⟨2, 0x800⟩ (moveTrailingBinary mem) = some (mem', 0x109FF8) ∧
      Stores mem' 0x400000 [1, 2, 3] ∧ Stores mem' 0x500000 [4] := by
  have hfs : ["kernel.bin", "code.bin", "data.bin"].map threeFiles =
      [some [0xFA, 0xF4], some [1, 2, 3], some [4]] := rfl
  obtain ⟨image, himage, hboot⟩ := boot_places (l := ⟨2, 0x800⟩) hfs rfl (by decide)
  have hlen : image.length ≤ trailingSize := by
    have hfs' : ["kernel.bin", "code.bin", "data.bin"].map threeFiles =
        ([0xFA, 0xF4] :: [[1, 2, 3], [4]]).map some := rfl
    rw [main_eq hfs' (by decide)] at himage
    rw [← Option.some.inj himage]
    decide
  obtain ⟨mem', hmem', -, hcode, hdata, -⟩ := hboot hlen _ (stores_getD trailingBinary image)
  exact ⟨image, _, mem', himage, stores_getD _ image, hmem', hcode, hdata⟩

end Booting

end TP2Kernel.Proofs
