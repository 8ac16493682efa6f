import Rv32iRtl.DumpFormat
import Rv32iRtl.FetchOrder

/-! From the ELF image to the instruction fetch. The converter writes the image into
`mem_init.hex`, but `top.v` has no `initial` block that reads it, so the words fetched
before the first store are those that the array held when the simulation started. -/
namespace Rv32iRtl

open ByteLanes

/-- The bytes of an ELF image, by their offset in the memory window. -/
abbrev Image := BitVec 18 → Option (BitVec 8)

/-- The little-endian word at a byte offset, with NOP bytes where the image has none. -/
def Image.word (img : Image) (pc : Word) : Word :=
  ofLanes fun k =>
    let b := byteIndex pc + k.setWidth 18
    (img b).getD (lane NOP (offset b))

/-- `objcopy` dumps each byte of the image at its address. -/
def Dump.Dumps (d : Dump) (img : Image) : Prop :=
  ∀ b : BitVec 18, d.lastByte (BASE_ADDR + b.toNat) = (img b).map BitVec.toNat

/-- The memory array at the start of a simulation in a directory with the given
`mem_init.hex`: no `$readmemh` loads the file, so the array is what it was. -/
def startMem (_memInit : Option (List Char)) (unset : BitVec 16 → Word) : BitVec 16 → Word := unset

/-- The run after the conversion of the dump; the registers hold anything. -/
def imageRun (d : Dump) (hexOut : Option (List Char)) (unset : BitVec 16 → Word)
    (regs : RegAddr → Word) (n : ℕ) : Top :=
  (trace (Top.powerOn (startMem (elfToHex (.exited 0 d.text) hexOut BASE_ADDR).2 unset) regs) n).top

/-- No store is executed before cycle `n`. -/
def StoreFree (run : ℕ → Top) (n : ℕ) : Prop := ∀ m < n, (run m).memWriteEvent = none

/-- The word fetched in this cycle enters IF/ID at its end. -/
def Top.Fetches (s : Top) : Prop := s.branchTakenEx = false ∧ s.loadUse = false

/-- Until the first store, the words entering IF/ID are those of the image. -/
def FetchesImage (img : Image) (run : ℕ → Top) : Prop :=
  ∀ n, StoreFree run n → (run n).Fetches →
    (run (n + 1)).ifId = ⟨(run n).pc, img.word (run n).pc⟩

lemma imageRun_zero_mem (d : Dump) (hexOut : Option (List Char)) (unset : BitVec 16 → Word)
    (regs : RegAddr → Word) : (imageRun d hexOut unset regs 0).mem = unset := by
  rw [imageRun, trace_zero, Traced.boot, Top.powerOn_step_reset]
  rfl

/-- What enters IF/ID before the first store is what the array held at the start. -/
lemma fetched_start_mem {d : Dump} {hexOut : Option (List Char)} {unset : BitVec 16 → Word}
    {regs : RegAddr → Word} {n : ℕ} (hs : StoreFree (imageRun d hexOut unset regs) n)
    (hf : (imageRun d hexOut unset regs n).Fetches) :
    (imageRun d hexOut unset regs (n + 1)).ifId =
      ⟨(imageRun d hexOut unset regs n).pc,
        unset (wordIndex (imageRun d hexOut unset regs n).pc)⟩ := by
  have hmem : (imageRun d hexOut unset regs n).instrFetch =
      unset (wordIndex (imageRun d hexOut unset regs n).pc) := by
    have hsame : ∀ i, (imageRun d hexOut unset regs n).mem i =
        (imageRun d hexOut unset regs 0).mem i := by
      intro i
      refine mem_unwritten (Nat.zero_le n) fun k _ hk v hv => ?_
      have hnone := hs k hk
      rw [imageRun, hv] at hnone
      contradiction
    rw [Top.instrFetch, hsame, imageRun_zero_mem]
  obtain ⟨hb, hl⟩ := hf
  rw [← hmem, imageRun, trace_top_succ, Top.step_ifId]
  change (if (imageRun d hexOut unset regs n).branchTakenEx then _ else
    if (imageRun d hexOut unset regs n).loadUse then _ else _) = _
  simp only [hb, hl]
  rfl

lemma imageRun_first (d : Dump) (hexOut : Option (List Char)) (unset : BitVec 16 → Word)
    (regs : RegAddr → Word) :
    (imageRun d hexOut unset regs 0).pc = 0#32 ∧ (imageRun d hexOut unset regs 0).Fetches := by
  rw [imageRun, trace_zero, Traced.boot, Top.powerOn_step_reset]
  exact ⟨rfl, rfl, rfl⟩

/-- A dump of one word at the base address, `addi x1,x0,5`. -/
def addiDump : Dump where
  lines := [(.address [] ⟨'8', rfl⟩ (List.replicate 7 ⟨'0', rfl⟩) [],
    ⟨['\n'], '\n', rfl, by simp [isCrLf], Or.inl rfl⟩)]
  last := .bytes [] [(⟨⟨'9', rfl⟩, ⟨'3', rfl⟩⟩, ⟨' ', rfl, rfl⟩, []),
    (⟨⟨'0', rfl⟩, ⟨'0', rfl⟩⟩, ⟨' ', rfl, rfl⟩, []),
    (⟨⟨'5', rfl⟩, ⟨'0', rfl⟩⟩, ⟨' ', rfl, rfl⟩, [])] ⟨⟨'0', rfl⟩, ⟨'0', rfl⟩⟩ []

example : addiDump.text = "@80000000\n93 00 50 00".toList := by decide

def addiImage : Image := fun b => (addiDump.lastByte (BASE_ADDR + b.toNat)).map (BitVec.ofNat 8)

lemma addiDump_dumps : addiDump.Dumps addiImage := by
  intro b
  rw [addiImage, Option.map_map]
  cases h : addiDump.lastByte (BASE_ADDR + b.toNat) with
  | none => rfl
  | some v =>
    have hv : v < 256 := given_lt 0 addiDump.items _ (OrderedDict.mem_of_lastFor h)
    simp [Nat.mod_eq_of_lt hv]

lemma addiImage_word : addiImage.word 0#32 = 0x00500093#32 := by decide

/-- No image is sure to reach the core. It does exactly in the runs whose array, which
nothing loads, held the image's word at every address fetched before the first store. -/
theorem image_fetched_iff (img : Image) (d : Dump) (_ : d.Dumps img)
    (hexOut : Option (List Char)) :
    (¬ ∀ unset regs, FetchesImage img (imageRun d hexOut unset regs)) ∧
    ∀ unset regs, FetchesImage img (imageRun d hexOut unset regs) ↔
      ∀ n, StoreFree (imageRun d hexOut unset regs) n → (imageRun d hexOut unset regs n).Fetches →
        unset (wordIndex (imageRun d hexOut unset regs n).pc) =
          img.word (imageRun d hexOut unset regs n).pc := by
  have hiff : ∀ unset regs, FetchesImage img (imageRun d hexOut unset regs) ↔
      ∀ n, StoreFree (imageRun d hexOut unset regs) n → (imageRun d hexOut unset regs n).Fetches →
        unset (wordIndex (imageRun d hexOut unset regs n).pc) =
          img.word (imageRun d hexOut unset regs n).pc := by
    intro unset regs
    constructor
    · intro h n hs hf
      have himg := h n hs hf
      rw [fetched_start_mem hs hf] at himg
      exact congrArg IfId.instr himg
    · intro h n hs hf
      rw [fetched_start_mem hs hf, h n hs hf]
  refine ⟨fun h => ?_, hiff⟩
  let unset : BitVec 16 → Word := fun _ => ~~~ img.word 0#32
  obtain ⟨hpc, hf⟩ := imageRun_first d hexOut unset fun _ => 0#32
  have h0 := (hiff unset fun _ => 0#32).mp (h _ _) 0 (fun m hm => by omega) hf
  rw [hpc] at h0
  have hne : ~~~ img.word 0#32 ≠ img.word 0#32 := by
    generalize img.word 0#32 = w
    intro hc
    have := congrArg (fun v => v.getLsbD 0) hc
    simp at this
  exact hne h0

theorem image_fetched_iff_addi : addiDump.Dumps addiImage ∧
    ¬ ∀ unset regs, FetchesImage addiImage (imageRun addiDump none unset regs) :=
  ⟨addiDump_dumps, (image_fetched_iff addiImage addiDump addiDump_dumps none).1⟩

/-- With an array of zeros the first word fetched is zero, not the image's `addi`. -/
theorem image_fetch_fails :
    ¬ ∀ (img : Image) (d : Dump), d.Dumps img → ∀ hexOut unset regs,
      FetchesImage img (imageRun d hexOut unset regs) := by
  intro h
  obtain ⟨hpc, hf⟩ := imageRun_first addiDump none (fun _ => 0#32) fun _ => 0#32
  have hs : StoreFree (imageRun addiDump none (fun _ => 0#32) fun _ => 0#32) 0 :=
    fun m hm => absurd hm (Nat.not_lt_zero m)
  have himg := h addiImage addiDump addiDump_dumps none (fun _ => 0#32) (fun _ => 0#32) 0 hs hf
  rw [fetched_start_mem hs hf, hpc, addiImage_word] at himg
  exact absurd (congrArg IfId.instr himg) (by decide)

end Rv32iRtl
