import Rv32iRtl.OrderlyRuns

/-! Words that are no RV32I instruction. The core raises no exception on them: it executes each as
some instruction, or as one that does nothing. -/
namespace Rv32iRtl

open Isa EventTrace PendingWrites

namespace Isa

/-- Only bit 5 of `funct7` is looked at, and only where it tells two operations apart. -/
def AluOp.near (f7 : BitVec 7) (f3 : BitVec 3) : AluOp :=
  match f3 with
  | 0b000#3 => if f7.getLsbD 5 then .sub else .add
  | 0b001#3 => .sll
  | 0b010#3 => .slt
  | 0b011#3 => .sltu
  | 0b100#3 => .xor
  | 0b101#3 => if f7.getLsbD 5 then .sra else .srl
  | 0b110#3 => .or
  | _ => .and

def ShiftOp.near (f7 : BitVec 7) (f3 : BitVec 3) : ShiftOp :=
  if f3 = 0b001#3 then .slli else if f7.getLsbD 5 then .srai else .srli

/-- Bit 2 of `funct3` is not looked at, and a doubleword is a word. -/
def StoreOp.near (f3 : BitVec 3) : StoreOp :=
  if f3.extractLsb 1 0 = 0b00#2 then .sb else if f3.extractLsb 1 0 = 0b01#2 then .sh else .sw

/-- The instruction as which a word is executed: a load of no size loads zero, and what has neither
operation nor operands does nothing. -/
def executedAs (w : Word) : Instr :=
  match decode w with
  | some i => i
  | none =>
    if opcode w = RTYPE then
      .op (.near (funct7 w) (funct3 w)) (rdField w) (rs1Field w) (rs2Field w)
    else if opcode w = ITYPE then
      .shiftImm (.near (funct7 w) (funct3 w)) (rdField w) (rs1Field w) (rs2Field w)
    else if opcode w = LOAD then .opImm .addi (rdField w) 0#5 0#12
    else if opcode w = STORE then .store (.near (funct3 w)) (rs1Field w) (rs2Field w) (sImm w)
    else if opcode w = JALR then .jalr (rdField w) (rs1Field w) (iImm w)
    else .miscMem .fence 0#5 0#5 0#12

end Isa

namespace Decoder

/-- The operation of the ALU, for every `funct7`. -/
lemma decAluOp_near {w : Word} (h : opcode w = RTYPE) :
    decAluOp w = (AluOp.near (funct7 w) (funct3 w)).code := by
  have hb : w.getLsbD 30 = (funct7 w).getLsbD 5 := by
    rw [funct7]
    grind
  have h3 : w.extractLsb 14 12 = funct3 w := rfl
  simp only [opcode, RTYPE] at h
  simp only [decAluOp, h, hb, h3, AluOp.near]
  generalize funct3 w = f3
  cases (funct7 w).getLsbD 5 <;> revert f3 <;> decide

lemma decAluOp_near_shift {w : Word} (h : opcode w = ITYPE)
    (h3 : funct3 w = 0b001#3 ∨ funct3 w = 0b101#3) :
    decAluOp w = (ShiftOp.near (funct7 w) (funct3 w)).aluOp.code := by
  have hb : w.getLsbD 30 = (funct7 w).getLsbD 5 := by
    rw [funct7]
    grind
  have hf : w.extractLsb 14 12 = funct3 w := rfl
  simp only [opcode, ITYPE] at h
  simp only [decAluOp, h, hb, hf, ShiftOp.near]
  rcases h3 with h3 | h3 <;> rw [h3] <;> cases (funct7 w).getLsbD 5 <;> rfl

end Decoder

lemma ImmOp.ofField_none {f3 : BitVec 3} (h : ImmOp.ofField f3 = none) :
    f3 = 0b001#3 ∨ f3 = 0b101#3 := by
  revert f3
  decide

lemma Lsu.rdata_undefined {f3 : BitVec 3} (h : LoadOp.ofField f3 = none) (data : Word) :
    Lsu.rdata f3 data = 0#32 := by
  have h3 : f3 = 0b011#3 ∨ f3 = 0b110#3 ∨ f3 = 0b111#3 := by
    revert f3
    decide
  rcases h3 with rfl | rfl | rfl <;> rfl

lemma StoreOp.near_funct3 (f3 : BitVec 3) :
    (StoreOp.near f3).funct3.extractLsb 1 0 = f3.extractLsb 1 0 ∨
      (StoreOp.near f3).funct3.extractLsb 1 0 = 0b10#2 ∧ f3.extractLsb 1 0 = 0b11#2 := by
  revert f3
  decide

lemma BranchUnit.condition_undefined {f3 : BitVec 3} (h : BranchOp.ofField f3 = none) (x y : Word) :
    BranchUnit.conditionMet x y f3 = false := by
  have h3 : f3 = 0b010#3 ∨ f3 = 0b011#3 := by
    revert f3
    decide
  rcases h3 with rfl | rfl <;> rfl

namespace SlotMachine

/-- The slot with another word to execute. -/
def holding (m : SlotMachine) (w : Word) : SlotMachine := { m with held := some w }

@[simp] lemma dec_holding (m : SlotMachine) (w : Word) : (m.holding w).dec = decoder w := rfl

@[simp] lemma operand_holding (m : SlotMachine) (w : Word) (r : RegAddr) :
    (m.holding w).operand r = m.operand r := rfl

lemma retire_holding (m : SlotMachine) : (m.holding m.word).retire = m.retire := rfl

variable {m : SlotMachine} {v w : Word}

/-- What a word does is where it goes on and what it writes. -/
lemma retire_congr (hpc : (m.holding v).retire.pc = (m.holding w).retire.pc)
    (hreg : (m.holding v).regWrite = (m.holding w).regWrite)
    (hmem : (m.holding v).memWrite = (m.holding w).memWrite) :
    (m.holding v).retire = (m.holding w).retire := by
  simp only [retire] at hpc ⊢
  rw [hpc, hreg, hmem]
  rfl

lemma not_taken (hb : (decoder w).branch = false) (hj : (decoder w).jump = false) :
    (m.holding w).taken = false := by
  simp [taken, isJal, isJalr, hb, hj, BranchUnit.branchTaken]

lemma retire_pc (h : (m.holding w).taken = false) : (m.holding w).retire.pc = m.pc + 4#32 :=
  if_neg (by simp [h])

lemma memWrite_none (h : (decoder w).memWrite = false) : (m.holding w).memWrite = none := by
  simp [memWrite, h]

lemma regWrite_none (h : (decoder w).regWrite = false) : (m.holding w).regWrite = none := by
  simp [regWrite, h]

/-- The controls of a word that computes a value for a register. -/
structure Computes (c : Control) : Prop where
  branch : c.branch = false
  jump : c.jump = false
  memWrite : c.memWrite = false
  regWrite : c.regWrite = true

lemma retire_computes (hv : Computes (decoder v).toControl) (hw : Computes (decoder w).toControl)
    (hrd : (decoder v).rd = (decoder w).rd) (hvalue : (m.holding v).value = (m.holding w).value) :
    (m.holding v).retire = (m.holding w).retire := by
  apply retire_congr
  · rw [retire_pc (not_taken hv.branch hv.jump), retire_pc (not_taken hw.branch hw.jump)]
  · simp only [regWrite, dec_holding, hv.regWrite, hw.regWrite, hrd, hvalue]
  · rw [memWrite_none hv.memWrite, memWrite_none hw.memWrite]

lemma value_alu (h : (decoder w).wbSel = 0b00#2) (ha : (decoder w).isAuipc = false) :
    (m.holding w).value = alu (m.operand (decoder w).rs1)
      (if (decoder w).aluSrc then (decoder w).imm else m.operand (decoder w).rs2)
      (decoder w).aluOp := by
  simp only [value, aluResult, x1, x2, dec_holding, operand_holding, h, ha]
  rfl

/-- A word that has no effect in the slot. -/
structure Idle (m : SlotMachine) (w : Word) : Prop where
  regWrite : (decoder w).regWrite = false
  memWrite : (decoder w).memWrite = false
  taken : (m.holding w).taken = false

lemma retire_idle (hv : m.Idle v) (hw : m.Idle w) : (m.holding v).retire = (m.holding w).retire := by
  apply retire_congr
  · rw [retire_pc hv.taken, retire_pc hw.taken]
  · rw [regWrite_none hv.regWrite, regWrite_none hw.regWrite]
  · rw [memWrite_none hv.memWrite, memWrite_none hw.memWrite]

lemma idle_fence (m : SlotMachine) : m.Idle (encode (.miscMem .fence 0#5 0#5 0#12)) :=
  ⟨rfl, rfl, not_taken rfl rfl⟩

section Undefined

variable (m : SlotMachine) {w : Word}

lemma retire_op (h : opcode w = RTYPE) :
    (m.holding (encode (.op (.near (funct7 w) (funct3 w)) (rdField w) (rs1Field w)
      (rs2Field w)))).retire = (m.holding w).retire := by
  let i : Instr := .op (.near (funct7 w) (funct3 w)) (rdField w) (rs1Field w) (rs2Field w)
  have hi : (decoder (encode i)).toControl = i.control := Decoder.control_encode i
  have hw : (decoder w).toControl = i.control := by
    refine (Decoder.control_eq w).trans ?_
    rw [if_pos h, Decoder.decAluOp_near h]
    rfl
  have hrs1 : (decoder w).rs1 = rs1Field w := by
    rw [Decoder.decoder_rs1, h]
    rfl
  have hc : Computes i.control := ⟨rfl, rfl, rfl, rfl⟩
  change (m.holding (encode i)).retire = _
  apply retire_computes (hi ▸ hc) (hw ▸ hc) (Decoder.dest_encode rfl)
  rw [value_alu (hi ▸ rfl) (hi ▸ rfl), value_alu (hw ▸ rfl) (hw ▸ rfl),
    Decoder.src1_encode (i := i) rfl, Decoder.src2_encode (i := i) rfl, hi, hw, hrs1]
  rfl

lemma retire_shift (h : opcode w = ITYPE) (h3 : funct3 w = 0b001#3 ∨ funct3 w = 0b101#3) :
    (m.holding (encode (.shiftImm (.near (funct7 w) (funct3 w)) (rdField w) (rs1Field w)
      (rs2Field w)))).retire = (m.holding w).retire := by
  let i : Instr := .shiftImm (.near (funct7 w) (funct3 w)) (rdField w) (rs1Field w) (rs2Field w)
  have hi : (decoder (encode i)).toControl = i.control := Decoder.control_encode i
  have himm : iImm w = funct7 w ++ rs2Field w := by
    unfold iImm funct7 rs2Field
    grind
  have hw : (decoder w).toControl =
      { imm := (funct7 w ++ rs2Field w).signExtend 32, aluSrc := true, regWrite := true,
        aluOp := (ShiftOp.near (funct7 w) (funct3 w)).aluOp.code } := by
    refine (Decoder.control_eq w).trans ?_
    rw [if_neg (by rw [h]; decide), if_pos h, Decoder.decAluOp_near_shift h h3, himm]
  have hrs1 : (decoder w).rs1 = rs1Field w := by
    rw [Decoder.decoder_rs1, h]
    rfl
  change (m.holding (encode i)).retire = _
  apply retire_computes (hi ▸ ⟨rfl, rfl, rfl, rfl⟩) (hw ▸ ⟨rfl, rfl, rfl, rfl⟩)
    (Decoder.dest_encode rfl)
  rw [value_alu (hi ▸ rfl) (hi ▸ rfl), value_alu (hw ▸ rfl) (hw ▸ rfl),
    Decoder.src1_encode (i := i) rfl, hi, hw, hrs1]
  simp only [i, Instr.control, if_true, alu_code, eval_shamt]

lemma retire_load (h : opcode w = LOAD) (h3 : LoadOp.ofField (funct3 w) = none) :
    (m.holding (encode (.opImm .addi (rdField w) 0#5 0#12))).retire = (m.holding w).retire := by
  let i : Instr := .opImm .addi (rdField w) 0#5 0#12
  have hi : (decoder (encode i)).toControl = i.control := Decoder.control_encode i
  have hw := Decoder.control_eq w
  rw [h] at hw
  change (decoder w).toControl = _ at hw
  have hwb : (decoder w).wbSel = 0b01#2 := by
    rw [hw]
    rfl
  have hzero : (m.holding w).value = 0#32 := by
    have hdata := Lsu.rdata_undefined h3
    have hf : (decoder w).branchFunct3 = funct3 w := rfl
    simp [value, hwb, access, lsu, hf, hdata]
  change (m.holding (encode i)).retire = _
  apply retire_computes (hi ▸ ⟨rfl, rfl, rfl, rfl⟩) (hw ▸ ⟨rfl, rfl, rfl, rfl⟩)
    (Decoder.dest_encode rfl)
  rw [hzero, value_alu (hi ▸ rfl) (hi ▸ rfl), Decoder.src1_encode (i := i) rfl, hi]
  rfl

lemma retire_store (h : opcode w = STORE) :
    (m.holding (encode (.store (.near (funct3 w)) (rs1Field w) (rs2Field w) (sImm w)))).retire =
      (m.holding w).retire := by
  let i : Instr := .store (.near (funct3 w)) (rs1Field w) (rs2Field w) (sImm w)
  have hi : (decoder (encode i)).toControl = i.control := Decoder.control_encode i
  have hw := Decoder.control_eq w
  rw [h] at hw
  change (decoder w).toControl = _ at hw
  have hrs1 : (decoder w).rs1 = rs1Field w := by
    rw [Decoder.decoder_rs1, h]
    rfl
  have hx1 : (m.holding (encode i)).x1 = (m.holding w).x1 := by
    simp only [x1, dec_holding, operand_holding, hrs1, Decoder.src1_encode (i := i) rfl]
  have hx2 : (m.holding (encode i)).x2 = (m.holding w).x2 := by
    simp only [x2, dec_holding, operand_holding, Decoder.src2_encode (i := i) rfl]
    rfl
  have haddr : (m.holding (encode i)).aluResult = (m.holding w).aluResult := by
    simp only [aluResult, dec_holding, hx1, hx2, hi, hw]
    rfl
  have hf : (decoder (encode i)).branchFunct3 = (StoreOp.near (funct3 w)).funct3 :=
    Decoder.store_funct3 _ _ _ _
  have hf' : (decoder w).branchFunct3 = funct3 w := rfl
  change (m.holding (encode i)).retire = _
  apply retire_congr
  · rw [retire_pc (not_taken (hi ▸ rfl) (hi ▸ rfl)), retire_pc (not_taken (hw ▸ rfl) (hw ▸ rfl))]
  · rw [regWrite_none (hi ▸ rfl), regWrite_none (hw ▸ rfl)]
  · have hwrite : (decoder (encode i)).memWrite = (decoder w).memWrite := by
      rw [hi, hw]
      rfl
    have hbe : Lsu.memBe (StoreOp.near (funct3 w)).funct3 = Lsu.memBe (funct3 w) := by
      funext a
      rcases StoreOp.near_funct3 (funct3 w) with hlow | ⟨hlow, hthree⟩
      · simp only [Lsu.memBe, hlow]
      · simp only [Lsu.memBe, hlow, hthree]
        rfl
    have hdata : Lsu.memWdata (StoreOp.near (funct3 w)).funct3 = Lsu.memWdata (funct3 w) := by
      funext a
      rcases StoreOp.near_funct3 (funct3 w) with hlow | ⟨hlow, hthree⟩
      · simp only [Lsu.memWdata, hlow]
      · simp only [Lsu.memWdata, hlow, hthree]
        rfl
    simp only [memWrite, access, lsu, dec_holding, hwrite, haddr, hx2, hf, hf', hbe, hdata]
    rfl

lemma retire_jalr (h : opcode w = JALR) :
    (m.holding (encode (.jalr (rdField w) (rs1Field w) (iImm w)))).retire =
      (m.holding w).retire := by
  let i : Instr := .jalr (rdField w) (rs1Field w) (iImm w)
  have hi : (decoder (encode i)).toControl = i.control := Decoder.control_encode i
  have hw := Decoder.control_eq w
  rw [h] at hw
  change (decoder w).toControl = _ at hw
  have hrs1 : (decoder w).rs1 = rs1Field w := by
    rw [Decoder.decoder_rs1, h]
    rfl
  have hrd : (decoder (encode i)).rd = (decoder w).rd := Decoder.dest_encode rfl
  have hx1 : (m.holding (encode i)).x1 = (m.holding w).x1 := by
    simp only [x1, dec_holding, operand_holding, hrs1, Decoder.src1_encode (i := i) rfl]
  change (m.holding (encode i)).retire = _
  apply retire_congr
  · simp only [retire, taken, target, isJal, isJalr, dec_holding, hx1, hi, hw]
    rfl
  · simp only [regWrite, value, dec_holding, hrd, hi, hw]
    rfl
  · rw [memWrite_none (hi ▸ rfl), memWrite_none (hw ▸ rfl)]

end Undefined

end SlotMachine

section Decode

variable {w : Word} (hd : decode w = none)

include hd

lemma ofField_of_itype (h : opcode w = ITYPE) : ImmOp.ofField (funct3 w) = none := by
  cases ho : ImmOp.ofField (funct3 w) with
  | none => rfl
  | some o =>
    have hr : ITYPE ≠ RTYPE := by decide
    simp [decode, h, hr, ho] at hd

lemma ofField_of_load (h : opcode w = LOAD) : LoadOp.ofField (funct3 w) = none := by
  have hr : LOAD ≠ RTYPE := by decide
  have hi : LOAD ≠ ITYPE := by decide
  simpa [decode, h, hr, hi] using hd

lemma ofField_of_branch (h : opcode w = BRANCH) : BranchOp.ofField (funct3 w) = none := by
  have hr : BRANCH ≠ RTYPE := by decide
  have hi : BRANCH ≠ ITYPE := by decide
  have hl : BRANCH ≠ LOAD := by decide
  have hs : BRANCH ≠ STORE := by decide
  simpa [decode, h, hr, hi, hl, hs] using hd

lemma opcode_of_none : opcode w ≠ JAL ∧ opcode w ≠ LUI ∧ opcode w ≠ AUIPC := by
  refine ⟨?_, ?_, ?_⟩ <;> intro h
  · simp [decode, h, RTYPE, ITYPE, LOAD, STORE, BRANCH, JAL] at hd
  · simp [decode, h, RTYPE, ITYPE, LOAD, STORE, BRANCH, JAL, JALR, LUI] at hd
  · simp [decode, h, RTYPE, ITYPE, LOAD, STORE, BRANCH, JAL, JALR, LUI, AUIPC] at hd

end Decode

namespace SlotMachine

/-- What is left has no effect. -/
lemma idle_undefined (m : SlotMachine) {w : Word} (hd : decode w = none) (hr : opcode w ≠ RTYPE)
    (hi : opcode w ≠ ITYPE) (hl : opcode w ≠ LOAD) (hs : opcode w ≠ STORE) (hj : opcode w ≠ JALR) :
    m.Idle w := by
  obtain ⟨hjal, hlui, hauipc⟩ := opcode_of_none hd
  have hw := Decoder.control_eq w
  rw [if_neg hr, if_neg hi, if_neg hl, if_neg hs] at hw
  change (decoder w).toControl = _ at hw
  by_cases hb : opcode w = BRANCH
  · rw [if_pos hb] at hw
    have hcond := BranchUnit.condition_undefined (ofField_of_branch hd hb)
    have hf : (decoder w).branchFunct3 = funct3 w := rfl
    refine ⟨hw ▸ rfl, hw ▸ rfl, ?_⟩
    have hjump : (decoder w).jump = false := hw ▸ rfl
    simp [taken, isJal, isJalr, BranchUnit.branchTaken, hjump, hf, hcond]
  · rw [if_neg hb, if_neg hjal, if_neg hj, if_neg hlui, if_neg hauipc] at hw
    exact ⟨hw ▸ rfl, hw ▸ rfl, not_taken (hw ▸ rfl) (hw ▸ rfl)⟩

lemma retire_executedAs (m : SlotMachine) (w : Word) :
    (m.holding (encode (executedAs w))).retire = (m.holding w).retire := by
  cases hd : decode w with
  | some i => simp only [executedAs, hd, encode_decode hd]
  | none =>
    simp only [executedAs, hd]
    by_cases hr : opcode w = RTYPE
    · rw [if_pos hr, retire_op m hr]
    rw [if_neg hr]
    by_cases hi : opcode w = ITYPE
    · rw [if_pos hi, retire_shift m hi (ImmOp.ofField_none (ofField_of_itype hd hi))]
    rw [if_neg hi]
    by_cases hl : opcode w = LOAD
    · rw [if_pos hl, retire_load m hl (ofField_of_load hd hl)]
    rw [if_neg hl]
    by_cases hs : opcode w = STORE
    · rw [if_pos hs, retire_store m hs]
    rw [if_neg hs]
    by_cases hj : opcode w = JALR
    · rw [if_pos hj, retire_jalr m hj]
    rw [if_neg hj, retire_idle (idle_fence m) (idle_undefined m hd hr hi hl hs hj)]

/-- The sequential machine in this slot, with all writes done. -/
def sequential (m : SlotMachine) : State := ⟨m.pc, m.regs.now, m.mem.now⟩

lemma follows_sequential (m : SlotMachine) (w : Word) : (m.holding w).Follows m.sequential :=
  ⟨rfl, rfl, rfl⟩

/-- What the slot does with an instruction whose operands are fresh and plain. -/
lemma holding_refines_isa (m : SlotMachine) {i : Instr} (hs : ∀ r ∈ i.reads, ¬m.regs.Missed r)
    (hp : m.sequential.Plain i) :
    (m.holding (encode i)).retire.pc = (m.sequential.exec i).pc ∧
      (m.holding (encode i)).regWrite = m.sequential.regWrite i ∧
      (m.holding (encode i)).memWrite = m.sequential.memWrite i := by
  have hi : encode i = (m.holding (encode i)).word := rfl
  have hf := m.follows_sequential (encode i)
  exact ⟨pc_eq hi hf hs, regWrite_eq hi hf hs hp, memWrite_eq hi hf hs hp⟩

end SlotMachine

/-- In every run, every word in EX has the effects that the core has on the encoding of one RV32I
instruction, of itself if it is one: the same continuation, the same register write, the same
store. They are those of RV32I where the operands are fresh and plain. -/
theorem every_word_executes (s₀ : Top) (n : ℕ) (f : Fetched) (hf : (trace s₀ n).inEx = some f) :
    let i := executedAs f.word
    let m := (slots s₀ n).holding (encode i)
    let τ := (slots s₀ n).sequential
    (∀ i, decode f.word = some i → executedAs f.word = i) ∧
      (trace s₀ (n + 1)).next = m.retire.pc ∧
      (trace s₀ (n + 2)).top.regWriteEvent = m.regEvent ∧
      (trace s₀ (n + 1)).top.memWriteEvent = m.memEvent ∧
      ((∀ r ∈ i.reads, ¬(slots s₀ n).regs.Missed r) → τ.Plain i →
        (trace s₀ (n + 1)).next = (τ.exec i).pc ∧
          (trace s₀ (n + 2)).top.regWriteEvent = τ.regWrite i ∧
          (trace s₀ (n + 1)).top.memWriteEvent = τ.memWrite i) := by
  intro i m τ
  have hb : (slots s₀ n).bubbles = 0 := isSome_inEx_iff.mp (Option.isSome_of_eq_some hf)
  have hlock := lockstep s₀ n
  obtain ⟨f', hf', -, hword⟩ := hlock.inEx hb
  obtain rfl := Option.some.inj (hf.symm.trans hf')
  have hsame : m.retire = (slots s₀ n).retire := by
    simp only [m, i, hword]
    exact (SlotMachine.retire_executedAs _ _).trans (SlotMachine.retire_holding _)
  have hnext : (trace s₀ (n + 1)).next = m.retire.pc := by
    rw [(lockstep s₀ (n + 1)).pc, slots_succ, SlotMachine.step_pc hb, hsame]
    rfl
  have hreg : (trace s₀ (n + 2)).top.regWriteEvent = m.regWrite := by
    have hwrite : m.regWrite = (slots s₀ n).regWrite := congrArg (fun m => m.regs.newest) hsame
    rw [hlock.regEvent, SlotMachine.regEvent, if_pos hb, hwrite]
  have hmem : (trace s₀ (n + 1)).top.memWriteEvent = m.memWrite := by
    have hwrite : m.memWrite = (slots s₀ n).memWrite := congrArg (fun m => m.mem.newest) hsame
    rw [hlock.memEvent, SlotMachine.memEvent, if_pos hb, hwrite]
  refine ⟨fun i hi => ?_, hnext, ?_, ?_, fun hs hp => ?_⟩
  · simp only [executedAs, hi]
  · rw [hreg, SlotMachine.regEvent]
    exact (if_pos hb).symm
  · rw [hmem, SlotMachine.memEvent]
    exact (if_pos hb).symm
  · rw [hnext, hreg, hmem]
    exact (slots s₀ n).holding_refines_isa hs hp

/-- `addi x1,x0,5; addi x2,x0,7; mul x3,x1,x2`: the product is the sum. -/
theorem every_word_executes_mul :
    executedAs 0x022081b3#32 = .op .add 3#5 1#5 2#5 ∧
      (trace (load [0x00500093#32, 0x00700113#32, 0x022081b3#32]) 6).top.regWriteEvent =
        (slots (load [0x00500093#32, 0x00700113#32, 0x022081b3#32]) 4).sequential.regWrite
          (executedAs 0x022081b3#32) :=
  ⟨by decide, ((every_word_executes (load [0x00500093#32, 0x00700113#32, 0x022081b3#32]) 4
    ⟨8#32, 0x022081b3#32, 2⟩ (by decide +kernel)).2.2.2.2 (by decide +kernel)
      (by decide +kernel)).2.1⟩

end Rv32iRtl
