import Rv32iRtl.IsaMachine
import Rv32iRtl.StageContents

/-! Decoder, ID/EX, operand muxes, ALU and branch unit together against the ISA:
an encoded instruction that has entered EX has the outcome of the manual. -/
namespace Rv32iRtl

open Isa

namespace Isa

def AluOp.code : AluOp → BitVec 4
  | .add => 0b0000#4
  | .sub => 0b0001#4
  | .and => 0b0010#4
  | .or => 0b0011#4
  | .xor => 0b0100#4
  | .slt => 0b0101#4
  | .sltu => 0b0110#4
  | .sll => 0b0111#4
  | .srl => 0b1000#4
  | .sra => 0b1001#4

/-- The control word that the datapath of `top.v` needs for an instruction. -/
def Instr.control : Instr → Control
  | op o _ _ _ => { regWrite := true, aluOp := o.code }
  | opImm o _ _ imm =>
    { imm := imm.signExtend 32, aluSrc := true, regWrite := true, aluOp := o.aluOp.code }
  | shiftImm o _ _ shamt =>
    { imm := (o.funct7 ++ shamt).signExtend 32, aluSrc := true, regWrite := true,
      aluOp := o.aluOp.code }
  | load o _ _ imm =>
    { imm := imm.signExtend 32, aluSrc := true, memRead := true, regWrite := true,
      wbSel := 0b01#2, memSize := o.funct3.extractLsb 1 0 }
  | store o _ _ imm =>
    { imm := imm.signExtend 32, aluSrc := true, memWrite := true,
      memSize := o.funct3.extractLsb 1 0 }
  | branch _ _ _ imm => { imm := (imm ++ 0#1).signExtend 32, branch := true }
  | jal _ imm =>
    { imm := (imm ++ 0#1).signExtend 32, regWrite := true, wbSel := 0b10#2, jump := true }
  | jalr _ _ imm =>
    { imm := imm.signExtend 32, aluSrc := true, regWrite := true, wbSel := 0b10#2, jump := true }
  | lui _ imm => { imm := imm ++ 0#12, aluSrc := true, regWrite := true }
  | auipc _ imm => { imm := imm ++ 0#12, aluSrc := true, regWrite := true, isAuipc := true }
  | miscMem .. => {}

end Isa

namespace Decoder

lemma immI_eq (w : Word) : immI w = (iImm w).signExtend 32 := by
  unfold immI iImm
  grind

lemma immS_eq (w : Word) : immS w = (sImm w).signExtend 32 := by
  unfold immS sImm
  grind

lemma immB_eq (w : Word) : immB w = (bImm w ++ 0#1).signExtend 32 := by
  unfold immB bImm
  grind

lemma immJ_eq (w : Word) : immJ w = (jImm w ++ 0#1).signExtend 32 := by
  unfold immJ jImm
  grind

lemma immU_eq (w : Word) : immU w = uImm w ++ 0#12 := rfl

/-- The opcode case of the decoder in terms of the manual's fields. -/
lemma control_eq (w : Word) : control w =
    if opcode w = RTYPE then { regWrite := true, aluOp := decAluOp w }
    else if opcode w = ITYPE then
      { imm := (iImm w).signExtend 32, aluSrc := true, regWrite := true, aluOp := decAluOp w }
    else if opcode w = LOAD then
      { imm := (iImm w).signExtend 32, aluSrc := true, memRead := true, regWrite := true,
        wbSel := 0b01#2, memSize := (funct3 w).extractLsb 1 0 }
    else if opcode w = STORE then
      { imm := (sImm w).signExtend 32, aluSrc := true, memWrite := true,
        memSize := (funct3 w).extractLsb 1 0 }
    else if opcode w = BRANCH then { imm := (bImm w ++ 0#1).signExtend 32, branch := true }
    else if opcode w = JAL then
      { imm := (jImm w ++ 0#1).signExtend 32, regWrite := true, wbSel := 0b10#2, jump := true }
    else if opcode w = JALR then
      { imm := (iImm w).signExtend 32, aluSrc := true, regWrite := true, wbSel := 0b10#2,
        jump := true }
    else if opcode w = LUI then { imm := uImm w ++ 0#12, aluSrc := true, regWrite := true }
    else if opcode w = AUIPC then
      { imm := uImm w ++ 0#12, aluSrc := true, regWrite := true, isAuipc := true }
    else {} := by
  have hm : (w.extractLsb 13 12 : BitVec 2) = (funct3 w).extractLsb 1 0 := by
    unfold funct3
    grind
  simp only [control, immI_eq, immS_eq, immB_eq, immJ_eq, immU_eq, hm, opcode, RTYPE, ITYPE, LOAD,
    STORE, BRANCH, JAL, JALR, LUI, AUIPC]
  split <;> simp_all

lemma decAluOp_rtype {w : Word} (h : opcode w = RTYPE) {o : AluOp} (h7 : funct7 w = o.funct7)
    (h3 : funct3 w = o.funct3) : decAluOp w = o.code := by
  have hb : w.getLsbD 30 = o.funct7.getLsbD 5 := by
    rw [← h7, funct7]
    grind
  simp only [opcode, RTYPE, funct3] at h h3
  simp only [decAluOp, h, h3, hb]
  cases o <;> rfl

lemma decAluOp_opImm {w : Word} (h : opcode w = ITYPE) {o : ImmOp} (h3 : funct3 w = o.funct3) :
    decAluOp w = o.aluOp.code := by
  simp only [opcode, ITYPE, funct3] at h h3
  simp only [decAluOp, h, h3]
  cases o <;> rfl

lemma decAluOp_shiftImm {w : Word} (h : opcode w = ITYPE) {o : ShiftOp} (h7 : funct7 w = o.funct7)
    (h3 : funct3 w = o.funct3) : decAluOp w = o.aluOp.code := by
  have hb : w.getLsbD 30 = o.funct7.getLsbD 5 := by
    rw [← h7, funct7]
    grind
  simp only [opcode, ITYPE, funct3] at h h3
  simp only [decAluOp, h, h3, hb]
  cases o <;> rfl

/-- The decoder drives the control word of every encoded instruction. -/
theorem control_encode (i : Instr) : control (encode i) = i.control := by
  rw [control_eq]
  cases i with
  | op o rd rs1 rs2 =>
    obtain ⟨h7, -, -, h3, -, ho⟩ := rFormat_fields o.funct7 rs2 rs1 rd o.funct3 RTYPE
    rw [encode, if_pos ho, decAluOp_rtype ho h7 h3, Instr.control]
  | opImm o rd rs1 imm =>
    obtain ⟨hi, -, h3, -, ho⟩ := iFormat_fields rs1 rd o.funct3 ITYPE imm
    rw [encode, decAluOp_opImm ho h3, hi, ho]
    rfl
  | shiftImm o rd rs1 shamt =>
    obtain ⟨h7, -, -, h3, -, ho⟩ := rFormat_fields o.funct7 shamt rs1 rd o.funct3 ITYPE
    have hi : iImm (rFormat o.funct7 shamt rs1 o.funct3 rd ITYPE) = o.funct7 ++ shamt := by
      unfold iImm rFormat
      grind
    rw [encode, decAluOp_shiftImm ho h7 h3, hi, ho]
    rfl
  | load o rd rs1 imm =>
    obtain ⟨hi, -, h3, -, ho⟩ := iFormat_fields rs1 rd o.funct3 LOAD imm
    rw [encode, hi, h3, ho]
    rfl
  | store o rs1 rs2 imm =>
    obtain ⟨hi, -, -, h3, ho⟩ := sFormat_fields rs2 rs1 o.funct3 STORE imm
    rw [encode, hi, h3, ho]
    rfl
  | branch o rs1 rs2 imm =>
    obtain ⟨hi, -, -, -, ho⟩ := bFormat_fields rs2 rs1 o.funct3 BRANCH imm
    rw [encode, hi, ho]
    rfl
  | jal rd imm =>
    obtain ⟨hi, -, ho⟩ := jFormat_fields rd JAL imm
    rw [encode, hi, ho]
    rfl
  | jalr rd rs1 imm =>
    obtain ⟨hi, -, -, -, ho⟩ := iFormat_fields rs1 rd 0b000#3 JALR imm
    rw [encode, hi, ho]
    rfl
  | lui rd imm =>
    obtain ⟨hi, -, ho⟩ := uFormat_fields rd LUI imm
    rw [encode, hi, ho]
    rfl
  | auipc rd imm =>
    obtain ⟨hi, -, ho⟩ := uFormat_fields rd AUIPC imm
    rw [encode, hi, ho]
    rfl
  | miscMem o rd rs1 imm =>
    obtain ⟨-, -, -, -, ho⟩ := iFormat_fields rs1 rd o.funct3 FENCE imm
    rw [encode, ho]
    rfl

lemma decoder_rs1 (w : Word) : (decoder w).rs1 = if opcode w = LUI then 0#5 else rs1Field w :=
  if_congr beq_iff_eq rfl rfl

lemma src1_encode {i : Instr} {r : RegAddr} (h : i.src1 = some r) : (decoder (encode i)).rs1 = r := by
  rw [decoder_rs1]
  cases i <;> simp only [Instr.src1, Option.some.injEq, reduceCtorEq] at h <;> subst h
  case op o rd rs1 rs2 =>
    obtain ⟨-, -, h1, -, -, ho⟩ := rFormat_fields o.funct7 rs2 rs1 rd o.funct3 RTYPE
    rw [encode, ho, h1]
    rfl
  case opImm o rd rs1 imm =>
    obtain ⟨-, h1, -, -, ho⟩ := iFormat_fields rs1 rd o.funct3 ITYPE imm
    rw [encode, ho, h1]
    rfl
  case shiftImm o rd rs1 shamt =>
    obtain ⟨-, -, h1, -, -, ho⟩ := rFormat_fields o.funct7 shamt rs1 rd o.funct3 ITYPE
    rw [encode, ho, h1]
    rfl
  case load o rd rs1 imm =>
    obtain ⟨-, h1, -, -, ho⟩ := iFormat_fields rs1 rd o.funct3 LOAD imm
    rw [encode, ho, h1]
    rfl
  case store o rs1 rs2 imm =>
    obtain ⟨-, -, h1, -, ho⟩ := sFormat_fields rs2 rs1 o.funct3 STORE imm
    rw [encode, ho, h1]
    rfl
  case branch o rs1 rs2 imm =>
    obtain ⟨-, -, h1, -, ho⟩ := bFormat_fields rs2 rs1 o.funct3 BRANCH imm
    rw [encode, ho, h1]
    rfl
  case jalr rd rs1 imm =>
    obtain ⟨-, h1, -, -, ho⟩ := iFormat_fields rs1 rd 0b000#3 JALR imm
    rw [encode, ho, h1]
    rfl

lemma src2_encode {i : Instr} {r : RegAddr} (h : i.src2 = some r) : (decoder (encode i)).rs2 = r := by
  cases i <;> simp only [Instr.src2, Option.some.injEq, reduceCtorEq] at h <;> subst h
  case op o rd rs1 rs2 => exact (rFormat_fields o.funct7 rs2 rs1 rd o.funct3 RTYPE).2.1
  case store o rs1 rs2 imm => exact (sFormat_fields rs2 rs1 o.funct3 STORE imm).2.1
  case branch o rs1 rs2 imm => exact (bFormat_fields rs2 rs1 o.funct3 BRANCH imm).2.1

lemma dest_encode {i : Instr} {r : RegAddr} (h : i.dest = some r) : (decoder (encode i)).rd = r := by
  cases i <;> simp only [Instr.dest, Option.some.injEq, reduceCtorEq] at h <;> subst h
  case op o rd rs1 rs2 => exact (rFormat_fields o.funct7 rs2 rs1 rd o.funct3 RTYPE).2.2.2.2.1
  case opImm o rd rs1 imm => exact (iFormat_fields rs1 rd o.funct3 ITYPE imm).2.2.2.1
  case shiftImm o rd rs1 shamt =>
    exact (rFormat_fields o.funct7 shamt rs1 rd o.funct3 ITYPE).2.2.2.2.1
  case load o rd rs1 imm => exact (iFormat_fields rs1 rd o.funct3 LOAD imm).2.2.2.1
  case jal rd imm => exact (jFormat_fields rd JAL imm).2.1
  case jalr rd rs1 imm => exact (iFormat_fields rs1 rd 0b000#3 JALR imm).2.2.2.1
  case lui rd imm => exact (uFormat_fields rd LUI imm).2.1
  case auipc rd imm => exact (uFormat_fields rd AUIPC imm).2.1

lemma lui_rs1 (rd : RegAddr) (imm : BitVec 20) : (decoder (encode (.lui rd imm))).rs1 = 0#5 := by
  rw [decoder_rs1, encode, (uFormat_fields rd LUI imm).2.2]
  rfl

lemma load_funct3 (o : LoadOp) (rd rs1 : RegAddr) (imm : BitVec 12) :
    (decoder (encode (.load o rd rs1 imm))).branchFunct3 = o.funct3 :=
  (iFormat_fields rs1 rd o.funct3 LOAD imm).2.2.1

lemma store_funct3 (o : StoreOp) (rs1 rs2 : RegAddr) (imm : BitVec 12) :
    (decoder (encode (.store o rs1 rs2 imm))).branchFunct3 = o.funct3 :=
  (sFormat_fields rs2 rs1 o.funct3 STORE imm).2.2.2.1

lemma branch_funct3 (o : BranchOp) (rs1 rs2 : RegAddr) (imm : BitVec 12) :
    (decoder (encode (.branch o rs1 rs2 imm))).branchFunct3 = o.funct3 :=
  (bFormat_fields rs2 rs1 o.funct3 BRANCH imm).2.2.2.1

end Decoder

lemma extractLsb_shamt (b : Word) : (b.extractLsb 4 0).toNat = b.toNat % 32 := by
  simp [BitVec.extractLsb_toNat]

/-- The ALU computes each operation of the manual under its own operation code. -/
theorem alu_code (o : AluOp) (a b : Word) : alu a b o.code = o.eval a b := by
  cases o with
  | add | sub | xor | or | and => rfl
  | slt => simp [AluOp.code, alu, AluOp.eval, flag, BitVec.slt]
  | sltu => simp [AluOp.code, alu, AluOp.eval, flag, BitVec.ult]
  | sll => simp only [AluOp.code, alu, AluOp.eval, BitVec.shiftLeft_eq', extractLsb_shamt]
  | srl => simp only [AluOp.code, alu, AluOp.eval, BitVec.ushiftRight_eq', extractLsb_shamt]
  | sra => simp only [AluOp.code, alu, AluOp.eval, BitVec.sshiftRight', extractLsb_shamt]

/-- The immediate of a shift carries `funct7` above the shift amount, which the ALU ignores. -/
lemma eval_shamt (o : ShiftOp) (x : Word) (f7 : BitVec 7) (shamt : BitVec 5) :
    o.aluOp.eval x ((f7 ++ shamt).signExtend 32) = o.aluOp.eval x (shamt.setWidth 32) := by
  have h : ((f7 ++ shamt).signExtend 32).toNat % 32 = (shamt.setWidth 32).toNat % 32 := by
    rw [← extractLsb_shamt, ← extractLsb_shamt]
    congr 1
    grind
  cases o <;> simp only [ShiftOp.aluOp, AluOp.eval, h]

theorem conditionMet_eq (o : BranchOp) (x y : Word) :
    BranchUnit.conditionMet x y o.funct3 = o.holds x y := by
  rw [Bool.eq_iff_iff]
  cases o <;>
    simp [BranchOp.funct3, BranchUnit.conditionMet, BranchOp.holds, BitVec.slt, BitVec.ult]

/-- The instruction `i` in EX has the manual's outcome for its own operand values. -/
structure Executes (s : Top) (i : Instr) : Prop where
  src1 : ∀ r, i.src1 = some r → s.idEx.rs1Addr = r
  src2 : ∀ r, i.src2 = some r → s.idEx.rs2Addr = r
  result : ∀ v, i.result s.idEx.pc s.forwardAVal s.forwardBVal = some v →
    s.aluResult = v ∧ s.idEx.wbSel = 0b00#2
  address : ∀ a, i.address s.forwardAVal = some a → s.aluResult = a
  redirect : (if s.branchTakenEx then some s.branchTargetEx else none) =
    i.redirect s.idEx.pc s.forwardAVal s.forwardBVal
  dest : (if s.idEx.regWrite then some s.idEx.rdAddr else none) = i.dest
  memRead : s.idEx.memRead = i.loads.isSome
  memWrite : s.idEx.memWrite = i.stores.isSome
  loadOp : ∀ o, i.loads = some o → s.idEx.branchFunct3 = o.funct3 ∧ s.idEx.wbSel = 0b01#2
  storeOp : ∀ o, i.stores = some o →
    s.idEx.branchFunct3 = o.funct3 ∧ s.exPorts.rs2Data = s.forwardBVal

structure IdEx.Driven (e : IdEx) (c : Control) : Prop where
  imm : e.imm = c.imm
  aluSrc : e.aluSrc = c.aluSrc
  memRead : e.memRead = c.memRead
  memWrite : e.memWrite = c.memWrite
  regWrite : e.regWrite = c.regWrite
  wbSel : e.wbSel = c.wbSel
  aluOp : e.aluOp = c.aluOp
  branch : e.branch = c.branch
  jump : e.jump = c.jump
  isAuipc : e.isAuipc = c.isAuipc

lemma IdEx.Carries.driven {e : IdEx} {i : Instr} (h : e.Carries (encode i)) : e.Driven i.control := by
  have hc : (decoder (encode i)).toControl = i.control := Decoder.control_encode i
  rw [← hc]
  exact ⟨h.imm, h.aluSrc, h.memRead, h.memWrite, h.regWrite, h.wbSel, h.aluOp, h.branch, h.jump,
    h.isAuipc⟩

namespace Top

variable {s : Top} {i : Instr}

lemma forwardAVal_zero (h : s.idEx.rs1Addr = 0#5) : s.forwardAVal = s.idEx.rs1Data := by
  simp [forwardAVal, forwardVal, forwardA, h, HazardUnit.forward_zero]

lemma redirect_driven (h : s.idEx.Carries (encode i)) :
    (if s.branchTakenEx then some s.branchTargetEx else none) =
      i.redirect s.idEx.pc s.forwardAVal s.forwardBVal := by
  have hd := h.driven
  simp only [branchTakenEx, branchTargetEx, isJal, isJalr, BranchUnit.branchTaken,
    BranchUnit.branchTarget, hd.jump, hd.branch, hd.aluSrc, hd.imm]
  cases i with
  | branch o rs1 rs2 imm =>
    rw [h.branchFunct3, Decoder.branch_funct3, conditionMet_eq]
    simp [Instr.control, Instr.redirect]
  | _ => simp [Instr.control, Instr.redirect]

lemma result_driven (h : s.idEx.Carries (encode i))
    (h0 : s.idEx.rs1Addr = 0#5 → s.idEx.rs1Data = 0#32) {v : Word}
    (hv : i.result s.idEx.pc s.forwardAVal s.forwardBVal = some v) : s.aluResult = v := by
  have hd := h.driven
  simp only [aluResult, aluA, aluB, hd.aluOp, hd.aluSrc, hd.isAuipc, hd.imm]
  cases i <;> simp only [Instr.result, Option.some.injEq, reduceCtorEq] at hv <;> subst hv
  case op o rd rs1 rs2 => exact alu_code o _ _
  case opImm o rd rs1 imm => exact alu_code o.aluOp _ _
  case shiftImm o rd rs1 shamt => exact (alu_code o.aluOp _ _).trans (eval_shamt o _ _ _)
  case lui rd imm =>
    have hx : s.idEx.rs1Addr = 0#5 := h.rs1Addr.trans (Decoder.lui_rs1 rd imm)
    rw [forwardAVal_zero hx, h0 hx]
    simp [Instr.control, alu]
  case auipc rd imm => rfl

lemma address_driven (h : s.idEx.Carries (encode i)) {a : Word}
    (ha : i.address s.forwardAVal = some a) : s.aluResult = a := by
  have hd := h.driven
  simp only [aluResult, aluA, aluB, hd.aluOp, hd.aluSrc, hd.isAuipc, hd.imm]
  cases i <;> simp only [Instr.address, Option.some.injEq, reduceCtorEq] at ha <;> subst ha <;> rfl

/-- Whatever the operand values: the decoded word in EX behaves as the manual says. -/
theorem executes (h : s.idEx.Carries (encode i))
    (h0 : s.idEx.rs1Addr = 0#5 → s.idEx.rs1Data = 0#32) : Executes s i where
  src1 r hr := h.rs1Addr.trans (Decoder.src1_encode hr)
  src2 r hr := h.rs2Addr.trans (Decoder.src2_encode hr)
  result v hv := by
    refine ⟨result_driven h h0 hv, ?_⟩
    rw [h.driven.wbSel]
    cases i <;> simp_all [Instr.result, Instr.control]
  address a ha := address_driven h ha
  redirect := redirect_driven h
  dest := by
    have hw : i.control.regWrite = i.dest.isSome := by cases i <;> rfl
    rw [h.driven.regWrite, h.rdAddr, hw]
    cases hd : i.dest with
    | none => rfl
    | some r => simp [Decoder.dest_encode hd]
  memRead := by
    rw [h.driven.memRead]
    cases i <;> rfl
  memWrite := by
    rw [h.driven.memWrite]
    cases i <;> rfl
  loadOp o ho := by
    rw [h.branchFunct3, h.driven.wbSel]
    cases i <;> simp only [Instr.loads, Option.some.injEq, reduceCtorEq] at ho
    subst ho
    exact ⟨Decoder.load_funct3 .., rfl⟩
  storeOp o ho := by
    rw [h.branchFunct3]
    cases i <;> simp only [Instr.stores, Option.some.injEq, reduceCtorEq] at ho
    subst ho
    exact ⟨Decoder.store_funct3 .., rfl⟩

lemma step_carries (h : s.hazard.idExFlush = false) :
    (s.step false).idEx.Carries s.ifId.instr ∧ (s.step false).idEx.pc = s.ifId.pc ∧
      ((s.step false).idEx.rs1Addr = 0#5 → (s.step false).idEx.rs1Data = 0#32) := by
  rw [step_idEx, if_neg (by simpa using h)]
  refine ⟨s.idPorts_carries _, rfl, fun h0 => ?_⟩
  change s.dec.rs1 = 0#5 at h0
  simp [idPorts, rdata1, h0]

lemma step_executes (h : s.hazard.idExFlush = false) (hi : s.ifId.instr = encode i) :
    Executes (s.step false) i := by
  obtain ⟨hc, -, h0⟩ := step_carries h
  rw [hi] at hc
  exact executes hc h0

lemma step_bubble (h : s.hazard.idExFlush = false)
    (ho : ∀ op ∈ [RTYPE, ITYPE, LOAD, STORE, BRANCH, JAL, JALR, LUI, AUIPC],
      opcode s.ifId.instr ≠ op) : (s.step false).idEx.Bubble := by
  obtain ⟨hc, -, -⟩ := step_carries h
  have hd : (decoder s.ifId.instr).toControl = {} := by
    change Decoder.control s.ifId.instr = {}
    rw [Decoder.control_eq]
    simp_all
  exact ⟨by rw [hc.memWrite, hd], by rw [hc.memRead, hd], by rw [hc.regWrite, hd],
    by rw [hc.branch, hd], by rw [hc.jump, hd]⟩

end Top

lemma Top.not_taken_of_bubble {s : Top} (h : s.idEx.Bubble) : s.branchTakenEx = false := by
  simp [branchTakenEx, BranchUnit.branchTaken, isJal, isJalr, h.branch, h.jump]

/-- Every encoded instruction that moves from ID to EX gets the manual's outcome
there, and a word of any other opcode than SYSTEM gets none. -/
theorem decode_execute (s : Top) (h : s.hazard.idExFlush = false) :
    (s.step false).idEx.pc = s.ifId.pc ∧
    (∀ i, s.ifId.instr = encode i → Executes (s.step false) i) ∧
    ((∀ op ∈ [RTYPE, ITYPE, LOAD, STORE, BRANCH, JAL, JALR, LUI, AUIPC, SYSTEM],
        opcode s.ifId.instr ≠ op) →
      (s.step false).idEx.regWrite = false ∧ (s.step false).idEx.memRead = false ∧
        (s.step false).idEx.memWrite = false ∧ (s.step false).branchTakenEx = false) := by
  refine ⟨(Top.step_carries h).2.1, fun i hi => Top.step_executes h hi, fun ho => ?_⟩
  have hb : (s.step false).idEx.Bubble := Top.step_bubble h fun op hop =>
    ho op (List.mem_append_left [SYSTEM] hop)
  exact ⟨hb.regWrite, hb.memRead, hb.memWrite, Top.not_taken_of_bubble hb⟩

/-- `addi x1,x0,5` on its way from ID to EX. -/
theorem decode_execute_addi :
    Executes (trace (load [0x00500093#32]) 2).top (.opImm .addi 1#5 0#5 5#12) :=
  (decode_execute (trace (load [0x00500093#32]) 1).top (by decide +kernel)).2.1 _
    (by decide +kernel)

end Rv32iRtl
