import Rv32iRtl.Decoder
import Rv32iRtl.Lsu
import Rv32iRtl.HazardUnit
import Rv32iRtl.PipelineRegs
import Rv32iRtl.EventTrace

/-! The integration module `top.v`. Every wire is a function of the registered
state; `step` is one clock edge, with all non-blocking assignments at once. -/
namespace Rv32iRtl

open EventTrace

/-- All storage of the core: memory array, `pc`, register array, pipeline registers. -/
structure Top extends PipelineRegs where
  mem : BitVec 16 → Word
  pc : Word
  regs : RegAddr → Word

/-- The word stored by a write of `new` over `old` under the byte enables. -/
def writeLanes (be : BitVec 4) (old new : Word) : Word :=
  (if be.getLsbD 3 then new.extractLsb 31 24 else old.extractLsb 31 24) ++
  (if be.getLsbD 2 then new.extractLsb 23 16 else old.extractLsb 23 16) ++
  (if be.getLsbD 1 then new.extractLsb 15 8 else old.extractLsb 15 8) ++
  (if be.getLsbD 0 then new.extractLsb 7 0 else old.extractLsb 7 0)

namespace Top

def instrFetch (s : Top) : Word := s.mem (wordIndex s.pc)

def dec (s : Top) : Decoded := decoder s.ifId.instr

def rdata1 (s : Top) : Word := Regfile.read s.regs s.dec.rs1
def rdata2 (s : Top) : Word := Regfile.read s.regs s.dec.rs2

def csrRdata (s : Top) : Word := CsrUnit.rdata s.dec.csrAddr

def ecall (s : Top) : Bool := CsrUnit.ecall s.dec.csrEn s.dec.csrAddr s.dec.csrOp

def regfileWdata (s : Top) : Word :=
  if s.memWb.wbSel == 0b00#2 then s.memWb.aluResult
  else if s.memWb.wbSel == 0b01#2 then s.memWb.loadData
  else if s.memWb.wbSel == 0b10#2 then s.memWb.pcPlus4
  else s.csrRdata

def forwardIn (s : Top) : ForwardIn where
  exMemRd := s.exMem.rdAddr
  memWbRd := s.memWb.rdAddr
  exMemRegWrite := s.exMem.regWrite
  memWbRegWrite := s.memWb.regWrite

def forwardA (s : Top) : BitVec 2 := HazardUnit.forward s.forwardIn s.idEx.rs1Addr
def forwardB (s : Top) : BitVec 2 := HazardUnit.forward s.forwardIn s.idEx.rs2Addr

def forwardVal (s : Top) (sel : BitVec 2) (data : Word) : Word :=
  if sel == 0b01#2 then s.exMem.aluResult
  else if sel == 0b10#2 then s.regfileWdata
  else data

def forwardAVal (s : Top) : Word := s.forwardVal s.forwardA s.idEx.rs1Data
def forwardBVal (s : Top) : Word := s.forwardVal s.forwardB s.idEx.rs2Data

def aluA (s : Top) : Word := if s.idEx.isAuipc then s.idEx.pc else s.forwardAVal
def aluB (s : Top) : Word := if s.idEx.aluSrc then s.idEx.imm else s.forwardBVal
def aluResult (s : Top) : Word := alu s.aluA s.aluB s.idEx.aluOp

def isJal (s : Top) : Bool := s.idEx.jump && !s.idEx.aluSrc
def isJalr (s : Top) : Bool := s.idEx.jump && s.idEx.aluSrc

def branchTargetEx (s : Top) : Word :=
  BranchUnit.branchTarget s.idEx.pc s.forwardAVal s.idEx.imm s.isJalr

def branchTakenEx (s : Top) : Bool :=
  BranchUnit.branchTaken s.forwardAVal s.forwardBVal s.idEx.branchFunct3 s.idEx.branch
    s.isJal s.isJalr

def hazardIn (s : Top) : HazardIn where
  toForwardIn := s.forwardIn
  idExRs1 := s.idEx.rs1Addr
  idExRs2 := s.idEx.rs2Addr
  idExMemRead := s.idEx.memRead
  ifIdRs1 := s.dec.rs1
  ifIdRs2 := s.dec.rs2
  idExRd := s.idEx.rdAddr
  branchTakenEx := s.branchTakenEx

def hazard (s : Top) : HazardOut := hazardUnit s.hazardIn

def rawMemRdata (s : Top) : Word := s.mem (wordIndex (s.exMem.aluResult.extractLsb 31 2 ++ 0b00#2))

def lsuOut (s : Top) : LsuOut :=
  lsu s.exMem.funct3 s.exMem.aluResult s.exMem.rs2Data s.rawMemRdata

def loadData (s : Top) : Word := s.lsuOut.rdata

def idPorts (s : Top) : IdPorts where
  rs1Data := s.rdata1
  rs2Data := s.rdata2
  rs1Addr := s.dec.rs1
  rs2Addr := s.dec.rs2
  rdAddr := s.dec.rd
  imm := s.dec.imm
  aluOp := s.dec.aluOp
  aluSrc := s.dec.aluSrc
  memWrite := s.dec.memWrite
  memRead := s.dec.memRead
  wbSel := s.dec.wbSel
  regWrite := s.dec.regWrite
  branch := s.dec.branch
  jump := s.dec.jump
  branchFunct3 := s.dec.branchFunct3
  isAuipc := s.dec.isAuipc
  pcPlus4 := s.pc + 4#32

def exPorts (s : Top) : ExMem where
  aluResult := s.aluResult
  rs2Data := s.forwardBVal
  rdAddr := s.idEx.rdAddr
  branchTarget := s.branchTargetEx
  branchTaken := s.branchTakenEx
  memWrite := s.idEx.memWrite
  memRead := s.idEx.memRead
  wbSel := s.idEx.wbSel
  regWrite := s.idEx.regWrite
  funct3 := s.idEx.branchFunct3
  pcPlus4 := s.idEx.pcPlus4

def memPorts (s : Top) : MemWb where
  aluResult := s.exMem.aluResult
  loadData := s.loadData
  rdAddr := s.exMem.rdAddr
  regWrite := s.exMem.regWrite
  wbSel := s.exMem.wbSel
  pcPlus4 := s.exMem.pcPlus4

def stageControl (rst : Bool) (s : Top) : StageControl where
  rst := rst
  stallIfId := !s.hazard.ifIdWrite
  flushIfId := s.hazard.ifIdFlush
  stallIdEx := false
  flushIdEx := s.hazard.idExFlush
  flushExMem := false

def nextPc (rst : Bool) (s : Top) : Word :=
  if rst then 0#32
  else if s.branchTakenEx then s.branchTargetEx
  else if !s.hazard.pcWrite then s.pc
  else s.pc + 4#32

/-- The lane writes are all to one word, so they are one update of the array. -/
def nextMem (s : Top) : BitVec 16 → Word :=
  if s.exMem.memWrite then
    Function.update s.mem (wordIndex s.lsuOut.memAddr)
      (writeLanes s.lsuOut.memBe (s.mem (wordIndex s.lsuOut.memAddr)) s.lsuOut.memWdata)
  else s.mem

def nextRegs (s : Top) : RegAddr → Word :=
  Regfile.write s.regs s.memWb.rdAddr s.regfileWdata s.memWb.regWrite

/-- One clock edge. Neither the memory nor the register array is reset. -/
def step (rst : Bool) (s : Top) : Top where
  toPipelineRegs := pipelineRegs (s.stageControl rst) ⟨s.pc, s.instrFetch⟩ s.idPorts s.exPorts
    s.memPorts s.toPipelineRegs
  mem := s.nextMem
  pc := s.nextPc rst
  regs := s.nextRegs

def loadUse (s : Top) : Bool := HazardUnit.loadUse s.hazardIn

@[simp] lemma hazard_pcWrite (s : Top) : s.hazard.pcWrite = !s.loadUse := rfl

@[simp] lemma hazard_ifIdWrite (s : Top) : s.hazard.ifIdWrite = !s.loadUse := rfl

@[simp] lemma hazard_idExFlush (s : Top) : s.hazard.idExFlush = (s.loadUse || s.branchTakenEx) := rfl

@[simp] lemma hazard_ifIdFlush (s : Top) : s.hazard.ifIdFlush = s.branchTakenEx := rfl

@[simp] lemma hazard_forwardA (s : Top) : s.hazard.forwardA = s.forwardA := rfl

@[simp] lemma hazard_forwardB (s : Top) : s.hazard.forwardB = s.forwardB := rfl

@[simp] lemma step_mem (s : Top) (rst : Bool) : (s.step rst).mem = s.nextMem := rfl

@[simp] lemma step_regs (s : Top) (rst : Bool) : (s.step rst).regs = s.nextRegs := rfl

lemma step_pc (s : Top) : (s.step false).pc =
    if s.branchTakenEx then s.branchTargetEx else if s.loadUse then s.pc else s.pc + 4#32 := by
  simp [step, nextPc]

lemma step_ifId (s : Top) : (s.step false).ifId =
    if s.branchTakenEx then ⟨s.pc, NOP⟩ else if s.loadUse then s.ifId else ⟨s.pc, s.instrFetch⟩ := by
  cases h : s.loadUse <;> simp [step, pipelineRegs, PipelineRegs.nextIfId, stageControl, h]

lemma step_idEx (s : Top) : (s.step false).idEx =
    if s.loadUse || s.branchTakenEx then s.idEx.flush else { s.idPorts with pc := s.ifId.pc } := by
  simp [step, pipelineRegs, PipelineRegs.nextIdEx, stageControl]

@[simp] lemma step_exMem (s : Top) : (s.step false).exMem = s.exPorts := rfl

@[simp] lemma step_memWb (s : Top) : (s.step false).memWb = s.memPorts := rfl

/-- The state held after a reset edge: only the two arrays survive. -/
def powerOn (mem : BitVec 16 → Word) (regs : RegAddr → Word) : Top where
  toPipelineRegs := PipelineRegs.reset
  mem := mem
  pc := 0#32
  regs := regs

lemma step_reset (s : Top) : s.step true = powerOn s.nextMem s.nextRegs := by
  simp [step, powerOn, pipelineRegs_rst, stageControl, nextPc]

@[simp] lemma powerOn_step_reset (mem : BitVec 16 → Word) (regs : RegAddr → Word) :
    (powerOn mem regs).step true = powerOn mem regs := by
  rw [step_reset]
  rfl

def regWriteEvent (s : Top) : Option (RegAddr × Word) :=
  if s.memWb.regWrite && s.memWb.rdAddr != 0#5 then some (s.memWb.rdAddr, s.regfileWdata) else none

lemma wordIndex_memAddr (a : Word) : wordIndex (a.extractLsb 31 2 ++ 0b00#2) = wordIndex a := by
  unfold wordIndex
  grind

/-- The memory write of this cycle, as the word index and the word left there. -/
def memWriteEvent (s : Top) : Option (BitVec 16 × Word) :=
  if s.exMem.memWrite then
    some (wordIndex s.lsuOut.memAddr,
      writeLanes s.lsuOut.memBe (s.mem (wordIndex s.lsuOut.memAddr)) s.lsuOut.memWdata)
  else none

lemma memWriteEvent_iff (s : Top) (i : BitVec 16) :
    (∃ v, s.memWriteEvent = some (i, v)) ↔
      s.exMem.memWrite = true ∧ wordIndex s.exMem.aluResult = i := by
  have hi : wordIndex s.lsuOut.memAddr = wordIndex s.exMem.aluResult := wordIndex_memAddr _
  rw [memWriteEvent, hi]
  cases s.exMem.memWrite <;> simp

lemma nextRegs_eq (s : Top) : s.nextRegs = applyWrite s.regs s.regWriteEvent := by
  unfold nextRegs Regfile.write regWriteEvent
  split_ifs <;> rfl

lemma nextMem_eq (s : Top) : s.nextMem = applyWrite s.mem s.memWriteEvent := by
  unfold nextMem memWriteEvent
  split_ifs <;> rfl

end Top

end Rv32iRtl
