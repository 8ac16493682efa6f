import Rv32iRtl.StageContents

/-! Register `x0`: an operand that names it is zero, and what an instruction computes for it is
never used. -/
namespace Rv32iRtl

namespace Top

/-- What the core takes from registers in one cycle: the operands in EX with the branch decision,
and the access in MEM with the word that it leaves in memory. -/
structure Uses where
  operandA : Word
  operandB : Word
  result : Word
  branchTaken : Bool
  branchTarget : Word
  address : Option Word
  stored : Option (BitVec 16 × Word)
  deriving DecidableEq, Repr

def uses (s : Top) : Uses where
  operandA := s.forwardAVal
  operandB := s.forwardBVal
  result := s.aluResult
  branchTaken := s.branchTakenEx
  branchTarget := s.branchTargetEx
  address := if s.exMem.memRead || s.exMem.memWrite then some s.exMem.aluResult else none
  stored := s.memWriteEvent

end Top

/-- Words in place of the results that MEM and WB hold. -/
structure Results where
  aluInMem : Word
  linkInMem : Word
  aluInWb : Word
  loadInWb : Word
  linkInWb : Word

/-- The result of an instruction that writes `x0`; for a load it is not there yet. -/
def ExMem.withX0Result (e : ExMem) (r : Results) : ExMem :=
  if e.regWrite = true ∧ e.rdAddr = 0#5 ∧ e.memRead = false then
    { e with aluResult := r.aluInMem, pcPlus4 := r.linkInMem }
  else e

def MemWb.withX0Result (e : MemWb) (r : Results) : MemWb :=
  if e.regWrite = true ∧ e.rdAddr = 0#5 then
    { e with aluResult := r.aluInWb, loadData := r.loadInWb, pcPlus4 := r.linkInWb }
  else e

/-- The state with other results wherever they are meant for `x0`. -/
def Top.withX0Results (s : Top) (r : Results) : Top :=
  { s with exMem := s.exMem.withX0Result r, memWb := s.memWb.withX0Result r }

/-- ID/EX holds the zero of `x0` with its address, also after a flush that keeps both. -/
structure ZeroOperands (s : Top) : Prop where
  rs1 : s.idEx.rs1Addr = 0#5 → s.idEx.rs1Data = 0#32
  rs2 : s.idEx.rs2Addr = 0#5 → s.idEx.rs2Data = 0#32

lemma zeroOperands {s : Top} (h : Reachable s) : ZeroOperands s := by
  induction h with
  | reset s =>
    rw [Top.step_reset]
    exact ⟨fun _ => rfl, fun _ => rfl⟩
  | @clock s _ ih =>
    constructor
    · rw [Top.step_idEx]
      split_ifs
      · exact ih.rs1
      · intro h0
        change Regfile.read s.regs s.dec.rs1 = 0#32
        rw [show s.dec.rs1 = 0#5 from h0, Regfile.read_zero]
    · rw [Top.step_idEx]
      split_ifs
      · exact ih.rs2
      · intro h0
        change Regfile.read s.regs s.dec.rs2 = 0#32
        rw [show s.dec.rs2 = 0#5 from h0, Regfile.read_zero]

lemma ZeroOperands.forward {s : Top} (h : ZeroOperands s) :
    (s.idEx.rs1Addr = 0#5 → s.forwardAVal = 0#32) ∧
      (s.idEx.rs2Addr = 0#5 → s.forwardBVal = 0#32) := by
  constructor
  · intro h0
    simp [Top.forwardAVal, Top.forwardVal, Top.forwardA, h0, HazardUnit.forward_zero, h.rs1 h0]
  · intro h0
    simp [Top.forwardBVal, Top.forwardVal, Top.forwardB, h0, HazardUnit.forward_zero, h.rs2 h0]

/-- The instructions in MEM differ in nothing but a result for `x0`. -/
def ExMem.SameButX0 (e e' : ExMem) : Prop :=
  e' = e ∨ e.rdAddr = 0#5 ∧ e.memRead = false ∧ e.memWrite = false ∧
    ∃ alu link, e' = { e with aluResult := alu, pcPlus4 := link }

def MemWb.SameButX0 (e e' : MemWb) : Prop :=
  e' = e ∨ e.rdAddr = 0#5 ∧
    ∃ alu load link, e' = { e with aluResult := alu, loadData := load, pcPlus4 := link }

structure Top.SameButX0 (s s' : Top) : Prop where
  mem : s'.mem = s.mem
  pc : s'.pc = s.pc
  regs : s'.regs = s.regs
  ifId : s'.ifId = s.ifId
  idEx : s'.idEx = s.idEx
  exMem : s.exMem.SameButX0 s'.exMem
  memWb : s.memWb.SameButX0 s'.memWb

namespace Top.SameButX0

variable {s s' : Top}

lemma dec (h : SameButX0 s s') : s'.dec = s.dec := by rw [Top.dec, h.ifId, Top.dec]

lemma forwardIn (h : SameButX0 s s') : s'.forwardIn = s.forwardIn := by
  have hm : s'.exMem.rdAddr = s.exMem.rdAddr ∧ s'.exMem.regWrite = s.exMem.regWrite := by
    rcases h.exMem with he | ⟨-, -, -, alu, link, he⟩
    · simp [he]
    · simp [he]
  have hw : s'.memWb.rdAddr = s.memWb.rdAddr ∧ s'.memWb.regWrite = s.memWb.regWrite := by
    rcases h.memWb with he | ⟨-, alu, load, link, he⟩
    · simp [he]
    · simp [he]
  rw [Top.forwardIn, Top.forwardIn, hm.1, hm.2, hw.1, hw.2]

lemma regfileWdata (h : SameButX0 s s') (h0 : s.memWb.rdAddr ≠ 0#5) :
    s'.regfileWdata = s.regfileWdata := by
  rcases h.memWb with he | ⟨hz, -⟩
  · rw [Top.regfileWdata, he, Top.csrRdata, h.dec]
    rfl
  · exact absurd hz h0

/-- A result for `x0` is never forwarded. -/
lemma forwardVal (h : SameButX0 s s') (rs : RegAddr) (data : Word) :
    s'.forwardVal (HazardUnit.forward s.forwardIn rs) data =
      s.forwardVal (HazardUnit.forward s.forwardIn rs) data := by
  by_cases hm : HazardUnit.forward s.forwardIn rs = 0b01#2
  · obtain ⟨-, hrd, hrs⟩ := (HazardUnit.forward_exMem_iff _ _).mp hm
    have hsame : s'.exMem = s.exMem := by
      rcases h.exMem with he | ⟨hz, -⟩
      · exact he
      · exact absurd (hrd.symm.trans hz) hrs
    simp [Top.forwardVal, hm, hsame]
  by_cases hw : HazardUnit.forward s.forwardIn rs = 0b10#2
  · obtain ⟨-, hrd, hrs, -⟩ := (HazardUnit.forward_memWb_iff _ _).mp hw
    have hne : s.memWb.rdAddr ≠ 0#5 := fun hz => hrs (hrd.symm.trans hz)
    simp [Top.forwardVal, hw, h.regfileWdata hne]
  · simp [Top.forwardVal, hm, hw]

lemma forwardAVal (h : SameButX0 s s') : s'.forwardAVal = s.forwardAVal := by
  rw [Top.forwardAVal, Top.forwardA, h.forwardIn, h.idEx, h.forwardVal]
  rfl

lemma forwardBVal (h : SameButX0 s s') : s'.forwardBVal = s.forwardBVal := by
  rw [Top.forwardBVal, Top.forwardB, h.forwardIn, h.idEx, h.forwardVal]
  rfl

lemma exPorts (h : SameButX0 s s') : s'.exPorts = s.exPorts := by
  simp only [Top.exPorts, Top.aluResult, Top.aluA, Top.aluB, Top.branchTargetEx, Top.branchTakenEx,
    Top.isJal, Top.isJalr, h.forwardAVal, h.forwardBVal, h.idEx]

lemma branchTakenEx (h : SameButX0 s s') : s'.branchTakenEx = s.branchTakenEx :=
  congrArg ExMem.branchTaken h.exPorts

lemma branchTargetEx (h : SameButX0 s s') : s'.branchTargetEx = s.branchTargetEx :=
  congrArg ExMem.branchTarget h.exPorts

/-- No access to memory is made for such an instruction. -/
lemma memWriteEvent (h : SameButX0 s s') : s'.memWriteEvent = s.memWriteEvent := by
  rcases h.exMem with he | ⟨-, -, hw, alu, link, he⟩
  · simp only [Top.memWriteEvent, Top.lsuOut, Top.rawMemRdata, he, h.mem]
  · simp [Top.memWriteEvent, he, hw]

lemma uses (h : SameButX0 s s') : s'.uses = s.uses := by
  have haddress : s'.uses.address = s.uses.address := by
    rcases h.exMem with he | ⟨-, hr, hw, alu, link, he⟩
    · simp [Top.uses, he]
    · simp [Top.uses, he, hr, hw]
  have hresult : s'.aluResult = s.aluResult := congrArg ExMem.aluResult h.exPorts
  change Uses.mk _ _ _ _ _ s'.uses.address _ = _
  rw [haddress, h.forwardAVal, h.forwardBVal, hresult, h.branchTakenEx, h.branchTargetEx,
    h.memWriteEvent]
  rfl

lemma nextRegs (h : SameButX0 s s') : s'.nextRegs = s.nextRegs := by
  rcases h.memWb with he | ⟨h0, alu, load, link, he⟩
  · rw [Top.nextRegs, Top.nextRegs, h.regs, he, Top.regfileWdata, he, Top.csrRdata, h.dec]
    rfl
  · simp [Top.nextRegs, Regfile.write, he, h0, h.regs]

lemma memPorts (h : SameButX0 s s') : s.memPorts.SameButX0 s'.memPorts := by
  rcases h.exMem with he | ⟨h0, -, -, alu, link, he⟩
  · left
    simp only [Top.memPorts, Top.loadData, Top.lsuOut, Top.rawMemRdata, he, h.mem]
  · right
    exact ⟨h0, alu, s'.loadData, link, by simp [Top.memPorts, he]⟩

lemma step (h : SameButX0 s s') : SameButX0 (s.step false) (s'.step false) := by
  have hload : s'.loadUse = s.loadUse := by
    simp only [Top.loadUse, Top.hazardIn, HazardUnit.loadUse, h.idEx, h.dec]
  have hfetch : s'.instrFetch = s.instrFetch := by rw [Top.instrFetch, h.mem, h.pc, Top.instrFetch]
  have hid : s'.idPorts = s.idPorts := by
    simp only [Top.idPorts, Top.rdata1, Top.rdata2, h.dec, h.regs, h.pc]
  constructor
  · rw [Top.step_mem, Top.step_mem, Top.nextMem_eq, Top.nextMem_eq, h.mem, h.memWriteEvent]
  · rw [Top.step_pc, Top.step_pc, h.branchTakenEx, h.branchTargetEx, hload, h.pc]
  · exact h.nextRegs
  · rw [Top.step_ifId, Top.step_ifId, h.branchTakenEx, hload, h.pc, h.ifId, hfetch]
  · rw [Top.step_idEx, Top.step_idEx, h.branchTakenEx, hload, h.idEx, h.ifId, hid]
  · exact Or.inl h.exPorts
  · exact h.memPorts

lemma run (h : SameButX0 s s') (m : ℕ) :
    SameButX0 ((Top.step false)^[m] s) ((Top.step false)^[m] s') := by
  induction m generalizing s s' with
  | zero => exact h
  | succ m ih => exact ih h.step

end Top.SameButX0

lemma Decoder.no_access_of_regWrite {instr : Word} (h : (decoder instr).regWrite = true) :
    (decoder instr).memWrite = false := by
  simp only [decoder, control] at h ⊢
  split at h <;> simp_all

lemma Tracks.sameButX0 {t : Traced} (h : Tracks t) (r : Results) :
    t.top.SameButX0 (t.top.withX0Results r) := by
  refine ⟨rfl, rfl, rfl, rfl, rfl, ?_, ?_⟩
  · change t.top.exMem.SameButX0 (t.top.exMem.withX0Result r)
    rw [ExMem.withX0Result]
    split_ifs with hx
    · obtain ⟨hreg, h0, hr⟩ := hx
      have hw : t.top.exMem.memWrite = false := by
        cases hm : t.inMem with
        | none => exact (h.mem_none hm).memWrite
        | some f =>
          have hc := h.mem_some hm
          rw [hc.memWrite]
          exact Decoder.no_access_of_regWrite (hc.regWrite ▸ hreg)
      exact Or.inr ⟨h0, hr, hw, r.aluInMem, r.linkInMem, rfl⟩
    · exact Or.inl rfl
  · change t.top.memWb.SameButX0 (t.top.memWb.withX0Result r)
    rw [MemWb.withX0Result]
    split_ifs with hx
    · exact Or.inr ⟨hx.2, r.aluInWb, r.loadInWb, r.linkInWb, rfl⟩
    · exact Or.inl rfl

/-- In every cycle after reset an operand that names `x0` is zero, and no result computed for `x0`
makes a difference to an operand, a branch, an address or a stored value of a later cycle. -/
theorem x0_reads_zero (s₀ : Top) (n : ℕ) :
    let s := (trace s₀ n).top
    (s.idEx.rs1Addr = 0#5 → s.forwardAVal = 0#32) ∧
      (s.idEx.rs2Addr = 0#5 → s.forwardBVal = 0#32) ∧
      ∀ (r : Results) (m : ℕ),
        ((Top.step false)^[m] (s.withX0Results r)).uses = ((Top.step false)^[m] s).uses := by
  intro s
  obtain ⟨h1, h2⟩ := (zeroOperands (reachable_iff.mpr ⟨s₀, n, rfl⟩)).forward
  refine ⟨h1, h2, fun r m => ?_⟩
  exact (((tracks s₀ n).sameButX0 r).run m).uses

end Rv32iRtl
