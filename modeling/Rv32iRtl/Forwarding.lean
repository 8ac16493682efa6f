import Rv32iRtl.CommittedStream

/-! Forwarding from EX/MEM ignores the write-back selector. It is sound because
a load or a jump in MEM always finds EX emptied, or reading other registers. -/
namespace Rv32iRtl

/-- What the stall and the flush of the previous cycle left between MEM and EX. -/
structure Gaps (t : Traced) : Prop where
  load : t.top.exMem.memRead = true → t.top.exMem.rdAddr ≠ 0#5 →
    t.top.idEx.Bubble ∨
      (t.top.idEx.rs1Addr ≠ t.top.exMem.rdAddr ∧ t.top.idEx.rs2Addr ≠ t.top.exMem.rdAddr)
  taken : t.top.exMem.branchTaken = true → t.top.idEx.Bubble
  jump : t.top.exMem.wbSel = 0b10#2 → t.top.exMem.branchTaken = true
  wbSel : t.top.exMem.wbSel = 0b00#2 ∨
    (t.top.exMem.wbSel = 0b01#2 ∧ t.top.exMem.memRead = true) ∨ t.top.exMem.wbSel = 0b10#2

lemma Top.branchTakenEx_of_jump {s : Top} (h : s.idEx.jump = true) : s.branchTakenEx = true := by
  cases hs : s.idEx.aluSrc <;> simp [branchTakenEx, BranchUnit.branchTaken, isJal, isJalr, h, hs]

lemma Top.idEx_bubble_of_flush {s : Top} (h : s.loadUse = true ∨ s.branchTakenEx = true) :
    (s.step false).idEx.Bubble := by
  rw [step_idEx, if_pos (by simpa using h)]
  exact IdEx.flush_bubble _

namespace Gaps

lemma boot (s₀ : Top) : Gaps (Traced.boot s₀) := by
  constructor <;>
    simp [Traced.boot, Top.step_reset, Top.powerOn, PipelineRegs.reset, ExMem.reset]

lemma step {t : Traced} (ht : Tracks t) : Gaps t.step := by
  constructor
  · intro hr hd
    change t.top.idEx.memRead = true at hr
    change t.top.idEx.rdAddr ≠ 0#5 at hd
    by_cases hf : t.top.loadUse = true ∨ t.top.branchTakenEx = true
    · exact Or.inl (Top.idEx_bubble_of_flush hf)
    · right
      simp only [not_or, Bool.not_eq_true] at hf
      have hl := hf.1
      change (t.top.step false).idEx.rs1Addr ≠ t.top.idEx.rdAddr ∧
        (t.top.step false).idEx.rs2Addr ≠ t.top.idEx.rdAddr
      rw [Top.step_idEx, if_neg (by simp [hf])]
      simp only [Top.loadUse, HazardUnit.loadUse, Top.hazardIn, hr] at hl
      change t.top.dec.rs1 ≠ _ ∧ t.top.dec.rs2 ≠ _
      grind
  · exact fun h => Top.idEx_bubble_of_flush (Or.inr h)
  · intro hw
    change t.top.idEx.wbSel = _ at hw
    change t.top.branchTakenEx = true
    cases hf : t.inEx with
    | none =>
      rw [(ht.ex_none hf).wbSel] at hw
      contradiction
    | some f =>
      have hc := (ht.ex_some hf).1
      rw [hc.wbSel] at hw
      rcases Decoder.wbSel_kind f.word with h | ⟨h, -⟩ | ⟨-, hj⟩
      · rw [h] at hw
        contradiction
      · rw [h] at hw
        contradiction
      · exact Top.branchTakenEx_of_jump (hc.jump.trans hj)
  · change t.top.idEx.wbSel = _ ∨ (t.top.idEx.wbSel = _ ∧ t.top.idEx.memRead = _) ∨
      t.top.idEx.wbSel = _
    cases hf : t.inEx with
    | none => exact Or.inl (ht.ex_none hf).wbSel
    | some f =>
      have hc := (ht.ex_some hf).1
      rw [hc.wbSel, hc.memRead]
      rcases Decoder.wbSel_kind f.word with h | h | ⟨h, -⟩
      · exact Or.inl h
      · exact Or.inr (Or.inl h)
      · exact Or.inr (Or.inr h)

end Gaps

theorem gaps (s₀ : Top) (n : ℕ) : Gaps (trace s₀ n) := by
  cases n with
  | zero => exact .boot s₀
  | succ n =>
    rw [trace_succ]
    exact .step (tracks s₀ n)

/-- The instruction in EX does something: it writes or may redirect. -/
def IdEx.active (e : IdEx) : Bool := e.regWrite || e.memWrite || e.branch || e.jump

lemma IdEx.Bubble.inactive {e : IdEx} (h : e.Bubble) : e.active = false := by
  simp [active, h.regWrite, h.memWrite, h.branch, h.jump]

/-- A register selected from EX/MEM by an active instruction comes from the ALU. -/
lemma Gaps.forward_alu {t : Traced} (h : Gaps t) (ha : t.top.idEx.active = true) {rs : RegAddr}
    (hrs : rs = t.top.idEx.rs1Addr ∨ rs = t.top.idEx.rs2Addr)
    (hf : HazardUnit.forward t.top.forwardIn rs = 0b01#2) :
    t.top.exMem.wbSel = 0b00#2 ∧ t.top.exMem.branchTaken = false := by
  have hnb : ¬t.top.idEx.Bubble := fun hb => by simp [hb.inactive] at ha
  obtain ⟨-, hrd, h0⟩ := (HazardUnit.forward_exMem_iff _ _).mp hf
  change t.top.exMem.rdAddr = rs at hrd
  have ht : t.top.exMem.branchTaken = false := by
    cases hb : t.top.exMem.branchTaken with
    | false => rfl
    | true => exact absurd (h.taken hb) hnb
  rcases h.wbSel with hw | ⟨-, hr⟩ | hw
  · exact ⟨hw, ht⟩
  · rcases h.load hr (hrd ▸ h0) with hb | ⟨h1, h2⟩
    · exact absurd hb hnb
    · rcases hrs with rfl | rfl
      · exact absurd hrd.symm h1
      · exact absurd hrd.symm h2
  · rw [h.jump hw] at ht
    contradiction

lemma Top.regfileWdata_step_of_alu {s : Top} (h : s.exMem.wbSel = 0b00#2) :
    (s.step false).regfileWdata = s.exMem.aluResult := by
  simp [regfileWdata, memPorts, h]

lemma Decoder.opcode_of_wbSel {instr : Word} (h : (decoder instr).wbSel = 0b00#2) :
    opcode instr ≠ LOAD ∧ opcode instr ≠ JAL ∧ opcode instr ≠ JALR := by
  refine ⟨?_, ?_, ?_⟩ <;> intro ho <;> simp only [opcode, LOAD, JAL, JALR] at ho <;>
    simp [decoder, control, ho] at h

lemma forwarded_operand {s₀ : Top} {n : ℕ} (ha : (trace s₀ n).top.idEx.active = true)
    {rs : RegAddr}
    (hrs : rs = (trace s₀ n).top.idEx.rs1Addr ∨ rs = (trace s₀ n).top.idEx.rs2Addr)
    (hf : HazardUnit.forward (trace s₀ n).top.forwardIn rs = 0b01#2) :
    (trace s₀ n).top.exMem.aluResult = (trace s₀ (n + 1)).top.regfileWdata ∧
      ∃ f, (trace s₀ n).inMem = some f ∧
        opcode f.word ≠ LOAD ∧ opcode f.word ≠ JAL ∧ opcode f.word ≠ JALR := by
  have hw := ((gaps s₀ n).forward_alu ha hrs hf).1
  obtain ⟨hreg, hrd, h0⟩ := (HazardUnit.forward_exMem_iff _ _).mp hf
  refine ⟨?_, ?_⟩
  · rw [trace_top_succ, Top.regfileWdata_step_of_alu hw]
  · cases hm : (trace s₀ n).inMem with
    | none =>
      have h := ((tracks s₀ n).mem_none hm).x0 hreg
      exact absurd (hrd.symm.trans h) h0
    | some f =>
      have hc := (tracks s₀ n).mem_some hm
      exact ⟨f, rfl, Decoder.opcode_of_wbSel (hc.wbSel ▸ hw)⟩

/-- In every cycle after reset, an operand that an active instruction in EX takes
from EX/MEM is the value its producer writes back in the next cycle. -/
theorem forwarded_value_written_back (s₀ : Top) (n : ℕ)
    (ha : (trace s₀ n).top.idEx.active = true) :
    ((trace s₀ n).top.forwardA = 0b01#2 →
      (trace s₀ n).top.forwardAVal = (trace s₀ (n + 1)).top.regfileWdata ∧
      ∃ f, (trace s₀ n).inMem = some f ∧
        opcode f.word ≠ LOAD ∧ opcode f.word ≠ JAL ∧ opcode f.word ≠ JALR) ∧
    ((trace s₀ n).top.forwardB = 0b01#2 →
      (trace s₀ n).top.forwardBVal = (trace s₀ (n + 1)).top.regfileWdata ∧
      ∃ f, (trace s₀ n).inMem = some f ∧
        opcode f.word ≠ LOAD ∧ opcode f.word ≠ JAL ∧ opcode f.word ≠ JALR) := by
  refine ⟨fun hf => ?_, fun hf => ?_⟩
  · obtain ⟨hv, hp⟩ := forwarded_operand ha (Or.inl rfl) hf
    exact ⟨by rw [← hv]; simp [Top.forwardAVal, Top.forwardVal, hf], hp⟩
  · obtain ⟨hv, hp⟩ := forwarded_operand ha (Or.inr rfl) hf
    exact ⟨by rw [← hv]; simp [Top.forwardBVal, Top.forwardVal, hf], hp⟩

/-- `addi x1,x0,5; addi x2,x1,1`: the second instruction takes `x1` from EX/MEM. -/
theorem forwarded_value_written_back_addi :
    (trace (load [0x00500093#32, 0x00108113#32]) 3).top.forwardAVal =
      (trace (load [0x00500093#32, 0x00108113#32]) 4).top.regfileWdata :=
  ((forwarded_value_written_back (load [0x00500093#32, 0x00108113#32]) 3
    (by decide +kernel)).1 (by decide +kernel)).1

end Rv32iRtl
