import Rv32iRtl.Trace

/-! What each pipeline register holds: the decoded word of its instruction, or a
squashed content that can do nothing. The invariant `Tracks` ties the registers
to the ghost record in every cycle after reset. -/
namespace Rv32iRtl

/-- ID/EX holds the decoder outputs of `word`. -/
structure IdEx.Carries (e : IdEx) (word : Word) : Prop where
  rs1Addr : e.rs1Addr = (decoder word).rs1
  rs2Addr : e.rs2Addr = (decoder word).rs2
  rdAddr : e.rdAddr = (decoder word).rd
  imm : e.imm = (decoder word).imm
  aluOp : e.aluOp = (decoder word).aluOp
  aluSrc : e.aluSrc = (decoder word).aluSrc
  memWrite : e.memWrite = (decoder word).memWrite
  memRead : e.memRead = (decoder word).memRead
  wbSel : e.wbSel = (decoder word).wbSel
  regWrite : e.regWrite = (decoder word).regWrite
  branch : e.branch = (decoder word).branch
  jump : e.jump = (decoder word).jump
  branchFunct3 : e.branchFunct3 = (decoder word).branchFunct3
  isAuipc : e.isAuipc = (decoder word).isAuipc

structure ExMem.Carries (e : ExMem) (word : Word) : Prop where
  rdAddr : e.rdAddr = (decoder word).rd
  memWrite : e.memWrite = (decoder word).memWrite
  memRead : e.memRead = (decoder word).memRead
  wbSel : e.wbSel = (decoder word).wbSel
  regWrite : e.regWrite = (decoder word).regWrite
  funct3 : e.funct3 = (decoder word).branchFunct3

structure MemWb.Carries (e : MemWb) (word : Word) : Prop where
  rdAddr : e.rdAddr = (decoder word).rd
  wbSel : e.wbSel = (decoder word).wbSel
  regWrite : e.regWrite = (decoder word).regWrite

structure IdEx.Bubble (e : IdEx) : Prop where
  memWrite : e.memWrite = false
  memRead : e.memRead = false
  regWrite : e.regWrite = false
  branch : e.branch = false
  jump : e.jump = false

/-- A squashed ID/EX: a bubble, or the decoded flush NOP, which names only `x0`. -/
structure IdEx.Idle (e : IdEx) : Prop where
  memWrite : e.memWrite = false
  memRead : e.memRead = false
  branch : e.branch = false
  jump : e.jump = false
  wbSel : e.wbSel = 0b00#2
  x0 : e.regWrite = true → e.rdAddr = 0#5 ∧ e.rs1Addr = 0#5 ∧ e.rs2Addr = 0#5

structure ExMem.Idle (e : ExMem) : Prop where
  memWrite : e.memWrite = false
  memRead : e.memRead = false
  wbSel : e.wbSel = 0b00#2
  x0 : e.regWrite = true → e.rdAddr = 0#5

structure MemWb.Idle (e : MemWb) : Prop where
  x0 : e.regWrite = true → e.rdAddr = 0#5

lemma IdEx.flush_bubble (e : IdEx) : e.flush.Bubble := ⟨rfl, rfl, rfl, rfl, rfl⟩

lemma IdEx.flush_idle (e : IdEx) : e.flush.Idle := ⟨rfl, rfl, rfl, rfl, rfl, by simp [IdEx.flush]⟩

lemma IdEx.reset_idle : IdEx.reset.Idle := ⟨rfl, rfl, rfl, rfl, rfl, by simp [IdEx.reset]⟩

/-- The contents of every stage agree with the ghost record. -/
structure Tracks (t : Traced) : Prop where
  id_some : ∀ {f}, t.inId = some f → t.top.ifId = ⟨f.addr, f.word⟩
  id_none : t.inId = none → t.top.ifId.instr = NOP ∨ t.top.ifId.instr = 0#32
  ex_some : ∀ {f}, t.inEx = some f → t.top.idEx.Carries f.word ∧ t.top.idEx.pc = f.addr
  ex_none : t.inEx = none → t.top.idEx.Idle
  mem_some : ∀ {f}, t.inMem = some f → t.top.exMem.Carries f.word
  mem_none : t.inMem = none → t.top.exMem.Idle
  wb_some : ∀ {f}, t.inWb = some f → t.top.memWb.Carries f.word
  wb_none : t.inWb = none → t.top.memWb.Idle

namespace Top

lemma idPorts_carries (s : Top) (pc : Word) :
    IdEx.Carries { s.idPorts with pc := pc } s.ifId.instr := by
  constructor <;> rfl

lemma branchTakenEx_of_idle {s : Top} (h : s.idEx.Idle) : s.branchTakenEx = false := by
  simp [branchTakenEx, BranchUnit.branchTaken, isJal, isJalr, h.branch, h.jump]

lemma exPorts_carries {s : Top} {word : Word} (h : s.idEx.Carries word) : s.exPorts.Carries word :=
  ⟨h.rdAddr, h.memWrite, h.memRead, h.wbSel, h.regWrite, h.branchFunct3⟩

lemma exPorts_idle {s : Top} (h : s.idEx.Idle) : s.exPorts.Idle :=
  ⟨h.memWrite, h.memRead, h.wbSel, fun hw => (h.x0 hw).1⟩

lemma memPorts_carries {s : Top} {word : Word} (h : s.exMem.Carries word) :
    s.memPorts.Carries word := ⟨h.rdAddr, h.wbSel, h.regWrite⟩

lemma idPorts_idle {s : Top} (h : s.ifId.instr = NOP ∨ s.ifId.instr = 0#32) (pc : Word) :
    IdEx.Idle { s.idPorts with pc := pc } := by
  rcases h with h | h <;> constructor <;> simp only [idPorts, dec, h] <;> decide

lemma regWriteEvent_of_idle {s : Top} (h : s.memWb.Idle) : s.regWriteEvent = none := by
  have hx := h.x0
  cases hw : s.memWb.regWrite <;> simp_all [regWriteEvent]

lemma memWriteEvent_of_idle {s : Top} (h : s.exMem.Idle) : s.memWriteEvent = none := by
  simp [memWriteEvent, h.memWrite]

end Top

namespace Tracks

lemma boot (s₀ : Top) : Tracks (Traced.boot s₀) := by
  constructor <;> simp only [Traced.boot, reduceCtorEq, false_implies, implies_true, true_implies,
    Top.step_reset]
  · exact Or.inr rfl
  · exact IdEx.reset_idle
  · exact ⟨rfl, rfl, rfl, by simp [Top.powerOn, PipelineRegs.reset, ExMem.reset]⟩
  · exact ⟨by simp [Top.powerOn, PipelineRegs.reset, MemWb.reset]⟩

lemma step {t : Traced} (h : Tracks t) : Tracks t.step := by
  constructor
  · intro f hf
    rw [Traced.step_inId] at hf
    change (t.top.step false).ifId = _
    rw [Top.step_ifId]
    split_ifs at hf ⊢
    · exact h.id_some hf
    · cases hf
      rfl
  · intro hf
    rw [Traced.step_inId] at hf
    change (t.top.step false).ifId.instr = _ ∨ (t.top.step false).ifId.instr = _
    rw [Top.step_ifId]
    split_ifs at hf ⊢
    · exact Or.inl rfl
    · exact h.id_none hf
  · intro f hf
    rw [Traced.step_inEx] at hf
    change (t.top.step false).idEx.Carries f.word ∧ (t.top.step false).idEx.pc = f.addr
    rw [Top.step_idEx]
    split_ifs at hf ⊢
    have hid := h.id_some hf
    have hc := t.top.idPorts_carries t.top.ifId.pc
    rw [hid] at hc ⊢
    exact ⟨hc, rfl⟩
  · intro hf
    rw [Traced.step_inEx] at hf
    change (t.top.step false).idEx.Idle
    rw [Top.step_idEx]
    split_ifs at hf ⊢
    · exact IdEx.flush_idle _
    · exact Top.idPorts_idle (h.id_none hf) _
  · exact fun hf => Top.exPorts_carries (h.ex_some hf).1
  · exact fun hf => Top.exPorts_idle (h.ex_none hf)
  · exact fun hf => Top.memPorts_carries (h.mem_some hf)
  · exact fun hf => ⟨(h.mem_none hf).x0⟩

end Tracks

theorem tracks (s₀ : Top) (n : ℕ) : Tracks (trace s₀ n) :=
  Traced.always Tracks.boot (fun _ h => h.step) s₀ n

namespace Tracks

/-- A load in EX is no branch or jump, so a stall and a redirect never coincide. -/
lemma not_taken_of_loadUse {t : Traced} (h : Tracks t) (hl : t.top.loadUse = true) :
    t.top.branchTakenEx = false := by
  have hr : t.top.idEx.memRead = true := by
    simp only [Top.loadUse, HazardUnit.loadUse, Bool.and_eq_true] at hl
    exact hl.1.1
  cases hf : t.inEx with
  | none => exact Top.branchTakenEx_of_idle (h.ex_none hf)
  | some f =>
    have hc := (h.ex_some hf).1
    rw [hc.memRead] at hr
    obtain ⟨-, hb, hj⟩ := Decoder.memRead_kind hr
    simp [Top.branchTakenEx, BranchUnit.branchTaken, Top.isJal, Top.isJalr, hc.branch, hc.jump, hb, hj]

end Tracks

end Rv32iRtl
