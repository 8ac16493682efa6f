import Rv32iRtl.StageContents

/-! What the flush and stall inputs of `pipeline_regs` promise for the four registers. -/
namespace Rv32iRtl

/-- A flush leaves a harmless content, a stall alone the old one, and otherwise the inputs of the
cycle are taken over as a whole. -/
structure StageContract {S : Type*} (flush stall : Bool) (harmless : S → Prop) (input q q' : S) :
    Prop where
  flushed : flush = true → harmless q'
  held : flush = false → stall = true → q' = q
  loaded : flush = false → stall = false → q' = input

structure ExMem.Bubble (e : ExMem) : Prop where
  memWrite : e.memWrite = false
  memRead : e.memRead = false
  regWrite : e.regWrite = false
  branchTaken : e.branchTaken = false

/-- The contract of each register; EX/MEM cannot be stalled, and MEM/WB has no control at all. -/
structure ControlContract (c : StageControl) (ifIn : IfId) (idIn : IdPorts) (exIn : ExMem)
    (memIn : MemWb) (q q' : PipelineRegs) : Prop where
  ifId : StageContract c.flushIfId c.stallIfId (fun e => e.instr = NOP) ifIn q.ifId q'.ifId
  idEx : StageContract c.flushIdEx c.stallIdEx IdEx.Bubble { idIn with pc := q.ifId.pc }
    q.idEx q'.idEx
  exMem : StageContract c.flushExMem false ExMem.Bubble exIn q.exMem q'.exMem
  memWb : StageContract false false (fun _ => False) memIn q.memWb q'.memWb

namespace PipelineRegs

variable {c : StageControl}

lemma nextIfId_contract (hrst : c.rst = false) (d q : IfId) :
    StageContract c.flushIfId c.stallIfId (fun e => e.instr = NOP) d q (nextIfId c d q) := by
  constructor
  · intro hf
    simp [nextIfId, hrst, hf]
  · intro hf hs
    simp [nextIfId, hrst, hf, hs]
  · intro hf hs
    simp [nextIfId, hrst, hf, hs]

lemma nextIdEx_contract (hrst : c.rst = false) (pc : Word) (d : IdPorts) (q : IdEx) :
    StageContract c.flushIdEx c.stallIdEx IdEx.Bubble { d with pc := pc } q
      (nextIdEx c pc d q) := by
  constructor
  · intro hf
    have hq : nextIdEx c pc d q = q.flush := by simp [nextIdEx, hrst, hf]
    rw [hq]
    exact q.flush_bubble
  · intro hf hs
    simp [nextIdEx, hrst, hf, hs]
  · intro hf hs
    simp [nextIdEx, hrst, hf, hs]

/-- The controls of EX/MEM survive its flush. -/
lemma flush_bubble_iff (d q : ExMem) : (q.flush d).Bubble ↔ q.Bubble :=
  ⟨fun h => ⟨h.memWrite, h.memRead, h.regWrite, h.branchTaken⟩,
    fun h => ⟨h.memWrite, h.memRead, h.regWrite, h.branchTaken⟩⟩

lemma nextExMem_contract_iff (hrst : c.rst = false) (d q : ExMem) :
    StageContract c.flushExMem false ExMem.Bubble d q (nextExMem c d q) ↔
      (c.flushExMem = true → q.Bubble) := by
  constructor
  · intro h hf
    have hq : nextExMem c d q = q.flush d := by simp [nextExMem, hrst, hf]
    have hb := h.flushed hf
    rw [hq, flush_bubble_iff] at hb
    exact hb
  · intro h
    constructor
    · intro hf
      have hq : nextExMem c d q = q.flush d := by simp [nextExMem, hrst, hf]
      rw [hq, flush_bubble_iff]
      exact h hf
    · intro _ hs
      contradiction
    · intro hf _
      simp [nextExMem, hrst, hf]

end PipelineRegs

/-- The registers keep their contract unless EX/MEM is flushed while its instruction is active. -/
theorem control_contract_iff {c : StageControl} (hrst : c.rst = false) (ifIn : IfId)
    (idIn : IdPorts) (exIn : ExMem) (memIn : MemWb) (q : PipelineRegs) :
    ControlContract c ifIn idIn exIn memIn q (pipelineRegs c ifIn idIn exIn memIn q) ↔
      (c.flushExMem = true → q.exMem.Bubble) := by
  have hexMem := PipelineRegs.nextExMem_contract_iff hrst exIn q.exMem
  constructor
  · intro h
    exact hexMem.mp h.exMem
  · intro h
    refine ⟨PipelineRegs.nextIfId_contract hrst ifIn q.ifId,
      PipelineRegs.nextIdEx_contract hrst q.ifId.pc idIn q.idEx, hexMem.mpr h, ?_⟩
    refine ⟨fun hf => by contradiction, fun _ hs => by contradiction, fun _ _ => ?_⟩
    simp [pipelineRegs, PipelineRegs.nextMemWb, hrst]

def flushExMemOnly : StageControl := ⟨false, false, false, false, false, true⟩

theorem control_contract_iff_idle :
    ControlContract flushExMemOnly IfId.reset IdEx.reset.toIdPorts ExMem.reset MemWb.reset
      PipelineRegs.reset (pipelineRegs flushExMemOnly IfId.reset IdEx.reset.toIdPorts ExMem.reset
        MemWb.reset PipelineRegs.reset) :=
  (control_contract_iff rfl IfId.reset IdEx.reset.toIdPorts ExMem.reset MemWb.reset
    PipelineRegs.reset).mpr fun _ => ⟨rfl, rfl, rfl, rfl⟩

/-- A store to the address 4. -/
def storeInMem : PipelineRegs :=
  { PipelineRegs.reset with
    exMem := { ExMem.reset with aluResult := 4#32, memWrite := true, funct3 := 0b010#3 } }

/-- The flushed store is still a store, which writes once more. -/
theorem control_contract_fails :
    ¬∀ (c : StageControl) (ifIn : IfId) (idIn : IdPorts) (exIn : ExMem) (memIn : MemWb)
      (q : PipelineRegs), c.rst = false →
        ControlContract c ifIn idIn exIn memIn q (pipelineRegs c ifIn idIn exIn memIn q) := by
  intro h
  have hexMem := (h flushExMemOnly IfId.reset IdEx.reset.toIdPorts ExMem.reset MemWb.reset
    storeInMem rfl).exMem
  have hw := (hexMem.flushed rfl).memWrite
  contradiction

end Rv32iRtl
