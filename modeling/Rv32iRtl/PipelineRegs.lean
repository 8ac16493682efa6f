import Rv32iRtl.Execute

/-! The four pipeline registers `pipeline_regs.v`. A register's fields and the
ports that feed it have the same names, so each stage is one record; only
`id_ex_pc` has no port of its own and is fed by `if_id_pc`. -/
namespace Rv32iRtl

/-- `32'h00000013`, the word a flush puts into IF/ID. -/
def NOP : Word := 0x00000013#32

structure IfId where
  pc : Word
  instr : Word
  deriving DecidableEq, Repr

structure IdPorts where
  rs1Data : Word
  rs2Data : Word
  rs1Addr : RegAddr
  rs2Addr : RegAddr
  rdAddr : RegAddr
  imm : Word
  aluOp : BitVec 4
  aluSrc : Bool
  memWrite : Bool
  memRead : Bool
  wbSel : BitVec 2
  regWrite : Bool
  branch : Bool
  jump : Bool
  branchFunct3 : BitVec 3
  isAuipc : Bool
  pcPlus4 : Word
  deriving DecidableEq, Repr

structure IdEx extends IdPorts where
  pc : Word
  deriving DecidableEq, Repr

structure ExMem where
  aluResult : Word
  rs2Data : Word
  rdAddr : RegAddr
  branchTarget : Word
  branchTaken : Bool
  memWrite : Bool
  memRead : Bool
  wbSel : BitVec 2
  regWrite : Bool
  funct3 : BitVec 3
  pcPlus4 : Word
  deriving DecidableEq, Repr

structure MemWb where
  aluResult : Word
  loadData : Word
  rdAddr : RegAddr
  regWrite : Bool
  wbSel : BitVec 2
  pcPlus4 : Word
  deriving DecidableEq, Repr

structure PipelineRegs where
  ifId : IfId
  idEx : IdEx
  exMem : ExMem
  memWb : MemWb
  deriving DecidableEq, Repr

structure StageControl where
  rst : Bool
  stallIfId : Bool
  flushIfId : Bool
  stallIdEx : Bool
  flushIdEx : Bool
  flushExMem : Bool
  deriving DecidableEq, Repr

def IfId.reset : IfId := ⟨0#32, 0#32⟩

def IdEx.reset : IdEx where
  rs1Data := 0#32
  rs2Data := 0#32
  rs1Addr := 0#5
  rs2Addr := 0#5
  rdAddr := 0#5
  imm := 0#32
  aluOp := 0#4
  aluSrc := false
  memWrite := false
  memRead := false
  wbSel := 0#2
  regWrite := false
  branch := false
  jump := false
  branchFunct3 := 0#3
  isAuipc := false
  pcPlus4 := 0#32
  pc := 0#32

/-- The flush branch of ID/EX: data fields and addresses are kept. -/
def IdEx.flush (q : IdEx) : IdEx :=
  { q with
    imm := 0#32
    aluOp := 0#4
    aluSrc := false
    memWrite := false
    memRead := false
    wbSel := 0#2
    regWrite := false
    branch := false
    jump := false
    branchFunct3 := 0#3
    isAuipc := false
    pcPlus4 := 0#32 }

def ExMem.reset : ExMem := ⟨0#32, 0#32, 0#5, 0#32, false, false, false, 0#2, false, 0#3, 0#32⟩

/-- The flush branch of EX/MEM keeps everything but `funct3` and `pc_plus4`. -/
def ExMem.flush (q d : ExMem) : ExMem := { q with funct3 := d.funct3, pcPlus4 := d.pcPlus4 }

def MemWb.reset : MemWb := ⟨0#32, 0#32, 0#5, false, 0#2, 0#32⟩

def PipelineRegs.reset : PipelineRegs := ⟨IfId.reset, IdEx.reset, ExMem.reset, MemWb.reset⟩

namespace PipelineRegs

def nextIfId (c : StageControl) (d q : IfId) : IfId :=
  if c.rst then IfId.reset
  else if c.flushIfId then ⟨d.pc, NOP⟩
  else if !c.stallIfId then d
  else q

def nextIdEx (c : StageControl) (ifIdPc : Word) (d : IdPorts) (q : IdEx) : IdEx :=
  if c.rst then IdEx.reset
  else if c.flushIdEx then q.flush
  else if !c.stallIdEx then { d with pc := ifIdPc }
  else q

def nextExMem (c : StageControl) (d q : ExMem) : ExMem :=
  if c.rst then ExMem.reset
  else if c.flushExMem then q.flush d
  else d

def nextMemWb (c : StageControl) (d : MemWb) : MemWb := if c.rst then MemWb.reset else d

end PipelineRegs

/-- One clock edge of `pipeline_regs`; `q` is the state before the edge. -/
def pipelineRegs (c : StageControl) (ifIn : IfId) (idIn : IdPorts) (exIn : ExMem) (memIn : MemWb)
    (q : PipelineRegs) : PipelineRegs where
  ifId := PipelineRegs.nextIfId c ifIn q.ifId
  idEx := PipelineRegs.nextIdEx c q.ifId.pc idIn q.idEx
  exMem := PipelineRegs.nextExMem c exIn q.exMem
  memWb := PipelineRegs.nextMemWb c memIn

lemma pipelineRegs_rst {c : StageControl} (h : c.rst = true) (ifIn : IfId) (idIn : IdPorts)
    (exIn : ExMem) (memIn : MemWb) (q : PipelineRegs) :
    pipelineRegs c ifIn idIn exIn memIn q = PipelineRegs.reset := by
  simp [pipelineRegs, PipelineRegs.nextIfId, PipelineRegs.nextIdEx, PipelineRegs.nextExMem,
    PipelineRegs.nextMemWb, PipelineRegs.reset, h]

end Rv32iRtl
