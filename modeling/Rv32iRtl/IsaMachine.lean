import Rv32iRtl.IsaEncoding
import Rv32iRtl.ByteLanes
import Rv32iRtl.EventTrace

/-! The sequential RV32I machine: one instruction at a time, on the registers and
the 65536-word memory of the core. It says what the pipeline is for. -/
namespace Rv32iRtl.Isa

open ByteLanes EventTrace

def AluOp.eval : AluOp → Word → Word → Word
  | .add, x, y => x + y
  | .sub, x, y => x - y
  | .sll, x, y => x <<< (y.toNat % 32)
  | .slt, x, y => if x.toInt < y.toInt then 1#32 else 0#32
  | .sltu, x, y => if x.toNat < y.toNat then 1#32 else 0#32
  | .xor, x, y => x ^^^ y
  | .srl, x, y => x >>> (y.toNat % 32)
  | .sra, x, y => x.sshiftRight (y.toNat % 32)
  | .or, x, y => x ||| y
  | .and, x, y => x &&& y

def ImmOp.aluOp : ImmOp → AluOp
  | .addi => .add
  | .slti => .slt
  | .sltiu => .sltu
  | .xori => .xor
  | .ori => .or
  | .andi => .and

def ShiftOp.aluOp : ShiftOp → AluOp
  | .slli => .sll
  | .srli => .srl
  | .srai => .sra

def BranchOp.holds : BranchOp → Word → Word → Bool
  | .beq, x, y => x = y
  | .bne, x, y => x ≠ y
  | .blt, x, y => x.toInt < y.toInt
  | .bge, x, y => y.toInt ≤ x.toInt
  | .bltu, x, y => x.toNat < y.toNat
  | .bgeu, x, y => y.toNat ≤ x.toNat

def LoadOp.size : LoadOp → ℕ
  | .lb | .lbu => 1
  | .lh | .lhu => 2
  | .lw => 4

/-- The loaded value, from the bytes that start at the address. -/
def LoadOp.value (b : ℕ → BitVec 8) : LoadOp → Word
  | .lb => (b 0).signExtend 32
  | .lbu => (b 0).setWidth 32
  | .lh => (b 1 ++ b 0).signExtend 32
  | .lhu => (b 1 ++ b 0).setWidth 32
  | .lw => b 3 ++ b 2 ++ b 1 ++ b 0

def StoreOp.size : StoreOp → ℕ
  | .sb => 1
  | .sh => 2
  | .sw => 4

/-- Where an access of `size` bytes starts in its word. Lower address bits are ignored: only where
the address is a multiple of the size is this RV32I. -/
def laneOffset (size : ℕ) (address : Word) : BitVec 2 :=
  BitVec.ofNat 2 (address.toNat % 4 / size * size)

namespace Instr

def dest : Instr → Option RegAddr
  | op _ rd _ _ | opImm _ rd _ _ | shiftImm _ rd _ _ | load _ rd _ _ | jal rd _ | jalr rd _ _
  | lui rd _ | auipc rd _ => some rd
  | store .. | branch .. | miscMem .. => none

def src1 : Instr → Option RegAddr
  | op _ _ rs1 _ | opImm _ _ rs1 _ | shiftImm _ _ rs1 _ | load _ _ rs1 _ | store _ rs1 _ _
  | branch _ rs1 _ _ | jalr _ rs1 _ => some rs1
  | jal .. | lui .. | auipc .. | miscMem .. => none

def src2 : Instr → Option RegAddr
  | op _ _ _ rs2 | store _ _ rs2 _ | branch _ _ rs2 _ => some rs2
  | _ => none

/-- What OP, OP-IMM, LUI and AUIPC compute from the operand values. -/
def result (pc x1 x2 : Word) : Instr → Option Word
  | op o _ _ _ => some (o.eval x1 x2)
  | opImm o _ _ imm => some (o.aluOp.eval x1 (imm.signExtend 32))
  | shiftImm o _ _ shamt => some (o.aluOp.eval x1 (shamt.setWidth 32))
  | lui _ imm => some (imm ++ 0#12)
  | auipc _ imm => some (pc + (imm ++ 0#12))
  | _ => none

def address (x1 : Word) : Instr → Option Word
  | load _ _ _ imm | store _ _ _ imm => some (x1 + imm.signExtend 32)
  | _ => none

def redirect (pc x1 x2 : Word) : Instr → Option Word
  | branch o _ _ imm => if o.holds x1 x2 then some (pc + (imm ++ 0#1).signExtend 32) else none
  | jal _ imm => some (pc + (imm ++ 0#1).signExtend 32)
  | jalr _ _ imm => some ((x1 + imm.signExtend 32) &&& ~~~1#32)
  | _ => none

def loads : Instr → Option LoadOp
  | load o _ _ _ => some o
  | _ => none

def stores : Instr → Option StoreOp
  | store o _ _ _ => some o
  | _ => none

end Instr

structure State where
  pc : Word
  regs : RegAddr → Word
  mem : BitVec 16 → Word

namespace State

def reg (σ : State) (r : RegAddr) : Word := if r = 0#5 then 0#32 else σ.regs r

def operand (σ : State) (r : Option RegAddr) : Word := r.elim 0#32 σ.reg

def x1 (σ : State) (i : Instr) : Word := σ.operand i.src1
def x2 (σ : State) (i : Instr) : Word := σ.operand i.src2

/-- The value for `rd`: loaded data, the link address, or the computed result. -/
def value (σ : State) (i : Instr) : Word :=
  match i.loads, i.address (σ.x1 i) with
  | some o, some a =>
    o.value fun k => lane (σ.mem (wordIndex a)) (laneOffset o.size a + BitVec.ofNat 2 k)
  | _, _ => (i.result σ.pc (σ.x1 i) (σ.x2 i)).getD (σ.pc + 4#32)

def regWrite (σ : State) (i : Instr) : Option (RegAddr × Word) :=
  match i.dest with
  | some rd => if rd = 0#5 then none else some (rd, σ.value i)
  | none => none

def memWrite (σ : State) (i : Instr) : Option (BitVec 16 × Word) :=
  match i.stores, i.address (σ.x1 i) with
  | some o, some a =>
    some (wordIndex a, storeLanes (σ.mem (wordIndex a)) (σ.x2 i) (laneOffset o.size a) o.size)
  | _, _ => none

def exec (σ : State) (i : Instr) : State where
  pc := (i.redirect σ.pc (σ.x1 i) (σ.x2 i)).getD (σ.pc + 4#32)
  regs := applyWrite σ.regs (σ.regWrite i)
  mem := applyWrite σ.mem (σ.memWrite i)

def fetch (σ : State) : Option Instr := decode (σ.mem (wordIndex σ.pc))

/-- One instruction; a word that is none of RV32I stops the machine. -/
def step (σ : State) : State :=
  match σ.fetch with
  | some i => σ.exec i
  | none => σ

def regEvent (σ : State) : Option (RegAddr × Word) := σ.fetch.bind σ.regWrite

def memEvent (σ : State) : Option (BitVec 16 × Word) := σ.fetch.bind σ.memWrite

def run (σ : State) (k : ℕ) : State := step^[k] σ

lemma run_succ (σ : State) (k : ℕ) : σ.run (k + 1) = (σ.run k).step :=
  Function.iterate_succ_apply' _ _ _

def regTrace (σ : State) (k : ℕ) : List (RegAddr × Word) :=
  events (fun j => (σ.run j).regEvent) k

def memTrace (σ : State) (k : ℕ) : List (BitVec 16 × Word) :=
  events (fun j => (σ.run j).memEvent) k

end State

end Rv32iRtl.Isa
