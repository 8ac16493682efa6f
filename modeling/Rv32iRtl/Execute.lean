import Mathlib

/-! The two combinational units of the EX stage: `alu.v` and `branch_unit.v`.
Signals are bit vectors of the declared widths, one-bit signals are Booleans. -/
namespace Rv32iRtl

abbrev Word := BitVec 32
abbrev RegAddr := BitVec 5

/-- `address[17:2]`, the index into the 65536-word memory array of `top.v`. -/
def wordIndex (address : Word) : BitVec 16 := address.extractLsb 17 2

def flag (b : Bool) : Word := if b then 1#32 else 0#32

/-- The case statement of `alu.v`, default included. -/
def alu (a b : Word) (aluOp : BitVec 4) : Word :=
  match aluOp with
  | 0b0000#4 => a + b
  | 0b0001#4 => a - b
  | 0b0010#4 => a &&& b
  | 0b0011#4 => a ||| b
  | 0b0100#4 => a ^^^ b
  | 0b0101#4 => flag (a.slt b)
  | 0b0110#4 => flag (a.ult b)
  | 0b0111#4 => a <<< b.extractLsb 4 0
  | 0b1000#4 => a >>> b.extractLsb 4 0
  | 0b1001#4 => a.sshiftRight' (b.extractLsb 4 0)
  | _ => 0#32

def aluZero (a b : Word) (aluOp : BitVec 4) : Bool := alu a b aluOp == 0#32

namespace BranchUnit

def conditionMet (rs1 rs2 : Word) (funct3 : BitVec 3) : Bool :=
  match funct3 with
  | 0b000#3 => rs1 == rs2
  | 0b001#3 => rs1 != rs2
  | 0b100#3 => rs1.slt rs2
  | 0b101#3 => !rs1.slt rs2
  | 0b110#3 => rs1.ult rs2
  | 0b111#3 => !rs1.ult rs2
  | _ => false

def branchTaken (rs1 rs2 : Word) (funct3 : BitVec 3) (isBranch isJal isJalr : Bool) : Bool :=
  isJal || isJalr || (isBranch && conditionMet rs1 rs2 funct3)

def branchTarget (pc rs1 imm : Word) (isJalr : Bool) : Word :=
  if isJalr then (rs1 + imm) &&& ~~~1#32 else pc + imm

end BranchUnit

end Rv32iRtl
