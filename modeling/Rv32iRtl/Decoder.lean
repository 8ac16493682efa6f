import Rv32iRtl.Execute

/-! The instruction decoder `decoder.v`. Slices are written with the bit ranges
of the source; the large `case` is kept as one definition over the opcode. -/
namespace Rv32iRtl

/-- The opcode constants of the hardware contract. -/
def RTYPE := 0b0110011#7
def ITYPE := 0b0010011#7
def LOAD := 0b0000011#7
def STORE := 0b0100011#7
def BRANCH := 0b1100011#7
def JAL := 0b1101111#7
def JALR := 0b1100111#7
def LUI := 0b0110111#7
def AUIPC := 0b0010111#7
def SYSTEM := 0b1110011#7
def FENCE := 0b0001111#7

def opcode (instr : Word) : BitVec 7 := instr.extractLsb 6 0
def funct3 (instr : Word) : BitVec 3 := instr.extractLsb 14 12
def rdField (instr : Word) : RegAddr := instr.extractLsb 11 7

structure Control where
  imm : Word := 0#32
  aluSrc : Bool := false
  memRead : Bool := false
  memWrite : Bool := false
  regWrite : Bool := false
  wbSel : BitVec 2 := 0b00#2
  aluOp : BitVec 4 := 0b0000#4
  branch : Bool := false
  jump : Bool := false
  isAuipc : Bool := false
  memSize : BitVec 2 := 0b00#2
  deriving DecidableEq, Repr

structure Decoded extends Control where
  rs1 : RegAddr
  rs2 : RegAddr
  rd : RegAddr
  branchFunct3 : BitVec 3
  funct3 : BitVec 3
  csrEn : Bool
  csrAddr : BitVec 12
  csrOp : BitVec 3
  csrWdata : Word
  deriving DecidableEq, Repr

namespace Decoder

def decAluOp (instr : Word) : BitVec 4 :=
  match instr.extractLsb 6 0 with
  | 0b0110011#7 =>
    match instr.extractLsb 14 12 with
    | 0b000#3 => if instr.getLsbD 30 then 0b0001#4 else 0b0000#4
    | 0b001#3 => 0b0111#4
    | 0b010#3 => 0b0101#4
    | 0b011#3 => 0b0110#4
    | 0b100#3 => 0b0100#4
    | 0b101#3 => if instr.getLsbD 30 then 0b1001#4 else 0b1000#4
    | 0b110#3 => 0b0011#4
    | _ => 0b0010#4
  | 0b0010011#7 =>
    match instr.extractLsb 14 12 with
    | 0b000#3 => 0b0000#4
    | 0b001#3 => 0b0111#4
    | 0b010#3 => 0b0101#4
    | 0b011#3 => 0b0110#4
    | 0b100#3 => 0b0100#4
    | 0b101#3 => if instr.getLsbD 30 then 0b1001#4 else 0b1000#4
    | 0b110#3 => 0b0011#4
    | _ => 0b0010#4
  | _ => 0b0000#4

def immI (instr : Word) : Word :=
  BitVec.replicate 20 (instr.extractLsb 31 31) ++ instr.extractLsb 31 20

def immS (instr : Word) : Word :=
  BitVec.replicate 20 (instr.extractLsb 31 31) ++ instr.extractLsb 31 25 ++ instr.extractLsb 11 7

def immB (instr : Word) : Word :=
  BitVec.replicate 20 (instr.extractLsb 31 31) ++ instr.extractLsb 7 7 ++
    instr.extractLsb 30 25 ++ instr.extractLsb 11 8 ++ 0#1

def immU (instr : Word) : Word := instr.extractLsb 31 12 ++ 0#12

def immJ (instr : Word) : Word :=
  BitVec.replicate 12 (instr.extractLsb 31 31) ++ instr.extractLsb 19 12 ++
    instr.extractLsb 20 20 ++ instr.extractLsb 30 21 ++ 0#1

/-- The opcode case of the decoder. Fields not written in a branch carry the
zero that every branch of the source writes there. -/
def control (instr : Word) : Control :=
  match instr.extractLsb 6 0 with
  | 0b0110011#7 => { regWrite := true, aluOp := decAluOp instr }
  | 0b0010011#7 =>
    { imm := immI instr, aluSrc := true, regWrite := true, aluOp := decAluOp instr }
  | 0b0000011#7 =>
    { imm := immI instr, aluSrc := true, memRead := true, regWrite := true, wbSel := 0b01#2,
      memSize := instr.extractLsb 13 12 }
  | 0b0100011#7 =>
    { imm := immS instr, aluSrc := true, memWrite := true, memSize := instr.extractLsb 13 12 }
  | 0b1100011#7 => { imm := immB instr, branch := true }
  | 0b1101111#7 => { imm := immJ instr, regWrite := true, wbSel := 0b10#2, jump := true }
  | 0b1100111#7 =>
    { imm := immI instr, aluSrc := true, regWrite := true, wbSel := 0b10#2, jump := true }
  | 0b0110111#7 => { imm := immU instr, aluSrc := true, regWrite := true }
  | 0b0010111#7 => { imm := immU instr, aluSrc := true, regWrite := true, isAuipc := true }
  | 0b1110011#7 => {}
  | _ => {}

end Decoder

/-- LUI reads `x0` as its first source; every other word reads `instr[19:15]`. -/
def decoder (instr : Word) : Decoded where
  toControl := Decoder.control instr
  rs1 := if instr.extractLsb 6 0 == 0b0110111#7 then 0#5 else instr.extractLsb 19 15
  rs2 := instr.extractLsb 24 20
  rd := instr.extractLsb 11 7
  branchFunct3 := instr.extractLsb 14 12
  funct3 := instr.extractLsb 14 12
  csrEn := instr.extractLsb 6 0 == 0b1110011#7
  csrAddr := instr.extractLsb 31 20
  csrOp := instr.extractLsb 14 12
  csrWdata :=
    if instr.extractLsb 6 0 == 0b1110011#7 then
      0#27 ++ (if instr.extractLsb 6 0 == 0b0110111#7 then 0#5 else instr.extractLsb 19 15)
    else 0#32

namespace Decoder

lemma memRead_kind {instr : Word} (h : (decoder instr).memRead = true) :
    (decoder instr).wbSel = 0b01#2 ∧ (decoder instr).branch = false ∧
      (decoder instr).jump = false := by
  simp only [decoder, control] at h ⊢
  split at h <;> simp_all

/-- The decoder never selects the CSR input of the write-back mux. -/
lemma wbSel_kind (instr : Word) :
    (decoder instr).wbSel = 0b00#2 ∨
      ((decoder instr).wbSel = 0b01#2 ∧ (decoder instr).memRead = true) ∨
      ((decoder instr).wbSel = 0b10#2 ∧ (decoder instr).jump = true) := by
  simp only [decoder, control]
  split <;> simp

end Decoder

end Rv32iRtl
