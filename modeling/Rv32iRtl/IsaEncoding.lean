import Rv32iRtl.Decoder

/-! RV32I instructions and their encodings, as the format and opcode tables of
the ISA manual give them; the hardware decoder is compared with these words. -/
namespace Rv32iRtl

def funct7 (instr : Word) : BitVec 7 := instr.extractLsb 31 25
def rs1Field (instr : Word) : RegAddr := instr.extractLsb 19 15
def rs2Field (instr : Word) : RegAddr := instr.extractLsb 24 20

namespace Isa

inductive AluOp
  | add | sub | sll | slt | sltu | xor | srl | sra | or | and
  deriving DecidableEq, Repr

inductive ImmOp
  | addi | slti | sltiu | xori | ori | andi
  deriving DecidableEq, Repr

inductive ShiftOp
  | slli | srli | srai
  deriving DecidableEq, Repr

inductive LoadOp
  | lb | lh | lw | lbu | lhu
  deriving DecidableEq, Repr

inductive StoreOp
  | sb | sh | sw
  deriving DecidableEq, Repr

inductive BranchOp
  | beq | bne | blt | bge | bltu | bgeu
  deriving DecidableEq, Repr

inductive FenceOp
  | fence | fenceI
  deriving DecidableEq, Repr

/-- Branch and JAL immediates count halfwords: bit 0 of the offset is not encoded. -/
inductive Instr
  | op (o : AluOp) (rd rs1 rs2 : RegAddr)
  | opImm (o : ImmOp) (rd rs1 : RegAddr) (imm : BitVec 12)
  | shiftImm (o : ShiftOp) (rd rs1 : RegAddr) (shamt : BitVec 5)
  | load (o : LoadOp) (rd rs1 : RegAddr) (imm : BitVec 12)
  | store (o : StoreOp) (rs1 rs2 : RegAddr) (imm : BitVec 12)
  | branch (o : BranchOp) (rs1 rs2 : RegAddr) (imm : BitVec 12)
  | jal (rd : RegAddr) (imm : BitVec 20)
  | jalr (rd rs1 : RegAddr) (imm : BitVec 12)
  | lui (rd : RegAddr) (imm : BitVec 20)
  | auipc (rd : RegAddr) (imm : BitVec 20)
  | miscMem (o : FenceOp) (rd rs1 : RegAddr) (imm : BitVec 12)
  deriving DecidableEq, Repr

def rFormat (f7 : BitVec 7) (rs2 rs1 : RegAddr) (f3 : BitVec 3) (rd : RegAddr)
    (op : BitVec 7) : Word := f7 ++ rs2 ++ rs1 ++ f3 ++ rd ++ op

def iFormat (imm : BitVec 12) (rs1 : RegAddr) (f3 : BitVec 3) (rd : RegAddr)
    (op : BitVec 7) : Word := imm ++ rs1 ++ f3 ++ rd ++ op

def sFormat (imm : BitVec 12) (rs2 rs1 : RegAddr) (f3 : BitVec 3) (op : BitVec 7) : Word :=
  imm.extractLsb 11 5 ++ rs2 ++ rs1 ++ f3 ++ imm.extractLsb 4 0 ++ op

def bFormat (imm : BitVec 12) (rs2 rs1 : RegAddr) (f3 : BitVec 3) (op : BitVec 7) : Word :=
  imm.extractLsb 11 11 ++ imm.extractLsb 9 4 ++ rs2 ++ rs1 ++ f3 ++ imm.extractLsb 3 0 ++
    imm.extractLsb 10 10 ++ op

def uFormat (imm : BitVec 20) (rd : RegAddr) (op : BitVec 7) : Word := imm ++ rd ++ op

def jFormat (imm : BitVec 20) (rd : RegAddr) (op : BitVec 7) : Word :=
  imm.extractLsb 19 19 ++ imm.extractLsb 9 0 ++ imm.extractLsb 10 10 ++
    imm.extractLsb 18 11 ++ rd ++ op

def AluOp.funct3 : AluOp → BitVec 3
  | .add | .sub => 0b000#3
  | .sll => 0b001#3
  | .slt => 0b010#3
  | .sltu => 0b011#3
  | .xor => 0b100#3
  | .srl | .sra => 0b101#3
  | .or => 0b110#3
  | .and => 0b111#3

def AluOp.funct7 : AluOp → BitVec 7
  | .sub | .sra => 0b0100000#7
  | _ => 0b0000000#7

def ImmOp.funct3 : ImmOp → BitVec 3
  | .addi => 0b000#3
  | .slti => 0b010#3
  | .sltiu => 0b011#3
  | .xori => 0b100#3
  | .ori => 0b110#3
  | .andi => 0b111#3

def ShiftOp.funct3 : ShiftOp → BitVec 3
  | .slli => 0b001#3
  | .srli | .srai => 0b101#3

def ShiftOp.funct7 : ShiftOp → BitVec 7
  | .srai => 0b0100000#7
  | _ => 0b0000000#7

def LoadOp.funct3 : LoadOp → BitVec 3
  | .lb => 0b000#3
  | .lh => 0b001#3
  | .lw => 0b010#3
  | .lbu => 0b100#3
  | .lhu => 0b101#3

def StoreOp.funct3 : StoreOp → BitVec 3
  | .sb => 0b000#3
  | .sh => 0b001#3
  | .sw => 0b010#3

def BranchOp.funct3 : BranchOp → BitVec 3
  | .beq => 0b000#3
  | .bne => 0b001#3
  | .blt => 0b100#3
  | .bge => 0b101#3
  | .bltu => 0b110#3
  | .bgeu => 0b111#3

def FenceOp.funct3 : FenceOp → BitVec 3
  | .fence => 0b000#3
  | .fenceI => 0b001#3

def encode : Instr → Word
  | .op o rd rs1 rs2 => rFormat o.funct7 rs2 rs1 o.funct3 rd RTYPE
  | .opImm o rd rs1 imm => iFormat imm rs1 o.funct3 rd ITYPE
  | .shiftImm o rd rs1 shamt => rFormat o.funct7 shamt rs1 o.funct3 rd ITYPE
  | .load o rd rs1 imm => iFormat imm rs1 o.funct3 rd LOAD
  | .store o rs1 rs2 imm => sFormat imm rs2 rs1 o.funct3 STORE
  | .branch o rs1 rs2 imm => bFormat imm rs2 rs1 o.funct3 BRANCH
  | .jal rd imm => jFormat imm rd JAL
  | .jalr rd rs1 imm => iFormat imm rs1 0b000#3 rd JALR
  | .lui rd imm => uFormat imm rd LUI
  | .auipc rd imm => uFormat imm rd AUIPC
  | .miscMem o rd rs1 imm => iFormat imm rs1 o.funct3 rd FENCE

/-- The immediate fields, in the bit order that the formats scramble. -/
def iImm (w : Word) : BitVec 12 := w.extractLsb 31 20
def sImm (w : Word) : BitVec 12 := w.extractLsb 31 25 ++ w.extractLsb 11 7
def bImm (w : Word) : BitVec 12 :=
  w.extractLsb 31 31 ++ w.extractLsb 7 7 ++ w.extractLsb 30 25 ++ w.extractLsb 11 8
def uImm (w : Word) : BitVec 20 := w.extractLsb 31 12
def jImm (w : Word) : BitVec 20 :=
  w.extractLsb 31 31 ++ w.extractLsb 19 12 ++ w.extractLsb 20 20 ++ w.extractLsb 30 21

section Fields

variable (f7 : BitVec 7) (rs2 rs1 rd : RegAddr) (f3 : BitVec 3) (op : BitVec 7) (imm : BitVec 12)
  (wide : BitVec 20)

lemma rFormat_fields : funct7 (rFormat f7 rs2 rs1 f3 rd op) = f7 ∧
    rs2Field (rFormat f7 rs2 rs1 f3 rd op) = rs2 ∧ rs1Field (rFormat f7 rs2 rs1 f3 rd op) = rs1 ∧
    funct3 (rFormat f7 rs2 rs1 f3 rd op) = f3 ∧ rdField (rFormat f7 rs2 rs1 f3 rd op) = rd ∧
    opcode (rFormat f7 rs2 rs1 f3 rd op) = op := by
  unfold rFormat funct7 rs2Field rs1Field funct3 rdField opcode
  grind

lemma iFormat_fields : iImm (iFormat imm rs1 f3 rd op) = imm ∧
    rs1Field (iFormat imm rs1 f3 rd op) = rs1 ∧ funct3 (iFormat imm rs1 f3 rd op) = f3 ∧
    rdField (iFormat imm rs1 f3 rd op) = rd ∧ opcode (iFormat imm rs1 f3 rd op) = op := by
  unfold iFormat iImm rs1Field funct3 rdField opcode
  grind

lemma sFormat_fields : sImm (sFormat imm rs2 rs1 f3 op) = imm ∧
    rs2Field (sFormat imm rs2 rs1 f3 op) = rs2 ∧ rs1Field (sFormat imm rs2 rs1 f3 op) = rs1 ∧
    funct3 (sFormat imm rs2 rs1 f3 op) = f3 ∧ opcode (sFormat imm rs2 rs1 f3 op) = op := by
  unfold sFormat sImm rs2Field rs1Field funct3 opcode
  grind

lemma bFormat_slices :
    (bFormat imm rs2 rs1 f3 op).extractLsb 31 31 = imm.extractLsb 11 11 ∧
    (bFormat imm rs2 rs1 f3 op).extractLsb 7 7 = imm.extractLsb 10 10 ∧
    (bFormat imm rs2 rs1 f3 op).extractLsb 30 25 = imm.extractLsb 9 4 ∧
    (bFormat imm rs2 rs1 f3 op).extractLsb 11 8 = imm.extractLsb 3 0 := by
  unfold bFormat
  grind

lemma bFormat_fields : bImm (bFormat imm rs2 rs1 f3 op) = imm ∧
    rs2Field (bFormat imm rs2 rs1 f3 op) = rs2 ∧ rs1Field (bFormat imm rs2 rs1 f3 op) = rs1 ∧
    funct3 (bFormat imm rs2 rs1 f3 op) = f3 ∧ opcode (bFormat imm rs2 rs1 f3 op) = op := by
  constructor
  · obtain ⟨h31, h7, h30, h11⟩ := bFormat_slices rs2 rs1 f3 op imm
    rw [bImm, h31, h7, h30, h11]
    grind
  · unfold bFormat rs2Field rs1Field funct3 opcode
    grind

lemma uFormat_fields : uImm (uFormat wide rd op) = wide ∧
    rdField (uFormat wide rd op) = rd ∧ opcode (uFormat wide rd op) = op := by
  unfold uFormat uImm rdField opcode
  grind

lemma jFormat_slices :
    (jFormat wide rd op).extractLsb 31 31 = wide.extractLsb 19 19 ∧
    (jFormat wide rd op).extractLsb 19 12 = wide.extractLsb 18 11 ∧
    (jFormat wide rd op).extractLsb 20 20 = wide.extractLsb 10 10 ∧
    (jFormat wide rd op).extractLsb 30 21 = wide.extractLsb 9 0 := by
  unfold jFormat
  grind

lemma jFormat_fields : jImm (jFormat wide rd op) = wide ∧
    rdField (jFormat wide rd op) = rd ∧ opcode (jFormat wide rd op) = op := by
  constructor
  · obtain ⟨h31, h19, h20, h30⟩ := jFormat_slices rd op wide
    rw [jImm, h31, h19, h20, h30]
    grind
  · unfold jFormat rdField opcode
    grind

end Fields

lemma rFormat_of_fields (w : Word) :
    rFormat (funct7 w) (rs2Field w) (rs1Field w) (funct3 w) (rdField w) (opcode w) = w := by
  unfold rFormat funct7 rs2Field rs1Field funct3 rdField opcode
  grind

lemma iFormat_of_fields (w : Word) :
    iFormat (iImm w) (rs1Field w) (funct3 w) (rdField w) (opcode w) = w := by
  unfold iFormat iImm rs1Field funct3 rdField opcode
  grind

lemma sFormat_of_fields (w : Word) :
    sFormat (sImm w) (rs2Field w) (rs1Field w) (funct3 w) (opcode w) = w := by
  unfold sFormat sImm rs2Field rs1Field funct3 opcode
  grind

lemma bFormat_of_fields (w : Word) :
    bFormat (bImm w) (rs2Field w) (rs1Field w) (funct3 w) (opcode w) = w := by
  have h1 : (bImm w).extractLsb 11 11 = w.extractLsb 31 31 := by unfold bImm; grind
  have h2 : (bImm w).extractLsb 9 4 = w.extractLsb 30 25 := by unfold bImm; grind
  have h3 : (bImm w).extractLsb 3 0 = w.extractLsb 11 8 := by unfold bImm; grind
  have h4 : (bImm w).extractLsb 10 10 = w.extractLsb 7 7 := by unfold bImm; grind
  unfold bFormat rs2Field rs1Field funct3 opcode
  rw [h1, h2, h3, h4]
  grind

lemma uFormat_of_fields (w : Word) : uFormat (uImm w) (rdField w) (opcode w) = w := by
  unfold uFormat uImm rdField opcode
  grind

lemma jFormat_of_fields (w : Word) : jFormat (jImm w) (rdField w) (opcode w) = w := by
  have h1 : (jImm w).extractLsb 19 19 = w.extractLsb 31 31 := by unfold jImm; grind
  have h2 : (jImm w).extractLsb 9 0 = w.extractLsb 30 21 := by unfold jImm; grind
  have h3 : (jImm w).extractLsb 10 10 = w.extractLsb 20 20 := by unfold jImm; grind
  have h4 : (jImm w).extractLsb 18 11 = w.extractLsb 19 12 := by unfold jImm; grind
  unfold jFormat rdField opcode
  rw [h1, h2, h3, h4]
  grind

def AluOp.ofFields (f7 : BitVec 7) (f3 : BitVec 3) : Option AluOp :=
  [.add, .sub, .sll, .slt, .sltu, .xor, .srl, .sra, .or, .and].find? fun o : AluOp =>
    o.funct7 = f7 ∧ o.funct3 = f3

def ImmOp.ofField (f3 : BitVec 3) : Option ImmOp :=
  [.addi, .slti, .sltiu, .xori, .ori, .andi].find? fun o : ImmOp => o.funct3 = f3

def ShiftOp.ofFields (f7 : BitVec 7) (f3 : BitVec 3) : Option ShiftOp :=
  [.slli, .srli, .srai].find? fun o : ShiftOp => o.funct7 = f7 ∧ o.funct3 = f3

def LoadOp.ofField (f3 : BitVec 3) : Option LoadOp :=
  [.lb, .lh, .lw, .lbu, .lhu].find? fun o : LoadOp => o.funct3 = f3

def StoreOp.ofField (f3 : BitVec 3) : Option StoreOp :=
  [.sb, .sh, .sw].find? fun o : StoreOp => o.funct3 = f3

def BranchOp.ofField (f3 : BitVec 3) : Option BranchOp :=
  [.beq, .bne, .blt, .bge, .bltu, .bgeu].find? fun o : BranchOp => o.funct3 = f3

def FenceOp.ofField (f3 : BitVec 3) : Option FenceOp :=
  [.fence, .fenceI].find? fun o : FenceOp => o.funct3 = f3

/-- The instruction that a word encodes, if it is one of the above. -/
def decode (w : Word) : Option Instr :=
  if opcode w = RTYPE then
    (AluOp.ofFields (funct7 w) (funct3 w)).map (.op · (rdField w) (rs1Field w) (rs2Field w))
  else if opcode w = ITYPE then
    match ImmOp.ofField (funct3 w) with
    | some o => some (.opImm o (rdField w) (rs1Field w) (iImm w))
    | none =>
      (ShiftOp.ofFields (funct7 w) (funct3 w)).map
        (.shiftImm · (rdField w) (rs1Field w) (rs2Field w))
  else if opcode w = LOAD then
    (LoadOp.ofField (funct3 w)).map (.load · (rdField w) (rs1Field w) (iImm w))
  else if opcode w = STORE then
    (StoreOp.ofField (funct3 w)).map (.store · (rs1Field w) (rs2Field w) (sImm w))
  else if opcode w = BRANCH then
    (BranchOp.ofField (funct3 w)).map (.branch · (rs1Field w) (rs2Field w) (bImm w))
  else if opcode w = JAL then some (.jal (rdField w) (jImm w))
  else if opcode w = JALR then
    if funct3 w = 0b000#3 then some (.jalr (rdField w) (rs1Field w) (iImm w)) else none
  else if opcode w = LUI then some (.lui (rdField w) (uImm w))
  else if opcode w = AUIPC then some (.auipc (rdField w) (uImm w))
  else if opcode w = FENCE then
    (FenceOp.ofField (funct3 w)).map (.miscMem · (rdField w) (rs1Field w) (iImm w))
  else none

/-- Every instruction is recovered from its word. -/
theorem decode_encode (i : Instr) : decode (encode i) = some i := by
  cases i with
  | op o rd rs1 rs2 =>
    obtain ⟨h7, h2, h1, h3, hd, ho⟩ := rFormat_fields o.funct7 rs2 rs1 rd o.funct3 RTYPE
    simp only [decode, encode, h7, h2, h1, h3, hd, ho, if_pos]
    cases o <;> rfl
  | opImm o rd rs1 imm =>
    obtain ⟨hi, h1, h3, hd, ho⟩ := iFormat_fields rs1 rd o.funct3 ITYPE imm
    simp only [decode, encode, hi, h1, h3, hd, ho]
    cases o <;> rfl
  | shiftImm o rd rs1 shamt =>
    obtain ⟨h7, h2, h1, h3, hd, ho⟩ := rFormat_fields o.funct7 shamt rs1 rd o.funct3 ITYPE
    simp only [decode, encode, h7, h2, h1, h3, hd, ho]
    cases o <;> rfl
  | load o rd rs1 imm =>
    obtain ⟨hi, h1, h3, hd, ho⟩ := iFormat_fields rs1 rd o.funct3 LOAD imm
    simp only [decode, encode, hi, h1, h3, hd, ho]
    cases o <;> rfl
  | store o rs1 rs2 imm =>
    obtain ⟨hi, h2, h1, h3, ho⟩ := sFormat_fields rs2 rs1 o.funct3 STORE imm
    simp only [decode, encode, hi, h2, h1, h3, ho]
    cases o <;> rfl
  | branch o rs1 rs2 imm =>
    obtain ⟨hi, h2, h1, h3, ho⟩ := bFormat_fields rs2 rs1 o.funct3 BRANCH imm
    simp only [decode, encode, hi, h2, h1, h3, ho]
    cases o <;> rfl
  | jal rd imm =>
    obtain ⟨hi, hd, ho⟩ := jFormat_fields rd JAL imm
    simp only [decode, encode, hi, hd, ho]
    rfl
  | jalr rd rs1 imm =>
    obtain ⟨hi, h1, h3, hd, ho⟩ := iFormat_fields rs1 rd 0b000#3 JALR imm
    simp only [decode, encode, hi, h1, h3, hd, ho]
    rfl
  | lui rd imm =>
    obtain ⟨hi, hd, ho⟩ := uFormat_fields rd LUI imm
    simp only [decode, encode, hi, hd, ho]
    rfl
  | auipc rd imm =>
    obtain ⟨hi, hd, ho⟩ := uFormat_fields rd AUIPC imm
    simp only [decode, encode, hi, hd, ho]
    rfl
  | miscMem o rd rs1 imm =>
    obtain ⟨hi, h1, h3, hd, ho⟩ := iFormat_fields rs1 rd o.funct3 FENCE imm
    simp only [decode, encode, hi, h1, h3, hd, ho]
    cases o <;> rfl

lemma find_fields {α : Type} {l : List α} {p : α → Prop} [DecidablePred p] {o : α}
    (h : (l.find? fun o => decide (p o)) = some o) : p o := by
  simpa using List.find?_some h

/-- A word decodes only to an instruction that is encoded as this word. -/
theorem encode_decode {w : Word} {i : Instr} (h : decode w = some i) : encode i = w := by
  unfold decode at h
  by_cases hr : opcode w = RTYPE
  · rw [if_pos hr] at h
    obtain ⟨o, ho, rfl⟩ := Option.map_eq_some_iff.mp h
    obtain ⟨h7, h3⟩ := find_fields ho
    rw [encode, h7, h3, ← hr, rFormat_of_fields]
  rw [if_neg hr] at h
  by_cases hi : opcode w = ITYPE
  · rw [if_pos hi] at h
    split at h
    · next o ho =>
      cases h
      rw [encode, find_fields ho, ← hi, iFormat_of_fields]
    · obtain ⟨o, ho, rfl⟩ := Option.map_eq_some_iff.mp h
      obtain ⟨h7, h3⟩ := find_fields ho
      rw [encode, h7, h3, ← hi, rFormat_of_fields]
  rw [if_neg hi] at h
  by_cases hl : opcode w = LOAD
  · rw [if_pos hl] at h
    obtain ⟨o, ho, rfl⟩ := Option.map_eq_some_iff.mp h
    rw [encode, find_fields ho, ← hl, iFormat_of_fields]
  rw [if_neg hl] at h
  by_cases hs : opcode w = STORE
  · rw [if_pos hs] at h
    obtain ⟨o, ho, rfl⟩ := Option.map_eq_some_iff.mp h
    rw [encode, find_fields ho, ← hs, sFormat_of_fields]
  rw [if_neg hs] at h
  by_cases hb : opcode w = BRANCH
  · rw [if_pos hb] at h
    obtain ⟨o, ho, rfl⟩ := Option.map_eq_some_iff.mp h
    rw [encode, find_fields ho, ← hb, bFormat_of_fields]
  rw [if_neg hb] at h
  by_cases hj : opcode w = JAL
  · rw [if_pos hj] at h
    cases h
    rw [encode, ← hj, jFormat_of_fields]
  rw [if_neg hj] at h
  by_cases hjr : opcode w = JALR
  · rw [if_pos hjr] at h
    by_cases h3 : funct3 w = 0b000#3
    · rw [if_pos h3] at h
      cases h
      rw [encode, ← h3, ← hjr, iFormat_of_fields]
    · rw [if_neg h3] at h
      contradiction
  rw [if_neg hjr] at h
  by_cases hu : opcode w = LUI
  · rw [if_pos hu] at h
    cases h
    rw [encode, ← hu, uFormat_of_fields]
  rw [if_neg hu] at h
  by_cases ha : opcode w = AUIPC
  · rw [if_pos ha] at h
    cases h
    rw [encode, ← ha, uFormat_of_fields]
  rw [if_neg ha] at h
  by_cases hf : opcode w = FENCE
  · rw [if_pos hf] at h
    obtain ⟨o, ho, rfl⟩ := Option.map_eq_some_iff.mp h
    rw [encode, find_fields ho, ← hf, iFormat_of_fields]
  rw [if_neg hf] at h
  contradiction

theorem decode_eq_some_iff {w : Word} {i : Instr} : decode w = some i ↔ encode i = w :=
  ⟨encode_decode, fun h => h ▸ decode_encode i⟩

end Isa

end Rv32iRtl
