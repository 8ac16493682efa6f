import Rv32iRtl.Execute

/-! The load/store unit `lsu.v`, the register file `regfile.v` and the CSR unit
`csr_unit.v`: the three storage-facing modules instantiated by `top.v`. -/
namespace Rv32iRtl

structure LsuOut where
  rdata : Word
  memAddr : Word
  memWdata : Word
  memBe : BitVec 4
  deriving DecidableEq, Repr

namespace Lsu

/-- Byte and halfword data stay in the low lanes, whatever the address. -/
def memWdata (memOp : BitVec 3) (wdata : Word) : Word :=
  if memOp.extractLsb 1 0 == 0b00#2 then 0#24 ++ wdata.extractLsb 7 0
  else if memOp.extractLsb 1 0 == 0b01#2 then 0#16 ++ wdata.extractLsb 15 0
  else wdata

def memBe (memOp : BitVec 3) (addr : Word) : BitVec 4 :=
  if memOp.extractLsb 1 0 == 0b00#2 then 0b0001#4 <<< addr.extractLsb 1 0
  else if memOp.extractLsb 1 0 == 0b01#2 then (if addr.getLsbD 1 then 0b1100#4 else 0b0011#4)
  else 0b1111#4

/-- The load case of the unit: the lowest byte or half of the word is extended. -/
def rdata (memOp : BitVec 3) (memRdata : Word) : Word :=
  match memOp with
  | 0b000#3 => BitVec.replicate 24 (memRdata.extractLsb 7 7) ++ memRdata.extractLsb 7 0
  | 0b100#3 => 0#24 ++ memRdata.extractLsb 7 0
  | 0b001#3 => BitVec.replicate 16 (memRdata.extractLsb 15 15) ++ memRdata.extractLsb 15 0
  | 0b101#3 => 0#16 ++ memRdata.extractLsb 15 0
  | 0b010#3 => memRdata
  | _ => 0#32

end Lsu

/-- The unit has inputs `mem_read` and `mem_write` too, but reads neither. -/
def lsu (memOp : BitVec 3) (addr wdata memRdata : Word) : LsuOut where
  rdata := Lsu.rdata memOp memRdata
  memAddr := addr.extractLsb 31 2 ++ 0b00#2
  memWdata := Lsu.memWdata memOp wdata
  memBe := Lsu.memBe memOp addr

namespace Regfile

/-- Combinational read port; there is no path from the write port. -/
def read (regs : RegAddr → Word) (rs : RegAddr) : Word := if rs == 0#5 then 0#32 else regs rs

def write (regs : RegAddr → Word) (rd : RegAddr) (wdata : Word) (we : Bool) : RegAddr → Word :=
  if we && rd != 0#5 then Function.update regs rd wdata else regs

@[simp] lemma read_zero (regs : RegAddr → Word) : read regs 0#5 = 0#32 := rfl

lemma read_of_ne {regs : RegAddr → Word} {rs : RegAddr} (h : rs ≠ 0#5) : read regs rs = regs rs := by
  simp [read, h]

end Regfile

namespace CsrUnit

/-- Every CSR of the case statement, and every other one, reads as zero. -/
def rdata (csrAddr : BitVec 12) : Word :=
  match csrAddr with
  | 0x300#12 => 0#32
  | 0x305#12 => 0#32
  | 0x341#12 => 0#32
  | 0x342#12 => 0#32
  | 0xF14#12 => 0#32
  | _ => 0#32

def ecall (csrWe : Bool) (csrAddr : BitVec 12) (funct3 : BitVec 3) : Bool :=
  funct3 == 0b000#3 && csrAddr == 0x300#12 && csrWe

@[simp] lemma rdata_eq_zero (csrAddr : BitVec 12) : rdata csrAddr = 0#32 := by
  unfold rdata
  split <;> rfl

end CsrUnit

end Rv32iRtl
