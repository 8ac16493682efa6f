import Rv32iRtl.Execute

/-! The hazard and forwarding unit `hazard_unit.v`. -/
namespace Rv32iRtl

structure ForwardIn where
  exMemRd : RegAddr
  memWbRd : RegAddr
  exMemRegWrite : Bool
  memWbRegWrite : Bool
  deriving DecidableEq, Repr

structure HazardIn extends ForwardIn where
  idExRs1 : RegAddr
  idExRs2 : RegAddr
  idExMemRead : Bool
  ifIdRs1 : RegAddr
  ifIdRs2 : RegAddr
  idExRd : RegAddr
  branchTakenEx : Bool
  deriving DecidableEq, Repr

structure HazardOut where
  pcWrite : Bool
  ifIdWrite : Bool
  idExFlush : Bool
  ifIdFlush : Bool
  forwardA : BitVec 2
  forwardB : BitVec 2
  deriving DecidableEq, Repr

namespace HazardUnit

/-- The selector of one operand: `00` register file, `01` EX/MEM, `10` MEM/WB.
It does not depend on `branch_taken_ex`, so `top` has no combinational loop. -/
def forward (i : ForwardIn) (rs : RegAddr) : BitVec 2 :=
  let fromExMem := if i.exMemRegWrite && i.exMemRd != 0#5 && i.exMemRd == rs then 0b01#2 else 0b00#2
  if i.memWbRegWrite && i.memWbRd != 0#5 && i.memWbRd == rs &&
      !(i.exMemRegWrite && i.exMemRd == rs) then 0b10#2
  else fromExMem

def loadUse (i : HazardIn) : Bool :=
  i.idExMemRead && i.idExRd != 0#5 && (i.idExRd == i.ifIdRs1 || i.idExRd == i.ifIdRs2)

end HazardUnit

def hazardUnit (i : HazardIn) : HazardOut where
  pcWrite := !HazardUnit.loadUse i
  ifIdWrite := !HazardUnit.loadUse i
  idExFlush := HazardUnit.loadUse i || i.branchTakenEx
  ifIdFlush := i.branchTakenEx
  forwardA := HazardUnit.forward i.toForwardIn i.idExRs1
  forwardB := HazardUnit.forward i.toForwardIn i.idExRs2

namespace HazardUnit

lemma forward_zero (i : ForwardIn) : forward i 0#5 = 0b00#2 := by
  unfold forward
  grind

lemma forward_exMem_iff (i : ForwardIn) (rs : RegAddr) :
    forward i rs = 0b01#2 ↔ i.exMemRegWrite ∧ i.exMemRd = rs ∧ rs ≠ 0#5 := by
  unfold forward
  grind

lemma forward_memWb_iff (i : ForwardIn) (rs : RegAddr) :
    forward i rs = 0b10#2 ↔ i.memWbRegWrite ∧ i.memWbRd = rs ∧ rs ≠ 0#5 ∧
      ¬(i.exMemRegWrite ∧ i.exMemRd = rs) := by
  unfold forward
  grind

end HazardUnit

end Rv32iRtl
