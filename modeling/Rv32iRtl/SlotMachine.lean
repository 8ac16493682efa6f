import Rv32iRtl.Trace
import Rv32iRtl.PendingWrites

/-! The core without its pipeline: one instruction a slot, executed as a whole by the same
units. What is left of the pipeline are the empty slots behind a taken jump or before the
user of a loaded value, and who sees a write late. -/
namespace Rv32iRtl

open EventTrace PendingWrites

/-- Two empty slots come first and follow every redirect; `held` is the word that waits
behind a load, fetched one slot before the others. -/
structure SlotMachine where
  pc : Word
  bubbles : ℕ
  held : Option Word
  regs : Window RegAddr Word
  mem : Window (BitVec 16) Word

namespace SlotMachine

/-- The three stores before it do not reach a fetch. -/
def word (m : SlotMachine) : Word := m.held.getD (m.mem.settled (wordIndex m.pc))

def dec (m : SlotMachine) : Decoded := decoder m.word

/-- The write three slots before does not reach an operand. -/
def operand (m : SlotMachine) (r : RegAddr) : Word := if r = 0#5 then 0#32 else m.regs.bypass r

def x1 (m : SlotMachine) : Word := m.operand m.dec.rs1
def x2 (m : SlotMachine) : Word := m.operand m.dec.rs2

def aluResult (m : SlotMachine) : Word :=
  alu (if m.dec.isAuipc then m.pc else m.x1) (if m.dec.aluSrc then m.dec.imm else m.x2) m.dec.aluOp

def isJal (m : SlotMachine) : Bool := m.dec.jump && !m.dec.aluSrc
def isJalr (m : SlotMachine) : Bool := m.dec.jump && m.dec.aluSrc

def taken (m : SlotMachine) : Bool :=
  BranchUnit.branchTaken m.x1 m.x2 m.dec.branchFunct3 m.dec.branch m.isJal m.isJalr

def target (m : SlotMachine) : Word := BranchUnit.branchTarget m.pc m.x1 m.dec.imm m.isJalr

def access (m : SlotMachine) : LsuOut :=
  lsu m.dec.branchFunct3 m.aluResult m.x2 (m.mem.now (wordIndex m.aluResult))

def value (m : SlotMachine) : Word :=
  if m.dec.wbSel == 0b00#2 then m.aluResult
  else if m.dec.wbSel == 0b01#2 then m.access.rdata
  else if m.dec.wbSel == 0b10#2 then m.pc + 8#32
  else 0#32

def regWrite (m : SlotMachine) : Option (RegAddr × Word) :=
  if m.dec.regWrite && m.dec.rd != 0#5 then some (m.dec.rd, m.value) else none

def memWrite (m : SlotMachine) : Option (BitVec 16 × Word) :=
  if m.dec.memWrite then
    some (wordIndex m.aluResult,
      writeLanes m.access.memBe (m.mem.now (wordIndex m.aluResult)) m.access.memWdata)
  else none

def retire (m : SlotMachine) : SlotMachine where
  pc := if m.taken then m.target else m.pc + 4#32
  bubbles := 0
  held := none
  regs := m.regs.push m.regWrite
  mem := m.mem.push m.memWrite

def idle (m : SlotMachine) : SlotMachine :=
  { m with bubbles := m.bubbles - 1, regs := m.regs.push none, mem := m.mem.push none }

/-- A load, and the next word names its register in one of the two source fields. -/
def waits (m : SlotMachine) : Bool :=
  m.dec.memRead && m.dec.rd != 0#5 && (m.dec.rd == m.retire.dec.rs1 || m.dec.rd == m.retire.dec.rs2)

def step (m : SlotMachine) : SlotMachine :=
  if m.bubbles ≠ 0 then m.idle
  else if m.taken then { m.retire with bubbles := 2 }
  else if m.waits then { m.retire with bubbles := 1, held := some m.retire.word }
  else m.retire

def start (regs : RegAddr → Word) (mem : BitVec 16 → Word) : SlotMachine :=
  ⟨0#32, 2, none, .still regs, .still mem⟩

def run (m : SlotMachine) (n : ℕ) : SlotMachine := step^[n] m

lemma run_succ (m : SlotMachine) (n : ℕ) : m.run (n + 1) = (m.run n).step :=
  Function.iterate_succ_apply' _ _ _

/-- Address and word of the instruction that is executed in this slot. -/
def executing (m : SlotMachine) : Option (Word × Word) :=
  if m.bubbles = 0 then some (m.pc, m.word) else none

def regEvent (m : SlotMachine) : Option (RegAddr × Word) :=
  if m.bubbles = 0 then m.regWrite else none

def memEvent (m : SlotMachine) : Option (BitVec 16 × Word) :=
  if m.bubbles = 0 then m.memWrite else none

lemma step_idle {m : SlotMachine} (h : m.bubbles ≠ 0) : m.step = m.idle := if_pos h

lemma step_taken {m : SlotMachine} (h : m.bubbles = 0) (ht : m.taken = true) :
    m.step = { m.retire with bubbles := 2 } := by
  simp [step, h, ht]

lemma step_waits {m : SlotMachine} (h : m.bubbles = 0) (ht : m.taken = false)
    (hw : m.waits = true) :
    m.step = { m.retire with bubbles := 1, held := some m.retire.word } := by
  simp [step, h, ht, hw]

lemma step_retire {m : SlotMachine} (h : m.bubbles = 0) (ht : m.taken = false)
    (hw : m.waits = false) : m.step = m.retire := by
  simp [step, h, ht, hw]

lemma step_pc {m : SlotMachine} (h : m.bubbles = 0) :
    m.step.pc = if m.taken then m.target else m.pc + 4#32 := by
  unfold step
  split_ifs <;> simp_all [retire]

lemma step_regs (m : SlotMachine) : m.step.regs = m.regs.push m.regEvent := by
  unfold step regEvent
  split_ifs <;> first | contradiction | rfl

lemma step_mem (m : SlotMachine) : m.step.mem = m.mem.push m.memEvent := by
  unfold step memEvent
  split_ifs <;> first | contradiction | rfl

end SlotMachine

/-- The slot machine that starts from the arrays the core has when reset is released. -/
def slots (s₀ : Top) (n : ℕ) : SlotMachine :=
  (SlotMachine.start (trace s₀ 0).top.regs (trace s₀ 0).top.mem).run n

@[simp] lemma slots_zero (s₀ : Top) :
    slots s₀ 0 = .start (trace s₀ 0).top.regs (trace s₀ 0).top.mem := rfl

lemma slots_succ (s₀ : Top) (n : ℕ) : slots s₀ (n + 1) = (slots s₀ n).step :=
  SlotMachine.run_succ _ _

end Rv32iRtl
