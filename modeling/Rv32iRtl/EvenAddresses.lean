import Rv32iRtl.Trace

/-! Bit 0 of every program counter is zero, in every cycle after reset. -/
namespace Rv32iRtl

def Word.Even (w : Word) : Prop := w.getLsbD 0 = false

lemma Word.even_zero : Word.Even 0#32 := rfl

lemma Word.even_add {a b : Word} (ha : Word.Even a) (hb : Word.Even b) : Word.Even (a + b) := by
  rw [Word.Even] at ha hb ⊢
  rw [BitVec.getLsbD_add (by decide), ha, hb, BitVec.carry_zero]
  rfl

/-- The target of JALR is even whatever the register holds. -/
lemma Word.even_and (a : Word) : Word.Even (a &&& ~~~1#32) := by
  simp [Word.Even]

namespace Decoder

lemma immB_even (instr : Word) : Word.Even (immB instr) := by
  unfold Word.Even immB
  grind

lemma immJ_even (instr : Word) : Word.Even (immJ instr) := by
  unfold Word.Even immJ
  grind

/-- The offsets of branches and of JAL, the jump that has no immediate operand. -/
lemma imm_even {instr : Word} (h : (decoder instr).branch = true ∨
    ((decoder instr).jump = true ∧ (decoder instr).aluSrc = false)) :
    Word.Even (decoder instr).imm := by
  have hb := immB_even instr
  have hj := immJ_even instr
  simp only [decoder, control] at h ⊢
  split at h <;> simp_all

end Decoder

/-- The program counters of a state, and the offset that a branch or JAL in EX adds to one. -/
structure EvenPcs (s : Top) : Prop where
  pc : Word.Even s.pc
  ifId : Word.Even s.ifId.pc
  idEx : Word.Even s.idEx.pc
  offset : s.idEx.branch = true ∨ s.isJal = true → Word.Even s.idEx.imm

namespace EvenPcs

lemma reset (s : Top) : EvenPcs (s.step true) := by
  rw [Top.step_reset]
  exact ⟨Word.even_zero, Word.even_zero, Word.even_zero, fun _ => Word.even_zero⟩

variable {s : Top}

lemma target (h : EvenPcs s) (ht : s.branchTakenEx = true) : Word.Even s.branchTargetEx := by
  rw [Top.branchTargetEx, BranchUnit.branchTarget]
  split_ifs with hj
  · exact Word.even_and _
  · refine Word.even_add h.idEx (h.offset ?_)
    have hj : s.isJalr = false := Bool.not_eq_true _ ▸ hj
    simp only [Top.branchTakenEx, BranchUnit.branchTaken, hj, Bool.or_false, Bool.or_eq_true,
      Bool.and_eq_true] at ht
    rcases ht with hjal | ⟨hb, -⟩
    · exact Or.inr hjal
    · exact Or.inl hb

lemma step (h : EvenPcs s) : EvenPcs (s.step false) := by
  have hnext : Word.Even (s.pc + 4#32) := Word.even_add h.pc rfl
  constructor
  · rw [Top.step_pc]
    split_ifs with ht
    · exact h.target ht
    · exact h.pc
    · exact hnext
  · rw [Top.step_ifId]
    split_ifs
    · exact h.pc
    · exact h.ifId
    · exact h.pc
  · rw [Top.step_idEx]
    split_ifs
    · exact h.idEx
    · exact h.ifId
  · rw [Top.isJal, Top.step_idEx]
    split_ifs
    · exact fun _ => Word.even_zero
    · intro hk
      refine Decoder.imm_even (hk.imp_right fun hj => ?_)
      simpa [Top.idPorts, Top.dec] using hj

end EvenPcs

lemma evenPcs {s : Top} (h : Reachable s) : EvenPcs s := by
  induction h with
  | reset s => exact .reset s
  | clock _ ih => exact ih.step

/-- In every cycle after reset the program counters are even, and so is the target of a taken
branch or jump. -/
theorem program_counters_even (s₀ : Top) (n : ℕ) :
    let s := (trace s₀ n).top
    s.pc.getLsbD 0 = false ∧ s.ifId.pc.getLsbD 0 = false ∧ s.idEx.pc.getLsbD 0 = false ∧
      (s.branchTakenEx = true → s.branchTargetEx.getLsbD 0 = false) := by
  intro s
  have h : EvenPcs s := evenPcs (reachable_iff.mpr ⟨s₀, n, rfl⟩)
  exact ⟨h.pc, h.ifId, h.idEx, h.target⟩

end Rv32iRtl
