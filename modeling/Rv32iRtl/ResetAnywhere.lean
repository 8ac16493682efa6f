import Rv32iRtl.Lockstep

/-! What a reset edge in the middle of a run leaves in the two arrays. -/
namespace Rv32iRtl

open EventTrace PendingWrites

variable {s₀ : Top} {n : ℕ}

/-- The stores of the first `n` slots. -/
lemma slots_mem_now (s₀ : Top) (n : ℕ) : (slots s₀ n).mem.now =
    applyWrites (trace s₀ 0).top.mem (events (fun m => (slots s₀ m).memEvent) n) := by
  induction n with
  | zero => rfl
  | succ n ih =>
    rw [applyWrites_events_succ, ← ih, slots_succ, SlotMachine.step_mem, Window.now_push]

lemma slots_regs_now (s₀ : Top) (n : ℕ) : (slots s₀ n).regs.now =
    applyWrites (trace s₀ 0).top.regs (events (fun m => (slots s₀ m).regEvent) n) := by
  induction n with
  | zero => rfl
  | succ n ih =>
    rw [applyWrites_events_succ, ← ih, slots_succ, SlotMachine.step_regs, Window.now_push]

/-- The write of the instruction in WB still happens at the edge. -/
lemma nextRegs_trace (s₀ : Top) (n : ℕ) : (trace s₀ n).top.nextRegs =
    applyWrites (trace s₀ 0).top.regs (events (fun m => (slots s₀ m).regEvent) (n - 1)) := by
  cases n with
  | zero =>
    rw [Top.nextRegs_eq, Top.regWriteEvent_of_idle ((tracks s₀ 0).wb_none rfl)]
    rfl
  | succ n =>
    rw [Nat.add_sub_cancel, ← slots_regs_now, ← (lockstep s₀ n).regs_succ, trace_top_succ s₀ (n + 1),
      Top.step_regs]

/-- A reset edge in any cycle of any run takes the stores of all instructions that have been in
EX, but the register writes of all but the last slot: a store in MEM is kept, a register write
in MEM is lost. The run that follows starts from these arrays. -/
theorem reset_anywhere (s₀ : Top) (n : ℕ) : (trace s₀ n).top.step true =
    Top.powerOn
      (applyWrites (trace s₀ 0).top.mem (events (fun m => (slots s₀ m).memEvent) n))
      (applyWrites (trace s₀ 0).top.regs (events (fun m => (slots s₀ m).regEvent) (n - 1))) := by
  have hmem : (trace s₀ n).top.nextMem = (slots s₀ n).mem.now := by
    rw [← (lockstep s₀ n).array_succ, trace_top_succ, Top.step_mem]
  rw [Top.step_reset, nextRegs_trace, hmem, slots_mem_now]

end Rv32iRtl
