import Rv32iRtl.Lockstep
import Rv32iRtl.PipelineRefinement

/-! When an instruction is executed. Only a load-use stall and a redirect cost cycles, and
every cost is known. -/
namespace Rv32iRtl

/-- The cycles before `n` in which IF/ID was held. -/
def stalls (s₀ : Top) (n : ℕ) : ℕ :=
  Nat.count (fun m => (trace s₀ m).top.hazard.ifIdWrite = false) n

/-- The cycles before `n` in which IF/ID was flushed. -/
def redirects (s₀ : Top) (n : ℕ) : ℕ :=
  Nat.count (fun m => (trace s₀ m).top.hazard.ifIdFlush = true) n

variable {s₀ : Top} {n : ℕ}

lemma stalls_succ (s₀ : Top) (n : ℕ) :
    stalls s₀ (n + 1) = stalls s₀ n + if (trace s₀ n).top.loadUse = true then 1 else 0 := by
  rw [stalls, stalls, Nat.count_succ]
  simp only [Top.hazard_ifIdWrite, Bool.not_eq_false']

lemma redirects_succ (s₀ : Top) (n : ℕ) : redirects s₀ (n + 1) =
    redirects s₀ n + if (trace s₀ n).top.branchTakenEx = true then 1 else 0 :=
  Nat.count_succ _ _

lemma isSome_inEx_iff : (trace s₀ n).inEx.isSome = true ↔ (slots s₀ n).bubbles = 0 := by
  constructor
  · intro h
    by_contra hb
    rw [(lockstep s₀ n).inEx_none hb] at h
    contradiction
  · intro hb
    obtain ⟨f, hf, -⟩ := (lockstep s₀ n).inEx hb
    rw [hf]
    rfl

/-- The three things that may follow an instruction in EX, and the one that follows a bubble. -/
lemma step_cost (s₀ : Top) (n : ℕ) :
    ((slots s₀ n).bubbles ≠ 0 ∧ (trace s₀ n).top.loadUse = false ∧
        (trace s₀ n).top.branchTakenEx = false ∧
        (slots s₀ (n + 1)).bubbles = (slots s₀ n).bubbles - 1) ∨
    ((slots s₀ n).bubbles = 0 ∧ (trace s₀ n).top.loadUse = false ∧
        (trace s₀ n).top.branchTakenEx = true ∧ (slots s₀ (n + 1)).bubbles = 2) ∨
    ((slots s₀ n).bubbles = 0 ∧ (trace s₀ n).top.loadUse = true ∧
        (trace s₀ n).top.branchTakenEx = false ∧ (slots s₀ (n + 1)).bubbles = 1) ∨
    ((slots s₀ n).bubbles = 0 ∧ (trace s₀ n).top.loadUse = false ∧
        (trace s₀ n).top.branchTakenEx = false ∧ (slots s₀ (n + 1)).bubbles = 0) := by
  have h := lockstep s₀ n
  rw [slots_succ]
  by_cases hb : (slots s₀ n).bubbles = 0
  · right
    rw [h.taken hb]
    cases ht : (slots s₀ n).taken with
    | true =>
      left
      have hl : (trace s₀ n).top.loadUse = false := by
        by_contra hl
        have hno := (tracks s₀ n).not_taken_of_loadUse (by simpa using hl)
        rw [h.taken hb, ht] at hno
        contradiction
      exact ⟨hb, hl, rfl, by rw [SlotMachine.step_taken hb ht]⟩
    | false =>
      right
      rw [h.waits hb ht]
      cases hw : (slots s₀ n).waits with
      | true => exact Or.inl ⟨hb, rfl, rfl, by rw [SlotMachine.step_waits hb ht hw]⟩
      | false =>
        refine Or.inr ⟨hb, rfl, rfl, ?_⟩
        rw [SlotMachine.step_retire hb ht hw]
        rfl
  · left
    obtain ⟨ht, hl⟩ := Lockstep.front_moves (h.inEx_none hb)
    refine ⟨hb, hl, ht, ?_⟩
    rw [SlotMachine.step_idle hb]
    rfl

/-- Every cycle is spent on an instruction or is one of the known costs. -/
lemma cycles_spent (s₀ : Top) (n : ℕ) : n + (slots s₀ n).bubbles =
    exIndex s₀ n + stalls s₀ n + 2 * redirects s₀ n + 2 := by
  induction n with
  | zero => rfl
  | succ n ih =>
    have hex := exIndex_succ s₀ n
    rw [stalls_succ, redirects_succ]
    simp only [isSome_inEx_iff] at hex
    rcases step_cost s₀ n with ⟨hb, hl, ht, hb'⟩ | ⟨hb, hl, ht, hb'⟩ | ⟨hb, hl, ht, hb'⟩ |
      ⟨hb, hl, ht, hb'⟩ <;> simp [hb, hl, ht] at hex ⊢ <;> omega

/-- A stall or a redirect is the doing of one instruction. -/
lemma costs_le (s₀ : Top) (n : ℕ) : stalls s₀ n + redirects s₀ n ≤ exIndex s₀ n := by
  induction n with
  | zero => rfl
  | succ n ih =>
    have hex := exIndex_succ s₀ n
    rw [stalls_succ, redirects_succ]
    simp only [isSome_inEx_iff] at hex
    rcases step_cost s₀ n with ⟨hb, hl, ht, -⟩ | ⟨hb, hl, ht, -⟩ | ⟨hb, hl, ht, -⟩ |
      ⟨hb, hl, ht, -⟩ <;> simp [hb, hl, ht] at hex ⊢ <;> omega

/-- The count passes every number. -/
lemma lt_exIndex (s₀ : Top) (k : ℕ) : k < exIndex s₀ (3 * k + 3) := by
  have hspent := cycles_spent s₀ (3 * k + 3)
  have hcosts := costs_le s₀ (3 * k + 3)
  omega

/-- Every number is that of an instruction. -/
lemma exists_inEx (s₀ : Top) (k : ℕ) :
    ∃ n, (trace s₀ n).inEx.isSome = true ∧ exIndex s₀ n = k := by
  have hex : ∃ n, k < exIndex s₀ (n + 1) := ⟨3 * k + 2, lt_exIndex s₀ k⟩
  have hfind := Nat.find_spec hex
  have hbefore : exIndex s₀ (Nat.find hex) ≤ k := by
    cases hn : Nat.find hex with
    | zero => exact Nat.zero_le k
    | succ m =>
      have hmin := Nat.find_min hex (show m < Nat.find hex by omega)
      omega
  rw [exIndex_succ] at hfind
  have hsome : (trace s₀ (Nat.find hex)).inEx.isSome = true := by
    by_contra hno
    rw [if_neg hno] at hfind
    omega
  rw [if_pos hsome] at hfind
  exact ⟨Nat.find hex, hsome, by omega⟩

/-- Whatever memory holds, the core never stops: its `k`-th instruction is in EX in exactly
one cycle, which is given by the stalls and the redirects before it and comes no later than
three cycles for each instruction. -/
theorem execution_time (s₀ : Top) (k : ℕ) :
    ∃! n, (trace s₀ n).inEx.isSome = true ∧ exIndex s₀ n = k ∧
      n = k + stalls s₀ n + 2 * redirects s₀ n + 2 ∧
      stalls s₀ n + redirects s₀ n ≤ k ∧ n ≤ 3 * k + 2 := by
  obtain ⟨n, hsome, hindex⟩ := exists_inEx s₀ k
  have hspent := cycles_spent s₀ n
  have hcosts := costs_le s₀ n
  rw [isSome_inEx_iff.mp hsome] at hspent
  refine ⟨n, ⟨hsome, hindex, ?_, ?_, ?_⟩, ?_⟩
  · omega
  · omega
  · omega
  · rintro m ⟨hm, hk, -⟩
    have hcount : Nat.count (fun i => (trace s₀ i).inEx.isSome = true) m =
        Nat.count (fun i => (trace s₀ i).inEx.isSome = true) n := by
      change exIndex s₀ m = exIndex s₀ n
      omega
    exact Nat.count_injective hm hsome hcount

end Rv32iRtl
