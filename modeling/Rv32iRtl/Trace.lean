import Rv32iRtl.Top

/-! Runs of the core from reset, with a ghost record of which fetched word each
stage holds. A stage holds `none` when its content is the reset word, the NOP of
an IF/ID flush or the bubble of an ID/EX flush. -/
namespace Rv32iRtl

structure Fetched where
  addr : Word
  word : Word
  cycle : ℕ
  deriving DecidableEq, Repr

structure Traced where
  top : Top
  cycle : ℕ
  inId : Option Fetched
  inEx : Option Fetched
  inMem : Option Fetched
  inWb : Option Fetched
  /-- Where the instructions that have left EX continue; `0` before the first one. -/
  next : Word

namespace Traced

/-- The continuation address once the instruction in EX is taken into account. -/
def resolved (t : Traced) : Word :=
  match t.inEx with
  | some f => if t.top.branchTakenEx then t.top.branchTargetEx else f.addr + 4#32
  | none => t.next

/-- One clock edge with `rst` low; the ghost fields follow the hazard outputs. -/
def step (t : Traced) : Traced where
  top := t.top.step false
  cycle := t.cycle + 1
  inId :=
    if t.top.hazard.ifIdFlush then none
    else if t.top.hazard.ifIdWrite then some ⟨t.top.pc, t.top.instrFetch, t.cycle⟩
    else t.inId
  inEx := if t.top.hazard.idExFlush then none else t.inId
  inMem := t.inEx
  inWb := t.inMem
  next := t.resolved

def boot (s₀ : Top) : Traced := ⟨s₀.step true, 0, none, none, none, none, 0#32⟩

end Traced

def memImage (words : List Word) : BitVec 16 → Word := fun i => words.getD i.toNat 0x00000013#32

def load (words : List Word) : Top := Top.powerOn (memImage words) fun _ => 0#32

/-- The core in cycle `n` after reset; `s₀` is its content before the reset edge. -/
def trace (s₀ : Top) (n : ℕ) : Traced := Traced.step^[n] (Traced.boot s₀)

@[simp] lemma trace_zero (s₀ : Top) : trace s₀ 0 = Traced.boot s₀ := rfl

lemma trace_succ (s₀ : Top) (n : ℕ) : trace s₀ (n + 1) = (trace s₀ n).step :=
  Function.iterate_succ_apply' _ _ _

@[simp] lemma trace_cycle (s₀ : Top) (n : ℕ) : (trace s₀ n).cycle = n := by
  induction n with
  | zero => rfl
  | succ n ih => simp [trace_succ, Traced.step, ih]

lemma trace_top_succ (s₀ : Top) (n : ℕ) : (trace s₀ (n + 1)).top = (trace s₀ n).top.step false := by
  rw [trace_succ]
  rfl

/-- States reached from any content, under any `rst` input with a reset edge in it. -/
inductive Reachable : Top → Prop
  | reset (s : Top) : Reachable (s.step true)
  | clock {s : Top} (h : Reachable s) : Reachable (s.step false)

/-- Only the cycles since the last reset edge matter. -/
theorem reachable_iff {s : Top} : Reachable s ↔ ∃ s₀ n, s = (trace s₀ n).top := by
  constructor
  · intro h
    induction h with
    | reset s => exact ⟨s, 0, rfl⟩
    | clock _ ih =>
      obtain ⟨s₀, n, rfl⟩ := ih
      exact ⟨s₀, n + 1, (trace_top_succ s₀ n).symm⟩
  · rintro ⟨s₀, n, rfl⟩
    induction n with
    | zero => exact .reset s₀
    | succ n ih =>
      rw [trace_top_succ]
      exact .clock ih

namespace Traced

lemma step_inId (t : Traced) : t.step.inId =
    if t.top.branchTakenEx then none else if t.top.loadUse then t.inId
    else some ⟨t.top.pc, t.top.instrFetch, t.cycle⟩ := by
  cases h : t.top.loadUse <;> simp [step, h]

lemma step_inEx (t : Traced) : t.step.inEx =
    if t.top.loadUse || t.top.branchTakenEx then none else t.inId := by
  simp [step]

/-- An invariant of the first cycle that every edge keeps holds in every cycle. -/
theorem always {P : Traced → Prop} (h0 : ∀ s₀, P (boot s₀)) (hs : ∀ t, P t → P t.step)
    (s₀ : Top) (n : ℕ) : P (trace s₀ n) := by
  induction n with
  | zero => exact h0 s₀
  | succ n ih =>
    rw [trace_succ]
    exact hs _ ih

end Traced

end Rv32iRtl
