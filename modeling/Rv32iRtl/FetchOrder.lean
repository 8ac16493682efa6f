import Rv32iRtl.CommittedStream
import Rv32iRtl.IsaMachine

/-! FENCE.I decodes to a no-op, so whether the fetch of a later instruction sees an
earlier store depends on where the store is in the pipeline at the fetch. -/
namespace Rv32iRtl

def IsFenceI (word : Word) : Prop := opcode word = FENCE ∧ funct3 word = 0b001#3

instance (word : Word) : Decidable (IsFenceI word) := inferInstanceAs (Decidable (_ ∧ _))

namespace Top

def StorePending (s : Top) (i : BitVec 16) : Prop :=
  (s.idEx.memWrite = true ∧ wordIndex s.aluResult = i) ∨
    (s.exMem.memWrite = true ∧ wordIndex s.exMem.aluResult = i)

instance (s : Top) (i : BitVec 16) : Decidable (s.StorePending i) :=
  inferInstanceAs (Decidable (_ ∨ _))

end Top

/-- A store, a FENCE.I behind it, and behind that an instruction in the word that the store has left
as `w`, with no store to this word in between. -/
structure FenceBetween (s₀ : Top) (nS nF nI : ℕ) (S F I : Fetched) (w : Word) : Prop where
  store : (trace s₀ nS).inEx = some S
  fence : (trace s₀ nF).inEx = some F
  later : (trace s₀ nI).inEx = some I
  store_lt : nS < nF
  fence_lt : nF < nI
  isFenceI : IsFenceI F.word
  written : (trace s₀ (nS + 1)).top.memWriteEvent = some (wordIndex I.addr, w)
  last : ∀ n, nS + 1 < n → n ≤ nI →
    ∀ v, (trace s₀ n).top.memWriteEvent ≠ some (wordIndex I.addr, v)

variable {s₀ : Top}

lemma mem_unwritten {i : BitVec 16} {n m : ℕ} (hnm : n ≤ m)
    (h : ∀ k, n ≤ k → k < m → ∀ v, (trace s₀ k).top.memWriteEvent ≠ some (i, v)) :
    (trace s₀ m).top.mem i = (trace s₀ n).top.mem i := by
  induction m, hnm using Nat.le_induction with
  | base => rfl
  | succ m hm ih =>
    have hw := h m hm (by omega)
    rw [trace_top_succ, Top.step_mem, Top.nextMem_eq,
      ← ih fun k h1 h2 => h k h1 (by omega)]
    refine EventTrace.applyWrite_of_ne fun he => ?_
    obtain ⟨⟨j, v⟩, hv, rfl⟩ := Option.map_eq_some_iff.mp he
    exact hw v hv

lemma mem_written {i : BitVec 16} {n : ℕ} {w : Word}
    (h : (trace s₀ n).top.memWriteEvent = some (i, w)) : (trace s₀ (n + 1)).top.mem i = w := by
  rw [trace_top_succ, Top.step_mem, Top.nextMem_eq, h]
  exact Function.update_self _ _ _

/-- The second instruction after one in EX is fetched in that cycle at the earliest. -/
lemma fetch_after {n m k : ℕ} {f g h : Fetched} (hf : (trace s₀ n).inEx = some f)
    (hg : (trace s₀ m).inEx = some g) (hh : (trace s₀ k).inEx = some h) (hnm : n < m)
    (hmk : m < k) : n ≤ h.cycle := by
  have hgh := inEx_cycle_lt hmk hg hh
  have hfg := inEx_cycle_lt hnm hf hg
  obtain ⟨a, rfl⟩ := inEx_pos hf
  obtain ⟨b, rfl⟩ := inEx_pos hg
  obtain ⟨hfid, -⟩ := inEx_succ hf
  obtain ⟨hgid, -⟩ := inEx_succ hg
  have hres := (inId_fetched hgid).2.2.2
  by_contra hlt
  have hsame := (hres a (by omega) (by omega)).symm.trans hfid
  rw [Option.some_inj] at hsame
  rw [hsame] at hfg
  omega

/-- The store stays pending until its word has been written. -/
lemma pending_iff {n k : ℕ} {i : BitVec 16} {w : Word}
    (hw : (trace s₀ (n + 1)).top.memWriteEvent = some (i, w)) (hk : n ≤ k)
    (hlast : ∀ m, n + 1 < m → m ≤ k + 1 → ∀ v, (trace s₀ m).top.memWriteEvent ≠ some (i, v)) :
    (trace s₀ k).top.StorePending i ↔ k < n + 2 := by
  obtain ⟨hmw, hidx⟩ := (Top.memWriteEvent_iff _ i).mp ⟨w, hw⟩
  constructor
  · intro hp
    by_contra hlt
    rcases hp with hp | hp
    · have hp' : (trace s₀ (k + 1)).top.exMem.memWrite = true ∧
          wordIndex (trace s₀ (k + 1)).top.exMem.aluResult = i := by
        rw [trace_top_succ]
        exact hp
      obtain ⟨v, hv⟩ := (Top.memWriteEvent_iff _ i).mpr hp'
      exact hlast (k + 1) (by omega) le_rfl v hv
    · obtain ⟨v, hv⟩ := (Top.memWriteEvent_iff _ i).mpr hp
      exact hlast k (by omega) (by omega) v hv
  · intro hlt
    rcases Nat.lt_or_eq_of_le hk with h | rfl
    · obtain rfl : k = n + 1 := by omega
      exact Or.inr ⟨hmw, hidx⟩
    · rw [trace_top_succ] at hmw hidx
      exact Or.inl ⟨hmw, hidx⟩

namespace FenceBetween

variable {nS nF nI : ℕ} {S F I : Fetched} {w : Word} (h : FenceBetween s₀ nS nF nI S F I w)

include h

lemma word_eq : I.word = (trace s₀ I.cycle).top.mem (wordIndex I.addr) := by
  obtain ⟨m, hm⟩ := inEx_pos h.later
  obtain ⟨-, hpc, hword, -⟩ := inId_fetched (inEx_succ (hm ▸ h.later)).1
  rw [← hword, ← hpc]
  rfl

lemma cycle_lt : I.cycle < nI := by
  obtain ⟨m, rfl⟩ := inEx_pos h.later
  obtain ⟨hlt, -⟩ := inId_fetched (inEx_succ h.later).1
  omega

lemma le_cycle : nS ≤ I.cycle := fetch_after h.store h.fence h.later h.store_lt h.fence_lt

lemma pending : (trace s₀ I.cycle).top.StorePending (wordIndex I.addr) ↔ I.cycle < nS + 2 :=
  pending_iff h.written h.le_cycle fun n h1 h2 => h.last n h1 (h2.trans h.cycle_lt)

/-- Fetched behind the write, the word is the one that is left. -/
lemma word_of_settled (hp : ¬(trace s₀ I.cycle).top.StorePending (wordIndex I.addr)) :
    I.word = w := by
  rw [h.pending, Nat.not_lt] at hp
  rw [h.word_eq, ← mem_written h.written]
  exact mem_unwritten hp fun n h1 h2 => h.last n h1 (h2.le.trans h.cycle_lt.le)

/-- Fetched before the write, the word is the old one. -/
lemma word_of_pending (hp : (trace s₀ I.cycle).top.StorePending (wordIndex I.addr)) :
    ∃ n, nS ≤ n ∧ n ≤ nS + 1 ∧ I.word = (trace s₀ n).top.mem (wordIndex I.addr) :=
  ⟨I.cycle, h.le_cycle, Nat.lt_succ_iff.mp (h.pending.mp hp), h.word_eq⟩

end FenceBetween

/-- An instruction after the FENCE.I decodes what the store has left if no store to its word is in EX
or MEM as it is fetched; and only then, if the word was another one while the store was there. -/
theorem fenceI_orders_fetch (s₀ : Top) (nS nF nI : ℕ) (S F I : Fetched) (w : Word)
    (h : FenceBetween s₀ nS nF nI S F I w) :
    (¬(trace s₀ I.cycle).top.StorePending (wordIndex I.addr) → I.word = w) ∧
      ((∀ n, nS ≤ n → n ≤ nS + 1 → (trace s₀ n).top.mem (wordIndex I.addr) ≠ w) →
        I.word = w → ¬(trace s₀ I.cycle).top.StorePending (wordIndex I.addr)) := by
  refine ⟨h.word_of_settled, fun hnew hword hp => ?_⟩
  obtain ⟨n, h1, h2, hold⟩ := h.word_of_pending hp
  exact hnew n h1 h2 (hold.symm.trans hword)

/-- `sw x1,20(x0); fence.i; nop; nop` and then the word at 20, which is the stored NOP. -/
def farProgram : Top :=
  load [0x01300093#32, 0x00102a23#32, 0x0000100f#32, NOP, NOP, 0x00100113#32]

theorem fenceI_orders_fetch_far :
    ∃ I, (trace farProgram 7).inEx = some I ∧ wordIndex I.addr = 5#16 ∧ I.word = 0x00000013#32 := by
  have h : FenceBetween farProgram 3 4 7 ⟨4#32, 0x00102a23#32, 1⟩ ⟨8#32, 0x0000100f#32, 2⟩
      ⟨20#32, 0x00000013#32, 5⟩ 0x00000013#32 := by
    refine ⟨by decide +kernel, by decide +kernel, by decide +kernel, by decide, by decide,
      by decide, by decide +kernel, ?_⟩
    intro n h1 h2 v
    have hn : n = 5 ∨ n = 6 ∨ n = 7 := by omega
    rcases hn with rfl | rfl | rfl <;>
      exact ne_of_eq_of_ne (by decide +kernel : _ = none) (by simp)
  exact ⟨_, h.later, by decide, (fenceI_orders_fetch farProgram 3 4 7 _ _ _ _ h).1 (by decide +kernel)⟩

/-- `sw x1,12(x0); fence.i` directly before the word at 12: the old word is decoded. -/
theorem fenceI_order_fails :
    ¬∀ (s₀ : Top) (nS nF nI : ℕ) (S F I : Fetched) (w : Word),
      FenceBetween s₀ nS nF nI S F I w → I.word = w := by
  intro h
  have := h (load [0x01300093#32, 0x00102623#32, 0x0000100f#32, 0x00100113#32]) 3 4 5
    ⟨4#32, 0x00102623#32, 1⟩ ⟨8#32, 0x0000100f#32, 2⟩ ⟨12#32, 0x00100113#32, 3⟩ 0x00000013#32
    ⟨by decide +kernel, by decide +kernel, by decide +kernel, by decide, by decide, by decide,
      by decide +kernel, by
        intro n h1 h2 v
        obtain rfl : n = 5 := by omega
        exact ne_of_eq_of_ne (by decide +kernel : _ = none) (by simp)⟩
  revert this
  decide

end Rv32iRtl
