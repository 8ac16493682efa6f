import Rv32iRtl.Lockstep

/-! Memory words that no executed instruction touches. Whatever they hold, the run is the same
cycle by cycle, although the core fetches such words behind every taken jump. -/
namespace Rv32iRtl

open EventTrace PendingWrites

namespace SlotMachine

/-- The words that count in a slot: the instruction, the accessed word, and the word behind a
load, which decides about the stall. -/
def touched (m : SlotMachine) : List (BitVec 16) :=
  if m.bubbles ≠ 0 then []
  else [wordIndex m.pc] ++
    (if m.dec.memRead || m.dec.memWrite then [wordIndex m.aluResult] else []) ++
    (if m.dec.memRead then [wordIndex (m.pc + 4#32)] else [])

/-- Two slot machines that differ at most in memory words outside `A`. -/
structure AgreeOn (A : Set (BitVec 16)) (m m' : SlotMachine) : Prop where
  pc : m.pc = m'.pc
  bubbles : m.bubbles = m'.bubbles
  held : m.held = m'.held
  regs : m.regs = m'.regs
  settled : Set.EqOn m.mem.settled m'.mem.settled A
  oldest : m.mem.oldest = m'.mem.oldest
  middle : m.mem.middle = m'.mem.middle
  newest : m.mem.newest = m'.mem.newest

end SlotMachine

lemma eqOn_applyWrite {α β : Type*} [DecidableEq α] {A : Set α} {f g : α → β}
    (h : Set.EqOn f g A) (e : Option (α × β)) : Set.EqOn (applyWrite f e) (applyWrite g e) A := by
  intro a ha
  cases e with
  | none => exact h ha
  | some p =>
    by_cases hp : a = p.1
    · subst hp
      simp [applyWrite]
    · simp [applyWrite, Function.update_of_ne hp, h ha]

namespace SlotMachine.AgreeOn

variable {A : Set (BitVec 16)} {m m' : SlotMachine}

lemma now (h : AgreeOn A m m') : Set.EqOn m.mem.now m'.mem.now A := by
  rw [Window.now, Window.now, ← h.oldest, ← h.middle, ← h.newest]
  exact eqOn_applyWrite (eqOn_applyWrite (eqOn_applyWrite h.settled _) _) _

section Executing

variable (h : AgreeOn A m m') (hb : m.bubbles = 0) (ht : ∀ i ∈ m.touched, i ∈ A)

include h hb ht

lemma word : m.word = m'.word := by
  have hpc : wordIndex m.pc ∈ A := ht _ (by simp [touched, hb])
  rw [SlotMachine.word, SlotMachine.word, ← h.held, ← h.pc, h.settled hpc]

lemma dec : m.dec = m'.dec := by rw [SlotMachine.dec, SlotMachine.dec, h.word hb ht]

lemma operands : m.x1 = m'.x1 ∧ m.x2 = m'.x2 := by
  simp only [x1, x2, operand, h.dec hb ht, h.regs, and_self]

lemma aluResult : m.aluResult = m'.aluResult := by
  obtain ⟨h1, h2⟩ := h.operands hb ht
  simp only [SlotMachine.aluResult, h.dec hb ht, h1, h2, h.pc]

lemma taken : m.taken = m'.taken := by
  obtain ⟨h1, h2⟩ := h.operands hb ht
  simp only [SlotMachine.taken, isJal, isJalr, h.dec hb ht, h1, h2]

lemma retire_pc : m.retire.pc = m'.retire.pc := by
  obtain ⟨h1, -⟩ := h.operands hb ht
  simp only [retire, target, isJalr, h.dec hb ht, h.taken hb ht, h1, h.pc]

lemma accessed (hm : (m.dec.memRead || m.dec.memWrite) = true) :
    m.mem.now (wordIndex m.aluResult) = m'.mem.now (wordIndex m'.aluResult) := by
  have ha : wordIndex m.aluResult ∈ A := ht _ (by simp [touched, hb, hm])
  rw [h.now ha, h.aluResult hb ht]

lemma access (hm : (m.dec.memRead || m.dec.memWrite) = true) : m.access = m'.access := by
  rw [SlotMachine.access, SlotMachine.access, h.accessed hb ht hm, h.dec hb ht,
    h.aluResult hb ht, (h.operands hb ht).2]

/-- Only a load looks at what memory holds. -/
lemma value : m.value = m'.value := by
  unfold SlotMachine.value
  rw [← h.dec hb ht, ← h.aluResult hb ht, ← h.pc]
  rcases Decoder.wbSel_kind m.word with hw | ⟨hw, hr⟩ | ⟨hw, -⟩
  · have hsel : m.dec.wbSel = 0b00#2 := hw
    simp [hsel]
  · have hread : m.dec.memRead = true := hr
    rw [h.access hb ht (by simp [hread])]
  · have hsel : m.dec.wbSel = 0b10#2 := hw
    simp [hsel]

lemma regWrite : m.regWrite = m'.regWrite := by
  rw [SlotMachine.regWrite, SlotMachine.regWrite, h.value hb ht, h.dec hb ht]

lemma memWrite : m.memWrite = m'.memWrite := by
  rw [SlotMachine.memWrite, SlotMachine.memWrite, ← h.dec hb ht]
  cases hw : m.dec.memWrite with
  | false => rfl
  | true =>
    have hm : (m.dec.memRead || m.dec.memWrite) = true := by simp [hw]
    rw [h.access hb ht hm, h.accessed hb ht hm, h.aluResult hb ht]

lemma retire : AgreeOn A m.retire m'.retire where
  pc := h.retire_pc hb ht
  bubbles := rfl
  held := rfl
  regs := by
    change m.regs.push m.regWrite = m'.regs.push m'.regWrite
    rw [h.regs, h.regWrite hb ht]
  settled := by
    change Set.EqOn (applyWrite m.mem.settled m.mem.oldest)
      (applyWrite m'.mem.settled m'.mem.oldest) A
    rw [← h.oldest]
    exact eqOn_applyWrite h.settled _
  oldest := h.middle
  middle := h.newest
  newest := h.memWrite hb ht

/-- Behind a load the next word counts, and it is the one at the next address. -/
lemma retire_word (hr : m.dec.memRead = true) : m.retire.word = m'.retire.word := by
  have hret := h.retire hb ht
  have hload : (decoder m.word).memRead = true := hr
  obtain ⟨-, hbr, hj⟩ := Decoder.memRead_kind hload
  have hno : m.taken = false := by
    have hbr' : m.dec.branch = false := hbr
    have hj' : m.dec.jump = false := hj
    simp [SlotMachine.taken, BranchUnit.branchTaken, isJal, isJalr, hbr', hj']
  have hpc : m.retire.pc = m.pc + 4#32 := by simp [SlotMachine.retire, hno]
  have hmem : wordIndex m.retire.pc ∈ A := by
    rw [hpc]
    exact ht _ (by simp [touched, hb, hr])
  rw [SlotMachine.word, SlotMachine.word, ← hret.held, ← hret.pc, hret.settled hmem]

lemma waits : m.waits = m'.waits := by
  rw [SlotMachine.waits, SlotMachine.waits, ← h.dec hb ht]
  cases hr : m.dec.memRead with
  | false => rfl
  | true =>
    have hd : m.retire.dec = m'.retire.dec := by
      rw [SlotMachine.dec, SlotMachine.dec, h.retire_word hb ht hr]
    rw [hd]

end Executing

lemma idle (h : AgreeOn A m m') : AgreeOn A m.idle m'.idle where
  pc := h.pc
  bubbles := congrArg (· - 1) h.bubbles
  held := h.held
  regs := congrArg (Window.push · none) h.regs
  settled := by
    change Set.EqOn (applyWrite m.mem.settled m.mem.oldest)
      (applyWrite m'.mem.settled m'.mem.oldest) A
    rw [← h.oldest]
    exact eqOn_applyWrite h.settled _
  oldest := h.middle
  middle := h.newest
  newest := rfl

lemma step (h : AgreeOn A m m') (ht : ∀ i ∈ m.touched, i ∈ A) : AgreeOn A m.step m'.step := by
  by_cases hb : m.bubbles = 0
  · have hb' : m'.bubbles = 0 := h.bubbles ▸ hb
    have hret := h.retire hb ht
    cases hj : m.taken with
    | true =>
      rw [step_taken hb hj, step_taken hb' (h.taken hb ht ▸ hj)]
      exact { hret with bubbles := rfl }
    | false =>
      have hj' : m'.taken = false := h.taken hb ht ▸ hj
      cases hw : m.waits with
      | true =>
        have hr : m.dec.memRead = true := by
          simp only [SlotMachine.waits, Bool.and_eq_true] at hw
          exact hw.1.1
        rw [step_waits hb hj hw, step_waits hb' hj' (h.waits hb ht ▸ hw)]
        exact { hret with bubbles := rfl, held := congrArg some (h.retire_word hb ht hr) }
      | false =>
        rw [step_retire hb hj hw, step_retire hb' hj' (h.waits hb ht ▸ hw)]
        exact hret
  · rw [step_idle hb, step_idle (h.bubbles ▸ hb)]
    exact h.idle

/-- What a slot does is the same. -/
lemma observations (h : AgreeOn A m m') (ht : ∀ i ∈ m.touched, i ∈ A) :
    m.executing = m'.executing ∧ m.regEvent = m'.regEvent ∧ m.memEvent = m'.memEvent := by
  unfold executing regEvent memEvent
  rw [← h.bubbles]
  split_ifs with hb
  · rw [h.pc, h.word hb ht, h.regWrite hb ht, h.memWrite hb ht]
    exact ⟨rfl, rfl, rfl⟩
  · exact ⟨rfl, rfl, rfl⟩

end SlotMachine.AgreeOn

lemma SlotMachine.memEvent_touched {m : SlotMachine} {i : BitVec 16}
    (h : m.memEvent.map Prod.fst = some i) : i ∈ m.touched := by
  unfold memEvent memWrite at h
  split_ifs at h with hb hw
  · obtain rfl : wordIndex m.aluResult = i := by simpa using h
    simp [touched, hb, hw]
  · contradiction
  · contradiction

/-- Two runs from the same registers, and from memories that agree on every word the first run
touches: in every cycle the same instruction is in EX, and the same writes follow. The words
that are not touched keep what they hold. -/
theorem untouched_memory (s₀ s₁ : Top) (A : Set (BitVec 16)) (n : ℕ)
    (hregs : (trace s₀ 0).top.regs = (trace s₁ 0).top.regs)
    (hmem : Set.EqOn (trace s₀ 0).top.mem (trace s₁ 0).top.mem A)
    (htouched : ∀ m < n, ∀ i ∈ (slots s₀ m).touched, i ∈ A) :
    (∀ m < n,
      (trace s₀ m).inEx.map (fun f => (f.addr, f.word)) =
        (trace s₁ m).inEx.map (fun f => (f.addr, f.word)) ∧
      (trace s₀ (m + 1)).top.memWriteEvent = (trace s₁ (m + 1)).top.memWriteEvent ∧
      (trace s₀ (m + 2)).top.regWriteEvent = (trace s₁ (m + 2)).top.regWriteEvent) ∧
    ∀ i ∉ A, (trace s₀ (n + 1)).top.mem i = (trace s₀ 0).top.mem i ∧
      (trace s₁ (n + 1)).top.mem i = (trace s₁ 0).top.mem i := by
  have hagree : ∀ m ≤ n, (slots s₀ m).AgreeOn A (slots s₁ m) := by
    intro m hm
    induction m with
    | zero => exact ⟨rfl, rfl, rfl, by rw [slots_zero, hregs]; rfl, hmem, rfl, rfl, rfl⟩
    | succ m ih =>
      rw [slots_succ, slots_succ]
      exact (ih (by omega)).step (htouched m (by omega))
  have hsame := fun m hm => (hagree m (Nat.le_of_lt hm)).observations (htouched m hm)
  refine ⟨fun m hm => ?_, fun i hi => ?_⟩
  · obtain ⟨hex, hreg, hmem⟩ := hsame m hm
    have h := lockstep s₀ m
    have h' := lockstep s₁ m
    rw [h.executing, h'.executing, h.memEvent, h'.memEvent, h.regEvent, h'.regEvent]
    exact ⟨hex, hmem, hreg⟩
  · have hkeep : ∀ s, (∀ m < n, (slots s m).memEvent = (slots s₀ m).memEvent) →
        ∀ m ≤ n, (slots s m).mem.now i = (trace s 0).top.mem i := by
      intro s hs m hm
      induction m with
      | zero => rfl
      | succ m ih =>
        rw [slots_succ, SlotMachine.step_mem, Window.now_push, ← ih (by omega)]
        refine applyWrite_of_ne fun he => hi ?_
        rw [hs m (by omega)] at he
        exact htouched m (by omega) i (SlotMachine.memEvent_touched he)
    rw [(lockstep s₀ n).array_succ, (lockstep s₁ n).array_succ]
    exact ⟨hkeep s₀ (fun _ _ => rfl) n le_rfl,
      hkeep s₁ (fun m hm => (hsame m hm).2.2.symm) n le_rfl⟩

/-- `jal x0,0` at address 0; the words behind it are fetched and dropped all the time. -/
theorem untouched_memory_jal :
    (trace (load [0x0000006f#32]) 8).inEx.map (fun f => (f.addr, f.word)) =
      (trace (load [0x0000006f#32, 0x00000073#32, 0xffffffff#32]) 8).inEx.map
        (fun f => (f.addr, f.word)) := by
  have hload : ∀ words, (trace (load words) 0).top = load words :=
    fun words => Top.powerOn_step_reset _ _
  refine ((untouched_memory (load [0x0000006f#32])
    (load [0x0000006f#32, 0x00000073#32, 0xffffffff#32]) {0#16} 9 ?_ ?_ ?_).1 8 (by omega)).1
  · rw [hload, hload]
    rfl
  · rw [hload, hload, Set.eqOn_singleton]
    rfl
  · intro m hm i hi
    have htouched : ∀ m < 9, (slots (load [0x0000006f#32]) m).touched = [] ∨
        (slots (load [0x0000006f#32]) m).touched = [0#16] := by
      decide +kernel
    rcases htouched m hm with h | h <;> simp_all

end Rv32iRtl
