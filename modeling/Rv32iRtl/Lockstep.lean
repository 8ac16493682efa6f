import Rv32iRtl.SlotMachine
import Rv32iRtl.StageEvents
import Rv32iRtl.Writeback

/-! The pipeline against the slot machine, in lock step: in every cycle after reset, for
every memory and register content, EX does what the slot machine does in that slot. -/
namespace Rv32iRtl

open EventTrace PendingWrites

variable {s₀ : Top} {n : ℕ}

lemma not_flushed_of_inEx {f : Fetched} (hf : (trace s₀ (n + 1)).inEx = some f) :
    (trace s₀ n).top.loadUse = false ∧ (trace s₀ n).top.branchTakenEx = false := by
  rw [trace_succ, Traced.step_inEx] at hf
  split_ifs at hf with hs
  simpa using hs

/-- What an instruction in EX reads from EX/MEM has been computed by the ALU. -/
lemma forwarded_wbSel {f : Fetched} (hf : (trace s₀ n).inEx = some f) {r : RegAddr}
    (hr : r = (trace s₀ n).top.idEx.rs1Addr ∨ r = (trace s₀ n).top.idEx.rs2Addr) (h0 : r ≠ 0#5)
    (hm : (trace s₀ n).top.memWrites r) : (trace s₀ n).top.exMem.wbSel = 0b00#2 := by
  obtain ⟨k, rfl⟩ := inEx_pos hf
  obtain ⟨hl, hb⟩ := not_flushed_of_inEx hf
  have hflush : ((trace s₀ k).top.loadUse || (trace s₀ k).top.branchTakenEx) ≠ true := by
    simp [hl, hb]
  rcases (gaps s₀ (k + 1)).wbSel with h | ⟨-, h⟩ | h
  · exact h
  · exfalso
    obtain ⟨-, rfl⟩ := hm
    rw [trace_top_succ, Top.step_idEx, if_neg hflush] at hr
    rw [trace_top_succ] at h h0
    change (trace s₀ k).top.idEx.rdAddr = (trace s₀ k).top.dec.rs1 ∨
      (trace s₀ k).top.idEx.rdAddr = (trace s₀ k).top.dec.rs2 at hr
    change (trace s₀ k).top.idEx.memRead = true at h
    change (trace s₀ k).top.idEx.rdAddr ≠ 0#5 at h0
    simp only [Top.loadUse, HazardUnit.loadUse, Top.hazardIn, h] at hl
    grind
  · exfalso
    have ht := (gaps s₀ (k + 1)).jump h
    rw [trace_top_succ] at ht
    change (trace s₀ k).top.branchTakenEx = true at ht
    simp [ht] at hb

/-- The core has the slot in EX, with the operands of the slot. -/
structure HoldsSlot (s : Top) (m : SlotMachine) : Prop where
  carries : s.idEx.Carries m.word
  pc : s.idEx.pc = m.pc
  forwardA : s.forwardAVal = m.x1
  forwardB : s.forwardBVal = m.x2

namespace HoldsSlot

variable {s : Top} {m : SlotMachine} (h : HoldsSlot s m)

include h

lemma aluResult : s.aluResult = m.aluResult := by
  have hc := h.carries
  rw [Top.aluResult, Top.aluA, Top.aluB, h.forwardA, h.forwardB, hc.isAuipc, hc.aluSrc, hc.aluOp,
    hc.imm, h.pc]
  rfl

lemma taken : s.branchTakenEx = m.taken := by
  have hc := h.carries
  rw [Top.branchTakenEx, Top.isJal, Top.isJalr, h.forwardA, h.forwardB, hc.branchFunct3, hc.branch,
    hc.jump, hc.aluSrc]
  rfl

lemma target : s.branchTargetEx = m.target := by
  have hc := h.carries
  rw [Top.branchTargetEx, Top.isJalr, h.forwardA, hc.imm, hc.jump, hc.aluSrc, h.pc]
  rfl

end HoldsSlot

/-- What the front of the pipeline holds in the three kinds of slots. -/
inductive Phase (t : Traced) (m : SlotMachine) : Prop
  | refill (bubbles : m.bubbles = 2) (held : m.held = none) (inId : t.inId = none)
      (inEx : t.inEx = none)
  | bubble (bubbles : m.bubbles = 1) (g : Fetched) (inId : t.inId = some g)
      (inEx : t.inEx = none) (word : g.word = m.idle.word)
  | execute (bubbles : m.bubbles = 0) (f g : Fetched) (inEx : t.inEx = some f)
      (word : f.word = m.word) (inId : t.inId = some g)
      (behind : g.word = applyWrite m.mem.settled m.mem.oldest (wordIndex g.addr))

/-- Slot `n` of the slot machine is what cycle `n` of the pipeline has in EX. -/
structure Lockstep (s₀ : Top) (n : ℕ) : Prop where
  pc : (trace s₀ n).next = (slots s₀ n).pc
  phase : Phase (trace s₀ n) (slots s₀ n)
  rs1Data : (slots s₀ n).bubbles = 0 → (trace s₀ n).top.idEx.rs1Data =
    Regfile.read (slots s₀ n).regs.settled (slots s₀ n).dec.rs1
  rs2Data : (slots s₀ n).bubbles = 0 → (trace s₀ n).top.idEx.rs2Data =
    Regfile.read (slots s₀ n).regs.settled (slots s₀ n).dec.rs2
  regs : (trace s₀ n).top.regs = applyWrite (slots s₀ n).regs.settled (slots s₀ n).regs.oldest
  wb : (trace s₀ n).top.regWriteEvent = (slots s₀ n).regs.middle
  mem : (trace s₀ (n + 1)).top.regWriteEvent = (slots s₀ n).regs.newest
  array : (trace s₀ n).top.mem = applyWrite
    (applyWrite (slots s₀ n).mem.settled (slots s₀ n).mem.oldest) (slots s₀ n).mem.middle
  store : (trace s₀ n).top.memWriteEvent = (slots s₀ n).mem.newest

lemma Lockstep.boot (s₀ : Top) : Lockstep s₀ 0 where
  pc := rfl
  phase := .refill rfl rfl rfl rfl
  rs1Data h := by simp [SlotMachine.start] at h
  rs2Data h := by simp [SlotMachine.start] at h
  regs := rfl
  wb := Top.regWriteEvent_of_idle ((tracks s₀ 0).wb_none rfl)
  mem := by
    apply Top.regWriteEvent_of_idle ((tracks s₀ 1).wb_none _)
    rw [trace_succ]
    rfl
  array := rfl
  store := Top.memWriteEvent_of_idle ((tracks s₀ 0).mem_none rfl)

namespace Lockstep

section Execute

variable (h : Lockstep s₀ n) (hb : (slots s₀ n).bubbles = 0)

include h hb

lemma inEx : ∃ f, (trace s₀ n).inEx = some f ∧ f.addr = (slots s₀ n).pc ∧
    f.word = (slots s₀ n).word := by
  cases h.phase with
  | refill hb' => omega
  | bubble hb' => omega
  | execute _ f g hf hw => exact ⟨f, hf, ((front s₀ n).ex_addr hf).trans h.pc, hw⟩

omit hb in
lemma inEx_none (hb : (slots s₀ n).bubbles ≠ 0) : (trace s₀ n).inEx = none := by
  cases h.phase with
  | refill _ _ _ hex => exact hex
  | bubble _ _ _ hex => exact hex
  | execute hb' => contradiction

lemma carries : (trace s₀ n).top.idEx.Carries (slots s₀ n).word ∧
    (trace s₀ n).top.idEx.pc = (slots s₀ n).pc ∧
    (trace s₀ n).top.idEx.pcPlus4 = (slots s₀ n).pc + 8#32 := by
  obtain ⟨f, hf, ha, hw⟩ := h.inEx hb
  obtain ⟨hc, -⟩ := (tracks s₀ n).ex_some hf
  obtain ⟨hlink, hpc⟩ := inEx_pcPlus4 hf
  exact ⟨hw ▸ hc, ha ▸ hpc, ha ▸ hlink⟩

lemma forwardVal {r : RegAddr} {data : Word}
    (hr : r = (trace s₀ n).top.idEx.rs1Addr ∨ r = (trace s₀ n).top.idEx.rs2Addr)
    (hdata : data = Regfile.read (slots s₀ n).regs.settled r) :
    (trace s₀ n).top.forwardVal (HazardUnit.forward (trace s₀ n).top.forwardIn r) data =
      (slots s₀ n).operand r := by
  obtain ⟨f, hf, -⟩ := h.inEx hb
  by_cases h0 : r = 0#5
  · subst h0
    rw [HazardUnit.forward_zero, hdata]
    rfl
  have hby : (slots s₀ n).operand r =
      if (trace s₀ n).top.memWrites r then (trace s₀ (n + 1)).top.regfileWdata
      else if (trace s₀ n).top.wbWrites r then (trace s₀ n).top.regfileWdata
      else (slots s₀ n).regs.settled r := by
    have hmem : (trace s₀ (n + 1)).top.wbWrites r ↔ (trace s₀ n).top.memWrites r := by
      rw [trace_top_succ]
      exact Iff.rfl
    rw [SlotMachine.operand, if_neg h0, Window.bypass, ← h.wb, ← h.mem,
      Top.applyWrite_regWriteEvent, Top.applyWrite_regWriteEvent]
    simp only [hmem, ne_eq, h0, not_false_eq_true, and_true]
  rw [hby]
  by_cases hm : (trace s₀ n).top.memWrites r
  · have hsel : HazardUnit.forward (trace s₀ n).top.forwardIn r = 0b01#2 :=
      (HazardUnit.forward_exMem_iff _ _).mpr ⟨hm.1, hm.2, h0⟩
    rw [if_pos hm, hsel, trace_top_succ, Top.regfileWdata_step_of_alu (forwarded_wbSel hf hr h0 hm)]
    rfl
  · by_cases hw : (trace s₀ n).top.wbWrites r
    · have hsel : HazardUnit.forward (trace s₀ n).top.forwardIn r = 0b10#2 :=
        (HazardUnit.forward_memWb_iff _ _).mpr ⟨hw.1, hw.2, h0, hm⟩
      rw [if_neg hm, if_pos hw, hsel]
      rfl
    · have h1 : HazardUnit.forward (trace s₀ n).top.forwardIn r ≠ 0b01#2 := by
        intro hs
        obtain ⟨hw', hrd, -⟩ := (HazardUnit.forward_exMem_iff _ _).mp hs
        exact hm ⟨hw', hrd⟩
      have h2 : HazardUnit.forward (trace s₀ n).top.forwardIn r ≠ 0b10#2 := by
        intro hs
        obtain ⟨hw', hrd, -⟩ := (HazardUnit.forward_memWb_iff _ _).mp hs
        exact hw ⟨hw', hrd⟩
      rw [if_neg hm, if_neg hw, hdata, Regfile.read_of_ne h0]
      simp [Top.forwardVal, h1, h2]

lemma operands : (trace s₀ n).top.forwardAVal = (slots s₀ n).x1 ∧
    (trace s₀ n).top.forwardBVal = (slots s₀ n).x2 := by
  obtain ⟨hc, -⟩ := h.carries hb
  have hd1 : (trace s₀ n).top.idEx.rs1Data =
      Regfile.read (slots s₀ n).regs.settled (trace s₀ n).top.idEx.rs1Addr := by
    rw [h.rs1Data hb, hc.rs1Addr]
    rfl
  have hd2 : (trace s₀ n).top.idEx.rs2Data =
      Regfile.read (slots s₀ n).regs.settled (trace s₀ n).top.idEx.rs2Addr := by
    rw [h.rs2Data hb, hc.rs2Addr]
    rfl
  rw [Top.forwardAVal, Top.forwardA, h.forwardVal hb (Or.inl rfl) hd1, Top.forwardBVal,
    Top.forwardB, h.forwardVal hb (Or.inr rfl) hd2, hc.rs1Addr, hc.rs2Addr]
  exact ⟨rfl, rfl⟩

lemma holdsSlot : HoldsSlot (trace s₀ n).top (slots s₀ n) :=
  ⟨(h.carries hb).1, (h.carries hb).2.1, (h.operands hb).1, (h.operands hb).2⟩

lemma aluResult : (trace s₀ n).top.aluResult = (slots s₀ n).aluResult :=
  (h.holdsSlot hb).aluResult

lemma taken : (trace s₀ n).top.branchTakenEx = (slots s₀ n).taken := (h.holdsSlot hb).taken

lemma target : (trace s₀ n).top.branchTargetEx = (slots s₀ n).target := (h.holdsSlot hb).target

lemma resolved : (trace s₀ n).resolved =
    if (slots s₀ n).taken then (slots s₀ n).target else (slots s₀ n).pc + 4#32 := by
  obtain ⟨f, hf, ha, -⟩ := h.inEx hb
  simp only [Traced.resolved, hf, h.taken hb, h.target hb, ha]

end Execute

/-- What stands in IF/ID is the word of the next slot. -/
lemma next_word (h : Lockstep s₀ n) {g : Fetched} (hid : (trace s₀ n).inId = some g)
    (ht : (trace s₀ n).top.branchTakenEx = false) :
    (slots s₀ n).bubbles = 0 → g.word = (slots s₀ n).retire.word := by
  intro hb
  have hpc : (slots s₀ n).retire.pc = g.addr := by
    have hr := h.resolved hb
    rw [((front s₀ n).id_addr ht hid).1, hr]
    rfl
  cases h.phase with
  | refill hb' => omega
  | bubble hb' => omega
  | execute _ f g' _ _ hid' hw =>
    obtain rfl : g' = g := by simpa [hid'] using hid
    rw [hw, ← hpc]
    rfl

lemma waits (h : Lockstep s₀ n) (hb : (slots s₀ n).bubbles = 0)
    (ht : (slots s₀ n).taken = false) : (trace s₀ n).top.loadUse = (slots s₀ n).waits := by
  obtain ⟨hc, -⟩ := h.carries hb
  have ht' := (h.taken hb).trans ht
  obtain ⟨f, g, hid⟩ : ∃ f g, (trace s₀ n).inEx = some f ∧ (trace s₀ n).inId = some g := by
    cases h.phase with
    | refill hb' => omega
    | bubble hb' => omega
    | execute _ f g hf _ hid => exact ⟨f, g, hf, hid⟩
  have hd : (trace s₀ n).top.dec = (slots s₀ n).retire.dec := by
    rw [Top.dec, (tracks s₀ n).id_some hid.2, SlotMachine.dec, ← h.next_word hid.2 ht' hb]
  simp only [Top.loadUse, HazardUnit.loadUse, Top.hazardIn, hd, hc.memRead, hc.rdAddr]
  rfl

/-- The memory that the instruction in MEM works on. -/
lemma array_succ (h : Lockstep s₀ n) : (trace s₀ (n + 1)).top.mem = (slots s₀ n).mem.now := by
  rw [trace_top_succ, Top.step_mem, Top.nextMem_eq, h.array, h.store]
  rfl

/-- The register array once the instruction in MEM has written back. -/
lemma regs_succ (h : Lockstep s₀ n) : (trace s₀ (n + 2)).top.regs = (slots s₀ n).regs.now := by
  rw [trace_top_succ, Top.step_regs, Top.nextRegs_eq, h.mem, trace_top_succ, Top.step_regs,
    Top.nextRegs_eq, h.wb, h.regs]
  rfl

lemma lsuOut_succ (h : Lockstep s₀ n) (hb : (slots s₀ n).bubbles = 0) :
    (trace s₀ (n + 1)).top.lsuOut = (slots s₀ n).access := by
  obtain ⟨hc, -⟩ := h.carries hb
  have hf : (trace s₀ (n + 1)).top.exMem.funct3 = (slots s₀ n).dec.branchFunct3 := by
    rw [trace_top_succ]
    exact hc.branchFunct3
  have ha : (trace s₀ (n + 1)).top.exMem.aluResult = (slots s₀ n).aluResult := by
    rw [trace_top_succ]
    exact h.aluResult hb
  have hd : (trace s₀ (n + 1)).top.exMem.rs2Data = (slots s₀ n).x2 := by
    rw [trace_top_succ]
    exact (h.operands hb).2
  rw [Top.lsuOut, Top.rawMemRdata, Top.wordIndex_memAddr, hf, ha, hd, h.array_succ]
  rfl

lemma memEvent (h : Lockstep s₀ n) :
    (trace s₀ (n + 1)).top.memWriteEvent = (slots s₀ n).memEvent := by
  by_cases hb : (slots s₀ n).bubbles = 0
  · obtain ⟨hc, -⟩ := h.carries hb
    have hw : (trace s₀ (n + 1)).top.exMem.memWrite = (slots s₀ n).dec.memWrite := by
      rw [trace_top_succ]
      exact hc.memWrite
    have hi : wordIndex (slots s₀ n).access.memAddr = wordIndex (slots s₀ n).aluResult :=
      Top.wordIndex_memAddr _
    rw [Top.memWriteEvent, hw, h.lsuOut_succ hb, h.array_succ, hi, SlotMachine.memEvent, if_pos hb]
    rfl
  · have hn : (trace s₀ (n + 1)).inMem = none := by
      rw [trace_succ]
      exact h.inEx_none hb
    rw [Top.memWriteEvent_of_idle ((tracks s₀ (n + 1)).mem_none hn), SlotMachine.memEvent,
      if_neg hb]

lemma regEvent (h : Lockstep s₀ n) :
    (trace s₀ (n + 2)).top.regWriteEvent = (slots s₀ n).regEvent := by
  by_cases hb : (slots s₀ n).bubbles = 0
  · obtain ⟨hc, -, hlink⟩ := h.carries hb
    have hw : (trace s₀ (n + 2)).top.memWb = (trace s₀ (n + 1)).top.memPorts := by
      rw [trace_top_succ s₀ (n + 1)]
      rfl
    have hex : (trace s₀ (n + 1)).top.exMem = (trace s₀ n).top.exPorts := by
      rw [trace_top_succ]
      rfl
    have hload : (trace s₀ (n + 1)).top.loadData = (slots s₀ n).access.rdata := by
      rw [Top.loadData, h.lsuOut_succ hb]
    have hv : (trace s₀ (n + 2)).top.regfileWdata = (slots s₀ n).value := by
      rw [Top.regfileWdata, hw, Top.csrRdata, CsrUnit.rdata_eq_zero, Top.memPorts, hload, hex,
        Top.exPorts, h.aluResult hb, hc.wbSel, hlink]
      rfl
    rw [Top.regWriteEvent, hv, hw, Top.memPorts, hex, Top.exPorts, hc.regWrite, hc.rdAddr,
      SlotMachine.regEvent, if_pos hb]
    rfl
  · have hn : (trace s₀ (n + 2)).inWb = none := by
      rw [trace_succ, trace_succ]
      exact h.inEx_none hb
    rw [Top.regWriteEvent_of_idle ((tracks s₀ (n + 2)).wb_none hn), SlotMachine.regEvent, if_neg hb]

/-- With nothing in EX nothing holds the front back. -/
lemma front_moves (hex : (trace s₀ n).inEx = none) :
    (trace s₀ n).top.branchTakenEx = false ∧ (trace s₀ n).top.loadUse = false := by
  have hidle := (tracks s₀ n).ex_none hex
  refine ⟨Top.branchTakenEx_of_idle hidle, ?_⟩
  simp [Top.loadUse, HazardUnit.loadUse, Top.hazardIn, hidle.memRead]

lemma step_phase (h : Lockstep s₀ n) : Phase (trace s₀ (n + 1)) (slots s₀ (n + 1)) := by
  have hfetch : ∀ a, (trace s₀ n).top.mem a = applyWrite
      (applyWrite (slots s₀ n).mem.settled (slots s₀ n).mem.oldest) (slots s₀ n).mem.middle a :=
    fun a => congrFun h.array a
  rw [trace_succ, slots_succ]
  cases h.phase with
  | refill hb hheld hid hex =>
    obtain ⟨ht, hl⟩ := front_moves hex
    have hpc : (trace s₀ n).top.pc = (slots s₀ n).pc := by
      rw [(front s₀ n).pc_addr ht hid, Traced.resolved, hex]
      exact h.pc
    rw [SlotMachine.step_idle (by omega)]
    refine .bubble (by simp [SlotMachine.idle, hb]) _ (by simp [Traced.step_inId, ht, hl]; rfl)
      (by simp [Traced.step_inEx, hid]) ?_
    change (trace s₀ n).top.mem (wordIndex (trace s₀ n).top.pc) = _
    rw [hfetch, hpc, SlotMachine.word]
    simp only [SlotMachine.idle, hheld]
    rfl
  | bubble hb g hid hex hw =>
    obtain ⟨ht, hl⟩ := front_moves hex
    rw [SlotMachine.step_idle (by omega)]
    refine .execute (by simp [SlotMachine.idle, hb]) g _ (by simp [Traced.step_inEx, ht, hl, hid])
      hw (by simp [Traced.step_inId, ht, hl]; rfl) ?_
    exact hfetch _
  | execute hb f g hex hw hid hbehind =>
    cases ht : (slots s₀ n).taken with
    | true =>
      have ht' := (h.taken hb).trans ht
      rw [SlotMachine.step_taken hb ht]
      exact .refill rfl rfl (by simp [Traced.step_inId, ht']) (by simp [Traced.step_inEx, ht'])
    | false =>
      have ht' := (h.taken hb).trans ht
      have hnext := h.next_word hid ht' hb
      have hl := h.waits hb ht
      cases hwait : (slots s₀ n).waits with
      | true =>
        rw [hwait] at hl
        rw [SlotMachine.step_waits hb ht hwait]
        exact .bubble rfl g (by simp [Traced.step_inId, ht', hl, hid])
          (by simp [Traced.step_inEx, hl]) hnext
      | false =>
        rw [hwait] at hl
        rw [SlotMachine.step_retire hb ht hwait]
        refine .execute rfl g _ (by simp [Traced.step_inEx, ht', hl, hid]) hnext
          (by simp [Traced.step_inId, ht', hl]; rfl) ?_
        exact hfetch _

lemma executing (h : Lockstep s₀ n) :
    (trace s₀ n).inEx.map (fun f => (f.addr, f.word)) = (slots s₀ n).executing := by
  by_cases hb : (slots s₀ n).bubbles = 0
  · obtain ⟨f, hf, ha, hw⟩ := h.inEx hb
    rw [hf, Option.map_some, ha, hw, SlotMachine.executing, if_pos hb]
  · rw [h.inEx_none hb, SlotMachine.executing, if_neg hb]
    rfl

lemma step_pc (h : Lockstep s₀ n) : (trace s₀ (n + 1)).next = (slots s₀ (n + 1)).pc := by
  have hr : (trace s₀ (n + 1)).next = (trace s₀ n).resolved := by
    rw [trace_succ]
    rfl
  rw [hr, slots_succ]
  by_cases hb : (slots s₀ n).bubbles = 0
  · rw [h.resolved hb, SlotMachine.step_pc hb]
  · rw [SlotMachine.step_idle hb, Traced.resolved, h.inEx_none hb]
    exact h.pc

/-- An instruction enters EX with what the register array held the cycle before. -/
lemma step_data (h : Lockstep s₀ n) (hb : (slots s₀ (n + 1)).bubbles = 0) :
    (trace s₀ (n + 1)).top.idEx.rs1Data =
        Regfile.read (slots s₀ (n + 1)).regs.settled (slots s₀ (n + 1)).dec.rs1 ∧
      (trace s₀ (n + 1)).top.idEx.rs2Data =
        Regfile.read (slots s₀ (n + 1)).regs.settled (slots s₀ (n + 1)).dec.rs2 := by
  cases h.step_phase with
  | refill hb' => omega
  | bubble hb' => omega
  | execute _ f g hf hw =>
    obtain ⟨hl, ht⟩ := not_flushed_of_inEx hf
    obtain ⟨hid, -⟩ := inEx_succ hf
    have hset : (slots s₀ (n + 1)).regs.settled = (trace s₀ n).top.regs := by
      rw [h.regs, slots_succ, SlotMachine.step_regs]
      rfl
    have hd : (trace s₀ n).top.dec = (slots s₀ (n + 1)).dec := by
      rw [Top.dec, (tracks s₀ n).id_some hid, SlotMachine.dec, ← hw]
    rw [trace_top_succ, Top.step_idEx, if_neg (by simp [hl, ht]), hset, ← hd]
    exact ⟨rfl, rfl⟩

lemma step (h : Lockstep s₀ n) : Lockstep s₀ (n + 1) where
  pc := h.step_pc
  phase := h.step_phase
  rs1Data hb := (h.step_data hb).1
  rs2Data hb := (h.step_data hb).2
  regs := by
    rw [trace_top_succ, Top.step_regs, Top.nextRegs_eq, h.regs, h.wb, slots_succ,
      SlotMachine.step_regs]
    rfl
  wb := by
    rw [h.mem, slots_succ, SlotMachine.step_regs]
    rfl
  mem := by
    rw [h.regEvent, slots_succ, SlotMachine.step_regs]
    rfl
  array := by
    rw [h.array_succ, slots_succ, SlotMachine.step_mem]
    rfl
  store := by
    rw [h.memEvent, slots_succ, SlotMachine.step_mem]
    rfl

end Lockstep

theorem lockstep (s₀ : Top) (n : ℕ) : Lockstep s₀ n := by
  induction n with
  | zero => exact .boot s₀
  | succ n ih => exact ih.step

/-- For every memory and register content the pipeline is the slot machine: what EX holds, the
memory write one cycle later, the register write two cycles later, and the two arrays
behind them. -/
theorem pipeline_in_lockstep (s₀ : Top) (n : ℕ) :
    (trace s₀ n).inEx.map (fun f => (f.addr, f.word)) = (slots s₀ n).executing ∧
    (trace s₀ (n + 1)).top.memWriteEvent = (slots s₀ n).memEvent ∧
    (trace s₀ (n + 2)).top.regWriteEvent = (slots s₀ n).regEvent ∧
    (trace s₀ (n + 1)).top.mem = (slots s₀ n).mem.now ∧
    (trace s₀ (n + 2)).top.regs = (slots s₀ n).regs.now := by
  have h := lockstep s₀ n
  exact ⟨h.executing, h.memEvent, h.regEvent, h.array_succ, h.regs_succ⟩

end Rv32iRtl
