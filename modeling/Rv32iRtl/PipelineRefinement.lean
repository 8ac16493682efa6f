import Rv32iRtl.StageEvents

/-! The pipeline against the sequential machine, over whole runs. The invariant `Sim`
places every stage at its own instruction of one sequential run; what it cannot
survive is a register-file read in ID of a register that WB is just writing. -/
namespace Rv32iRtl

open Isa EventTrace

namespace Top

def sources (s : Top) : List RegAddr :=
  match decode s.ifId.instr with
  | some i => i.src1.toList ++ i.src2.toList
  | none => []

/-- The instruction in ID enters EX with a source register whose newest writer is in
WB: the register array does not hold the value yet and no later stage will forward it. -/
def StaleRead (s : Top) : Prop :=
  s.hazard.idExFlush = false ∧
    ∃ r ∈ s.sources, r ≠ 0#5 ∧ s.wbWrites r ∧ ¬s.memWrites r ∧ ¬s.exWrites r

instance (s : Top) : Decidable s.StaleRead := inferInstanceAs (Decidable (_ ∧ _))

end Top

/-- The first `n` instructions are of the basic classes, and none of them stores into a
word that one of them is fetched from. -/
def Isa.State.Admissible (σ : State) (n : ℕ) : Prop :=
  (∀ k < n, (σ.run k).fetch.any Instr.basic = true) ∧
    ∀ j < n, ∀ k < n, (σ.run j).memEvent.map Prod.fst ≠ some (wordIndex (σ.run k).pc)

instance (σ : State) (n : ℕ) : Decidable (σ.Admissible n) := inferInstanceAs (Decidable (_ ∧ _))

/-- The registers and memory that the core has when reset is released, at `pc = 0`. -/
def isaStart (s₀ : Top) : State := ⟨0#32, (trace s₀ 0).top.regs, (trace s₀ 0).top.mem⟩

def isaAt (s₀ : Top) (k : ℕ) : State := (isaStart s₀).run k

def regTrace (s₀ : Top) (n : ℕ) : List (RegAddr × Word) :=
  events (fun m => (trace s₀ m).top.regWriteEvent) n

def memTrace (s₀ : Top) (n : ℕ) : List (BitVec 16 × Word) :=
  events (fun m => (trace s₀ m).top.memWriteEvent) n

/-- How many instructions have left EX, MEM and WB before cycle `n`. -/
def exIndex (s₀ : Top) (n : ℕ) : ℕ := Nat.count (fun m => (trace s₀ m).inEx.isSome = true) n

def memIndex (s₀ : Top) (n : ℕ) : ℕ := Nat.count (fun m => (trace s₀ m).inMem.isSome = true) n

def wbIndex (s₀ : Top) (n : ℕ) : ℕ := Nat.count (fun m => (trace s₀ m).inWb.isSome = true) n

variable {s₀ : Top} {n : ℕ}

lemma isaAt_succ (s₀ : Top) (k : ℕ) : isaAt s₀ (k + 1) = (isaAt s₀ k).step := State.run_succ _ _

lemma memIndex_succ (s₀ : Top) (n : ℕ) : memIndex s₀ (n + 1) = exIndex s₀ n := by
  refine count_delay (by simp [Traced.boot]) (fun m => ?_) n
  rw [trace_succ]
  rfl

lemma wbIndex_succ (s₀ : Top) (n : ℕ) : wbIndex s₀ (n + 1) = memIndex s₀ n := by
  refine count_delay (by simp [Traced.boot]) (fun m => ?_) n
  rw [trace_succ]
  rfl

lemma exIndex_succ (s₀ : Top) (n : ℕ) :
    exIndex s₀ (n + 1) = exIndex s₀ n + if (trace s₀ n).inEx.isSome = true then 1 else 0 :=
  Nat.count_succ _ _

/-- Nothing is in EX in the first cycle, so the count stays behind the clock. -/
lemma exIndex_succ_le (s₀ : Top) (n : ℕ) : exIndex s₀ (n + 1) ≤ n := by
  induction n with
  | zero => simp [exIndex, Nat.count_succ, Traced.boot]
  | succ n ih =>
    rw [exIndex_succ]
    split_ifs <;> omega

/-- Every stage holds its own instruction of the sequential run. -/
structure Sim (s₀ : Top) (n : ℕ) : Prop where
  regs : (trace s₀ n).top.regs = (isaAt s₀ (wbIndex s₀ n)).regs
  mem : (trace s₀ n).top.mem = (isaAt s₀ (memIndex s₀ n)).mem
  next : (trace s₀ n).next = (isaAt s₀ (exIndex s₀ n)).pc
  wb : (trace s₀ n).inWb.isSome = true →
    (trace s₀ n).top.regWriteEvent = (isaAt s₀ (wbIndex s₀ n)).regEvent
  inMem : (trace s₀ n).inMem.isSome = true → ∃ i,
    (isaAt s₀ (memIndex s₀ n)).fetch = some i ∧ i.basic = true ∧
      (trace s₀ n).top.InMem (isaAt s₀ (memIndex s₀ n)) i
  inEx : (trace s₀ n).inEx.isSome = true → ∃ i,
    (isaAt s₀ (exIndex s₀ n)).fetch = some i ∧ i.basic = true ∧
      (trace s₀ n).top.InEx (isaAt s₀ (exIndex s₀ n)) i
  inId : ∀ f, (trace s₀ n).inId = some f →
    ∃ k ≤ n, f.word = (isaAt s₀ k).mem (wordIndex f.addr)

lemma Sim.boot (s₀ : Top) : Sim s₀ 0 := by
  constructor <;> simp [Traced.boot, isaAt, isaStart, wbIndex, memIndex, exIndex, State.run]

lemma mem_of_admissible {N : ℕ} (h : (isaStart s₀).Admissible N) {m k : ℕ} (hm : m < N)
    (hk : k ≤ N) : (isaAt s₀ k).mem (wordIndex (isaAt s₀ m).pc) =
      (isaStart s₀).mem (wordIndex (isaAt s₀ m).pc) := by
  induction k with
  | zero => rfl
  | succ k ih =>
    rw [isaAt_succ, State.step_mem, ← ih (by omega)]
    exact applyWrite_of_ne (h.2 k (by omega) m hm)

namespace Sim

/-- After the instruction in WB: the registers as of the instruction in MEM. -/
lemma regs_mem (h : Sim s₀ n) : (isaAt s₀ (memIndex s₀ n)).regs =
    applyWrite (trace s₀ n).top.regs (trace s₀ n).top.regWriteEvent := by
  rw [← wbIndex_succ, wbIndex, Nat.count_succ, ← wbIndex, h.regs]
  split_ifs with hw
  · rw [isaAt_succ, State.step_regs, h.wb hw]
  · have hn : (trace s₀ n).inWb = none := by simpa using hw
    rw [Top.regWriteEvent_of_idle ((tracks s₀ n).wb_none hn)]
    rfl

lemma regs_ex (h : Sim s₀ n) : (isaAt s₀ (exIndex s₀ n)).regs =
    applyWrite (isaAt s₀ (memIndex s₀ n)).regs
      ((trace s₀ n).top.step false).regWriteEvent := by
  rw [← memIndex_succ, memIndex, Nat.count_succ, ← memIndex]
  split_ifs with hm
  · obtain ⟨i, hf, hb, hi⟩ := h.inMem hm
    rw [isaAt_succ, State.step_regs, hi.regWriteEvent_eq hb h.mem, State.regEvent, hf]
    rfl
  · have hn : (trace s₀ (n + 1)).inWb = none := by
      rw [trace_succ]
      exact Option.not_isSome_iff_eq_none.mp hm
    have he := Top.regWriteEvent_of_idle ((tracks s₀ (n + 1)).wb_none hn)
    rw [trace_top_succ] at he
    rw [he]
    rfl

lemma mem_ex (h : Sim s₀ n) : (isaAt s₀ (exIndex s₀ n)).mem = (trace s₀ n).top.nextMem := by
  rw [← memIndex_succ, memIndex, Nat.count_succ, ← memIndex, Top.nextMem_eq, h.mem]
  split_ifs with hm
  · obtain ⟨i, hf, hb, hi⟩ := h.inMem hm
    rw [isaAt_succ, State.step_mem, hi.memWriteEvent_eq hb, State.memEvent, hf]
    rfl
  · have hn : (trace s₀ n).inMem = none := by simpa using hm
    rw [Top.memWriteEvent_of_idle ((tracks s₀ n).mem_none hn)]
    rfl

lemma operands (h : Sim s₀ n) {i : Instr}
    (hi : (trace s₀ n).top.InEx (isaAt s₀ (exIndex s₀ n)) i) :
    (trace s₀ n).top.Operands (isaAt s₀ (exIndex s₀ n)) i where
  x1 r hr := by
    have ha := hi.active (Or.inl (by simp [hr]))
    have h1 : r = (trace s₀ n).top.idEx.rs1Addr := (hi.executes.src1 r hr).symm
    have hv := forwardVal_eq (gaps s₀ n) ha h.regs_mem h.regs_ex (Or.inl h1) (hi.fresh1 r hr)
    rwa [Top.forwardAVal, Top.forwardA, ← h1]
  x2 r hr := by
    have ha := hi.active (Or.inr (by simp [hr]))
    have h2 : r = (trace s₀ n).top.idEx.rs2Addr := (hi.executes.src2 r hr).symm
    have hv := forwardVal_eq (gaps s₀ n) ha h.regs_mem h.regs_ex (Or.inr h2) (hi.fresh2 r hr)
    rwa [Top.forwardBVal, Top.forwardB, ← h2]

lemma next_succ (h : Sim s₀ n) :
    (trace s₀ (n + 1)).next = (isaAt s₀ (exIndex s₀ (n + 1))).pc := by
  have hr : (trace s₀ (n + 1)).next = (trace s₀ n).resolved := by
    rw [trace_succ]
    rfl
  rw [hr, exIndex_succ, Traced.resolved]
  cases hf : (trace s₀ n).inEx with
  | none => simpa using h.next
  | some f =>
    obtain ⟨i, hfe, -, hi⟩ := h.inEx (by simp [hf])
    have ha : f.addr = (isaAt s₀ (exIndex s₀ n)).pc := ((front s₀ n).ex_addr hf).trans h.next
    simp only [Option.isSome_some, if_true, isaAt_succ]
    rw [ha, hi.next_pc (h.operands hi) hfe]

/-- What ID reads is current for the next cycle, unless it is bypassed there. -/
lemma read_fresh (h : Sim s₀ n) (hs : ¬(trace s₀ n).top.StaleRead)
    (hf : (trace s₀ n).top.hazard.idExFlush = false) {r : RegAddr}
    (hr : r ∈ (trace s₀ n).top.sources) (hb : ¬(trace s₀ (n + 1)).top.Bypassed r) :
    Regfile.read (trace s₀ n).top.regs r = (isaAt s₀ (exIndex s₀ (n + 1))).reg r := by
  by_cases h0 : r = 0#5
  · simp [h0, State.reg]
  have hm : ¬(trace s₀ n).top.exWrites r := by
    intro hw
    refine hb ⟨h0, Or.inl ?_⟩
    rw [trace_top_succ]
    exact hw
  have hw : ¬(trace s₀ n).top.memWrites r := by
    intro hw
    refine hb ⟨h0, Or.inr ?_⟩
    rw [trace_top_succ]
    exact hw
  have hwb : ¬(trace s₀ n).top.wbWrites r := fun hwb => hs ⟨hf, r, hr, h0, hwb, hw, hm⟩
  have hex : (isaAt s₀ (exIndex s₀ n)).regs r = (trace s₀ n).top.regs r := by
    have hw' : ¬((trace s₀ n).top.step false).wbWrites r := hw
    rw [h.regs_ex, h.regs_mem, Top.applyWrite_regWriteEvent, Top.applyWrite_regWriteEvent,
      if_neg (fun hc => hw' hc.1), if_neg (fun hc => hwb hc.1)]
  rw [Regfile.read_of_ne h0, State.reg, if_neg h0, ← hex, exIndex_succ]
  split_ifs with he
  · obtain ⟨i, hfe, -, hi⟩ := h.inEx he
    rw [isaAt_succ, State.step_regs, State.regEvent, hfe]
    exact (hi.keeps hm _).symm
  · rfl

lemma fetch_succ {N : ℕ} (h : Sim s₀ n) (hadm : (isaStart s₀).Admissible N) (hn : n < N)
    {f : Fetched} (hid : (trace s₀ n).inId = some f)
    (hf : (trace s₀ (n + 1)).inEx = some f) :
    ∃ i, (isaAt s₀ (exIndex s₀ (n + 1))).fetch = some i ∧ i.basic = true ∧ encode i = f.word := by
  have hle := exIndex_succ_le s₀ n
  obtain ⟨k, hk, hw⟩ := h.inId f hid
  have ha : f.addr = (isaAt s₀ (exIndex s₀ (n + 1))).pc :=
    ((front s₀ (n + 1)).ex_addr hf).trans h.next_succ
  have hword : (isaAt s₀ (exIndex s₀ (n + 1))).mem
      (wordIndex (isaAt s₀ (exIndex s₀ (n + 1))).pc) = f.word := by
    rw [hw, ha, mem_of_admissible hadm (by omega) (by omega),
      mem_of_admissible hadm (by omega) (by omega)]
  have hany := hadm.1 (exIndex s₀ (n + 1)) (by omega)
  change (isaAt s₀ (exIndex s₀ (n + 1))).fetch.any Instr.basic = true at hany
  cases hi : (isaAt s₀ (exIndex s₀ (n + 1))).fetch with
  | none => simp [hi] at hany
  | some i =>
    rw [hi] at hany
    rw [State.fetch, hword] at hi
    exact ⟨i, rfl, hany, encode_decode hi⟩

lemma step {N : ℕ} (h : Sim s₀ n) (hadm : (isaStart s₀).Admissible N) (hn : n < N)
    (hs : ¬(trace s₀ n).top.StaleRead) : Sim s₀ (n + 1) where
  regs := by
    rw [wbIndex_succ, h.regs_mem, trace_top_succ, Top.step_regs, Top.nextRegs_eq]
  mem := by rw [memIndex_succ, h.mem_ex, trace_top_succ, Top.step_mem]
  next := h.next_succ
  wb hw := by
    rw [trace_succ] at hw
    obtain ⟨i, hf, hb, hi⟩ := h.inMem hw
    rw [wbIndex_succ, trace_top_succ, hi.regWriteEvent_eq hb h.mem, State.regEvent, hf]
    rfl
  inMem hm := by
    rw [trace_succ] at hm
    obtain ⟨i, hf, hb, hi⟩ := h.inEx hm
    rw [memIndex_succ, trace_top_succ]
    exact ⟨i, hf, hb, hi.inMem (h.operands hi)⟩
  inEx he := by
    obtain ⟨f, hf⟩ := Option.isSome_iff_exists.mp he
    obtain ⟨hid, -⟩ := inEx_succ hf
    obtain ⟨i, hfe, hb, hi⟩ := h.fetch_succ hadm hn hid hf
    have hfl : (trace s₀ n).top.hazard.idExFlush = false := by
      rw [trace_succ, Traced.step_inEx] at hf
      split_ifs at hf with hc
      simpa using hc
    have hword : (trace s₀ n).top.ifId.instr = encode i := by
      rw [(tracks s₀ n).id_some hid, hi]
    obtain ⟨hc, -, h0⟩ := Top.step_carries hfl
    rw [← trace_top_succ, hword] at hc
    rw [← trace_top_succ] at h0
    have hpc : (trace s₀ (n + 1)).top.idEx.pc = (isaAt s₀ (exIndex s₀ (n + 1))).pc := by
      rw [((tracks s₀ (n + 1)).ex_some hf).2, (front s₀ (n + 1)).ex_addr hf, h.next_succ]
    have hsrc : (trace s₀ n).top.sources = i.src1.toList ++ i.src2.toList := by
      rw [Top.sources, hword, decode_encode]
    have hdata : (trace s₀ (n + 1)).top.idEx.rs1Data = (trace s₀ n).top.rdata1 ∧
        (trace s₀ (n + 1)).top.idEx.rs2Data = (trace s₀ n).top.rdata2 := by
      rw [trace_top_succ, Top.step_idEx, if_neg (by simpa using hfl)]
      exact ⟨rfl, rfl⟩
    refine ⟨i, hfe, hb, hc, hpc, h0, fun r hr hby => ?_, fun r hr hby => ?_⟩
    · rw [hdata.1, Top.rdata1, Top.dec, hword, Decoder.src1_encode hr]
      exact h.read_fresh hs hfl (by simp [hsrc, hr]) hby
    · rw [hdata.2, Top.rdata2, Top.dec, hword, Decoder.src2_encode hr]
      exact h.read_fresh hs hfl (by simp [hsrc, hr]) hby
  inId f hf := by
    have hid := hf
    rw [trace_succ, Traced.step_inId] at hid
    split_ifs at hid with hb hl
    · obtain ⟨k, hk, hw⟩ := h.inId f hid
      exact ⟨k, by omega, hw⟩
    · cases hid
      have hle : memIndex s₀ n ≤ n := Nat.count_le _
      refine ⟨memIndex s₀ n, by omega, ?_⟩
      rw [← h.mem]
      rfl

end Sim

/-- The run lemma: the invariant holds as long as no stale read has happened. -/
theorem sim (hadm : (isaStart s₀).Admissible n)
    (hfresh : ∀ m < n, ¬(trace s₀ m).top.StaleRead) : ∀ m ≤ n, Sim s₀ m := by
  intro m hm
  induction m with
  | zero => exact .boot s₀
  | succ m ih => exact (ih (by omega)).step hadm (by omega) (hfresh m (by omega))

/-- In every run without a stale read the writes of the pipeline are, in order, the
first writes of the sequential machine. -/
theorem pipeline_refines_isa (s₀ : Top) (n : ℕ) (hadm : (isaStart s₀).Admissible n)
    (hfresh : ∀ m < n, ¬(trace s₀ m).top.StaleRead) :
    ∃ k, regTrace s₀ n <+: (isaStart s₀).regTrace k ∧ memTrace s₀ n <+: (isaStart s₀).memTrace k := by
  have hsim := sim hadm hfresh
  have hreg : regTrace s₀ n = (isaStart s₀).regTrace (wbIndex s₀ n) := by
    refine events_eq_count (fun m hm hw => (hsim m hm.le).wb hw) fun m _ hw => ?_
    exact Top.regWriteEvent_of_idle ((tracks s₀ m).wb_none (Option.not_isSome_iff_eq_none.mp hw))
  have hmem : memTrace s₀ n = (isaStart s₀).memTrace (memIndex s₀ n) := by
    refine events_eq_count (fun m hm hw => ?_) fun m _ hw => ?_
    · obtain ⟨i, hf, hb, hi⟩ := (hsim m hm.le).inMem hw
      rw [hi.memWriteEvent_eq hb]
      change _ = (isaAt s₀ (memIndex s₀ m)).memEvent
      rw [State.memEvent, hf]
      rfl
    · exact Top.memWriteEvent_of_idle
        ((tracks s₀ m).mem_none (Option.not_isSome_iff_eq_none.mp hw))
  have hle : wbIndex s₀ n ≤ memIndex s₀ n := by
    rw [← wbIndex_succ, wbIndex, wbIndex, Nat.count_succ]
    omega
  refine ⟨memIndex s₀ n, ?_, ?_⟩
  · rw [hreg]
    exact events_mono _ hle
  · rw [hmem]

/-- `addi x1,x0,5; addi x2,x1,1; sw x2,0x400(x0); lw x3,0x400(x0); add x4,x3,x2`. -/
theorem pipeline_refines_isa_dependent :
    ∃ k, regTrace (load [0x00500093#32, 0x00108113#32, 0x40202023#32, 0x40002183#32,
          0x00218233#32]) 10 <+:
        (isaStart (load [0x00500093#32, 0x00108113#32, 0x40202023#32, 0x40002183#32,
          0x00218233#32])).regTrace k ∧
      memTrace (load [0x00500093#32, 0x00108113#32, 0x40202023#32, 0x40002183#32,
          0x00218233#32]) 10 <+:
        (isaStart (load [0x00500093#32, 0x00108113#32, 0x40202023#32, 0x40002183#32,
          0x00218233#32])).memTrace k :=
  pipeline_refines_isa _ 10 (by decide +kernel) (by decide +kernel)

/-- `addi x1,x0,5` and, three instructions later, `add x2,x1,x0`: the pipeline writes
0 to `x2`, the sequential machine 5. -/
theorem pipeline_refinement_fails :
    ¬ ∀ (s₀ : Top) (n : ℕ), (isaStart s₀).Admissible n →
      ∃ k, regTrace s₀ n <+: (isaStart s₀).regTrace k ∧
        memTrace s₀ n <+: (isaStart s₀).memTrace k := by
  intro h
  obtain ⟨k, hk, -⟩ := h (load [0x00500093#32, NOP, NOP, 0x00008133#32]) 8 (by decide +kernel)
  have h4 := prefix_of_length (n := 4) hk (by decide +kernel)
  revert h4
  decide +kernel

end Rv32iRtl
