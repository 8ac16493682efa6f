import Rv32iRtl.ExecutionTime

/-! RV32I on the core: a run in which every slot is orderly is a run of the sequential machine, jumps
and sub-word accesses included. -/
namespace Rv32iRtl

open Isa ByteLanes EventTrace PendingWrites

namespace Isa

def Instr.reads (i : Instr) : List RegAddr := i.src1.toList ++ i.src2.toList

def Instr.link : Instr → Option RegAddr
  | jal rd _ | jalr rd _ _ => some rd
  | _ => none

/-- No link is kept, and the addresses of data and of jump targets are multiples of four. -/
def Instr.Plain (pc x1 x2 : Word) (i : Instr) : Prop :=
  (∀ rd ∈ i.link, rd = 0#5) ∧ (∀ a ∈ i.address x1, a.toNat % 4 = 0) ∧
    ∀ a ∈ i.redirect pc x1 x2, a.toNat % 4 = 0

instance (o : Option Word) : Decidable (∀ a ∈ o, a.toNat % 4 = 0) :=
  Option.decidableForallMem o

instance (pc x1 x2 : Word) (i : Instr) : Decidable (i.Plain pc x1 x2) :=
  inferInstanceAs (Decidable (_ ∧ _ ∧ _))

/-- The instruction is plain with the operands it has in this state. -/
def State.Plain (τ : State) (i : Instr) : Prop := i.Plain τ.pc (τ.x1 i) (τ.x2 i)

instance (τ : State) (i : Instr) : Decidable (τ.Plain i) :=
  inferInstanceAs (Decidable (i.Plain _ _ _))

end Isa

namespace SlotMachine

/-- No pending store changes the word that is executed, it is an instruction, no pending write
to one of its sources is missed, and it is plain. -/
def Orderly (m : SlotMachine) : Prop :=
  m.bubbles = 0 →
    m.word = m.mem.now (wordIndex m.pc) ∧ ∃ i ∈ decode m.word,
      (∀ r ∈ i.reads, ¬m.regs.Missed r) ∧ i.Plain m.pc m.x1 m.x2

instance (m : SlotMachine) : Decidable m.Orderly := inferInstanceAs (Decidable (_ → _ ∧ _))

/-- With all writes done, the slot machine is in the state `τ`. -/
structure Follows (m : SlotMachine) (τ : State) : Prop where
  pc : m.pc = τ.pc
  regs : m.regs.now = τ.regs
  mem : m.mem.now = τ.mem

lemma Follows.operand {m : SlotMachine} {τ : State} (h : m.Follows τ) {r : RegAddr}
    (hr : ¬m.regs.Missed r) : m.operand r = τ.reg r := by
  rw [SlotMachine.operand, State.reg, Window.bypass_eq_now hr, h.regs]

/-- The slot in the EX stage of a core that has nothing behind it. -/
def top (m : SlotMachine) : Top :=
  let decoding : Top := ⟨⟨⟨m.pc, m.word⟩, .reset, .reset, .reset⟩, m.mem.now, m.pc, m.regs.bypass⟩
  { decoding with idEx := { decoding.idPorts with pc := m.pc } }

end SlotMachine

lemma laneOffset_of_aligned (size : ℕ) {a : Word} (h : a.toNat % 4 = 0) :
    laneOffset size a = 0#2 := by
  rw [laneOffset, h, Nat.zero_div, Nat.zero_mul]

/-- At lane zero the unshifted data is the right one. -/
lemma writeLanes_lane_zero (o : StoreOp) {a : Word} (h : laneOffset o.size a = 0#2)
    (old data : Word) : writeLanes (Lsu.memBe o.funct3 a) old (Lsu.memWdata o.funct3 data) =
      storeLanes old data 0#2 o.size := by
  have hoff : (a.extractLsb 1 0).toNat = a.toNat % 4 := by simp [BitVec.extractLsb_toNat]
  have hbit : a.getLsbD 1 = (a.extractLsb 1 0).getLsbD 1 := by grind
  have hbe : ∀ k : BitVec 2,
      (Lsu.memBe o.funct3 a).getLsbD k.toNat = decide (k.toNat < o.size) := by
    intro k
    rw [laneOffset, ← hoff] at h
    unfold Lsu.memBe
    rw [hbit]
    generalize a.extractLsb 1 0 = off at h
    revert k off
    cases o <;> decide
  rw [lane_inj]
  intro k
  rw [lane_writeLanes, storeLanes, lane_ofLanes, lane_memWdata, hbe, BitVec.sub_zero]
  by_cases hk : k.toNat < o.size <;> simp [hk]

namespace SlotMachine

lemma top_carries (m : SlotMachine) : m.top.idEx.Carries m.word := Top.idPorts_carries _ m.pc

/-- Nothing in MEM or WB is forwarded. -/
lemma top_forward (m : SlotMachine) (r : RegAddr) :
    HazardUnit.forward m.top.forwardIn r = 0b00#2 := by
  have hm : m.top.exMem.regWrite = false := rfl
  have hw : m.top.memWb.regWrite = false := rfl
  simp only [HazardUnit.forward, Top.forwardIn, hm, hw, Bool.false_and]
  rfl

lemma read_bypass (m : SlotMachine) (r : RegAddr) :
    Regfile.read m.regs.bypass r = m.operand r := by
  simp [Regfile.read, operand]

lemma top_operands (m : SlotMachine) : m.top.forwardAVal = m.x1 ∧ m.top.forwardBVal = m.x2 := by
  have h1 : m.top.idEx.rs1Data = m.x1 := m.read_bypass m.dec.rs1
  have h2 : m.top.idEx.rs2Data = m.x2 := m.read_bypass m.dec.rs2
  rw [Top.forwardAVal, Top.forwardA, top_forward, Top.forwardBVal, Top.forwardB, top_forward,
    ← h1, ← h2]
  exact ⟨rfl, rfl⟩

lemma top_holds (m : SlotMachine) : HoldsSlot m.top m :=
  ⟨m.top_carries, rfl, m.top_operands.1, m.top_operands.2⟩

variable {m : SlotMachine} {τ : State} {i : Instr}

section Slot

variable (hi : encode i = m.word)

include hi

lemma executes : Executes m.top i := by
  have hc := m.top_carries
  rw [← hi] at hc
  refine Top.executes hc fun h0 => ?_
  have h1 : m.top.idEx.rs1Data = Regfile.read m.regs.bypass m.top.idEx.rs1Addr := rfl
  rw [h1, h0]
  rfl

lemma dest_eq : (if m.dec.regWrite then some m.dec.rd else none) = i.dest := (executes hi).dest

lemma redirect_eq : (if m.taken then some m.target else none) = i.redirect m.pc m.x1 m.x2 := by
  have hx := (executes hi).redirect
  rwa [m.top_holds.taken, m.top_holds.target, m.top_operands.1, m.top_operands.2] at hx

variable (hf : m.Follows τ) (hs : ∀ r ∈ i.reads, ¬m.regs.Missed r)

include hf hs

lemma x1_eq : ∀ r, i.src1 = some r → m.x1 = τ.reg r := by
  intro r hr
  have hd : m.dec.rs1 = r := by
    rw [SlotMachine.dec, ← hi]
    exact Decoder.src1_encode hr
  rw [SlotMachine.x1, hd, hf.operand (hs r (by simp [Instr.reads, hr]))]

lemma x2_eq : ∀ r, i.src2 = some r → m.x2 = τ.reg r := by
  intro r hr
  have hd : m.dec.rs2 = r := by
    rw [SlotMachine.dec, ← hi]
    exact Decoder.src2_encode hr
  rw [SlotMachine.x2, hd, hf.operand (hs r (by simp [Instr.reads, hr]))]

lemma plain_iff : i.Plain m.pc m.x1 m.x2 ↔ τ.Plain i := by
  rw [State.Plain, Instr.Plain, Instr.Plain, State.address_congr (x1_eq hi hf hs),
    State.redirect_congr (x1_eq hi hf hs) (x2_eq hi hf hs), hf.pc]

lemma pc_eq : m.retire.pc = (τ.exec i).pc := by
  have hx := redirect_eq hi
  rw [State.redirect_congr (x1_eq hi hf hs) (x2_eq hi hf hs), hf.pc] at hx
  rw [State.exec, ← hx, ← hf.pc, retire]
  cases m.taken <;> rfl

lemma address_eq {a : Word} (ha : i.address (τ.x1 i) = some a) : m.aluResult = a := by
  rw [← State.address_congr (x1_eq hi hf hs), ← m.top_operands.1] at ha
  rw [← m.top_holds.aluResult]
  exact (executes hi).address a ha

variable (hp : τ.Plain i)

include hp

lemma memWrite_eq : m.memWrite = τ.memWrite i := by
  have hx := executes hi
  have hw : m.dec.memWrite = i.stores.isSome := hx.memWrite
  cases i with
  | store o rs1 rs2 imm =>
    have ha := address_eq hi hf hs (a := τ.reg rs1 + imm.signExtend 32) rfl
    have hd : m.x2 = τ.reg rs2 := x2_eq hi hf hs rs2 rfl
    have h3 : m.dec.branchFunct3 = o.funct3 := (hx.storeOp o rfl).1
    have hoff := laneOffset_of_aligned o.size (hp.2.1 (τ.reg rs1 + imm.signExtend 32) rfl)
    have hlane := writeLanes_lane_zero o hoff (τ.mem (wordIndex (τ.reg rs1 + imm.signExtend 32)))
      (τ.reg rs2)
    simp only [SlotMachine.memWrite, hw, Instr.stores, Option.isSome_some, if_true,
      SlotMachine.access, lsu, h3, ha, hd, hf.mem, hlane, State.memWrite, Instr.address, State.x1,
      State.x2, State.operand, Instr.src1, Instr.src2, Option.elim_some, hoff]
  | _ => simp [SlotMachine.memWrite, hw, State.memWrite, Instr.stores]

lemma value_eq {rd : RegAddr} (hd : i.dest = some rd) (h0 : rd ≠ 0#5) : m.value = τ.value i := by
  have hx := executes hi
  have hresult : ∀ v, i.result τ.pc (τ.x1 i) (τ.x2 i) = some v → m.value = v := by
    intro v hv
    rw [← State.result_congr (x1_eq hi hf hs) (x2_eq hi hf hs), ← hf.pc, ← m.top_operands.1,
      ← m.top_operands.2] at hv
    obtain ⟨hv, hw⟩ := hx.result v hv
    have hsel : m.dec.wbSel = 0b00#2 := hw
    rw [← hv, m.top_holds.aluResult, SlotMachine.value, hsel]
    rfl
  cases i with
  | op | opImm | shiftImm | lui | auipc => exact hresult _ rfl
  | load o rd rs1 imm =>
    have ha := address_eq hi hf hs (a := τ.reg rs1 + imm.signExtend 32) rfl
    obtain ⟨h3, hw⟩ := hx.loadOp o rfl
    have hf3 : m.dec.branchFunct3 = o.funct3 := h3
    have hsel : m.dec.wbSel = 0b01#2 := hw
    have hoff := laneOffset_of_aligned o.size (hp.2.1 (τ.reg rs1 + imm.signExtend 32) rfl)
    have hv : m.value = m.access.rdata := by
      rw [SlotMachine.value, hsel]
      rfl
    rw [hv, SlotMachine.access, lsu, hf3, ha, rdata_eq_value, hf.mem]
    simp [State.value, Instr.loads, Instr.address, State.x1, State.operand, Instr.src1, hoff]
  | jal rd' imm =>
    obtain rfl := Option.some.inj hd
    exact absurd (hp.1 rd' rfl) h0
  | jalr rd' rs1 imm =>
    obtain rfl := Option.some.inj hd
    exact absurd (hp.1 rd' rfl) h0
  | store | branch | miscMem => simp [Instr.dest] at hd

lemma regWrite_eq : m.regWrite = τ.regWrite i := by
  have hd := dest_eq hi
  cases hdest : i.dest with
  | none =>
    rw [hdest] at hd
    have hw : m.dec.regWrite = false := by
      cases hw : m.dec.regWrite <;> simp [hw] at hd ⊢
    simp [SlotMachine.regWrite, hw, State.regWrite, hdest]
  | some rd =>
    rw [hdest] at hd
    obtain ⟨hw, hrd⟩ : m.dec.regWrite = true ∧ m.dec.rd = rd := by
      cases hw : m.dec.regWrite <;> simp [hw] at hd ⊢
      exact hd
    simp only [SlotMachine.regWrite, hw, hrd, State.regWrite, hdest]
    by_cases h0 : rd = 0#5
    · simp [h0]
    · simp [h0, value_eq hi hf hs hp hdest h0]

end Slot

/-- An orderly slot is one instruction of the sequential machine. -/
lemma orderly_step (hb : m.bubbles = 0) (ho : m.Orderly) (hf : m.Follows τ) :
    m.regEvent = τ.regEvent ∧ m.memEvent = τ.memEvent ∧ m.step.Follows τ.step := by
  obtain ⟨hword, i, hi, hs, hp⟩ := ho hb
  have henc := encode_decode hi
  have hfetch : τ.fetch = some i := by
    rw [State.fetch, ← hf.mem, ← hf.pc, ← hword]
    exact hi
  have hplain := (plain_iff henc hf hs).mp hp
  have hreg : m.regEvent = τ.regEvent := by
    rw [SlotMachine.regEvent, if_pos hb, regWrite_eq henc hf hs hplain, State.regEvent, hfetch]
    rfl
  have hmem : m.memEvent = τ.memEvent := by
    rw [SlotMachine.memEvent, if_pos hb, memWrite_eq henc hf hs hplain, State.memEvent, hfetch]
    rfl
  refine ⟨hreg, hmem, ?_, ?_, ?_⟩
  · rw [SlotMachine.step_pc hb, State.step_of_fetch hfetch]
    exact pc_eq henc hf hs
  · rw [SlotMachine.step_regs, Window.now_push, hreg, hf.regs, State.step_regs]
  · rw [SlotMachine.step_mem, Window.now_push, hmem, hf.mem, State.step_mem]

/-- An empty slot changes nothing. -/
lemma empty_step (hb : m.bubbles ≠ 0) (hf : m.Follows τ) : m.step.Follows τ := by
  rw [SlotMachine.step_idle hb]
  exact ⟨hf.pc, hf.regs, hf.mem⟩

end SlotMachine

variable {s₀ : Top} {n : ℕ}

lemma follows_of_orderly (h : ∀ m < n, (slots s₀ m).Orderly) :
    ∀ m ≤ n, (slots s₀ m).Follows (isaAt s₀ (exIndex s₀ m)) := by
  intro m hm
  induction m with
  | zero => exact ⟨rfl, rfl, rfl⟩
  | succ m ih =>
    have hf := ih (by omega)
    rw [exIndex_succ, slots_succ]
    by_cases hb : (slots s₀ m).bubbles = 0
    · rw [if_pos (isSome_inEx_iff.mpr hb), isaAt_succ]
      exact (SlotMachine.orderly_step hb (h m (by omega)) hf).2.2
    · rw [if_neg (fun hs => hb (isSome_inEx_iff.mp hs))]
      exact SlotMachine.empty_step hb hf

lemma refines_of_orderly (h : ∀ m < n, (slots s₀ m).Orderly) :
    regTrace s₀ (n + 2) = (isaStart s₀).regTrace (exIndex s₀ n) ∧
    memTrace s₀ (n + 1) = (isaStart s₀).memTrace (exIndex s₀ n) ∧
    (trace s₀ (n + 2)).top.regs = (isaAt s₀ (exIndex s₀ n)).regs ∧
    (trace s₀ (n + 1)).top.mem = (isaAt s₀ (exIndex s₀ n)).mem ∧
    (trace s₀ n).next = (isaAt s₀ (exIndex s₀ n)).pc := by
  have hfollows := follows_of_orderly h
  have hstep : ∀ m < n, (trace s₀ m).inEx.isSome = true →
      (slots s₀ m).regEvent = (isaAt s₀ (exIndex s₀ m)).regEvent ∧
        (slots s₀ m).memEvent = (isaAt s₀ (exIndex s₀ m)).memEvent := by
    intro m hm hs
    obtain ⟨hr, hw, -⟩ := SlotMachine.orderly_step (isSome_inEx_iff.mp hs) (h m hm)
      (hfollows m hm.le)
    exact ⟨hr, hw⟩
  have hempty : ∀ m < n, ¬(trace s₀ m).inEx.isSome = true →
      (slots s₀ m).regEvent = none ∧ (slots s₀ m).memEvent = none := by
    intro m _ hs
    have hb : (slots s₀ m).bubbles ≠ 0 := fun hb => hs (isSome_inEx_iff.mpr hb)
    exact ⟨if_neg hb, if_neg hb⟩
  have hreg0 := Top.regWriteEvent_of_idle ((tracks s₀ 0).wb_none rfl)
  have hmem0 := Top.memWriteEvent_of_idle ((tracks s₀ 0).mem_none rfl)
  refine ⟨?_, ?_, ?_, ?_, ?_⟩
  · have hdelay : ∀ m, (trace s₀ (m + 1 + 1)).top.regWriteEvent = (slots s₀ m).regEvent :=
      fun m => (lockstep s₀ m).regEvent
    have hreg1 : (trace s₀ (0 + 1)).top.regWriteEvent = none := by
      rw [(lockstep s₀ 0).mem]
      rfl
    rw [regTrace, events_delay hreg0 (fun _ => rfl), events_delay hreg1 hdelay]
    exact events_eq_count (fun m hm hs => (hstep m hm hs).1) fun m hm hs => (hempty m hm hs).1
  · rw [memTrace, events_delay hmem0 fun m => (lockstep s₀ m).memEvent]
    exact events_eq_count (fun m hm hs => (hstep m hm hs).2) fun m hm hs => (hempty m hm hs).2
  · rw [(lockstep s₀ n).regs_succ, (hfollows n le_rfl).regs]
  · rw [(lockstep s₀ n).array_succ, (hfollows n le_rfl).mem]
  · rw [(lockstep s₀ n).pc, (hfollows n le_rfl).pc]

/-- In every run of orderly slots the core does what the sequential machine does, instruction
by instruction: the same register writes, the same memory writes, the same arrays, the same
continuation. -/
theorem orderly_run_refines_isa (s₀ : Top) (n : ℕ) (h : ∀ m < n, (slots s₀ m).Orderly) :
    regTrace s₀ (n + 2) = (isaStart s₀).regTrace (exIndex s₀ n) ∧
    memTrace s₀ (n + 1) = (isaStart s₀).memTrace (exIndex s₀ n) ∧
    (trace s₀ (n + 2)).top.regs = (isaAt s₀ (exIndex s₀ n)).regs ∧
    (trace s₀ (n + 1)).top.mem = (isaAt s₀ (exIndex s₀ n)).mem ∧
    (trace s₀ n).next = (isaAt s₀ (exIndex s₀ n)).pc :=
  refines_of_orderly h

/-- `addi x1,x0,5; sb x1,0x400(x0); lbu x2,0x400(x0); add x3,x2,x1; jal x0,-16`. -/
theorem orderly_run_refines_isa_loop :
    regTrace (load [0x00500093#32, 0x40100023#32, 0x40004103#32, 0x001101b3#32,
        0xff1ff06f#32]) 14 =
      (isaStart (load [0x00500093#32, 0x40100023#32, 0x40004103#32, 0x001101b3#32,
        0xff1ff06f#32])).regTrace (exIndex (load [0x00500093#32, 0x40100023#32, 0x40004103#32,
          0x001101b3#32, 0xff1ff06f#32]) 12) :=
  (orderly_run_refines_isa (load [0x00500093#32, 0x40100023#32, 0x40004103#32, 0x001101b3#32,
    0xff1ff06f#32]) 12 (by decide +kernel)).1

end Rv32iRtl
