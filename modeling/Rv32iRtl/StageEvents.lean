import Rv32iRtl.DecodeExecute
import Rv32iRtl.MemoryAccess
import Rv32iRtl.Forwarding

/-! One instruction of the sequential machine seen from the pipeline stages: when its
operands are right in EX, its result, its memory write and its register write are
those of the sequential machine. -/
namespace Rv32iRtl

open Isa ByteLanes EventTrace

/-- The classes without jumps and sub-word accesses. -/
def Isa.Instr.basic : Instr → Bool
  | op .. | opImm .. | shiftImm .. | lui .. | auipc .. | branch .. => true
  | load o _ _ _ => o = .lw
  | store o _ _ _ => o = .sw
  | miscMem o _ _ _ => o = .fence
  | jal .. | jalr .. => false

namespace Isa.State

variable {τ : State} {i : Instr} {pc a b : Word}

lemma result_congr (ha : ∀ r, i.src1 = some r → a = τ.reg r)
    (hb : ∀ r, i.src2 = some r → b = τ.reg r) :
    i.result pc a b = i.result pc (τ.x1 i) (τ.x2 i) := by
  cases i <;> simp_all [Instr.result, Instr.src1, Instr.src2, x1, x2, operand]

lemma redirect_congr (ha : ∀ r, i.src1 = some r → a = τ.reg r)
    (hb : ∀ r, i.src2 = some r → b = τ.reg r) :
    i.redirect pc a b = i.redirect pc (τ.x1 i) (τ.x2 i) := by
  cases i with
  | branch o rs1 rs2 imm =>
    rw [ha rs1 rfl, hb rs2 rfl]
    rfl
  | jalr rd rs1 imm =>
    rw [ha rs1 rfl]
    rfl
  | _ => rfl

lemma address_congr (ha : ∀ r, i.src1 = some r → a = τ.reg r) :
    i.address a = i.address (τ.x1 i) := by
  cases i <;> simp_all [Instr.address, Instr.src1, x1, operand]

lemma step_of_fetch (h : τ.fetch = some i) : τ.step = τ.exec i := by
  simp [step, h]

lemma step_regs (τ : State) : τ.step.regs = applyWrite τ.regs τ.regEvent := by
  unfold step regEvent
  cases τ.fetch <;> rfl

lemma step_mem (τ : State) : τ.step.mem = applyWrite τ.mem τ.memEvent := by
  unfold step memEvent
  cases τ.fetch <;> rfl

end Isa.State

/-- EX/MEM holds the values of instruction `i`, executed in state `τ`. -/
structure Top.InMem (s : Top) (τ : State) (i : Instr) : Prop where
  carries : s.exMem.Carries (encode i)
  result : ∀ v, i.result τ.pc (τ.x1 i) (τ.x2 i) = some v → s.exMem.aluResult = v
  address : ∀ a, i.address (τ.x1 i) = some a → s.exMem.aluResult = a
  storeData : ∀ o, i.stores = some o → s.exMem.rs2Data = τ.x2 i

lemma laneOffset_word (a : Word) : laneOffset 4 a = 0#2 := by
  have h : a.toNat % 4 / 4 * 4 = 0 := by omega
  rw [laneOffset, h]

lemma storeLanes_word (old data : Word) : storeLanes old data 0#2 4 = data := by
  rw [← ofLanes_lane data, storeLanes]
  congr 1
  funext k
  have hk := (k - 0#2).isLt
  simp only [BitVec.sub_zero] at hk ⊢
  rw [if_pos (by omega), ofLanes_lane]

lemma writeLanes_word (a old data : Word) :
    writeLanes (Lsu.memBe StoreOp.sw.funct3 a) old (Lsu.memWdata StoreOp.sw.funct3 data) =
      data := by
  have hbe : Lsu.memBe StoreOp.sw.funct3 a = 0b1111#4 := rfl
  rw [lane_inj, hbe]
  intro k
  rw [lane_writeLanes, lane_memWdata]
  rcases cases_lane k with rfl | rfl | rfl | rfl <;> simp [StoreOp.size]

namespace Top

variable {s : Top} {τ : State} {i : Instr}

lemma InMem.control (h : s.InMem τ i) : s.exMem.memWrite = i.control.memWrite ∧
    s.exMem.regWrite = i.control.regWrite ∧ s.exMem.wbSel = i.control.wbSel := by
  rw [← Decoder.control_encode i]
  exact ⟨h.carries.memWrite, h.carries.regWrite, h.carries.wbSel⟩

lemma InMem.memWriteEvent_eq (h : s.InMem τ i) (hb : i.basic = true) :
    s.memWriteEvent = τ.memWrite i := by
  obtain ⟨hw, -, -⟩ := h.control
  cases i with
  | store o rs1 rs2 imm =>
    obtain rfl : o = .sw := by simpa [Instr.basic] using hb
    have hf : s.exMem.funct3 = StoreOp.sw.funct3 :=
      h.carries.funct3.trans (Decoder.store_funct3 .sw rs1 rs2 imm)
    have ha := h.address _ rfl
    have hd := h.storeData _ rfl
    have hon : s.exMem.memWrite = true := hw
    rw [memWriteEvent, if_pos hon]
    simp only [lsuOut, lsu, hf, wordIndex_memAddr, writeLanes_word, State.memWrite,
      Instr.stores, Instr.address, StoreOp.size, laneOffset_word, storeLanes_word, ha, hd]
  | _ =>
    have hn : s.exMem.memWrite = false := hw
    simp [memWriteEvent, hn, State.memWrite, Instr.stores]

lemma InMem.wdata_result (h : s.InMem τ i) {v : Word}
    (hv : i.result τ.pc (τ.x1 i) (τ.x2 i) = some v) : (s.step false).regfileWdata = v := by
  have hsel : s.exMem.wbSel = 0b00#2 := by
    rw [h.control.2.2]
    cases i <;> simp_all [Instr.result, Instr.control]
  rw [regfileWdata_step_of_alu hsel, h.result v hv]

lemma InMem.wdata_lw {rd rs1 : RegAddr} {imm : BitVec 12}
    (h : s.InMem τ (.load .lw rd rs1 imm)) (hm : s.mem = τ.mem) :
    (s.step false).regfileWdata = τ.value (.load .lw rd rs1 imm) := by
  have hsel : s.exMem.wbSel = 0b01#2 := h.control.2.2
  have hf : s.exMem.funct3 = LoadOp.lw.funct3 :=
    h.carries.funct3.trans (Decoder.load_funct3 .lw rd rs1 imm)
  have hd : (s.step false).regfileWdata = s.loadData := by
    simp [regfileWdata, memPorts, hsel]
  rw [hd, loadData_load hf, h.address _ rfl, hm]
  simp [State.value, Instr.loads, Instr.address, LoadOp.size, laneOffset_word]

lemma InMem.wdata (h : s.InMem τ i) (hb : i.basic = true) (hm : s.mem = τ.mem)
    (hd : i.dest.isSome = true) : (s.step false).regfileWdata = τ.value i := by
  cases i with
  | op | opImm | shiftImm | lui | auipc => exact h.wdata_result rfl
  | load o rd rs1 imm =>
    obtain rfl : o = .lw := by simpa [Instr.basic] using hb
    exact h.wdata_lw hm
  | store | branch | miscMem => simp [Instr.dest] at hd
  | jal | jalr => simp [Instr.basic] at hb

lemma InMem.regWriteEvent_eq (h : s.InMem τ i) (hb : i.basic = true) (hm : s.mem = τ.mem) :
    (s.step false).regWriteEvent = τ.regWrite i := by
  have hw : (s.step false).memWb.regWrite = i.dest.isSome := by
    rw [step_memWb, memPorts, h.control.2.1]
    cases i <;> rfl
  cases hd : i.dest with
  | none =>
    rw [hd] at hw
    simp only [regWriteEvent, State.regWrite, hw, hd]
    rfl
  | some rd =>
    have hrd : (s.step false).memWb.rdAddr = rd :=
      h.carries.rdAddr.trans (Decoder.dest_encode hd)
    have hv := h.wdata hb hm (by simp [hd])
    rw [regWriteEvent, hw, hrd, hv]
    simp [State.regWrite, hd]

def exWrites (s : Top) (r : RegAddr) : Prop := s.idEx.regWrite = true ∧ s.idEx.rdAddr = r

def memWrites (s : Top) (r : RegAddr) : Prop := s.exMem.regWrite = true ∧ s.exMem.rdAddr = r

def wbWrites (s : Top) (r : RegAddr) : Prop := s.memWb.regWrite = true ∧ s.memWb.rdAddr = r

instance (s : Top) (r : RegAddr) : Decidable (s.exWrites r) := inferInstanceAs (Decidable (_ ∧ _))

instance (s : Top) (r : RegAddr) : Decidable (s.memWrites r) := inferInstanceAs (Decidable (_ ∧ _))

instance (s : Top) (r : RegAddr) : Decidable (s.wbWrites r) := inferInstanceAs (Decidable (_ ∧ _))

lemma applyWrite_regWriteEvent (s : Top) (f : RegAddr → Word) (r : RegAddr) :
    applyWrite f s.regWriteEvent r =
      if s.wbWrites r ∧ r ≠ 0#5 then s.regfileWdata else f r := by
  unfold regWriteEvent wbWrites
  by_cases hw : s.memWb.regWrite = true ∧ s.memWb.rdAddr ≠ 0#5
  · by_cases hr : s.memWb.rdAddr = r
    · simp [hw.1, hw.2, ← hr, applyWrite]
    · have hne : r ≠ s.memWb.rdAddr := fun h => hr h.symm
      simp [hw.1, hw.2, hr, applyWrite, Function.update_of_ne hne]
  · have hc : (s.memWb.regWrite && s.memWb.rdAddr != 0#5) = false := by simpa using hw
    have hn : ¬((s.memWb.regWrite = true ∧ s.memWb.rdAddr = r) ∧ r ≠ 0#5) := by
      rintro ⟨⟨h1, rfl⟩, h2⟩
      exact hw ⟨h1, h2⟩
    rw [hc, if_neg hn]
    rfl

/-- A newer value of `r` than the one read in ID is on a forwarding path. -/
def Bypassed (s : Top) (r : RegAddr) : Prop := r ≠ 0#5 ∧ (s.memWrites r ∨ s.wbWrites r)

/-- ID/EX holds instruction `i`, to be executed in state `τ`, and register data that is
current unless it is bypassed. -/
structure InEx (s : Top) (τ : State) (i : Instr) : Prop where
  carries : s.idEx.Carries (encode i)
  pc : s.idEx.pc = τ.pc
  zero : s.idEx.rs1Addr = 0#5 → s.idEx.rs1Data = 0#32
  fresh1 : ∀ r, i.src1 = some r → ¬s.Bypassed r → s.idEx.rs1Data = τ.reg r
  fresh2 : ∀ r, i.src2 = some r → ¬s.Bypassed r → s.idEx.rs2Data = τ.reg r

structure Operands (s : Top) (τ : State) (i : Instr) : Prop where
  x1 : ∀ r, i.src1 = some r → s.forwardAVal = τ.reg r
  x2 : ∀ r, i.src2 = some r → s.forwardBVal = τ.reg r

end Top

/-- `τ` is the state after the instructions in MEM and WB, so each register has the value
of its newest writer among them, or else the one in the register array. -/
lemma forwardVal_eq {t : Traced} (hg : Gaps t) (ha : t.top.idEx.active = true) {μ τ : State}
    (hμ : μ.regs = applyWrite t.top.regs t.top.regWriteEvent)
    (hτ : τ.regs = applyWrite μ.regs (t.top.step false).regWriteEvent) {r : RegAddr} {data : Word}
    (hr : r = t.top.idEx.rs1Addr ∨ r = t.top.idEx.rs2Addr)
    (hdata : ¬t.top.Bypassed r → data = τ.reg r) :
    t.top.forwardVal (HazardUnit.forward t.top.forwardIn r) data = τ.reg r := by
  by_cases hb : t.top.Bypassed r
  · obtain ⟨h0, hw⟩ := hb
    have hval : τ.reg r = if t.top.memWrites r then (t.top.step false).regfileWdata
        else t.top.regfileWdata := by
      have hm : (t.top.step false).wbWrites r ↔ t.top.memWrites r := Iff.rfl
      rw [State.reg, if_neg h0, hτ, Top.applyWrite_regWriteEvent, hμ,
        Top.applyWrite_regWriteEvent]
      by_cases h : t.top.memWrites r <;> simp_all
    rw [hval]
    by_cases hm : t.top.memWrites r
    · have hsel : HazardUnit.forward t.top.forwardIn r = 0b01#2 :=
        (HazardUnit.forward_exMem_iff _ _).mpr ⟨hm.1, hm.2, h0⟩
      rw [if_pos hm, hsel, Top.regfileWdata_step_of_alu (hg.forward_alu ha hr hsel).1]
      rfl
    · have hwb : t.top.wbWrites r := hw.resolve_left hm
      have hsel : HazardUnit.forward t.top.forwardIn r = 0b10#2 :=
        (HazardUnit.forward_memWb_iff _ _).mpr ⟨hwb.1, hwb.2, h0, hm⟩
      rw [if_neg hm, hsel]
      rfl
  · have h1 : HazardUnit.forward t.top.forwardIn r ≠ 0b01#2 := by
      intro h
      obtain ⟨hw, hrd, h0⟩ := (HazardUnit.forward_exMem_iff _ _).mp h
      exact hb ⟨h0, Or.inl ⟨hw, hrd⟩⟩
    have h2 : HazardUnit.forward t.top.forwardIn r ≠ 0b10#2 := by
      intro h
      obtain ⟨hw, hrd, h0, -⟩ := (HazardUnit.forward_memWb_iff _ _).mp h
      exact hb ⟨h0, Or.inr ⟨hw, hrd⟩⟩
    simp [Top.forwardVal, h1, h2, hdata hb]

namespace Top

variable {s : Top} {τ : State} {i : Instr}

lemma InEx.executes (h : s.InEx τ i) : Executes s i := Top.executes h.carries h.zero

lemma InEx.active (h : s.InEx τ i) (hs : i.src1.isSome = true ∨ i.src2.isSome = true) :
    s.idEx.active = true := by
  have hd := h.carries.driven
  simp only [IdEx.active, hd.regWrite, hd.memWrite, hd.branch, hd.jump]
  cases i <;> simp_all [Instr.control, Instr.src1, Instr.src2]

lemma InEx.inMem (h : s.InEx τ i) (ho : s.Operands τ i) : (s.step false).InMem τ i where
  carries := exPorts_carries h.carries
  result v hv := by
    rw [← State.result_congr ho.x1 ho.x2, ← h.pc] at hv
    exact (h.executes.result v hv).1
  address a ha := by
    rw [← State.address_congr ho.x1] at ha
    exact h.executes.address a ha
  storeData o hs := by
    cases i with
    | store o rs1 rs2 imm => exact ho.x2 rs2 rfl
    | _ => simp [Instr.stores] at hs

lemma InEx.next_pc (h : s.InEx τ i) (ho : s.Operands τ i) (hf : τ.fetch = some i) :
    (if s.branchTakenEx then s.branchTargetEx else τ.pc + 4#32) = τ.step.pc := by
  rw [State.step_of_fetch hf, State.exec, ← State.redirect_congr ho.x1 ho.x2, ← h.pc,
    ← h.executes.redirect]
  cases s.branchTakenEx <;> rfl

lemma InEx.keeps (h : s.InEx τ i) {r : RegAddr} (hr : ¬s.exWrites r) (f : RegAddr → Word) :
    applyWrite f (τ.regWrite i) r = f r := by
  have hd := h.executes.dest
  cases hi : i.dest with
  | none => simp [State.regWrite, hi, applyWrite]
  | some rd =>
    rw [hi] at hd
    have hne : r ≠ rd := by
      rintro rfl
      apply hr
      unfold exWrites
      split_ifs at hd with hw
      exact ⟨hw, Option.some.inj hd⟩
    unfold State.regWrite
    rw [hi]
    dsimp only
    split_ifs
    · rfl
    · exact Function.update_of_ne hne _ _

end Top

end Rv32iRtl
