import Rv32iRtl.IsaMachine
import Rv32iRtl.Trace

/-! Loads and stores of the MEM stage against the byte view of the memory array.
The byte enables follow the address, but store data and load data stay in the
lowest lanes; the results say for which accesses this makes no difference. -/
namespace Rv32iRtl

open Isa ByteLanes

def byteIndex (address : Word) : BitVec 18 := address.extractLsb 17 0

def Aligned (size : ℕ) (address : Word) : Prop := address.toNat % size = 0

instance (size : ℕ) (address : Word) : Decidable (Aligned size address) :=
  inferInstanceAs (Decidable (_ = _))

lemma index_byteIndex (a : Word) : index (byteIndex a) = wordIndex a := by
  unfold index byteIndex wordIndex
  grind

lemma offset_byteIndex (a : Word) : (offset (byteIndex a)) = a.extractLsb 1 0 := by
  unfold offset byteIndex
  grind

lemma LoadOp.size_cases (o : LoadOp) : o.size = 1 ∨ o.size = 2 ∨ o.size = 4 := by
  cases o <;> decide

lemma StoreOp.size_cases (o : StoreOp) : o.size = 1 ∨ o.size = 2 ∨ o.size = 4 := by
  cases o <;> decide

lemma Aligned.offset_add_le {size : ℕ} {a : Word} (h : Aligned size a)
    (hs : size = 1 ∨ size = 2 ∨ size = 4) : (offset (byteIndex a)).toNat + size ≤ 4 := by
  have ha : (byteIndex a).toNat = a.toNat % 2 ^ 18 := by simp [byteIndex]
  unfold Aligned at h
  rw [offset_toNat, ha]
  rcases hs with rfl | rfl | rfl <;> omega

lemma lane_writeLanes (be : BitVec 4) (old new : Word) (k : BitVec 2) :
    lane (writeLanes be old new) k = if be.getLsbD k.toNat then lane new k else lane old k := by
  have h : writeLanes be old new =
      ofLanes fun k => if be.getLsbD k.toNat then lane new k else lane old k := rfl
  rw [h, lane_ofLanes]

lemma lane_memWdata (o : StoreOp) (data : Word) (k : BitVec 2) :
    lane (Lsu.memWdata o.funct3 data) k = if k.toNat < o.size then lane data k else 0#8 := by
  cases o <;> rcases cases_lane k with rfl | rfl | rfl | rfl <;>
    simp [Lsu.memWdata, StoreOp.funct3, StoreOp.size, lane] <;> grind

lemma Aligned.offset_mod {size : ℕ} {a : Word} (h : Aligned size a)
    (hs : size = 1 ∨ size = 2 ∨ size = 4) : (a.extractLsb 1 0).toNat % size = 0 := by
  have ho : (a.extractLsb 1 0).toNat = a.toNat % 4 := by simp [BitVec.extractLsb_toNat]
  unfold Aligned at h
  rw [ho]
  rcases hs with rfl | rfl | rfl <;> omega

lemma memBe_lane (o : StoreOp) {a : Word} (h : Aligned o.size a) (k : BitVec 2) :
    (Lsu.memBe o.funct3 a).getLsbD k.toNat = true ↔ (k - a.extractLsb 1 0).toNat < o.size := by
  have hoff : (a.extractLsb 1 0).toNat % o.size = 0 := h.offset_mod (StoreOp.size_cases o)
  have hbit : a.getLsbD 1 = (a.extractLsb 1 0).getLsbD 1 := by grind
  unfold Lsu.memBe
  rw [hbit]
  generalize a.extractLsb 1 0 = off at hoff
  revert k off
  cases o <;> decide

lemma rdata_eq_value (o : LoadOp) (w : Word) :
    Lsu.rdata o.funct3 w = o.value fun i => lane w (BitVec.ofNat 2 i) := by
  have hb : BitVec.replicate 24 (w.extractLsb 7 7) ++ w.extractLsb 7 0 =
      (lane w 0#2).signExtend 32 := by
    unfold lane
    grind
  have hh : BitVec.replicate 16 (w.extractLsb 15 15) ++ w.extractLsb 15 0 =
      (lane w 1#2 ++ lane w 0#2).signExtend 32 := by
    unfold lane
    grind
  have hbu : 0#24 ++ w.extractLsb 7 0 = (lane w 0#2).setWidth 32 := by
    unfold lane
    grind
  have hhu : 0#16 ++ w.extractLsb 15 0 = (lane w 1#2 ++ lane w 0#2).setWidth 32 := by
    unfold lane
    grind
  cases o with
  | lb => exact hb
  | lh => exact hh
  | lw => exact (ofLanes_lane w).symm
  | lbu => exact hbu
  | lhu => exact hhu

lemma LoadOp.value_inj (o : LoadOp) (b c : ℕ → BitVec 8) :
    o.value b = o.value c ↔ ∀ i < o.size, b i = c i := by
  have h2 : (∀ i < 2, b i = c i) ↔ b 1 = c 1 ∧ b 0 = c 0 := by
    simp only [Nat.forall_lt_succ_right]
    simp [and_comm]
  cases o with
  | lb => simp [LoadOp.value, LoadOp.size, signExtend_inj]
  | lbu => simp [LoadOp.value, LoadOp.size, setWidth_inj]
  | lh =>
    rw [LoadOp.value, LoadOp.value, signExtend_inj (by omega), append_inj]
    exact h2.symm
  | lhu =>
    rw [LoadOp.value, LoadOp.value, setWidth_inj (by omega), append_inj]
    exact h2.symm
  | lw =>
    apply append_inj.trans
    rw [append_inj, append_inj]
    simp only [LoadOp.size, Nat.forall_lt_succ_right]
    simp
    tauto

namespace Top

variable {s : Top}

lemma nextMem_store {o : StoreOp} (hw : s.exMem.memWrite = true)
    (hf : s.exMem.funct3 = o.funct3) :
    s.nextMem = Function.update s.mem (wordIndex s.exMem.aluResult)
      (writeLanes (Lsu.memBe o.funct3 s.exMem.aluResult) (s.mem (wordIndex s.exMem.aluResult))
        (Lsu.memWdata o.funct3 s.exMem.rs2Data)) := by
  simp only [nextMem, hw, if_true, lsuOut, lsu, hf, wordIndex_memAddr]

lemma loadData_load {o : LoadOp} (hf : s.exMem.funct3 = o.funct3) :
    s.loadData = o.value fun i => lane (s.mem (wordIndex s.exMem.aluResult)) (BitVec.ofNat 2 i) := by
  rw [← rdata_eq_value, loadData, lsuOut, lsu, hf, rawMemRdata, wordIndex_memAddr]

end Top

/-- The written word is right exactly when the data lanes need no shift. -/
lemma storeLanes_eq_iff (o : StoreOp) {a : Word} (h : Aligned o.size a) (old data : Word) :
    writeLanes (Lsu.memBe o.funct3 a) old (Lsu.memWdata o.funct3 data) =
      storeLanes old data (a.extractLsb 1 0) o.size ↔
    a.extractLsb 1 0 = 0b00#2 ∨ ∀ k : BitVec 2, k.toNat < o.size → lane data k = 0#8 := by
  have hl : (∀ k, lane (writeLanes (Lsu.memBe o.funct3 a) old (Lsu.memWdata o.funct3 data)) k =
        lane (storeLanes old data (a.extractLsb 1 0) o.size) k) ↔
      ∀ k : BitVec 2, (k - a.extractLsb 1 0).toNat < o.size →
        (if k.toNat < o.size then lane data k else 0#8) = lane data (k - a.extractLsb 1 0) := by
    refine forall_congr' fun k => ?_
    rw [lane_writeLanes, storeLanes, lane_ofLanes, lane_memWdata]
    simp only [memBe_lane o h]
    split_ifs <;> simp_all
  have hoff : (a.extractLsb 1 0).toNat % o.size = 0 := h.offset_mod (StoreOp.size_cases o)
  rw [lane_inj, hl]
  generalize a.extractLsb 1 0 = off at hoff
  generalize lane data = f
  simp only [forall_lane]
  cases o <;> rcases cases_lane off with rfl | rfl | rfl | rfl <;>
    simp [StoreOp.size, @eq_comm _ 0#8] at hoff ⊢

/-- An aligned store writes the bytes of its operand, and no others, exactly when it
starts at lane 0 or the bytes to be stored are all zero. -/
theorem store_little_endian_iff (s : Top) (rst : Bool) (o : StoreOp)
    (hw : s.exMem.memWrite = true) (hf : s.exMem.funct3 = o.funct3)
    (ha : Aligned o.size s.exMem.aluResult) :
    StoresBytes s.mem (s.step rst).mem (byteIndex s.exMem.aluResult) o.size s.exMem.rs2Data ↔
      s.exMem.aluResult.extractLsb 1 0 = 0b00#2 ∨
        ∀ k : BitVec 2, k.toNat < o.size → lane s.exMem.rs2Data k = 0#8 := by
  have hle := ha.offset_add_le (StoreOp.size_cases o)
  rw [storesBytes_iff hle, index_byteIndex, offset_byteIndex, Top.step_mem,
    Top.nextMem_store hw hf]
  rw [← storeLanes_eq_iff o ha (s.mem (wordIndex s.exMem.aluResult))]
  constructor
  · intro h
    simpa using congrFun h (wordIndex s.exMem.aluResult)
  · intro h
    rw [h]

/-- `addi x1,x0,0x5a; sb x1,0x400(x0)` with the store in MEM. -/
theorem store_little_endian_iff_sb :
    StoresBytes (trace (load [0x05a00093#32, 0x40100023#32]) 4).top.mem
      ((trace (load [0x05a00093#32, 0x40100023#32]) 4).top.step false).mem
      (byteIndex (trace (load [0x05a00093#32, 0x40100023#32]) 4).top.exMem.aluResult) 1
      (trace (load [0x05a00093#32, 0x40100023#32]) 4).top.exMem.rs2Data :=
  (store_little_endian_iff _ false .sb (by decide +kernel) (by decide +kernel)
    (by decide +kernel)).mpr (Or.inl (by decide +kernel))

/-- `sb x1,0x401(x0)` leaves zero instead of `0x5a` in byte `0x401`. -/
theorem store_little_endian_fails :
    ¬ ∀ (s : Top) (rst : Bool) (o : StoreOp), s.exMem.memWrite = true →
      s.exMem.funct3 = o.funct3 → Aligned o.size s.exMem.aluResult →
      StoresBytes s.mem (s.step rst).mem (byteIndex s.exMem.aluResult) o.size
        s.exMem.rs2Data := by
  intro h
  have := h (trace (load [0x05a00093#32, 0x401000a3#32]) 4).top false .sb (by decide +kernel)
    (by decide +kernel) (by decide +kernel) 0x401#18
  revert this
  decide +kernel

/-- An aligned load delivers the addressed bytes, extended, exactly when it starts at
lane 0 or these bytes equal the lowest bytes of the addressed word. -/
theorem load_little_endian_iff (s : Top) (o : LoadOp) (hf : s.exMem.funct3 = o.funct3)
    (ha : Aligned o.size s.exMem.aluResult) :
    s.loadData =
        o.value (fun i => byteAt s.mem (byteIndex s.exMem.aluResult + BitVec.ofNat 18 i)) ↔
      s.exMem.aluResult.extractLsb 1 0 = 0b00#2 ∨
        ∀ i < o.size, byteAt s.mem (byteIndex s.exMem.aluResult + BitVec.ofNat 18 i) =
          lane (s.mem (wordIndex s.exMem.aluResult)) (BitVec.ofNat 2 i) := by
  have hle := ha.offset_add_le (LoadOp.size_cases o)
  have h0 : s.exMem.aluResult.extractLsb 1 0 = 0b00#2 →
      ∀ i < o.size, byteAt s.mem (byteIndex s.exMem.aluResult + BitVec.ofNat 18 i) =
        lane (s.mem (wordIndex s.exMem.aluResult)) (BitVec.ofNat 2 i) := by
    intro hz i hi
    rw [byteAt_add _ (by omega), index_byteIndex, offset_byteIndex, hz, BitVec.zero_add]
  rw [Top.loadData_load hf, LoadOp.value_inj, or_iff_right_of_imp h0]
  exact forall₂_congr fun _ _ => eq_comm

/-- `lw x1,0(x0)` with the load in MEM reads its own word back. -/
theorem load_little_endian_iff_lw :
    (trace (load [0x00002083#32]) 3).top.loadData =
      LoadOp.lw.value fun i => byteAt (trace (load [0x00002083#32]) 3).top.mem
        (byteIndex (trace (load [0x00002083#32]) 3).top.exMem.aluResult + BitVec.ofNat 18 i) :=
  (load_little_endian_iff (trace (load [0x00002083#32]) 3).top .lw (by decide +kernel)
    (by decide +kernel)).mpr (Or.inl (by decide +kernel))

/-- `lb x1,1(x0)` gets the extended byte `0x83` at address 0, not the zero at 1. -/
theorem load_little_endian_fails :
    ¬ ∀ (s : Top) (o : LoadOp), s.exMem.funct3 = o.funct3 → Aligned o.size s.exMem.aluResult →
      s.loadData =
        o.value fun i => byteAt s.mem (byteIndex s.exMem.aluResult + BitVec.ofNat 18 i) := by
  intro h
  have := h (trace (load [0x00100083#32]) 3).top .lb (by decide +kernel) (by decide +kernel)
  revert this
  decide +kernel

end Rv32iRtl
