import Mathlib

/-! Words of four bytes, and the byte view of an array of such words. -/
namespace ByteLanes

/-- Byte `k` of a word is bits `8k+7 .. 8k`. -/
def lane (w : BitVec 32) (k : BitVec 2) : BitVec 8 := w.extractLsb' (8 * k.toNat) 8

def ofLanes (b : BitVec 2 → BitVec 8) : BitVec 32 := b 3#2 ++ b 2#2 ++ b 1#2 ++ b 0#2

lemma cases_lane (k : BitVec 2) : k = 0#2 ∨ k = 1#2 ∨ k = 2#2 ∨ k = 3#2 := by
  revert k
  decide

lemma forall_lane {P : BitVec 2 → Prop} : (∀ k, P k) ↔ P 0#2 ∧ P 1#2 ∧ P 2#2 ∧ P 3#2 := by
  constructor
  · exact fun h => ⟨h _, h _, h _, h _⟩
  · rintro ⟨h0, h1, h2, h3⟩ k
    rcases cases_lane k with rfl | rfl | rfl | rfl <;> assumption

@[simp] lemma lane_ofLanes (b : BitVec 2 → BitVec 8) (k : BitVec 2) : lane (ofLanes b) k = b k := by
  rcases cases_lane k with rfl | rfl | rfl | rfl <;> simp only [lane, ofLanes] <;> grind

lemma ofLanes_lane (w : BitVec 32) : ofLanes (lane w) = w := by
  simp only [lane, ofLanes]
  grind

lemma lane_inj {v w : BitVec 32} : v = w ↔ ∀ k, lane v k = lane w k := by
  refine ⟨fun h k => h ▸ rfl, fun h => ?_⟩
  rw [← ofLanes_lane v, ← ofLanes_lane w, funext h]

lemma signExtend_inj {n m : ℕ} (h : n ≤ m) {x y : BitVec n} :
    x.signExtend m = y.signExtend m ↔ x = y := by
  refine ⟨fun he => BitVec.eq_of_toInt_eq ?_, fun he => he ▸ rfl⟩
  rw [← BitVec.toInt_signExtend_of_le h, he, BitVec.toInt_signExtend_of_le h]

lemma setWidth_inj {n m : ℕ} (h : n ≤ m) {x y : BitVec n} :
    x.setWidth m = y.setWidth m ↔ x = y := by
  refine ⟨fun he => BitVec.eq_of_toNat_eq ?_, fun he => he ▸ rfl⟩
  rw [← BitVec.toNat_setWidth_of_le h, he, BitVec.toNat_setWidth_of_le h]

lemma append_inj {n m : ℕ} {x x' : BitVec n} {y y' : BitVec m} :
    x ++ y = x' ++ y' ↔ x = x' ∧ y = y' := by
  constructor
  · intro h
    have hy := congrArg (BitVec.extractLsb' 0 m) h
    rw [BitVec.extractLsb'_append_eq_right, BitVec.extractLsb'_append_eq_right] at hy
    subst hy
    exact ⟨(BitVec.append_left_inj y).mp h, rfl⟩
  · rintro ⟨rfl, rfl⟩
    rfl

variable {n : ℕ}

def index (a : BitVec (n + 2)) : BitVec n := a.extractLsb' 2 n
def offset (a : BitVec (n + 2)) : BitVec 2 := a.extractLsb' 0 2

def byteAt (mem : BitVec n → BitVec 32) (a : BitVec (n + 2)) : BitVec 8 :=
  lane (mem (index a)) (offset a)

lemma pow_add_two (n : ℕ) : 2 ^ (n + 2) = 4 * 2 ^ n := by rw [Nat.pow_add, Nat.mul_comm]

lemma index_toNat (a : BitVec (n + 2)) : (index a).toNat = a.toNat / 4 := by
  have h := a.isLt
  rw [index, BitVec.extractLsb'_toNat, Nat.shiftRight_eq_div_pow, Nat.mod_eq_of_lt]
  rw [pow_add_two] at h
  omega

lemma offset_toNat (a : BitVec (n + 2)) : (offset a).toNat = a.toNat % 4 := by
  rw [offset, BitVec.extractLsb'_toNat, Nat.shiftRight_zero]

lemma byteAt_inj {mem mem' : BitVec n → BitVec 32} :
    mem = mem' ↔ ∀ a, byteAt mem a = byteAt mem' a := by
  refine ⟨fun h a => h ▸ rfl, fun h => funext fun i => lane_inj.mpr fun k => ?_⟩
  have hi : index (i ++ k) = i := by unfold index; grind
  have hk : offset (i ++ k) = k := by unfold offset; grind
  have := h (i ++ k)
  rwa [byteAt, byteAt, hi, hk] at this

lemma toNat_sub_eq (a b : BitVec (n + 2)) : (b - a).toNat =
    if a.toNat ≤ b.toNat then b.toNat - a.toNat else 4 * 2 ^ n + b.toNat - a.toNat := by
  have ha := a.isLt
  have hb := b.isLt
  have hn := pow_add_two n
  rw [BitVec.toNat_sub, hn]
  rw [hn] at ha hb
  split
  · rw [Nat.mod_eq_sub_mod (by omega), Nat.mod_eq_of_lt] <;> omega
  · rw [Nat.mod_eq_of_lt] <;> omega

/-- Within an access of `size` bytes that does not cross a word, byte addresses
differ by less than `size` exactly in the same word, and then as their offsets do. -/
lemma sub_lt_iff {a b : BitVec (n + 2)} {size : ℕ} (h : (offset a).toNat + size ≤ 4) :
    (b - a).toNat < size ↔ index b = index a ∧ (offset b - offset a).toNat < size := by
  have ha := a.isLt
  have hb := b.isLt
  have hn := pow_add_two n
  rw [toNat_sub_eq, ← BitVec.toNat_inj, index_toNat, index_toNat, BitVec.toNat_sub]
  rw [offset_toNat] at *
  rw [offset_toNat]
  rw [hn] at ha hb
  split_ifs <;> omega

lemma offset_sub (a b : BitVec (n + 2)) : offset (b - a) = offset b - offset a := by
  have ha := a.isLt
  have hb := b.isLt
  have hn := pow_add_two n
  rw [← BitVec.toNat_inj, offset_toNat, toNat_sub_eq, BitVec.toNat_sub, offset_toNat, offset_toNat]
  rw [hn] at ha hb
  split_ifs <;> omega

lemma byteAt_add (mem : BitVec n → BitVec 32) {a : BitVec (n + 2)} {i : ℕ}
    (h : (offset a).toNat + i < 4) :
    byteAt mem (a + BitVec.ofNat _ i) = lane (mem (index a)) (offset a + BitVec.ofNat 2 i) := by
  have ha := a.isLt
  have hn := pow_add_two n
  rw [hn] at ha
  rw [offset_toNat] at h
  have hi : (a + BitVec.ofNat (n + 2) i).toNat = a.toNat + i := by
    rw [BitVec.toNat_add, BitVec.toNat_ofNat, hn, Nat.add_mod_mod, Nat.mod_eq_of_lt]
    omega
  have hx : index (a + BitVec.ofNat (n + 2) i) = index a := by
    rw [← BitVec.toNat_inj, index_toNat, index_toNat, hi]
    omega
  have ho : offset (a + BitVec.ofNat (n + 2) i) = offset a + BitVec.ofNat 2 i := by
    rw [← BitVec.toNat_inj, BitVec.toNat_add, offset_toNat, offset_toNat, hi, BitVec.toNat_ofNat]
    omega
  rw [byteAt, hx, ho]

/-- `mem'` is `mem` with the lowest `size` bytes of `data` at `a, a + 1, ..`, in
little-endian order, and nothing else changed. -/
def StoresBytes (mem mem' : BitVec n → BitVec 32) (a : BitVec (n + 2)) (size : ℕ)
    (data : BitVec 32) : Prop :=
  ∀ b, byteAt mem' b =
    if (b - a).toNat < size then lane data (offset (b - a)) else byteAt mem b

/-- The word that replaces `old` when `size` bytes are stored at the given offset. -/
def storeLanes (old data : BitVec 32) (off : BitVec 2) (size : ℕ) : BitVec 32 :=
  ofLanes fun k => if (k - off).toNat < size then lane data (k - off) else lane old k

/-- A store within one word is one update of the array. -/
theorem storesBytes_iff {mem mem' : BitVec n → BitVec 32} {a : BitVec (n + 2)} {size : ℕ}
    {data : BitVec 32} (h : (offset a).toNat + size ≤ 4) :
    StoresBytes mem mem' a size data ↔
      mem' = Function.update mem (index a)
        (storeLanes (mem (index a)) data (offset a) size) := by
  have hb : ∀ b, (if (b - a).toNat < size then lane data (offset (b - a)) else byteAt mem b) =
      byteAt (Function.update mem (index a)
        (storeLanes (mem (index a)) data (offset a) size)) b := by
    intro b
    rw [offset_sub]
    simp only [byteAt, sub_lt_iff h]
    by_cases hi : index b = index a
    · simp [hi, storeLanes]
    · simp [hi]
  rw [byteAt_inj]
  simp only [StoresBytes, hb]

end ByteLanes
