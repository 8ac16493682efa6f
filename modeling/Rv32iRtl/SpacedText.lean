import Rv32iRtl.OrderlyRuns

/-! A rule for program texts under which the core is an RV32I processor: it bars the operands that the
register array would deliver stale, whatever path a run takes through the text. -/
namespace Rv32iRtl

open Isa EventTrace PendingWrites

/-- The first word loads a register that stands in a source field of the second. -/
def LoadUse (w w' : Word) : Prop :=
  (decoder w).memRead = true ∧ (decoder w).rd ≠ 0#5 ∧
    ((decoder w).rd = (decoder w').rs1 ∨ (decoder w).rd = (decoder w').rs2)

instance (w w' : Word) : Decidable (LoadUse w w') := inferInstanceAs (Decidable (_ ∧ _ ∧ _))

lemma waits_iff (m : SlotMachine) : m.waits = true ↔ LoadUse m.word m.retire.word := by
  simp only [SlotMachine.waits, LoadUse, SlotMachine.dec, Bool.and_eq_true, Bool.or_eq_true,
    bne_iff_ne, beq_iff_eq, and_assoc]

namespace Isa

/-- A register that the first instruction writes is read by the second. -/
def Instr.Feeds (p i : Instr) : Prop := ∃ r ∈ p.dest.toList, r ≠ 0#5 ∧ r ∈ i.reads

instance (p i : Instr) : Decidable (p.Feeds i) :=
  inferInstanceAs (Decidable (∃ r ∈ p.dest.toList, r ≠ 0#5 ∧ r ∈ i.reads))

/-- No instruction is fed by the third one before it in the text, nor, if the core waits for a
load on the way, by the second. -/
def Spaced (text : List Instr) : Prop :=
  (∀ j < text.length, ∀ p ∈ text[j]?, ∀ i ∈ text[j + 3]?, ¬p.Feeds i) ∧
    ∀ j < text.length, ∀ p ∈ text[j]?, ∀ q ∈ text[j + 1]?, ∀ i ∈ text[j + 2]?,
      LoadUse (encode p) (encode q) ∨ LoadUse (encode q) (encode i) → ¬p.Feeds i

instance (text : List Instr) : Decidable (Spaced text) := inferInstanceAs (Decidable (_ ∧ _))

/-- The next instruction is one of the text, plain, and does not store into the text. -/
def State.InText (text : List Instr) (τ : State) : Prop :=
  ∃ j < text.length, τ.pc = BitVec.ofNat 32 (4 * j) ∧
    ∃ i ∈ text[j]?, τ.Plain i ∧ (τ.memWrite i).all fun e => text.length ≤ e.1.toNat

instance (text : List Instr) (τ : State) : Decidable (τ.InText text) :=
  inferInstanceAs (Decidable (∃ j < text.length, _ ∧ ∃ i ∈ text[j]?, _ ∧ _))

end Isa

/-- The text lies at address zero. -/
def Loaded (text : List Instr) (mem : BitVec 16 → Word) : Prop :=
  ∀ j < text.length, ∀ i ∈ text[j]?, mem (BitVec.ofNat 16 j) = encode i

instance (text : List Instr) (mem : BitVec 16 → Word) : Decidable (Loaded text mem) :=
  inferInstanceAs (Decidable (∀ j < text.length, ∀ i ∈ text[j]?, _))

section Invariant

variable (text : List Instr)

/-- The write, if there is one, is that of the instruction `d` places before place `j`. -/
def WriteFrom (j d : ℕ) (e : Option (RegAddr × Word)) : Prop :=
  ∀ w ∈ e, d ≤ j ∧ w.1 ≠ 0#5 ∧ ∃ p ∈ text[j - d]?, w.1 ∈ p.dest

/-- The core waits for a load behind the instruction `d` places before place `j`. -/
def StallAt (j d : ℕ) : Prop :=
  d ≤ j ∧ ∀ p ∈ text[j - d]?, ∀ q ∈ text[j - d + 1]?, LoadUse (encode p) (encode q)

/-- Where the last three register writes come from, before place `j`. -/
def Recent (j bubbles : ℕ) (w : Window RegAddr Word) : Prop :=
  match bubbles with
  | 0 => WriteFrom text j 1 w.newest ∧
      (WriteFrom text j 2 w.middle ∨ WriteFrom text j 1 w.middle ∧ StallAt text j 1) ∧
      (WriteFrom text j 3 w.oldest ∨
        WriteFrom text j 2 w.oldest ∧ (StallAt text j 1 ∨ StallAt text j 2))
  | 1 => w.newest = none ∧ w.middle = none ∨
      StallAt text j 1 ∧ WriteFrom text j 1 w.newest ∧ WriteFrom text j 2 w.middle
  | _ => w.newest = none

/-- A store that leaves the text alone. -/
def OffText (e : Option (BitVec 16 × Word)) : Prop := ∀ w ∈ e, text.length ≤ w.1.toNat

structure TextIntact (w : Window (BitVec 16) Word) : Prop where
  settled : Loaded text w.settled
  oldest : OffText text w.oldest
  middle : OffText text w.middle
  newest : OffText text w.newest

def SlotMachine.place (m : SlotMachine) : ℕ := m.pc.toNat / 4

structure Scheduled (m : SlotMachine) : Prop where
  recent : Recent text m.place m.bubbles m.regs
  memory : TextIntact text m.mem
  held : ∀ w ∈ m.held, ∀ i ∈ text[m.place]?, w = encode i

variable {text}

lemma writeFrom_none {e : Option (RegAddr × Word)} (h : e = none) (j d : ℕ) :
    WriteFrom text j d e := by
  intro w hw
  rw [h] at hw
  contradiction

lemma WriteFrom.succ {j d : ℕ} {e : Option (RegAddr × Word)} (h : WriteFrom text j d e) :
    WriteFrom text (j + 1) (d + 1) e := by
  intro w hw
  obtain ⟨hle, h0, hp⟩ := h w hw
  rw [Nat.add_sub_add_right]
  exact ⟨Nat.succ_le_succ hle, h0, hp⟩

lemma StallAt.succ {j d : ℕ} (h : StallAt text j d) : StallAt text (j + 1) (d + 1) := by
  rw [StallAt, Nat.add_sub_add_right]
  exact ⟨Nat.succ_le_succ h.1, h.2⟩

/-- An empty slot moves the writes on. -/
lemma Recent.idle {j bubbles : ℕ} {w : Window RegAddr Word} (hb : bubbles ≠ 0)
    (h : Recent text j bubbles w) : Recent text j (bubbles - 1) (w.push none) := by
  cases bubbles with
  | zero => exact absurd rfl hb
  | succ b =>
    cases b with
    | zero =>
      rcases h with ⟨hnewest, hmiddle⟩ | ⟨hstall, hnewest, hmiddle⟩
      · exact ⟨writeFrom_none rfl j 1, Or.inl (writeFrom_none hnewest j 2),
          Or.inl (writeFrom_none hmiddle j 3)⟩
      · exact ⟨writeFrom_none rfl j 1, Or.inr ⟨hnewest, hstall⟩, Or.inr ⟨hmiddle, Or.inl hstall⟩⟩
    | succ b =>
      cases b with
      | zero => exact Or.inl ⟨rfl, h⟩
      | succ b => exact rfl

/-- An instruction that goes on to the next place, at once or after a load has been waited for. -/
lemma Recent.retire {j : ℕ} {w : Window RegAddr Word} (h : Recent text j 0 w)
    {e : Option (RegAddr × Word)} (he : WriteFrom text (j + 1) 1 e) :
    Recent text (j + 1) 0 (w.push e) ∧
      (StallAt text (j + 1) 1 → Recent text (j + 1) 1 (w.push e)) := by
  obtain ⟨hnewest, hmiddle, -⟩ := h
  refine ⟨⟨he, Or.inl hnewest.succ, ?_⟩, fun hstall => Or.inr ⟨hstall, he, hnewest.succ⟩⟩
  exact hmiddle.imp WriteFrom.succ fun ⟨hw, hstall⟩ => ⟨hw.succ, Or.inr hstall.succ⟩

/-- Under the rule no operand is stale. -/
lemma Recent.not_missed {j : ℕ} {w : Window RegAddr Word} (h : Recent text j 0 w)
    (hspaced : Spaced text) {i : Instr} (hi : i ∈ text[j]?) {r : RegAddr} (hr : r ∈ i.reads) :
    ¬w.Missed r := by
  rintro ⟨hold, -, -⟩
  obtain ⟨e, he, rfl⟩ := Option.map_eq_some_iff.mp hold
  have hlt : ∀ {k : ℕ} {p : Instr}, p ∈ text[k]? → k < text.length := fun hp =>
    (List.getElem?_eq_some_iff.mp hp).1
  rcases h.2.2 with hthree | ⟨htwo, hstall⟩
  · obtain ⟨hle, h0, p, hp, hdest⟩ := hthree e he
    have hj : j - 3 + 3 = j := by omega
    exact hspaced.1 (j - 3) (hlt hp) p hp i (hj.symm ▸ hi) ⟨e.1, Option.mem_toList.mpr hdest, h0, hr⟩
  · obtain ⟨hle, h0, p, hp, hdest⟩ := htwo e he
    have hj : j - 2 + 2 = j := by omega
    obtain ⟨q, hq⟩ : ∃ q, q ∈ text[j - 2 + 1]? :=
      ⟨_, List.getElem?_eq_getElem (by have := hlt hi; omega)⟩
    have hwait : LoadUse (encode p) (encode q) ∨ LoadUse (encode q) (encode i) := by
      rcases hstall with ⟨-, hstall⟩ | ⟨-, hstall⟩
      · have hj1 : j - 2 + 1 = j - 1 := by omega
        have hj2 : j - 1 + 1 = j := by omega
        exact Or.inr (hstall q (hj1 ▸ hq) i (hj2.symm ▸ hi))
      · exact Or.inl (hstall p hp q hq)
    exact hspaced.2 (j - 2) (hlt hp) p hp q hq i (hj.symm ▸ hi) hwait
      ⟨e.1, Option.mem_toList.mpr hdest, h0, hr⟩

section Memory

variable (hlen : text.length ≤ 2 ^ 16)

include hlen

lemma applyWrite_offText {e : Option (BitVec 16 × Word)} (he : OffText text e) {j : ℕ}
    (hj : j < text.length) (f : BitVec 16 → Word) :
    applyWrite f e (BitVec.ofNat 16 j) = f (BitVec.ofNat 16 j) := by
  apply applyWrite_of_ne
  intro heq
  obtain ⟨w, hw, hindex⟩ := Option.map_eq_some_iff.mp heq
  have hle := he w hw
  rw [hindex, BitVec.toNat_ofNat, Nat.mod_eq_of_lt (by omega)] at hle
  omega

lemma Loaded.applyWrite {f : BitVec 16 → Word} (h : Loaded text f)
    {e : Option (BitVec 16 × Word)} (he : OffText text e) : Loaded text (applyWrite f e) := by
  intro j hj i hi
  rw [applyWrite_offText hlen he hj]
  exact h j hj i hi

lemma TextIntact.push {w : Window (BitVec 16) Word} (h : TextIntact text w)
    {e : Option (BitVec 16 × Word)} (he : OffText text e) : TextIntact text (w.push e) where
  settled := h.settled.applyWrite hlen h.oldest
  oldest := h.middle
  middle := h.newest
  newest := he

lemma TextIntact.now {w : Window (BitVec 16) Word} (h : TextIntact text w) : Loaded text w.now :=
  ((h.settled.applyWrite hlen h.oldest).applyWrite hlen h.middle).applyWrite hlen h.newest

end Memory

lemma wordIndex_place (j : ℕ) : wordIndex (BitVec.ofNat 32 (4 * j)) = BitVec.ofNat 16 j := by
  apply BitVec.eq_of_toNat_eq
  simp only [wordIndex, BitVec.extractLsb_toNat, BitVec.toNat_ofNat, Nat.shiftRight_eq_div_pow]
  omega

lemma place_of_pc {m : SlotMachine} {j : ℕ} (hpc : m.pc = BitVec.ofNat 32 (4 * j))
    (hj : j ≤ 2 ^ 16) : m.place = j := by
  rw [SlotMachine.place, hpc, BitVec.toNat_ofNat, Nat.mod_eq_of_lt (by omega)]
  omega

lemma Scheduled.word {m : SlotMachine} (h : Scheduled text m) {j : ℕ} (hj : j < text.length)
    (hlen : text.length ≤ 2 ^ 16) (hpc : m.pc = BitVec.ofNat 32 (4 * j)) {i : Instr}
    (hi : i ∈ text[j]?) : m.word = encode i := by
  have hplace := place_of_pc hpc (hj.le.trans hlen)
  rw [SlotMachine.word]
  cases hheld : m.held with
  | none =>
    rw [Option.getD_none, hpc, wordIndex_place]
    exact h.memory.settled j hj i hi
  | some w => exact h.held w hheld i (hplace.symm ▸ hi)

section Slot

variable {m : SlotMachine} {i : Instr} (hi : encode i = m.word)

include hi

lemma writeFrom_regWrite {j : ℕ} (hj : i ∈ text[j]?) : WriteFrom text (j + 1) 1 m.regWrite := by
  have hdest := SlotMachine.dest_eq hi
  intro w hw
  rw [SlotMachine.regWrite] at hw
  split_ifs at hw with hwrite
  · obtain rfl := Option.some.inj hw
    simp only [Bool.and_eq_true, bne_iff_ne, ne_eq] at hwrite
    rw [if_pos hwrite.1] at hdest
    exact ⟨by omega, hwrite.2, i, hj, hdest.symm⟩
  · contradiction

/-- A jump that keeps no link, or a branch. -/
lemma regWrite_of_taken (hlink : ∀ rd ∈ i.link, rd = 0#5) (ht : m.taken = true) :
    m.regWrite = none := by
  have hdest := SlotMachine.dest_eq hi
  have hredirect := SlotMachine.redirect_eq hi
  rw [if_pos ht] at hredirect
  have hnone : i.dest = none ∨ i.dest = some 0#5 := by
    cases i with
    | branch => exact Or.inl rfl
    | jal rd imm => exact Or.inr (congrArg some (hlink rd rfl))
    | jalr rd rs1 imm => exact Or.inr (congrArg some (hlink rd rfl))
    | op | opImm | shiftImm | load | store | lui | auipc | miscMem => contradiction
  rw [SlotMachine.regWrite, if_neg]
  simp only [Bool.and_eq_true, bne_iff_ne, ne_eq, not_and, not_not]
  intro hwrite
  rw [if_pos hwrite] at hdest
  rcases hnone with h | h
  · rw [h] at hdest
    contradiction
  · exact Option.some.inj (hdest.trans h)

end Slot

section Step

variable {s₀ : Top} {n : ℕ} {τ : State} (hs : Scheduled text (slots s₀ n))
  (hlen : text.length ≤ 2 ^ 16) (hf : (slots s₀ n).Follows τ)
  (hin : (slots s₀ n).bubbles = 0 → τ.InText text)

include hs hlen hf hin

lemma Scheduled.orderly (hspaced : Spaced text) : (slots s₀ n).Orderly := by
  intro hb
  obtain ⟨j, hj, hpc, i, hi, hp, -⟩ := hin hb
  rw [← hf.pc] at hpc
  have hword := hs.word hj hlen hpc hi
  have hrecent := hs.recent
  rw [place_of_pc hpc (hj.le.trans hlen), hb] at hrecent
  have hfresh : ∀ r ∈ i.reads, ¬(slots s₀ n).regs.Missed r := fun r hr =>
    hrecent.not_missed hspaced hi hr
  refine ⟨?_, i, ?_, hfresh, ?_⟩
  · rw [hword, hpc, wordIndex_place]
    exact (hs.memory.now hlen j hj i hi).symm
  · rw [hword]
    exact decode_encode i
  · exact (SlotMachine.plain_iff hword.symm hf hfresh).mpr hp

/-- A slot that is taken stores beside the text, as the sequential machine does. -/
lemma Scheduled.step_mem (hb : (slots s₀ n).bubbles = 0) (ho : (slots s₀ n).Orderly) :
    TextIntact text (slots s₀ n).step.mem := by
  obtain ⟨j, hj, hpc, i, hi, -, hoff⟩ := hin hb
  have hfetch : τ.fetch = some i := by
    rw [State.fetch, hpc, wordIndex_place, ← hf.mem, hs.memory.now hlen j hj i hi]
    exact decode_encode i
  rw [SlotMachine.step_mem, (SlotMachine.orderly_step hb ho hf).2.1, State.memEvent, hfetch]
  exact hs.memory.push hlen fun e he =>
    of_decide_eq_true ((Option.all_eq_true _ _).mp hoff e he)

/-- The word that is held behind a load is the next one of the text. -/
lemma Scheduled.held_next {j : ℕ} (hb : (slots s₀ n).bubbles = 0) (ho : (slots s₀ n).Orderly)
    (ht : (slots s₀ n).taken = false) (hw : (slots s₀ n).waits = true)
    (hpc : (slots s₀ n).pc = BitVec.ofNat 32 (4 * j)) {i : Instr} (hi : i ∈ text[j + 1]?) :
    (slots s₀ n).retire.word = encode i := by
  have hmem := hs.step_mem hlen hf hin hb ho
  rw [SlotMachine.step_waits hb ht hw] at hmem
  have hpc' : (slots s₀ n).retire.pc = BitVec.ofNat 32 (4 * (j + 1)) := by
    rw [SlotMachine.retire, ht, hpc, Nat.mul_succ, BitVec.ofNat_add]
    rfl
  rw [SlotMachine.word, hpc', wordIndex_place]
  exact hmem.settled (j + 1) (List.getElem?_eq_some_iff.mp hi).1 i hi

lemma Scheduled.step (ho : (slots s₀ n).Orderly) : Scheduled text (slots s₀ (n + 1)) := by
  rw [slots_succ]
  by_cases hb : (slots s₀ n).bubbles = 0
  · obtain ⟨j, hj, hpc, i, hi, hp, -⟩ := hin hb
    have hpc' : (slots s₀ n).pc = BitVec.ofNat 32 (4 * j) := hf.pc.trans hpc
    have hword := hs.word hj hlen hpc' hi
    have hrecent := hs.recent
    rw [place_of_pc hpc' (hj.le.trans hlen), hb] at hrecent
    have hmem := hs.step_mem hlen hf hin hb ho
    have hregs : (slots s₀ n).step.regs = (slots s₀ n).regs.push (slots s₀ n).regWrite := by
      rw [SlotMachine.step_regs, SlotMachine.regEvent, if_pos hb]
    cases ht : (slots s₀ n).taken with
    | true =>
      have hnone := regWrite_of_taken hword.symm hp.1 ht
      have hstep := SlotMachine.step_taken hb ht
      refine ⟨?_, hmem, ?_⟩
      · rw [hregs, hnone, hstep]
        exact rfl
      · rw [hstep]
        intro w hw
        contradiction
    | false =>
      have hplace : (slots s₀ n).step.place = j + 1 := by
        apply place_of_pc _ (Nat.succ_le_of_lt (hj.trans_le hlen))
        rw [SlotMachine.step_pc hb, ht, hpc', Nat.mul_succ, BitVec.ofNat_add]
        rfl
      obtain ⟨hnext, hwaits⟩ := hrecent.retire (writeFrom_regWrite hword.symm hi)
      cases hw : (slots s₀ n).waits with
      | true =>
        have hstall : StallAt text (j + 1) 1 := by
          refine ⟨Nat.le_add_left 1 j, fun p hp' q hq => ?_⟩
          obtain rfl := Option.mem_unique hp' hi
          rw [← hword, ← hs.held_next hlen hf hin hb ho ht hw hpc' hq]
          exact (waits_iff _).mp hw
        have hstep := SlotMachine.step_waits hb ht hw
        refine ⟨?_, hmem, ?_⟩
        · rw [hplace, hregs, hstep]
          exact hwaits hstall
        · rw [hplace, hstep]
          intro w hheld i' hi'
          obtain rfl := Option.some.inj hheld
          exact hs.held_next hlen hf hin hb ho ht hw hpc' hi'
      | false =>
        have hstep := SlotMachine.step_retire hb ht hw
        refine ⟨?_, hmem, ?_⟩
        · rw [hplace, hregs, hstep]
          exact hnext
        · rw [hstep]
          intro w hw
          contradiction
  · rw [SlotMachine.step_idle hb]
    refine ⟨hs.recent.idle hb, hs.memory.push hlen ?_, hs.held⟩
    intro w hw
    contradiction

end Step

lemma scheduled_start (regs : RegAddr → Word) {mem : BitVec 16 → Word} (h : Loaded text mem) :
    Scheduled text (.start regs mem) := by
  refine ⟨rfl, ⟨h, ?_, ?_, ?_⟩, ?_⟩
  all_goals
    intro w hw
    contradiction

/-- As long as the sequential machine stays in the text, every slot is orderly. -/
lemma orderly_of_spaced {s₀ : Top} (hlen : text.length ≤ 2 ^ 16) (hspaced : Spaced text)
    (hload : Loaded text (isaStart s₀).mem) {K : ℕ} (hin : ∀ k < K, (isaAt s₀ k).InText text)
    {n : ℕ} (hn : exIndex s₀ n ≤ K) :
    (∀ m < n, (slots s₀ m).Orderly) ∧ Scheduled text (slots s₀ n) := by
  induction n with
  | zero =>
    refine ⟨fun m hm => absurd hm (Nat.not_lt_zero m), ?_⟩
    rw [slots_zero]
    exact scheduled_start _ hload
  | succ n ih =>
    obtain ⟨horderly, hs⟩ := ih ((Nat.count_monotone _ (Nat.le_succ n)).trans hn)
    have hf := follows_of_orderly horderly n le_rfl
    have hnow : (slots s₀ n).bubbles = 0 → (isaAt s₀ (exIndex s₀ n)).InText text := by
      intro hb
      rw [exIndex_succ, if_pos (isSome_inEx_iff.mpr hb)] at hn
      exact hin _ hn
    have ho := hs.orderly hlen hf hnow hspaced
    refine ⟨fun m hm => ?_, hs.step hlen hf hnow ho⟩
    rcases Nat.lt_succ_iff_lt_or_eq.mp hm with hm | rfl
    · exact horderly m hm
    · exact ho

end Invariant

/-- A text that is spaced runs as on the sequential machine, whatever registers and data hold: as
long as that machine stays in the text and writes beside it, the core makes its register writes and
its memory writes, holds its arrays, and goes on where it goes on. -/
theorem spaced_text_refines_isa (text : List Instr) (hlen : text.length ≤ 2 ^ 16)
    (hspaced : Spaced text) (s₀ : Top) (hload : Loaded text (isaStart s₀).mem) (K : ℕ)
    (hin : ∀ k < K, (isaAt s₀ k).InText text) (n : ℕ) (hn : exIndex s₀ n ≤ K) :
    regTrace s₀ (n + 2) = (isaStart s₀).regTrace (exIndex s₀ n) ∧
    memTrace s₀ (n + 1) = (isaStart s₀).memTrace (exIndex s₀ n) ∧
    (trace s₀ (n + 2)).top.regs = (isaAt s₀ (exIndex s₀ n)).regs ∧
    (trace s₀ (n + 1)).top.mem = (isaAt s₀ (exIndex s₀ n)).mem ∧
    (trace s₀ n).next = (isaAt s₀ (exIndex s₀ n)).pc :=
  refines_of_orderly (orderly_of_spaced hlen hspaced hload hin hn).1

/-- `addi x1,x0,5; sw x1,0x400(x0); lw x2,0x400(x0); add x3,x2,x2; jal x0,-16`. -/
theorem spaced_text_refines_isa_loop :
    regTrace (load [0x00500093#32, 0x40102023#32, 0x40002103#32, 0x002101b3#32,
        0xff1ff06f#32]) 10 =
      (isaStart (load [0x00500093#32, 0x40102023#32, 0x40002103#32, 0x002101b3#32,
        0xff1ff06f#32])).regTrace (exIndex (load [0x00500093#32, 0x40102023#32, 0x40002103#32,
          0x002101b3#32, 0xff1ff06f#32]) 8) :=
  (spaced_text_refines_isa [.opImm .addi 1#5 0#5 5#12, .store .sw 0#5 1#5 0x400#12,
    .load .lw 2#5 0#5 0x400#12, .op .add 3#5 2#5 2#5, .jal 0#5 0xffff8#20] (by decide) (by decide)
    (load [0x00500093#32, 0x40102023#32, 0x40002103#32, 0x002101b3#32, 0xff1ff06f#32])
    (by decide +kernel) 8 (by decide +kernel) 8 (Nat.count_le _)).1

end Rv32iRtl
