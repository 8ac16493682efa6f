import Rv32iRtl.Forwarding

/-! Write-back of jumps and of SYSTEM instructions. The ID/EX field `pc_plus4` is
wired to the fetch `pc` plus four, which is two instructions past the jump, and
the decoder never asks for a register write on SYSTEM. -/
namespace Rv32iRtl

def IsJump (word : Word) : Prop := opcode word = JAL ∨ opcode word = JALR

instance (word : Word) : Decidable (IsJump word) := inferInstanceAs (Decidable (_ ∨ _))

lemma IsJump.decoder {word : Word} (h : IsJump word) :
    (decoder word).regWrite = true ∧ (decoder word).wbSel = 0b10#2 := by
  rcases h with h | h <;> simp only [opcode, JAL, JALR] at h <;>
    simp [Rv32iRtl.decoder, Decoder.control, h]

lemma inEx_pcPlus4 {s₀ : Top} {n : ℕ} {f : Fetched} (hf : (trace s₀ n).inEx = some f) :
    (trace s₀ n).top.idEx.pcPlus4 = f.addr + 8#32 ∧ (trace s₀ n).top.idEx.pc = f.addr := by
  obtain ⟨m, rfl⟩ := inEx_pos hf
  have hadv := hf
  rw [trace_succ, Traced.step_inEx] at hadv
  split_ifs at hadv with hs
  simp only [Bool.or_eq_true, not_or, Bool.not_eq_true] at hs
  have hpc := ((front s₀ m).id_addr hs.2 hadv).2
  refine ⟨?_, ((tracks s₀ (m + 1)).ex_some hf).2⟩
  rw [trace_top_succ, Top.step_idEx, if_neg (by simp [hs])]
  change (trace s₀ m).top.pc + 4#32 = _
  rw [hpc, BitVec.add_assoc]
  rfl

/-- The link value of a jump in EX reaches the register file two cycles later. -/
lemma link_written {s₀ : Top} {n : ℕ} {f : Fetched} (hf : (trace s₀ n).inEx = some f)
    (hj : IsJump f.word) (hrd : rdField f.word ≠ 0#5) :
    (trace s₀ (n + 2)).top.regWriteEvent =
      some (rdField f.word, (trace s₀ n).top.idEx.pcPlus4) := by
  have hw := (inEx_contents hf).2
  have hp : (trace s₀ (n + 2)).top.memWb.pcPlus4 = (trace s₀ n).top.idEx.pcPlus4 := by
    rw [trace_top_succ, trace_top_succ]
    rfl
  have hsel : (trace s₀ (n + 2)).top.memWb.wbSel = 0b10#2 := hw.wbSel.trans hj.decoder.2
  have hreg : (trace s₀ (n + 2)).top.memWb.regWrite = true := hw.regWrite.trans hj.decoder.1
  have hd : (trace s₀ (n + 2)).top.memWb.rdAddr = rdField f.word := hw.rdAddr
  simp [Top.regWriteEvent, Top.regfileWdata, hsel, hreg, hd, hrd, hp]

/-- No jump ever links to its own address plus four: the stored value, and hence
the value written to `rd`, is the jump's address plus eight. -/
theorem link_is_pc_plus8 (s₀ : Top) (n : ℕ) (f : Fetched) (hf : (trace s₀ n).inEx = some f)
    (hj : IsJump f.word) :
    (trace s₀ n).top.idEx.pcPlus4 = (trace s₀ n).top.idEx.pc + 8#32 ∧
    (trace s₀ n).top.idEx.pcPlus4 ≠ (trace s₀ n).top.idEx.pc + 4#32 ∧
    (rdField f.word ≠ 0#5 →
      (trace s₀ (n + 2)).top.regWriteEvent = some (rdField f.word, f.addr + 8#32) ∧
      (trace s₀ (n + 2)).top.regWriteEvent ≠ some (rdField f.word, f.addr + 4#32)) := by
  obtain ⟨hp, ha⟩ := inEx_pcPlus4 hf
  have hne : f.addr + 8#32 ≠ f.addr + 4#32 := by
    intro h
    have := BitVec.add_right_inj f.addr |>.mp h
    contradiction
  refine ⟨by rw [hp, ha], by rwa [hp, ha], fun hrd => ?_⟩
  rw [link_written hf hj hrd, hp]
  exact ⟨rfl, by simp [hne]⟩

/-- `jal x1,8` at address 0 leaves 8, not 4, in `x1`. -/
theorem link_is_pc_plus8_jal :
    (trace (load [0x008000ef#32]) 4).top.regWriteEvent = some (1#5, 8#32) :=
  ((link_is_pc_plus8 (load [0x008000ef#32]) 2 ⟨0#32, 0x008000ef#32, 0⟩ (by decide +kernel)
    (by decide)).2.2 (by decide)).1

/-- A jump in EX whose link value is not its address plus four. -/
theorem link_plus4_fails :
    ¬ ∀ (s₀ : Top) (n : ℕ) (f : Fetched), (trace s₀ n).inEx = some f → IsJump f.word →
      (trace s₀ n).top.idEx.pcPlus4 = (trace s₀ n).top.idEx.pc + 4#32 := by
  intro h
  have := h (load [0x008000ef#32]) 2 ⟨0#32, 0x008000ef#32, 0⟩ (by decide +kernel) (by decide)
  revert this
  decide +kernel

lemma Decoder.system_regWrite {instr : Word} (h : opcode instr = SYSTEM) :
    (decoder instr).regWrite = false := by
  simp only [opcode, SYSTEM] at h
  simp [decoder, control, h]

/-- The Zicsr instructions: `CSRRW`, `CSRRS`, `CSRRC` and their immediate forms. -/
def IsCsrAccess (word : Word) : Prop :=
  opcode word = SYSTEM ∧ funct3 word ≠ 0b000#3 ∧ funct3 word ≠ 0b100#3

instance (word : Word) : Decidable (IsCsrAccess word) :=
  inferInstanceAs (Decidable (_ ∧ _ ∧ _))

def csrField (word : Word) : BitVec 12 := word.extractLsb 31 20

lemma system_writes_nothing {s₀ : Top} {n : ℕ} {f : Fetched}
    (hf : (trace s₀ n).inWb = some f) (hs : opcode f.word = SYSTEM) :
    (trace s₀ n).top.regWriteEvent = none ∧
      (trace s₀ (n + 1)).top.regs = (trace s₀ n).top.regs := by
  have hw : (trace s₀ n).top.memWb.regWrite = false :=
    ((tracks s₀ n).wb_some hf).regWrite.trans (Decoder.system_regWrite hs)
  refine ⟨by simp [Top.regWriteEvent, hw], ?_⟩
  rw [trace_top_succ, Top.step_regs]
  simp [Top.nextRegs, Regfile.write, hw]

/-- No CSR access ever delivers: the cycle in which it is in WB writes no register,
so `rd` does not receive the value that the CSR unit gives for its own address. -/
theorem csr_never_written (s₀ : Top) (n : ℕ) (f : Fetched) (hf : (trace s₀ n).inWb = some f)
    (hc : IsCsrAccess f.word) :
    (trace s₀ n).top.regWriteEvent ≠
        some (rdField f.word, CsrUnit.rdata (csrField f.word)) ∧
      (trace s₀ n).top.regWriteEvent = none ∧
      (trace s₀ (n + 1)).top.regs = (trace s₀ n).top.regs := by
  obtain ⟨he, hr⟩ := system_writes_nothing hf hc.1
  refine ⟨?_, he, hr⟩
  rw [he]
  simp

/-- `csrr a0,mhartid` in WB leaves the register array as it was. -/
theorem csr_never_written_mhartid :
    (trace (load [0xf1402573#32]) 4).top.regWriteEvent = none :=
  (csr_never_written (load [0xf1402573#32]) 4 ⟨0#32, 0xf1402573#32, 0⟩ (by decide +kernel)
    (by decide)).2.1

/-- The zero of `mhartid` is not delivered to `a0`. -/
theorem csr_delivery_fails :
    ¬ ∀ (s₀ : Top) (n : ℕ) (f : Fetched), (trace s₀ n).inWb = some f → IsCsrAccess f.word →
      rdField f.word ≠ 0#5 →
      (trace s₀ n).top.regWriteEvent =
        some (rdField f.word, CsrUnit.rdata (csrField f.word)) := by
  intro h
  have := h (load [0xf1402573#32]) 4 ⟨0#32, 0xf1402573#32, 0⟩ (by decide +kernel) (by decide)
    (by decide)
  revert this
  decide +kernel

end Rv32iRtl
