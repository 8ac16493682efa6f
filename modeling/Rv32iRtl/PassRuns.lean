import Rv32iRtl.RunLength
import Rv32iRtl.PassDetector

/-! The verdict of `detect_pass` on any text: it looks for a run of equal samples. -/
namespace Rv32iRtl

open TextScan RunLength

/-- A sample whose INSTR text is a numeral of `PASS_INSTR`. -/
def ShowsPass (sample : List Char × List Char) : Prop := hexValue sample.2 = PASS_INSTR

instance : DecidablePred ShowsPass := fun sample =>
  inferInstanceAs (Decidable (hexValue sample.2 = PASS_INSTR))

/-- The two last texts of the loop are those of one sample. -/
lemma detectLoop_eq (ms : List (List Char × List Char)) (consecutive : ℕ)
    (last : Option (List Char × List Char)) :
    detectLoop ms consecutive (last.map Prod.fst) (last.map Prod.snd) =
      longRun ShowsPass PASS_MIN_CYCLES ms consecutive last := by
  induction ms generalizing consecutive last with
  | nil => rfl
  | cons m ms ih =>
    have hlast : (hexValue m.2 = PASS_INSTR ∧ some m.1 = last.map Prod.fst ∧
        some m.2 = last.map Prod.snd) ↔ ShowsPass m ∧ some m = last := by
      refine and_congr_right fun _ => ?_
      cases last with
      | none => simp
      | some l => simp [Prod.ext_iff]
    have hnext := ih 1 (some m)
    rw [Option.map_some, Option.map_some] at hnext
    rw [longRun, detectLoop]
    simp only [hlast, ih, hnext]

/-- The detector reports PASS exactly when the run did not time out and the samples of the
text hold `PASS_MIN_CYCLES` or more in a row with one PC text and one INSTR text, a
numeral of the self-jump. -/
theorem detect_pass_iff (output : List Char) (timeoutOccurred : Bool) :
    detectPass output timeoutOccurred = true ↔
      timeoutOccurred = false ∧ ∃ before run after pc instr,
        findAll pcInstrRe output = before ++ run ++ after ∧ PASS_MIN_CYCLES ≤ run.length ∧
          hexValue instr = PASS_INSTR ∧ ∀ sample ∈ run, sample = (pc, instr) := by
  have hloop : detectLoop (findAll pcInstrRe output) 0 none none = true ↔
      HasRun ShowsPass PASS_MIN_CYCLES (findAll pcInstrRe output) := by
    have h := detectLoop_eq (findAll pcInstrRe output) 0 none
    rw [Option.map_none, Option.map_none] at h
    rw [h]
    exact longRun_eq_true_iff (n := 99) (by omega) _
  have hrun : HasRun ShowsPass PASS_MIN_CYCLES (findAll pcInstrRe output) ↔
      ∃ before run after pc instr,
        findAll pcInstrRe output = before ++ run ++ after ∧ PASS_MIN_CYCLES ≤ run.length ∧
          hexValue instr = PASS_INSTR ∧ ∀ sample ∈ run, sample = (pc, instr) := by
    constructor
    · rintro ⟨⟨pc, instr⟩, hpass, before, after, h⟩
      exact ⟨before, _, after, pc, instr, h.symm, by rw [List.length_replicate], hpass,
        fun sample hs => List.eq_of_mem_replicate hs⟩
    · rintro ⟨before, run, after, pc, instr, h, hlen, hpass, hsame⟩
      refine ⟨(pc, instr), hpass, ?_⟩
      have hrep : List.replicate PASS_MIN_CYCLES (pc, instr) <+: run := by
        rw [List.eq_replicate_of_mem hsame]
        obtain ⟨k, hk⟩ := Nat.exists_eq_add_of_le hlen
        rw [hk, List.replicate_add]
        exact List.prefix_append _ _
      exact hrep.isInfix.trans ⟨before, after, h.symm⟩
  rw [← hrun, ← hloop]
  cases timeoutOccurred <;> simp [detectPass]

end Rv32iRtl
