import Rv32iRtl.TextScan
import Rv32iRtl.HexText
import Rv32iRtl.Forwarding

/-! The text that `top` prints and the PASS detector of `run_tests.py` that reads it.
A taken jump puts a flush NOP into IF/ID, so the printed samples of the self-loop
`JAL x0,0` are never three times in a row the jump itself. -/
namespace Rv32iRtl

open TextScan

/-- `%d` of a one-bit value. -/
def decBit (b : Bool) : List Char := [if b then '1' else '0']

namespace Top

def pcText (s : Top) : List Char :=
  "PC=".toList ++ (hex8 s.ifId.pc ++ (" ".toList ++ ("INSTR=".toList ++ hex8 s.ifId.instr)))

/-- The fields of the second line, which is printed while `pc < 32`. -/
def debugFields (rst : Bool) (s : Top) : List (String × List Char) :=
  [("DEBUG rst=", decBit rst), (" pc=", hex8 s.pc), (" pc_w=", decBit s.hazard.pcWrite),
    (" b_taken=", decBit s.branchTakenEx), (" b_tgt=", hex8 s.branchTargetEx),
    (" id_ex_jump=", decBit s.idEx.jump), (" id_ex_alu_src=", decBit s.idEx.aluSrc),
    (" id_ex_branch=", decBit s.idEx.branch), (" instr_fetch=", hex8 s.instrFetch),
    (" st_if=", decBit (!s.hazard.ifIdWrite)), (" st_id=", decBit (!s.hazard.idExFlush)),
    (" if_id_instr=", hex8 s.ifId.instr), (" id_ex_mem_read=", decBit s.idEx.memRead)]

def debugText (rst : Bool) (s : Top) : List Char :=
  (s.debugFields rst).flatMap fun f => f.1.toList ++ f.2

def display (rst : Bool) (s : Top) : List Char :=
  if rst then []
  else s.pcText ++ ("\n".toList ++ if s.pc.toNat < 32 then s.debugText rst ++ "\n".toList else [])

end Top

def output : Top → List Bool → List Char
  | _, [] => []
  | s, rst :: rsts => s.display rst ++ output (s.step rst) rsts

def PASS_INSTR : ℕ := 0x0000006F
def PASS_MIN_CYCLES : ℕ := 100

/-- `PC=([0-9a-fA-F]{8})\s+INSTR=([0-9a-fA-F]{8})`. No shorter run of spaces can be
followed by `INSTR=`, so the greedy `\s+` never has to give one back. -/
def pcInstrRe : Pattern Char (List Char × List Char) :=
  groups (fun m => (m.2.1, m.2.2.2.2))
    (seq (lit "PC=".toList) (seq (exactly 8 isHex) (seq (plus isSpace)
      (seq (lit "INSTR=".toList) (exactly 8 isHex)))))

/-- The loop of `detect_pass` over the matches that are left. -/
def detectLoop : List (List Char × List Char) → ℕ → Option (List Char) → Option (List Char) → Bool
  | [], _, _, _ => false
  | (pcStr, instrStr) :: ms, consecutive, lastPc, lastInstr =>
    if hexValue instrStr = PASS_INSTR ∧ some pcStr = lastPc ∧ some instrStr = lastInstr then
      if PASS_MIN_CYCLES ≤ consecutive + 1 then true
      else detectLoop ms (consecutive + 1) lastPc lastInstr
    else detectLoop ms 1 (some pcStr) (some instrStr)

def detectPass (output : List Char) (timeoutOccurred : Bool) : Bool :=
  if timeoutOccurred then false else detectLoop (findAll pcInstrRe output) 0 none none

lemma pcInstrRe_none {c : Char} (h : c ≠ 'P') (cs : List Char) : pcInstrRe (c :: cs) = none := by
  have hl : lit "PC=".toList (c :: cs) = none := by
    refine lit_none ?_ (by decide)
    intro hc
    exact h (Option.some.inj hc).symm
  exact groups_none (seq_none hl)

lemma pcInstrRe_pcText (s : Top) (cs : List Char) :
    pcInstrRe (s.pcText ++ cs) = some ((hex8 s.ifId.pc, hex8 s.ifId.instr), cs) := by
  have hpc := exactly_append (hex8_length s.ifId.pc) (fun _ => isHex_of_mem_hex8)
  have hin := exactly_append (hex8_length s.ifId.instr) (fun _ => isHex_of_mem_hex8)
  have hspace : ∀ c ∈ [' '], isSpace c = true := by
    intro c hc
    obtain rfl := List.mem_singleton.mp hc
    rfl
  have hI : isSpace 'I' = false := rfl
  rw [Top.pcText, List.append_assoc, List.append_assoc, List.append_assoc, List.append_assoc]
  have hsp : plus isSpace (" ".toList ++ 'I' :: ("NSTR=".toList ++ (hex8 s.ifId.instr ++ cs))) =
      some ([' '], "INSTR=".toList ++ (hex8 s.ifId.instr ++ cs)) :=
    plus_append (List.cons_ne_nil _ _) hspace hI
  exact groups_some (seq_some (lit_append _ _) (seq_some (hpc _) (seq_some hsp
    (seq_some (lit_append "INSTR=".toList _) (hin _)))))

lemma debugText_no_match (s : Top) (rst : Bool) :
    ∀ c ∈ s.debugText rst, ∀ cs, pcInstrRe (c :: cs) = none := by
  have hb : ∀ b, ∀ c ∈ decBit b, c ≠ 'P' := by
    intro b c hc
    cases b <;> obtain rfl := List.mem_singleton.mp hc <;> decide
  have hh : ∀ w, ∀ c ∈ hex8 w, c ≠ 'P' := fun _ _ => ne_of_mem_hex8
  have hf : ∀ f ∈ s.debugFields rst, (∀ c ∈ f.1.toList, c ≠ 'P') ∧ ∀ c ∈ f.2, c ≠ 'P' := by
    simp only [Top.debugFields, List.forall_mem_cons]
    exact ⟨⟨by simp, hb _⟩, ⟨by simp, hh _⟩, ⟨by simp, hb _⟩, ⟨by simp, hb _⟩,
      ⟨by simp, hh _⟩, ⟨by simp, hb _⟩, ⟨by simp, hb _⟩, ⟨by simp, hb _⟩,
      ⟨by simp, hh _⟩, ⟨by simp, hb _⟩, ⟨by simp, hb _⟩, ⟨by simp, hh _⟩,
      ⟨by simp, hb _⟩, fun _ h => absurd h (List.not_mem_nil)⟩
  intro c hc cs
  obtain ⟨f, hmem, hc⟩ := List.mem_flatMap.mp hc
  obtain ⟨hlabel, hvalue⟩ := hf f hmem
  rcases List.mem_append.mp hc with hc | hc
  · exact pcInstrRe_none (hlabel c hc) cs
  · exact pcInstrRe_none (hvalue c hc) cs

def samples : Top → List Bool → List IfId
  | _, [] => []
  | s, rst :: rsts => (if rst then [] else [s.ifId]) ++ samples (s.step rst) rsts

/-- The detector finds these samples in the text, and nothing else. -/
theorem findAll_output (s : Top) (rsts : List Bool) :
    findAll pcInstrRe (output s rsts) =
      (samples s rsts).map fun q => (hex8 q.pc, hex8 q.instr) := by
  induction rsts generalizing s with
  | nil => rfl
  | cons rst rsts ih =>
    cases rst with
    | true => exact ih (s.step true)
    | false =>
      have hnl : ∀ c ∈ "\n".toList, ∀ cs, pcInstrRe (c :: cs) = none := by
        intro c hc
        obtain rfl := List.mem_singleton.mp hc
        exact pcInstrRe_none (by decide)
      have hskip : ∀ c ∈ "\n".toList ++
          (if s.pc.toNat < 32 then s.debugText false ++ "\n".toList else []),
          ∀ cs, pcInstrRe (c :: cs) = none := by
        intro c hc
        rcases List.mem_append.mp hc with hc | hc
        · exact hnl c hc
        · split_ifs at hc
          · rcases List.mem_append.mp hc with hc | hc
            · exact debugText_no_match s false c hc
            · exact hnl c hc
          · simp at hc
      have hne : s.pcText ≠ [] := by simp [Top.pcText, hex8]
      rw [output, Top.display, if_neg (by decide), List.append_assoc,
        findAll_match hne (pcInstrRe_pcText s _), findAll_skip hskip, ih]
      rfl

def selfJump : Word := 0x0000006f#32

/-- No three successive samples all show the self-jump. -/
def NoTriple : List Word → Prop
  | x :: y :: z :: ws => ¬(x = selfJump ∧ y = selfJump ∧ z = selfJump) ∧ NoTriple (y :: z :: ws)
  | _ => True

lemma NoTriple.tail {x : Word} {ws : List Word} (h : NoTriple (x :: ws)) : NoTriple ws := by
  match ws with
  | [] | [_] => trivial
  | _ :: _ :: _ => exact h.2

lemma noTriple_cons_of_ne {x : Word} {ws : List Word} (hx : x ≠ selfJump) (h : NoTriple ws) :
    NoTriple (x :: ws) := by
  match ws with
  | [] | [_] => trivial
  | _ :: _ :: _ => exact ⟨fun hc => hx hc.1, h⟩

lemma noTriple_cons_of_head_ne {x : Word} {ws : List Word} (hw : ∀ y ∈ ws.head?, y ≠ selfJump)
    (h : NoTriple ws) : NoTriple (x :: ws) := by
  match ws with
  | [] | [_] => trivial
  | y :: _ :: _ => exact ⟨fun hc => hw y rfl hc.2.1, h⟩

lemma noTriple_cons_cons {x y : Word} {ws : List Word} (hw : ∀ z ∈ ws.head?, z ≠ selfJump)
    (h : NoTriple (y :: ws)) : NoTriple (x :: y :: ws) := by
  match ws with
  | [] => trivial
  | z :: _ => exact ⟨fun hc => hw z rfl hc.2.2, h⟩

def sampleWords (s : Top) (rsts : List Bool) : List Word := (samples s rsts).map IfId.instr

lemma sampleWords_low (s : Top) (rsts : List Bool) :
    sampleWords s (false :: rsts) = s.ifId.instr :: sampleWords (s.step false) rsts := rfl

lemma instr_after_reset (s : Top) : (s.step true).ifId.instr ≠ selfJump := by
  rw [Top.step_reset]
  change 0#32 ≠ selfJump
  decide

lemma head_sampleWords {s : Top} (h : s.ifId.instr ≠ selfJump) (rsts : List Bool) :
    ∀ w ∈ (sampleWords s rsts).head?, w ≠ selfJump := by
  induction rsts generalizing s with
  | nil => simp [sampleWords, samples]
  | cons rst rsts ih =>
    cases rst with
    | true => exact ih (instr_after_reset s)
    | false =>
      intro w hw
      rw [sampleWords_low, List.head?_cons, Option.mem_some_iff] at hw
      exact hw ▸ h

lemma instr_after_taken {s : Top} (h : s.branchTakenEx = true) :
    (s.step false).ifId.instr ≠ selfJump := by
  rw [Top.step_ifId, if_pos h]
  change NOP ≠ selfJump
  decide

/-- The self-jump names no register, so it never stalls and reaches EX at once. -/
lemma jump_after_selfJump {s : Top} (h : s.ifId.instr = selfJump) (hb : s.branchTakenEx = false) :
    (s.step false).idEx.jump = true := by
  have hd : s.dec = decoder selfJump := by rw [Top.dec, h]
  have hl : s.loadUse = false := by
    have h1 : s.dec.rs1 = 0#5 := by rw [hd]; decide
    have h2 : s.dec.rs2 = 0#5 := by rw [hd]; decide
    simp only [Top.loadUse, HazardUnit.loadUse, Top.hazardIn, h1, h2]
    grind
  rw [Top.step_idEx, if_neg (by simp [hl, hb])]
  change s.dec.jump = true
  rw [hd]
  decide

lemma noTriple_of_taken {s : Top} {rsts : List Bool} (h : NoTriple (sampleWords s rsts))
    (hb : s.branchTakenEx = true) (x : Word) : NoTriple (x :: sampleWords s rsts) := by
  cases rsts with
  | nil => trivial
  | cons rst rsts =>
    cases rst with
    | true => exact noTriple_cons_of_head_ne (head_sampleWords (instr_after_reset s) rsts) h
    | false =>
      rw [sampleWords_low] at h ⊢
      exact noTriple_cons_cons (head_sampleWords (instr_after_taken hb) rsts) h

/-- In no run does the printed self-jump repeat three times. -/
theorem sampleWords_noTriple (s : Top) (rsts : List Bool) : NoTriple (sampleWords s rsts) := by
  induction rsts generalizing s with
  | nil => trivial
  | cons rst rsts ih =>
    cases rst with
    | true => exact ih (s.step true)
    | false =>
      rw [sampleWords_low]
      by_cases hj : s.ifId.instr = selfJump
      · cases hb : s.branchTakenEx with
        | true => exact noTriple_cons_of_head_ne (head_sampleWords (instr_after_taken hb) rsts) (ih _)
        | false =>
          have hjump := Top.branchTakenEx_of_jump (jump_after_selfJump hj hb)
          exact noTriple_of_taken (ih _) hjump _
      · exact noTriple_cons_of_ne hj (ih _)

/-- The counter of the detector follows the samples: it is 1 after any sample and 2 only
after the self-jump has been seen twice. -/
lemma detectLoop_false (qs : List IfId) (p i : Word) :
    (NoTriple (i :: qs.map IfId.instr) →
      detectLoop (qs.map fun q => (hex8 q.pc, hex8 q.instr)) 1 (some (hex8 p)) (some (hex8 i)) =
        false) ∧
    (i = selfJump → NoTriple (i :: i :: qs.map IfId.instr) →
      detectLoop (qs.map fun q => (hex8 q.pc, hex8 q.instr)) 2 (some (hex8 p)) (some (hex8 i)) =
        false) := by
  induction qs generalizing p i with
  | nil => exact ⟨fun _ => rfl, fun _ _ => rfl⟩
  | cons q qs ih =>
    have hinj : some (hex8 q.instr) = some (hex8 i) → q.instr = i := by
      intro h
      have hv := congrArg hexValue (Option.some.inj h)
      rwa [hexValue_hex8, hexValue_hex8, BitVec.toNat_inj] at hv
    have hself : hexValue (hex8 q.instr) = PASS_INSTR → q.instr = selfJump := by
      intro h
      rw [hexValue_hex8] at h
      exact BitVec.eq_of_toNat_eq h
    rw [List.map_cons, List.map_cons]
    constructor
    · intro h
      rw [detectLoop]
      split_ifs with hc hn
      · exact absurd hn (by decide)
      · have hi := hinj hc.2.2
        rw [hi] at h
        exact (ih p i).2 (hi ▸ hself hc.1) h
      · exact (ih q.pc q.instr).1 h.tail
    · intro hi h
      rw [detectLoop, if_neg]
      · exact (ih q.pc q.instr).1 h.tail.tail
      · exact fun hc => h.1 ⟨hi, hi, hself hc.1⟩

lemma detectPass_output (s : Top) (rsts : List Bool) (timeoutOccurred : Bool) :
    detectPass (output s rsts) timeoutOccurred = false := by
  have h := sampleWords_noTriple s rsts
  rw [detectPass, findAll_output]
  rw [sampleWords] at h
  cases timeoutOccurred with
  | true => rfl
  | false =>
    cases hs : samples s rsts with
    | nil => rfl
    | cons q qs =>
      rw [hs, List.map_cons] at h
      rw [List.map_cons, if_neg (by decide), detectLoop, if_neg (by simp)]
      exact (detectLoop_false qs q.pc q.instr).1 h

/-- Pass detection never succeeds: whatever the memory, the registers, the pipeline
content and the `rst` inputs, and however long the run. -/
theorem pass_never_detected (s₀ : Top) (rsts : List Bool) :
    detectPass (output s₀ rsts) false = false := detectPass_output s₀ rsts false

/-- With the self-jump at address 0, it is in EX in cycle 2 with no store in EX/MEM, and
no further number of cycles makes the detector report it. -/
theorem pass_detection_fails :
    ¬ ∀ (s₀ : Top) (n : ℕ) (f : Fetched), (trace s₀ n).inEx = some f → f.word = selfJump →
      (trace s₀ n).top.exMem.memWrite = false →
      ∃ k, detectPass (output s₀ (true :: List.replicate (n + k) false)) false = true := by
  intro h
  obtain ⟨k, hk⟩ := h (load [selfJump]) 2 ⟨0#32, selfJump, 0⟩ (by decide +kernel) rfl
    (by decide +kernel)
  rw [detectPass_output] at hk
  contradiction

end Rv32iRtl
