import Rv32iRtl.Generator

/-! The contract of the lint-fix loop when the calls it makes return. -/
namespace Rv32iRtl

namespace Event

def isLintCheck : Event → Bool
  | lintCheck .. => true
  | _ => false

def isValidate : Event → Bool
  | validate .. => true
  | _ => false

def isFixWithFeedback : Event → Bool
  | fixWithFeedback .. => true
  | _ => false

end Event

/-- Calls that all return: the first candidate, the fixer's texts and the linter's errors. -/
def Answers.returning (first : Text) (fix : ℕ → Text) (lint : ℕ → List Text) : Answers :=
  ⟨.ok (), .ok (), .ok (), .ok first, fun k => .ok (lint k), fun k => .ok (fix k)⟩

section

variable (validate : ℕ → Text → List Text) (m : String) (allFiles : List String)
  (maxIterations : ℕ) (first : Text) (fix : ℕ → Text) (lint : ℕ → List Text)

/-- The candidate of an attempt: the first text, then what the fixer made of the one before. -/
def candidateText (attempt : ℕ) : Text := if attempt ≤ 1 then first else fix (attempt - 1)

def checkErrors (attempt : ℕ) : List Text :=
  lint attempt ++ validate attempt (candidateText first fix attempt)

/-- The two checks of an attempt: the linter reads the file, the validator the text. -/
def checkEvents (attempt : ℕ) : List Event :=
  let current := candidateText first fix attempt
  [.lintCheck m allFiles (some (normalizeVerilogText current)) (lint attempt),
    .validate m current (validate attempt current)]

def fixEvent (attempt : ℕ) : Event :=
  .fixWithFeedback m (candidateText first fix attempt) (checkErrors validate first fix lint attempt)

/-- Checks up to an attempt, with a fix after each but the last. -/
def historyTo (k : ℕ) : List Event :=
  ((List.range' 1 (k - 1)).flatMap fun i =>
    checkEvents validate m allFiles first fix lint i ++ [fixEvent validate m first fix lint i]) ++
  checkEvents validate m allFiles first fix lint k

variable {validate m allFiles maxIterations first fix lint}

variable (first fix lint) in
lemma candidate_returning (k : ℕ) :
    (Answers.returning first fix lint).candidate first k = candidateText first fix k := by
  match k with
  | 0 | 1 => rfl
  | k + 2 => rfl

lemma goesOn_returning (k : ℕ) :
    goesOn validate (Answers.returning first fix lint) first k =
      decide (checkErrors validate first fix lint k ≠ []) := by
  rw [checkErrors, ← candidate_returning first fix lint]
  rfl

lemma attemptEvents_returning (k : ℕ) :
    attemptEvents validate m allFiles maxIterations (Answers.returning first fix lint) first k =
      checkEvents validate m allFiles first fix lint k ++
        if checkErrors validate first fix lint k ≠ [] ∧ k < maxIterations then
          [fixEvent validate m first fix lint k] else [] := by
  simp only [attemptEvents, candidate_returning first fix lint]
  rfl

lemma verdict_returning (k : ℕ) :
    verdict validate m maxIterations (Answers.returning first fix lint) first k =
      if checkErrors validate first fix lint k = [] then .ok (candidateText first fix k)
      else .error (.lintFailureError m (checkErrors validate first fix lint k) maxIterations) := by
  simp only [verdict, candidate_returning first fix lint]
  rfl

/-- The attempts up to the last one. -/
lemma after_returning {k : ℕ} (hk : 1 ≤ k) (hmax : k ≤ maxIterations)
    (hbefore : ∀ i, 1 ≤ i → i < k → checkErrors validate first fix lint i ≠ [])
    (hend : checkErrors validate first fix lint k = [] ∨ k = maxIterations) (w : World) :
    w.after validate m allFiles maxIterations (Answers.returning first fix lint) first 1 k =
      ⟨w.verilog.set m (normalizeVerilogText (candidateText first fix k)), w.contracts,
        w.events ++ historyTo validate m allFiles first fix lint k⟩ := by
  have hevents : (List.range' 1 k).flatMap (attemptEvents validate m allFiles maxIterations
      (Answers.returning first fix lint) first) =
      historyTo validate m allFiles first fix lint k := by
    obtain ⟨j, rfl⟩ := Nat.exists_eq_add_of_le' hk
    have hlast : ¬(checkErrors validate first fix lint (j + 1) ≠ [] ∧ j + 1 < maxIterations) := by
      rintro ⟨hne, hlt⟩
      rcases hend with hend | hend
      · exact hne hend
      · omega
    rw [List.range'_1_concat, List.flatMap_append, historyTo, Nat.add_sub_cancel]
    congr 1
    · refine List.flatMap_congr fun i hi => ?_
      obtain ⟨h1, h2⟩ := List.mem_range'_1.mp hi
      rw [attemptEvents_returning, if_pos ⟨hbefore i h1 (by omega), by omega⟩]
    · rw [List.flatMap_singleton, Nat.add_comm 1 j, attemptEvents_returning, if_neg hlast,
        List.append_nil]
  rw [World.after, Nat.add_sub_cancel, hevents, candidate_returning first fix lint]
  rfl

lemma endsAt_returning {k : ℕ} (hk : 1 ≤ k) (hmax : k ≤ maxIterations)
    (hbefore : ∀ i, 1 ≤ i → i < k → checkErrors validate first fix lint i ≠ [])
    (hend : checkErrors validate first fix lint k = [] ∨ k = maxIterations) :
    EndsAt validate maxIterations (Answers.returning first fix lint) first 1 k := by
  refine ⟨hk, hmax, fun i h1 h2 => ?_, hend.imp_left fun h => ?_⟩
  · rw [goesOn_returning]
    exact decide_eq_true (hbefore i h1 h2)
  · rw [goesOn_returning, h]
    rfl

/-- An attempt makes one check of each kind, and a fix when it is followed by another. -/
lemma count_historyTo {p : Event → Bool} {c f : ℕ}
    (hc : ∀ i, (checkEvents validate m allFiles first fix lint i).countP p = c)
    (hf : ∀ i, [fixEvent validate m first fix lint i].countP p = f) (k : ℕ) :
    (historyTo validate m allFiles first fix lint k).countP p = (k - 1) * (c + f) + c := by
  have hround : ∀ i ∈ List.range' 1 (k - 1), (List.countP p ∘ fun i =>
      checkEvents validate m allFiles first fix lint i ++ [fixEvent validate m first fix lint i]) i =
      c + f := by
    intro i _
    simp only [Function.comp_apply]
    rw [List.countP_append, hc, hf]
  rw [historyTo, List.countP_append, hc, List.countP_flatMap, List.map_congr_left hround,
    List.map_const', List.sum_replicate, List.length_range', smul_eq_mul]

variable (m allFiles) in
/-- The call as a whole, given the attempt that is the last. -/
lemma generateWithLintFix_returning (unicode : Char → Bool) {k : ℕ} (hk : 1 ≤ k)
    (hmax : k ≤ maxIterations)
    (hbefore : ∀ i, 1 ≤ i → i < k → checkErrors validate first fix lint i ≠ [])
    (hend : checkErrors validate first fix lint k = [] ∨ k = maxIterations) (w : World) :
    generateWithLintFix validate m allFiles maxIterations (Answers.returning first fix lint)
        unicode w =
      if checkErrors validate first fix lint k = [] then
        (.ok (candidateText first fix k),
          ⟨w.verilog.set m (normalizeVerilogText (candidateText first fix k)),
            w.contracts.set m (extractPorts unicode (candidateText first fix k)),
            w.events ++ historyTo validate m allFiles first fix lint k⟩)
      else
        (.error (.lintFailureError m (checkErrors validate first fix lint k) maxIterations),
          ⟨w.verilog.set m (normalizeVerilogText (candidateText first fix k)), w.contracts,
            w.events ++ historyTo validate m allFiles first fix lint k⟩) := by
  rw [generateWithLintFix_eq m allFiles unicode rfl (endsAt_returning hk hmax hbefore hend),
    verdict_returning, after_returning hk hmax hbefore hend]
  split_ifs <;> rfl

/-- The loop returns the first candidate that both checks accept, with the file the linter
saw and its contract on disk; without one it raises after all attempts. -/
theorem generate_with_lint_fix_contract (unicode : Char → Bool) (hmax : 1 ≤ maxIterations)
    (w : World) :
    let run := generateWithLintFix validate m allFiles maxIterations
      (Answers.returning first fix lint) unicode w
    let errors := checkErrors validate first fix lint
    let candidate := candidateText first fix
    let history := historyTo validate m allFiles first fix lint
    ((∃ v, run.1 = .ok v) ↔ ∃ k, 1 ≤ k ∧ k ≤ maxIterations ∧ errors k = []) ∧
    (∀ k, 1 ≤ k → k ≤ maxIterations → errors k = [] → (∀ i, 1 ≤ i → i < k → errors i ≠ []) →
      run = (.ok (candidate k),
        ⟨w.verilog.set m (normalizeVerilogText (candidate k)),
          w.contracts.set m (extractPorts unicode (candidate k)), w.events ++ history k⟩)) ∧
    ((∀ k, 1 ≤ k → k ≤ maxIterations → errors k ≠ []) →
      run = (.error (.lintFailureError m (errors maxIterations) maxIterations),
        ⟨w.verilog.set m (normalizeVerilogText (candidate maxIterations)), w.contracts,
          w.events ++ history maxIterations⟩)) ∧
    ∀ k, 1 ≤ k → (history k).countP Event.isLintCheck = k ∧
      (history k).countP Event.isValidate = k ∧
      (history k).countP Event.isFixWithFeedback = k - 1 := by
  intro run errors candidate history
  have hsuccess : ∀ k, 1 ≤ k → k ≤ maxIterations → errors k = [] →
      (∀ i, 1 ≤ i → i < k → errors i ≠ []) → run = (.ok (candidate k),
        ⟨w.verilog.set m (normalizeVerilogText (candidate k)),
          w.contracts.set m (extractPorts unicode (candidate k)), w.events ++ history k⟩) := by
    intro k hk hle hok hbefore
    have hrun := generateWithLintFix_returning m allFiles unicode hk hle hbefore
      (Or.inl hok) w
    rw [if_pos hok] at hrun
    exact hrun
  have hfailure : (∀ k, 1 ≤ k → k ≤ maxIterations → errors k ≠ []) →
      run = (.error (.lintFailureError m (errors maxIterations) maxIterations),
        ⟨w.verilog.set m (normalizeVerilogText (candidate maxIterations)), w.contracts,
          w.events ++ history maxIterations⟩) := by
    intro hbad
    have hrun := generateWithLintFix_returning m allFiles unicode hmax le_rfl
      (fun i h1 h2 => hbad i h1 h2.le) (Or.inr rfl) w
    rw [if_neg (hbad maxIterations hmax le_rfl)] at hrun
    exact hrun
  refine ⟨⟨?_, ?_⟩, hsuccess, hfailure, fun k hk => ⟨?_, ?_, ?_⟩⟩
  · rintro ⟨v, hv⟩
    by_contra hno
    have hbad : ∀ k, 1 ≤ k → k ≤ maxIterations → errors k ≠ [] :=
      fun k h1 h2 hok => hno ⟨k, h1, h2, hok⟩
    rw [hfailure hbad] at hv
    contradiction
  · classical
    intro hex
    obtain ⟨h1, h2, hok⟩ := Nat.find_spec hex
    have hbefore : ∀ i, 1 ≤ i → i < Nat.find hex → errors i ≠ [] :=
      fun i hi hlt hclean => Nat.find_min hex hlt ⟨hi, by omega, hclean⟩
    exact ⟨_, congrArg Prod.fst (hsuccess _ h1 h2 hok hbefore)⟩
  · have hcount := @count_historyTo validate m allFiles first fix lint Event.isLintCheck 1 0
      (fun _ => rfl) (fun _ => rfl) k
    change (historyTo validate m allFiles first fix lint k).countP _ = k
    omega
  · have hcount := @count_historyTo validate m allFiles first fix lint Event.isValidate 1 0
      (fun _ => rfl) (fun _ => rfl) k
    change (historyTo validate m allFiles first fix lint k).countP _ = k
    omega
  · have hcount := @count_historyTo validate m allFiles first fix lint Event.isFixWithFeedback 0 1
      (fun _ => rfl) (fun _ => rfl) k
    change (historyTo validate m allFiles first fix lint k).countP _ = k - 1
    omega

end

theorem generate_with_lint_fix_contract_fixed :
    ∃ v, (generateWithLintFix (fun _ _ => []) "alu" [] 2
      (Answers.returning "module alu;".toList (fun _ => "module alu; endmodule".toList)
        fun k => if k = 1 then ["%Error: syntax error".toList] else [])
      (fun _ => false) ⟨.empty, .empty, []⟩).1 = .ok v :=
  (generate_with_lint_fix_contract (fun _ => false) (by decide) _).1.mpr
    ⟨2, by decide, le_rfl, rfl⟩

end Rv32iRtl
