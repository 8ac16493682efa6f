import Rv32iRtl.Validator
import Rv32iRtl.OrderedDict

/-! The generation of one module with its lint loop, `generate_with_lint_fix`. What the calls
to the model, the retriever and the linter answer is given from outside; files and the
calls made are part of the state. -/
namespace Rv32iRtl

/-- What the run has done so far, in order. -/
inductive Event
  /-- A return of `lint_check`, with the text that was in the file. -/
  | lintCheck (moduleName : String) (allFiles : List String) (disk : Option Text)
      (errors : List Text)
  | validate (moduleName : String) (verilog : Text) (errors : List Text)
  | fixWithFeedback (moduleName : String) (verilog : Text) (errors : List Text)
  /-- A call for `top`, with the port contracts of its prompt. -/
  | generateTopV (allJsonContracts : Text)
  /-- The line `[OK]`, with the text in the file at that moment. -/
  | reported (moduleName : String) (disk : Option Text)
  deriving DecidableEq, Repr

/-- The files `<module>.v` and `<module>_meta.json` of `rtl/generated`, and the past. -/
structure World where
  verilog : OrderedDict String Text
  contracts : OrderedDict String Contract
  events : List Event

namespace World

def writeVerilog (w : World) (m : String) (text : Text) : World :=
  { w with verilog := w.verilog.set m text }

def writeContract (w : World) (m : String) (c : Contract) : World :=
  { w with contracts := w.contracts.set m c }

def note (w : World) (es : List Event) : World := { w with events := w.events ++ es }

end World

inductive Exn
  | lintFailureError (moduleName : String) (errors : List Text) (attempts : ℕ)
  | other (message : Text)
  deriving DecidableEq, Repr

/-- The answers of the calls made for one module. The header and the retrieved contexts go
into prompts only. -/
structure Answers where
  generateHeader : Except Text Unit
  retrieve : Except Text Unit
  queryKnowledge : Except Text Unit
  generateModuleV : Except Text Text
  /-- The answer at each attempt, the first being attempt 1. -/
  lintCheck : ℕ → Except Text (List Text)
  fixWithFeedback : ℕ → Except Text Text

section

variable (validate : ℕ → Text → List Text) (m : String) (allFiles : List String)
  (maxIterations : ℕ) (a : Answers)

/-- The loop over the attempts that are left; `allErrors` is unset before the first one, and read
all the same if there is none. -/
def lintLoop : List ℕ → Text → Option (List Text) → World → Except Exn Text × World
  | [], _, some allErrors, w => (.error (.lintFailureError m allErrors maxIterations), w)
  | [], _, none, w =>
    (.error (.other "cannot access local variable 'all_errors'".toList), w)
  | attempt :: attempts, currentVerilog, _, w =>
    match a.lintCheck attempt with
    | .error e => (.error (.other e), w)
    | .ok lintErrors =>
      let semanticErrors := validate attempt currentVerilog
      let allErrors := lintErrors ++ semanticErrors
      let w := w.note [.lintCheck m allFiles (w.verilog.get? m) lintErrors,
        .validate m currentVerilog semanticErrors]
      if allErrors = [] then (.ok currentVerilog, w)
      else if attempt < maxIterations then
        let w := w.note [.fixWithFeedback m currentVerilog allErrors]
        match a.fixWithFeedback attempt with
        | .error e => (.error (.other e), w)
        | .ok fixed => lintLoop attempts fixed (some allErrors)
            (w.writeVerilog m (normalizeVerilogText fixed))
      else lintLoop attempts currentVerilog (some allErrors) w

variable (unicode : Char → Bool)

/-- Everything before the first write. -/
def Answers.firstCandidate : Except Text Text := do
  a.generateHeader
  a.retrieve
  a.queryKnowledge
  a.generateModuleV

def generateWithLintFix (w : World) : Except Exn Text × World :=
  match a.firstCandidate with
  | .error e => (.error (.other e), w)
  | .ok verilog =>
    match lintLoop validate m allFiles maxIterations a (List.range' 1 maxIterations) verilog none
        (w.writeVerilog m (normalizeVerilogText verilog)) with
    | (.error e, w) => (.error e, w)
    | (.ok currentVerilog, w) =>
      (.ok currentVerilog, w.writeContract m (extractPorts unicode currentVerilog))

/-- The text checked at an attempt, if the loop gets there. -/
def Answers.candidate (first : Text) : ℕ → Text
  | 0 => first
  | 1 => first
  | attempt + 2 => ((a.fixWithFeedback (attempt + 1)).toOption).getD []

variable (first : Text)

/-- After this attempt the loop takes up a next candidate, if there may be a next attempt. -/
def goesOn (attempt : ℕ) : Bool :=
  match a.lintCheck attempt, a.fixWithFeedback attempt with
  | .ok lintErrors, .ok _ => lintErrors ++ validate attempt (a.candidate first attempt) ≠ []
  | _, _ => false

/-- The loop, begun at attempt `j`, ends at attempt `k`. -/
structure EndsAt (j k : ℕ) : Prop where
  le : j ≤ k
  le_max : k ≤ maxIterations
  before : ∀ i, j ≤ i → i < k → goesOn validate a first i = true
  ends : goesOn validate a first k = false ∨ k = maxIterations

/-- What the loop gives when it ends at an attempt. -/
def verdict (attempt : ℕ) : Except Exn Text :=
  match a.lintCheck attempt with
  | .error e => .error (.other e)
  | .ok lintErrors =>
    let allErrors := lintErrors ++ validate attempt (a.candidate first attempt)
    if allErrors = [] then .ok (a.candidate first attempt)
    else match a.fixWithFeedback attempt with
      | .error e => if attempt < maxIterations then .error (.other e)
        else .error (.lintFailureError m allErrors maxIterations)
      | .ok _ => .error (.lintFailureError m allErrors maxIterations)

def attemptEvents (attempt : ℕ) : List Event :=
  match a.lintCheck attempt with
  | .error _ => []
  | .ok lintErrors =>
    let current := a.candidate first attempt
    let semanticErrors := validate attempt current
    [.lintCheck m allFiles (some (normalizeVerilogText current)) lintErrors,
      .validate m current semanticErrors] ++
    if lintErrors ++ semanticErrors ≠ [] ∧ attempt < maxIterations then
      [.fixWithFeedback m current (lintErrors ++ semanticErrors)]
    else []

/-- The state after the attempts from `j` to `k`, which leave the last candidate in the file. -/
def World.after (w : World) (j k : ℕ) : World :=
  (w.writeVerilog m (normalizeVerilogText (a.candidate first k))).note
    ((List.range' j (k + 1 - j)).flatMap (attemptEvents validate m allFiles maxIterations a first))

/-- The attempt is checked without errors. -/
def Clean (attempt : ℕ) : Prop :=
  a.lintCheck attempt = .ok [] ∧ validate attempt (a.candidate first attempt) = []

variable {validate m allFiles maxIterations a first}

lemma writeVerilog_writeVerilog (w : World) (t t' : Text) :
    (w.writeVerilog m t).writeVerilog m t' = w.writeVerilog m t' := by
  simp [World.writeVerilog, OrderedDict.set_set]

@[simp] lemma note_note (w : World) (es es' : List Event) :
    (w.note es).note es' = w.note (es ++ es') := by
  simp [World.note]

@[simp] lemma writeVerilog_get? (w : World) (t : Text) :
    (w.writeVerilog m t).verilog.get? m = some t := by
  simp [World.writeVerilog, OrderedDict.get?_set]

lemma writeVerilog_note (w : World) (t : Text) (es : List Event) :
    (w.writeVerilog m t).note es = (w.note es).writeVerilog m t := rfl

lemma candidate_succ {j : ℕ} (hj : 1 ≤ j) :
    a.candidate first (j + 1) = ((a.fixWithFeedback j).toOption).getD [] := by
  obtain ⟨i, rfl⟩ := Nat.exists_eq_add_of_le' hj
  rfl

@[simp] lemma note_nil (w : World) : w.note [] = w := by
  simp [World.note]

variable (m allFiles) in
lemma lintLoop_goesOn {j : ℕ} (hj : 1 ≤ j) (hlt : j < maxIterations)
    (hon : goesOn validate a first j = true) (js : List ℕ) (e : Option (List Text)) (w : World) :
    ∃ e', lintLoop validate m allFiles maxIterations a (j :: js) (a.candidate first j) e
        (w.writeVerilog m (normalizeVerilogText (a.candidate first j))) =
      lintLoop validate m allFiles maxIterations a js (a.candidate first (j + 1)) e'
        ((w.note (attemptEvents validate m allFiles maxIterations a first j)).writeVerilog m
          (normalizeVerilogText (a.candidate first (j + 1)))) := by
  simp only [lintLoop, attemptEvents, candidate_succ hj]
  simp only [goesOn] at hon
  cases hl : a.lintCheck j with
  | error e => simp [hl] at hon
  | ok lintErrors =>
    cases hf : a.fixWithFeedback j with
    | error e => simp [hl, hf] at hon
    | ok fixed =>
      simp only [hl, hf, decide_eq_true_eq] at hon
      refine ⟨some (lintErrors ++ validate j (a.candidate first j)), ?_⟩
      simp only [if_neg hon, if_pos hlt, if_pos (And.intro hon hlt), writeVerilog_get?,
        writeVerilog_note, writeVerilog_writeVerilog, note_note]
      rfl

variable (m allFiles) in
lemma lintLoop_ends {j : ℕ} (hle : j ≤ maxIterations)
    (hend : goesOn validate a first j = false ∨ j = maxIterations) (e : Option (List Text))
    (w : World) :
    lintLoop validate m allFiles maxIterations a (List.range' j (maxIterations + 1 - j))
        (a.candidate first j) e (w.writeVerilog m (normalizeVerilogText (a.candidate first j))) =
      (verdict validate m maxIterations a first j,
        (w.writeVerilog m (normalizeVerilogText (a.candidate first j))).note
          (attemptEvents validate m allFiles maxIterations a first j)) := by
  obtain ⟨r, hr⟩ : ∃ r, maxIterations + 1 - j = r + 1 := ⟨maxIterations - j, by omega⟩
  rw [hr, List.range'_succ]
  simp only [lintLoop, attemptEvents, verdict, writeVerilog_get?]
  cases hl : a.lintCheck j with
  | error e => simp
  | ok lintErrors =>
    by_cases hok : lintErrors ++ validate j (a.candidate first j) = []
    · simp only [hok, ne_eq, not_true_eq_false, false_and, if_true, if_false, List.append_nil]
    · by_cases hlt : j < maxIterations
      · have hend := hend.resolve_right (by omega)
        cases hf : a.fixWithFeedback j with
        | error e => simp only [if_neg hok, if_pos hlt, if_pos (And.intro hok hlt), note_note]
        | ok fixed =>
          simp only [goesOn, hl, hf, decide_eq_false_iff_not, not_not] at hend
          exact absurd hend hok
      · obtain rfl : r = 0 := by omega
        have hno : ¬(lintErrors ++ validate j (a.candidate first j) ≠ [] ∧ j < maxIterations) :=
          fun h => hlt h.2
        cases hf : a.fixWithFeedback j <;>
          simp only [if_neg hok, if_neg hlt, if_neg hno, List.append_nil] <;> rfl

variable (m allFiles) in
lemma lintLoop_eq {j k : ℕ} (hj : 1 ≤ j) (h : EndsAt validate maxIterations a first j k)
    (e : Option (List Text)) (w : World) :
    lintLoop validate m allFiles maxIterations a (List.range' j (maxIterations + 1 - j))
        (a.candidate first j) e (w.writeVerilog m (normalizeVerilogText (a.candidate first j))) =
      (verdict validate m maxIterations a first k,
        w.after validate m allFiles maxIterations a first j k) := by
  obtain ⟨d, rfl⟩ := Nat.exists_eq_add_of_le h.le
  induction d generalizing j e w with
  | zero =>
    have hend := lintLoop_ends m allFiles h.le_max h.ends e w
    rw [Nat.add_zero] at hend ⊢
    rw [hend, World.after]
    simp
  | succ d ih =>
    have hle := h.le_max
    have hnext : EndsAt validate maxIterations a first (j + 1) (j + 1 + d) := by
      refine ⟨by omega, by omega, fun i hi hlt => h.before i (by omega) (by omega), ?_⟩
      rw [Nat.add_right_comm]
      exact h.ends
    have hr : List.range' j (maxIterations + 1 - j) =
        j :: List.range' (j + 1) (maxIterations + 1 - (j + 1)) := by
      rw [← List.range'_succ]
      congr 1
      omega
    obtain ⟨e', hstep⟩ := lintLoop_goesOn m allFiles hj
      (show j < maxIterations by omega) (h.before j le_rfl (by omega))
      (List.range' (j + 1) (maxIterations + 1 - (j + 1))) e w
    rw [hr, hstep, ih (by omega) _ _ hnext, Nat.add_right_comm j 1 d]
    have hev : List.range' j (j + (d + 1) + 1 - j) =
        j :: List.range' (j + 1) (j + d + 1 + 1 - (j + 1)) := by
      rw [← List.range'_succ]
      congr 1
      omega
    simp only [World.after, hev, List.flatMap_cons, ← writeVerilog_note, note_note]
    rfl

lemma exists_endsAt (h : 1 ≤ maxIterations) :
    ∃ k, EndsAt validate maxIterations a first 1 k := by
  classical
  have hex : ∃ k, 1 ≤ k ∧ (goesOn validate a first k = false ∨ k = maxIterations) :=
    ⟨maxIterations, h, Or.inr rfl⟩
  obtain ⟨hk, hend⟩ := Nat.find_spec hex
  refine ⟨Nat.find hex, hk, Nat.find_min' hex ⟨h, Or.inr rfl⟩, fun i hi hlt => ?_, hend⟩
  have hmin := Nat.find_min hex hlt
  simp only [not_and, not_or] at hmin
  simpa using (hmin hi).1

variable (m allFiles) in
/-- What the whole call does, by the attempt at which the loop ends. -/
theorem generateWithLintFix_eq (unicode : Char → Bool) {k : ℕ} (hfirst : a.firstCandidate = .ok first)
    (h : EndsAt validate maxIterations a first 1 k) (w : World) :
    generateWithLintFix validate m allFiles maxIterations a unicode w =
      let w' := w.after validate m allFiles maxIterations a first 1 k
      (verdict validate m maxIterations a first k,
        match verdict validate m maxIterations a first k with
        | .error _ => w'
        | .ok verilog => w'.writeContract m (extractPorts unicode verilog)) := by
  have hloop := lintLoop_eq m allFiles le_rfl h none w
  rw [Nat.add_sub_cancel] at hloop
  have hstart : a.candidate first 1 = first := rfl
  rw [hstart] at hloop
  simp only [generateWithLintFix, hfirst, hloop]
  cases verdict validate m maxIterations a first k <;> rfl

lemma generateWithLintFix_none (unicode : Char → Bool) (hfirst : a.firstCandidate = .ok first)
    (w : World) :
    generateWithLintFix validate m allFiles 0 a unicode w =
      (.error (.other "cannot access local variable 'all_errors'".toList),
        w.writeVerilog m (normalizeVerilogText first)) := by
  simp [generateWithLintFix, hfirst, lintLoop]

variable {k : ℕ} {v : Text}

lemma clean_of_verdict (h : verdict validate m maxIterations a first k = .ok v) :
    v = a.candidate first k ∧ Clean validate a first k := by
  rw [verdict] at h
  cases hl : a.lintCheck k with
  | error e => simp [hl] at h
  | ok lintErrors =>
    by_cases hok : lintErrors ++ validate k (a.candidate first k) = []
    · obtain ⟨hlint, hval⟩ := List.append_eq_nil_iff.mp hok
      simp only [hl, if_pos hok] at h
      refine ⟨(Except.ok.inj h).symm, ?_, hval⟩
      rw [hl, hlint]
    · cases hf : a.fixWithFeedback k <;> simp only [hl, hf, if_neg hok] at h
      · by_cases hlt : k < maxIterations <;> simp [hlt] at h
      · contradiction

lemma verdict_of_clean (h : Clean validate a first k) :
    verdict validate m maxIterations a first k = .ok (a.candidate first k) := by
  simp [verdict, h.1, h.2]

lemma mem_attemptEvents {ev : Event}
    (h : ev ∈ attemptEvents validate m allFiles maxIterations a first k) :
    (∃ disk errors, ev = .lintCheck m allFiles disk errors) ∨
    (∃ text errors, ev = .validate m text errors) ∨
    ∃ text errors, ev = .fixWithFeedback m text errors := by
  rw [attemptEvents] at h
  cases hl : a.lintCheck k with
  | error e => simp [hl] at h
  | ok lintErrors =>
    simp only [hl, List.mem_append, List.mem_cons, List.not_mem_nil, or_false] at h
    rcases h with (rfl | rfl) | h
    · exact Or.inl ⟨_, _, rfl⟩
    · exact Or.inr (Or.inl ⟨_, _, rfl⟩)
    · split_ifs at h
      · exact Or.inr (Or.inr ⟨_, _, List.mem_singleton.mp h⟩)
      · contradiction

/-- A call that raises early, a call without attempts, and the attempts up to the last. -/
lemma generateWithLintFix_cases (unicode : Char → Bool) (w : World) :
    (∃ e, a.firstCandidate = .error e ∧
      generateWithLintFix validate m allFiles maxIterations a unicode w = (.error (.other e), w)) ∨
    (∃ first e, a.firstCandidate = .ok first ∧ maxIterations = 0 ∧
      generateWithLintFix validate m allFiles maxIterations a unicode w =
        (.error (.other e), w.writeVerilog m (normalizeVerilogText first))) ∨
    ∃ first k, a.firstCandidate = .ok first ∧ EndsAt validate maxIterations a first 1 k := by
  cases hfirst : a.firstCandidate with
  | error e => exact Or.inl ⟨e, rfl, by simp only [generateWithLintFix, hfirst]⟩
  | ok first =>
    rcases Nat.eq_zero_or_pos maxIterations with rfl | hpos
    · exact Or.inr (Or.inl ⟨first, _, rfl, rfl, generateWithLintFix_none unicode hfirst w⟩)
    · obtain ⟨k, hk⟩ := @exists_endsAt validate maxIterations a first hpos
      exact Or.inr (Or.inr ⟨first, k, rfl, hk⟩)

end

end Rv32iRtl
