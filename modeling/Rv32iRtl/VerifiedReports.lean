import Rv32iRtl.RunPipeline

/-! Which of the modules reported as done have been verified. -/
namespace Rv32iRtl

/-- The text in the file was linted without errors, it is what was written for a text that
the validator accepted, and the validator accepts the file itself. -/
def Verified (m : String) (disk : Option Text) (before : List Event) : Prop :=
  ∃ text, disk = some text ∧ (∃ allFiles, .lintCheck m allFiles disk [] ∈ before) ∧
    (∃ verilog, normalizeVerilogText verilog = text ∧ .validate m verilog [] ∈ before) ∧
    validate text m = []

/-- The reports among the events, each with what happened before it. -/
def Reported (events : List Event) (m : String) (disk : Option Text) (before : List Event) : Prop :=
  ∃ after, events = before ++ .reported m disk :: after

/-- Every report of a module of the class was made of a verified file. -/
def ReportsVerified (P : String → Prop) (events : List Event) : Prop :=
  ∀ m disk before, Reported events m disk before → P m → Verified m disk before

lemma reported_mem {events : List Event} {m : String} {disk : Option Text} {before : List Event}
    (h : Reported events m disk before) : .reported m disk ∈ events := by
  obtain ⟨after, rfl⟩ := h
  simp

/-- A report among appended events, or one that was there before. -/
lemma reported_append {events es : List Event} {m : String} {disk : Option Text}
    {before : List Event} (h : Reported (events ++ es) m disk before) :
    (∃ b, Reported es m disk b ∧ before = events ++ b) ∨ Reported events m disk before := by
  obtain ⟨after, h⟩ := h
  rcases List.append_eq_append_iff.mp h with ⟨b, hb, hes⟩ | ⟨b, hb, hes⟩
  · exact Or.inl ⟨b, ⟨after, hes⟩, hb⟩
  · cases b with
    | nil => exact Or.inl ⟨[], ⟨after, hes.symm⟩, by simpa using hb.symm⟩
    | cons ev b =>
      obtain ⟨rfl, -⟩ := List.cons.inj hes
      exact Or.inr ⟨b, hb⟩

variable {P : String → Prop} {events es : List Event}

lemma reportsVerified_append (h : ReportsVerified P events)
    (hes : ∀ m disk, .reported m disk ∉ es) : ReportsVerified P (events ++ es) := by
  intro m disk before hr hm
  rcases reported_append hr with ⟨b, hb, -⟩ | hold
  · exact absurd (reported_mem hb) (hes m disk)
  · exact h m disk before hold hm

lemma reportsVerified_report (h : ReportsVerified P events) {m : String} {disk : Option Text}
    (hm : P m → Verified m disk events) : ReportsVerified P (events ++ [.reported m disk]) := by
  intro m' disk' before hr hm'
  rcases reported_append hr with ⟨b, ⟨after, hb⟩, rfl⟩ | hold
  · cases b with
    | nil =>
      obtain ⟨heq, -⟩ := List.cons.inj hb
      obtain ⟨rfl, rfl⟩ := Event.reported.inj heq
      rw [List.append_nil]
      exact hm hm'
    | cons ev b => simp at hb
  · exact h m' disk' before hold hm'

section Generate

variable {validate : ℕ → Text → List Text} {m : String} {allFiles : List String}
  {maxIterations : ℕ} {a : Answers} {unicode : Char → Bool}

/-- The events of a generation are checks of its own module and fixes. -/
lemma generateWithLintFix_events (w : World) :
    ∃ es, (generateWithLintFix validate m allFiles maxIterations a unicode w).2.events =
        w.events ++ es ∧
      ∀ ev ∈ es, (∃ disk errors, ev = .lintCheck m allFiles disk errors) ∨
        (∃ text errors, ev = .validate m text errors) ∨
        ∃ text errors, ev = .fixWithFeedback m text errors := by
  rcases generateWithLintFix_cases unicode w with ⟨e, -, heq⟩ | ⟨first, e, -, -, heq⟩ |
    ⟨first, k, hfirst, hk⟩
  · exact ⟨[], by rw [heq]; simp, by simp⟩
  · exact ⟨[], by rw [heq]; simp [World.writeVerilog], by simp⟩
  · refine ⟨(List.range' 1 (k + 1 - 1)).flatMap
      (attemptEvents validate m allFiles maxIterations a first), ?_, fun ev hev => ?_⟩
    · rw [generateWithLintFix_eq m allFiles unicode hfirst hk]
      cases verdict validate m maxIterations a first k <;> rfl
    · obtain ⟨i, -, hi⟩ := List.mem_flatMap.mp hev
      exact mem_attemptEvents hi

/-- A generation that returns has checked what it leaves in the file. -/
lemma generateWithLintFix_ok {w : World} {v : Text}
    (h : (generateWithLintFix validate m allFiles maxIterations a unicode w).1 = .ok v) :
    let w' := (generateWithLintFix validate m allFiles maxIterations a unicode w).2
    w'.verilog.get? m = some (normalizeVerilogText v) ∧
      .lintCheck m allFiles (some (normalizeVerilogText v)) [] ∈ w'.events ∧
      .validate m v [] ∈ w'.events ∧ ∃ k, validate k v = [] := by
  rcases generateWithLintFix_cases unicode w with ⟨e, -, heq⟩ | ⟨first, e, -, -, heq⟩ |
    ⟨first, k, hfirst, hk⟩
  · rw [heq] at h
    contradiction
  · rw [heq] at h
    contradiction
  · have heq := generateWithLintFix_eq m allFiles unicode hfirst hk w
    rw [heq] at h
    obtain ⟨rfl, hclean⟩ := clean_of_verdict h
    have hev : ∀ ev ∈ attemptEvents validate m allFiles maxIterations a first k,
        ev ∈ (w.after validate m allFiles maxIterations a first 1 k).events := by
      intro ev hev
      refine List.mem_append_right _ (List.mem_flatMap.mpr ⟨k, ?_, hev⟩)
      have := hk.le
      exact List.mem_range'_1.mpr ⟨by omega, by omega⟩
    simp only [heq, verdict_of_clean hclean]
    refine ⟨?_, hev _ ?_, hev _ ?_, k, hclean.2⟩
    · exact writeVerilog_get? w _
    · simp [attemptEvents, hclean.1, hclean.2]
    · simp [attemptEvents, hclean.1, hclean.2]

end Generate

/-- The calls for `top` return a text. -/
def RunAnswers.TopGenerated (a : RunAnswers) : Prop :=
  a.retrieve = .ok () ∧ a.queryKnowledge = .ok () ∧ ∃ verilog, a.generateTopV = .ok verilog

/-- Events that report nothing and lint no `top`. -/
def Silent (es : List Event) : Prop :=
  ∀ ev ∈ es, (∀ m disk, ev ≠ .reported m disk) ∧
    ∀ allFiles disk errors, ev ≠ .lintCheck "top" allFiles disk errors

section Step

variable {unicode : Char → Bool} {args : Args} {a : RunAnswers}

lemma generateTop_cases (w : World) :
    (a.TopGenerated ∧ ∃ v w', generateTop a w = (.ok v, w') ∧
      w'.events = w.events ++ [.generateTopV (buildPortContracts w)]) ∨
    (¬a.TopGenerated ∧ ∃ e w' es, generateTop a w = (.error e, w') ∧ Silent es ∧
      w'.events = w.events ++ es) := by
  have hsilent : Silent [.generateTopV (buildPortContracts w)] := by simp [Silent]
  have hnone : Silent [] := by simp [Silent]
  unfold generateTop RunAnswers.TopGenerated
  cases hr : a.retrieve with
  | error e => exact Or.inr ⟨by simp, e, w, [], rfl, hnone, by simp⟩
  | ok u =>
    cases hq : a.queryKnowledge with
    | error e => exact Or.inr ⟨by simp, e, w, [], rfl, hnone, by simp⟩
    | ok u' =>
      cases hg : a.generateTopV with
      | error e => exact Or.inr ⟨by simp, e, _, _, rfl, hsilent, rfl⟩
      | ok verilog => exact Or.inl ⟨⟨rfl, rfl, verilog, rfl⟩, verilog, _, rfl, rfl⟩

variable (unicode args a) in
/-- What a turn of the loop adds to the events: a verified report of the module, or a report of
a `top` that was generated, or no report. -/
lemma stepModule_events (s : Session) (m : String) :
    ∃ es, Silent es ∧
      ((m ≠ "top" ∧ ∃ disk, (stepModule unicode args a s m).world.events =
          s.world.events ++ es ++ [.reported m disk] ∧ Verified m disk (s.world.events ++ es)) ∨
        (m = "top" ∧ a.TopGenerated ∧ ∃ disk, (stepModule unicode args a s m).world.events =
          s.world.events ++ es ++ [.reported m disk]) ∨
        (¬(m = "top" ∧ a.TopGenerated) ∧
          (stepModule unicode args a s m).world.events = s.world.events ++ es)) := by
  by_cases htop : m = "top"
  · simp only [stepModule, if_pos htop]
    rcases generateTop_cases (a := a) s.world with ⟨hgen, v, w', heq, hev⟩ |
      ⟨hgen, e, w', es, heq, hes, hev⟩
    · refine ⟨[.generateTopV (buildPortContracts s.world)], by simp [Silent], Or.inr (Or.inl ?_)⟩
      refine ⟨htop, hgen, w'.verilog.get? m, ?_⟩
      simp only [heq, World.report, World.note, hev]
    · exact ⟨es, hes, Or.inr (Or.inr ⟨fun h => hgen h.2, by simp only [heq, hev]⟩)⟩
  · obtain ⟨es, hev, hes⟩ := @generateWithLintFix_events (fun _ verilog => validate verilog m) m
      s.acceptedFiles args.maxIterations (a.generate m) unicode s.world
    have hsilent : Silent es := by
      intro ev hm
      rcases hes ev hm with ⟨d, errors, rfl⟩ | ⟨t, errors, rfl⟩ | ⟨t, errors, rfl⟩ <;> simp [htop]
    refine ⟨es, hsilent, ?_⟩
    simp only [stepModule, if_neg htop]
    cases hrun : generateModule unicode args a m s with
    | mk result w' =>
      have hw' : w'.events = s.world.events ++ es := by
        rw [generateModule] at hrun
        rw [hrun] at hev
        exact hev
      cases result with
      | ok v =>
        have hok := @generateWithLintFix_ok (fun _ verilog => validate verilog m) m
          s.acceptedFiles args.maxIterations (a.generate m) unicode s.world v
          (congrArg Prod.fst hrun)
        rw [generateModule] at hrun
        simp only [hrun, hw'] at hok
        obtain ⟨hdisk, hlint, hval, k, hk⟩ := hok
        refine Or.inl ⟨htop, w'.verilog.get? m, ?_, normalizeVerilogText v, hdisk, ?_, ?_, ?_⟩
        · simp only [World.report, World.note, hw']
        · exact ⟨s.acceptedFiles, hdisk ▸ hlint⟩
        · exact ⟨v, rfl, hval⟩
        · rw [validate_normalize, hk]
      | error e =>
        refine Or.inr (Or.inr ⟨fun h => htop h.1, ?_⟩)
        cases e <;> exact hw'

/-- Reports of other modules are of verified files, and nothing has linted `top`. -/
structure Reporting (events : List Event) : Prop where
  verified : ReportsVerified (· ≠ "top") events
  no_top_lint : ∀ allFiles disk errors, .lintCheck "top" allFiles disk errors ∉ events

lemma reporting_stepModule {s : Session} (h : Reporting s.world.events) (m : String) :
    Reporting (stepModule unicode args a s m).world.events := by
  obtain ⟨es, hes, hstep⟩ := stepModule_events unicode args a s m
  have hsilent : Reporting (s.world.events ++ es) := by
    refine ⟨reportsVerified_append h.verified fun m' disk hm => (hes _ hm).1 m' disk rfl, ?_⟩
    intro allFiles disk errors hm
    rcases List.mem_append.mp hm with hm | hm
    · exact h.no_top_lint _ _ _ hm
    · exact (hes _ hm).2 _ _ _ rfl
  have hreport : ∀ disk, (m ≠ "top" → Verified m disk (s.world.events ++ es)) →
      Reporting (s.world.events ++ es ++ [.reported m disk]) := by
    intro disk hv
    refine ⟨reportsVerified_report hsilent.verified hv, fun allFiles d errors hm => ?_⟩
    rcases List.mem_append.mp hm with hm | hm
    · exact hsilent.no_top_lint _ _ _ hm
    · simp at hm
  rcases hstep with ⟨hm, disk, hev, hv⟩ | ⟨hm, -, disk, hev⟩ | ⟨-, hev⟩
  · exact hev ▸ hreport disk fun _ => hv
  · exact hev ▸ hreport disk fun hne => absurd hm hne
  · exact hev ▸ hsilent

def TopReported (events : List Event) : Prop := ∃ disk, .reported "top" disk ∈ events

lemma topReported_stepModule (s : Session) (m : String) :
    TopReported (stepModule unicode args a s m).world.events ↔
      TopReported s.world.events ∨ (m = "top" ∧ a.TopGenerated) := by
  obtain ⟨es, hes, hstep⟩ := stepModule_events unicode args a s m
  have hno : ∀ disk, .reported "top" disk ∉ es := fun disk hm => (hes _ hm).1 _ _ rfl
  rcases hstep with ⟨hm, disk, hev, -⟩ | ⟨rfl, hgen, disk, hev⟩ | ⟨hgen, hev⟩
  · have hm' : "top" ≠ m := fun h => hm h.symm
    simp [TopReported, hev, hno, hm, hm']
  · exact ⟨fun _ => Or.inr ⟨rfl, hgen⟩, fun _ => ⟨disk, by simp [hev]⟩⟩
  · simp [TopReported, hev, hno, hgen]

lemma generateModules_events (ms : List String) (s : Session) (h : Reporting s.world.events) :
    Reporting (ms.foldl (stepModule unicode args a) s).world.events ∧
      (TopReported (ms.foldl (stepModule unicode args a) s).world.events ↔
        TopReported s.world.events ∨ ("top" ∈ ms ∧ a.TopGenerated)) := by
  induction ms generalizing s with
  | nil => exact ⟨h, by simp⟩
  | cons m ms ih =>
    obtain ⟨hrep, htop⟩ := ih (stepModule unicode args a s m) (reporting_stepModule h m)
    refine ⟨hrep, ?_⟩
    rw [List.foldl_cons, htop, topReported_stepModule, List.mem_cons, eq_comm]
    tauto

/-- A generated `top` is reported without any check; every other report is verified. -/
theorem reports_verified_iff (args : Args) (a : RunAnswers) (v : OrderedDict String Text)
    (c : OrderedDict String Contract) :
    (∀ m disk before, Reported (stepGenerate unicode args a ⟨v, c, []⟩).world.events m disk before →
      Verified m disk before) ↔
    ¬(args.skipGeneration = false ∧ "top" ∈ args.modulesToGenerate ∧ a.TopGenerated) := by
  have hstart : Reporting (⟨v, c, []⟩ : World).events :=
    ⟨fun m disk before h => absurd (reported_mem h) (by simp), by simp⟩
  cases hskip : args.skipGeneration with
  | true =>
    simp only [stepGenerate, hskip, if_true, Bool.true_eq_false, false_and, not_false_eq_true,
      iff_true]
    exact fun m disk before h => absurd (reported_mem h) (by simp)
  | false =>
    obtain ⟨hrep, htop⟩ := @generateModules_events unicode args a
      args.modulesToGenerate ⟨⟨v, c, []⟩, [], []⟩ hstart
    have hempty : ¬TopReported (⟨v, c, []⟩ : World).events := by simp [TopReported]
    rw [or_iff_right hempty] at htop
    simp only [stepGenerate, hskip, Bool.false_eq_true, if_false, generateModules, true_and,
      ← htop]
    constructor
    · rintro hall ⟨disk, hdisk⟩
      obtain ⟨before, after, hsplit⟩ := List.append_of_mem hdisk
      obtain ⟨text, -, ⟨allFiles, hlint⟩, -⟩ := hall "top" disk before ⟨after, hsplit⟩
      apply hrep.no_top_lint allFiles disk []
      rw [hsplit]
      exact List.mem_append_left _ hlint
    · intro hno m disk before h
      apply hrep.verified m disk before h
      rintro rfl
      exact hno ⟨disk, reported_mem h⟩

end Step

/-- A run for `top` alone, which is answered with an empty module. -/
def topOnly : Args × RunAnswers :=
  (⟨false, some "top".toList, 1⟩,
    ⟨fun _ => ⟨.ok (), .ok (), .ok (), .ok [], fun _ => .ok [], fun _ => .ok []⟩,
      .ok (), .ok (), .ok "module top(input clk, input rst);\nendmodule".toList⟩)

/-- Its report follows no check at all. -/
theorem reports_verified_fails :
    ¬∀ m disk before, Reported (stepGenerate (fun _ => false) topOnly.1 topOnly.2
      ⟨.empty, .empty, []⟩).world.events m disk before → Verified m disk before := by
  intro hall
  have hms : topOnly.1.modulesToGenerate = ["top"] := by decide +kernel
  have hrun : (stepGenerate (fun _ => false) topOnly.1 topOnly.2
      ⟨.empty, .empty, []⟩).world.events =
      [.generateTopV (buildPortContracts ⟨.empty, .empty, []⟩),
        .reported "top" (some "module top(input clk, input rst);\nendmodule".toList)] := by
    simp only [stepGenerate, generateModules, hms]
    rfl
  obtain ⟨text, -, ⟨allFiles, hlint⟩, -⟩ := hall "top" _ [_] ⟨[], hrun⟩
  simp at hlint

end Rv32iRtl
