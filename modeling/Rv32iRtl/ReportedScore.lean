import Rv32iRtl.PipelineCalls

/-! From the core to the score: what the report on the host can say, if every binary that is built
simulates the core. -/
namespace Rv32iRtl

open PipelineCall

/-- The binary runs the core from a state that may depend on the image, unless it is stopped. -/
def SimBin.SimulatesCore (bin : SimBin) : Prop := ∀ hexFile,
  (∃ s₀, bin hexFile = .exited (simMain s₀) []) ∨
    ∃ stdout stderr, bin hexFile = .timeoutExpired stdout stderr

/-- What `make` leaves simulates the core, or has been there before. -/
def PipelineCall.MakesCore (c : PipelineCall) : Prop := ∀ files rtl old,
  ∀ bin ∈ (c.make files rtl old).2, SimBin.SimulatesCore bin ∨ old = some bin

def zeroReport : Text := reportText 0 44 fun _ => false

/-- After calls that started from `m₀`: the core is simulated, and the two reports are old ones or
count nothing. -/
structure ScoresNothing (m₀ m : Machine) : Prop where
  simBin : ∀ bin ∈ m.container.simBin, SimBin.SimulatesCore bin
  inside : m.container.isaResults = m₀.container.isaResults ∨
    m.container.isaResults = some zeroReport
  outside : m.isaResults = m₀.isaResults ∨ m.isaResults = m₀.container.isaResults ∨
    m.isaResults = some zeroReport

section

variable {unicode : Char → Bool} {c : PipelineCall} {m₀ m : Machine}

lemma report_core {simBin : Option SimBin} (hbin : ∀ bin ∈ simBin, SimBin.SimulatesCore bin) :
    c.report m simBin = m.container.isaResults ∨ c.report m simBin = some zeroReport := by
  have hsim : ∀ image, (c.runnerOn simBin).simVerdict image ≠ some true := by
    cases simBin with
    | none =>
      intro image
      exact Option.some_ne_none true ∘ Eq.symm
    | some bin =>
      apply simVerdict_core
      exact hbin bin rfl
  exact (main_without_pass hsim _ _).2

lemma binary_core (hruns : c.Runs) (hmake : c.MakesCore)
    (hbin : ∀ bin ∈ m.container.simBin, SimBin.SimulatesCore bin) :
    ∀ bin ∈ c.binary unicode m, SimBin.SimulatesCore bin := by
  intro bin hmem
  by_cases hmakes : c.Makes unicode m
  · rw [binary_of_makes hmakes] at hmem
    rcases hmake _ _ _ bin hmem with hcore | hold
    · exact hcore
    · exact hbin bin hold
  · rw [binary_of_not_makes hruns hmakes] at hmem
    exact hbin bin hmem

lemma ScoresNothing.step (h : ScoresNothing m₀ m) (hmake : c.MakesCore) :
    ScoresNothing m₀ (c.step unicode m) := by
  by_cases hruns : c.Runs
  · have hbin := @binary_core unicode c m hruns hmake h.simBin
    have hinside : (c.step unicode m).container.isaResults = m₀.container.isaResults ∨
        (c.step unicode m).container.isaResults = some zeroReport := by
      by_cases htests : c.Tests unicode m
      · rw [report_tested htests]
        rcases @report_core c m _ hbin with hold | hzero
        · rw [hold]
          exact h.inside
        · exact Or.inr hzero
      · rw [report_kept htests]
        exact h.inside
    refine ⟨?_, hinside, ?_⟩
    · rw [step_simBin hruns]
      exact hbin
    · by_cases hfetch : c.Fetches unicode m
      · rw [isaResults_fetched hfetch]
        cases hreport : (c.step unicode m).container.isaResults with
        | none => exact h.outside
        | some text =>
          rw [hreport] at hinside
          exact Or.inr hinside
      · rw [isaResults_kept hfetch]
        exact h.outside
  · rw [step_not_runs hruns]
    exact h

lemma ScoresNothing.foldl {calls : List PipelineCall} (h : ScoresNothing m₀ m)
    (hmake : ∀ c ∈ calls, c.MakesCore) :
    ScoresNothing m₀ (calls.foldl (PipelineCall.step unicode) m) := by
  induction calls generalizing m with
  | nil => exact h
  | cons c calls ih =>
    apply ih
    · exact h.step (hmake c List.mem_cons_self)
    · exact fun d hd => hmake d (List.mem_cons_of_mem c hd)

end

variable {unicode : Char → Bool}

/-- If every binary that is built simulates the core, the report on the host is an old one or counts
no test as passed, after any calls with any tests, whatever `docker` does. -/
theorem core_never_scores (m : Machine) (calls : List PipelineCall)
    (hbin : ∀ bin ∈ m.container.simBin, SimBin.SimulatesCore bin)
    (hmake : ∀ c ∈ calls, c.MakesCore) :
    let r := (calls.foldl (step unicode) m).isaResults
    r = m.isaResults ∨ r = m.container.isaResults ∨ r = some zeroReport := by
  have hstart : ScoresNothing m m := ⟨hbin, Or.inl rfl, Or.inl rfl⟩
  exact (hstart.foldl hmake).outside

/-- A call that compiles and tests what is there. -/
def coreCall : PipelineCall where
  args := ⟨true, none, 1⟩
  answers := ⟨fun _ => ⟨.error [], .error [], .error [], .error [], fun _ => .error [],
    fun _ => .error []⟩, .error [], .error [], .error []⟩
  skipSim := false
  skipTests := false
  apiKey := false
  prepared := true
  lintCp _ _ _ := .exited 0
  compileCp _ := .exited 0
  verilator _ _ := .ok true
  make _ _ _ := (.ok true, some fun _ => .exited (simMain (load [selfJump])) [])
  testsExec := .ok true
  runner := coreHost
  resultsCp := .exited 0

def freshMachine : Machine := ⟨.emptyDir, ⟨.empty, none, none, none⟩, none, none⟩

theorem core_never_scores_twice :
    let r := ([coreCall, coreCall].foldl (step fun _ => false) freshMachine).isaResults
    r = none ∨ r = none ∨ r = some zeroReport := by
  have hcall : coreCall.MakesCore := by
    intro files rtl old bin hbin
    obtain rfl := Option.some.inj hbin
    exact Or.inl fun _ => Or.inl ⟨_, rfl⟩
  apply core_never_scores freshMachine [coreCall, coreCall]
  · intro bin hbin
    contradiction
  · intro c hc
    obtain rfl : c = coreCall := by simpa using hc
    exact hcall

end Rv32iRtl
