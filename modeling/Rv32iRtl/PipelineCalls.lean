import Rv32iRtl.LastWrite
import Rv32iRtl.LintCheck
import Rv32iRtl.PortContracts
import Rv32iRtl.TestRunner

/-! Calls of the whole pipeline, `main` of `run_pipeline.py`, one after another, with the outcomes of
their `docker` commands: what the container has of the modules when Verilator runs there, and which
binary the tests are run on. -/
namespace Rv32iRtl

/-- A run of `sim/obj_dir/Vtop` on its `mem_init.hex`. -/
abbrev SimBin := Option Text → Simulation

/-- The copies in `rtl/generated` of the container, what `make` has left there, and the files of
the test runner. -/
structure Container where
  rtl : OrderedDict String Text
  simBin : Option SimBin
  hexFile : Option Text
  isaResults : Option Text

structure Machine where
  world : World
  container : Container
  /-- The files of `results/`. -/
  isaResults : Option Text
  summary : Option Text

/-- A call of the pipeline: its arguments, and what it finds outside. Of the commands in the
container, an error is one that cannot be started, or whose output cannot be read. -/
structure PipelineCall extends Run where
  skipSim : Bool
  skipTests : Bool
  apiKey : Bool
  /-- The corpus and the knowledge base are built or skipped, without an exception. -/
  prepared : Bool
  /-- The copies of a lint check, by module, attempt and place. -/
  lintCp : String → ℕ → ℕ → CpOutcome
  /-- The copies before the compilation. -/
  compileCp : ℕ → CpOutcome
  /-- The files of the command line, and all that `rtl/generated` holds. -/
  verilator : List String → OrderedDict String Text → Except Text Bool
  /-- Whether `make` succeeds, and the binary after it. -/
  make : List String → OrderedDict String Text → Option SimBin → Except Text Bool × Option SimBin
  /-- Whether the container has run the test runner. -/
  testsExec : Except Text Bool
  runner : Host
  /-- The copy of the report to the host. -/
  resultsCp : CpOutcome

/-- `docker cp` of one file after another: one that fails leaves the file that is there, and one that
cannot be started raises. -/
def World.copy (w : World) (cp : ℕ → CpOutcome) :
    ℕ → List String → OrderedDict String Text → Except Text Unit × OrderedDict String Text
  | _, [], rtl => (.ok (), rtl)
  | n, f :: files, rtl =>
    match cp n with
    | .notStarted e => (.error e, rtl)
    | .exited returncode => copy w cp (n + 1) files
        (if returncode = 0 then (w.verilog.get? f).elim rtl (rtl.set f) else rtl)

/-- The files whose copies have exited without an error. -/
def arrived (cp : ℕ → CpOutcome) : ℕ → List String → List String
  | _, [] => []
  | n, f :: files =>
    match cp n with
    | .notStarted _ => []
    | .exited returncode =>
      if returncode = 0 then f :: arrived cp (n + 1) files else arrived cp (n + 1) files

section

variable (validate : ℕ → Text → List Text) (m : String) (allFiles : List String)
  (maxIterations : ℕ) (a : Answers) (cp : ℕ → ℕ → CpOutcome) (w : World)

/-- `lint_check` copies its own file and those that it depends on, as far as they exist. -/
def lintCopies (attempt : ℕ) (currentVerilog : Text) (rtl : OrderedDict String Text) :
    OrderedDict String Text :=
  let w := w.writeVerilog m (normalizeVerilogText currentVerilog)
  let filesToSync := (m :: allFiles).filter fun f => (w.verilog.get? f).isSome
  (w.copy (cp attempt) 0 filesToSync rtl).2

/-- The copies that are made in the loop over the attempts. -/
def lintLoopCopies : List ℕ → Text → OrderedDict String Text → OrderedDict String Text
  | [], _, rtl => rtl
  | attempt :: attempts, currentVerilog, rtl =>
    let rtl := lintCopies m allFiles cp w attempt currentVerilog rtl
    match a.lintCheck attempt with
    | .error _ => rtl
    | .ok lintErrors =>
      if lintErrors ++ validate attempt currentVerilog = [] then rtl
      else if attempt < maxIterations then
        match a.fixWithFeedback attempt with
        | .error _ => rtl
        | .ok fixed => lintLoopCopies attempts fixed rtl
      else lintLoopCopies attempts currentVerilog rtl

/-- The copies that are made for one module. -/
def moduleCopies (rtl : OrderedDict String Text) : OrderedDict String Text :=
  match a.firstCandidate with
  | .error _ => rtl
  | .ok verilog =>
    lintLoopCopies validate m allFiles maxIterations a cp w (List.range' 1 maxIterations) verilog rtl

end

section

variable (unicode : Char → Bool)

/-- The copies that are made for the modules one after another; `top` is not linted. -/
def generationCopies (args : Args) (a : RunAnswers) (cp : String → ℕ → ℕ → CpOutcome) :
    List String → Session → OrderedDict String Text → OrderedDict String Text
  | [], _, rtl => rtl
  | m :: ms, s, rtl => generationCopies args a cp ms (stepModule unicode args a s m)
      (if m = "top" then rtl
        else moduleCopies (fun _ verilog => validate verilog m) m s.acceptedFiles args.maxIterations
          (a.generate m) (cp m) s.world rtl)

/-- The files of the Verilator command; `top.v` is there even if it has not been generated. -/
def verilatorFiles (generatedFiles : List String) : List String :=
  "top" :: generatedFiles.filter fun m => m ≠ "top"

/-- The lines of `summary.md`. -/
def summaryText (generatedFiles : List String) (compileOk : Bool) : Text :=
  ['\n'].intercalate (["# Pipeline Run Summary".toList, [],
    "Generated modules: ".toList ++ Nat.toDigits 10 generatedFiles.length, [],
    "| Module | File |".toList, "|--------|------|".toList] ++
    generatedFiles.map (fun m =>
      "| ".toList ++ m.toList ++ " | ".toList ++ m.toList ++ ".v |".toList) ++
    [[], "Verilator compile: ".toList ++ (if compileOk then "OK".toList else "FAILED".toList), [],
      "See \x60results/isa_results.md\x60 for ISA test results.".toList,
      "See \x60results/generation_log.jsonl\x60 for per-attempt generation log.".toList]) ++ ['\n']

namespace PipelineCall

variable (c : PipelineCall)

def session (m : Machine) : Session := stepGenerate unicode c.args c.answers m.world

/-- The container's modules after the generation. -/
def linted (m : Machine) : OrderedDict String Text :=
  generationCopies unicode c.args c.answers c.lintCp c.moduleNames ⟨m.world, [], []⟩ m.container.rtl

/-- The copies before the compilation. -/
def sync (m : Machine) : Except Text Unit × OrderedDict String Text :=
  (c.session unicode m).world.copy c.compileCp 0 (c.session unicode m).acceptedFiles
    (c.linted unicode m)

/-- The container's modules when Verilator runs. -/
def synced (m : Machine) : OrderedDict String Text := (c.sync unicode m).2

/-- The files that these copies have delivered. -/
def sent (m : Machine) : List String :=
  arrived c.compileCp 0 (c.session unicode m).acceptedFiles

def files (m : Machine) : List String := verilatorFiles (c.session unicode m).acceptedFiles

/-- `step_compile`, given the modules that the generation has left in the container. -/
def stepCompile (s : Session) (container : Container) : Except Text Bool × Container :=
  if c.skipSim then (.ok false, container)
  else
    match s.world.copy c.compileCp 0 s.acceptedFiles container.rtl with
    | (.error e, rtl) => (.error e, { container with rtl })
    | (.ok _, rtl) =>
      let files := verilatorFiles s.acceptedFiles
      match c.verilator files rtl with
      | .error e => (.error e, { container with rtl })
      | .ok false => (.ok false, { container with rtl })
      | .ok true =>
        let (ok, simBin) := c.make files rtl container.simBin
        (ok, { container with rtl, simBin })

/-- The runner's world with the binary of the container. -/
def runnerOn (simBin : Option SimBin) : Host :=
  { c.runner with simBinExists := simBin.isSome, simulate := simBin.getD fun _ => .raised }

/-- `step_run_tests`: the container's report, if there is one, is copied to the host in any case. -/
def stepRunTests (container : Container) (isaResults : Option Text) :
    Except Text Unit × Container × Option Text :=
  if c.skipTests then (.ok (), container, isaResults)
  else
    match c.testsExec with
    | .error e => (.error e, container, isaResults)
    | .ok ran =>
      let ended := (c.runnerOn container.simBin).main container.hexFile container.isaResults
      let container :=
        if ran then { container with hexFile := ended.hexFile, isaResults := ended.report }
        else container
      match c.resultsCp with
      | .notStarted e => (.error e, container, isaResults)
      | .exited returncode => (.ok (), container,
          if returncode = 0 then container.isaResults.or isaResults else isaResults)

def compiled (m : Machine) : Except Text Bool × Container :=
  c.stepCompile (c.session unicode m) { m.container with rtl := c.linted unicode m }

/-- The exit code, and what the call leaves. -/
def main (m : Machine) : ℕ × Machine :=
  if c.args.skipGeneration = false ∧ c.apiKey = false then (1, m)
  else if c.prepared = false then (1, m)
  else
    let s := c.session unicode m
    match c.compiled unicode m with
    | (.error _, container) => (1, ⟨s.world, container, m.isaResults, m.summary⟩)
    | (.ok compileOk, container) =>
      match c.stepRunTests container m.isaResults with
      | (.error _, container, isaResults) => (1, ⟨s.world, container, isaResults, m.summary⟩)
      | (.ok _, container, isaResults) =>
        (0, ⟨s.world, container, isaResults, some (summaryText s.acceptedFiles compileOk)⟩)

end PipelineCall

end

section Generation

variable {unicode : Char → Bool} {args : Args} {a : RunAnswers}

lemma mem_of_arrived {cp : ℕ → CpOutcome} {n : ℕ} {files : List String} {f : String}
    (h : f ∈ arrived cp n files) : f ∈ files := by
  induction files generalizing n with
  | nil => exact h
  | cons g files ih =>
    rw [arrived] at h
    cases hcp : cp n with
    | notStarted e => simp [hcp] at h
    | exited returncode =>
      simp only [hcp] at h
      split_ifs at h
      · rcases List.mem_cons.mp h with rfl | h
        · exact List.mem_cons_self
        · exact List.mem_cons_of_mem g (ih h)
      · exact List.mem_cons_of_mem g (ih h)

lemma arrived_of_exited {cp : ℕ → CpOutcome} (h : ∀ n, cp n = .exited 0) (n : ℕ)
    (files : List String) : arrived cp n files = files := by
  induction files generalizing n with
  | nil => rfl
  | cons f files ih => simp only [arrived, h n, if_true, ih]

lemma get?_copy (w : World) (cp : ℕ → CpOutcome) (n : ℕ) (files : List String)
    (rtl : OrderedDict String Text) (f : String) :
    (w.copy cp n files rtl).2.get? f =
      if f ∈ arrived cp n files then (w.verilog.get? f).or (rtl.get? f) else rtl.get? f := by
  induction files generalizing n rtl with
  | nil => rfl
  | cons g files ih =>
    rw [World.copy, arrived]
    cases cp n with
    | notStarted e => simp
    | exited returncode =>
      by_cases h0 : returncode = 0
      · have hget : ((w.verilog.get? g).elim rtl (rtl.set g)).get? f =
            if f = g then (w.verilog.get? g).or (rtl.get? f) else rtl.get? f := by
          cases w.verilog.get? g with
          | none => simp
          | some text => simp only [Option.elim_some, OrderedDict.get?_set, eq_comm, Option.some_or]
        simp only [h0, if_true, ih, hget]
        by_cases hf : f = g
        · subst hf
          cases w.verilog.get? f <;> simp
        · simp [hf]
      · simp only [h0, if_false, ih]

lemma copy_other (w : World) (cp : ℕ → CpOutcome) (n : ℕ) {files : List String} {f : String}
    (h : f ∉ files) (rtl : OrderedDict String Text) :
    (w.copy cp n files rtl).2.get? f = rtl.get? f := by
  rw [get?_copy, if_neg fun harr => h (mem_of_arrived harr)]

section Lint

variable {validate : ℕ → Text → List Text} {m : String} {allFiles : List String}
  {maxIterations : ℕ} {answers : Answers} {cp : ℕ → ℕ → CpOutcome} {w : World}
  (hm : m ≠ "top") (hfiles : "top" ∉ allFiles)

include hm hfiles

lemma lintCopies_top (attempt : ℕ) (currentVerilog : Text) (rtl : OrderedDict String Text) :
    (lintCopies m allFiles cp w attempt currentVerilog rtl).get? "top" = rtl.get? "top" := by
  apply copy_other
  intro h
  rcases List.mem_cons.mp (List.mem_filter.mp h).1 with h | h
  · exact hm h.symm
  · exact hfiles h

/-- The lint checks copy no `top`. -/
lemma lintLoopCopies_top (attempts : List ℕ) (currentVerilog : Text)
    (rtl : OrderedDict String Text) :
    (lintLoopCopies validate m allFiles maxIterations answers cp w attempts currentVerilog rtl).get?
      "top" = rtl.get? "top" := by
  induction attempts generalizing currentVerilog rtl with
  | nil => rfl
  | cons attempt attempts ih =>
    have hcopies := @lintCopies_top m allFiles cp w hm hfiles attempt currentVerilog rtl
    rw [lintLoopCopies]
    cases answers.lintCheck attempt with
    | error e => exact hcopies
    | ok lintErrors =>
      dsimp only
      split_ifs
      · exact hcopies
      · cases answers.fixWithFeedback attempt with
        | error e => exact hcopies
        | ok fixed => exact (ih fixed _).trans hcopies
      · exact (ih currentVerilog _).trans hcopies

lemma moduleCopies_top (rtl : OrderedDict String Text) :
    (moduleCopies validate m allFiles maxIterations answers cp w rtl).get? "top" =
      rtl.get? "top" := by
  rw [moduleCopies]
  cases answers.firstCandidate with
  | error e => rfl
  | ok verilog => exact lintLoopCopies_top hm hfiles _ verilog rtl

end Lint

lemma generateTop_ok {w w' : World} {v : Text} (h : generateTop a w = (.ok v, w')) :
    w'.verilog.get? "top" = some v := by
  unfold generateTop at h
  cases hr : a.retrieve with
  | error e => simp [hr] at h
  | ok _ =>
    cases hq : a.queryKnowledge with
    | error e => simp [hr, hq] at h
    | ok _ =>
      cases hg : a.generateTopV with
      | error e => simp [hr, hq, hg] at h
      | ok verilog =>
        simp only [hr, hq, hg, Prod.mk.injEq, Except.ok.injEq] at h
        obtain ⟨rfl, rfl⟩ := h
        simp [World.note, World.writeVerilog, OrderedDict.get?_set]

variable (unicode args a) in
/-- A turn accepts its module or not; what it accepts is in its file. -/
lemma stepModule_accepts (s : Session) (m : String) :
    let s' := stepModule unicode args a s m
    s'.acceptedFiles = s.acceptedFiles ∨
      s'.acceptedFiles = s.acceptedFiles ++ [m] ∧ (s'.world.verilog.get? m).isSome = true := by
  by_cases htop : m = "top"
  · simp only [stepModule, if_pos htop]
    cases hrun : generateTop a s.world with
    | mk result w =>
      cases result with
      | error e => exact Or.inl rfl
      | ok v =>
        have hfile : w.verilog.get? m = some v := htop ▸ generateTop_ok hrun
        exact Or.inr ⟨rfl, Option.isSome_of_eq_some hfile⟩
  · have hok := @generateWithLintFix_ok (fun _ verilog => validate verilog m) m s.acceptedFiles
      args.maxIterations (a.generate m) unicode s.world
    simp only [stepModule, if_neg htop, generateModule]
    cases hrun : generateWithLintFix (fun _ verilog => validate verilog m) m s.acceptedFiles
        args.maxIterations (a.generate m) unicode s.world with
    | mk result w =>
      rw [hrun] at hok
      cases result with
      | ok v => exact Or.inr ⟨rfl, Option.isSome_of_eq_some (hok rfl).1⟩
      | error e =>
        cases e with
        | other e => exact Or.inl rfl
        | lintFailureError _ _ _ =>
          by_cases hfile : (w.verilog.get? m).isSome = true
          · exact Or.inr ⟨if_pos hfile, hfile⟩
          · exact Or.inl (if_neg hfile)

/-- Every accepted file is there. -/
def Session.FilesThere (s : Session) : Prop :=
  ∀ m ∈ s.acceptedFiles, (s.world.verilog.get? m).isSome = true

lemma filesThere_stepModule {r : Run} {s : Session} (h : s.FilesThere) (m : String) :
    (stepModule unicode r.args r.answers s m).FilesThere := by
  have hkept : ∀ f, (s.world.verilog.get? f).isSome = true →
      ((stepModule unicode r.args r.answers s m).world.verilog.get? f).isSome = true := by
    intro f hf
    have hset : ∀ t, ((s.world.verilog.set m t).get? f).isSome = true := by
      intro t
      rw [OrderedDict.get?_set]
      split_ifs
      · rfl
      · exact hf
    rcases stepModule_files unicode r s m with ⟨-, -, heq | ⟨t, heq⟩⟩ |
      ⟨-, ⟨-, heq, -⟩ | ⟨first, k, -, heq, -⟩⟩
    · exact heq ▸ hf
    · exact heq ▸ hset t
    · exact heq ▸ hf
    · exact heq ▸ hset _
  intro f hf
  rcases stepModule_accepts unicode r.args r.answers s m with heq | ⟨heq, hm⟩
  · exact hkept f (h f (heq ▸ hf))
  · rw [heq] at hf
    rcases List.mem_append.mp hf with hf | hf
    · exact hkept f (h f hf)
    · obtain rfl := List.mem_singleton.mp hf
      exact hm

lemma filesThere_foldl {r : Run} (ms : List String) {s : Session} (h : s.FilesThere) :
    (ms.foldl (stepModule unicode r.args r.answers) s).FilesThere := by
  induction ms generalizing s with
  | nil => exact h
  | cons m ms ih => exact ih (filesThere_stepModule h m)

/-- Accepted files are some of the modules, in their order. -/
lemma accepted_sublist (ms : List String) (s : Session) :
    ∃ fs, (ms.foldl (stepModule unicode args a) s).acceptedFiles = s.acceptedFiles ++ fs ∧
      fs.Sublist ms := by
  induction ms generalizing s with
  | nil => exact ⟨[], (List.append_nil _).symm, List.Sublist.slnil⟩
  | cons m ms ih =>
    obtain ⟨fs, hfs, hsub⟩ := ih (stepModule unicode args a s m)
    rcases stepModule_accepts unicode args a s m with heq | ⟨heq, -⟩
    · exact ⟨fs, by rw [List.foldl_cons, hfs, heq], hsub.cons m⟩
    · refine ⟨m :: fs, ?_, hsub.cons_cons m⟩
      rw [List.foldl_cons, hfs, heq, List.append_assoc]
      rfl

lemma generationCopies_top {cp : String → ℕ → ℕ → CpOutcome} {ms : List String} {s : Session}
    (hs : "top" ∉ s.acceptedFiles) (hms : "top" ∉ ms.dropLast) (rtl : OrderedDict String Text) :
    (generationCopies unicode args a cp ms s rtl).get? "top" = rtl.get? "top" := by
  induction ms generalizing s rtl with
  | nil => rfl
  | cons m ms ih =>
    have hturn : (if m = "top" then rtl else moduleCopies (fun _ verilog => validate verilog m) m
        s.acceptedFiles args.maxIterations (a.generate m) (cp m) s.world rtl).get? "top" =
        rtl.get? "top" := by
      split_ifs with hm
      · rfl
      · exact moduleCopies_top hm hs rtl
    cases ms with
    | nil => exact hturn
    | cons m' ms =>
      rw [List.dropLast_cons_cons, List.mem_cons, not_or] at hms
      have hs' : "top" ∉ (stepModule unicode args a s m).acceptedFiles := by
        rcases stepModule_accepts unicode args a s m with heq | ⟨heq, -⟩
        · rwa [heq]
        · rw [heq, List.mem_append, List.mem_singleton]
          exact fun h => h.elim hs hms.1
      exact (ih hs' hms.2 _).trans hturn

/-- If `top` is generated, it comes last. -/
lemma top_last (r : Run) : "top" ∉ r.moduleNames.dropLast := by
  have hinit : "top" ∉ MODULE_ORDER.dropLast := by decide
  have hfilter : ∀ p : String → Bool, "top" ∉ (MODULE_ORDER.filter p).dropLast := by
    intro p h
    have hall : MODULE_ORDER = MODULE_ORDER.dropLast ++ ["top"] := rfl
    have hsub : (MODULE_ORDER.filter p).dropLast.Sublist (MODULE_ORDER.dropLast.filter p) := by
      rw [hall, List.filter_append, ← hall]
      cases hp : p "top" with
      | true => simp [hp]
      | false =>
        simp only [List.filter_cons, hp, List.filter_nil, Bool.false_eq_true, if_false,
          List.append_nil]
        exact List.dropLast_sublist _
    exact hinit (List.mem_filter.mp (hsub.subset h)).1
  simp only [Run.moduleNames, Args.modulesToGenerate]
  split_ifs
  · exact List.not_mem_nil
  · split
    · exact hinit
    · exact hinit
    · exact hfilter _

end Generation

namespace PipelineCall

variable (unicode : Char → Bool)

/-- The call gets as far as the generation. -/
def Runs (c : PipelineCall) : Prop :=
  ¬(c.args.skipGeneration = false ∧ c.apiKey = false) ∧ c.prepared = true

/-- The call delivers a `top` before it compiles. -/
def SendsTop (m : Machine) (c : PipelineCall) : Prop :=
  c.Runs ∧ c.skipSim = false ∧ "top" ∈ c.sent unicode m

/-- All copies are started, and Verilator accepts the files, so that `make` runs. -/
def Makes (m : Machine) (c : PipelineCall) : Prop :=
  c.Runs ∧ c.skipSim = false ∧ (c.sync unicode m).1 = .ok () ∧
    c.verilator (c.files unicode m) (c.synced unicode m) = .ok true

/-- The call comes to its tests. -/
def Continues (m : Machine) (c : PipelineCall) : Prop :=
  c.Runs ∧ (∃ ok, (c.compiled unicode m).1 = .ok ok) ∧ c.skipTests = false

/-- The test runner runs in the container. -/
def Tests (m : Machine) (c : PipelineCall) : Prop :=
  c.Continues unicode m ∧ c.testsExec = .ok true

/-- The report is copied to the host. -/
def Fetches (m : Machine) (c : PipelineCall) : Prop :=
  c.Continues unicode m ∧ (∃ ran, c.testsExec = .ok ran) ∧ c.resultsCp = .exited 0

def step (m : Machine) (c : PipelineCall) : Machine := (c.main unicode m).2

/-- The binary that the tests of the call run on. -/
def binary (m : Machine) (c : PipelineCall) : Option SimBin := (c.compiled unicode m).2.simBin

/-- The report that the test runner of the call leaves in the container. -/
def report (m : Machine) (c : PipelineCall) (simBin : Option SimBin) : Option Text :=
  ((c.runnerOn simBin).main m.container.hexFile m.container.isaResults).report

variable {unicode} {c : PipelineCall} {m : Machine}

lemma filesThere_session : (c.session unicode m).FilesThere := by
  rw [session, stepGenerate]
  split_ifs
  · intro f hf
    exact OrderedDict.mem_keys_iff.mp (List.mem_mergeSort.mp hf)
  · exact @filesThere_foldl unicode c.toRun _ _ fun f hf => absurd hf List.not_mem_nil

lemma accepted_nodup : (c.session unicode m).acceptedFiles.Nodup := by
  rw [session, stepGenerate]
  split_ifs with hskip
  · exact (List.mergeSort_perm _ _).nodup_iff.mpr m.world.verilog.nodup
  · obtain ⟨fs, hfs, hsub⟩ := @accepted_sublist unicode c.args c.answers c.args.modulesToGenerate
      ⟨m.world, [], []⟩
    have hnodup := moduleNames_nodup c.toRun
    rw [Run.moduleNames, if_neg hskip] at hnodup
    rw [generateModules, hfs]
    exact hnodup.sublist hsub

lemma linted_top : (c.linted unicode m).get? "top" = m.container.rtl.get? "top" :=
  generationCopies_top List.not_mem_nil (top_last c.toRun) _

lemma get?_synced (f : String) : (c.synced unicode m).get? f =
    if f ∈ c.sent unicode m then
      ((c.session unicode m).world.verilog.get? f).or ((c.linted unicode m).get? f)
    else (c.linted unicode m).get? f := get?_copy ..

lemma get?_synced_sent {f : String} (hf : f ∈ c.sent unicode m) :
    ∃ text, (c.session unicode m).world.verilog.get? f = some text ∧
      (c.synced unicode m).get? f = some text := by
  obtain ⟨text, htext⟩ := Option.isSome_iff_exists.mp (filesThere_session f (mem_of_arrived hf))
  refine ⟨text, htext, ?_⟩
  rw [get?_synced, if_pos hf, htext, Option.some_or]

lemma get?_synced_other {f : String} (hf : f ∉ c.sent unicode m) :
    (c.synced unicode m).get? f = (c.linted unicode m).get? f := by
  rw [get?_synced, if_neg hf]

lemma synced_top (h : "top" ∉ c.sent unicode m) :
    (c.synced unicode m).get? "top" = m.container.rtl.get? "top" :=
  (get?_synced_other h).trans linted_top

lemma compiled_rtl : (c.compiled unicode m).2.rtl =
    if c.skipSim then c.linted unicode m else c.synced unicode m := by
  rw [compiled, stepCompile, synced, sync]
  split_ifs
  · rfl
  · split <;> simp_all only
    split <;> rfl

lemma compiled_files : (c.compiled unicode m).2.hexFile = m.container.hexFile ∧
    (c.compiled unicode m).2.isaResults = m.container.isaResults := by
  rw [compiled, stepCompile]
  split_ifs
  · exact ⟨rfl, rfl⟩
  · split
    · exact ⟨rfl, rfl⟩
    · dsimp only
      split <;> exact ⟨rfl, rfl⟩

lemma binary_of_makes (h : c.Makes unicode m) : c.binary unicode m =
    (c.make (c.files unicode m) (c.synced unicode m) m.container.simBin).2 := by
  obtain ⟨-, hsim, hsync, hver⟩ := h
  have hcopy : c.sync unicode m = (.ok (), c.synced unicode m) := Prod.ext hsync rfl
  rw [sync] at hcopy
  rw [files] at hver
  rw [binary, compiled, stepCompile, if_neg (by simp [hsim])]
  simp only [hcopy, hver, files]

lemma binary_of_not_makes (hruns : c.Runs) (h : ¬c.Makes unicode m) :
    c.binary unicode m = m.container.simBin := by
  rw [binary, compiled, stepCompile]
  split_ifs with hsim
  · rfl
  · cases hcopy : (c.session unicode m).world.copy c.compileCp 0
        (c.session unicode m).acceptedFiles (c.linted unicode m) with
    | mk result rtl =>
      have hsync : c.sync unicode m = (result, rtl) := hcopy
      cases result with
      | error e => rfl
      | ok u =>
        dsimp only
        cases hver : c.verilator (verilatorFiles (c.session unicode m).acceptedFiles) rtl with
        | error e => rfl
        | ok accepted =>
          cases accepted with
          | false => rfl
          | true =>
            refine absurd ⟨hruns, eq_false_of_ne_true hsim, ?_, ?_⟩ h
            · rw [hsync]
            · rw [files, synced, hsync, hver]

lemma stepRunTests_container (container : Container) (isaResults : Option Text) :
    (c.stepRunTests container isaResults).2.1 =
      if c.skipTests = false ∧ c.testsExec = .ok true then
        let ended := (c.runnerOn container.simBin).main container.hexFile container.isaResults
        { container with hexFile := ended.hexFile, isaResults := ended.report }
      else container := by
  rw [stepRunTests]
  cases hskip : c.skipTests with
  | true => simp
  | false =>
    cases hexec : c.testsExec with
    | error e => simp
    | ok ran => cases ran <;> cases c.resultsCp <;> simp

lemma stepRunTests_isaResults (container : Container) (isaResults : Option Text) :
    (c.stepRunTests container isaResults).2.2 =
      if c.skipTests = false ∧ (∃ ran, c.testsExec = .ok ran) ∧ c.resultsCp = .exited 0 then
        (c.stepRunTests container isaResults).2.1.isaResults.or isaResults
      else isaResults := by
  rw [stepRunTests]
  cases hskip : c.skipTests with
  | true => simp
  | false =>
    cases hexec : c.testsExec with
    | error e => simp
    | ok ran =>
      cases hcp : c.resultsCp with
      | notStarted e => simp
      | exited returncode => by_cases h0 : returncode = 0 <;> simp [h0]

/-- What a call leaves that does not end before the generation. -/
lemma step_cases (h : c.Runs) :
    (∃ e, (c.compiled unicode m).1 = .error e ∧ c.step unicode m =
      ⟨(c.session unicode m).world, (c.compiled unicode m).2, m.isaResults, m.summary⟩) ∨
    ∃ ok summary, (c.compiled unicode m).1 = .ok ok ∧
      let tested := c.stepRunTests (c.compiled unicode m).2 m.isaResults
      c.step unicode m = ⟨(c.session unicode m).world, tested.2.1, tested.2.2, summary⟩ := by
  rw [step, main, if_neg h.1, if_neg (by simp [h.2])]
  cases hcomp : c.compiled unicode m with
  | mk result container =>
    cases result with
    | error e => exact Or.inl ⟨e, rfl, rfl⟩
    | ok ok =>
      right
      dsimp only
      cases htests : c.stepRunTests container m.isaResults with
      | mk result tested => cases result <;> exact ⟨ok, _, rfl, rfl⟩

lemma step_not_runs (h : ¬c.Runs) : c.step unicode m = m := by
  rw [step, main]
  split_ifs with hkey hprep
  · rfl
  · rfl
  · exact absurd ⟨hkey, eq_true_of_ne_false hprep⟩ h

lemma container_kept (hruns : c.Runs) (h : ¬c.Tests unicode m) :
    (c.step unicode m).container = (c.compiled unicode m).2 := by
  rcases @step_cases unicode c m hruns with ⟨e, -, heq⟩ | ⟨ok, summary, hok, heq⟩
  · rw [heq]
  · rw [heq]
    dsimp only
    rw [stepRunTests_container, if_neg fun hno => h ⟨⟨hruns, ⟨ok, hok⟩, hno.1⟩, hno.2⟩]

lemma container_tested (h : c.Tests unicode m) : (c.step unicode m).container =
    let ended := (c.runnerOn (c.binary unicode m)).main m.container.hexFile m.container.isaResults
    { (c.compiled unicode m).2 with hexFile := ended.hexFile, isaResults := ended.report } := by
  obtain ⟨⟨hruns, ⟨ok', hok'⟩, hskip⟩, hexec⟩ := h
  obtain ⟨hhex, hisa⟩ := @compiled_files unicode c m
  rcases @step_cases unicode c m hruns with ⟨e, he, -⟩ | ⟨ok, summary, -, heq⟩
  · rw [he] at hok'
    contradiction
  · rw [heq]
    dsimp only
    rw [stepRunTests_container, if_pos ⟨hskip, hexec⟩, hhex, hisa]
    rfl

lemma step_rtl (h : c.Runs) : (c.step unicode m).container.rtl =
    if c.skipSim then c.linted unicode m else c.synced unicode m := by
  rw [← compiled_rtl]
  by_cases htests : c.Tests unicode m
  · rw [container_tested htests]
  · rw [container_kept h htests]

lemma step_simBin (h : c.Runs) : (c.step unicode m).container.simBin = c.binary unicode m := by
  rw [binary]
  by_cases htests : c.Tests unicode m
  · rw [container_tested htests]
  · rw [container_kept h htests]

lemma report_kept (h : ¬c.Tests unicode m) :
    (c.step unicode m).container.isaResults = m.container.isaResults := by
  by_cases hruns : c.Runs
  · rw [container_kept hruns h]
    exact compiled_files.2
  · rw [step_not_runs hruns]

lemma report_tested (h : c.Tests unicode m) :
    (c.step unicode m).container.isaResults = c.report m (c.binary unicode m) := by
  rw [container_tested h]
  rfl

lemma isaResults_kept (h : ¬c.Fetches unicode m) : (c.step unicode m).isaResults = m.isaResults := by
  by_cases hruns : c.Runs
  · rcases @step_cases unicode c m hruns with ⟨e, -, heq⟩ | ⟨ok, summary, hok, heq⟩
    · rw [heq]
    · rw [heq]
      dsimp only
      rw [stepRunTests_isaResults, if_neg fun hno => h ⟨⟨hruns, ⟨ok, hok⟩, hno.1⟩, hno.2⟩]
  · rw [step_not_runs hruns]

lemma isaResults_fetched (h : c.Fetches unicode m) : (c.step unicode m).isaResults =
    (c.step unicode m).container.isaResults.or m.isaResults := by
  obtain ⟨⟨hruns, ⟨ok', hok'⟩, hskip⟩, hfetch⟩ := h
  rcases @step_cases unicode c m hruns with ⟨e, he, -⟩ | ⟨ok, summary, -, heq⟩
  · rw [he] at hok'
    contradiction
  · rw [heq]
    dsimp only
    rw [stepRunTests_isaResults, if_pos ⟨hskip, hfetch⟩]

lemma top_kept (h : ¬c.SendsTop unicode m) :
    (c.step unicode m).container.rtl.get? "top" = m.container.rtl.get? "top" := by
  by_cases hruns : c.Runs
  · rw [step_rtl hruns]
    split_ifs with hsim
    · exact linted_top
    · exact synced_top fun htop => h ⟨hruns, eq_false_of_ne_true hsim, htop⟩
  · rw [step_not_runs hruns]

lemma top_sent (h : c.SendsTop unicode m) :
    (c.step unicode m).container.rtl.get? "top" =
      (c.session unicode m).world.verilog.get? "top" := by
  obtain ⟨hruns, hsim, htop⟩ := h
  obtain ⟨text, hhost, hcopy⟩ := get?_synced_sent htop
  rw [step_rtl hruns, if_neg (by simp [hsim]), hhost, hcopy]

lemma simBin_kept (h : ¬c.Makes unicode m) :
    (c.step unicode m).container.simBin = m.container.simBin := by
  by_cases hruns : c.Runs
  · rw [step_simBin hruns, binary_of_not_makes hruns h]
  · rw [step_not_runs hruns]

variable (unicode) in
/-- Where the `top` in the container comes from, after any calls. -/
lemma top_cases (m : Machine) (calls : List PipelineCall) :
    let step := step unicode
    let m' := calls.foldl step m
    LastWrite.Silent step (SendsTop unicode) m calls ∧
        m'.container.rtl.get? "top" = m.container.rtl.get? "top" ∨
      ∃ before d later, calls = before ++ d :: later ∧
        LastWrite.Last step (SendsTop unicode) m before d later ∧
        m'.container.rtl.get? "top" =
          (d.session unicode (before.foldl step m)).world.verilog.get? "top" := by
  intro step m'
  rcases @LastWrite.view_cases _ _ _ step (SendsTop unicode)
    (fun m => m.container.rtl.get? "top") (fun m c h => top_kept h) m calls with
    hsilent | ⟨before, d, later, heq, hlast, hview⟩
  · exact Or.inl hsilent
  · exact Or.inr ⟨before, d, later, heq, hlast, hview.trans (top_sent hlast.writes)⟩

variable (unicode) in
/-- The binary is that of the last `make` of the calls, or the one from the start. -/
def BinaryOf (m : Machine) (calls : List PipelineCall) (simBin : Option SimBin) : Prop :=
  LastWrite.Silent (step unicode) (Makes unicode) m calls ∧ simBin = m.container.simBin ∨
    ∃ before c later, calls = before ++ c :: later ∧
      LastWrite.Last (step unicode) (Makes unicode) m before c later ∧
      let built := before.foldl (step unicode) m
      simBin = (c.make (c.files unicode built) (c.synced unicode built) built.container.simBin).2

lemma binaryOf_calls (m : Machine) (calls : List PipelineCall) :
    BinaryOf unicode m calls (calls.foldl (step unicode) m).container.simBin := by
  rcases @LastWrite.view_cases _ _ _ (step unicode) (Makes unicode) (fun m => m.container.simBin)
    (fun m c h => simBin_kept h) m calls with hsilent | ⟨before, c, later, heq, hlast, hview⟩
  · exact Or.inl hsilent
  · have hmade := (step_simBin hlast.writes.1).trans (binary_of_makes hlast.writes)
    exact Or.inr ⟨before, c, later, heq, hlast, hview.trans hmade⟩

variable (unicode) in
/-- The report is that of the last run of the tests in the calls, on the binary of the last `make` up
to that call, or the one from the start. -/
def ReportOf (m : Machine) (calls : List PipelineCall) (report : Option Text) : Prop :=
  LastWrite.Silent (step unicode) (Tests unicode) m calls ∧ report = m.container.isaResults ∨
    ∃ before t later, calls = before ++ t :: later ∧
      LastWrite.Last (step unicode) (Tests unicode) m before t later ∧
      ∃ simBin, BinaryOf unicode m (before ++ [t]) simBin ∧
        report = t.report (before.foldl (step unicode) m) simBin

lemma reportOf_calls (m : Machine) (calls : List PipelineCall) :
    ReportOf unicode m calls (calls.foldl (step unicode) m).container.isaResults := by
  rcases @LastWrite.view_cases _ _ _ (step unicode) (Tests unicode)
    (fun m => m.container.isaResults) (fun m c h => report_kept h) m calls with
    hsilent | ⟨before, t, later, heq, hlast, hview⟩
  · exact Or.inl hsilent
  · have hbinary := @binaryOf_calls unicode m (before ++ [t])
    rw [List.foldl_concat, step_simBin hlast.writes.1.1] at hbinary
    exact Or.inr ⟨before, t, later, heq, hlast, _, hbinary,
      hview.trans (report_tested hlast.writes)⟩

end PipelineCall

open PipelineCall

variable {unicode : Char → Bool}

/-- What the Verilator command of a call reads, after any calls and whatever `docker` does: every
file is named once; the container's text of a file that this call has delivered is the host's, and
of any other what the lint checks have left; and a `top` that is not delivered is that of the last
call which delivered one, or the one from the start. -/
theorem compiled_sources (m : Machine) (calls : List PipelineCall) (c : PipelineCall) :
    let m' := calls.foldl (step unicode) m
    let s := c.session unicode m'
    (c.files unicode m').Nodup ∧ (∀ f, f ∈ c.files unicode m' ↔ f = "top" ∨ f ∈ s.acceptedFiles) ∧
      ((∀ n, c.compileCp n = .exited 0) → c.sent unicode m' = s.acceptedFiles) ∧
      (∀ f ∈ c.sent unicode m', ∃ text, s.world.verilog.get? f = some text ∧
        (c.synced unicode m').get? f = some text) ∧
      (∀ f ∉ c.sent unicode m', (c.synced unicode m').get? f = (c.linted unicode m').get? f) ∧
      ("top" ∈ c.sent unicode m' ∨
        LastWrite.Silent (step unicode) (SendsTop unicode) m calls ∧
          (c.synced unicode m').get? "top" = m.container.rtl.get? "top" ∨
        ∃ before d later, calls = before ++ d :: later ∧
          LastWrite.Last (step unicode) (SendsTop unicode) m before d later ∧
          (c.synced unicode m').get? "top" =
            (d.session unicode (before.foldl (step unicode) m)).world.verilog.get? "top") := by
  intro m' s
  refine ⟨?_, fun f => ?_, fun h => arrived_of_exited h 0 _, fun f hf => get?_synced_sent hf,
    fun f hf => get?_synced_other hf, ?_⟩
  · have hno : "top" ∉ s.acceptedFiles.filter fun f => f ≠ "top" := by simp
    exact List.nodup_cons.mpr ⟨hno, accepted_nodup.filter _⟩
  · rw [files, verilatorFiles, List.mem_cons, List.mem_filter]
    by_cases hf : f = "top" <;> simp [hf, s]
  · by_cases htop : "top" ∈ c.sent unicode m'
    · exact Or.inl htop
    · rw [synced_top htop]
      exact Or.inr (top_cases unicode m calls)

/-- What `isa_results.md` on the host says after any calls, whatever `docker` does: it is the
container's report after the last call that has copied it, if there was one; that report is of the
last call up to then that has run the tests; and these were run on the binary of the last `make` up
to that call, in whatever call this was. -/
theorem tested_binary (m : Machine) (calls : List PipelineCall) :
    let m' := calls.foldl (step unicode) m
    LastWrite.Silent (step unicode) (Fetches unicode) m calls ∧ m'.isaResults = m.isaResults ∨
      ∃ before c later, calls = before ++ c :: later ∧
        LastWrite.Last (step unicode) (Fetches unicode) m before c later ∧
        ∃ report, ReportOf unicode m (before ++ [c]) report ∧
          m'.isaResults = report.or (before.foldl (step unicode) m).isaResults := by
  intro m'
  rcases @LastWrite.view_cases _ _ _ (step unicode) (Fetches unicode) Machine.isaResults
    (fun m c h => isaResults_kept h) m calls with hsilent | ⟨before, c, later, heq, hlast, hview⟩
  · exact Or.inl hsilent
  · have hreport := @reportOf_calls unicode m (before ++ [c])
    rw [List.foldl_concat] at hreport
    exact Or.inr ⟨before, c, later, heq, hlast, _, hreport,
      hview.trans (isaResults_fetched hlast.writes)⟩

end Rv32iRtl
