import Rv32iRtl.HexConversion
import Rv32iRtl.PassDetector
import Rv32iRtl.VerilogText

/-! The test runner `run_tests.py`: which of the ISA tests it counts as passed, the report that
it writes and its exit code. One file `mem_init.hex` is shared by all the tests. -/
namespace Rv32iRtl

def RV32UI_TESTS : List String := [
  "add", "addi", "and", "andi", "auipc", "beq", "bge", "bgeu", "blt", "bltu", "bne", "fence_i",
  "jal", "jalr", "lb", "lbu", "lh", "lhu", "lui", "lw", "or", "ori", "sb", "sh", "simple", "sll",
  "slli", "slt", "slti", "sltiu", "sltu", "sra", "srai", "srl", "srli", "sub", "sw", "xor", "xori",
  "ma_data", "ebreak", "ecall", "ld_st", "st_ld"]

def elfName (testName : String) : String := "rv32ui-p-" ++ testName

def PROBE_FILE : String := "rv32ui-p-add"

/-- What becomes of a run of the simulation binary. Of a run that is cut off, `stdout` and `stderr`
are bytes, or missing where nothing has come. -/
inductive Simulation
  | exited (stdout stderr : Text)
  | timeoutExpired (stdout stderr : Text)
  | raised

/-- `(e.stdout or "") + (e.stderr or "")`, decoded: bytes and the string raise a `TypeError`. -/
def cutOffOutput (stdout stderr : Text) : Option Text :=
  if stdout.isEmpty = stderr.isEmpty then some (stdout ++ stderr) else none

/-- What the runner finds outside. -/
structure Host where
  riscvTestsPath : Option String
  fileExists : String → String → Bool
  /-- The files in `isa/` after a clone that succeeds. -/
  clone : Option (String → Bool)
  simBinExists : Bool
  objcopy : String → Objcopy
  /-- The binary reads `mem_init.hex`. -/
  simulate : Option Text → Simulation

def REPO_ISA_DIR : String := "data/riscv-tests/isa"

namespace Host

variable (h : Host)

def candidates : List String :=
  (match h.riscvTestsPath with
    | some path => if path = "" then [] else [path]
    | none => []) ++
  ["/usr/share/riscv-tests/isa", "/opt/riscv/share/riscv-tests/isa", "/opt/riscv-tests/isa",
    REPO_ISA_DIR]

def findRiscvTestsDir : Option (String → Bool) :=
  (h.candidates.find? fun candidate => h.fileExists candidate PROBE_FILE).map h.fileExists

def tryCloneRiscvTests : Option (String → Bool) :=
  if h.fileExists REPO_ISA_DIR PROBE_FILE then some (h.fileExists REPO_ISA_DIR)
  else h.clone.bind fun files => if files PROBE_FILE then some files else none

/-- The files of the directory that is used. -/
def isaDir : Option (String → Bool) := h.findRiscvTestsDir.or h.tryCloneRiscvTests

/-- The flag and the output, unless it raises, and the file `mem_init.hex` after it. -/
def runTest (testName : String) (hexFile : Option Text) : Option (Bool × Text) × Option Text :=
  if h.simBinExists = false then
    (some (false, "Simulation binary not found: sim/obj_dir/Vtop".toList), hexFile)
  else match elfToHex (h.objcopy testName) hexFile BASE_ADDR with
    | (none, hexFile) => (none, hexFile)
    | (some false, hexFile) =>
      (some (false, "elf_to_hex failed for ".toList ++ testName.toList), hexFile)
    | (some true, hexFile) =>
      match h.simulate hexFile with
      | .exited stdout stderr => (some (detectPass (stdout ++ stderr) false, stdout ++ stderr), hexFile)
      | .timeoutExpired stdout stderr =>
        ((cutOffOutput stdout stderr).map fun output => (detectPass output true, output), hexFile)
      | .raised => (none, hexFile)

end Host

/-- The results so far, and the counts of the last line printed. -/
structure Tally where
  results : OrderedDict String Bool
  passedCount : ℕ
  failedCount : ℕ
  skippedCount : ℕ

def Tally.start : Tally := ⟨.empty, 0, 0, 0⟩

section

variable (h : Host) (files : String → Bool)

/-- The loop over the tests; it ends early where a test raises. -/
def runAllTests : List String → Tally → Option Text → Option Tally × Option Text
  | [], t, hexFile => (some t, hexFile)
  | testName :: names, t, hexFile =>
    if files (elfName testName) = false then
      runAllTests names ⟨t.results.set testName false, t.passedCount, t.failedCount,
        t.skippedCount + 1⟩ hexFile
    else match h.runTest testName hexFile with
      | (none, hexFile) => (none, hexFile)
      | (some (passed, _), hexFile) =>
        runAllTests names ⟨t.results.set testName passed,
          if passed then t.passedCount + 1 else t.passedCount,
          if passed then t.failedCount else t.failedCount + 1, t.skippedCount⟩ hexFile

end

/-- The lines of `isa_results.md`. -/
def reportText (passed total : ℕ) (status : String → Bool) : Text :=
  ['\n'].intercalate (["# ISA Test Results".toList, [],
    "**Score: ".toList ++ Nat.toDigits 10 passed ++ ['/'] ++ Nat.toDigits 10 total ++ "**".toList,
    [], "| Test | Result |".toList, "|------|--------|".toList] ++
    RV32UI_TESTS.map fun testName =>
      "| rv32ui-p-".toList ++ testName.toList ++ " | ".toList ++
        (if status testName then "PASS".toList else "FAIL".toList) ++ " |".toList) ++ ['\n']

def writeResultsMd (results : OrderedDict String Bool) : Text :=
  reportText (results.entries.countP Prod.snd) results.entries.length fun testName =>
    (results.get? testName).getD false

/-- How the runner ends: its exit code, the counts that it prints, and the two files that it may
have written. -/
structure Ended where
  exitCode : ℕ
  printed : Option Tally
  hexFile : Option Text
  report : Option Text

/-- An exception that nothing catches ends the interpreter with code 1. -/
def Host.main (h : Host) (hexFile report : Option Text) : Ended :=
  match h.isaDir with
  | none => ⟨1, none, hexFile, report⟩
  | some files =>
    if h.simBinExists = false then ⟨1, none, hexFile, report⟩
    else match runAllTests h files RV32UI_TESTS .start hexFile with
      | (none, hexFile) => ⟨1, none, hexFile, report⟩
      | (some t, hexFile) =>
        let passed := t.results.entries.countP Prod.snd
        ⟨if passed = RV32UI_TESTS.length then 0 else 1, some t, hexFile,
          some (writeResultsMd t.results)⟩

namespace Host

variable (h : Host) (files : String → Bool)

/-- What a simulation of an image counts as. -/
def simVerdict (image : Text) : Option Bool :=
  match h.simulate (some image) with
  | .exited stdout stderr => some (detectPass (stdout ++ stderr) false)
  | .timeoutExpired stdout stderr => (cutOffOutput stdout stderr).map fun _ => false
  | .raised => none

/-- What a test comes to when it is run alone; nothing if it raises. -/
def verdict (testName : String) : Option Bool :=
  if files (elfName testName) = false then some false
  else match h.objcopy testName with
    | .notFound => some false
    | .raised => none
    | .exited returncode dump =>
      if returncode ≠ 0 then some false
      else (parseVerilogHex dump).bind fun byteMemory =>
        h.simVerdict (hexLines (wordArray (remap BASE_ADDR byteMemory)))

/-- The test passes. -/
def passes (testName : String) : Bool := h.verdict files testName = some true

variable {h files}

lemma runTest_verdict (hsim : h.simBinExists = true) {testName : String}
    (helf : files (elfName testName) = true) (hexFile : Option Text) :
    (h.runTest testName hexFile).1.map Prod.fst = h.verdict files testName := by
  have hfalse : ¬h.simBinExists = false := by simp [hsim]
  have hthere : ¬files (elfName testName) = false := by simp [helf]
  rw [runTest, if_neg hfalse, verdict, if_neg hthere]
  cases h.objcopy testName with
  | notFound => rfl
  | raised => rfl
  | exited returncode dump =>
    by_cases hcode : returncode = 0
    · have hok : ¬returncode ≠ 0 := not_not.mpr hcode
      simp only [elfToHex, if_neg hok]
      cases parseVerilogHex dump with
      | none => rfl
      | some byteMemory =>
        simp only [Option.bind_some, simVerdict]
        cases h.simulate (some (hexLines (wordArray (remap BASE_ADDR byteMemory)))) with
        | exited stdout stderr => rfl
        | timeoutExpired stdout stderr =>
          simp only [Option.map_map]
          rfl
        | raised => rfl
    · simp only [elfToHex, if_pos hcode]
      rfl

lemma verdict_missing {testName : String} (helf : files (elfName testName) = false) :
    h.verdict files testName = some false := by
  rw [verdict, if_pos helf]

end Host

section Run

variable {h : Host} {files : String → Bool}

/-- One test counted. -/
def Tally.count (t : Tally) (there : Bool) (testName : String) (passed : Bool) : Tally where
  results := t.results.set testName passed
  passedCount := t.passedCount + if passed then 1 else 0
  failedCount := t.failedCount + if there && !passed then 1 else 0
  skippedCount := t.skippedCount + if there then 0 else 1

lemma runAllTests_some (hsim : h.simBinExists = true) {testName : String} {passed : Bool}
    (hv : h.verdict files testName = some passed) (names : List String) (t : Tally)
    (hexFile : Option Text) : ∃ hexFile', runAllTests h files (testName :: names) t hexFile =
      runAllTests h files names (t.count (files (elfName testName)) testName passed) hexFile' := by
  cases helf : files (elfName testName) with
  | false =>
    rw [Host.verdict_missing helf] at hv
    obtain rfl := Option.some.inj hv
    exact ⟨hexFile, by rw [runAllTests, if_pos helf]; rfl⟩
  | true =>
    have hrun := Host.runTest_verdict hsim helf hexFile
    rw [hv] at hrun
    obtain ⟨⟨passed', output⟩, hfirst, rfl⟩ := Option.map_eq_some_iff.mp hrun
    refine ⟨(h.runTest testName hexFile).2, ?_⟩
    have heq : h.runTest testName hexFile =
        (some (passed', output), (h.runTest testName hexFile).2) := Prod.ext hfirst rfl
    rw [runAllTests, if_neg (by simp [helf]), heq]
    cases passed' <;> rfl

lemma runAllTests_none (hsim : h.simBinExists = true) {testName : String}
    (hv : h.verdict files testName = none) (names : List String) (t : Tally)
    (hexFile : Option Text) : (runAllTests h files (testName :: names) t hexFile).1 = none := by
  have helf : files (elfName testName) = true := by
    by_contra hno
    rw [Host.verdict_missing (Bool.not_eq_true _ ▸ hno)] at hv
    contradiction
  have hrun := Host.runTest_verdict hsim helf hexFile
  rw [hv, Option.map_eq_none_iff] at hrun
  have heq : h.runTest testName hexFile = (none, (h.runTest testName hexFile).2) :=
    Prod.ext hrun rfl
  rw [runAllTests, if_neg (by simp [helf]), heq]

/-- A run in which a test raises has no results. -/
lemma runAllTests_raises (hsim : h.simBinExists = true) {names : List String}
    (hraise : ∃ testName ∈ names, h.verdict files testName = none) (t : Tally)
    (hexFile : Option Text) : (runAllTests h files names t hexFile).1 = none := by
  induction names generalizing t hexFile with
  | nil => simp at hraise
  | cons testName names ih =>
    cases hv : h.verdict files testName with
    | none => exact runAllTests_none hsim hv names t hexFile
    | some passed =>
      obtain ⟨hexFile', hstep⟩ := runAllTests_some hsim hv names t hexFile
      rw [hstep]
      apply ih
      obtain ⟨other, hmem, hother⟩ := hraise
      rcases List.mem_cons.mp hmem with rfl | hmem
      · rw [hv] at hother
        contradiction
      · exact ⟨other, hmem, hother⟩

/-- What the counts and results are after the tests of a list. -/
structure Tally.Counts (t : Tally) (h : Host) (files : String → Bool) (names : List String) :
    Prop where
  results : t.results.entries = names.map fun n => (n, h.passes files n)
  passedCount : t.passedCount = names.countP (h.passes files)
  skippedCount : t.skippedCount = names.countP fun n => !files (elfName n)
  total : t.passedCount + t.failedCount + t.skippedCount = names.length

lemma Tally.Counts.count {t : Tally} {names : List String} (ht : t.Counts h files names)
    {testName : String} (hnew : testName ∉ names) {passed : Bool}
    (hv : h.verdict files testName = some passed) :
    (t.count (files (elfName testName)) testName passed).Counts h files (names ++ [testName]) := by
  have hpasses : h.passes files testName = passed := by simp [Host.passes, hv]
  have hkeys : testName ∉ t.results.entries.map Prod.fst := by
    rw [ht.results, List.map_map]
    simpa [Function.comp_def] using hnew
  have hthere : passed = true → files (elfName testName) = true := by
    intro hp
    by_contra hno
    rw [Host.verdict_missing (Bool.not_eq_true _ ▸ hno), hp] at hv
    simp at hv
  refine ⟨?_, ?_, ?_, ?_⟩
  · have hset : (t.count (files (elfName testName)) testName passed).results.entries =
        t.results.entries ++ [(testName, passed)] := OrderedDict.setEntry_new hkeys
    rw [hset, ht.results, List.map_append, List.map_singleton, hpasses]
  · rw [List.countP_append, List.countP_singleton, hpasses, ← ht.passedCount]
    rfl
  · rw [List.countP_append, List.countP_singleton, ← ht.skippedCount]
    cases hf : files (elfName testName) <;> simp [Tally.count]
  · have htotal := ht.total
    rw [List.length_append, List.length_singleton, ← htotal]
    cases hf : files (elfName testName) <;> cases passed <;> simp_all [Tally.count] <;> omega

/-- A run in which no test raises counts every test by its own verdict. -/
lemma runAllTests_counts (hsim : h.simBinExists = true) {names : List String}
    (hok : ∀ testName ∈ names, (h.verdict files testName).isSome = true) {before : List String}
    (hnodup : (before ++ names).Nodup) {t : Tally} (ht : t.Counts h files before)
    (hexFile : Option Text) :
    ∃ t' hexFile', runAllTests h files names t hexFile = (some t', hexFile') ∧
      t'.Counts h files (before ++ names) := by
  induction names generalizing before t hexFile with
  | nil => exact ⟨t, hexFile, rfl, by rwa [List.append_nil]⟩
  | cons testName names ih =>
    obtain ⟨passed, hv⟩ := Option.isSome_iff_exists.mp (hok testName List.mem_cons_self)
    have hnew : testName ∉ before := by
      intro hmem
      exact (List.nodup_append.mp hnodup).2.2 _ hmem _ List.mem_cons_self rfl
    obtain ⟨hexFile', hstep⟩ := runAllTests_some hsim hv names t hexFile
    have hsplit : before ++ testName :: names = (before ++ [testName]) ++ names :=
      List.append_cons before testName names
    rw [hsplit] at hnodup
    rw [hsplit, hstep]
    exact ih (fun n hn => hok n (List.mem_cons_of_mem testName hn)) hnodup (ht.count hnew hv) hexFile'

/-- The binary is there and no test raises. -/
def Host.Completes (h : Host) (files : String → Bool) : Prop :=
  h.simBinExists = true ∧ ∀ testName ∈ RV32UI_TESTS, (h.verdict files testName).isSome = true

instance : Decidable (h.Completes files) := inferInstanceAs (Decidable (_ ∧ _))

lemma Tally.Counts.report {t : Tally} (ht : t.Counts h files RV32UI_TESTS) :
    t.results.entries.countP Prod.snd = RV32UI_TESTS.countP (h.passes files) ∧
      writeResultsMd t.results = reportText (RV32UI_TESTS.countP (h.passes files))
        RV32UI_TESTS.length (h.passes files) := by
  have hcount : t.results.entries.countP Prod.snd = RV32UI_TESTS.countP (h.passes files) := by
    rw [ht.results, List.countP_map]
    rfl
  have hlength : t.results.entries.length = RV32UI_TESTS.length := by
    rw [ht.results, List.length_map]
  have hstatus : ∀ n ∈ RV32UI_TESTS, (t.results.get? n).getD false = h.passes files n := by
    intro n hn
    have hmem : (n, h.passes files n) ∈ t.results.entries := by
      rw [ht.results]
      exact List.mem_map_of_mem (f := fun n => (n, h.passes files n)) hn
    rw [(OrderedDict.mem_entries_iff _ _ _).mp hmem, Option.getD_some]
  refine ⟨hcount, ?_⟩
  rw [writeResultsMd, hcount, hlength, reportText, reportText]
  congr 3
  refine List.map_congr_left fun n hn => ?_
  rw [hstatus n hn]

lemma main_completes (hdir : h.isaDir = some files) (hok : h.Completes files)
    (hexFile report : Option Text) : let ended := h.main hexFile report
    ended.report = some (reportText (RV32UI_TESTS.countP (h.passes files)) RV32UI_TESTS.length
        (h.passes files)) ∧
      (∃ t, ended.printed = some t ∧ t.Counts h files RV32UI_TESTS) ∧
      ended.exitCode =
        if RV32UI_TESTS.countP (h.passes files) = RV32UI_TESTS.length then 0 else 1 := by
  have hempty : Tally.start.Counts h files [] := ⟨rfl, rfl, rfl, rfl⟩
  have hnodup : ([] ++ RV32UI_TESTS).Nodup := by decide
  have hthere : ¬h.simBinExists = false := by simp [hok.1]
  obtain ⟨t, hexFile', hrun, ht⟩ := runAllTests_counts hok.1 hok.2 hnodup hempty hexFile
  obtain ⟨hcount, hreport⟩ := ht.report
  have hmain : h.main hexFile report =
      ⟨if RV32UI_TESTS.countP (h.passes files) = RV32UI_TESTS.length then 0 else 1, some t, hexFile',
        some (reportText (RV32UI_TESTS.countP (h.passes files)) RV32UI_TESTS.length
          (h.passes files))⟩ := by
    simp only [Host.main, hdir, if_neg hthere, hrun, hreport, hcount]
  intro ended
  simp only [ended, hmain]
  exact ⟨trivial, ⟨t, rfl, ht⟩, trivial⟩

lemma main_fails (hno : ∀ files, h.isaDir = some files → ¬h.Completes files)
    (hexFile report : Option Text) : let ended := h.main hexFile report
    ended.exitCode = 1 ∧ ended.printed = none ∧ ended.report = report := by
  intro ended
  have hended : ended = h.main hexFile report := rfl
  rw [Host.main] at hended
  cases hdir : h.isaDir with
  | none =>
    rw [hdir] at hended
    rw [hended]
    exact ⟨rfl, rfl, rfl⟩
  | some files =>
    simp only [hdir] at hended
    by_cases hsim : h.simBinExists = true
    · have hthere : ¬h.simBinExists = false := by simp [hsim]
      have hraise : ∃ testName ∈ RV32UI_TESTS, h.verdict files testName = none := by
        by_contra hall
        refine hno files hdir ⟨hsim, fun n hn => Option.isSome_iff_ne_none.mpr fun hv => ?_⟩
        exact hall ⟨n, hn, hv⟩
      have hnone := runAllTests_raises hsim hraise Tally.start hexFile
      rw [if_neg hthere] at hended
      cases hrun : runAllTests h files RV32UI_TESTS .start hexFile with
      | mk result hexFile' =>
        rw [hrun] at hnone hended
        obtain rfl : result = none := hnone
        rw [hended]
        exact ⟨rfl, rfl, rfl⟩
    · rw [if_pos (Bool.not_eq_true _ ▸ hsim)] at hended
      rw [hended]
      exact ⟨rfl, rfl, rfl⟩

/-- Where the tests are found, the binary is there and no test raises, the report and the counts
give every test its own verdict, whatever image the tests before it have left behind, and the
exit code is 0 if and only if all tests pass. Otherwise there is no new report, and the exit code
is 1. -/
theorem run_tests_report (h : Host) (hexFile report : Option Text) :
    let ended := h.main hexFile report
    match h.isaDir with
    | none => ended = ⟨1, none, hexFile, report⟩
    | some files =>
      if h.Completes files then
        ended.report = some (reportText (RV32UI_TESTS.countP (h.passes files)) 44
            (h.passes files)) ∧
          (∃ t, ended.printed = some t ∧ t.Counts h files RV32UI_TESTS) ∧
          (ended.exitCode = 0 ↔ ∀ testName ∈ RV32UI_TESTS, h.passes files testName = true)
      else ended.exitCode = 1 ∧ ended.printed = none ∧ ended.report = report := by
  intro ended
  cases hdir : h.isaDir with
  | none => simp only [ended, Host.main, hdir]
  | some files =>
    dsimp only
    by_cases hok : h.Completes files
    · obtain ⟨hreport, hprinted, hcode⟩ := main_completes hdir hok hexFile report
      rw [if_pos hok]
      refine ⟨hreport, hprinted, ?_⟩
      change (h.main hexFile report).exitCode = 0 ↔ _
      rw [hcode, ← List.countP_eq_length]
      split_ifs with hall <;> simp [hall]
    · rw [if_neg hok]
      apply main_fails
      intro files' hdir'
      obtain rfl := Option.some.inj (hdir.symm.trans hdir')
      exact hok

/-- `sim_main.cpp`: twenty half periods under reset, then a million clock cycles. -/
def simMain (s₀ : Top) : Text :=
  output s₀ (List.replicate 10 true ++ List.replicate 1000000 false)

/-- The binary runs the core from a state that may depend on the image, unless it is stopped. -/
def Host.SimulatesCore (h : Host) : Prop := ∀ hexFile,
  (∃ s₀, h.simulate hexFile = .exited (simMain s₀) []) ∨
    ∃ stdout stderr, h.simulate hexFile = .timeoutExpired stdout stderr

lemma passes_of_simVerdict (hsim : ∀ image, h.simVerdict image ≠ some true) (testName : String) :
    h.passes files testName = false := by
  refine decide_eq_false fun hv => ?_
  rw [Host.verdict] at hv
  split_ifs at hv
  · simp at hv
  · cases hobj : h.objcopy testName with
    | notFound => simp [hobj] at hv
    | raised => simp [hobj] at hv
    | exited returncode dump =>
      simp only [hobj] at hv
      split_ifs at hv
      · simp at hv
      · cases hp : parseVerilogHex dump with
        | none => simp [hp] at hv
        | some byteMemory => simp [hp, hsim] at hv

lemma simVerdict_core (hcore : h.SimulatesCore) (image : Text) :
    h.simVerdict image ≠ some true := by
  rcases hcore (some image) with ⟨s₀, hs⟩ | ⟨stdout, stderr, hs⟩
  · rw [Host.simVerdict, hs]
    dsimp only
    rw [List.append_nil, simMain, detectPass_output]
    simp
  · rw [Host.simVerdict, hs]
    simp

/-- Without a simulation that passes there is no new report, or one that counts nothing. -/
lemma main_without_pass (hsim : ∀ image, h.simVerdict image ≠ some true)
    (hexFile report : Option Text) :
    (h.main hexFile report).exitCode = 1 ∧ ((h.main hexFile report).report = report ∨
      (h.main hexFile report).report = some (reportText 0 44 fun _ => false)) := by
  by_cases hrun : ∃ files, h.isaDir = some files ∧ h.Completes files
  · obtain ⟨files, hdir, hok⟩ := hrun
    have hpasses : h.passes files = fun _ => false := funext (passes_of_simVerdict hsim)
    obtain ⟨hreport, -, hcode⟩ := main_completes hdir hok hexFile report
    have hcount : RV32UI_TESTS.countP (fun _ => false) = 0 := by simp
    rw [hpasses, hcount] at hreport hcode
    exact ⟨hcode, Or.inr hreport⟩
  · have hno : ∀ files, h.isaDir = some files → ¬h.Completes files :=
      fun files hdir hok => hrun ⟨files, hdir, hok⟩
    obtain ⟨hcode, -, hreport⟩ := main_fails hno hexFile report
    exact ⟨hcode, Or.inl hreport⟩

/-- With the simulation of the core as its binary, the runner never ends with exit code 0, and
every report that it writes counts no test as passed, whatever the test files are. -/
theorem core_scores_nothing (h : Host) (hcore : h.SimulatesCore) (hexFile report : Option Text) :
    (h.main hexFile report).exitCode = 1 ∧ ((h.main hexFile report).report = report ∨
      (h.main hexFile report).report = some (reportText 0 44 fun _ => false)) :=
  main_without_pass (simVerdict_core hcore) hexFile report

/-- A host with the core, started from cleared registers, and all test files. -/
def coreHost : Host where
  riscvTestsPath := none
  fileExists _ _ := true
  clone := none
  simBinExists := true
  objcopy _ := .exited 0 []
  simulate _ := .exited (simMain (load [selfJump])) []

theorem core_scores_nothing_host : coreHost.SimulatesCore ∧
    (coreHost.main none none).exitCode = 1 ∧ ((coreHost.main none none).report = none ∨
      (coreHost.main none none).report = some (reportText 0 44 fun _ => false)) :=
  have hcore : coreHost.SimulatesCore := fun _ => Or.inl ⟨_, rfl⟩
  ⟨hcore, core_scores_nothing coreHost hcore none none⟩

end Run

end Rv32iRtl
