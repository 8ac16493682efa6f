import Rv32iRtl.Generator

/-! The generation of the modules one after another, `step_generate` of `run_pipeline.py`. -/
namespace Rv32iRtl

def MODULE_ORDER : List String :=
  ["alu", "regfile", "decoder", "branch_unit", "lsu", "csr_unit", "hazard_unit", "pipeline_regs",
    "top"]

/-- The arguments that matter here; a negative number of iterations is as none. -/
structure Args where
  skipGeneration : Bool
  modules : Option Text
  maxIterations : ℕ

/-- No selection, or an empty one, means all modules. -/
def Args.modulesToGenerate (args : Args) : List String :=
  match args.modules with
  | none => MODULE_ORDER
  | some [] => MODULE_ORDER
  | some modules =>
    let requested := (modules.splitOnP (· = ',')).map (TextLines.strip isSpace)
    MODULE_ORDER.filter fun m => m.toList ∈ requested

/-- The answers of the calls made in one run. -/
structure RunAnswers where
  generate : String → Answers
  /-- The calls for `top`. -/
  retrieve : Except Text Unit
  queryKnowledge : Except Text Unit
  generateTopV : Except Text Text

def Port.format (p : Port) : Text :=
  "  ".toList ++ p.direction ++ [' '] ++ p.width ++ [' '] ++ p.name

def Contract.format (c : Contract) : Text :=
  "// ".toList ++ c.moduleName ++ ['\n'] ++ ['\n'].intercalate (c.ports.map Port.format)

/-- All contract files, by the order of their names. -/
def World.metaFiles (w : World) : List (String × Contract) :=
  w.contracts.entries.mergeSort fun p q => p.1 ++ "_meta.json" ≤ q.1 ++ "_meta.json"

def buildPortContracts (w : World) : Text :=
  "=== EXACT PORT CONTRACTS ===\n".toList ++
    "\n\n".toList.intercalate (w.metaFiles.map fun p => p.2.format)

structure Session where
  world : World
  acceptedFiles : List String
  failedModules : List String

def World.report (w : World) (m : String) : World := w.note [.reported m (w.verilog.get? m)]

/-- The branch for `top`. -/
def generateTop (a : RunAnswers) (w : World) : Except Text Text × World :=
  match a.retrieve, a.queryKnowledge with
  | .error e, _ => (.error e, w)
  | .ok _, .error e => (.error e, w)
  | .ok _, .ok _ =>
    let w := w.note [.generateTopV (buildPortContracts w)]
    match a.generateTopV with
    | .error e => (.error e, w)
    | .ok verilog => (.ok verilog, w.writeVerilog "top" verilog)

section

variable (unicode : Char → Bool) (args : Args) (a : RunAnswers)

def generateModule (m : String) (s : Session) : Except Exn Text × World :=
  generateWithLintFix (fun _ verilog => validate verilog m) m s.acceptedFiles args.maxIterations
    (a.generate m) unicode s.world

/-- One turn of the loop over the modules. A file that fails the lint is still passed on to the
modules after it. -/
def stepModule (s : Session) (m : String) : Session :=
  if m = "top" then
    match generateTop a s.world with
    | (.ok _, w) => ⟨w.report m, s.acceptedFiles ++ [m], s.failedModules⟩
    | (.error _, w) => ⟨w, s.acceptedFiles, s.failedModules ++ [m]⟩
  else
    match generateModule unicode args a m s with
    | (.ok _, w) => ⟨w.report m, s.acceptedFiles ++ [m], s.failedModules⟩
    | (.error (.lintFailureError ..), w) =>
      let acceptedFiles :=
        if (w.verilog.get? m).isSome then s.acceptedFiles ++ [m] else s.acceptedFiles
      ⟨w, acceptedFiles, s.failedModules ++ [m]⟩
    | (.error (.other _), w) => ⟨w, s.acceptedFiles, s.failedModules ++ [m]⟩

def generateModules (ms : List String) (w : World) : Session :=
  ms.foldl (stepModule unicode args a) ⟨w, [], []⟩

def stepGenerate (w : World) : Session :=
  if args.skipGeneration then ⟨w, w.verilog.keys.mergeSort fun m m' => m ++ ".v" ≤ m' ++ ".v", []⟩
  else generateModules unicode args a args.modulesToGenerate w

end

end Rv32iRtl
