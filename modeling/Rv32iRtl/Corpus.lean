import Rv32iRtl.Retrieval
import Rv32iRtl.LintCheck

/-! The corpus build of `corpus.py`: the modules of the whitelisted files, cut down to what is
embedded, stored beside the chunks of the ISA manual. -/
namespace Rv32iRtl

open Backtrack Backtrack.Regex TextLines

def WHITELIST : List (String × List String) := [
  ("picorv32", ["picorv32.v"]),
  ("ibex", ["rtl/ibex_alu.sv", "rtl/ibex_decoder.sv", "rtl/ibex_register_file_ff.sv",
    "rtl/ibex_load_store_unit.sv", "rtl/ibex_ex_block.sv"]),
  ("angelo", ["rtl/rv32i_header.vh", "rtl/rv32i_alu.v", "rtl/rv32i_forwarding.v",
    "rtl/rv32i_decoder.v", "rtl/rv32i_writeback.v", "rtl/rv32i_basereg.v",
    "rtl/rv32i_memoryaccess.v"]),
  ("pietroglyph", ["hdl/rv32i_pipelined_core.sv", "hdl/alu_behavioural.sv",
    "hdl/register_file.sv", "hdl/rv32i_defines.sv"])]

def HINTS : List (String × String) := [
  ("ibex_alu", "alu"), ("ibex_ex_block", "alu"), ("ibex_decoder", "decoder"),
  ("ibex_register_file_ff", "regfile"), ("ibex_load_store_unit", "lsu"),
  ("picorv32", "full_core"), ("rv32i_alu", "alu"), ("rv32i_decoder", "decoder"),
  ("rv32i_forwarding", "hazard"), ("rv32i_basereg", "regfile"), ("rv32i_memoryaccess", "lsu"),
  ("rv32i_writeback", "writeback"), ("rv32i_pipelined_core", "full_core"),
  ("alu_behavioural", "alu"), ("register_file", "regfile"), ("rv32i_defines", "full_core")]

def hint? (name : Text) : Option Text :=
  (HINTS.find? fun h => h.1.toList = name).map fun h => h.2.toList

def MAX_EMBED_CHARS : ℕ := 512 * 4
def MAX_SIG_CHARS : ℕ := 150 * 4

/-- `text.find(sub, start)` -/
def find (sub text : Text) (start : ℤ) : ℤ :=
  let first := if start < 0 then (start + text.length).toNat else start.toNat
  match (List.range (text.length + 1)).find? fun i => first ≤ i ∧ sub <+: text.drop i with
  | some i => i
  | none => -1

/-- Lines with their ends. -/
def linesKeepEnds : Text → List Text
  | [] => []
  | c :: cs =>
    match linesKeepEnds cs with
    | [] => [[c]]
    | l :: ls =>
      if isLineBreak c ∧ l.head?.all (fun d => !isCrLf c d) then [c] :: l :: ls else (c :: l) :: ls

/-- `\s*/\*.*?\*/\s*` -/
def blockCommentRe : Regex Char :=
  seq (many true isSpace) (seq (lit "/*".toList) (seq (many false fun _ => true)
    (seq (lit "*/".toList) (many true isSpace))))

def stripCopyright (text : Text) : Text :=
  let text := match (blockCommentRe.hits none text).head? with
    | some h => h.rest
    | none => text
  let skipped (line : Text) : Bool :=
    let stripped := strip isSpace line
    "//".toList <+: stripped ∨ stripped = []
  ((linesKeepEnds text).dropWhile skipped).flatten

section

variable (unicode : Char → Bool)

/-- `\bmodule\b.*?\bendmodule\b(?:\s*:\s*\w+)?` -/
def moduleRe : Regex Char :=
  seq (boundary (isWord unicode)) (seq (lit "module".toList) (seq (boundary (isWord unicode))
    (seq (many false fun _ => true) (seq (boundary (isWord unicode)) (seq (lit "endmodule".toList)
      (seq (boundary (isWord unicode)) (opt (seq (many true isSpace) (seq (lit ":".toList)
        (seq (many true isSpace) (plus (isWord unicode))))))))))))

def extractModules (text : Text) : List Text := ((moduleRe unicode).findAll text).map Hit.text

end

/-- `case\s*\(.*?endcase` -/
def caseRe : Regex Char :=
  seq (lit "case".toList) (seq (many true isSpace) (seq (lit "(".toList)
    (seq (many false fun _ => true) (lit "endcase".toList))))

/-- `$` -/
def endRe : Regex Char := alt stop (ahead (seq (lit "\n".toList) stop))

/-- `if\s*\(.*?(?=\s*(?:always|assign|module|endmodule|$))` -/
def ifRe : Regex Char :=
  seq (lit "if".toList) (seq (many true isSpace) (seq (lit "(".toList)
    (seq (many false fun _ => true) (ahead (seq (many true isSpace)
      (alt (lit "always".toList) (alt (lit "assign".toList) (alt (lit "module".toList)
        (alt (lit "endmodule".toList) endRe)))))))))

/-- The first of the longest. -/
def findLargestBlock (text : Text) : Text :=
  let candidates := (caseRe.findAll text ++ ifRe.findAll text).map Hit.text
  candidates.foldl (fun best c => if best.length < c.length then c else best) []

def makeEmbedWindow (moduleText summary : Text) : Text :=
  let rolePrefix := if summary ≠ [] then "// ROLE: ".toList ++ summary ++ ['\n'] else []
  let cleaned := stripCopyright moduleText
  let sigEnd := max (find ");".toList cleaned 0)
    (find ");".toList cleaned (find "module".toList cleaned 0))
  let sigEnd := if sigEnd = -1 then (cleaned.length : ℤ) else sigEnd
  let sigEnd := (min (sigEnd + 2) MAX_SIG_CHARS).toNat
  let signature := cleaned.take sigEnd
  let body := cleaned.drop sigEnd
  let largestBlock := findLargestBlock body
  let window := if largestBlock ≠ [] then
    signature ++ "\n// ...[BODY TRUNCATED]...\n".toList ++ largestBlock else cleaned
  (rolePrefix ++ window).take MAX_EMBED_CHARS

/-- Ids, titles and component hints of the chunks of the ISA manual. -/
def RISCV_ISA_SPEC_CHUNKS : List (String × String × String) := [
  ("riscv_spec::formats", "RV32I Instruction Formats", "decoder"),
  ("riscv_spec::opcodes", "RV32I Opcode Map", "decoder"),
  ("riscv_spec::alu_ops", "RV32I ALU Operation funct3/funct7 Encoding", "alu"),
  ("riscv_spec::branch", "RV32I Branch/Jump Instructions", "alu"),
  ("riscv_spec::memory", "RV32I Memory/Load/Store Instructions", "lsu"),
  ("riscv_spec::csr", "RV32I System/CSR Instructions", "full_core")]

def metadata (source filename moduleName componentHint : Text) : Metadata
  | "source" => some source
  | "filename" => some filename
  | "module_name" => some moduleName
  | "component_hint" => some componentHint
  | _ => none

/-- What the build finds outside: which repositories are there after the cloning, the files
in them, and the summaries of the language model (empty on failure). -/
structure Sources where
  cloned : String → Bool
  file : String → String → Option Text
  callLlmForSummary : Text → Text

/-- The collection, and the file of cached summaries. -/
structure Store where
  collection : Collection Text
  chunkSummaries : OrderedDict Text Text

/-- `collection.add`, which leaves an id alone that is there already. -/
def addDocuments (c : Collection Text) (docs : List (Text × Document)) : Collection Text :=
  docs.foldl (fun c d => if d.1 ∈ c.keys then c else c.set d.1 d.2) c

section

variable (chunkText : String → Text)

def specDocuments : List (Text × Document) :=
  RISCV_ISA_SPEC_CHUNKS.map fun chunk =>
    (chunk.1.toList, ⟨chunkText chunk.1, metadata "riscv_spec".toList
      "riscv-isa-manual/rv32i".toList chunk.2.1.toList chunk.2.2.toList⟩)

def ingestRiscvSpec (c : Collection Text) : Collection Text :=
  if c.entries.any fun e => e.2.metadata "source" = some "riscv_spec".toList then c
  else addDocuments c (specDocuments chunkText)

end

/-- A text to be embedded, and the one that its summary is asked for. -/
structure Piece where
  docId : Text
  text : Text
  summarized : Text
  metadata : Metadata

/-- `Path(rel_path).stem` -/
def fileStem (relPath : String) : Text := stem (relPath.toList.rtakeWhile (· ≠ '/'))

def docId (repoName relPath : String) (idx : ℕ) : Text :=
  repoName.toList ++ "::".toList ++ fileStem relPath ++ "::".toList ++ Nat.toDigits 10 idx

section

variable (unicode : Char → Bool) (src : Sources)

/-- The modules of a file, or the whole file if there are none. -/
def filePieces (repoName relPath : String) (sourceText : Text) : List Piece :=
  let fileHint := (hint? (fileStem relPath)).getD "unknown".toList
  match extractModules unicode sourceText with
  | [] => [⟨docId repoName relPath 0, sourceText, sourceText.take 800,
      metadata repoName.toList relPath.toList (fileStem relPath) fileHint⟩]
  | modules => modules.zipIdx.map fun p =>
      let moduleName := match (moduleNameRe unicode).search p.1 with
        | some m => (m.group 1).getD []
        | none => fileStem relPath
      ⟨docId repoName relPath p.2, p.1, p.1, metadata repoName.toList relPath.toList moduleName
        ((hint? moduleName).getD fileHint)⟩

/-- The pieces of all whitelisted files that are there. -/
def pieces : List Piece :=
  WHITELIST.flatMap fun repo =>
    if src.cloned repo.1 then
      repo.2.flatMap fun relPath =>
        match src.file repo.1 relPath with
        | some sourceText => filePieces unicode repo.1 relPath sourceText
        | none => []
    else []

structure Build where
  summaryCache : OrderedDict Text Text
  cacheDirty : Bool
  documents : List (Text × Document)

/-- Cached or new; only a summary that is not empty is kept. -/
def generateChunkSummary (moduleText cacheKey : Text) (cache : OrderedDict Text Text) :
    Text × OrderedDict Text Text :=
  match cache.get? cacheKey with
  | some summary => (summary, cache)
  | none =>
    let summary := src.callLlmForSummary moduleText
    (summary, if summary ≠ [] then cache.set cacheKey summary else cache)

def addPiece (b : Build) (p : Piece) : Build :=
  let (summary, cache) := generateChunkSummary src p.summarized p.docId b.summaryCache
  ⟨cache, b.cacheDirty || summary ≠ [],
    b.documents ++ [(p.docId, ⟨makeEmbedWindow p.text summary, p.metadata⟩)]⟩

/-- The error is `CorpusUnavailableError`. -/
def buildCorpus (chunkText : String → Text) (forceRebuild : Bool) (st : Store) :
    Except Text (Collection Text) × Store :=
  if forceRebuild = false ∧ 0 < st.collection.entries.length then (.ok st.collection, st)
  else
    let collection := if forceRebuild = true ∧ 0 < st.collection.entries.length then .empty
      else st.collection
    let collection := ingestRiscvSpec chunkText collection
    let b := (pieces unicode src).foldl (addPiece src) ⟨st.chunkSummaries, false, []⟩
    let chunkSummaries := if b.cacheDirty then b.summaryCache else st.chunkSummaries
    if b.documents = [] then
      (.error "No RTL source files were processed.".toList, ⟨collection, chunkSummaries⟩)
    else
      let collection := addDocuments collection b.documents
      (.ok collection, ⟨collection, chunkSummaries⟩)

end

end Rv32iRtl
