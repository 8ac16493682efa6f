import Rv32iRtl.HexText
import Rv32iRtl.TextLines
import Rv32iRtl.Backtrack

/-! The reading of Verilog texts in `generator.py`: the module name, the port contract and
the newline at the end of a file. -/
namespace Rv32iRtl

open Backtrack Backtrack.Regex

abbrev Text := List Char

instance : LawfulBEq Text := inferInstance

/-- The class `\w`. Which characters beyond ASCII are letters or digits is the Unicode
database's matter, a parameter here. -/
def isWord (unicode : Char → Bool) (c : Char) : Bool :=
  if c.toNat < 128 then c.isAlphanum || c = '_' else unicode c

def isNewline (c : Char) : Bool := c = '\r' || c = '\n'

/-- A single newline at the end. -/
def normalizeVerilogText (verilog : Text) : Text := verilog.rdropWhile isNewline ++ ['\n']

structure Port where
  direction : Text
  width : Text
  name : Text
  deriving DecidableEq, Repr

/-- The content of a `_meta.json` file. -/
structure Contract where
  moduleName : Text
  ports : List Port
  deriving DecidableEq, Repr

section Patterns

variable (unicode : Char → Bool)

/-- `\bmodule\s+(\w+)` -/
def moduleNameRe : Regex Char :=
  seq (boundary (isWord unicode)) (seq (lit "module".toList) (seq (plus isSpace)
    (group 1 (plus (isWord unicode)))))

def extractModuleName (verilog : Text) : Text :=
  match (moduleNameRe unicode).search verilog with
  | some m => (m.group 1).getD []
  | none => "unknown".toList

/-- `(input|output)\s+(?:wire\s+|reg\s+)?(?:\[([^\]]+)\]\s+)?(\w+)` -/
def portRe : Regex Char :=
  seq (group 1 (alt (lit "input".toList) (lit "output".toList))) (seq (plus isSpace)
    (seq (opt (alt (seq (lit "wire".toList) (plus isSpace)) (seq (lit "reg".toList) (plus isSpace))))
      (seq (opt (seq (lit "[".toList) (seq (group 2 (plus (· ≠ ']')))
          (seq (lit "]".toList) (plus isSpace)))))
        (group 3 (plus (isWord unicode))))))

/-- The names that are skipped as keywords matched by accident. -/
def portKeywords : List Text :=
  ["wire".toList, "reg".toList, "logic".toList, "signed".toList, "unsigned".toList]

def portOf (m : Hit Char) : Option Port :=
  let width := (m.group 2).getD []
  let name := (m.group 3).getD []
  if name ∈ portKeywords then none
  else some ⟨(m.group 1).getD [], if width = [] then ['1'] else '[' :: width ++ [']'], name⟩

def extractPorts (verilog : Text) : Contract where
  moduleName := extractModuleName unicode verilog
  ports := ((portRe unicode).findAll verilog).filterMap portOf

variable {unicode}

lemma isWord_of_isNewline {c : Char} (h : isNewline c = true) : isWord unicode c = false := by
  have hc : c = '\r' ∨ c = '\n' := by simpa [isNewline] using h
  rcases hc with rfl | rfl <;> rfl

lemma isNewline_of_isWord {c : Char} (h : isWord unicode c = true) : isNewline c = false := by
  by_contra hn
  rw [isWord_of_isNewline (Bool.not_eq_false _ ▸ hn)] at h
  contradiction

lemma endsOutside_words : (plus (isWord unicode)).EndsOutside isNewline :=
  ⟨fun _ => isNewline_of_isWord, Or.inl fun _ => isNewline_of_isWord⟩

lemma consumes_plus (P : Char → Bool) : (plus P).Consumes := Or.inl trivial

lemma moduleNameRe_trailing {n : Text} (hn : ∀ c ∈ n, isNewline c = true) (p : Text) :
    (moduleNameRe unicode).search (p ++ n) =
      ((moduleNameRe unicode).search p).map (extend n) := by
  refine search_trailing ?_ ?_ ?_ hn p
  · exact Or.inr (Or.inl (consumes_lit (by decide)))
  · exact ⟨fun _ => isWord_of_isNewline, steady_lit _, ⟨trivial, trivial⟩, trivial, trivial⟩
  · exact ⟨⟨⟨endsOutside_words, Or.inr (consumes_plus _)⟩, Or.inr (Or.inl (consumes_plus _))⟩,
      Or.inr (Or.inl (consumes_lit (by decide)))⟩

lemma portRe_trailing {n : Text} (hn : ∀ c ∈ n, isNewline c = true) (p : Text) :
    (portRe unicode).findAll (p ++ n) = ((portRe unicode).findAll p).map (extend n) := by
  have hsp : (plus isSpace).Steady isNewline := ⟨trivial, trivial⟩
  have hw : (plus (isWord unicode)).Consumes := consumes_plus _
  refine findAll_trailing ?_ ?_ ?_ hn p
  · exact Or.inr (Or.inl (consumes_plus _))
  · exact ⟨⟨steady_lit _, steady_lit _⟩, hsp,
      ⟨⟨⟨steady_lit _, hsp⟩, ⟨steady_lit _, hsp⟩⟩, trivial⟩,
      ⟨⟨steady_lit _, ⟨trivial, trivial⟩, steady_lit _, hsp⟩, trivial⟩, trivial, trivial⟩
  · exact ⟨⟨⟨⟨endsOutside_words, Or.inr hw⟩, Or.inr (Or.inr hw)⟩,
      Or.inr (Or.inr (Or.inr hw))⟩, Or.inr (Or.inl (consumes_plus _))⟩

lemma extractPorts_append {n : Text} (hn : ∀ c ∈ n, isNewline c = true) (p : Text) :
    extractPorts unicode (p ++ n) = extractPorts unicode p := by
  rw [extractPorts, extractPorts, extractModuleName, extractModuleName, moduleNameRe_trailing hn,
    portRe_trailing hn, List.filterMap_map]
  cases (moduleNameRe unicode).search p <;> rfl

lemma normalize_split (v : Text) :
    ∃ p n, v = p ++ n ∧ normalizeVerilogText v = p ++ ['\n'] ∧ ∀ c ∈ n, isNewline c = true := by
  refine ⟨v.rdropWhile isNewline, v.rtakeWhile isNewline, ?_, rfl, ?_⟩
  · exact (List.rdropWhile_append_rtakeWhile).symm
  · exact fun c hc => List.mem_rtakeWhile_imp hc

theorem extractPorts_normalize (v : Text) :
    extractPorts unicode (normalizeVerilogText v) = extractPorts unicode v := by
  obtain ⟨p, n, rfl, hnorm, hn⟩ := normalize_split v
  have hnl : ∀ c ∈ ['\n'], isNewline c = true := by simp [isNewline]
  rw [hnorm, extractPorts_append hnl, extractPorts_append hn]

end Patterns

example : extractPorts (fun _ => false) "module alu (input [31:0] a, output reg zero);".toList =
    ⟨"alu".toList, [⟨"input".toList, "[31:0]".toList, "a".toList⟩,
      ⟨"output".toList, ['1'], "zero".toList⟩]⟩ := by decide +kernel

end Rv32iRtl
