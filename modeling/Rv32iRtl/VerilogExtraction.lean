import Rv32iRtl.Corpus
import Rv32iRtl.WordSpan

/-! What `generator.py` takes out of the answers of the language model. -/
namespace Rv32iRtl

open Backtrack Backtrack.Regex TextLines

/-- A letter as `re.IGNORECASE` compares it: `i` has two more forms beyond ASCII. -/
def sameLetter (l c : Char) : Bool := c.toLower = l || (l = 'i' && [0x130, 0x131].elem c.toNat)

def litIgnoreCase (l : Text) : Regex Char := l.foldr (fun c r => seq (symbol (sameLetter c)) r) empty

def fence : Text := "```".toList

/-- A fence and a tag, and everything up to the next fence. -/
def fencedRe (tag : Regex Char) : Regex Char :=
  seq (lit fence) (seq tag (seq (many true isSpace) (seq (group 1 skip) (lit fence))))

/-- What the group of the first match holds. -/
def fenced (tag : Regex Char) (responseText : Text) : Option Text :=
  ((fencedRe tag).search responseText).map fun m => strip isSpace ((m.group 1).getD [])

/-- The error is a `ValueError`. -/
def extractVerilog (responseText : Text) : Except Text Text :=
  match fenced (litIgnoreCase "verilog".toList) responseText with
  | some code => .ok code
  | none =>
    match (fenced empty responseText).filter fun code => "module".toList <:+: code with
    | some code => .ok code
    | none =>
      let idx := find "module ".toList responseText 0
      if idx ≠ -1 then .ok (strip isSpace (responseText.drop idx.toNat))
      else .error "No Verilog code block found in LLM response".toList

section

variable (unicode : Char → Bool)

/-- `\bmodule\b.*?\bendmodule\b` -/
def fixedRe : Regex Char := span (isWord unicode) "module".toList "endmodule".toList empty

/-- What `fix_with_feedback` returns for the answer `fixed`. -/
def fixedVerilog (fixed : Text) : Text :=
  match (fixedRe unicode).search fixed with
  | some m => strip isSpace m.text
  | none => strip isSpace fixed

end

end Rv32iRtl
