import Rv32iRtl.VerilogText

/-! Verilog modules with an ANSI port list, as they are written: declarations with blanks and
comments between their words, and a body that may be any text. -/
namespace Rv32iRtl

/-- The white space of Verilog. -/
def isBlank (c : Char) : Bool := [0x09, 0x0A, 0x0C, 0x0D, 0x20].elem c.toNat

inductive Comment
  | line (t : Text) (h : '\n' ∉ t)
  | block (t : Text) (h : ¬"*/".toList <:+: t ++ ['*'])

def Comment.text : Comment → Text
  | line t _ => "//".toList ++ t ++ ['\n']
  | block t _ => "/*".toList ++ t ++ "*/".toList

/-- What may stand between two words. -/
inductive Trivia
  | blank (c : Char) (h : isBlank c = true)
  | comment (c : Comment)

def Trivia.text : Trivia → Text
  | blank c _ => [c]
  | comment c => c.text

abbrev Gap := List Trivia

def Gap.text (g : Gap) : Text := g.flatMap Trivia.text

/-- At least one blank, and no comment. -/
def Gap.Blank (g : Gap) : Prop := g ≠ [] ∧ ∀ t ∈ g, ∃ c h, t = .blank c h

def isIdentifierChar (c : Char) : Bool := c.isAlphanum || c = '_' || c = '$'

def verilogKeywords : List Text :=
  ["module".toList, "endmodule".toList, "input".toList, "output".toList, "inout".toList,
    "wire".toList, "reg".toList, "logic".toList, "signed".toList, "unsigned".toList]

structure Identifier where
  first : Char
  rest : Text
  first_letter : first.isAlpha = true ∨ first = '_'
  rest_chars : ∀ c ∈ rest, isIdentifierChar c = true
  not_keyword : first :: rest ∉ verilogKeywords

def Identifier.text (x : Identifier) : Text := x.first :: x.rest

abbrev Written := List (Char ⊕ Comment)

def Written.text (l : Written) : Text := l.flatMap (Sum.elim (fun c => [c]) Comment.text)

/-- Without the comments. -/
def Written.bare (l : Written) : Text := l.filterMap Sum.getLeft?

/-- Every bracket is closed, given how many are open. -/
def balanced (opening closing : Char) : ℕ → Text → Bool
  | n, [] => n = 0
  | n, c :: cs =>
    if c = opening then balanced opening closing (n + 1) cs
    else if c = closing then n ≠ 0 && balanced opening closing (n - 1) cs
    else balanced opening closing n cs

structure Enclosed (opening closing : Char) where
  content : Written
  closed : balanced opening closing 0 content.bare = true
  no_line : ¬"//".toList <:+: content.bare
  no_block : ¬"/*".toList <:+: content.bare

def Enclosed.text {opening closing : Char} (e : Enclosed opening closing) : Text :=
  opening :: (e.content.text ++ [closing])

structure BitRange extends Enclosed '[' ']' where
  nonempty : content.bare ≠ []

/-- Without comments and without an index in it. -/
def BitRange.Plain (r : BitRange) : Prop :=
  (∀ x ∈ r.content, ∃ c, x = .inl c) ∧ ']' ∉ r.content.bare

inductive Direction
  | input
  | output

def Direction.text : Direction → Text
  | input => "input".toList
  | output => "output".toList

@[simp] lemma Direction.text_input : input.text = "input".toList := rfl

@[simp] lemma Direction.text_output : output.text = "output".toList := rfl

inductive NetType
  | wire
  | reg
  | logic

def NetType.text : NetType → Text
  | wire => "wire".toList
  | reg => "reg".toList
  | logic => "logic".toList

@[simp] lemma NetType.text_wire : wire.text = "wire".toList := rfl

@[simp] lemma NetType.text_reg : reg.text = "reg".toList := rfl

@[simp] lemma NetType.text_logic : logic.text = "logic".toList := rfl

/-- A declaration with its first name, and further names behind commas. -/
structure Declaration where
  before : Gap
  direction : Direction
  afterDirection : Gap
  net : Option (NetType × Gap)
  signed : Option Gap
  range : Option (BitRange × Gap)
  name : Identifier
  afterName : Gap
  more : List (Gap × Identifier × Gap)
  direction_apart : afterDirection = [] → net = none ∧ signed = none ∧ range ≠ none
  net_apart : ∀ n, net = some (n, []) → signed = none ∧ range ≠ none
  signed_apart : signed = some [] → range ≠ none

namespace Declaration

variable (d : Declaration)

def netText : Text :=
  match d.net with
  | some (n, g) => n.text ++ g.text
  | none => []

def signedText : Text :=
  match d.signed with
  | some g => "signed".toList ++ g.text
  | none => []

def rangeText : Text :=
  match d.range with
  | some (r, g) => r.text ++ g.text
  | none => []

/-- From the direction to the first name. -/
def core : Text :=
  d.direction.text ++ (d.afterDirection.text ++ (d.netText ++ (d.signedText ++
    (d.rangeText ++ d.name.text))))

/-- What is behind the first name. -/
def others : Text :=
  d.afterName.text ++ d.more.flatMap fun n => ',' :: (n.1.text ++ n.2.1.text ++ n.2.2.text)

def text : Text := d.before.text ++ d.core ++ d.others

def width : Text :=
  match d.range with
  | some (r, _) => '[' :: (r.content.bare ++ [']'])
  | none => ['1']

def names : List Identifier := d.name :: d.more.map fun n => n.2.1

/-- The ports that are declared. -/
def ports : List Port := d.names.map fun x => ⟨d.direction.text, d.width, x.text⟩

/-- A declaration of one name in the form that the port pattern knows. -/
structure Simple : Prop where
  alone : d.more = []
  name : '$' ∉ d.name.text
  direction_gap : d.afterDirection.Blank
  net : ∀ n g, d.net = some (n, g) → n ≠ .logic ∧ g.Blank
  signed : d.signed = none
  range : ∀ r g, d.range = some (r, g) → r.Plain ∧ g.Blank

end Declaration

/-- A module: `body` is what is between the semicolon of the header and `endmodule`. -/
structure AnsiModule where
  before : Gap
  afterKeyword : Gap
  name : Identifier
  afterName : Gap
  parameters : Option (Enclosed '(' ')' × Gap)
  ports : List Declaration
  afterPorts : Gap
  afterList : Gap
  body : Text
  after : Gap
  keyword_apart : afterKeyword ≠ []

namespace AnsiModule

variable (m : AnsiModule)

def parametersText : Text :=
  match m.parameters with
  | some (p, g) => '#' :: (p.text ++ g.text)
  | none => []

/-- From the name to the opening of the port list. -/
def header : Text := m.name.text ++ m.afterName.text ++ m.parametersText ++ ['(']

/-- From the end of the port list on. -/
def rest : Text :=
  m.afterPorts.text ++ [')'] ++ m.afterList.text ++ [';'] ++ m.body ++ "endmodule".toList ++
    m.after.text

/-- The declarations, with commas between them. -/
def portsText : Text := [','].intercalate (m.ports.map Declaration.text)

/-- From the keyword on. -/
def fromKeyword : Text :=
  "module".toList ++ (m.afterKeyword.text ++ (m.header ++ (m.portsText ++ m.rest)))

def text : Text := m.before.text ++ m.fromKeyword

/-- What is declared. -/
def contract : Contract := ⟨m.name.text, m.ports.flatMap Declaration.ports⟩

end AnsiModule

end Rv32iRtl
