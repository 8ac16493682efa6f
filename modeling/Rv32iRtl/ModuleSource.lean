import Rv32iRtl.Corpus
import Rv32iRtl.Lexemes

/-! SystemVerilog sources as they are written, with the modules that they declare. -/
namespace Rv32iRtl

/-- A name is an identifier, or anything up to the next blank behind a backslash. -/
inductive ModuleName
  | simple (x : Identifier) (h : x.text ∉ ["static".toList, "automatic".toList])
  | escaped (t : Text) (h : ∀ c ∈ t, isPrintable c = true)

namespace ModuleName

def text : ModuleName → Text
  | simple x _ => x.text
  | escaped t _ => '\x5c' :: t

/-- The name that is declared. The backslash is not part of it. -/
def name : ModuleName → Text
  | simple x _ => x.text
  | escaped t _ => t

def Ends (t : Text) : ModuleName → Prop
  | simple _ _ => t.head?.any isIdentifierChar = false
  | escaped _ _ => ∀ c ∈ t.head?, isBlank c = true

def Escaped : ModuleName → Prop
  | simple _ _ => False
  | escaped _ _ => True

end ModuleName

inductive Lifetime
  | static
  | automatic

def Lifetime.text : Lifetime → Text
  | static => "static".toList
  | automatic => "automatic".toList

/-- What stands behind the keyword, up to the name. -/
structure ModuleHead where
  afterKeyword : Gap
  lifetime : Option (Lifetime × Gap)
  name : ModuleName
  keyword_apart : afterKeyword = [] → lifetime = none ∧ name.Escaped
  lifetime_apart : ∀ l, lifetime = some (l, []) → name.Escaped

def ModuleHead.lifetimeText (head : ModuleHead) : Text :=
  match head.lifetime with
  | some (l, g) => l.text ++ g.text
  | none => []

def ModuleHead.text (head : ModuleHead) : Text :=
  head.afterKeyword.text ++ (head.lifetimeText ++ head.name.text)

structure Label where
  beforeColon : Gap
  afterColon : Gap
  name : ModuleName

def labelText : Option Label → Text
  | some l => l.beforeColon.text ++ ':' :: (l.afterColon.text ++ l.name.text)
  | none => []

/-- The declaration ends, with its label, where the text goes on with `t`. -/
def LabelEnds (t : Text) : Option Label → Prop
  | some l => l.name.Ends t
  | none => t.head?.any isIdentifierChar = false ∧ ∀ (g : Gap) (u : Text), t ≠ g.text ++ ':' :: u

/-- A source: its lexemes and, among them, declarations with a source inside. -/
inductive Source
  | done
  /-- A line comment at the end of the file. -/
  | lastComment (t : Text) (h : '\n' ∉ t)
  | lexeme (l : Lexeme) (rest : Source)
  | declaration (keyword : ModuleKeyword) (head : ModuleHead) (inside : Source)
      (label : Option Label) (rest : Source)

namespace Source

def text : Source → Text
  | done => []
  | lastComment t _ => "//".toList ++ t
  | lexeme l rest => l.text ++ rest.text
  | declaration keyword head inside label rest => keyword.text ++ (head.text ++ inside.text ++
      ("endmodule".toList ++ (labelText label ++ rest.text)))

/-- The text is cut into lexemes as it should be when `t` follows: every lexeme ends where the
next one starts, and the keywords of modules are those of the declarations. -/
def Lexed : Source → Text → Prop
  | done, _ => True
  | lastComment _ _, t => t = []
  | lexeme l rest, t => l.Ends (rest.text ++ t) ∧
      l.text ∉ ["module".toList, "macromodule".toList, "endmodule".toList] ∧ rest.Lexed t
  | declaration _ head inside label rest, t =>
    head.name.Ends (inside.text ++ ("endmodule".toList ++ (labelText label ++ (rest.text ++ t)))) ∧
      inside.Lexed ("endmodule".toList ++ (labelText label ++ (rest.text ++ t))) ∧
      LabelEnds (rest.text ++ t) label ∧ rest.Lexed t

/-- A declared module: the text from its keyword on, the text of the declaration, and the name. -/
structure Declared where
  place : Text
  text : Text
  name : Text

/-- The text of a declaration, with its label. -/
def chunk (keyword : ModuleKeyword) (head : ModuleHead) (inside : Source) (label : Option Label) :
    Text := keyword.text ++ (head.text ++ inside.text ++ ("endmodule".toList ++ labelText label))

/-- The modules that are declared, in the order of their keywords, when `t` follows. -/
def declared : Source → Text → List Declared
  | done, _ | lastComment _ _, _ => []
  | lexeme _ rest, t => rest.declared t
  | declaration keyword head inside label rest, t =>
    ⟨chunk keyword head inside label ++ (rest.text ++ t), chunk keyword head inside label,
        head.name.name⟩ ::
      (inside.declared ("endmodule".toList ++ (labelText label ++ (rest.text ++ t))) ++
        rest.declared t)

end Source

lemma any_isWordLike {o : Option Char} (ho : ∀ c ∈ o, c.toNat < 128)
    (h : o.any isIdentifierChar = false) : o.any isWordLike = false := by
  cases o with
  | none => rfl
  | some c =>
    rw [Option.any_some] at h ⊢
    rw [isWordLike, h, Bool.or_false]
    exact decide_eq_false (not_le_of_gt (ho c rfl))

lemma Gap.head_apart {g : Gap} {t : Text} (h : g = [] → t.head?.any isWordLike = false) :
    (g.text ++ t).head?.any isWordLike = false := by
  cases g with
  | nil => exact h rfl
  | cons x g =>
    have htext : Gap.text (x :: g) = x.text ++ Gap.text g := List.flatMap_cons
    rw [htext, List.append_assoc]
    rcases x.text_blank with ⟨c, hc, hx, -⟩ | ⟨-, u, hx⟩
    · rw [hx]
      exact isWordLike_of_isBlank hc
    · rw [hx]
      rfl

lemma isIdentifierChar_ascii {c : Char} (h : isIdentifierChar c = true) : c.toNat < 128 := by
  have hc := isIdentifierChar_toNat h
  omega

lemma Lexeme.head_ascii (l : Lexeme) (t : Text) : ∀ c ∈ (l.text ++ t).head?, c.toNat < 128 := by
  intro c hc
  rw [List.head?_append_of_ne_nil _ l.text_ne_nil] at hc
  cases l with
  | blank d h =>
    obtain rfl : d = c := Option.some.inj hc
    have hd := isBlank_toNat h
    omega
  | comment d =>
    cases d <;>
    · obtain rfl : '/' = c := Option.some.inj hc
      decide
  | string | directive | escaped | prototype =>
    obtain rfl := Option.some.inj hc
    decide
  | word d hne h => exact isIdentifierChar_ascii (h c (List.mem_of_head? hc))
  | symbol d h =>
    obtain rfl : d = c := Option.some.inj hc
    simp only [isSymbol, isPrintable, Bool.and_eq_true, decide_eq_true_eq] at h
    omega

namespace ModuleName

lemma text_ne_nil (n : ModuleName) : n.text ≠ [] := by
  cases n <;> exact List.cons_ne_nil _ _

lemma eq_escaped {n : ModuleName} (h : n.Escaped) : ∃ t ht, n = escaped t ht := by
  cases n with
  | simple x hx => exact h.elim
  | escaped t ht => exact ⟨t, ht, rfl⟩

lemma eq_simple {n : ModuleName} (h : ¬n.Escaped) : ∃ x hx, n = simple x hx := by
  cases n with
  | simple x hx => exact ⟨x, hx, rfl⟩
  | escaped t ht => exact absurd trivial h

lemma name_subset (n : ModuleName) : n.name ⊆ n.text := by
  cases n with
  | simple x hx => exact List.Subset.refl _
  | escaped t ht => exact List.subset_cons_self _ _

/-- A name does not end in front of a word. -/
lemma head_apart {n : ModuleName} {t : Text} (h : n.Ends t) :
    t.head?.any isIdentifierChar = false := by
  cases n with
  | simple => exact h
  | escaped =>
    cases t with
    | nil => rfl
    | cons c t => exact isIdentifierChar_of_isBlank (h c rfl)

end ModuleName

lemma head_apart_of_labelEnds {label : Option Label} {t : Text} (h : LabelEnds t label) :
    t.head?.any isIdentifierChar = false := by
  cases label with
  | none => exact h.1
  | some l => exact l.name.head_apart h

lemma ModuleHead.text_ne_nil (head : ModuleHead) : head.text ≠ [] :=
  List.append_ne_nil_of_right_ne_nil _
    (List.append_ne_nil_of_right_ne_nil _ head.name.text_ne_nil)

/-- The keyword ends in front of what is behind it. -/
lemma ModuleHead.head_apart (head : ModuleHead) : head.text.head?.any isWordLike = false := by
  refine Gap.head_apart fun hgap => ?_
  obtain ⟨hlifetime, hname⟩ := head.keyword_apart hgap
  rw [lifetimeText, hlifetime, List.nil_append]
  cases hn : head.name with
  | simple x h =>
    rw [hn] at hname
    exact hname.elim
  | escaped t h => rfl

namespace Source

lemma head_ascii (s : Source) {t : Text} (ht : ∀ c ∈ t.head?, c.toNat < 128) :
    ∀ c ∈ (s.text ++ t).head?, c.toNat < 128 := by
  cases s with
  | done => exact ht
  | lexeme l rest =>
    rw [text, List.append_assoc]
    exact l.head_ascii _
  | lastComment =>
    intro c hc
    obtain rfl := Option.some.inj hc
    decide
  | declaration keyword =>
    intro c hc
    cases keyword <;>
    · obtain rfl : 'm' = c := Option.some.inj hc
      decide

/-- Where a keyword follows, no word ends. -/
lemma last_apart {s : Source} {t : Text} {p : Option Char} (hs : s.Lexed t)
    (ht : t.head?.any isIdentifierChar = true) (hp : s = done → p.any isWordLike = false) :
    (s.text.getLast?.or p).any isWordLike = false := by
  induction s generalizing p with
  | done => exact hp rfl
  | lastComment u hu =>
    rw [show t = [] from hs] at ht
    contradiction
  | lexeme l rest ih =>
    obtain ⟨hl, -, hrest⟩ := hs
    rw [text, List.getLast?_append, Option.or_assoc]
    refine ih hrest fun hdone => ?_
    rw [hdone] at hl
    have hlast := Lexeme.last_apart hl ht
    rwa [Backtrack.Regex.getLast?_or_of_ne_nil l.text_ne_nil]
  | declaration keyword head inside label rest _ ih =>
    obtain ⟨-, -, hlabel, hrest⟩ := hs
    have hnext := head_apart_of_labelEnds hlabel
    simp only [text, List.getLast?_append, Option.or_assoc]
    refine ih hrest fun hdone => ?_
    rw [hdone, text, List.nil_append, ht] at hnext
    contradiction

/-- The keywords of a declaration stand apart from what is between and behind them. -/
structure Apart (inner behind : Text) : Prop where
  ne_nil : inner ≠ []
  keyword : inner.head?.any isWordLike = false
  closing : inner.getLast?.any isWordLike = false
  behind : behind.head?.any isWordLike = false

lemma apart {keyword : ModuleKeyword} {head : ModuleHead} {inside : Source} {label : Option Label}
    {rest : Source} {t : Text} (hs : (declaration keyword head inside label rest).Lexed t) (ht : ∀ c ∈ t.head?, c.toNat < 128) :
    Apart (head.text ++ inside.text) (labelText label ++ (rest.text ++ t)) := by
  obtain ⟨hname, hinside, hlabel, hrest⟩ := hs
  have hkeyword : ("endmodule".toList ++ (labelText label ++ (rest.text ++ t))).head?.any
      isIdentifierChar = true := rfl
  refine ⟨List.append_ne_nil_of_left_ne_nil head.text_ne_nil _, ?_, ?_, ?_⟩
  · rw [List.head?_append_of_ne_nil _ head.text_ne_nil]
    exact head.head_apart
  · rw [List.getLast?_append]
    refine last_apart hinside hkeyword fun hdone => ?_
    rw [hdone] at hname
    have hapart := head.name.head_apart hname
    rw [text, List.nil_append, hkeyword] at hapart
    contradiction
  · cases label with
    | none => exact any_isWordLike (rest.head_ascii ht) hlabel.1
    | some l =>
      rw [labelText, List.append_assoc]
      exact Gap.head_apart fun _ => rfl

end Source

end Rv32iRtl
