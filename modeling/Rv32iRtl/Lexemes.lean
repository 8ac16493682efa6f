import Rv32iRtl.PortPattern
import Rv32iRtl.WordSpan

/-! The lexemes of a SystemVerilog text, as they are written one behind the other, and the words
that a text pattern sees in them. -/
namespace Rv32iRtl

open Backtrack Backtrack.Regex

/-- A character that a word may go on with, or one that Verilog has in comments and strings only. -/
def isWordLike (c : Char) : Bool := 128 ≤ c.toNat || isIdentifierChar c

section Words

variable {unicode : Char → Bool}

lemma isWordLike_of_isWord {c : Char} (h : isWord unicode c = true) : isWordLike c = true := by
  rw [isWord] at h
  split_ifs at h with hc
  · rw [isWordLike, isIdentifierChar, h, Bool.true_or, Bool.or_true]
  · rw [isWordLike, decide_eq_true (by omega), Bool.true_or]

lemma any_isWord {o : Option Char} (h : o.any isWordLike = false) :
    o.any (isWord unicode) = false := by
  cases o with
  | none => rfl
  | some c =>
    by_contra hc
    have hword : isWord unicode c = true := Bool.not_eq_false _ ▸ hc
    rw [Option.any_some, isWordLike_of_isWord hword] at h
    contradiction

lemma isWord_of_head {t : Text} (h : t.head?.any isWordLike = false) :
    ∀ c ∈ t.head?, isWord unicode c = false := by
  intro c hc
  have hword := @any_isWord unicode _ h
  rwa [hc] at hword

lemma isWord_keyword {w : Text} (hw : w ∈ verilogKeywords) : IsWord (isWord unicode) w := by
  have hne : ∀ w ∈ verilogKeywords, w ≠ [] ∧ '$' ∉ w := by decide
  refine ⟨(hne w hw).1, fun c hc => ?_⟩
  rw [isWord_of_isIdentifierChar (keyword_chars w hw c hc)]
  rintro rfl
  exact (hne w hw).2 hc

lemma isWord_module : IsWord (isWord unicode) "module".toList :=
  isWord_keyword (by simp [verilogKeywords])

lemma isWord_endmodule : IsWord (isWord unicode) "endmodule".toList :=
  isWord_keyword (by simp [verilogKeywords])

lemma isWord_of_isSpace (hu : ∀ c, isSpace c = true → unicode c = false) {c : Char}
    (h : isSpace c = true) : isWord unicode c = false := by
  by_contra hn
  have hw : isWord unicode c = true := Bool.not_eq_false _ ▸ hn
  rw [isWord] at hw
  split_ifs at hw with hc
  · have hident : isIdentifierChar c = true := by rw [isIdentifierChar, hw, Bool.true_or]
    rw [isSpace_of_isIdentifierChar hident] at h
    contradiction
  · rw [hu c h] at hw
    contradiction

lemma any_isWord_of_isSpace (hu : ∀ c, isSpace c = true → unicode c = false) {o : Option Char}
    (h : ∀ c ∈ o, isSpace c = true) : o.any (isWord unicode) = false := by
  cases o with
  | none => rfl
  | some c => exact isWord_of_isSpace hu (h c rfl)

end Words

/-- A line end or a quote in a string literal stands behind a backslash. -/
def stringContent : Text → Bool
  | [] => true
  | '\x5c' :: _ :: cs => stringContent cs
  | c :: cs => !([0x0A, 0x22, 0x5C].elem c.toNat) && stringContent cs

def isPrintable (c : Char) : Bool := 0x21 ≤ c.toNat && c.toNat ≤ 0x7E

/-- Neither part of a word nor the opening of another lexeme. -/
def isSymbol (c : Char) : Bool :=
  isPrintable c && !isIdentifierChar c && !([0x22, 0x5C, 0x60].elem c.toNat)

inductive ModuleKeyword
  | module
  | macromodule

def ModuleKeyword.text : ModuleKeyword → Text
  | module => "module".toList
  | macromodule => "macromodule".toList

inductive Lexeme
  | blank (c : Char) (h : isBlank c = true)
  | comment (c : Comment)
  | string (t : Text) (h : stringContent t = true)
  /-- An identifier, a keyword or a number. -/
  | word (t : Text) (hne : t ≠ []) (h : ∀ c ∈ t, isIdentifierChar c = true)
  | directive (t : Text) (h : ∀ c ∈ t, isIdentifierChar c = true)
  | escaped (t : Text) (h : ∀ c ∈ t, isPrintable c = true)
  | symbol (c : Char) (h : isSymbol c = true)
  /-- `extern module`, which no `endmodule` belongs to. -/
  | prototype (g : Gap) (h : g ≠ []) (keyword : ModuleKeyword)

lemma isPrintable_of_isSymbol {c : Char} (h : isSymbol c = true) : isPrintable c = true := by
  simp only [isSymbol, Bool.and_eq_true] at h
  exact h.1.1

lemma isSpace_of_isPrintable {c : Char} (h : isPrintable c = true) : isSpace c = false := by
  simp only [isPrintable, Bool.and_eq_true, decide_eq_true_eq] at h
  simp only [isSpace, List.elem_eq_mem, List.mem_cons, List.not_mem_nil]
  simp only [Bool.or_eq_false_iff, Bool.and_eq_false_iff, decide_eq_false_iff_not, or_false]
  omega

lemma isIdentifierChar_of_isBlank {c : Char} (h : isBlank c = true) :
    isIdentifierChar c = false := by
  by_contra hn
  have hspace := isSpace_of_isBlank h
  rw [isSpace_of_isIdentifierChar (Bool.not_eq_false _ ▸ hn)] at hspace
  contradiction

lemma isWordLike_of_isBlank {c : Char} (h : isBlank c = true) : isWordLike c = false := by
  have hc := isBlank_toNat h
  rw [isWordLike, isIdentifierChar_of_isBlank h, Bool.or_false]
  exact decide_eq_false (by omega)

lemma isWordLike_of_isSymbol {c : Char} (h : isSymbol c = true) : isWordLike c = false := by
  simp only [isSymbol, isPrintable, Bool.and_eq_true, decide_eq_true_eq,
    Bool.not_eq_true'] at h
  rw [isWordLike, h.1.2, Bool.or_false]
  exact decide_eq_false (by omega)

namespace Lexeme

def text : Lexeme → Text
  | blank c _ => [c]
  | comment c => c.text
  | string t _ => '\x22' :: (t ++ ['\x22'])
  | word t _ _ => t
  | directive t _ => '\x60' :: t
  | escaped t _ => '\x5c' :: t
  | symbol c _ => [c]
  | prototype g _ keyword => "extern".toList ++ (g.text ++ keyword.text)

@[simp] lemma text_comment (c : Comment) : (comment c).text = c.text := rfl

/-- The lexeme ends where the text goes on with `t`. -/
def Ends (t : Text) : Lexeme → Prop
  | word _ _ _ | directive _ _ | prototype _ _ _ => t.head?.any isIdentifierChar = false
  | escaped _ _ => ∀ c ∈ t.head?, isBlank c = true
  | symbol c _ => c = '/' → ∀ d ∈ t.head?, d ≠ '/' ∧ d ≠ '*'
  | _ => True

lemma text_ne_nil (l : Lexeme) : l.text ≠ [] := by
  cases l with
  | comment c =>
    cases c <;> exact List.append_ne_nil_of_right_ne_nil _ (List.cons_ne_nil _ _)
  | word t hne h => exact hne
  | blank | string | directive | escaped | symbol | prototype => exact List.cons_ne_nil _ _

/-- Where a word may follow, no word ends. -/
lemma last_apart {l : Lexeme} {t : Text} (hl : l.Ends t) (ht : t.head?.any isIdentifierChar = true) :
    l.text.getLast?.any isWordLike = false := by
  cases l with
  | blank c h => exact isWordLike_of_isBlank h
  | comment c =>
    cases c with
    | line t h =>
      change ("//".toList ++ t ++ ['\n']).getLast?.any isWordLike = false
      rw [List.getLast?_concat]
      rfl
    | block t h =>
      have hne : "*/".toList ≠ [] := List.cons_ne_nil _ _
      change ("/*".toList ++ t ++ "*/".toList).getLast?.any isWordLike = false
      rw [List.getLast?_append_of_ne_nil _ hne]
      rfl
  | string t h =>
    change (('\x22' :: t) ++ ['\x22']).getLast?.any isWordLike = false
    rw [List.getLast?_concat]
    rfl
  | word t' hne h =>
    rw [Ends, ht] at hl
    contradiction
  | directive t' h =>
    rw [Ends, ht] at hl
    contradiction
  | escaped t' h =>
    obtain ⟨c, hc, hident⟩ := (Option.any_eq_true _ _).mp ht
    rw [isIdentifierChar_of_isBlank (hl c hc)] at hident
    contradiction
  | symbol c h => exact isWordLike_of_isSymbol h
  | prototype g h keyword =>
    rw [Ends, ht] at hl
    contradiction

end Lexeme

end Rv32iRtl
