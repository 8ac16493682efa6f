import Rv32iRtl.InOrder
import Rv32iRtl.ModuleSource
import Rv32iRtl.PortExtraction

/-! The enumerations of a defines file, and what `extract_defines` of `corpus.py` takes of them
into the prompts. -/
namespace Rv32iRtl

open Backtrack Backtrack.Regex

/-- `typedef enum.*?endtype` -/
def definesRe : Regex Char :=
  seq (lit "typedef enum".toList) (seq (many false fun _ => true) (lit "endtype".toList))

def extractDefines (text : Text) : Text :=
  ['\n'].intercalate ((definesRe.findAll text).map Hit.text)

structure EnumDeclaration where
  afterTypedef : Gap
  /-- The base type, with the white space around it. -/
  base : Written
  enumerators : Enclosed '\x7b' '\x7d'
  afterEnumerators : Gap
  name : ModuleName
  afterName : Gap
  typedef_apart : afterTypedef ≠ []
  enum_apart : base.text.head?.any isIdentifierChar = false
  base_plain : ∀ c ∈ base.bare, c ∉ ['\x7b', '\x7d', ';', '\x22']
  base_no_line : ¬"//".toList <:+: base.bare
  base_no_block : ¬"/*".toList <:+: base.bare
  name_ends : name.Ends (afterName.text ++ [';'])

def EnumDeclaration.text (d : EnumDeclaration) : Text :=
  "typedef".toList ++ d.afterTypedef.text ++ "enum".toList ++ d.base.text ++ d.enumerators.text ++
    d.afterEnumerators.text ++ d.name.text ++ d.afterName.text ++ [';']

lemma EnumDeclaration.text_last (d : EnumDeclaration) : d.text.getLast? = some ';' :=
  List.getLast?_concat

/-- The lexemes of a file with the declarations of enumerations among them. -/
inductive Defines
  | done
  /-- A line comment at the end of the file. -/
  | lastComment (t : Text) (h : '\n' ∉ t)
  | lexeme (l : Lexeme) (rest : Defines)
  | declaration (d : EnumDeclaration) (rest : Defines)

namespace Defines

def text : Defines → Text
  | done => []
  | lastComment t _ => "//".toList ++ t
  | lexeme l rest => l.text ++ rest.text
  | declaration d rest => d.text ++ rest.text

/-- Every lexeme ends where the next one starts, and none of them starts a declaration. -/
def Lexed : Defines → Prop
  | done | lastComment _ _ => True
  | lexeme l rest => l.Ends rest.text ∧
      (∀ (d : EnumDeclaration) (u : Text), l.text ++ rest.text ≠ d.text ++ u) ∧ rest.Lexed
  | declaration _ rest => rest.Lexed

/-- The texts of the declarations, in order. -/
def declared : Defines → List Text
  | done | lastComment _ _ => []
  | lexeme _ rest => rest.declared
  | declaration d rest => d.text :: rest.declared

lemma declared_ends (f : Defines) : ∀ t ∈ f.declared, t.getLast? = some ';' := by
  induction f with
  | done | lastComment => exact fun t ht => absurd ht List.not_mem_nil
  | lexeme l rest ih => exact ih
  | declaration d rest ih =>
    intro t ht
    rcases List.mem_cons.mp ht with rfl | ht
    · exact d.text_last
    · exact ih t ht

end Defines

structure DefinesFile where
  defines : Defines
  lexed : defines.Lexed

/-- Texts with one last symbol keep it when they are joined. -/
lemma getLast?_intercalate {c : Char} {separator : Text} {ls : List Text} (hne : ls ≠ [])
    (h : ∀ l ∈ ls, l.getLast? = some c) : (separator.intercalate ls).getLast? = some c := by
  induction ls with
  | nil => contradiction
  | cons l ls ih =>
    cases ls with
    | nil =>
      rw [List.intercalate_singleton]
      exact h l List.mem_cons_self
    | cons l' ls =>
      have hlast := ih (List.cons_ne_nil l' ls) fun l hl => h l (List.mem_cons_of_mem _ hl)
      rw [List.intercalate_cons_cons, List.getLast?_append, hlast]
      rfl

lemma definesRe_asks : definesRe.Asks {["typedef enum".toList, "endtype".toList]} := by
  have hasks : definesRe.Asks _ := (asks_lit "endtype".toList).behind "typedef enum".toList
  rwa [Set.image_singleton] at hasks

lemma definesRe_ends {text : Text} : ∀ t ∈ (definesRe.findAll text).map Hit.text,
    t.getLast? = some 'e' := by
  intro t ht
  obtain ⟨m, hm, rfl⟩ := List.mem_map.mp ht
  obtain ⟨-, p, hhead⟩ := mem_scan hm
  obtain ⟨h1, -, h2, hm2, rfl⟩ := mem_seq (List.mem_of_head? hhead)
  obtain ⟨h3, -, h4, hm4, rfl⟩ := mem_seq hm2
  rw [(mem_lit hm4).2]
  simp only [Hit.append, List.getLast?_append]
  rfl

lemma ne_nil_of_getLast? {c : Char} {t : Text} (h : t.getLast? = some c) : t ≠ [] := by
  rintro rfl
  contradiction

/-- Nothing is extracted without the word that the pattern ends with. -/
lemma extractDefines_eq_nil_iff {text : Text} : extractDefines text = [] ↔
    ¬InOrder ["typedef enum".toList, "endtype".toList] text := by
  have hsearch := @Asks.search _ _ text _ definesRe_asks
  simp only [Set.mem_singleton_iff, exists_eq_left] at hsearch
  rw [← hsearch, search, extractDefines]
  cases hfound : definesRe.findAll text with
  | nil => exact iff_of_true rfl (by simp)
  | cons m ms =>
    refine iff_of_false ?_ (by simp)
    rw [← hfound]
    refine ne_nil_of_getLast? (getLast?_intercalate ?_ definesRe_ends)
    rw [hfound]
    exact List.cons_ne_nil _ _

/-- The enumerations of a file are extracted only if there are none. -/
theorem extract_defines_exact_iff (file : DefinesFile) :
    extractDefines file.defines.text = ['\n'].intercalate file.defines.declared ↔
      file.defines.declared = [] ∧
        ¬InOrder ["typedef enum".toList, "endtype".toList] file.defines.text := by
  rw [← extractDefines_eq_nil_iff]
  by_cases hnone : file.defines.declared = []
  · rw [hnone]
    exact (and_iff_right rfl).symm
  · refine iff_of_false (fun h => ?_) fun h => hnone h.1
    have hlast := @getLast?_intercalate _ ['\n'] _ hnone file.defines.declared_ends
    rw [← h, extractDefines] at hlast
    by_cases hfound : (definesRe.findAll file.defines.text).map Hit.text = []
    · rw [hfound] at hlast
      contradiction
    · rw [getLast?_intercalate hfound definesRe_ends] at hlast
      contradiction

lemma aBlank_ne_nil : aBlank ≠ [] := List.cons_ne_nil _ _

/-- `typedef enum logic {A, B} op;` -/
def logicEnum : EnumDeclaration where
  afterTypedef := aBlank
  base := " logic ".toList.map Sum.inl
  enumerators := ⟨"A, B".toList.map Sum.inl, rfl, by decide, by decide⟩
  afterEnumerators := aBlank
  name := .simple ⟨'o', ['p'], Or.inl rfl, by simp [isIdentifierChar], by simp [verilogKeywords]⟩
    (by simp [Identifier.text])
  afterName := []
  typedef_apart := aBlank_ne_nil
  enum_apart := rfl
  base_plain := by simp [Written.bare]
  base_no_line := by decide
  base_no_block := by decide
  name_ends := rfl

/-- Nothing is extracted of a file with one enumeration. -/
theorem extract_defines_exact_fails : ¬∀ file : DefinesFile,
    extractDefines file.defines.text = ['\n'].intercalate file.defines.declared := by
  intro h
  have hempty := h ⟨.declaration logicEnum .done, trivial⟩
  revert hempty
  decide +kernel

end Rv32iRtl
