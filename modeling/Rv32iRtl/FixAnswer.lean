import Rv32iRtl.Lexemes
import Rv32iRtl.VerilogExtraction

/-! Answers to a request for a repair: a module definition between prose. -/
namespace Rv32iRtl

open Backtrack Backtrack.Regex TextLines

/-- An answer with one definition in it: `inside` is what is between its two keywords. -/
structure FixAnswer where
  before : Text
  inside : Text
  behind : Text
  before_apart : before.getLast?.any isIdentifierChar = false
  behind_apart : behind.head?.any isIdentifierChar = false
  inside_ne_nil : inside ≠ []
  keyword_apart : inside.head?.any isWordLike = false
  end_apart : inside.getLast?.any isWordLike = false
  once : ∀ u v, before ++ ("module".toList ++ (inside ++ ("endmodule".toList ++ behind))) =
    u ++ ("module".toList ++ (inside ++ ("endmodule".toList ++ v))) → u = before

namespace FixAnswer

variable (a : FixAnswer)

/-- From the keyword to the end of the definition. -/
def definition : Text := "module".toList ++ (a.inside ++ "endmodule".toList)

def text : Text := a.before ++ (a.definition ++ a.behind)

variable (unicode : Char → Bool)

/-- The first word `module` and the first word `endmodule` behind it are those of the definition. -/
structure Findable : Prop where
  before : a.before.getLast?.any (isWord unicode) = false
  behind : a.behind.head?.any (isWord unicode) = false
  no_module : ¬StartsIn (isWord unicode) "module".toList none a.before (a.definition ++ a.behind)
  no_endmodule : ¬StartsIn (isWord unicode) "endmodule".toList (some 'e') a.inside
    ("endmodule".toList ++ a.behind)

end FixAnswer

lemma strip_module (u : Text) : strip isSpace ("module".toList ++ (u ++ "endmodule".toList)) =
    "module".toList ++ (u ++ "endmodule".toList) := by
  refine strip_eq_self ?_ ?_
  · intro c hc
    obtain rfl : 'm' = c := Option.some.inj hc
    rfl
  · intro c hc
    rw [← List.append_assoc, List.getLast?_append_of_ne_nil _ (by simp)] at hc
    obtain rfl : 'e' = c := Option.some.inj hc
    rfl

lemma hits_empty_ne_nil (p : Option Char) (cs : Text) : (empty : Regex Char).hits p cs ≠ [] :=
  List.cons_ne_nil _ _

namespace FixAnswer

variable {unicode : Char → Bool} (a : FixAnswer)

lemma definition_append (t : Text) :
    a.definition ++ t = "module".toList ++ (a.inside ++ ("endmodule".toList ++ t)) := by
  unfold definition
  rw [List.append_assoc, List.append_assoc]

lemma definition_append_ne_nil (t : Text) : a.definition ++ t ≠ [] := List.cons_ne_nil _ _

lemma text_eq : a.text =
    a.before ++ ("module".toList ++ (a.inside ++ ("endmodule".toList ++ a.behind))) := by
  rw [text, definition_append]

lemma findable_iff : a.Findable unicode ↔
    SpanAt (isWord unicode) "module".toList "endmodule".toList (a.before.getLast?.or none) a.inside
      a.behind ∧
    ¬StartsIn (isWord unicode) "module".toList none a.before (a.definition ++ a.behind) := by
  rw [Option.or_none]
  constructor
  · rintro ⟨hbefore, hbehind, hmodule, hend⟩
    have hhead := @any_isWord unicode _ a.keyword_apart
    have hlast := @any_isWord unicode _ a.end_apart
    obtain ⟨c, l, hc⟩ := List.exists_cons_of_ne_nil a.inside_ne_nil
    refine ⟨⟨hbefore, ?_, hend, ?_, hbehind⟩, hmodule⟩
    · rw [hc] at hhead ⊢
      exact hhead
    · rwa [getLast?_or_of_ne_nil a.inside_ne_nil]
  · rintro ⟨⟨hbefore, -, hend, -, hbehind⟩, hmodule⟩
    exact ⟨hbefore, hbehind, hmodule, hend⟩

/-- The definition is what the pattern finds. -/
lemma search_iff : (fixedRe unicode).search a.text = some ⟨a.definition, [], a.behind⟩ ↔
    a.Findable unicode := by
  have hplace := a.definition_append a.behind
  have hfound := scan_place (r := fixedRe unicode) (g := a.before) (p := none)
    (h := ⟨a.definition, [], a.behind⟩) (t := a.definition ++ a.behind) (a.definition_append_ne_nil _)
  rw [findable_iff]
  change (_ = _ ∧ a.definition ++ a.behind = _) ↔ _ at hfound
  rw [eq_self, and_true] at hfound
  refine hfound.trans ⟨?_, ?_⟩
  · rintro ⟨hsilent, hhead⟩
    obtain ⟨u, t, m, hsplit, hspan, hm, heq⟩ :=
      spanAt_of_hit isWord_module isWord_endmodule hits_empty_ne_nil hhead
    obtain rfl : Hit.nothing t = m := Option.some.inj hm
    obtain ⟨htext, -, rfl⟩ := Hit.mk.inj heq
    have hinside : a.inside = u := by
      have h := List.append_cancel_left htext
      change a.inside ++ "endmodule".toList = u ++ ("endmodule".toList ++ []) at h
      rw [List.append_nil] at h
      exact List.append_cancel_right h
    subst hinside
    rw [hplace] at hsilent ⊢
    exact ⟨hspan, (silent_span_iff isWord_module isWord_endmodule hits_empty_ne_nil hspan).mp hsilent⟩
  · rintro ⟨hspan, hmodule⟩
    have hhead := hits_span isWord_module isWord_endmodule hspan (r := empty)
      (m := Hit.nothing a.behind) rfl
    rw [hplace] at hmodule ⊢
    refine ⟨(silent_span_iff isWord_module isWord_endmodule hits_empty_ne_nil hspan).mpr hmodule, ?_⟩
    exact hhead

/-- Where the keywords stand apart from the prose, something is found. -/
lemma search_ne_none (hbefore : a.before.getLast?.any (isWord unicode) = false)
    (hbehind : a.behind.head?.any (isWord unicode) = false) :
    (fixedRe unicode).search a.text ≠ none := by
  intro hnone
  have hfind : (fixedRe unicode).scan none 0 (a.text ++ []) = [] := by
    rw [List.append_nil]
    exact List.head?_eq_none_iff.mp hnone
  have hsilent : (fixedRe unicode).Silent none a.text [] := by
    by_contra hs
    obtain ⟨m, hm, -⟩ := exists_of_not_silent hs
    rw [hfind] at hm
    contradiction
  have hplace := hsilent a.before (a.definition ++ a.behind) rfl (a.definition_append_ne_nil _)
  have hhead := @any_isWord unicode _ a.keyword_apart
  have hlast := @any_isWord unicode _ a.end_apart
  rw [List.append_nil, definition_append, Option.or_none] at hplace
  refine (hits_span_eq_nil_iff isWord_module isWord_endmodule hits_empty_ne_nil).mp hplace
    (wordAt_append hbefore ?_) ?_
  · rwa [List.head?_append_of_ne_nil _ a.inside_ne_nil]
  · rw [List.drop_left]
    refine ⟨a.inside, "endmodule".toList ++ a.behind, rfl, by simp, ?_⟩
    rw [List.append_nil]
    refine wordAt_append ?_ hbehind
    rwa [getLast?_or_of_ne_nil a.inside_ne_nil]

lemma strip_hit {m : Hit Char} (h : (fixedRe unicode).search a.text = some m) :
    strip isSpace m.text = m.text ∧ m.groups = [] := by
  obtain ⟨-, p, hhead⟩ := mem_scan (List.mem_of_head? h)
  obtain ⟨u, t, m', -, -, hm, rfl⟩ :=
    spanAt_of_hit isWord_module isWord_endmodule hits_empty_ne_nil hhead
  obtain rfl : Hit.nothing t = m' := Option.some.inj hm
  have htext : "endmodule".toList ++ (Hit.nothing t).text = "endmodule".toList := List.append_nil _
  rw [htext]
  exact ⟨strip_module u, rfl⟩

end FixAnswer

/-- The text that is written back is the definition exactly when no word of the prose or of the
definition is taken for one of its keywords. -/
theorem fix_extraction_exact_iff {unicode : Char → Bool}
    (hu : ∀ c, isSpace c = true → unicode c = false) (a : FixAnswer) :
    fixedVerilog unicode a.text = a.definition ↔ a.Findable unicode := by
  rw [← a.search_iff]
  constructor
  · intro h
    cases hs : (fixedRe unicode).search a.text with
    | none =>
      rw [fixedVerilog, hs] at h
      change strip isSpace a.text = a.definition at h
      obtain ⟨l, r, hsplit, hl, hr⟩ := @strip_split _ isSpace a.text
      rw [h, FixAnswer.definition_append, FixAnswer.text_eq] at hsplit
      obtain rfl := a.once l r hsplit
      obtain rfl : a.behind = r := by simpa using hsplit
      refine absurd hs (a.search_ne_none ?_ ?_)
      · exact any_isWord_of_isSpace hu fun c hc => hl c (List.mem_of_getLast? hc)
      · exact any_isWord_of_isSpace hu fun c hc => hr c (List.mem_of_head? hc)
    | some m =>
      obtain ⟨hstrip, hgroups⟩ := a.strip_hit hs
      rw [fixedVerilog, hs] at h
      change strip isSpace m.text = a.definition at h
      rw [hstrip] at h
      obtain ⟨u, hu⟩ := (mem_scan (List.mem_of_head? hs)).1
      rw [List.drop_zero, Hit.place, h, FixAnswer.definition_append] at hu
      have hbefore := a.once u m.rest (a.text_eq.symm.trans hu.symm)
      rw [hbefore, FixAnswer.text_eq] at hu
      have hrest : m.rest = a.behind := by simpa using hu
      rw [← h, ← hrest, ← hgroups]
  · intro hs
    rw [fixedVerilog, hs]
    exact strip_module a.inside

/-- An answer with the definition of an empty module behind some prose. -/
def emptyModule (prose : Text) (h : prose.getLast?.any isIdentifierChar = false)
    (hp : ∀ k ≤ prose.length + 1, "module a();\nendmodule".toList <+:
      (prose ++ "module a();\nendmodule\n".toList).drop k → k = prose.length) : FixAnswer where
  before := prose
  inside := " a();\n".toList
  behind := ['\n']
  before_apart := h
  behind_apart := rfl
  inside_ne_nil := by decide
  keyword_apart := by decide
  end_apart := by decide
  once u v huv := by
    have hlen : u.length ≤ prose.length + 1 := by
      have h := congrArg List.length huv
      simp only [List.length_append, List.length_singleton] at h
      omega
    have hu : u.length = prose.length := by
      refine hp u.length hlen ⟨v, ?_⟩
      change prose ++ "module a();\nendmodule\n".toList = _ at huv
      rw [huv, List.drop_left]
      rfl
    exact (List.append_inj_left huv hu.symm).symm

theorem fix_extraction_exact_iff_bare :
    (emptyModule [] (by decide) (by decide)).Findable fun _ => false :=
  (fix_extraction_exact_iff (fun _ _ => rfl) _).mp (by decide +kernel)

theorem fix_extraction_exact_fails :
    ¬∀ a : FixAnswer, fixedVerilog (fun _ => false) a.text = a.definition := by
  intro h
  have ha := h (emptyModule "The module:\n".toList (by decide) (by decide +kernel))
  revert ha
  decide +kernel

end Rv32iRtl
