import Rv32iRtl.PortList
import Rv32iRtl.Segments

/-! The parts of the port pattern, and where they match. -/
namespace Rv32iRtl

open Backtrack Backtrack.Regex

lemma isAlphanum_toNat {c : Char} (h : c.isAlphanum = true) :
    (48 ≤ c.toNat ∧ c.toNat ≤ 57) ∨ (65 ≤ c.toNat ∧ c.toNat ≤ 90) ∨
      (97 ≤ c.toNat ∧ c.toNat ≤ 122) := by
  simp only [Char.isAlphanum, Char.isAlpha, Char.isUpper, Char.isLower, Char.isDigit,
    Bool.or_eq_true, Bool.and_eq_true, decide_eq_true_eq, UInt32.le_iff_toNat_le, ge_iff_le] at h
  change ((65 ≤ c.toNat ∧ c.toNat ≤ 90) ∨ (97 ≤ c.toNat ∧ c.toNat ≤ 122)) ∨
    (48 ≤ c.toNat ∧ c.toNat ≤ 57) at h
  omega

lemma isBlank_toNat {c : Char} (h : isBlank c = true) :
    c.toNat = 9 ∨ c.toNat = 10 ∨ c.toNat = 12 ∨ c.toNat = 13 ∨ c.toNat = 32 := by
  simpa [isBlank] using h

lemma isSpace_of_isBlank {c : Char} (h : isBlank c = true) : isSpace c = true := by
  have h := isBlank_toNat h
  simp only [isSpace, Bool.or_eq_true, Bool.and_eq_true, decide_eq_true_eq]
  omega

lemma isIdentifierChar_toNat {c : Char} (h : isIdentifierChar c = true) :
    c.toNat = 36 ∨ c.toNat = 95 ∨ (48 ≤ c.toNat ∧ c.toNat ≤ 57) ∨
      (65 ≤ c.toNat ∧ c.toNat ≤ 90) ∨ (97 ≤ c.toNat ∧ c.toNat ≤ 122) := by
  simp only [isIdentifierChar, Bool.or_eq_true, decide_eq_true_eq] at h
  rcases h with (h | rfl) | rfl
  · exact Or.inr (Or.inr (isAlphanum_toNat h))
  · exact Or.inr (Or.inl rfl)
  · exact Or.inl rfl

lemma isSpace_of_isIdentifierChar {c : Char} (h : isIdentifierChar c = true) :
    isSpace c = false := by
  have h := isIdentifierChar_toNat h
  simp only [isSpace, List.elem_eq_mem, List.mem_cons, List.not_mem_nil]
  simp only [Bool.or_eq_false_iff, Bool.and_eq_false_iff, decide_eq_false_iff_not, or_false]
  omega

section

variable {unicode : Char → Bool}

lemma isWord_of_isIdentifierChar {c : Char} (h : isIdentifierChar c = true) :
    isWord unicode c = true ↔ c ≠ '$' := by
  have hlt : c.toNat < 128 := by
    have h := isIdentifierChar_toNat h
    omega
  rw [isWord, if_pos hlt]
  constructor
  · rintro hw rfl
    contradiction
  · intro hne
    simpa [isIdentifierChar, hne] using h

lemma isWord_of_isBlank {c : Char} (h : isBlank c = true) : isWord unicode c = false := by
  have h := isBlank_toNat h
  rw [isWord, if_pos (by omega), Bool.or_eq_false_iff]
  constructor
  · by_contra hn
    have ha := isAlphanum_toNat (Bool.not_eq_false _ ▸ hn)
    omega
  · refine decide_eq_false fun hc => ?_
    rw [hc] at h
    revert h
    decide

end

lemma Trivia.text_blank {t : Trivia} : (∃ c, isBlank c = true ∧ t.text = [c] ∧
    ∃ h, t = .blank c h) ∨ ((∀ c h, t ≠ .blank c h) ∧ ∃ u, t.text = '/' :: u) := by
  cases t with
  | blank c h => exact Or.inl ⟨c, h, rfl, h, rfl⟩
  | comment c =>
    refine Or.inr ⟨fun c h => by simp, ?_⟩
    cases c with
    | line t h => exact ⟨_, rfl⟩
    | block t h => exact ⟨_, rfl⟩

/-- A gap starts with blanks. They are all of it, or a comment follows. -/
lemma Gap.text_cases (g : Gap) : ∃ w, (∀ c ∈ w, isBlank c = true) ∧
    ((g.text = w ∧ (g.Blank ↔ w ≠ [])) ∨ (¬g.Blank ∧ ∃ u, g.text = w ++ '/' :: u)) := by
  induction g with
  | nil => exact ⟨[], by simp, Or.inl ⟨rfl, by simp [Gap.Blank]⟩⟩
  | cons t g ih =>
    have htext : Gap.text (t :: g) = t.text ++ Gap.text g := List.flatMap_cons
    rcases t.text_blank with ⟨c, hc, ht, h, rfl⟩ | ⟨hne, u, ht⟩
    · obtain ⟨w, hw, ⟨hg, hb⟩ | ⟨hb, u, hg⟩⟩ := ih
      · refine ⟨c :: w, by simpa [hc] using hw, Or.inl ⟨by rw [htext, ht, hg]; rfl, ?_⟩⟩
        refine iff_of_true ⟨List.cons_ne_nil _ _, ?_⟩ (List.cons_ne_nil _ _)
        rw [List.forall_mem_cons]
        refine ⟨⟨c, h, rfl⟩, fun t' ht' => ?_⟩
        have hne : w ≠ [] := by
          rintro rfl
          have htriv : t'.text = [] := by
            rw [Gap.text, List.flatMap_eq_nil_iff] at hg
            exact hg t' ht'
          rcases t'.text_blank with ⟨d, -, hd, -⟩ | ⟨-, u, hu⟩
          · simp [htriv] at hd
          · simp [htriv] at hu
        exact (hb.mpr hne).2 t' ht'
      · refine ⟨c :: w, by simpa [hc] using hw, Or.inr ⟨fun hall => ?_, u, ?_⟩⟩
        · refine hb ⟨?_, fun t' ht' => hall.2 t' (List.mem_cons_of_mem _ ht')⟩
          rintro rfl
          simp [Gap.text] at hg
        · rw [htext, ht, hg]
          rfl
    · refine ⟨[], by simp, Or.inr ⟨fun hall => ?_, u ++ Gap.text g, by rw [htext, ht]; rfl⟩⟩
      obtain ⟨c, h, heq⟩ := hall.2 t List.mem_cons_self
      exact hne c h heq

/-- The text goes on with a word or with a range. -/
def Starts (t : Text) : Prop := ∃ c v, t = c :: v ∧ (isIdentifierChar c = true ∨ c = '[')

/-- A word ends before the text. -/
def Delimited (t : Text) : Prop :=
  ∃ c v, t = c :: v ∧ (isBlank c = true ∨ c ∈ ['/', ',', '(', ')', '[', '#'])

lemma Starts.isSpace {t : Text} (h : Starts t) : ∀ c ∈ t.head?, isSpace c = false := by
  obtain ⟨c, v, rfl, hc⟩ := h
  intro d hd
  obtain rfl : c = d := by simpa using hd
  rcases hc with hc | rfl
  · exact isSpace_of_isIdentifierChar hc
  · rfl

lemma Delimited.isWord {unicode : Char → Bool} {t : Text} (h : Delimited t) :
    ∀ c ∈ t.head?, isWord unicode c = false := by
  obtain ⟨c, v, rfl, hc⟩ := h
  intro d hd
  obtain rfl : c = d := by simpa using hd
  rcases hc with hc | hc
  · exact isWord_of_isBlank hc
  · simp only [List.mem_cons, List.not_mem_nil, or_false] at hc
    rcases hc with rfl | rfl | rfl | rfl | rfl | rfl <;> rfl

lemma Delimited.isIdentifierChar {t : Text} (h : Delimited t) :
    ∀ c ∈ t.head?, isIdentifierChar c = false := by
  intro c hc
  have hword := @Delimited.isWord (fun _ => false) t h c hc
  by_contra hn
  have hident : Rv32iRtl.isIdentifierChar c = true := Bool.not_eq_false _ ▸ hn
  by_cases hd : c = '$'
  · obtain ⟨e, v, rfl, he⟩ := h
    obtain rfl : e = c := by simpa using hc
    subst hd
    revert he
    decide
  · rw [(isWord_of_isIdentifierChar hident).mpr hd] at hword
    contradiction

/-- A gap that is not empty ends the word before it. -/
lemma Gap.delimited {g : Gap} {t : Text} (h : g = [] → Delimited t) : Delimited (g.text ++ t) := by
  cases g with
  | nil => exact h rfl
  | cons x g =>
    have htext : Gap.text (x :: g) = x.text ++ Gap.text g := List.flatMap_cons
    rw [htext]
    rcases x.text_blank with ⟨c, hc, hx, -⟩ | ⟨-, u, hx⟩
    · exact ⟨c, Gap.text g ++ t, by rw [hx]; rfl, Or.inl hc⟩
    · exact ⟨'/', u ++ Gap.text g ++ t, by rw [hx]; rfl, Or.inr (by decide)⟩

section Pattern

variable (unicode : Char → Bool)

def nameRe (k : ℕ) : Regex Char := group k (plus (isWord unicode))

def rangeRe : Regex Char :=
  seq (opt (seq (lit "[".toList) (seq (group 2 (plus (· ≠ ']')))
    (seq (lit "]".toList) (plus isSpace))))) (nameRe unicode 3)

def netRe : Regex Char :=
  seq (opt (alt (seq (lit "wire".toList) (plus isSpace)) (seq (lit "reg".toList) (plus isSpace))))
    (rangeRe unicode)

lemma portRe_eq : portRe unicode = seq (group 1 (alt (lit "input".toList) (lit "output".toList)))
    (seq (plus isSpace) (netRe unicode)) := rfl

lemma nameRe_placeless (k : ℕ) : (nameRe unicode k).Placeless := ⟨trivial, trivial⟩

variable {unicode} {p : Option Char}

lemma nameRe_nil {k : ℕ} {t : Text} (h : ∀ c ∈ t.head?, isWord unicode c = false) :
    (nameRe unicode k).hits p t = [] := by
  rw [nameRe, hits, hits_plus_nil h, List.map_nil]

lemma nameRe_head {k : ℕ} {w t : Text} (hne : w ≠ []) (hw : ∀ c ∈ w, isWord unicode c = true)
    (ht : ∀ c ∈ t.head?, isWord unicode c = false) :
    ((nameRe unicode k).hits p (w ++ t)).head? = some ⟨w, [(k, w)], t⟩ := by
  rw [nameRe, hits, List.head?_map, head_plus hne hw ht]
  rfl

lemma rangeRe_other {c : Char} (h : c ≠ '[') (u : Text) :
    (rangeRe unicode).hits p (c :: u) = (nameRe unicode 3).hits p (c :: u) := by
  have hlit : ¬"[".toList <+: c :: u := by
    rw [show "[".toList = ['['] from rfl, List.cons_prefix_cons]
    exact fun hc => h hc.1.symm
  rw [rangeRe, hits_opt_seq, hits_seq_nil (hits_seq_nil (hits_lit_nil hlit)), List.nil_append]

lemma rangeRe_bracket {w : Text} (hne : w ≠ []) (hw : ']' ∉ w) (v : Text) :
    (rangeRe unicode).hits p ('[' :: (w ++ ']' :: v)) =
      ((seq (plus isSpace) (nameRe unicode 3)).hits none v).map
        (Hit.append ⟨'[' :: (w ++ [']']), [(2, w)], v⟩) := by
  have hname : (nameRe unicode 3).hits p ('[' :: (w ++ ']' :: v)) = [] :=
    nameRe_nil (by simp [isWord])
  have hopen : (lit "[".toList).hits p ('[' :: (w ++ ']' :: v)) = [⟨['['], [], w ++ ']' :: v⟩] :=
    hits_lit "[".toList (w ++ ']' :: v) p
  have hshut : ∀ q, (lit "]".toList).hits q (']' :: v) = [⟨[']'], [], v⟩] :=
    fun q => hits_lit "]".toList v q
  have hclass : ∀ c ∈ w, decide (c ≠ ']') = true :=
    fun c hc => decide_eq_true fun h => hw (h ▸ hc)
  have hclose : ∀ q, ∀ c ∈ w, ∀ u, (seq (seq (lit "]".toList) (plus isSpace))
      (nameRe unicode 3)).hits q (c :: u) = [] := by
    intro q c hc u
    refine hits_seq_nil (hits_seq_nil (hits_lit_nil fun hlit => ?_))
    rw [show "]".toList = [']'] from rfl, List.cons_prefix_cons] at hlit
    exact hw (hlit.1 ▸ hc)
  have hplaceless : (seq (plus isSpace) (nameRe unicode 3)).Placeless :=
    ⟨⟨trivial, trivial⟩, nameRe_placeless unicode 3⟩
  rw [rangeRe, hits_opt_seq, hname, List.append_nil, hits_seq_assoc,
    hits_seq_single hopen, hits_seq_assoc, hits_group_plus_seq 2 hne hclass (by simp) hclose,
    hits_seq_assoc, hits_seq_single (hshut _), hits_placeless hplaceless _ none, List.map_map,
    List.map_map]
  refine List.map_congr_left fun h _ => ?_
  simp [Hit.append]

lemma rangeRe_empty (v : Text) : (rangeRe unicode).hits p ('[' :: ']' :: v) = [] := by
  have hopen : (lit "[".toList).hits p ('[' :: ']' :: v) = [⟨['['], [], ']' :: v⟩] :=
    hits_lit "[".toList (']' :: v) p
  have hgroup : ∀ q, (group 2 (plus (· ≠ ']'))).hits q (']' :: v) = [] := by
    intro q
    rw [hits, hits_plus_nil (by simp), List.map_nil]
  have hname : (nameRe unicode 3).hits p ('[' :: ']' :: v) = [] := nameRe_nil (by simp [isWord])
  rw [rangeRe, hits_opt_seq, hname, List.append_nil, hits_seq_assoc, hits_seq_single hopen,
    hits_seq_assoc, hits_seq_nil (hgroup _), List.map_nil]

/-- The expression matches neither at a blank nor at a comment. -/
structure Solid (r : Regex Char) : Prop where
  placeless : r.Placeless
  blank : ∀ {c}, isBlank c = true → ∀ p u, r.hits p (c :: u) = []
  comment : ∀ p u, r.hits p ('/' :: u) = []

lemma nameRe_solid {k : ℕ} : Solid (nameRe unicode k) where
  placeless := nameRe_placeless unicode k
  blank hc _ _ := nameRe_nil (by simpa using isWord_of_isBlank hc)
  comment _ _ := nameRe_nil (by simp [isWord])

lemma ne_of_isBlank {c d : Char} (h : isBlank c = true) (hd : isBlank d = false) : c ≠ d := by
  rintro rfl
  rw [h] at hd
  contradiction

lemma rangeRe_solid : Solid (rangeRe unicode) where
  placeless := by simp [Placeless, rangeRe, nameRe, opt, plus, lit]
  blank hc _ _ := by rw [rangeRe_other (ne_of_isBlank hc rfl), nameRe_solid.blank hc]
  comment _ _ := by rw [rangeRe_other (by decide), nameRe_solid.comment]

lemma netRe_hits (t : Text) : (netRe unicode).hits p t =
    (seq (lit "wire".toList) (seq (plus isSpace) (rangeRe unicode))).hits p t ++
      ((seq (lit "reg".toList) (seq (plus isSpace) (rangeRe unicode))).hits p t ++
        (rangeRe unicode).hits p t) := by
  rw [netRe, hits_opt_seq, hits_alt_seq, hits_seq_assoc, hits_seq_assoc, List.append_assoc]

lemma netRe_other {t : Text} (hwire : ¬"wire".toList <+: t) (hreg : ¬"reg".toList <+: t) :
    (netRe unicode).hits p t = (rangeRe unicode).hits p t := by
  rw [netRe_hits, hits_seq_nil (hits_lit_nil hwire), hits_seq_nil (hits_lit_nil hreg),
    List.nil_append, List.nil_append]

lemma netRe_solid : Solid (netRe unicode) where
  placeless := by simp [Placeless, netRe, rangeRe, nameRe, opt, plus, lit]
  blank hc _ _ := by
    have hw := ne_of_isBlank hc (d := 'w') rfl
    have hr := ne_of_isBlank hc (d := 'r') rfl
    rw [netRe_other (by simp [hw.symm]) (by simp [hr.symm]), rangeRe_solid.blank hc]
  comment _ _ := by rw [netRe_other (by simp) (by simp), rangeRe_solid.comment]

lemma hits_gap_blank {r : Regex Char} (hr : Solid r) {g : Gap} (hg : g.Blank) {t : Text}
    (ht : Starts t) : (seq (plus isSpace) r).hits p (g.text ++ t) =
      (r.hits none t).map (Hit.append ⟨g.text, [], t⟩) := by
  obtain ⟨w, hw, ⟨hgw, hb⟩ | ⟨hb, -⟩⟩ := g.text_cases
  · rw [hgw, hits_plus_seq (hb.mp hg) (fun c hc => isSpace_of_isBlank (hw c hc)) ht.isSpace
      fun q c hc v => hr.blank (hw c hc) q v, hits_placeless hr.placeless _ none]
  · exact absurd hg hb

lemma hits_gap_nil {r : Regex Char} (hr : Solid r) {g : Gap} (hg : ¬g.Blank) {t : Text}
    (ht : Starts t) : (seq (plus isSpace) r).hits p (g.text ++ t) = [] := by
  obtain ⟨w, hw, h⟩ := g.text_cases
  obtain ⟨t', ht', hspace, hnil⟩ : ∃ t', g.text ++ t = w ++ t' ∧
      (∀ c ∈ t'.head?, isSpace c = false) ∧ (w = [] ∨ ∀ q, r.hits q t' = []) := by
    rcases h with ⟨hgw, hb⟩ | ⟨-, u, hu⟩
    · exact ⟨t, by rw [hgw], ht.isSpace, Or.inl (not_not.mp fun hne => hg (hb.mpr hne))⟩
    · refine ⟨'/' :: (u ++ t), by rw [hu, List.append_assoc]; rfl, by simp [isSpace], Or.inr ?_⟩
      exact fun q => hr.comment q _
  by_cases hne : w = []
  · rw [ht', hne]
    exact hits_seq_nil (hits_plus_nil hspace)
  · rw [ht', hits_plus_seq hne (fun c hc => isSpace_of_isBlank (hw c hc)) hspace
      fun q c hc v => hr.blank (hw c hc) q v, hnil.resolve_left hne, List.map_nil]

lemma Identifier.isIdentifierChar (x : Identifier) :
    ∀ c ∈ x.text, isIdentifierChar c = true := by
  intro c hc
  rcases List.mem_cons.mp hc with rfl | hc
  · rcases x.first_letter with h | h
    · simp [Rv32iRtl.isIdentifierChar, Char.isAlphanum, h]
    · simp [Rv32iRtl.isIdentifierChar, h]
  · exact x.rest_chars c hc

lemma Identifier.starts (x : Identifier) (u : Text) : Starts (x.text ++ u) :=
  ⟨x.first, x.rest ++ u, rfl, Or.inl (x.isIdentifierChar _ List.mem_cons_self)⟩

/-- The word that is read at a name: all of it, or what is before the first dollar. -/
lemma Identifier.word (unicode : Char → Bool) (x : Identifier) {u : Text}
    (hu : ∀ c ∈ u.head?, isWord unicode c = false) :
    ∃ w t, x.text ++ u = w ++ t ∧ w ≠ [] ∧ (∀ c ∈ w, isWord unicode c = true) ∧
      (∀ c ∈ t.head?, isWord unicode c = false) ∧
      (('$' ∉ x.text ∧ w = x.text ∧ t = u) ∨ ('$' ∈ x.text ∧ w ≠ x.text)) := by
  have hchars := x.isIdentifierChar
  by_cases hd : '$' ∈ x.text
  · obtain ⟨w, t, hsplit, hw⟩ := List.eq_append_cons_of_mem hd
    refine ⟨w, '$' :: (t ++ u), by rw [hsplit, List.append_assoc]; rfl, ?_, ?_, by simp [isWord],
      Or.inr ⟨hd, ?_⟩⟩
    · rintro rfl
      obtain ⟨hfirst, -⟩ := List.cons.inj hsplit
      have hletter := x.first_letter
      rw [hfirst] at hletter
      revert hletter
      decide
    · intro c hc
      have hmem : c ∈ x.text := hsplit ▸ List.mem_append_left _ hc
      exact (isWord_of_isIdentifierChar (hchars c hmem)).mpr fun h => hw (h ▸ hc)
    · intro h
      rw [← h] at hd
      exact hw hd
  · refine ⟨x.text, u, rfl, List.cons_ne_nil _ _, fun c hc => ?_, hu,
      Or.inl ⟨hd, rfl, rfl⟩⟩
    exact (isWord_of_isIdentifierChar (hchars c hc)).mpr fun h => hd (h ▸ hc)

lemma keyword_chars : ∀ k ∈ verilogKeywords, ∀ c ∈ k, isIdentifierChar c = true := by
  simp [verilogKeywords, Rv32iRtl.isIdentifierChar]

lemma wire_mem : "wire".toList ∈ verilogKeywords := by simp [verilogKeywords]

lemma reg_mem : "reg".toList ∈ verilogKeywords := by simp [verilogKeywords]

/-- A word is not another word and a blank. -/
lemma hits_lit_space_nil {k x u : Text} {r : Regex Char} (hk : ∀ c ∈ k, isIdentifierChar c = true)
    (hx : ∀ c ∈ x, isIdentifierChar c = true) (hne : x ≠ k) (hu : Delimited u) :
    (seq (lit k) (seq (plus isSpace) r)).hits p (x ++ u) = [] := by
  by_cases hpre : k <+: x ++ u
  · obtain ⟨v, hv⟩ := hpre
    have hspace : ∀ c ∈ v.head?, isSpace c = false := by
      intro c hc
      rcases List.append_eq_append_iff.mp hv.symm with ⟨m, hkm, hum⟩ | ⟨m, hxm, hvm⟩
      · have hm : m ≠ [] := by
          rintro rfl
          exact hne (by rw [hkm, List.append_nil])
        obtain ⟨d, m, rfl⟩ := List.exists_cons_of_ne_nil hm
        have hd := hk d (by simp [hkm])
        rw [hu.isIdentifierChar d (by simp [hum])] at hd
        contradiction
      · have hm : m ≠ [] := by
          rintro rfl
          exact hne (by rw [hxm, List.append_nil])
        obtain ⟨d, m, rfl⟩ := List.exists_cons_of_ne_nil hm
        obtain rfl : d = c := by simpa [hvm] using hc
        exact isSpace_of_isIdentifierChar (hx d (by simp [hxm]))
    rw [← hv, hits_seq_single (hits_lit k v p)]
    exact List.map_eq_nil_iff.mpr (hits_seq_nil (hits_plus_nil hspace))
  · exact hits_seq_nil (hits_lit_nil hpre)

lemma netRe_word {x u : Text} (hx : ∀ c ∈ x, isIdentifierChar c = true) (hwire : x ≠ "wire".toList)
    (hreg : x ≠ "reg".toList) (hu : Delimited u) :
    (netRe unicode).hits p (x ++ u) = (rangeRe unicode).hits p (x ++ u) := by
  rw [netRe_hits, hits_lit_space_nil (keyword_chars _ wire_mem) hx hwire hu,
    hits_lit_space_nil (keyword_chars _ reg_mem) hx hreg hu, List.nil_append, List.nil_append]

end Pattern

end Rv32iRtl
