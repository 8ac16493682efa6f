import Rv32iRtl.PortPattern

/-! What the port pattern reads at a declaration. -/
namespace Rv32iRtl

open Backtrack Backtrack.Regex

lemma Written.plain_or (l : Written) : (∀ x ∈ l, ∃ c, x = .inl c) ∨
    ∃ l₁ c l₂, l = l₁ ++ .inr c :: l₂ ∧ ∀ x ∈ l₁, ∃ c, x = .inl c := by
  induction l with
  | nil => exact Or.inl (by simp)
  | cons x l ih =>
    cases x with
    | inr c => exact Or.inr ⟨[], c, l, rfl, by simp⟩
    | inl d =>
      rcases ih with h | ⟨l₁, c, l₂, rfl, h⟩
      · exact Or.inl (List.forall_mem_cons.mpr ⟨⟨d, rfl⟩, h⟩)
      · exact Or.inr ⟨.inl d :: l₁, c, l₂, rfl, List.forall_mem_cons.mpr ⟨⟨d, rfl⟩, h⟩⟩

lemma Written.text_of_plain {l : Written} (h : ∀ x ∈ l, ∃ c, x = .inl c) : l.text = l.bare := by
  induction l with
  | nil => rfl
  | cons x l ih =>
    obtain ⟨⟨c, rfl⟩, hl⟩ := List.forall_mem_cons.mp h
    have hin := ih hl
    change c :: Written.text l = c :: Written.bare l
    rw [hin]

lemma prefix_of_not_mem {a b w v : Text} {c : Char} (h : a ++ b = w ++ c :: v) (hc : c ∉ a) :
    a <+: w := by
  rcases List.append_eq_append_iff.mp h with ⟨m, hw, -⟩ | ⟨m, ha, hm⟩
  · exact ⟨m, hw.symm⟩
  · cases m with
    | nil => exact ⟨[], by rw [ha, List.append_nil, List.append_nil]⟩
    | cons d m =>
      obtain ⟨rfl, -⟩ := List.cons.inj hm
      exact absurd (by simp [ha]) hc

lemma Comment.text_opening (c : Comment) :
    ∃ o t, c.text = o ++ t ∧ (o = "//".toList ∨ o = "/*".toList) := by
  cases c with
  | line t h => exact ⟨_, t ++ ['\n'], List.append_assoc _ _ _, Or.inl rfl⟩
  | block t h => exact ⟨_, t ++ "*/".toList, List.append_assoc _ _ _, Or.inr rfl⟩

/-- The range up to its first closing bracket is the range without comments only if the former
has no comment and no other bracket in it. -/
lemma BitRange.plain_of_first (r : BitRange) {t w v : Text}
    (h : r.content.text ++ ']' :: t = w ++ ']' :: v) (hw : ']' ∉ w) (heq : w = r.content.bare) :
    r.Plain ∧ v = t := by
  rcases r.content.plain_or with hplain | ⟨l₁, c, l₂, hl, hplain⟩
  · rw [Written.text_of_plain hplain, ← heq] at h
    exact ⟨⟨hplain, heq ▸ hw⟩, (List.cons.inj (List.append_cancel_left h)).2.symm⟩
  · obtain ⟨o, u, hc, ho⟩ := c.text_opening
    have hbare : r.content.bare = Written.bare l₁ ++ Written.bare l₂ := by
      rw [hl, Written.bare, List.filterMap_append]
      rfl
    have htext : r.content.text = Written.bare l₁ ++ o ++ (u ++ Written.text l₂) := by
      rw [hl, Written.text, List.flatMap_append, ← Written.text, Written.text_of_plain hplain,
        List.flatMap_cons]
      change _ ++ (c.text ++ Written.text l₂) = _
      rw [hc, List.append_assoc, List.append_assoc]
    have hfree : ']' ∉ Written.bare l₁ ++ o := by
      rw [heq, hbare] at hw
      rintro hm
      rcases List.mem_append.mp hm with hm | hm
      · exact hw (List.mem_append_left _ hm)
      · rcases ho with rfl | rfl <;> revert hm <;> decide
    rw [htext, List.append_assoc] at h
    have hpre := prefix_of_not_mem h hfree
    have hinfix : o <:+: r.content.bare := by
      rw [← heq]
      exact (List.infix_append' _ _ []).trans (by simpa using hpre.isInfix)
    rcases ho with rfl | rfl
    · exact absurd hinfix r.no_line
    · exact absurd hinfix r.no_block

section Reading

variable {unicode : Char → Bool} {p : Option Char}

/-- The port that a match of the rest of the pattern gives. -/
def readAs (direction : Text) (h : Hit Char) : Option Port :=
  portOf ⟨h.text, (1, direction) :: h.groups, h.rest⟩

variable {e : Text}

lemma readAs_name {h : Hit Char} {w : Text} (hg : h.groups = [(3, w)]) :
    readAs e h = if w ∈ portKeywords then none else some ⟨e, ['1'], w⟩ := by
  simp [readAs, portOf, Hit.group, hg]

lemma readAs_range {h : Hit Char} {w w' : Text} (hg : h.groups = [(2, w'), (3, w)])
    (hne : w' ≠ []) : readAs e h =
      if w ∈ portKeywords then none else some ⟨e, '[' :: (w' ++ [']']), w⟩ := by
  simp [readAs, portOf, Hit.group, hg, hne]

lemma Identifier.not_portKeyword (x : Identifier) : x.text ∉ portKeywords := by
  have hsub : ∀ k ∈ portKeywords, k ∈ verilogKeywords := by simp [portKeywords, verilogKeywords]
  exact fun h => x.not_keyword (hsub _ h)

lemma plus_groups {P : Char → Bool} {cs : Text} {h : Hit Char} (hm : h ∈ (plus P).hits p cs) :
    h.groups = [] := by
  cases cs with
  | nil => contradiction
  | cons c cs =>
    rw [hits_plus] at hm
    split_ifs at hm
    · obtain ⟨q, -, rfl⟩ := List.mem_map.mp hm
      rfl
    · contradiction

lemma space_name_groups {cs : Text} {h : Hit Char}
    (hm : h ∈ (seq (plus isSpace) (nameRe unicode 3)).hits p cs) : ∃ w, h.groups = [(3, w)] := by
  obtain ⟨h₁, hm₁, hm₂⟩ := List.mem_flatMap.mp hm
  obtain ⟨h₂, hm₃, rfl⟩ := List.mem_map.mp hm₂
  obtain ⟨h₃, hm₄, rfl⟩ := List.mem_map.mp hm₃
  refine ⟨h₃.text, ?_⟩
  change h₁.groups ++ (h₃.groups ++ [(3, h₃.text)]) = _
  rw [plus_groups hm₁, plus_groups hm₄]
  rfl

lemma rangeRe_word {x : Text} {c : Char} (hx : x.head? = some c) (hc : isIdentifierChar c = true)
    (u : Text) : (rangeRe unicode).hits p (x ++ u) = (nameRe unicode 3).hits p (x ++ u) := by
  obtain ⟨t, rfl⟩ : ∃ t, x = c :: t := List.head?_eq_some_iff.mp hx
  refine rangeRe_other (fun h => ?_) (t ++ u)
  rw [h] at hc
  revert hc
  decide

namespace Declaration

variable {d : Declaration} {u : Text}

lemma rangeText_some {r : BitRange} {g : Gap} (hr : d.range = some (r, g)) (t : Text) :
    d.rangeText ++ t = '[' :: (r.content.text ++ ']' :: (g.text ++ t)) := by
  simp [rangeText, hr, Enclosed.text]

lemma rangeText_none (hr : d.range = none) (t : Text) : d.rangeText ++ t = t := by
  simp [rangeText, hr]

/-- Where the range and the name are read as they are declared, they are simple. -/
lemma rangeRe_reads (hu : Delimited u) {h : Hit Char}
    (hh : ((rangeRe unicode).hits p (d.rangeText ++ (d.name.text ++ u))).head? = some h)
    (hread : readAs e h = some ⟨e, d.width, d.name.text⟩) :
    '$' ∉ d.name.text ∧ (∀ r g, d.range = some (r, g) → r.Plain ∧ g.Blank) ∧ h.rest = u := by
  obtain ⟨w, t, hsplit, hne, hw, ht, hcase⟩ := d.name.word unicode hu.isWord
  cases hr : d.range with
  | none =>
    rw [rangeText_none hr, rangeRe_word rfl (d.name.isIdentifierChar _ List.mem_cons_self), hsplit,
      nameRe_head hne hw ht] at hh
    obtain rfl := Option.some.inj hh
    rw [readAs_name rfl] at hread
    split_ifs at hread
    have hname : w = d.name.text := congrArg Port.name (Option.some.inj hread)
    obtain ⟨hd, -, ht⟩ | ⟨-, hneq⟩ := hcase
    · exact ⟨hd, by simp, ht⟩
    · exact absurd hname hneq
  | some rg =>
    obtain ⟨r, g⟩ := rg
    rw [rangeText_some hr] at hh
    obtain ⟨w₂, v, hbr, hw₂⟩ := List.eq_append_cons_of_mem
      (show ']' ∈ r.content.text ++ ']' :: (g.text ++ (d.name.text ++ u)) by simp)
    rw [hbr] at hh
    by_cases hne₂ : w₂ = []
    · rw [hne₂, List.nil_append, rangeRe_empty] at hh
      contradiction
    · rw [rangeRe_bracket hne₂ hw₂, List.head?_map] at hh
      obtain ⟨h', hh', rfl⟩ := Option.map_eq_some_iff.mp hh
      obtain ⟨x, hx⟩ := space_name_groups (List.mem_of_head? hh')
      have hgroups : (Hit.append ⟨'[' :: (w₂ ++ [']']), [(2, w₂)], v⟩ h').groups =
          [(2, w₂), (3, x)] := by
        rw [Hit.append, hx]
        rfl
      rw [readAs_range hgroups hne₂] at hread
      split_ifs at hread
      have hwidth : w₂ = r.content.bare := by
        have hport := congrArg Port.width (Option.some.inj hread)
        simpa [width, hr] using hport
      have hname : x = d.name.text := congrArg Port.name (Option.some.inj hread)
      obtain ⟨hplain, rfl⟩ := r.plain_of_first hbr hw₂ hwidth
      have hstarts := d.name.starts u
      by_cases hg : g.Blank
      · rw [hits_gap_blank nameRe_solid hg hstarts, List.head?_map, hsplit,
          nameRe_head hne hw ht] at hh'
        obtain rfl := Option.some.inj hh'
        obtain rfl : w = x := by simpa [Hit.append] using hx
        obtain ⟨hd, -, ht⟩ | ⟨-, hneq⟩ := hcase
        · refine ⟨hd, fun r' g' heq => ?_, ht⟩
          obtain ⟨rfl, rfl⟩ := Prod.mk.inj (Option.some.inj heq)
          exact ⟨hplain, hg⟩
        · exact absurd hname hneq
      · rw [hits_gap_nil nameRe_solid hg hstarts] at hh'
        contradiction

lemma rangeRe_simple (hu : Delimited u) (hname : '$' ∉ d.name.text)
    (hrange : ∀ r g, d.range = some (r, g) → r.Plain ∧ g.Blank) :
    ∃ h, ((rangeRe unicode).hits p (d.rangeText ++ (d.name.text ++ u))).head? = some h ∧
      readAs e h = some ⟨e, d.width, d.name.text⟩ := by
  have hkey := d.name.not_portKeyword
  obtain ⟨w, t, hsplit, hne, hw, ht, ⟨-, rfl, rfl⟩ | ⟨hd, -⟩⟩ := d.name.word unicode hu.isWord
  · cases hr : d.range with
    | none =>
      rw [rangeText_none hr, rangeRe_word rfl (d.name.isIdentifierChar _ List.mem_cons_self),
        nameRe_head hne hw ht]
      refine ⟨_, rfl, ?_⟩
      rw [readAs_name rfl, if_neg hkey, width, hr]
    | some rg =>
      obtain ⟨r, g⟩ := rg
      obtain ⟨⟨hplain, hbr⟩, hg⟩ := hrange r g hr
      rw [rangeText_some hr, Written.text_of_plain hplain, rangeRe_bracket r.nonempty hbr,
        hits_gap_blank nameRe_solid hg (d.name.starts t), List.head?_map, List.head?_map,
        nameRe_head hne hw ht]
      refine ⟨_, rfl, ?_⟩
      rw [readAs_range rfl r.nonempty, if_neg hkey, width, hr]
  · exact absurd hd hname

/-- From the range on. -/
def rangePart (d : Declaration) (u : Text) : Text := d.rangeText ++ (d.name.text ++ u)

lemma rangePart_starts (d : Declaration) (u : Text) : Starts (d.rangePart u) := by
  cases hr : d.range with
  | none =>
    rw [rangePart, rangeText_none hr]
    exact d.name.starts u
  | some rg =>
    rw [rangePart, rangeText_some hr]
    exact ⟨'[', _, rfl, Or.inr rfl⟩

lemma rangePart_delimited (h : d.range ≠ none) (u : Text) : Delimited (d.rangePart u) := by
  obtain ⟨rg, hr⟩ := Option.ne_none_iff_exists'.mp h
  rw [rangePart, rangeText_some hr]
  exact ⟨'[', _, rfl, Or.inr (by decide)⟩

lemma keyword_words : ∀ k ∈ portKeywords, k ≠ [] ∧ ∀ c ∈ k, isIdentifierChar c = true ∧ c ≠ '$' := by
  simp [portKeywords, isIdentifierChar]

lemma signed_mem : "signed".toList ∈ portKeywords := by simp [portKeywords]

lemma net_mem (n : NetType) : n.text ∈ portKeywords := by
  cases n <;> simp [portKeywords]

/-- A keyword in place of the name is skipped. -/
lemma keyword_reads {k t : Text} (hk : k ∈ portKeywords) (ht : Delimited t) {h : Hit Char}
    (hh : ((rangeRe unicode).hits p (k ++ t)).head? = some h) : readAs e h = none := by
  obtain ⟨hne, hchars⟩ := keyword_words k hk
  have hw : ∀ c ∈ k, isWord unicode c = true :=
    fun c hc => (isWord_of_isIdentifierChar (hchars c hc).1).mpr (hchars c hc).2
  obtain ⟨c, k', rfl⟩ := List.exists_cons_of_ne_nil hne
  rw [rangeRe_word rfl (hchars c List.mem_cons_self).1, nameRe_head hne hw ht.isWord] at hh
  obtain rfl := Option.some.inj hh
  rw [readAs_name rfl, if_pos hk]

lemma signed_delimited {g : Gap} (hs : d.signed = some g) (u : Text) :
    Delimited (g.text ++ d.rangePart u) := by
  refine Gap.delimited fun hg => d.rangePart_delimited (d.signed_apart ?_) u
  rw [hs, hg]

lemma net_delimited {n : NetType} {g : Gap} (hn : d.net = some (n, g)) (u : Text) :
    Delimited (g.text ++ (d.signedText ++ d.rangePart u)) := by
  refine Gap.delimited fun hg => ?_
  obtain ⟨hs, hr⟩ := d.net_apart n (by rw [hn, hg])
  rw [signedText, hs]
  exact d.rangePart_delimited hr u

lemma signedText_some {g : Gap} (hs : d.signed = some g) (t : Text) :
    d.signedText ++ t = "signed".toList ++ (g.text ++ t) := by
  simp [signedText, hs]

lemma netText_some {n : NetType} {g : Gap} (hn : d.net = some (n, g)) (t : Text) :
    d.netText ++ t = n.text ++ (g.text ++ t) := by
  simp [netText, hn]

lemma signedText_starts (d : Declaration) (u : Text) :
    Starts (d.signedText ++ d.rangePart u) := by
  cases hs : d.signed with
  | none =>
    rw [signedText, hs]
    exact d.rangePart_starts u
  | some g =>
    rw [signedText_some hs]
    exact ⟨'s', _, rfl, Or.inl rfl⟩

/-- Without a net type in front the rest of the pattern is what matches. -/
lemma netRe_type (hu : Delimited u) :
    (netRe unicode).hits p (d.signedText ++ d.rangePart u) =
      (rangeRe unicode).hits p (d.signedText ++ d.rangePart u) := by
  cases hs : d.signed with
  | some g =>
    rw [signedText_some hs]
    exact netRe_word (fun c hc => ((keyword_words _ signed_mem).2 c hc).1) (by simp) (by simp)
      (signed_delimited hs u)
  | none =>
    have hnil : d.signedText = [] := by rw [signedText, hs]
    rw [hnil, List.nil_append, rangePart]
    cases hr : d.range with
    | none =>
      have hkey : d.name.text ∉ verilogKeywords := d.name.not_keyword
      rw [rangeText_none hr]
      exact netRe_word d.name.isIdentifierChar (fun h => hkey (h ▸ wire_mem))
        (fun h => hkey (h ▸ reg_mem)) hu
    | some rg =>
      rw [rangeText_some hr]
      exact netRe_other (by simp) (by simp)

lemma signed_reads {h : Hit Char}
    (hh : ((rangeRe unicode).hits p (d.signedText ++ d.rangePart u)).head? = some h)
    (hread : readAs e h ≠ none) : d.signed = none := by
  by_contra hsome
  obtain ⟨g, hs⟩ := Option.ne_none_iff_exists'.mp hsome
  rw [signedText_some hs] at hh
  exact hread (keyword_reads signed_mem (signed_delimited hs u) hh)

/-- A net type and what follows it, or the net type in place of the name. -/
lemma netRe_net {n : NetType} (hn : n ≠ .logic) (t : Text) :
    ((netRe unicode).hits p (n.text ++ t)).head? =
      (((seq (plus isSpace) (rangeRe unicode)).hits none t).head?.map
        (Hit.append ⟨n.text, [], t⟩)).or ((rangeRe unicode).hits p (n.text ++ t)).head? := by
  have hplaceless : (seq (plus isSpace) (rangeRe unicode)).Placeless :=
    ⟨⟨trivial, trivial⟩, rangeRe_solid.placeless⟩
  have hmatch : ∀ k : Text, (seq (lit k) (seq (plus isSpace) (rangeRe unicode))).hits p (k ++ t) =
      ((seq (plus isSpace) (rangeRe unicode)).hits none t).map (Hit.append ⟨k, [], t⟩) := by
    intro k
    rw [hits_seq_single (hits_lit k t p), hits_placeless hplaceless _ none]
  rw [netRe_hits]
  cases n with
  | logic => contradiction
  | wire =>
    have hreg : ¬"reg".toList <+: "wire".toList ++ t := by simp
    rw [NetType.text_wire, hmatch, hits_seq_nil (hits_lit_nil hreg), List.nil_append,
      List.head?_append, List.head?_map]
  | reg =>
    have hwire : ¬"wire".toList <+: "reg".toList ++ t := by simp
    rw [NetType.text_reg, hmatch, hits_seq_nil (hits_lit_nil hwire), List.nil_append,
      List.head?_append, List.head?_map]

lemma netRe_reads (hu : Delimited u) {h : Hit Char}
    (hh : ((netRe unicode).hits p (d.netText ++ (d.signedText ++ d.rangePart u))).head? = some h)
    (hread : readAs e h ≠ none) :
    d.signed = none ∧ (∀ n g, d.net = some (n, g) → n ≠ .logic ∧ g.Blank) ∧
      ∃ h', ((rangeRe unicode).hits none (d.rangePart u)).head? = some h' ∧
        readAs e h' = readAs e h ∧ h'.rest = h.rest := by
  have hplain : d.signed = none → d.signedText = [] := fun hs => by rw [signedText, hs]
  cases hn : d.net with
  | none =>
    have hnil : d.netText = [] := by rw [netText, hn]
    rw [hnil, List.nil_append, netRe_type hu,
      hits_placeless rangeRe_solid.placeless p none] at hh
    have hs := signed_reads hh hread
    rw [hplain hs] at hh
    exact ⟨hs, by simp, h, hh, rfl, rfl⟩
  | some ng =>
    obtain ⟨n, g⟩ := ng
    have hdel := net_delimited hn u
    rw [netText_some hn] at hh
    have hname : ((rangeRe unicode).hits p (n.text ++ (g.text ++ (d.signedText ++
        d.rangePart u)))).head? ≠ some h := fun hh => hread (keyword_reads (net_mem n) hdel hh)
    have hlogic : n ≠ .logic := by
      rintro rfl
      apply hname
      have hchars := fun c hc => ((keyword_words _ (net_mem .logic)).2 c hc).1
      rw [← hh, netRe_word hchars (by simp) (by simp) hdel]
    rw [netRe_net hlogic, Option.or_eq_some_iff] at hh
    obtain ⟨h₁, hh₁, rfl⟩ := Option.map_eq_some_iff.mp (hh.resolve_right fun hor => hname hor.2)
    have hg : g.Blank := by
      by_contra hg
      rw [hits_gap_nil rangeRe_solid hg (d.signedText_starts u)] at hh₁
      contradiction
    rw [hits_gap_blank rangeRe_solid hg (d.signedText_starts u), List.head?_map] at hh₁
    obtain ⟨h₂, hh₂, rfl⟩ := Option.map_eq_some_iff.mp hh₁
    have hs := signed_reads hh₂ hread
    rw [hplain hs] at hh₂
    refine ⟨hs, fun n' g' heq => ?_, h₂, hh₂, rfl, rfl⟩
    obtain ⟨rfl, rfl⟩ := Prod.mk.inj (Option.some.inj heq)
    exact ⟨hlogic, hg⟩

lemma netRe_simple (hu : Delimited u) (hs : d.signed = none)
    (hnet : ∀ n g, d.net = some (n, g) → n ≠ .logic ∧ g.Blank) {h' : Hit Char}
    (hh' : ((rangeRe unicode).hits none (d.rangePart u)).head? = some h') :
    ∃ h, ((netRe unicode).hits p (d.netText ++ (d.signedText ++ d.rangePart u))).head? = some h ∧
      readAs e h = readAs e h' := by
  have hplain : d.signedText = [] := by rw [signedText, hs]
  cases hn : d.net with
  | none =>
    have hnil : d.netText = [] := by rw [netText, hn]
    refine ⟨h', ?_, rfl⟩
    rw [hnil, List.nil_append, netRe_type hu, hplain, List.nil_append,
      hits_placeless rangeRe_solid.placeless p none, hh']
  | some ng =>
    obtain ⟨n, g⟩ := ng
    obtain ⟨hlogic, hg⟩ := hnet n g hn
    rw [netText_some hn, netRe_net hlogic, hplain, List.nil_append,
      hits_gap_blank rangeRe_solid hg (d.rangePart_starts u), List.head?_map, hh']
    exact ⟨_, rfl, rfl⟩

lemma netText_starts (d : Declaration) (u : Text) :
    Starts (d.netText ++ (d.signedText ++ d.rangePart u)) := by
  cases hn : d.net with
  | none =>
    rw [netText, hn]
    exact d.signedText_starts u
  | some ng =>
    obtain ⟨n, g⟩ := ng
    rw [netText_some hn]
    cases n <;> exact ⟨_, _, rfl, Or.inl rfl⟩

lemma core_append (d : Declaration) (u : Text) :
    d.core ++ u = d.direction.text ++ (d.afterDirection.text ++ (d.netText ++ (d.signedText ++
      d.rangePart u))) := by
  simp only [core, rangePart, List.append_assoc]

lemma portRe_direction (e : Direction) (t : Text) :
    (portRe unicode).hits none (e.text ++ t) =
      ((seq (plus isSpace) (netRe unicode)).hits none t).map
        (Hit.append ⟨e.text, [(1, e.text)], t⟩) := by
  have hplaceless : (seq (plus isSpace) (netRe unicode)).Placeless :=
    ⟨⟨trivial, trivial⟩, netRe_solid.placeless⟩
  have hgroup : (group 1 (alt (lit "input".toList) (lit "output".toList))).hits none (e.text ++ t) =
      [⟨e.text, [(1, e.text)], t⟩] := by
    cases e with
    | input =>
      have hother : ¬"output".toList <+: "input".toList ++ t := by simp
      rw [hits, hits, Direction.text_input, hits_lit, hits_lit_nil hother]
      rfl
    | output =>
      have hother : ¬"input".toList <+: "output".toList ++ t := by simp
      rw [hits, hits, Direction.text_output, hits_lit, hits_lit_nil hother]
      rfl
  rw [portRe_eq, hits_seq_single hgroup, hits_placeless hplaceless _ none]

def port (d : Declaration) : Port := ⟨d.direction.text, d.width, d.name.text⟩

/-- A match that reads the first name of a declaration as it is declared. -/
lemma portRe_reads (hu : Delimited u) {h : Hit Char}
    (hh : ((portRe unicode).hits none (d.core ++ u)).head? = some h)
    (hread : portOf h = some d.port) : (d.more = [] → d.Simple) ∧ h.rest = u := by
  rw [core_append, portRe_direction, List.head?_map] at hh
  obtain ⟨h₁, hh₁, rfl⟩ := Option.map_eq_some_iff.mp hh
  have hread₁ : readAs d.direction.text h₁ = some d.port := hread
  have hstarts := d.netText_starts u
  have hgap : d.afterDirection.Blank := by
    by_contra hg
    rw [hits_gap_nil netRe_solid hg hstarts] at hh₁
    contradiction
  rw [hits_gap_blank netRe_solid hgap hstarts, List.head?_map] at hh₁
  obtain ⟨h₂, hh₂, rfl⟩ := Option.map_eq_some_iff.mp hh₁
  have hread₂ : readAs d.direction.text h₂ = some d.port := hread₁
  obtain ⟨hs, hnet, h₃, hh₃, heq, hrest₃⟩ :=
    netRe_reads (e := d.direction.text) hu hh₂ (by rw [hread₂]; simp)
  obtain ⟨hname, hrange, hrest⟩ := rangeRe_reads hu hh₃ (heq.trans hread₂)
  exact ⟨fun hmore => ⟨hmore, hname, hgap, hnet, hs, hrange⟩, hrest₃.symm.trans hrest⟩

/-- A simple declaration is read. -/
lemma portRe_simple (hu : Delimited u) (hd : d.Simple) :
    ∃ h, ((portRe unicode).hits none (d.core ++ u)).head? = some h ∧ portOf h = some d.port := by
  obtain ⟨h₃, hh₃, hread₃⟩ :=
    rangeRe_simple (p := none) (e := d.direction.text) hu hd.name hd.range
  obtain ⟨h₂, hh₂, heq⟩ := netRe_simple (p := none) (e := d.direction.text) hu hd.signed
    hd.net hh₃
  rw [core_append, portRe_direction, hits_gap_blank netRe_solid hd.direction_gap
    (d.netText_starts u), List.head?_map, List.head?_map, hh₂]
  exact ⟨_, rfl, heq.trans hread₃⟩

end Declaration

end Reading

end Rv32iRtl
