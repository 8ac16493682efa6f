import Rv32iRtl.ModuleSource
import Rv32iRtl.PortExtraction

/-! Which modules of a source become chunks of the corpus. -/
namespace Rv32iRtl

open Backtrack Backtrack.Regex

def Gap.AllBlank (g : Gap) : Prop := ∀ x ∈ g, ∃ c h, x = .blank c h

lemma Gap.allBlank_of_slash {g : Gap} (h : '/' ∉ g.text) : g.AllBlank := by
  intro x hx
  rcases x.text_blank with ⟨c, -, -, hc, rfl⟩ | ⟨-, u, hu⟩
  · exact ⟨c, hc, rfl⟩
  · refine absurd (List.mem_flatMap.mpr ⟨x, hx, ?_⟩) h
    rw [hu]
    exact List.mem_cons_self

lemma Gap.AllBlank.isSpace {g : Gap} (h : g.AllBlank) : ∀ c ∈ g.text, isSpace c = true := by
  intro c hc
  obtain ⟨x, hx, hcx⟩ := List.mem_flatMap.mp hc
  obtain ⟨d, hd, rfl⟩ := h x hx
  rw [List.mem_singleton.mp hcx]
  exact isSpace_of_isBlank hd

lemma Lexeme.blank_of_isSpace {l : Lexeme} (h : ∀ c ∈ l.text.head?, isSpace c = true) :
    ∃ c hc, l = .blank c hc := by
  cases l with
  | blank c hc => exact ⟨c, hc, rfl⟩
  | comment d =>
    cases d <;>
    · have hslash := h '/' rfl
      contradiction
  | string | directive | escaped | prototype =>
    have hfirst := h _ rfl
    contradiction
  | word t hne ht =>
    obtain ⟨c, t, rfl⟩ := List.exists_cons_of_ne_nil hne
    have hfirst := h c rfl
    rw [isSpace_of_isIdentifierChar (ht c List.mem_cons_self)] at hfirst
    contradiction
  | symbol c hc =>
    have hfirst := h c rfl
    rw [isSpace_of_isPrintable (isPrintable_of_isSymbol hc)] at hfirst
    contradiction

/-- White space in front of a colon is a gap. -/
lemma Source.gap_of_spaces {s : Source} {sp u : Text} (h : s.text = sp ++ ':' :: u)
    (hsp : ∀ c ∈ sp, isSpace c = true) : ∃ g : Gap, sp = g.text := by
  induction sp generalizing s with
  | nil => exact ⟨[], rfl⟩
  | cons c sp ih =>
    have hc := hsp c List.mem_cons_self
    cases s with
    | done => contradiction
    | lastComment =>
      obtain rfl := (List.cons.inj h).1
      contradiction
    | declaration keyword =>
      cases keyword <;>
      · obtain rfl := (List.cons.inj h).1
        contradiction
    | lexeme l rest =>
      obtain ⟨d, hd, rfl⟩ : ∃ d hd, l = .blank d hd := by
        refine Lexeme.blank_of_isSpace fun d hd => ?_
        have hhead := congrArg List.head? h
        rw [text, List.head?_append_of_ne_nil _ l.text_ne_nil, hd] at hhead
        obtain rfl : d = c := Option.some.inj hhead
        exact hc
      obtain ⟨-, hrest⟩ := List.cons.inj h
      obtain ⟨g, rfl⟩ := ih hrest fun e he => hsp e (List.mem_cons_of_mem c he)
      obtain rfl : d = c := (List.cons.inj h).1
      exact ⟨.blank d hd :: g, rfl⟩

section Label

variable (unicode : Char → Bool)

/-- `(?:\s*:\s*\w+)?` -/
def labelRe : Regex Char :=
  opt (seq (many true isSpace) (seq (lit ":".toList) (seq (many true isSpace) (plus (isWord unicode)))))

lemma moduleRe_eq : moduleRe unicode =
    span (isWord unicode) "module".toList "endmodule".toList (labelRe unicode) := rfl

variable {unicode} {p : Option Char}

lemma labelRe_ne_nil (p : Option Char) (t : Text) : (labelRe unicode).hits p t ≠ [] := by
  rw [labelRe, opt, hits]
  exact List.append_ne_nil_of_right_ne_nil _ (List.cons_ne_nil _ _)

/-- What is read of a label: nothing, or a colon and a word. -/
lemma labelRe_shape {t : Text} {m : Hit Char} (h : m ∈ (labelRe unicode).hits p t) :
    m = Hit.nothing t ∨ ∃ sp sp' w, m.text = sp ++ ':' :: (sp' ++ w) ∧
      (∀ c ∈ sp, isSpace c = true) ∧ (∀ c ∈ sp', isSpace c = true) ∧
      ∀ c ∈ w, isWord unicode c = true := by
  rcases List.mem_append.mp h with h | h
  · obtain ⟨h1, hm1, h2, hm2, rfl⟩ := mem_seq h
    obtain ⟨h3, hm3, h4, hm4, rfl⟩ := mem_seq hm2
    obtain ⟨h5, hm5, h6, hm6, rfl⟩ := mem_seq hm4
    obtain ⟨q1, hq1, rfl⟩ := mem_many hm1
    obtain ⟨q5, hq5, rfl⟩ := mem_many hm5
    refine Or.inr ⟨q1.1, q5.1, h6.text, ?_, of_mem_splits hq1, of_mem_splits hq5, mem_plus hm6⟩
    rw [(mem_lit hm3).2]
    rfl
  · exact Or.inl (List.mem_singleton.mp h)

lemma labelRe_reads (hu : ∀ c, isSpace c = true → unicode c = false) {sp sp' w t : Text}
    (hsp : ∀ c ∈ sp, isSpace c = true) (hsp' : ∀ c ∈ sp', isSpace c = true) (hne : w ≠ [])
    (hw : ∀ c ∈ w, isWord unicode c = true) (ht : ∀ c ∈ t.head?, isWord unicode c = false) :
    ((labelRe unicode).hits p (sp ++ ':' :: (sp' ++ (w ++ t)))).head? =
      some ⟨sp ++ ':' :: (sp' ++ w), [], t⟩ := by
  have hword : ∀ c ∈ (w ++ t).head?, isSpace c = false := by
    obtain ⟨c, w, rfl⟩ := List.exists_cons_of_ne_nil hne
    intro d hd
    obtain rfl : c = d := Option.some.inj hd
    by_contra hn
    have hc := hw c List.mem_cons_self
    rw [isWord_of_isSpace hu (Bool.not_eq_false _ ▸ hn)] at hc
    contradiction
  have hcolon : ∀ c ∈ (':' :: (sp' ++ (w ++ t))).head?, isSpace c = false := by
    intro c hc
    obtain rfl : ':' = c := Option.some.inj hc
    rfl
  have hlit : ∀ q, ((lit ":".toList).hits q (':' :: (sp' ++ (w ++ t)))).head? =
      some ⟨[':'], [], sp' ++ (w ++ t)⟩ := by
    intro q
    have h := hits_lit ":".toList (sp' ++ (w ++ t)) q
    exact congrArg List.head? h
  have hhead := head_many_seq hsp hcolon (head_seq (hlit (sp.getLast?.or p))
    (head_many_seq hsp' hword (head_plus hne hw ht)))
  rw [labelRe, opt, hits, List.head?_append, hhead]
  rfl

/-- The label is read as it is written. -/
def LabelRead : Option Label → Prop
  | none => True
  | some l => l.beforeColon.AllBlank ∧ l.afterColon.AllBlank ∧ ¬l.name.Escaped ∧ '$' ∉ l.name.name

lemma isWord_of_mem_label {sp' w : Text} {c : Char} (hsp' : ∀ c ∈ sp', isSpace c = true)
    (hw : ∀ c ∈ w, isWord unicode c = true) (hc : c ∈ sp' ++ w) :
    isSpace c = true ∨ isWord unicode c = true :=
  (List.mem_append.mp hc).imp (hsp' c) (hw c)

/-- A colon that stands alone splits a text in one way. -/
lemma colon_unique {sp sp' w x y : Text} (hsp : ∀ c ∈ sp, isSpace c = true)
    (hsp' : ∀ c ∈ sp', isSpace c = true) (hw : ∀ c ∈ w, isWord unicode c = true)
    (h : sp ++ ':' :: (sp' ++ w) = x ++ ':' :: y) : sp = x ∧ sp' ++ w = y := by
  have hx : ':' ∉ sp := fun hc => absurd (hsp _ hc) (by decide)
  have hy : ':' ∉ sp' ++ w := by
    intro hc
    rcases isWord_of_mem_label hsp' hw hc with hc | hc <;> contradiction
  obtain ⟨h1, -, h2⟩ := (List.append_cons_inj_of_notMem hx hy).mp h
  exact ⟨h1, h2⟩

/-- What is read of a label is the label only if that is simple. -/
lemma labelRead_of_text {l : Label} {t : Text} {m : Hit Char} (hm : m ∈ (labelRe unicode).hits p t)
    (htext : m.text = labelText (some l)) : LabelRead (some l) := by
  rcases labelRe_shape hm with rfl | ⟨sp, sp', w, hread, hsp, hsp', hw⟩
  · exact absurd htext.symm (by simp [labelText, Hit.nothing])
  · rw [hread, labelText] at htext
    obtain ⟨hbefore, hbehind⟩ := colon_unique hsp hsp' hw htext
    have hchars : ∀ c ∈ l.afterColon.text ++ l.name.text, isSpace c = true ∨ isWord unicode c = true := by
      intro c hc
      rw [← hbehind] at hc
      exact isWord_of_mem_label hsp' hw hc
    refine ⟨Gap.allBlank_of_slash fun hc => ?_, Gap.allBlank_of_slash fun hc => ?_, ?_, ?_⟩
    · have hslash := hsp '/' (hbefore ▸ hc)
      contradiction
    · rcases hchars '/' (List.mem_append_left _ hc) with h | h <;> contradiction
    · intro hescaped
      obtain ⟨t, ht, hname⟩ := ModuleName.eq_escaped hescaped
      have hmem : '\x5c' ∈ l.name.text := by
        rw [hname]
        exact List.mem_cons_self
      rcases hchars _ (List.mem_append_right _ hmem) with h | h <;> contradiction
    · intro hdollar
      rcases hchars '$' (List.mem_append_right _ (l.name.name_subset hdollar)) with h | h <;>
        contradiction

lemma labelRe_simple (hu : ∀ c, isSpace c = true → unicode c = false) {l : Label} {t : Text}
    (h : LabelRead (some l)) (ht : ∀ c ∈ t.head?, isWord unicode c = false) :
    ((labelRe unicode).hits p (labelText (some l) ++ t)).head? = some ⟨labelText (some l), [], t⟩ := by
  obtain ⟨hbefore, hafter, hname, hdollar⟩ := h
  obtain ⟨x, hx, hsimple⟩ := ModuleName.eq_simple hname
  rw [hsimple] at hdollar
  have hword : ∀ c ∈ x.text, isWord unicode c = true := fun c hc =>
    (isWord_of_isIdentifierChar (x.isIdentifierChar c hc)).mpr fun h => hdollar (h ▸ hc)
  have hreads := labelRe_reads (p := p) hu hbefore.isSpace hafter.isSpace
    (List.cons_ne_nil x.first x.rest) hword ht
  rw [labelText, hsimple, List.append_assoc, List.cons_append, List.append_assoc]
  exact hreads

lemma label_read_iff (hu : ∀ c, isSpace c = true → unicode c = false) {label : Option Label}
    {rest : Source} {m : Hit Char} (hlabel : LabelEnds rest.text label)
    (hm : ((labelRe unicode).hits p (labelText label ++ rest.text)).head? = some m) :
    m.text = labelText label ↔ LabelRead label := by
  cases label with
  | none =>
    refine iff_of_true ?_ trivial
    rcases labelRe_shape (List.mem_of_head? hm) with rfl | ⟨sp, sp', w, htext, hsp, -, -⟩
    · rfl
    · have hsplit := hits_split (List.mem_of_head? hm)
      rw [htext, List.append_assoc] at hsplit
      obtain ⟨g, rfl⟩ := Source.gap_of_spaces hsplit hsp
      exact absurd hsplit (hlabel.2 g _)
  | some l =>
    refine ⟨labelRead_of_text (List.mem_of_head? hm), fun h => ?_⟩
    have hhead := rest.head_ascii (t := []) (by simp)
    rw [List.append_nil] at hhead
    have hnext := any_isWordLike hhead (head_apart_of_labelEnds hlabel)
    rw [Option.some.inj (hm.symm.trans (labelRe_simple hu h (isWord_of_head hnext)))]

end Label

section Chunk

variable (unicode : Char → Bool)

/-- An earlier word `endmodule` is taken for the end, with only a colon and white space between it
and the one that closes the declaration, which is then taken for the label. -/
def SwallowsEnd (inner behind : Text) : Prop :=
  ∃ u sp sp', inner = u ++ ("endmodule".toList ++ (sp ++ ':' :: sp')) ∧
    (∀ c ∈ sp, isSpace c = true) ∧ (∀ c ∈ sp', isSpace c = true) ∧
    (u.getLast?.or (some 'e')).any (isWord unicode) = false ∧
    ¬StartsIn (isWord unicode) "endmodule".toList (some 'e') u
      ("endmodule".toList ++ (sp ++ ':' :: (sp' ++ ("endmodule".toList ++ behind))))

/-- The declaration with `inner` between its keywords ends where its chunk does. -/
def Closed (inner : Text) (label : Option Label) (rest : Text) : Prop :=
  (¬StartsIn (isWord unicode) "endmodule".toList (some 'e') inner
    ("endmodule".toList ++ (labelText label ++ rest)) ∧ LabelRead label) ∨
  (label = none ∧ SwallowsEnd unicode inner rest)

variable {unicode} {p : Option Char}

/-- A word behind a symbol of no word is the whole of a text that ends with it. -/
lemma word_unique {W : Char → Bool} {x y w e : Text} (hw : ∀ c ∈ w, W c = true)
    (he : ∀ c ∈ e, W c = true) (hx : ∀ c ∈ x.getLast?, W c = false)
    (hy : ∀ c ∈ y.getLast?, W c = false) (h : x ++ w = y ++ e) : x = y ∧ w = e := by
  have hlast : ∀ {z m : Text}, (∀ c ∈ (z ++ m).getLast?, W c = false) → (∀ c ∈ m, W c = true) →
      m = [] := by
    intro z m hz hm
    by_contra hne
    have hc := hz (m.getLast hne) (by simp [List.getLast?_append, List.getLast?_eq_some_getLast hne])
    rw [hm _ (List.getLast_mem hne)] at hc
    contradiction
  rcases List.append_eq_append_iff.mp h with ⟨m, rfl, rfl⟩ | ⟨m, rfl, rfl⟩
  · obtain rfl := hlast hy fun c hc => hw c (List.mem_append_left e hc)
    exact ⟨(List.append_nil x).symm, rfl⟩
  · obtain rfl := hlast hx fun c hc => he c (List.mem_append_left w hc)
    exact ⟨List.append_nil y, rfl⟩

/-- What the label pattern reads ends with the closing keyword only if that is its word. -/
lemma swallowed (hu : ∀ c, isSpace c = true → unicode c = false) {sp sp' w y : Text}
    {label : Option Label} (hsp : ∀ c ∈ sp, isSpace c = true) (hsp' : ∀ c ∈ sp', isSpace c = true)
    (hw : ∀ c ∈ w, isWord unicode c = true) (hy : ∀ c ∈ y.getLast?, isWord unicode c = false)
    (h : sp ++ ':' :: (sp' ++ w) = y ++ ("endmodule".toList ++ labelText label)) :
    label = none ∧ y = sp ++ ':' :: sp' := by
  cases label with
  | some l =>
    have hsplit : sp ++ ':' :: (sp' ++ w) =
        (y ++ ("endmodule".toList ++ l.beforeColon.text)) ++ ':' ::
          (l.afterColon.text ++ l.name.text) := by
      rw [h, labelText, List.append_assoc, List.append_assoc]
    obtain ⟨rfl, -⟩ := colon_unique hsp hsp' hw hsplit
    have he := hsp 'e' (List.mem_append_right y List.mem_cons_self)
    contradiction
  | none =>
    have hfront : ∀ c ∈ (sp ++ ':' :: sp').getLast?, isWord unicode c = false := by
      intro c hc
      rw [List.getLast?_append_of_ne_nil _ (List.cons_ne_nil _ _)] at hc
      rcases List.mem_cons.mp (List.mem_of_getLast? hc) with rfl | hc
      · rfl
      · exact isWord_of_isSpace hu (hsp' c hc)
    rw [labelText, List.append_nil, ← List.cons_append, ← List.append_assoc] at h
    exact ⟨rfl, (word_unique hw isWord_endmodule.all hfront hy h).1.symm⟩

lemma wordAt_colon (hu : ∀ c, isSpace c = true → unicode c = false) {u sp x : Text}
    (hsp : ∀ c ∈ sp, isSpace c = true) (hlast : (u.getLast?.or (some 'e')).any (isWord unicode) = false) :
    WordAt (isWord unicode) "endmodule".toList (u.getLast?.or (some 'e'))
      ("endmodule".toList ++ (sp ++ ':' :: x)) := by
  apply wordAt_append hlast
  cases sp with
  | nil => rfl
  | cons c sp => exact isWord_of_isSpace hu (hsp c List.mem_cons_self)

/-- The closing keyword is a word. -/
lemma Source.Apart.wordAt {inner behind : Text} (h : Source.Apart inner behind) :
    WordAt (isWord unicode) "endmodule".toList (inner.getLast?.or (some 'e'))
      ("endmodule".toList ++ behind) := by
  refine wordAt_append ?_ (any_isWord h.behind)
  rw [getLast?_or_of_ne_nil h.ne_nil]
  exact any_isWord h.closing

lemma SwallowsEnd.startsIn (hu : ∀ c, isSpace c = true → unicode c = false) {inner behind : Text}
    (h : SwallowsEnd unicode inner behind) : StartsIn (isWord unicode) "endmodule".toList (some 'e')
      inner ("endmodule".toList ++ behind) := by
  obtain ⟨u, sp, sp', hinner, hsp, -, hlast, -⟩ := h
  refine ⟨u, _, hinner, List.append_ne_nil_of_left_ne_nil (by simp) _, ?_⟩
  rw [List.append_assoc, List.append_assoc]
  exact wordAt_colon hu hsp hlast

/-- The declaration opens a chunk, which goes up to the first word `endmodule`. -/
lemma exists_first_end {inner behind : Text} (hp : p.any (isWord unicode) = false)
    (hapart : Source.Apart inner behind) :
    ∃ u t, inner ++ ("endmodule".toList ++ behind) = u ++ ("endmodule".toList ++ t) ∧
      SpanAt (isWord unicode) "module".toList "endmodule".toList p u t := by
  have hopening : WordAt (isWord unicode) "module".toList p
      ("module".toList ++ (inner ++ ("endmodule".toList ++ behind))) := by
    apply wordAt_append hp
    rw [List.head?_append_of_ne_nil _ hapart.ne_nil]
    exact any_isWord hapart.keyword
  have hbehind : StartsIn (isWord unicode) "endmodule".toList (some 'e')
      (inner ++ ("endmodule".toList ++ behind)) [] := by
    refine ⟨inner, _, rfl, List.append_ne_nil_of_left_ne_nil (by simp) _, ?_⟩
    rw [List.append_nil]
    exact hapart.wordAt
  obtain ⟨u, t, hsplit, hspan⟩ := exists_spanAt hopening hbehind
  exact ⟨u, t, List.append_cancel_left hsplit, hspan⟩

/-- The end of a chunk that an earlier word gives. -/
lemma early_end {inner behind u t : Text} (hapart : Source.Apart inner behind)
    (hsplit : inner ++ ("endmodule".toList ++ behind) = u ++ ("endmodule".toList ++ t))
    (hspan : SpanAt (isWord unicode) "module".toList "endmodule".toList p u t)
    (hearly : StartsIn (isWord unicode) "endmodule".toList (some 'e') inner
      ("endmodule".toList ++ behind)) :
    ∃ y, inner = u ++ ("endmodule".toList ++ y) ∧ t = y ++ ("endmodule".toList ++ behind) ∧
      ∀ c ∈ y.getLast?, isWord unicode c = false := by
  obtain ⟨n, rfl, hn⟩ : ∃ n, inner = u ++ n ∧ "endmodule".toList ++ t =
      n ++ ("endmodule".toList ++ behind) := by
    rcases List.append_eq_append_iff.mp hsplit with ⟨n, rfl, hn⟩ | h
    · refine absurd ?_ hspan.clear
      rw [startsIn_append, ← hn]
      exact Or.inl hearly
    · exact h
  have hne : n ≠ [] := by
    rintro rfl
    rw [List.append_nil, ← List.nil_append ("endmodule".toList ++ behind), ← hn] at hearly
    exact hspan.clear hearly
  have hlast := @any_isWord unicode _ hapart.closing
  rw [List.getLast?_append_of_ne_nil _ hne] at hlast
  have hfirst : WordAt (isWord unicode) "endmodule".toList (u.getLast?.or (some 'e'))
      ("endmodule".toList ++ t) := wordAt_append hspan.closing hspan.behind
  rw [hn] at hfirst
  obtain ⟨y, rfl⟩ := hfirst.within isWord_endmodule hne hlast
  rw [List.append_assoc] at hn
  refine ⟨y, rfl, List.append_cancel_left hn, fun c hc => ?_⟩
  rw [List.getLast?_append, hc] at hlast
  exact hlast

/-- A chunk with an early end is the declaration exactly if its label pattern reads the end. -/
lemma early_read_iff (hu : ∀ c, isSpace c = true → unicode c = false) {u y rest : Text}
    {label : Option Label} {m : Hit Char}
    (hapart : Source.Apart (u ++ ("endmodule".toList ++ y)) (labelText label ++ rest))
    (hspan : SpanAt (isWord unicode) "module".toList "endmodule".toList p u
      (y ++ ("endmodule".toList ++ (labelText label ++ rest))))
    (hy : ∀ c ∈ y.getLast?, isWord unicode c = false)
    (hm : ((labelRe unicode).hits (some 'e')
      (y ++ ("endmodule".toList ++ (labelText label ++ rest)))).head? = some m) :
    m.text = y ++ ("endmodule".toList ++ labelText label) ↔
      label = none ∧ SwallowsEnd unicode (u ++ ("endmodule".toList ++ y)) rest := by
  constructor
  · intro htext
    rcases labelRe_shape (List.mem_of_head? hm) with rfl | ⟨sp, sp', w, hshape, hsp, hsp', hw⟩
    · exact absurd htext.symm (by simp [Hit.nothing])
    · rw [hshape] at htext
      obtain ⟨rfl, rfl⟩ := swallowed hu hsp hsp' hw hy htext
      refine ⟨rfl, u, sp, sp', rfl, hsp, hsp', hspan.closing, ?_⟩
      have hclear := hspan.clear
      rwa [List.append_assoc sp] at hclear
  · rintro ⟨rfl, u', sp, sp', hinner, hsp, hsp', hclosing, hclear⟩
    have hsame : u ++ ("endmodule".toList ++ (y ++ ("endmodule".toList ++ rest))) =
        u' ++ ("endmodule".toList ++ (sp ++ ':' :: (sp' ++ ("endmodule".toList ++ rest)))) := by
      simpa using congrArg (· ++ ("endmodule".toList ++ rest)) hinner
    have hword := wordAt_colon hu hsp (x := sp' ++ ("endmodule".toList ++ rest)) hclosing
    have hfirst : WordAt (isWord unicode) "endmodule".toList (u.getLast?.or (some 'e'))
        ("endmodule".toList ++ (y ++ ("endmodule".toList ++ rest))) :=
      wordAt_append hspan.closing hspan.behind
    obtain rfl := first_unique hsame (by simp) (by simp) hfirst hspan.clear hword hclear
    obtain rfl := List.append_cancel_left (List.append_cancel_left hinner)
    have hnext := @isWord_of_head unicode rest hapart.behind
    have hreads := labelRe_reads (p := some 'e') hu hsp hsp' (by simp) isWord_endmodule.all hnext
    rw [List.append_assoc] at hm
    rw [Option.some.inj (hm.symm.trans hreads)]
    simp [labelText]

/-- The first chunk of the text is the declaration with which it starts exactly if that closes. -/
lemma chunk_read_iff (hu : ∀ c, isSpace c = true → unicode c = false) {inner : Text}
    {label : Option Label} {rest : Source} (hlabel : LabelEnds rest.text label)
    (hp : p.any (isWord unicode) = false)
    (hapart : Source.Apart inner (labelText label ++ rest.text)) :
    ∃ m, ((moduleRe unicode).hits p ("module".toList ++ (inner ++ ("endmodule".toList ++
        (labelText label ++ rest.text))))).head? = some m ∧
      (m.text = "module".toList ++ (inner ++ ("endmodule".toList ++ labelText label)) ↔
        Closed unicode inner label rest.text) := by
  obtain ⟨u, t, hsplit, hspan⟩ := exists_first_end hp hapart
  obtain ⟨m, l, hm⟩ := List.exists_cons_of_ne_nil (@labelRe_ne_nil unicode
    "endmodule".toList.getLast? t)
  have hhead : ((labelRe unicode).hits "endmodule".toList.getLast? t).head? = some m := by
    rw [hm, List.head?_cons]
  have hread := hits_span isWord_module isWord_endmodule hspan hhead
  rw [moduleRe_eq, hsplit]
  refine ⟨_, hread, ?_⟩
  change "module".toList ++ (u ++ ("endmodule".toList ++ m.text)) = _ ↔ _
  rw [List.append_cancel_left_eq]
  by_cases hearly : StartsIn (isWord unicode) "endmodule".toList (some 'e') inner
      ("endmodule".toList ++ (labelText label ++ rest.text))
  · obtain ⟨y, rfl, rfl, hy⟩ := early_end hapart hsplit hspan hearly
    rw [List.append_assoc u, List.append_cancel_left_eq, List.append_assoc,
      List.append_cancel_left_eq, early_read_iff hu hapart hspan hy hhead]
    exact (or_iff_right fun hclosed => hclosed.1 hearly).symm
  · have hfirst : WordAt (isWord unicode) "endmodule".toList (u.getLast?.or (some 'e'))
        ("endmodule".toList ++ t) := wordAt_append hspan.closing hspan.behind
    obtain rfl := first_unique hsplit (by simp) (by simp) hapart.wordAt hearly hfirst hspan.clear
    have ht : labelText label ++ rest.text = t :=
      List.append_cancel_left (List.append_cancel_left hsplit)
    rw [← ht] at hhead
    rw [List.append_cancel_left_eq, List.append_cancel_left_eq, label_read_iff hu hlabel hhead]
    constructor
    · exact fun hl => Or.inl ⟨hearly, hl⟩
    · rintro (⟨-, hl⟩ | ⟨rfl, hswallow⟩)
      · exact hl
      · exact absurd (hswallow.startsIn hu) hearly

end Chunk

end Rv32iRtl
