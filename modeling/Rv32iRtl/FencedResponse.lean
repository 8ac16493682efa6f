import Rv32iRtl.PortPattern
import Rv32iRtl.VerilogExtraction

/-! Responses with one fenced block between prose. -/
namespace Rv32iRtl

open Backtrack Backtrack.Regex TextLines

def backtick : Char := '\x60'

def isBacktick (c : Char) : Bool := c = backtick

/-- What stands behind the opening fence. -/
inductive InfoString
  | none
  | verilog (t : Text) (h : t.map Char.toLower = "verilog".toList)
  | systemverilog
  | sv
  | v

namespace InfoString

def text : InfoString → Text
  | none => []
  | verilog t _ => t
  | systemverilog => "systemverilog".toList
  | sv => "sv".toList
  | v => "v".toList

/-- The block may be without a tag, or have the one that is looked for. -/
def Known : InfoString → Prop
  | none | verilog _ _ => True
  | systemverilog | sv | v => False

end InfoString

structure FencedResponse where
  before : Text
  info : InfoString
  blanks : Text
  body : Text
  behind : Text
  before_plain : backtick ∉ before
  blanks_space : ∀ c ∈ blanks, isSpace c = true
  body_module : "module".toList <:+: body
  body_plain : ¬fence <:+: body
  behind_plain : backtick ∉ behind

namespace FencedResponse

variable (r : FencedResponse)

/-- The rest of the line of the opening fence. -/
def infoLine : Text := r.info.text ++ (r.blanks ++ ['\n'])

def text : Text := r.before ++ (fence ++ (r.infoLine ++ (r.body ++ (fence ++ r.behind))))

/-- The body without backticks at its end. -/
def content : Text := r.body.rdropWhile isBacktick

def ticks : Text := r.body.rtakeWhile isBacktick

lemma body_eq : r.body = r.content ++ r.ticks := List.rdropWhile_append_rtakeWhile.symm

/-- Backticks at the end of the body are taken for the fence. -/
lemma text_eq : r.text =
    r.before ++ (fence ++ (r.infoLine ++ (r.content ++ (fence ++ (r.ticks ++ r.behind))))) := by
  have hticks : r.ticks ++ fence = fence ++ r.ticks := by
    have hall : ∀ c ∈ r.ticks, c = backtick := by
      intro c hc
      have hb : isBacktick c = true := List.mem_rtakeWhile_imp hc
      exact of_decide_eq_true hb
    rw [List.eq_replicate_of_mem hall, show fence = List.replicate 3 backtick from rfl,
      List.replicate_append_replicate, List.replicate_append_replicate, Nat.add_comm]
  rw [text, body_eq, List.append_assoc, ← List.append_assoc r.ticks, hticks, List.append_assoc]

end FencedResponse

section Fence

variable {a b u t : Text}

lemma cons_fence : fence = backtick :: backtick :: [backtick] := rfl

/-- A fence behind a text without backticks starts behind it. -/
lemma fence_behind (ha : backtick ∉ a) (h : a ++ b = u ++ (fence ++ t)) :
    ∃ u', u = a ++ u' ∧ b = u' ++ (fence ++ t) := by
  rcases List.append_eq_append_iff.mp h with ⟨m, rfl, hb⟩ | ⟨m, rfl, hf⟩
  · exact ⟨m, rfl, hb⟩
  · cases m with
    | nil => exact ⟨[], by simp, by simpa using hf.symm⟩
    | cons c m =>
      obtain ⟨rfl, -⟩ := List.cons.inj hf
      exact absurd (List.mem_append_right u List.mem_cons_self) ha

/-- Two fences that overlap are one, unless a backtick follows. -/
lemma fence_apart (hb : backtick ∉ b.head?) (h : fence ++ b = u ++ (fence ++ t)) :
    (u = [] ∧ t = b) ∨ ∃ u', u = fence ++ u' ∧ b = u' ++ (fence ++ t) := by
  rcases u with _ | ⟨c, _ | ⟨d, _ | ⟨e, u⟩⟩⟩
  · exact Or.inl ⟨rfl, (List.append_cancel_left h).symm⟩
  · simp only [cons_fence, List.cons_append, List.nil_append, List.cons.injEq] at h
    exact absurd (by rw [h.2.2.2]; rfl) hb
  · simp only [cons_fence, List.cons_append, List.nil_append, List.cons.injEq] at h
    exact absurd (by rw [h.2.2.2]; rfl) hb
  · simp only [cons_fence, List.cons_append, List.nil_append, List.cons.injEq] at h
    obtain ⟨rfl, rfl, rfl, hb'⟩ := h
    exact Or.inr ⟨u, rfl, hb'⟩

/-- A fence in a text that ends with one, and has no other, is the last one or overlaps it. -/
lemma fence_last (ha : ¬fence <:+: a) (hb : backtick ∉ b) (h : a ++ (fence ++ b) = u ++ (fence ++ t)) :
    u.length ≤ a.length ∧ a.length ≤ u.length + 2 := by
  rcases List.append_eq_append_iff.mp h with ⟨m, rfl, hm⟩ | ⟨m, rfl, hm⟩
  · have hhead : backtick ∉ b.head? := fun hc => hb (List.mem_of_head? hc)
    rcases fence_apart hhead hm with ⟨rfl, -⟩ | ⟨u', -, rfl⟩
    · simp
    · exact absurd (by simp [cons_fence]) hb
  · refine ⟨by simp, ?_⟩
    by_contra hlong
    have hpre : fence <+: m := by
      refine List.prefix_of_prefix_length_le ⟨t, hm⟩ (List.prefix_append m _) ?_
      rw [List.length_append] at hlong
      change 3 ≤ m.length
      omega
    exact ha (hpre.isInfix.trans (List.suffix_append u m).isInfix)

end Fence

section Pattern

variable {before w rest rear : Text} {tag : Regex Char}

/-- No fence pattern matches in front of the fence. -/
lemma fencedRe_silent (hbefore : backtick ∉ before) (t : Text) :
    (fencedRe tag).Silent none before t := by
  intro u v huv hv
  obtain ⟨c, v, rfl⟩ := List.exists_cons_of_ne_nil hv
  refine hits_seq_nil (hits_lit_nil fun hpre => hbefore ?_)
  rw [cons_fence, List.cons_append, List.cons_prefix_cons] at hpre
  rw [huv, hpre.1]
  simp

lemma dropWhile_apart : ∀ c ∈ (rest.dropWhile isSpace ++ (fence ++ rear)).head?, isSpace c = false := by
  intro c hc
  cases hd : rest.dropWhile isSpace with
  | nil =>
    rw [hd] at hc
    obtain rfl : backtick = c := Option.some.inj hc
    rfl
  | cons d l =>
    rw [hd] at hc
    obtain rfl : d = c := Option.some.inj hc
    have hne : rest.dropWhile isSpace ≠ [] := by simp [hd]
    have hhead := List.head_dropWhile_not isSpace hne
    simpa only [hd, List.head_cons] using hhead

/-- Behind the tag, white space is skipped and all up to the closing fence is captured. -/
lemma captured_head (hsilent : ∀ p, (lit fence).Silent p rest (fence ++ rear)) (p : Option Char) :
    ((seq (many true isSpace) (seq (group 1 skip) (lit fence))).hits p (rest ++ (fence ++ rear))).head? =
      some ⟨rest ++ fence, [(1, rest.dropWhile isSpace)], rear⟩ := by
  have hrest : rest.takeWhile isSpace ++ rest.dropWhile isSpace = rest :=
    List.takeWhile_append_dropWhile
  have hspace : ∀ c ∈ rest.takeWhile isSpace, isSpace c = true := fun c hc => List.mem_takeWhile_imp hc
  have hclose : ∀ p, ((lit fence).hits p (fence ++ rear)).head? = some ⟨fence, [], rear⟩ := by
    intro p
    rw [hits_lit]
    rfl
  have hs := hsilent p
  rw [← hrest] at hs
  have hgroup := head_group_skip 1 (silent_append hs) (hclose _)
  have hmany := head_many_seq hspace dropWhile_apart hgroup
  rw [← List.append_assoc, hrest] at hmany
  rw [hmany, Hit.append, ← List.append_assoc, hrest]
  rfl

lemma fenced_eq (hbefore : backtick ∉ before)
    (htag : ∀ p, (tag.hits p (w ++ (rest ++ (fence ++ rear)))).head? =
      some ⟨w, [], rest ++ (fence ++ rear)⟩)
    (hsilent : ∀ p, (lit fence).Silent p rest (fence ++ rear)) :
    fenced tag (before ++ (fence ++ (w ++ (rest ++ (fence ++ rear))))) =
      some (strip isSpace rest) := by
  have hhead : ∀ p, ((fencedRe tag).hits p
      (fence ++ (w ++ (rest ++ (fence ++ rear))))).head? =
        some ⟨fence ++ (w ++ (rest ++ fence)), [(1, rest.dropWhile isSpace)], rear⟩ := by
    intro p
    rw [fencedRe, hits_seq_single (hits_lit fence _ p), List.head?_map,
      head_seq (htag _) (captured_head hsilent _)]
    rfl
  have hsearch := (scan_place (by simp [cons_fence]) none).mpr ⟨fencedRe_silent hbefore _, hhead _⟩
  have hfound : (fencedRe tag).search (before ++ (fence ++ (w ++ (rest ++ (fence ++ rear))))) = _ :=
    hsearch.1
  rw [fenced, hfound, Option.map_some]
  change some (strip isSpace (rest.dropWhile isSpace)) = _
  rw [strip, List.dropWhile_idempotent, strip]

lemma fencedRe_shape {p : Option Char} {cs : Text} {m : Hit Char}
    (hm : m ∈ (fencedRe tag).hits p cs) : ∃ h x y, h ∈ tag.hits (fence.getLast?.or p) (h.text ++ h.rest) ∧
      cs = fence ++ (h.text ++ (x ++ (fence ++ y))) := by
  obtain ⟨h1, hm1, h2, hm2, -⟩ := mem_seq hm
  obtain ⟨hcs, heq⟩ := mem_lit hm1
  obtain ⟨h3, hm3, h4, hm4, -⟩ := mem_seq hm2
  obtain ⟨h5, hm5, h6, hm6, -⟩ := mem_seq hm4
  obtain ⟨h7, hm7, h8, hm8, -⟩ := mem_seq hm6
  have hlast : h1.last p = fence.getLast?.or p := by rw [heq, Hit.last]
  have hsplit := hits_split hm3
  rw [hsplit, hlast] at hm3
  refine ⟨h3, h5.text ++ h7.text, h8.rest, hm3, ?_⟩
  rw [hcs, hsplit, hits_split hm5, hits_split hm7, (mem_lit hm8).1, List.append_assoc]

end Pattern

lemma hits_litIgnoreCase {l w : Text} (h : List.Forall₂ (fun a b => sameLetter a b = true) l w) (t : Text)
    (p : Option Char) : (litIgnoreCase l).hits p (w ++ t) = [⟨w, [], t⟩] := by
  induction h generalizing p with
  | nil => rfl
  | @cons a b l w hab _ ih =>
    have hfirst : (symbol (sameLetter a)).hits p (b :: (w ++ t)) = [⟨[b], [], w ++ t⟩] := by
      rw [hits, if_pos hab]
    change (seq (symbol (sameLetter a)) (litIgnoreCase l)).hits p (b :: (w ++ t)) = _
    rw [hits_seq_single hfirst, ih]
    rfl

lemma mem_litIgnoreCase {l cs : Text} {p : Option Char} {h : Hit Char}
    (hm : h ∈ (litIgnoreCase l).hits p cs) :
    List.Forall₂ (fun a b => sameLetter a b = true) l h.text := by
  induction l generalizing p cs h with
  | nil =>
    obtain rfl := List.mem_singleton.mp hm
    exact List.Forall₂.nil
  | cons a l ih =>
    obtain ⟨h1, hm1, h2, hm2, rfl⟩ := mem_seq hm
    cases cs with
    | nil => contradiction
    | cons c cs =>
      rw [hits] at hm1
      split_ifs at hm1 with hc
      · obtain rfl := List.mem_singleton.mp hm1
        exact List.Forall₂.cons hc (ih hm2)
      · contradiction

lemma sameLetter_of_toLower {l w : Text} (h : w.map Char.toLower = l) :
    List.Forall₂ (fun a b => sameLetter a b = true) l w := by
  subst h
  induction w with
  | nil => exact List.Forall₂.nil
  | cons c w ih => exact List.Forall₂.cons (by simp [sameLetter]) ih

/-- The first two letters of the tag are no white space. -/
lemma isSpace_of_sameLetter {l c : Char} (hl : l = 'v' ∨ l = 'e') (h : sameLetter l c = true) :
    isSpace c = false := by
  have hlower : c.toLower = l := by
    rcases hl with rfl | rfl <;> simpa [sameLetter] using h
  have halpha : c.isAlpha = true := by
    rw [← Char.isAlpha_toLower_eq_isAlpha, hlower]
    rcases hl with rfl | rfl <;> rfl
  apply isSpace_of_isIdentifierChar
  rw [isIdentifierChar, Char.isAlphanum, halpha, Bool.true_or, Bool.true_or, Bool.true_or]

namespace FencedResponse

variable (r : FencedResponse)

lemma content_silent (rest : Text) (p : Option Char) :
    (lit fence).Silent p r.content (fence ++ rest) := by
  intro u v huv hv
  refine hits_lit_nil fun hpre => ?_
  rcases lt_or_ge v.length 3 with hshort | hlong
  · have hv' : v <+: fence :=
      List.prefix_of_prefix_length_le (List.prefix_append v _) hpre (le_of_lt hshort)
    have hne : r.content ≠ [] := by simp [huv, hv]
    have hlast : r.content.getLast hne = v.getLast hv := by
      simp only [huv, List.getLast_append_of_ne_nil _ hv]
    have hmem : v.getLast hv ∈ List.replicate 3 backtick := hv'.subset (List.getLast_mem hv)
    have hcontent := List.rdropWhile_last_not isBacktick r.body hne
    change ¬isBacktick (r.content.getLast hne) = true at hcontent
    rw [hlast, List.eq_of_mem_replicate hmem] at hcontent
    exact hcontent rfl
  · have hfence : fence <+: v := List.prefix_of_prefix_length_le hpre (List.prefix_append v _) hlong
    refine r.body_plain (hfence.isInfix.trans ?_)
    rw [body_eq, huv]
    exact List.infix_append u v r.ticks

lemma module_content : "module".toList <:+: r.content := by
  have hticks : ∀ c ∈ r.ticks, isBacktick c = true := fun c hc => List.mem_rtakeWhile_imp hc
  have hmodule := r.body_module
  rw [body_eq] at hmodule
  exact (infix_append_breaks (by simp) (by simp [isBacktick, backtick]) hticks _).mp hmodule

lemma infoLine_plain : backtick ∉ r.infoLine := by
  have hinfo : backtick ∉ r.info.text := by
    cases r.info with
    | verilog t h =>
      intro ht
      have hmem := List.mem_map_of_mem (f := Char.toLower) ht
      change backtick.toLower ∈ t.map Char.toLower at hmem
      rw [h] at hmem
      revert hmem
      decide
    | none | systemverilog | sv | v => decide
  have hblanks : backtick ∉ r.blanks := by
    intro h
    have hsp := r.blanks_space _ h
    contradiction
  simp only [infoLine, List.mem_append, not_or]
  exact ⟨hinfo, hblanks, by decide⟩

/-- White space ends the info string. -/
lemma blanks_head : ∃ c l, r.blanks ++ ['\n'] = c :: l ∧ isSpace c = true := by
  cases h : r.blanks with
  | nil => exact ⟨'\n', [], rfl, rfl⟩
  | cons c l => exact ⟨c, l ++ ['\n'], rfl, r.blanks_space c (by simp [h])⟩

lemma info_not_verilog (h : ∀ t ht, r.info ≠ .verilog t ht) {w x y : Text}
    (hw : List.Forall₂ (fun a b => sameLetter a b = true) "verilog".toList w) :
    r.infoLine ++ x ≠ w ++ y := by
  intro heq
  change List.Forall₂ _ ('v' :: 'e' :: "rilog".toList) w at hw
  obtain ⟨c, w₁, hc, hw₁, rfl⟩ := List.forall₂_cons_left_iff.mp hw
  obtain ⟨d, w₂, hd, -, rfl⟩ := List.forall₂_cons_left_iff.mp hw₁
  obtain ⟨e, l, he, hsp⟩ := r.blanks_head
  rw [infoLine, he] at heq
  cases hinfo : r.info with
  | verilog t ht => exact h t ht hinfo
  | none =>
    rw [hinfo] at heq
    obtain rfl : e = c := (List.cons.inj heq).1
    rw [isSpace_of_sameLetter (Or.inl rfl) hc] at hsp
    contradiction
  | systemverilog | sv =>
    rw [hinfo] at heq
    obtain rfl : 's' = c := (List.cons.inj heq).1
    contradiction
  | v =>
    rw [hinfo] at heq
    obtain rfl : e = d := (List.cons.inj (List.cons.inj heq).2).1
    rw [isSpace_of_sameLetter (Or.inr rfl) hd] at hsp
    contradiction

/-- The pattern with the tag finds nothing in a response without it. -/
lemma fenced_verilog_none (h : ∀ t ht, r.info ≠ .verilog t ht) :
    fenced (litIgnoreCase "verilog".toList) r.text = none := by
  rw [fenced, Option.map_eq_none_iff]
  by_contra hne
  obtain ⟨m, hm⟩ := Option.ne_none_iff_exists'.mp hne
  obtain ⟨⟨u, hu⟩, p, hhead⟩ := mem_scan (List.mem_of_head? hm)
  obtain ⟨tag, x, y, htag, hplace⟩ := fencedRe_shape (List.mem_of_head? hhead)
  have hletters := mem_litIgnoreCase htag
  rw [List.drop_zero, hplace, text] at hu
  obtain ⟨u', -, hfence⟩ := fence_behind r.before_plain hu.symm
  have hnext : backtick ∉ (r.infoLine ++ (r.body ++ (fence ++ r.behind))).head? := by
    obtain ⟨c, l, hc⟩ : ∃ c l, r.infoLine = c :: l := by
      apply List.exists_cons_of_ne_nil
      simp [infoLine]
    have hplain := r.infoLine_plain
    rw [hc] at hplain ⊢
    intro hb
    obtain rfl : c = backtick := Option.some.inj hb
    exact hplain List.mem_cons_self
  rcases fence_apart hnext hfence with ⟨-, heq⟩ | ⟨v, -, hv⟩
  · exact r.info_not_verilog h hletters heq.symm
  · obtain ⟨v', -, hv'⟩ := fence_behind r.infoLine_plain hv
    have hfirst := fence_last r.body_plain r.behind_plain hv'
    have hsecond := fence_last r.body_plain r.behind_plain
      (u := v' ++ (fence ++ (tag.text ++ x))) (t := y) (by rw [hv']; simp)
    have hlen : tag.text.length = 7 := hletters.length_eq.symm
    have hthree : fence.length = 3 := rfl
    simp only [List.length_append, hlen, hthree] at hsecond
    omega

lemma silent_of_plain {a : Text} (ha : backtick ∉ a) (rest : Text) (p : Option Char) :
    (lit fence).Silent p (a ++ r.content) (fence ++ rest) := by
  induction a generalizing p with
  | nil => exact r.content_silent rest p
  | cons c l ih =>
    rw [List.mem_cons, not_or] at ha
    refine silent_cons.mpr ⟨hits_lit_nil fun hpre => ?_, ih ha.2 _⟩
    rw [cons_fence, List.cons_append, List.cons_prefix_cons] at hpre
    exact ha.1 hpre.1

lemma blanks_infoLine : ∀ c ∈ r.blanks ++ ['\n'], isSpace c = true := by
  intro c hc
  rcases List.mem_append.mp hc with hc | hc
  · exact r.blanks_space c hc
  · rw [List.mem_singleton.mp hc]
    rfl

/-- The pattern without a tag takes the info string for code. -/
lemma fenced_empty : fenced empty r.text = some (strip isSpace (r.infoLine ++ r.content)) := by
  rw [text_eq, ← List.append_assoc r.infoLine]
  exact fenced_eq (w := []) r.before_plain (fun _ => rfl) (r.silent_of_plain r.infoLine_plain _)

lemma extractVerilog_untagged (h : ∀ t ht, r.info ≠ .verilog t ht) :
    extractVerilog r.text = .ok (strip isSpace (r.infoLine ++ r.content)) := by
  have hmodule : "module".toList <:+: strip isSpace (r.infoLine ++ r.content) := by
    rw [infix_strip (by simp) (by simp [isSpace])]
    exact r.module_content.trans (List.suffix_append _ _).isInfix
  rw [extractVerilog, r.fenced_verilog_none h, fenced_empty, Option.filter_some,
    if_pos (decide_eq_true hmodule)]

lemma extractVerilog_known (h : r.info.Known) :
    extractVerilog r.text = .ok (strip isSpace r.content) := by
  cases hinfo : r.info with
  | none =>
    have hline : r.infoLine = r.blanks ++ ['\n'] := by rw [infoLine, hinfo]; rfl
    rw [r.extractVerilog_untagged fun t ht hv => by rw [hinfo] at hv; contradiction, hline,
      strip_spaces r.blanks_infoLine]
  | verilog t ht =>
    have hline : r.infoLine = t ++ (r.blanks ++ ['\n']) := by rw [infoLine, hinfo]; rfl
    have hplain : backtick ∉ r.blanks ++ ['\n'] := fun hb =>
      r.infoLine_plain (hline ▸ List.mem_append_right t hb)
    have hfound : fenced (litIgnoreCase "verilog".toList) r.text =
        some (strip isSpace (r.blanks ++ ['\n'] ++ r.content)) := by
      rw [text_eq, hline, List.append_assoc t, ← List.append_assoc (r.blanks ++ ['\n'])]
      refine fenced_eq r.before_plain (fun p => ?_) (r.silent_of_plain hplain _)
      rw [hits_litIgnoreCase (sameLetter_of_toLower ht)]
      rfl
    rw [extractVerilog, hfound, strip_spaces r.blanks_infoLine]
  | systemverilog | sv | v =>
    rw [hinfo] at h
    exact h.elim

/-- The content is taken out, alone or with more in front of it. -/
lemma extractVerilog_spec : ∃ a, extractVerilog r.text = .ok (strip isSpace (a ++ r.content)) ∧
    backtick ∉ a ∧ (r.info.Known → a = []) ∧ (¬r.info.Known → ∃ c ∈ a, isSpace c = false) := by
  by_cases hknown : r.info.Known
  · exact ⟨[], r.extractVerilog_known hknown, List.not_mem_nil, fun _ => rfl, fun h => absurd hknown h⟩
  · have huntagged : ∀ t ht, r.info ≠ .verilog t ht := fun t ht hv => hknown (by rw [hv]; trivial)
    refine ⟨r.infoLine, r.extractVerilog_untagged huntagged, r.infoLine_plain,
      fun h => absurd h hknown, fun _ => ?_⟩
    cases hinfo : r.info with
    | systemverilog | sv =>
      exact ⟨'s', by rw [infoLine, hinfo]; exact List.mem_cons_self, rfl⟩
    | v => exact ⟨'v', by rw [infoLine, hinfo]; exact List.mem_cons_self, rfl⟩
    | none | verilog t ht =>
      rw [hinfo] at hknown
      exact absurd trivial hknown

lemma ticks_eq_nil_iff : r.ticks = [] ↔ r.body.getLast? ≠ some backtick := by
  rw [ticks, List.rtakeWhile_eq_nil_iff]
  constructor
  · intro h hlast
    obtain ⟨l, hl⟩ := List.getLast?_eq_some_iff.mp hlast
    have hne : r.body ≠ [] := by simp [hl]
    apply h hne
    simp only [hl, List.getLast_concat]
    rfl
  · intro h hne hlast
    apply h
    rw [List.getLast?_eq_some_getLast hne, of_decide_eq_true (p := _ = backtick) hlast]

end FencedResponse

/-- What is taken out of the response is the body of its block exactly when the info string is
empty or `verilog`, and the body does not end with a backtick. -/
theorem fence_extraction_exact_iff (r : FencedResponse) :
    extractVerilog r.text = .ok (strip isSpace r.body) ↔
      r.info.Known ∧ r.body.getLast? ≠ some backtick := by
  obtain ⟨a, htaken, hplain, hknown, hunknown⟩ := r.extractVerilog_spec
  rw [htaken, Except.ok.injEq, ← r.ticks_eq_nil_iff]
  constructor
  · intro h
    have hticks : r.ticks = [] := by
      have hcount := congrArg (List.countP isBacktick) h
      have hspace : ∀ c, isSpace c = true → isBacktick c = false := by
        intro c hc
        refine decide_eq_false fun hb => ?_
        rw [hb] at hc
        contradiction
      have hzero : a.countP isBacktick = 0 := by
        rw [List.countP_eq_zero]
        intro c hc hb
        exact hplain (of_decide_eq_true (p := c = backtick) hb ▸ hc)
      have hall : r.ticks.countP isBacktick = r.ticks.length :=
        List.countP_eq_length.mpr fun c hc => List.mem_rtakeWhile_imp hc
      rw [countP_strip hspace, countP_strip hspace, r.body_eq, List.countP_append,
        List.countP_append, hzero, hall] at hcount
      exact List.eq_nil_of_length_eq_zero (by omega)
    refine ⟨?_, hticks⟩
    by_contra hinfo
    obtain ⟨c, hc, hsp⟩ := hunknown hinfo
    have hcount := congrArg (List.countP fun c => !isSpace c) h
    have hspace : ∀ c, isSpace c = true → (!isSpace c) = false := fun c hc => by rw [hc]; rfl
    rw [countP_strip hspace, countP_strip hspace, r.body_eq, hticks, List.append_nil,
      List.countP_append] at hcount
    have hpos : 0 < a.countP fun c => !isSpace c := List.countP_pos_iff.mpr ⟨c, hc, by rw [hsp]; rfl⟩
    omega
  · rintro ⟨hinfo, hticks⟩
    rw [hknown hinfo, List.nil_append, r.body_eq, hticks, List.append_nil]

def systemverilogResponse : FencedResponse where
  before := "Here it is:\n".toList
  info := .systemverilog
  blanks := []
  body := "module a();\nendmodule\n".toList
  behind := []
  before_plain := by decide
  blanks_space := by simp
  body_module := by decide
  body_plain := by decide
  behind_plain := List.not_mem_nil

theorem fence_extraction_exact_fails :
    ¬∀ r : FencedResponse, extractVerilog r.text = .ok (strip isSpace r.body) := by
  intro h
  have hr := h systemverilogResponse
  revert hr
  decide +kernel

end Rv32iRtl
