import Rv32iRtl.LeftmostMatch

/-! Expressions that look for whole words: a word, and the shortest stretch from one word to
another. -/
namespace Backtrack

variable {C : Type*}

namespace Regex

section Skip

variable {s : Regex C} {prev : Option C} {u t : List C}

/-- Any symbols, as few as possible. -/
abbrev skip : Regex C := many false fun _ => true

lemma hits_skip_nil : (seq skip s).hits prev [] = s.hits prev [] := by
  have hid : Hit.append (⟨[], [], []⟩ : Hit C) = id := rfl
  have hlast : Hit.last prev (⟨[], [], []⟩ : Hit C) = prev := rfl
  simp only [hits, splits, Bool.false_eq_true, if_false, List.map_cons, List.map_nil,
    List.flatMap_singleton, hid, hlast, List.map_id]

lemma hits_skip_cons (c : C) (cs : List C) : (seq skip s).hits prev (c :: cs) =
    s.hits prev (c :: cs) ++ ((seq skip s).hits (some c) cs).map (Hit.append ⟨[c], [], cs⟩) := by
  have hid : Hit.append (⟨[], [], c :: cs⟩ : Hit C) = id := rfl
  have hlast : Hit.last prev (⟨[], [], c :: cs⟩ : Hit C) = prev := rfl
  simp only [hits, splits, Bool.false_eq_true, if_false, if_true, List.map_cons, List.map_map,
    List.flatMap_cons, hid, hlast, List.map_id, List.flatMap_map, List.map_flatMap]
  congr 1
  refine List.flatMap_congr fun q _ => ?_
  have hshift : Hit.last prev (⟨c :: q.1, [], q.2⟩ : Hit C) =
      Hit.last (some c) (⟨q.1, [], q.2⟩ : Hit C) := getLast?_cons_or c q.1 prev
  simp only [Function.comp_apply, hshift]
  rfl

/-- Where nothing else matches, the text is skipped. -/
lemma hits_skip_silent (h : s.Silent prev u t) : (seq skip s).hits prev (u ++ t) =
    ((seq skip s).hits (u.getLast?.or prev) t).map (Hit.append ⟨u, [], t⟩) := by
  induction u generalizing prev with
  | nil =>
    have hid : Hit.append (⟨[], [], t⟩ : Hit C) = id := rfl
    rw [hid, List.map_id]
    rfl
  | cons c u ih =>
    obtain ⟨hnil, hsilent⟩ := silent_cons.mp h
    rw [List.cons_append, hits_skip_cons, hnil, List.nil_append, ih hsilent, List.map_map,
      getLast?_cons_or]
    rfl

lemma head_skip {m : Hit C} (h : (s.hits prev t).head? = some m) :
    ((seq skip s).hits prev t).head? = some m := by
  cases t with
  | nil =>
    rw [hits_skip_nil]
    exact h
  | cons c t =>
    rw [hits_skip_cons, List.head?_append, h]
    rfl

lemma hits_skip_eq_nil (h : s.Silent prev u []) (hnil : s.hits (u.getLast?.or prev) [] = []) :
    (seq skip s).hits prev u = [] := by
  have hskip := hits_skip_silent h
  rw [List.append_nil, hits_skip_nil, hnil] at hskip
  exact hskip

/-- Captured, where nothing else matches before `t`. -/
lemma head_group_skip (k : ℕ) {m : Hit C} (h : s.Silent prev u t)
    (hm : (s.hits (u.getLast?.or prev) t).head? = some m) :
    ((seq (group k skip) s).hits prev (u ++ t)).head? =
      some ⟨u ++ m.text, (k, u) :: m.groups, m.rest⟩ := by
  have hsplits : ∀ f : List C × List C → List (Hit C),
      (∀ v w, u = v ++ w → w ≠ [] → f (v, w ++ t) = []) →
      (splits (fun _ => true) (u ++ t)).flatMap f =
        (splits (fun _ => true) t).flatMap fun q => f (u ++ q.1, q.2) := by
    clear h hm
    induction u with
    | nil => exact fun f _ => rfl
    | cons c u ih =>
      intro f hf
      rw [List.cons_append, splits, if_pos rfl, List.flatMap_cons, List.flatMap_map,
        ← List.cons_append, hf [] (c :: u) rfl (List.cons_ne_nil c u), List.nil_append]
      exact ih _ fun v w huv hw => hf (c :: v) w (by rw [huv, List.cons_append]) hw
  obtain ⟨l, hl⟩ : ∃ l, splits (fun _ => true) t = ([], t) :: l := by
    cases t with
    | nil => exact ⟨[], rfl⟩
    | cons c t => exact ⟨_, rfl⟩
  have hgroup : (group k (skip : Regex C)).hits prev (u ++ t) =
      (splits (fun _ => true) (u ++ t)).map fun q => ⟨q.1, [(k, q.1)], q.2⟩ := by
    rw [hits, hits, List.map_map]
    rfl
  rw [hits, hgroup, List.flatMap_map, hsplits, hl, List.flatMap_cons, List.head?_append,
    List.append_nil, List.head?_map]
  · have hlast : Hit.last prev (⟨u, [(k, u)], t⟩ : Hit C) = u.getLast?.or prev := rfl
    rw [hlast, hm]
    rfl
  · intro v w huv hw
    have hlast : Hit.last prev (⟨v, [(k, v)], w ++ t⟩ : Hit C) = v.getLast?.or prev := rfl
    rw [hlast, h v w huv hw, List.map_nil]

end Skip

section Words

variable (W : C → Bool)

/-- The word stands at the front, as a whole. -/
structure WordAt (w : List C) (prev : Option C) (cs : List C) : Prop where
  before : prev.any W = false
  here : w <+: cs
  behind : (cs.drop w.length).head?.any W = false

/-- The word starts somewhere in `g` when `t` is behind it. -/
def StartsIn (w : List C) (prev : Option C) (g t : List C) : Prop :=
  ∃ u v, g = u ++ v ∧ v ≠ [] ∧ WordAt W w (u.getLast?.or prev) (v ++ t)

structure IsWord (w : List C) : Prop where
  ne_nil : w ≠ []
  all : ∀ c ∈ w, W c = true

/-- `\bw\b`, and something behind it. -/
def word [DecidableEq C] (w : List C) (r : Regex C) : Regex C :=
  seq (boundary W) (seq (lit w) (seq (boundary W) r))

/-- From a word to the first other word behind it, and something behind that. -/
def span [DecidableEq C] (a b : List C) (r : Regex C) : Regex C := word W a (seq skip (word W b r))

variable {W} {w a b : List C} {prev : Option C}

lemma wordAt_append {t : List C} (hp : prev.any W = false) (ht : t.head?.any W = false) :
    WordAt W w prev (w ++ t) := ⟨hp, List.prefix_append w t, by rwa [List.drop_left]⟩

lemma WordAt.split {cs : List C} (h : WordAt W w prev cs) :
    ∃ t, cs = w ++ t ∧ t.head?.any W = false := by
  obtain ⟨t, rfl⟩ := h.here
  refine ⟨t, rfl, ?_⟩
  have hbehind := h.behind
  rwa [List.drop_left] at hbehind

lemma startsIn_nil (t : List C) : ¬StartsIn W w prev [] t := by
  rintro ⟨u, v, huv, hne, -⟩
  exact hne (List.append_eq_nil_iff.mp huv.symm).2

lemma startsIn_cons {c : C} {g t : List C} : StartsIn W w prev (c :: g) t ↔
    WordAt W w prev (c :: (g ++ t)) ∨ StartsIn W w (some c) g t := by
  constructor
  · rintro ⟨u, v, huv, hne, h⟩
    cases u with
    | nil =>
      obtain rfl : c :: g = v := huv
      exact Or.inl h
    | cons d u =>
      obtain ⟨rfl, htail⟩ := List.cons.inj huv
      rw [getLast?_cons_or] at h
      exact Or.inr ⟨u, v, htail, hne, h⟩
  · rintro (h | ⟨u, v, rfl, hne, h⟩)
    · exact ⟨[], c :: g, rfl, List.cons_ne_nil c g, h⟩
    · rw [← getLast?_cons_or c u prev] at h
      exact ⟨c :: u, v, rfl, hne, h⟩

lemma startsIn_append {g g' t : List C} : StartsIn W w prev (g ++ g') t ↔
    StartsIn W w prev g (g' ++ t) ∨ StartsIn W w (g.getLast?.or prev) g' t := by
  induction g generalizing prev with
  | nil => exact (or_iff_right (startsIn_nil _)).symm
  | cons c g ih =>
    rw [List.cons_append, startsIn_cons, startsIn_cons, ih, or_assoc, List.append_assoc,
      getLast?_cons_or]

variable (W) in
/-- The first place of a word. -/
lemma exists_first {p : Option C} {cs : List C} (h : StartsIn W w p cs []) :
    ∃ u t, cs = u ++ t ∧ t ≠ [] ∧ WordAt W w (u.getLast?.or p) t ∧ ¬StartsIn W w p u t := by
  induction cs generalizing p with
  | nil => exact absurd h (startsIn_nil [])
  | cons c cs ih =>
    by_cases hc : WordAt W w p (c :: cs)
    · exact ⟨[], c :: cs, rfl, List.cons_ne_nil c cs, hc, startsIn_nil _⟩
    · rw [startsIn_cons, List.append_nil, or_iff_right hc] at h
      obtain ⟨u, t, rfl, hne, hat, hclear⟩ := ih h
      refine ⟨c :: u, t, rfl, hne, by rwa [getLast?_cons_or], ?_⟩
      rw [startsIn_cons]
      exact not_or.mpr ⟨hc, hclear⟩

/-- Two decompositions at the first place of a word are one. -/
lemma first_unique {p : Option C} {u t u' t' : List C} (h : u ++ t = u' ++ t') (ht : t ≠ [])
    (ht' : t' ≠ []) (hat : WordAt W w (u.getLast?.or p) t) (hclear : ¬StartsIn W w p u t)
    (hat' : WordAt W w (u'.getLast?.or p) t') (hclear' : ¬StartsIn W w p u' t') : u = u' := by
  rcases List.append_eq_append_iff.mp h with ⟨m, rfl, rfl⟩ | ⟨m, rfl, rfl⟩
  · rcases eq_or_ne m [] with rfl | hm
    · rw [List.append_nil]
    · exact absurd ⟨u, m, rfl, hm, hat⟩ hclear'
  · rcases eq_or_ne m [] with rfl | hm
    · rw [List.append_nil]
    · exact absurd ⟨u', m, rfl, hm, hat'⟩ hclear

lemma IsWord.last (hw : IsWord W w) (p : Option C) : ∃ c, w.getLast?.or p = some c ∧ W c = true := by
  refine ⟨w.getLast hw.ne_nil, ?_, hw.all _ (List.getLast_mem hw.ne_nil)⟩
  rw [List.getLast?_eq_some_getLast hw.ne_nil]
  rfl

/-- A word that starts in a text whose last symbol is in no word is all in it. -/
lemma WordAt.within (hw : IsWord W w) {v t : List C} (h : WordAt W w prev (v ++ t)) (hv : v ≠ [])
    (hlast : v.getLast?.any W = false) : ∃ m, v = w ++ m := by
  obtain ⟨s, hs, -⟩ := h.split
  rcases List.append_eq_append_iff.mp hs with ⟨m, rfl, -⟩ | ⟨m, rfl, -⟩
  · rw [List.getLast?_eq_some_getLast hv, Option.any_some,
      hw.all _ (List.mem_append_left m (List.getLast_mem hv))] at hlast
    contradiction
  · exact ⟨m, rfl⟩

variable (W a b) in
/-- The opening word, `u`, and the first closing word behind it stand before `t`. -/
structure SpanAt (prev : Option C) (u t : List C) : Prop where
  before : prev.any W = false
  apart : (u ++ (b ++ t)).head?.any W = false
  clear : ¬StartsIn W b a.getLast? u (b ++ t)
  closing : (u.getLast?.or a.getLast?).any W = false
  behind : t.head?.any W = false

/-- An opening word with a closing word behind it. -/
lemma exists_spanAt {cs : List C} (hat : WordAt W a prev cs)
    (hb : StartsIn W b a.getLast? (cs.drop a.length) []) :
    ∃ u t, cs = a ++ (u ++ (b ++ t)) ∧ SpanAt W a b prev u t := by
  obtain ⟨s, rfl, hs⟩ := hat.split
  rw [List.drop_left] at hb
  obtain ⟨u, v, rfl, -, hv, hclear⟩ := exists_first W hb
  obtain ⟨t, rfl, ht⟩ := hv.split
  exact ⟨u, t, rfl, hat.before, hs, hclear, hv.before, ht⟩

variable [DecidableEq C] {r : Regex C}

lemma hits_word (hw : IsWord W w) {t : List C} (hp : prev.any W = false)
    (ht : t.head?.any W = false) : (word W w r).hits prev (w ++ t) =
      (r.hits w.getLast? t).map (Hit.append ⟨w, [], t⟩) := by
  obtain ⟨c, hc, hWc⟩ := hw.last prev
  have hlast : w.getLast? = some c := by
    rw [← hc, List.getLast?_eq_some_getLast hw.ne_nil]
    rfl
  have hfront : (boundary W).hits prev (w ++ t) = [Hit.nothing (w ++ t)] := by
    obtain ⟨d, w, rfl⟩ := List.exists_cons_of_ne_nil hw.ne_nil
    have hd : (d :: w ++ t).head?.any W = true := hw.all d List.mem_cons_self
    rw [hits, hp, hd, if_neg (by decide)]
  have hback : (boundary W).hits (some c) t = [Hit.nothing t] := by
    rw [hits, ht, Option.any_some, hWc, if_neg (by decide)]
  have hnothing : ∀ cs : List C, Hit.append (Hit.nothing cs) = id := fun _ => rfl
  rw [word, hits_seq_single hfront, hnothing, List.map_id]
  change (seq (lit w) (seq (boundary W) r)).hits prev (w ++ t) = _
  rw [hits_seq_single (hits_lit w t prev)]
  change ((seq (boundary W) r).hits (w.getLast?.or prev) t).map _ = _
  rw [hc, hits_seq_single hback, hnothing, List.map_id, hlast]
  rfl

lemma hits_word_nil (hw : IsWord W w) {cs : List C} (h : ¬WordAt W w prev cs) :
    (word W w r).hits prev cs = [] := by
  by_cases hpre : w <+: cs
  · obtain ⟨t, rfl⟩ := hpre
    obtain ⟨d, w', hw'⟩ := List.exists_cons_of_ne_nil hw.ne_nil
    have hd : (w ++ t).head?.any W = true := by
      rw [hw']
      exact hw.all d (hw' ▸ List.mem_cons_self)
    by_cases hp : prev.any W = false
    · have ht : t.head?.any W = true := by
        by_contra hn
        exact h (wordAt_append hp (Bool.not_eq_true _ ▸ hn))
      obtain ⟨c, hc, hWc⟩ := hw.last prev
      have hback : (boundary W).hits (some c) t = [] := by
        rw [hits, ht, Option.any_some, hWc, if_pos rfl]
      have hlit : (seq (lit w) (seq (boundary W) r)).hits prev (w ++ t) = [] := by
        rw [hits_seq_single (hits_lit w t prev)]
        change ((seq (boundary W) r).hits (w.getLast?.or prev) t).map _ = []
        rw [hc, hits_seq_nil hback, List.map_nil]
      rw [word, hits, hits, hp, hd, if_neg (by decide), List.flatMap_singleton]
      exact List.map_eq_nil_iff.mpr hlit
    · have hp : prev.any W = true := Bool.not_eq_false _ ▸ hp
      have hfront : (boundary W).hits prev (w ++ t) = [] := by rw [hits, hp, hd, if_pos rfl]
      exact hits_seq_nil hfront
  · have hlit : ∀ p, (seq (lit w) (seq (boundary W) r)).hits p cs = [] :=
      fun p => hits_seq_nil (hits_lit_nil hpre)
    rw [word, hits, List.flatMap_eq_nil_iff]
    intro m hm
    obtain rfl := eq_nothing hm
    exact List.map_eq_nil_iff.mpr (hlit _)

lemma silent_word (hw : IsWord W w) {g t : List C} (h : ¬StartsIn W w prev g t) :
    (word W w r).Silent prev g t :=
  fun u v huv hne => hits_word_nil hw fun hat => h ⟨u, v, huv, hne, hat⟩

lemma hits_span (ha : IsWord W a) (hb : IsWord W b) {u t : List C} (h : SpanAt W a b prev u t)
    {m : Hit C} (hm : (r.hits b.getLast? t).head? = some m) :
    ((span W a b r).hits prev (a ++ (u ++ (b ++ t)))).head? =
      some ⟨a ++ (u ++ (b ++ m.text)), m.groups, m.rest⟩ := by
  have hclosing : ((word W b r).hits (u.getLast?.or a.getLast?) (b ++ t)).head? =
      some (Hit.append ⟨b, [], t⟩ m) := by
    rw [hits_word hb h.closing h.behind, List.head?_map, hm]
    rfl
  rw [span, hits_word ha h.before h.apart, hits_skip_silent (silent_word hb h.clear),
    List.head?_map, List.head?_map, head_skip hclosing]
  rfl

/-- Without a closing word behind it, the opening word starts no span. -/
lemma hits_span_nil (ha : IsWord W a) (hb : IsWord W b) {cs : List C}
    (h : WordAt W a prev cs → ¬StartsIn W b a.getLast? (cs.drop a.length) []) :
    (span W a b r).hits prev cs = [] := by
  by_cases hat : WordAt W a prev cs
  · have hclear := h hat
    obtain ⟨t, rfl, ht⟩ := hat.split
    rw [List.drop_left] at hclear
    have hend : (word W b r).hits (t.getLast?.or a.getLast?) [] = [] := by
      refine hits_word_nil hb fun hnil => ?_
      exact hb.ne_nil (List.prefix_nil.mp hnil.here)
    rw [span, hits_word ha hat.before ht, hits_skip_eq_nil (silent_word hb hclear) hend,
      List.map_nil]
  · exact hits_word_nil ha hat

/-- What a span matches, where it matches. -/
lemma spanAt_of_hit (ha : IsWord W a) (hb : IsWord W b) (hr : ∀ p cs, r.hits p cs ≠ [])
    {cs : List C} {h : Hit C} (hh : ((span W a b r).hits prev cs).head? = some h) :
    ∃ u t m, cs = a ++ (u ++ (b ++ t)) ∧ SpanAt W a b prev u t ∧
      (r.hits b.getLast? t).head? = some m ∧ h = ⟨a ++ (u ++ (b ++ m.text)), m.groups, m.rest⟩ := by
  by_cases hopen : WordAt W a prev cs ∧ StartsIn W b a.getLast? (cs.drop a.length) []
  · obtain ⟨u, t, rfl, hspan⟩ := exists_spanAt hopen.1 hopen.2
    obtain ⟨m, l, hm⟩ := List.exists_cons_of_ne_nil (hr b.getLast? t)
    have hhead : (r.hits b.getLast? t).head? = some m := by rw [hm, List.head?_cons]
    refine ⟨u, t, m, rfl, hspan, hhead, ?_⟩
    rw [hits_span ha hb hspan hhead] at hh
    exact (Option.some.inj hh).symm
  · rw [hits_span_nil ha hb fun hat hin => hopen ⟨hat, hin⟩] at hh
    contradiction

/-- A span starts where the opening word stands with a closing word behind it. -/
theorem hits_span_eq_nil_iff (ha : IsWord W a) (hb : IsWord W b) (hr : ∀ p cs, r.hits p cs ≠ [])
    {cs : List C} : (span W a b r).hits prev cs = [] ↔
      (WordAt W a prev cs → ¬StartsIn W b a.getLast? (cs.drop a.length) []) := by
  refine ⟨fun hnil hat hin => ?_, hits_span_nil ha hb⟩
  obtain ⟨u, t, rfl, hspan⟩ := exists_spanAt hat hin
  obtain ⟨m, l, hm⟩ := List.exists_cons_of_ne_nil (hr b.getLast? t)
  have hhead := hits_span ha hb hspan (by rw [hm, List.head?_cons])
  rw [hnil] at hhead
  contradiction

/-- In front of a span, another one starts at each opening word. -/
lemma silent_span_iff (ha : IsWord W a) (hb : IsWord W b) (hr : ∀ p cs, r.hits p cs ≠ [])
    {g u t : List C} (h : SpanAt W a b (g.getLast?.or prev) u t) :
    (span W a b r).Silent prev g (a ++ (u ++ (b ++ t))) ↔
      ¬StartsIn W a prev g (a ++ (u ++ (b ++ t))) := by
  constructor
  · rintro hsilent ⟨u', v, rfl, hv, hat⟩
    have hbefore := h.before
    rw [List.getLast?_append, Option.or_assoc, getLast?_or_of_ne_nil hv] at hbefore
    obtain ⟨m, rfl⟩ := hat.within ha hv hbefore
    apply (hits_span_eq_nil_iff ha hb hr).mp (hsilent u' (a ++ m) rfl hv) hat
    rw [List.append_assoc, List.drop_left]
    refine ⟨m ++ (a ++ u), b ++ t, by simp, List.append_ne_nil_of_left_ne_nil hb.ne_nil t, ?_⟩
    have hlast : (m ++ (a ++ u)).getLast?.or a.getLast? = u.getLast?.or a.getLast? := by
      rw [List.getLast?_append, List.getLast?_append, List.getLast?_eq_some_getLast ha.ne_nil]
      cases u.getLast? <;> rfl
    rw [List.append_nil, hlast]
    exact wordAt_append h.closing h.behind
  · intro hclear u' v huv hv
    exact hits_span_nil ha hb fun hat => absurd ⟨u', v, huv, hv, hat⟩ hclear

end Words

end Regex

end Backtrack
