import Rv32iRtl.Backtrack

/-! The first match at a place, and the places where the matches of a text start. -/
namespace Backtrack

variable {C : Type*}

/-- The text from where the match starts. -/
def Hit.place (h : Hit C) : List C := h.text ++ h.rest

namespace Regex

/-- The expression does not look at the symbol before it. -/
def Placeless : Regex C → Prop
  | seq r s => Placeless r ∧ Placeless s
  | alt r s => Placeless r ∧ Placeless s
  | group _ r => Placeless r
  | ahead r => Placeless r
  | boundary _ => False
  | _ => True

lemma hits_placeless {r : Regex C} (hr : r.Placeless) (prev prev' : Option C) (cs : List C) :
    r.hits prev cs = r.hits prev' cs := by
  induction r generalizing prev prev' cs with
  | empty | many | stop => rfl
  | symbol P => cases cs <;> rfl
  | seq r s ihr ihs =>
    simp only [hits]
    rw [ihr hr.1 prev prev']
    refine List.flatMap_congr fun h _ => ?_
    rw [ihs hr.2 (h.last prev) (h.last prev')]
  | alt r s ihr ihs =>
    simp only [hits]
    rw [ihr hr.1 prev prev', ihs hr.2 prev prev']
  | group k r ih =>
    simp only [hits]
    rw [ih hr prev prev']
  | boundary W => exact hr.elim
  | ahead r ih =>
    simp only [hits]
    rw [ih hr prev prev']

section Sequences

variable {r s : Regex C} {P : C → Bool} {prev : Option C} {w t cs : List C}

lemma hits_seq_single {h : Hit C} (hr : r.hits prev cs = [h]) :
    (seq r s).hits prev cs = (s.hits (h.last prev) h.rest).map h.append := by
  simp only [hits, hr, List.flatMap_singleton]

lemma head_seq {h m : Hit C} (hr : (r.hits prev cs).head? = some h)
    (hs : (s.hits (h.last prev) h.rest).head? = some m) :
    ((seq r s).hits prev cs).head? = some (h.append m) := by
  obtain ⟨l, hl⟩ := List.head?_eq_some_iff.mp hr
  rw [hits, hl, List.flatMap_cons, List.head?_append, List.head?_map, hs]
  rfl

lemma hits_seq_nil (hr : r.hits prev cs = []) : (seq r s).hits prev cs = [] := by
  simp only [hits, hr, List.flatMap_nil]

lemma hits_opt_seq : (seq (opt r) s).hits prev cs = (seq r s).hits prev cs ++ s.hits prev cs := by
  have hid : Hit.append (Hit.nothing cs) = id := rfl
  have hlast : (Hit.nothing cs).last prev = prev := rfl
  simp only [opt, hits, List.flatMap_append, List.flatMap_singleton, hid, hlast, List.map_id]
  rfl

lemma hits_alt_seq {r' : Regex C} :
    (seq (alt r r') s).hits prev cs = (seq r s).hits prev cs ++ (seq r' s).hits prev cs := by
  simp only [hits, List.flatMap_append]

lemma hits_seq_assoc {r' : Regex C} :
    (seq (seq r r') s).hits prev cs = (seq r (seq r' s)).hits prev cs := by
  simp only [hits, List.flatMap_assoc, List.flatMap_map, List.map_flatMap, List.map_map]
  refine List.flatMap_congr fun h _ => List.flatMap_congr fun h' _ => ?_
  have hlast : (h.append h').last prev = h'.last (h.last prev) := by
    simp only [Hit.last, Hit.append, List.getLast?_append, Option.or_assoc]
  rw [hlast]
  refine List.map_congr_left fun h'' _ => ?_
  simp only [Function.comp_apply, Hit.append, List.append_assoc]

lemma hits_lit [DecidableEq C] (l t : List C) (prev : Option C) :
    (lit l).hits prev (l ++ t) = [⟨l, [], t⟩] := by
  induction l generalizing prev with
  | nil => rfl
  | cons c l ih =>
    have hc : (symbol (· = c)).hits prev (c :: (l ++ t)) = [⟨[c], [], l ++ t⟩] := by simp [hits]
    change (seq (symbol (· = c)) (lit l)).hits prev (c :: (l ++ t)) = _
    rw [hits_seq_single hc, ih]
    rfl

lemma hits_lit_nil [DecidableEq C] {l : List C} (h : ¬l <+: cs) : (lit l).hits prev cs = [] := by
  rw [List.eq_nil_iff_forall_not_mem]
  intro h' hm
  have htext : h'.text = l := by
    clear h
    induction l generalizing prev cs h' with
    | nil =>
      obtain rfl := List.mem_singleton.mp hm
      rfl
    | cons c l ih =>
      obtain ⟨h1, hm1, hm2⟩ := List.mem_flatMap.mp hm
      obtain ⟨h2, hm3, rfl⟩ := List.mem_map.mp hm2
      cases cs with
      | nil => contradiction
      | cons d cs =>
        rw [hits] at hm1
        split_ifs at hm1 with hd
        · obtain rfl := List.mem_singleton.mp hm1
          change [d] ++ h2.text = c :: l
          rw [ih h2 hm3, of_decide_eq_true hd]
          rfl
        · contradiction
  exact h ⟨h'.rest, htext ▸ (hits_split hm).symm⟩

lemma mem_lit [DecidableEq C] {l : List C} {h : Hit C} (hm : h ∈ (lit l).hits prev cs) :
    cs = l ++ h.rest ∧ h = ⟨l, [], h.rest⟩ := by
  by_cases hl : l <+: cs
  · obtain ⟨t, rfl⟩ := hl
    rw [hits_lit] at hm
    obtain rfl := List.mem_singleton.mp hm
    exact ⟨rfl, rfl⟩
  · rw [hits_lit_nil hl] at hm
    contradiction

lemma mem_seq {h : Hit C} (hm : h ∈ (seq r s).hits prev cs) :
    ∃ h1 ∈ r.hits prev cs, ∃ h2 ∈ s.hits (h1.last prev) h1.rest, h = h1.append h2 := by
  obtain ⟨h1, hm1, hm2⟩ := List.mem_flatMap.mp hm
  obtain ⟨h2, hm3, rfl⟩ := List.mem_map.mp hm2
  exact ⟨h1, hm1, h2, hm3, rfl⟩

lemma mem_plus {h : Hit C} (hm : h ∈ (plus P).hits prev cs) : ∀ c ∈ h.text, P c = true := by
  obtain ⟨h1, hm1, h2, hm2, rfl⟩ := mem_seq hm
  obtain ⟨q, hq, rfl⟩ := mem_many hm2
  cases cs with
  | nil => contradiction
  | cons d cs =>
    rw [hits] at hm1
    split_ifs at hm1 with hd
    · obtain rfl := List.mem_singleton.mp hm1
      exact List.forall_mem_cons.mpr ⟨hd, of_mem_splits hq⟩
    · contradiction

/-- A run of symbols of a class may be taken as a whole if what follows fails within it. -/
lemma flatMap_splits {B : Type*} {f : List C × List C → List B} (hw : ∀ c ∈ w, P c = true)
    (ht : ∀ c ∈ t.head?, P c = false)
    (hf : ∀ u c v, w = u ++ c :: v → f (u, c :: v ++ t) = []) :
    (splits P (w ++ t)).reverse.flatMap f = f (w, t) := by
  induction w generalizing f with
  | nil =>
    cases t with
    | nil => simp [splits]
    | cons c t => simp [splits, ht c rfl]
  | cons c w ih =>
    have hin := ih (f := fun q => f (c :: q.1, q.2)) (fun d hd => hw d (List.mem_cons_of_mem c hd))
      fun u d v huv => hf (c :: u) d v (by rw [huv, List.cons_append])
    have hfront := hf [] c w rfl
    rw [List.cons_append] at hfront
    rw [List.cons_append, splits, if_pos (hw c List.mem_cons_self), List.reverse_cons,
      List.flatMap_append, List.flatMap_singleton, hfront, List.append_nil, ← List.map_reverse,
      List.flatMap_map, hin]

lemma hits_plus (c : C) (cs : List C) (prev : Option C) :
    (plus P).hits prev (c :: cs) =
      if P c then (splits P cs).reverse.map fun q => ⟨c :: q.1, [], q.2⟩ else [] := by
  by_cases hc : P c = true
  · have hsym : (symbol P).hits prev (c :: cs) = [⟨[c], [], cs⟩] := by simp [hits, hc]
    rw [plus, hits_seq_single hsym, if_pos hc, hits, if_pos rfl, List.map_map]
    rfl
  · rw [if_neg hc]
    exact hits_seq_nil (by simp [hits, hc])

lemma hits_plus_nil (h : ∀ c ∈ cs.head?, P c = false) : (plus P).hits prev cs = [] := by
  cases cs with
  | nil => rfl
  | cons c cs => simp [hits_plus, h c rfl]

/-- What matches after a run of symbols that fails within it. -/
lemma flatMap_plus {B : Type*} {f : Hit C → List B} (hne : w ≠ []) (hw : ∀ c ∈ w, P c = true)
    (ht : ∀ c ∈ t.head?, P c = false) (hf : ∀ u, ∀ c ∈ w, ∀ v, f ⟨u, [], c :: v⟩ = []) :
    ((plus P).hits prev (w ++ t)).flatMap f = f ⟨w, [], t⟩ := by
  obtain ⟨c, w, rfl⟩ := List.exists_cons_of_ne_nil hne
  have hc := hw c List.mem_cons_self
  rw [List.cons_append, hits_plus, if_pos hc, List.flatMap_map]
  refine flatMap_splits (fun d hd => hw d (List.mem_cons_of_mem c hd)) ht fun u d v huv => ?_
  exact hf _ d (by simp [huv]) _

lemma hits_plus_seq (hne : w ≠ []) (hw : ∀ c ∈ w, P c = true) (ht : ∀ c ∈ t.head?, P c = false)
    (hs : ∀ p, ∀ c ∈ w, ∀ v, s.hits p (c :: v) = []) :
    (seq (plus P) s).hits prev (w ++ t) =
      (s.hits (w.getLast?.or prev) t).map (Hit.append ⟨w, [], t⟩) := by
  rw [hits, flatMap_plus hne hw ht]
  · rfl
  · intro u c hc v
    rw [hs _ c hc, List.map_nil]

lemma hits_group_plus_seq (k : ℕ) (hne : w ≠ []) (hw : ∀ c ∈ w, P c = true)
    (ht : ∀ c ∈ t.head?, P c = false) (hs : ∀ p, ∀ c ∈ w, ∀ v, s.hits p (c :: v) = []) :
    (seq (group k (plus P)) s).hits prev (w ++ t) =
      (s.hits (w.getLast?.or prev) t).map (Hit.append ⟨w, [(k, w)], t⟩) := by
  rw [hits, hits, List.flatMap_map, flatMap_plus hne hw ht]
  · rfl
  · intro u c hc v
    simp only [Hit.capture, hs _ c hc, List.map_nil]

lemma getLast?_splits (hw : ∀ c ∈ w, P c = true) (ht : ∀ c ∈ t.head?, P c = false) :
    (splits P (w ++ t)).getLast? = some (w, t) := by
  induction w with
  | nil =>
    cases t with
    | nil => rfl
    | cons c t => simp [splits, ht c rfl]
  | cons c w ih =>
    rw [List.cons_append, splits, if_pos (hw c List.mem_cons_self), List.getLast?_cons,
      List.getLast?_map, ih fun d hd => hw d (List.mem_cons_of_mem c hd)]
    rfl

/-- The longest run is tried first. -/
lemma head_plus (hne : w ≠ []) (hw : ∀ c ∈ w, P c = true) (ht : ∀ c ∈ t.head?, P c = false) :
    ((plus P).hits prev (w ++ t)).head? = some ⟨w, [], t⟩ := by
  obtain ⟨c, w, rfl⟩ := List.exists_cons_of_ne_nil hne
  rw [List.cons_append, hits_plus, if_pos (hw c List.mem_cons_self), List.head?_map,
    List.head?_reverse, getLast?_splits (fun d hd => hw d (List.mem_cons_of_mem c hd)) ht]
  rfl

lemma head_many_seq {m : Hit C} (hw : ∀ c ∈ w, P c = true) (ht : ∀ c ∈ t.head?, P c = false)
    (hm : (s.hits (w.getLast?.or prev) t).head? = some m) :
    ((seq (many true P) s).hits prev (w ++ t)).head? = some (Hit.append ⟨w, [], t⟩ m) := by
  have hfirst : ((many true P).hits prev (w ++ t)).head? = some ⟨w, [], t⟩ := by
    rw [hits, if_pos rfl, List.head?_map, List.head?_reverse, getLast?_splits hw ht]
    rfl
  exact head_seq hfirst hm

end Sequences

section Scan

variable {r : Regex C}

lemma scan_placeless (hr : r.Placeless) (p p' : Option C) (n : ℕ) (cs : List C) :
    r.scan p n cs = r.scan p' n cs := by
  induction cs generalizing p p' n with
  | nil =>
    cases n with
    | zero => rw [scan, scan, hits_placeless hr p p']
    | succ n => rfl
  | cons c cs ih =>
    cases n with
    | zero => rw [scan, scan, hits_placeless hr p p']
    | succ n => rfl

lemma scan_covered (p : Option C) (g t : List C) :
    r.scan p g.length (g ++ t) = r.scan (g.getLast?.or p) 0 t := by
  induction g generalizing p with
  | nil => rfl
  | cons c g ih =>
    rw [List.cons_append, List.length_cons, scan, ih, List.getLast?_cons]
    cases g.getLast? <;> rfl

/-- A match at the front, and the search behind it. -/
lemma scan_eq_cons {p : Option C} {cs : List C} {m : Hit C} (hm : (r.hits p cs).head? = some m)
    (hne : m.text ≠ []) : r.scan p 0 cs = m :: r.scan (m.text.getLast?.or p) 0 m.rest := by
  have hsplit := hits_split (List.mem_of_head? hm)
  obtain ⟨c, w, hw⟩ := List.exists_cons_of_ne_nil hne
  have hlen : m.text.length - 1 = w.length := by rw [hw, List.length_cons, Nat.add_sub_cancel]
  rw [hw, List.cons_append] at hsplit
  rw [hsplit] at hm ⊢
  rw [scan, hm]
  change m :: r.scan (some c) (m.text.length - 1) (w ++ m.rest) = _
  rw [hlen, scan_covered, hw, List.getLast?_cons]
  cases w.getLast? <;> rfl

lemma mem_scan {p : Option C} {n : ℕ} {cs : List C} {h : Hit C} (hm : h ∈ r.scan p n cs) :
    h.place <:+ cs.drop n ∧ ∃ p', (r.hits p' h.place).head? = some h := by
  induction cs generalizing p n with
  | nil =>
    cases n with
    | zero =>
      have hhead : (r.hits p []).head? = some h := Option.mem_toList.mp hm
      have hplace : [] = h.place := hits_split (List.mem_of_head? hhead)
      exact ⟨hplace ▸ List.suffix_rfl, p, hplace ▸ hhead⟩
    | succ n => contradiction
  | cons c cs ih =>
    cases n with
    | succ n => exact ih hm
    | zero =>
      have hlater : ∀ {n'}, h ∈ r.scan (some c) n' cs → h.place <:+ c :: cs ∧
          ∃ p', (r.hits p' h.place).head? = some h := by
        intro n' hm
        obtain ⟨hsuf, hhead⟩ := ih hm
        exact ⟨(hsuf.trans (List.drop_suffix n' cs)).trans (List.suffix_cons c cs), hhead⟩
      rw [scan] at hm
      cases hf : (r.hits p (c :: cs)).head? with
      | none =>
        rw [hf] at hm
        exact hlater hm
      | some h' =>
        rw [hf] at hm
        rcases List.mem_cons.mp hm with rfl | hm
        · have hplace : c :: cs = h.place := hits_split (List.mem_of_head? hf)
          exact ⟨hplace ▸ List.suffix_rfl, p, hplace ▸ hf⟩
        · exact hlater hm

/-- Matches start one behind the other. -/
lemma scan_places (r : Regex C) (p : Option C) (n : ℕ) (cs : List C) :
    (r.scan p n cs).Pairwise fun h h' => h'.place.length < h.place.length := by
  induction cs generalizing p n with
  | nil =>
    cases n with
    | zero =>
      rw [scan]
      cases (r.hits p []).head? with
      | none => exact List.Pairwise.nil
      | some h => exact List.pairwise_singleton _ h
    | succ n => exact List.Pairwise.nil
  | cons c cs ih =>
    cases n with
    | succ n => exact ih _ n
    | zero =>
      rw [scan]
      cases hf : (r.hits p (c :: cs)).head? with
      | none => exact ih _ 0
      | some h =>
        refine List.Pairwise.cons (fun h' hm => ?_) (ih _ _)
        have hplace : c :: cs = h.place := hits_split (List.mem_of_head? hf)
        have hlen := ((mem_scan hm).1.trans (List.drop_suffix _ _)).length_le
        rw [← hplace, List.length_cons]
        omega

lemma scan_behind {n : ℕ} (p : Option C) (hn : 0 < n) {cs : List C} (hne : cs ≠ []) :
    ∀ h ∈ r.scan p n cs, h.place.length < cs.length := by
  intro h hm
  have hsuf := (mem_scan hm).1.length_le
  have hpos := List.length_pos_iff.mpr hne
  rw [List.length_drop] at hsuf
  omega

/-- The first match that may start at the front, and the later ones. -/
lemma scan_head (p : Option C) {cs : List C} (hne : cs ≠ []) :
    (∀ h ∈ r.scan p 0 cs, h.place.length < cs.length) ∨
      ∃ h later, (r.hits p cs).head? = some h ∧ r.scan p 0 cs = h :: later ∧
        ∀ h' ∈ later, h'.place.length < cs.length := by
  obtain ⟨c, cs, rfl⟩ := List.exists_cons_of_ne_nil hne
  have hlater : ∀ n, ∀ h ∈ r.scan (some c) n cs, h.place.length < (c :: cs).length := by
    intro n h hm
    have hsuf := ((mem_scan hm).1.trans (List.drop_suffix _ _)).length_le
    rw [List.length_cons]
    omega
  rw [scan]
  cases (r.hits p (c :: cs)).head? with
  | none => exact Or.inl (hlater 0)
  | some h => exact Or.inr ⟨h, _, rfl, rfl, hlater _⟩

/-- There are no more matches than places for them. -/
lemma length_le_places {l : List (Hit C)} {places : List (List C)}
    (hl : l.Pairwise fun h h' => h'.place.length < h.place.length)
    (h : ∀ m ∈ l, m.place ∈ places) : l.length ≤ places.length := by
  have hnodup : (l.map Hit.place).Nodup := by
    rw [List.Nodup, List.pairwise_map]
    refine hl.imp fun hlt heq => ?_
    rw [heq] at hlt
    exact lt_irrefl _ hlt
  have hsub : l.map Hit.place ⊆ places := by
    intro cs hcs
    obtain ⟨m, hm, rfl⟩ := List.mem_map.mp hcs
    exact h m hm
  rw [← List.length_map (f := Hit.place)]
  exact (hnodup.subperm hsub).length_le

/-- The matches that start in the front of a text, and those behind. `k` symbols of what follows
are covered by the former. -/
lemma scan_append (r : Regex C) (p : Option C) (n : ℕ) (g t : List C) :
    ∃ front k p', r.scan p n (g ++ t) = front ++ r.scan p' k t ∧
      (∀ h ∈ front, t.length < h.place.length) ∧
      (k = 0 ↔ n ≤ g.length ∧ ∀ h ∈ front, t.length ≤ h.rest.length) := by
  induction g generalizing p n with
  | nil => exact ⟨[], n, p, rfl, by simp, by simp⟩
  | cons c g ih =>
    cases n with
    | succ n =>
      obtain ⟨front, k, p', heq, hfront, hk⟩ := ih (some c) n
      exact ⟨front, k, p', heq, hfront, by rw [hk, List.length_cons, Nat.succ_le_succ_iff]⟩
    | zero =>
      cases hf : (r.hits p (c :: (g ++ t))).head? with
      | none =>
        obtain ⟨front, k, p', heq, hfront, hk⟩ := ih (some c) 0
        refine ⟨front, k, p', ?_, hfront, by simpa using hk⟩
        rw [List.cons_append, scan, hf]
        exact heq
      | some h =>
        obtain ⟨front, k, p', heq, hfront, hk⟩ := ih (some c) (h.text.length - 1)
        have hplace : c :: (g ++ t) = h.place := hits_split (List.mem_of_head? hf)
        have hlen := congrArg List.length hplace
        simp only [Hit.place, List.length_cons, List.length_append] at hlen
        refine ⟨h :: front, k, p', ?_, ?_, ?_⟩
        · rw [List.cons_append, scan, hf]
          exact congrArg (h :: ·) heq
        · rw [List.forall_mem_cons]
          refine ⟨?_, hfront⟩
          rw [← hplace, List.length_cons, List.length_append]
          omega
        · have hover : h.text.length - 1 ≤ g.length ↔ t.length ≤ h.rest.length := by omega
          rw [hk, List.forall_mem_cons, hover]
          simp

lemma getLast?_cons_or (c : C) (u : List C) (p : Option C) :
    (c :: u).getLast?.or p = u.getLast?.or (some c) := by
  rw [List.getLast?_cons]
  cases u.getLast? <;> rfl

lemma getLast?_or_of_ne_nil {u : List C} (h : u ≠ []) (p : Option C) :
    u.getLast?.or p = u.getLast? :=
  Option.or_of_isSome (List.getLast?_isSome.mpr h)

variable (r) in
/-- No match starts in `g` when `t` is behind it. -/
def Silent (p : Option C) (g t : List C) : Prop :=
  ∀ u v, g = u ++ v → v ≠ [] → r.hits (u.getLast?.or p) (v ++ t) = []

lemma silent_nil (p : Option C) (t : List C) : r.Silent p [] t :=
  fun _ _ huv hne => absurd (List.append_eq_nil_iff.mp huv.symm).2 hne

lemma silent_cons {p : Option C} {c : C} {g t : List C} :
    r.Silent p (c :: g) t ↔ r.hits p (c :: (g ++ t)) = [] ∧ r.Silent (some c) g t := by
  constructor
  · intro hall
    refine ⟨hall [] (c :: g) rfl (List.cons_ne_nil c g), fun u v huv hne => ?_⟩
    rw [← getLast?_cons_or c u p]
    exact hall (c :: u) v (by rw [huv, List.cons_append]) hne
  · rintro ⟨hfirst, hall⟩ u v huv hne
    cases u with
    | nil =>
      obtain rfl : c :: g = v := huv
      exact hfirst
    | cons d u =>
      obtain ⟨rfl, htail⟩ := List.cons.inj huv
      rw [getLast?_cons_or]
      exact hall u v htail hne

lemma silent_append {p : Option C} {g g' t : List C} (h : r.Silent p (g ++ g') t) :
    r.Silent (g.getLast?.or p) g' t := by
  intro u v huv hne
  have hplace := h (g ++ u) v (by rw [huv, List.append_assoc]) hne
  rwa [List.getLast?_append, Option.or_assoc] at hplace

lemma scan_silent {p : Option C} {g t : List C} (h : r.Silent p g t) :
    r.scan p 0 (g ++ t) = r.scan (g.getLast?.or p) 0 t := by
  induction g generalizing p with
  | nil => rfl
  | cons c g ih =>
    obtain ⟨hnil, hsilent⟩ := silent_cons.mp h
    rw [List.cons_append, scan, hnil, getLast?_cons_or]
    exact ih hsilent

lemma exists_of_not_silent {p : Option C} {g t : List C} (h : ¬r.Silent p g t) :
    ∃ m ∈ r.scan p 0 (g ++ t), t.length < m.place.length := by
  induction g generalizing p with
  | nil => exact absurd (silent_nil p t) h
  | cons c g ih =>
    rw [List.cons_append, scan]
    cases hf : (r.hits p (c :: (g ++ t))).head? with
    | none =>
      have hrest : ¬r.Silent (some c) g t := fun hs =>
        h (silent_cons.mpr ⟨List.head?_eq_none_iff.mp hf, hs⟩)
      exact ih hrest
    | some m =>
      refine ⟨m, List.mem_cons_self, ?_⟩
      have hplace : c :: (g ++ t) = m.place := hits_split (List.mem_of_head? hf)
      rw [← hplace, List.length_cons, List.length_append]
      omega

lemma scan_place {g t : List C} {h : Hit C} (ht : t ≠ []) (p : Option C) :
    ((r.scan p 0 (g ++ t)).head? = some h ∧ h.place = t) ↔
      r.Silent p g t ∧ (r.hits (g.getLast?.or p) t).head? = some h := by
  have hhits : (r.hits (g.getLast?.or p) t).head? = some h → h.place = t :=
    fun hh => (hits_split (List.mem_of_head? hh)).symm
  constructor
  · rintro ⟨hhead, hplace⟩
    have hsilent : r.Silent p g t := by
      by_contra hs
      obtain ⟨m, hm, hlong⟩ := exists_of_not_silent hs
      obtain ⟨l, hl⟩ : ∃ l, r.scan p 0 (g ++ t) = h :: l := List.head?_eq_some_iff.mp hhead
      have hsorted := scan_places r p 0 (g ++ t)
      rw [hl] at hm hsorted
      rcases List.mem_cons.mp hm with rfl | hm
      · rw [hplace] at hlong
        exact lt_irrefl _ hlong
      · have hlt := (List.pairwise_cons.mp hsorted).1 m hm
        rw [hplace] at hlt
        exact lt_asymm hlt hlong
    rw [scan_silent hsilent] at hhead
    rcases scan_head (r := r) (g.getLast?.or p) ht with hbehind | ⟨h', later, hh, heq, -⟩
    · have hlt := hbehind h (List.mem_of_head? hhead)
      rw [hplace] at hlt
      exact absurd hlt (lt_irrefl _)
    · rw [heq] at hhead
      exact ⟨hsilent, hh.trans hhead⟩
  · rintro ⟨hsilent, hh⟩
    refine ⟨?_, hhits hh⟩
    obtain ⟨c, t, rfl⟩ := List.exists_cons_of_ne_nil ht
    rw [scan_silent hsilent, scan, hh]
    rfl

/-- The search finds the first place behind a front in which nothing matches. -/
theorem search_place {g t : List C} {h : Hit C} (ht : t ≠ []) :
    (r.search (g ++ t) = some h ∧ h.place = t) ↔
      (∀ u v, g = u ++ v → v ≠ [] → r.hits u.getLast? (v ++ t) = []) ∧
        (r.hits g.getLast? t).head? = some h := by
  have hscan := scan_place (r := r) (g := g) (h := h) ht none
  simp only [Silent, Option.or_none] at hscan
  exact hscan

end Scan

section Captures

variable {P : ℕ → List C → Prop} {r s : Regex C} {prev : Option C} {cs : List C} {h : Hit C}

/-- Every group matches only texts of its class. -/
def Captures (P : ℕ → List C → Prop) : Regex C → Prop
  | seq r s => Captures P r ∧ Captures P s
  | alt r s => Captures P r ∧ Captures P s
  | group k r => Captures P r ∧ ∀ prev cs, ∀ h ∈ r.hits prev cs, P k h.text
  | _ => True

lemma groups_of_captures (hr : r.Captures P) (hm : h ∈ r.hits prev cs) :
    ∀ g ∈ h.groups, P g.1 g.2 := by
  induction r generalizing prev cs h with
  | empty =>
    obtain rfl := List.mem_singleton.mp hm
    simp [Hit.nothing]
  | symbol Q =>
    cases cs with
    | nil => contradiction
    | cons c cs =>
      rw [hits] at hm
      split_ifs at hm
      · obtain rfl := List.mem_singleton.mp hm
        simp
      · contradiction
  | many greedy Q =>
    obtain ⟨q, -, rfl⟩ := mem_many hm
    simp
  | seq r s ihr ihs =>
    obtain ⟨h1, hm1, h2, hm2, rfl⟩ := mem_seq hm
    intro g hg
    rcases List.mem_append.mp hg with hg | hg
    · exact ihr hr.1 hm1 g hg
    · exact ihs hr.2 hm2 g hg
  | alt r s ihr ihs =>
    rcases List.mem_append.mp hm with hm | hm
    · exact ihr hr.1 hm
    · exact ihs hr.2 hm
  | group k r ih =>
    obtain ⟨h1, hm1, rfl⟩ := List.mem_map.mp hm
    intro g hg
    rcases List.mem_append.mp hg with hg | hg
    · exact ih hr.1 hm1 g hg
    · obtain rfl := List.mem_singleton.mp hg
      exact hr.2 prev cs h1 hm1
  | boundary | ahead | stop =>
    obtain rfl := eq_nothing hm
    simp [Hit.nothing]

/-- The expression has the group on each of its branches. -/
def Sets (k : ℕ) : Regex C → Prop
  | seq r s => Sets k r ∨ Sets k s
  | alt r s => Sets k r ∧ Sets k s
  | group j r => j = k ∨ Sets k r
  | _ => False

lemma exists_of_sets {k : ℕ} (hr : r.Sets k) (hm : h ∈ r.hits prev cs) :
    ∃ t, (k, t) ∈ h.groups := by
  induction r generalizing prev cs h with
  | seq r s ihr ihs =>
    obtain ⟨h1, hm1, h2, hm2, rfl⟩ := mem_seq hm
    rcases hr with hr | hr
    · obtain ⟨t, ht⟩ := ihr hr hm1
      exact ⟨t, List.mem_append_left _ ht⟩
    · obtain ⟨t, ht⟩ := ihs hr hm2
      exact ⟨t, List.mem_append_right _ ht⟩
  | alt r s ihr ihs =>
    rcases List.mem_append.mp hm with hm | hm
    · exact ihr hr.1 hm
    · exact ihs hr.2 hm
  | group j r ih =>
    obtain ⟨h1, hm1, rfl⟩ := List.mem_map.mp hm
    rcases hr with rfl | hr
    · exact ⟨h1.text, List.mem_append_right _ List.mem_cons_self⟩
    · obtain ⟨t, ht⟩ := ih hr hm1
      exact ⟨t, List.mem_append_left _ ht⟩
  | _ => exact hr.elim

lemma mem_of_group {k : ℕ} {t : List C} (hg : h.group k = some t) : (k, t) ∈ h.groups := by
  obtain ⟨⟨k', t'⟩, hlast, rfl⟩ := Option.map_eq_some_iff.mp hg
  obtain ⟨hmem, hk⟩ := List.mem_filter.mp (List.mem_of_getLast? hlast)
  obtain rfl : k' = k := of_decide_eq_true hk
  exact hmem

/-- A group that no match can miss holds a text of its class. -/
lemma group_of_captures {k : ℕ} (hr : r.Captures P) (hk : r.Sets k) (hm : h ∈ r.hits prev cs) :
    ∃ t, h.group k = some t ∧ P k t := by
  obtain ⟨t, ht⟩ := exists_of_sets hk hm
  have hne : h.groups.filter (fun g => g.1 = k) ≠ [] :=
    List.ne_nil_of_mem (List.mem_filter.mpr ⟨ht, decide_eq_true rfl⟩)
  obtain ⟨g, hg⟩ := Option.ne_none_iff_exists'.mp (mt List.getLast?_eq_none_iff.mp hne)
  have hgroup : h.group k = some g.2 := by rw [Hit.group, hg, Option.map_some]
  exact ⟨g.2, hgroup, groups_of_captures hr hm _ (mem_of_group hgroup)⟩

lemma captures_lit [DecidableEq C] (l : List C) : (lit l).Captures P := by
  induction l with
  | nil => trivial
  | cons c l ih => exact ⟨trivial, ih⟩

lemma mem_findAll (hm : h ∈ r.findAll cs) : ∃ prev, h ∈ r.hits prev h.place := by
  obtain ⟨-, prev, hhead⟩ := mem_scan hm
  exact ⟨prev, List.mem_of_head? hhead⟩

end Captures

end Regex

end Backtrack
