import Rv32iRtl.LeftmostMatch

/-! Texts that stand one behind the other, and expressions that look for them. -/
namespace Backtrack

variable {C : Type*}

/-- The words stand in the text in this order, one behind the end of the other. -/
def InOrder : List (List C) → List C → Prop
  | [], _ => True
  | l :: ls, cs => ∃ u v, cs = u ++ (l ++ v) ∧ InOrder ls v

/-- The first of the words stands at the front. -/
def InFront : List (List C) → List C → Prop
  | [], _ => True
  | l :: ls, cs => ∃ v, cs = l ++ v ∧ InOrder ls v

lemma inOrder_iff {ls : List (List C)} {cs : List C} :
    InOrder ls cs ↔ ∃ u v, cs = u ++ v ∧ InFront ls v := by
  cases ls with
  | nil => exact iff_of_true trivial ⟨[], cs, rfl, trivial⟩
  | cons l ls =>
    constructor
    · rintro ⟨u, v, rfl, h⟩
      exact ⟨u, l ++ v, rfl, v, rfl, h⟩
    · rintro ⟨u, v, rfl, w, rfl, h⟩
      exact ⟨u, w, rfl, h⟩

namespace Regex

variable {r s : Regex C} {p : Option C} {cs : List C}

lemma scan_eq_nil_iff : r.scan p 0 cs = [] ↔
    ∀ u v, cs = u ++ v → r.hits (u.getLast?.or p) v = [] := by
  induction cs generalizing p with
  | nil =>
    rw [scan, Option.toList_eq_nil_iff, List.head?_eq_none_iff]
    constructor
    · intro h u v huv
      obtain ⟨rfl, rfl⟩ := List.append_eq_nil_iff.mp huv.symm
      exact h
    · intro h
      exact h [] [] rfl
  | cons c cs ih =>
    rw [scan]
    cases hf : (r.hits p (c :: cs)).head? with
    | some m =>
      refine iff_of_false (List.cons_ne_nil _ _) fun h => ?_
      have hnil : r.hits p (c :: cs) = [] := h [] (c :: cs) rfl
      rw [hnil] at hf
      contradiction
    | none =>
      refine ih.trans ⟨fun h u v huv => ?_, fun h u v huv => ?_⟩
      · cases u with
        | nil =>
          obtain rfl : c :: cs = v := huv
          exact List.head?_eq_none_iff.mp hf
        | cons d u =>
          obtain ⟨rfl, htail⟩ := List.cons.inj huv
          rw [getLast?_cons_or]
          exact h u v htail
      · rw [← getLast?_cons_or c u p]
        exact h (c :: u) v (by rw [huv, List.cons_append])

lemma search_isSome_iff : (r.search cs).isSome = true ↔
    ∃ u v, cs = u ++ v ∧ r.hits u.getLast? v ≠ [] := by
  have hnil : (r.search cs).isSome = true ↔ ¬r.findAll cs = [] := by
    rw [search]
    cases r.findAll cs <;> simp
  rw [hnil, findAll, scan_eq_nil_iff]
  simp only [Option.or_none, not_forall, exists_prop, ne_eq]

lemma mem_splits_append {P : C → Bool} {u : List C} (hu : ∀ c ∈ u, P c = true) (v : List C) :
    (u, v) ∈ splits P (u ++ v) := by
  induction u with
  | nil => cases v <;> exact List.mem_cons_self
  | cons c u ih =>
    rw [List.cons_append, splits, if_pos (hu c List.mem_cons_self)]
    have hmem := ih fun d hd => hu d (List.mem_cons_of_mem c hd)
    exact List.mem_cons_of_mem _ (List.mem_map.mpr ⟨(u, v), hmem, rfl⟩)

/-- Any symbols of the class may be skipped. -/
lemma hits_many_seq_ne_nil {greedy : Bool} {P : C → Bool} :
    (seq (many greedy P) s).hits p cs ≠ [] ↔
      ∃ u v, (∀ c ∈ u, P c = true) ∧ cs = u ++ v ∧ s.hits (u.getLast?.or p) v ≠ [] := by
  constructor
  · intro h
    obtain ⟨m, hm⟩ := List.exists_mem_of_ne_nil _ h
    obtain ⟨h1, hm1, h2, hm2, -⟩ := mem_seq hm
    obtain ⟨q, hq, rfl⟩ := mem_many hm1
    exact ⟨q.1, q.2, of_mem_splits hq, append_of_mem_splits hq, List.ne_nil_of_mem hm2⟩
  · rintro ⟨u, v, hu, rfl, h⟩
    obtain ⟨m, hm⟩ := List.exists_mem_of_ne_nil _ h
    have hmany : ⟨u, [], v⟩ ∈ (many greedy P).hits p (u ++ v) := by
      refine List.mem_map.mpr ⟨(u, v), ?_, rfl⟩
      split_ifs
      · exact List.mem_reverse.mpr (mem_splits_append hu v)
      · exact mem_splits_append hu v
    exact List.ne_nil_of_mem (List.mem_flatMap.mpr ⟨_, hmany, List.mem_map.mpr ⟨m, hm, rfl⟩⟩)

/-- The expression matches where one of the families of words stands in order. -/
def Asks (r : Regex C) (A : Set (List (List C))) : Prop :=
  ∀ p cs, r.hits p cs ≠ [] ↔ ∃ ls ∈ A, InFront ls cs

variable {A B : Set (List (List C))}

lemma Asks.search (h : r.Asks A) : (r.search cs).isSome = true ↔ ∃ ls ∈ A, InOrder ls cs := by
  rw [search_isSome_iff]
  constructor
  · rintro ⟨u, v, rfl, hv⟩
    obtain ⟨ls, hls, hfront⟩ := (h _ v).mp hv
    exact ⟨ls, hls, inOrder_iff.mpr ⟨u, v, rfl, hfront⟩⟩
  · rintro ⟨ls, hls, horder⟩
    obtain ⟨u, v, rfl, hfront⟩ := inOrder_iff.mp horder
    exact ⟨u, v, rfl, (h _ v).mpr ⟨ls, hls, hfront⟩⟩

lemma Asks.union {r' : Regex C} (hr : r.Asks A) (hs : s.Asks B)
    (h : ∀ p cs, r'.hits p cs = r.hits p cs ++ s.hits p cs) : r'.Asks (A ∪ B) := by
  intro p cs
  have hboth : r'.hits p cs ≠ [] ↔ r.hits p cs ≠ [] ∨ s.hits p cs ≠ [] := by
    rw [h, ne_eq, List.append_eq_nil_iff, not_and_or]
  simp only [hboth, hr p cs, hs p cs, Set.mem_union, or_and_right, exists_or]

/-- Symbols of a class, and directly behind them one of the words of `L`. -/
lemma Asks.run {P : C → Bool} {greedy : Bool} {L : Set (List C)}
    (h : s.Asks ((fun w => [w]) '' L)) : (seq (many greedy P) s).Asks
      ((fun w => [w]) '' {w | ∃ u, (∀ c ∈ u, P c = true) ∧ ∃ l ∈ L, w = u ++ l}) := by
  intro p cs
  rw [hits_many_seq_ne_nil]
  constructor
  · rintro ⟨u, v, hu, rfl, hv⟩
    obtain ⟨-, ⟨l, hl, rfl⟩, t, rfl, -⟩ := (h _ v).mp hv
    exact ⟨[u ++ l], ⟨u ++ l, ⟨u, hu, l, hl, rfl⟩, rfl⟩, t, (List.append_assoc u l t).symm, trivial⟩
  · rintro ⟨-, ⟨-, ⟨u, hu, l, hl, rfl⟩, rfl⟩, t, rfl, -⟩
    exact ⟨u, l ++ t, hu, List.append_assoc u l t, (h _ _).mpr ⟨[l], ⟨l, hl, rfl⟩, t, rfl, trivial⟩⟩

variable [DecidableEq C]

lemma hits_lit_seq_ne_nil {l : List C} : (seq (lit l) s).hits p cs ≠ [] ↔
    ∃ v, cs = l ++ v ∧ s.hits (l.getLast?.or p) v ≠ [] := by
  constructor
  · intro h
    obtain ⟨m, hm⟩ := List.exists_mem_of_ne_nil _ h
    obtain ⟨h1, hm1, h2, hm2, -⟩ := mem_seq hm
    obtain ⟨hcs, heq⟩ := mem_lit hm1
    rw [heq] at hm2
    exact ⟨h1.rest, hcs, List.ne_nil_of_mem hm2⟩
  · rintro ⟨v, rfl, h⟩
    rw [hits_seq_single (hits_lit l v p)]
    exact fun hnil => h (List.map_eq_nil_iff.mp hnil)

lemma asks_lit (l : List C) : (lit l).Asks {[l]} := by
  intro p cs
  simp only [Set.mem_singleton_iff, exists_eq_left]
  constructor
  · intro h
    obtain ⟨m, hm⟩ := List.exists_mem_of_ne_nil _ h
    exact ⟨m.rest, (mem_lit hm).1, trivial⟩
  · rintro ⟨v, rfl, -⟩
    rw [hits_lit]
    exact List.cons_ne_nil _ _

lemma infix_of_search {l : List C} (h : ((lit l).search cs).isSome = true) : l <:+: cs := by
  obtain ⟨ls, hls, horder⟩ := (asks_lit l).search.mp h
  obtain rfl := Set.mem_singleton_iff.mp hls
  obtain ⟨u, v, rfl, -⟩ := horder
  exact ⟨u, v, List.append_assoc u l v⟩

lemma search_lit_none {l : List C} (h : ¬l <:+: cs) : (lit l).search cs = none := by
  rw [← Option.not_isSome_iff_eq_none]
  exact fun hs => h (infix_of_search hs)

lemma before_lit_none {l : List C} (h : ¬l <:+: cs) : (lit l).before cs = cs := by
  rw [before, search_lit_none h]

/-- A word whose first symbol does not come again is found where it first stands. -/
lemma search_lit {c : C} {l : List C} (hc : c ∉ l) {u : List C} (hu : ¬c :: l <:+: u) (v : List C) :
    (lit (c :: l)).search (u ++ (c :: l ++ v)) = some ⟨c :: l, [], v⟩ := by
  have hne : c :: l ++ v ≠ [] := List.cons_ne_nil c (l ++ v)
  refine ((search_place hne).mpr ⟨fun a b hab hb => hits_lit_nil ?_, ?_⟩).1
  · rintro ⟨t, ht⟩
    rcases List.append_eq_append_iff.mp ht with ⟨m, hm, -⟩ | ⟨m, hm, hv⟩
    · exact hu ⟨a, m, by rw [hab, hm, List.append_assoc]⟩
    · obtain ⟨d, b, rfl⟩ := List.exists_cons_of_ne_nil hb
      cases m with
      | nil => exact hu ⟨a, [], by rw [hab, hm, List.append_nil, List.append_nil]⟩
      | cons e m =>
        have hlast : e ∈ l := by
          rw [(List.cons.inj hm).2]
          simp
        obtain rfl : c = e := (List.cons.inj hv).1
        exact hc hlast
  · rw [hits_lit]
    rfl

lemma before_lit {c : C} {l : List C} (hc : c ∉ l) {u : List C} (hu : ¬c :: l <:+: u) (v : List C) :
    (lit (c :: l)).before (u ++ (c :: l ++ v)) = u := by
  have hlen : (u ++ (c :: l ++ v)).length - ((c :: l).length + v.length) = u.length := by
    simp only [List.length_append]
    omega
  rw [before, search_lit hc hu]
  change (u ++ (c :: l ++ v)).take ((u ++ (c :: l ++ v)).length - ((c :: l).length + v.length)) = u
  rw [hlen, List.take_left']
  rfl

omit [DecidableEq C] in
/-- The first place of a word that stands in the text. -/
lemma exists_first_place {l cs : List C} (hl : l ≠ []) (h : l <:+: cs) :
    ∃ u v, cs = u ++ (l ++ v) ∧ ¬l <:+: u := by
  obtain ⟨u, v, heq⟩ := h
  rw [List.append_assoc] at heq
  induction hn : u.length using Nat.strong_induction_on generalizing u v with
  | _ n ih =>
    by_cases hu : l <:+: u
    · obtain ⟨a, b, rfl⟩ := hu
      have hlt : a.length < n := by
        have hpos := List.length_pos_iff.mpr hl
        rw [← hn, List.length_append, List.length_append]
        omega
      exact ih a.length hlt a (b ++ (l ++ v)) (by simp [← heq]) rfl
    · exact ⟨u, v, heq.symm, hu⟩

/-- A word, anything, and what else is asked for. -/
lemma Asks.behind (l : List C) {greedy : Bool} (h : s.Asks A) :
    (seq (lit l) (seq (many greedy fun _ => true) s)).Asks ((l :: ·) '' A) := by
  intro p cs
  rw [hits_lit_seq_ne_nil]
  constructor
  · rintro ⟨v, rfl, hv⟩
    obtain ⟨u, w, -, rfl, hw⟩ := hits_many_seq_ne_nil.mp hv
    obtain ⟨ls, hls, hfront⟩ := (h _ w).mp hw
    exact ⟨l :: ls, ⟨ls, hls, rfl⟩, u ++ w, rfl, inOrder_iff.mpr ⟨u, w, rfl, hfront⟩⟩
  · rintro ⟨-, ⟨ls, hls, rfl⟩, v, rfl, horder⟩
    obtain ⟨u, w, rfl, hfront⟩ := inOrder_iff.mp horder
    refine ⟨u ++ w, rfl, hits_many_seq_ne_nil.mpr ⟨u, w, fun _ _ => rfl, rfl, ?_⟩⟩
    exact (h _ w).mpr ⟨ls, hls, hfront⟩

/-- A word, and directly behind it one of the words of `L`. -/
lemma Asks.glued (l : List C) {L : Set (List C)} (h : s.Asks ((fun w => [w]) '' L)) :
    (seq (lit l) s).Asks ((fun w => [l ++ w]) '' L) := by
  intro p cs
  rw [hits_lit_seq_ne_nil]
  constructor
  · rintro ⟨v, rfl, hv⟩
    obtain ⟨-, ⟨w, hw, rfl⟩, t, rfl, -⟩ := (h _ v).mp hv
    exact ⟨[l ++ w], ⟨w, hw, rfl⟩, t, (List.append_assoc l w t).symm, trivial⟩
  · rintro ⟨-, ⟨w, hw, rfl⟩, t, rfl, -⟩
    exact ⟨w ++ t, List.append_assoc l w t, (h _ _).mpr ⟨[w], ⟨w, hw, rfl⟩, t, rfl, trivial⟩⟩

end Regex

end Backtrack
