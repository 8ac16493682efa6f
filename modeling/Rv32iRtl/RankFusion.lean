import Rv32iRtl.Retrieval
import Rv32iRtl.RankSum

/-! The fusion of two rankings keeps the order on which they agree, with scores taken as rational
numbers. -/
namespace Rv32iRtl

instance : Score ℚ where
  le x y := decide (x ≤ y)

section Scores

variable {I F : Type*} [DecidableEq I] [Score F]

/-- A ranking adds to the score of each of its ids what is due to its place. -/
lemma get?_addRanks (k : ℕ) (scores : OrderedDict I F) {ids : List I} (hids : ids.Nodup) (i : I) :
    (addRanks k scores ids).get? i =
      if i ∈ ids then some ((scores.get? i).getD 0 + 1 / ((k + (ids.idxOf i + 1) : ℕ) : F))
      else scores.get? i := by
  have hfold : ∀ n (scores : OrderedDict I F),
      ((ids.zipIdx n).foldl (fun scores p =>
        scores.set p.1 ((scores.get? p.1).getD 0 + 1 / ((k + p.2 : ℕ) : F))) scores).get? i =
      if i ∈ ids then some ((scores.get? i).getD 0 + 1 / ((k + (ids.idxOf i + n) : ℕ) : F))
      else scores.get? i := by
    induction ids with
    | nil =>
      intro n scores
      rfl
    | cons j ids ih =>
      intro n scores
      obtain ⟨hj, hids⟩ := List.nodup_cons.mp hids
      rw [List.zipIdx_cons, List.foldl_cons, ih hids]
      by_cases hi : j = i
      · subst hi
        rw [if_neg hj, OrderedDict.get?_set, if_pos rfl, if_pos List.mem_cons_self,
          List.idxOf_cons_self, Nat.zero_add]
      · have hmem : i ∈ j :: ids ↔ i ∈ ids :=
          ⟨fun h => (List.mem_cons.mp h).resolve_left (Ne.symm hi), List.mem_cons_of_mem j⟩
        rw [OrderedDict.get?_set, if_neg hi, List.idxOf_cons_ne _ hi]
        have hplace : (ids.idxOf i).succ + n = ids.idxOf i + (n + 1) := by omega
        simp only [hmem, hplace]
  exact hfold 1 scores

end Scores

section Rational

variable {I : Type*} [DecidableEq I]

/-- The score of a place, counted from 0. -/
def rankWeight (k r : ℕ) : ℚ := 1 / ((k + (r + 1) : ℕ) : ℚ)

lemma rankWeight_pos (k r : ℕ) : 0 < rankWeight k r := by
  rw [rankWeight]
  positivity

lemma rankWeight_anti (k : ℕ) : StrictAnti (rankWeight k) := by
  intro r r' h
  have hlt : ((k + (r + 1) : ℕ) : ℚ) < ((k + (r' + 1) : ℕ) : ℚ) := by
    exact_mod_cast (by omega : k + (r + 1) < k + (r' + 1))
  have hpos : (0 : ℚ) < ((k + (r + 1) : ℕ) : ℚ) := by positivity
  exact one_div_lt_one_div_of_lt hpos hlt

variable {semanticIds bm25Ids : List I}

/-- The score of an id is the sum of what the two rankings give it. -/
lemma fused_score (k : ℕ) (hs : semanticIds.Nodup) (hb : bm25Ids.Nodup) (i : I) :
    ((addRanks k (addRanks k (.empty : OrderedDict I ℚ) semanticIds) bm25Ids).get? i).getD 0 =
      RankSum.total (rankWeight k) [semanticIds, bm25Ids] i := by
  rw [get?_addRanks k _ hb, get?_addRanks k _ hs]
  by_cases hi : i ∈ semanticIds <;> by_cases hj : i ∈ bm25Ids <;>
    simp [RankSum.total, RankSum.share, rankWeight, hi, hj]

/-- Each id of the rankings is listed once, and an id that comes before another one wherever the
latter is ranked comes before it in the list. -/
structure RespectsRankings (semanticIds bm25Ids merged : List I) : Prop where
  nodup : merged.Nodup
  mem_iff : ∀ i, i ∈ merged ↔ i ∈ semanticIds ∨ i ∈ bm25Ids
  order : ∀ a b, b ∈ semanticIds ∨ b ∈ bm25Ids →
    (b ∈ semanticIds → [a, b].Sublist semanticIds) →
    (b ∈ bm25Ids → [a, b].Sublist bm25Ids) → [a, b].Sublist merged

theorem rank_fusion_respects_rankings (k : ℕ) (hs : semanticIds.Nodup) (hb : bm25Ids.Nodup) :
    RespectsRankings semanticIds bm25Ids (rankFusion (F := ℚ) k semanticIds bm25Ids) := by
  obtain ⟨hnodup, hmem⟩ := rankFusion_spec (F := ℚ) k semanticIds bm25Ids
  refine ⟨hnodup, hmem, fun a b hranked hsem hbm => ?_⟩
  have hlt : RankSum.total (rankWeight k) [semanticIds, bm25Ids] b <
      RankSum.total (rankWeight k) [semanticIds, bm25Ids] a := by
    refine RankSum.total_lt (rankWeight_anti k) (rankWeight_pos k) ?_ ?_ ?_
    · simp [hs, hb]
    · simpa using hranked
    · simpa using ⟨hsem, hbm⟩
  have hne : a ≠ b := by
    rintro rfl
    exact lt_irrefl _ hlt
  have ha : a ∈ rankFusion (F := ℚ) k semanticIds bm25Ids := by
    rw [hmem]
    rcases hranked with h | h
    · exact Or.inl ((hsem h).subset List.mem_cons_self)
    · exact Or.inr ((hbm h).subset List.mem_cons_self)
  have hsorted : (rankFusion (F := ℚ) k semanticIds bm25Ids).Pairwise fun x y =>
      RankSum.total (rankWeight k) [semanticIds, bm25Ids] y ≤
        RankSum.total (rankWeight k) [semanticIds, bm25Ids] x := by
    let scores := addRanks k (addRanks k (.empty : OrderedDict I ℚ) semanticIds) bm25Ids
    let le (x y : I) : Bool := Score.le ((scores.get? y).getD 0) ((scores.get? x).getD 0)
    have htrans : ∀ x y z, le x y = true → le y z = true → le x z = true := fun x y z hxy hyz =>
      decide_eq_true (le_trans (of_decide_eq_true hyz) (of_decide_eq_true hxy))
    have htotal : ∀ x y, (le x y || le y x) = true := by
      intro x y
      rw [Bool.or_eq_true]
      exact (le_total _ _).imp decide_eq_true decide_eq_true
    have hsort := List.pairwise_mergeSort htrans htotal scores.keys
    refine hsort.imp fun {x y} h => ?_
    rw [← fused_score k hs hb, ← fused_score k hs hb]
    exact of_decide_eq_true h
  exact RankSum.sublist_of_pairwise hsorted ha ((hmem b).mpr hranked) hne (not_le_of_gt hlt)

theorem rank_fusion_respects_rankings_two :
    ["b", "a"].Sublist (rankFusion (F := ℚ) 60 ["c", "b", "a"] ["b"]) := by
  have h := @rank_fusion_respects_rankings String _ ["c", "b", "a"] ["b"] 60 (by decide) (by decide)
  exact h.order "b" "a" (by decide) (by decide) (by decide)

end Rational

end Rv32iRtl
