import Mathlib

/-! Sums of weights that fall with the place in a ranking. -/
namespace RankSum

variable {I F : Type*} [DecidableEq I]

/-- What a ranking gives an item: the weight of its place, if it has one. -/
def share [Zero F] (w : ℕ → F) (i : I) (ranking : List I) : F :=
  if i ∈ ranking then w (ranking.idxOf i) else 0

def total [AddMonoid F] (w : ℕ → F) (rankings : List (List I)) (i : I) : F :=
  (rankings.map (share w i)).sum

lemma idxOf_lt_of_sublist {a b : I} {l : List I} (hl : l.Nodup) (h : [a, b].Sublist l) :
    l.idxOf a < l.idxOf b := by
  induction l with
  | nil => exact absurd h (by simp)
  | cons c l ih =>
    obtain ⟨hc, hl⟩ := List.nodup_cons.mp hl
    cases h with
    | cons _ h =>
      have ha : c ≠ a := fun heq => hc (heq ▸ h.subset List.mem_cons_self)
      have hb : c ≠ b := fun heq => hc (heq ▸ h.subset (by simp))
      rw [List.idxOf_cons_ne _ ha, List.idxOf_cons_ne _ hb]
      exact Nat.succ_lt_succ (ih hl h)
    | cons_cons _ h =>
      have hb : a ≠ b := fun heq => hc (heq ▸ List.singleton_sublist.mp h)
      rw [List.idxOf_cons_self, List.idxOf_cons_ne _ hb]
      exact Nat.succ_pos _

section Dominance

variable [AddCommMonoid F] [PartialOrder F] [IsOrderedCancelAddMonoid F] {w : ℕ → F}

omit [IsOrderedCancelAddMonoid F] in
lemma share_lt (hw : StrictAnti w) {a b : I} {l : List I} (hl : l.Nodup)
    (h : [a, b].Sublist l) : share w b l < share w a l := by
  have ha : a ∈ l := h.subset List.mem_cons_self
  have hb : b ∈ l := h.subset (by simp)
  rw [share, share, if_pos ha, if_pos hb]
  exact hw (idxOf_lt_of_sublist hl h)

/-- An item that comes before another one in every ranking of the latter has the greater sum. -/
theorem total_lt (hw : StrictAnti w) (hpos : ∀ r, 0 < w r) {rankings : List (List I)}
    (hnodup : ∀ l ∈ rankings, l.Nodup) {a b : I} (hb : ∃ l ∈ rankings, b ∈ l)
    (h : ∀ l ∈ rankings, b ∈ l → [a, b].Sublist l) :
    total w rankings b < total w rankings a := by
  refine List.sum_lt_sum _ _ (fun l hl => ?_) ?_
  · by_cases hbl : b ∈ l
    · exact (share_lt hw (hnodup l hl) (h l hl hbl)).le
    · rw [share, if_neg hbl, share]
      split_ifs
      · exact (hpos _).le
      · exact le_rfl
  · obtain ⟨l, hl, hbl⟩ := hb
    exact ⟨l, hl, share_lt hw (hnodup l hl) (h l hl hbl)⟩

end Dominance

omit [DecidableEq I] in
/-- Two members of a list stand in the order that a relation between its members leaves them. -/
lemma sublist_of_pairwise {R : I → I → Prop} {l : List I} (hl : l.Pairwise R) {a b : I}
    (ha : a ∈ l) (hb : b ∈ l) (hne : a ≠ b) (h : ¬R b a) : [a, b].Sublist l := by
  induction l with
  | nil => contradiction
  | cons c l ih =>
    obtain ⟨hc, hl⟩ := List.pairwise_cons.mp hl
    rcases List.mem_cons.mp ha with rfl | ha'
    · have hbl := (List.mem_cons.mp hb).resolve_left hne.symm
      exact (List.singleton_sublist.mpr hbl).cons_cons a
    · rcases List.mem_cons.mp hb with rfl | hb'
      · exact absurd (hc a ha') h
      · exact (ih hl ha' hb').cons c

end RankSum
