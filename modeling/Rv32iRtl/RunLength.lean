import Mathlib

/-! Searching a sequence for a run of equal elements by counting: the counter goes up
while the element stays the same and starts again at one with every other element. -/
namespace RunLength

variable {α : Type*}

def HasRun (good : α → Prop) (n : ℕ) (l : List α) : Prop :=
  ∃ x, good x ∧ List.replicate n x <:+: l

variable {good : α → Prop} {n : ℕ}

lemma prefix_replicate_succ {x y : α} {l : List α} :
    List.replicate (n + 1) x <+: y :: l ↔ x = y ∧ List.replicate n x <+: l := by
  rw [List.replicate_succ, List.cons_prefix_cons]

lemma replicate_prefix_of_le {m : ℕ} (h : m ≤ n) {x : α} {l : List α}
    (hl : List.replicate n x <+: l) : List.replicate m x <+: l := by
  obtain ⟨k, rfl⟩ := Nat.exists_eq_add_of_le h
  rw [List.replicate_add] at hl
  exact (List.prefix_append _ _).trans hl

/-- A run in a longer sequence starts at its head or lies behind it. -/
lemma hasRun_cons {y : α} {l : List α} :
    HasRun good (n + 1) (y :: l) ↔
      (good y ∧ List.replicate n y <+: l) ∨ HasRun good (n + 1) l := by
  constructor
  · rintro ⟨x, hx, hrun⟩
    rcases List.infix_cons_iff.mp hrun with h | h
    · obtain ⟨rfl, htail⟩ := prefix_replicate_succ.mp h
      exact Or.inl ⟨hx, htail⟩
    · exact Or.inr ⟨x, hx, h⟩
  · rintro (⟨hy, h⟩ | ⟨x, hx, h⟩)
    · exact ⟨y, hy, (prefix_replicate_succ.mpr ⟨rfl, h⟩).isInfix⟩
    · exact ⟨x, hx, List.infix_cons h⟩

lemma not_hasRun_nil : ¬ HasRun good (n + 1) ([] : List α) := by
  rintro ⟨x, -, h⟩
  simpa using h.length_le

variable [DecidableEq α] [DecidablePred good]

/-- The search for `n` equal good elements in a row, given the count and the last element. -/
def longRun (good : α → Prop) [DecidablePred good] (n : ℕ) : List α → ℕ → Option α → Bool
  | [], _, _ => false
  | x :: xs, count, last =>
    if good x ∧ some x = last then
      if n ≤ count + 1 then true else longRun good n xs (count + 1) last
    else longRun good n xs 1 (some x)

/-- With all but `k` elements of a run seen, the search succeeds when `k` more of them
follow, or when a whole run does. -/
lemma longRun_iff (l : List α) {count k : ℕ} (hcount : 0 < count) (hk : 0 < k)
    (hn : count + k = n + 1) (x : α) :
    longRun good (n + 1) l count (some x) = true ↔
      (good x ∧ List.replicate k x <+: l) ∨ HasRun good (n + 1) l := by
  induction l generalizing count k x with
  | nil =>
    have hne : k ≠ 0 := by omega
    simp [longRun, not_hasRun_nil, hne]
  | cons y l ih =>
    obtain ⟨j, rfl⟩ := Nat.exists_eq_add_of_lt hk
    rw [Nat.zero_add] at hn ⊢
    rw [longRun, hasRun_cons, prefix_replicate_succ]
    by_cases h : good y ∧ some y = some x
    · obtain ⟨hy, hyx⟩ := h
      obtain rfl := Option.some.inj hyx
      rw [if_pos ⟨hy, rfl⟩]
      rcases Nat.eq_zero_or_pos j with rfl | hj
      · rw [if_pos (by omega)]
        simp [hy]
      · rw [if_neg (by omega), ih (Nat.succ_pos count) hj (by omega)]
        have hle : List.replicate n y <+: l → List.replicate j y <+: l :=
          replicate_prefix_of_le (by omega)
        tauto
    · rw [if_neg h, ih Nat.one_pos (by omega : 0 < n) (by omega)]
      have hnot : ¬(good x ∧ x = y ∧ List.replicate j x <+: l) := by
        rintro ⟨hx, rfl, -⟩
        exact h ⟨hx, rfl⟩
      rw [or_iff_right hnot]

theorem longRun_eq_true_iff (hn : 0 < n) (l : List α) :
    longRun good (n + 1) l 0 none = true ↔ HasRun good (n + 1) l := by
  cases l with
  | nil => simp [longRun, not_hasRun_nil]
  | cons y l =>
    rw [longRun, if_neg (by simp), hasRun_cons, longRun_iff l Nat.one_pos hn (by omega)]

end RunLength
