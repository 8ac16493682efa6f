import Rv32iRtl.OrderedDict

/-! A table of results that is asked by key: the first argument of a key settles its result. -/
namespace Memo

variable {K A V : Type*} [DecidableEq K] (f : A → V)

/-- The result of a key, computed from the argument only if there is none yet. -/
def lookup (cache : OrderedDict K V) (k : K) (a : A) : V × OrderedDict K V :=
  match cache.get? k with
  | some v => (v, cache)
  | none => (f a, cache.set k (f a))

def answers : List (K × A) → OrderedDict K V → List V
  | [], _ => []
  | q :: qs, cache => (lookup f cache q.1 q.2).1 :: answers qs (lookup f cache q.1 q.2).2

def after : List (K × A) → OrderedDict K V → OrderedDict K V
  | [], cache => cache
  | q :: qs, cache => after qs (lookup f cache q.1 q.2).2

variable {f}

lemma length_answers (qs : List (K × A)) (cache : OrderedDict K V) :
    (answers f qs cache).length = qs.length := by
  induction qs generalizing cache with
  | nil => rfl
  | cons q qs ih => rw [answers, List.length_cons, ih, List.length_cons]

lemma answers_append (qs qs' : List (K × A)) (cache : OrderedDict K V) :
    answers f (qs ++ qs') cache = answers f qs cache ++ answers f qs' (after f qs cache) := by
  induction qs generalizing cache with
  | nil => rfl
  | cons q qs ih => rw [List.cons_append, answers, ih, answers, after, List.cons_append]

lemma get?_lookup (cache : OrderedDict K V) (k k' : K) (a : A) :
    (lookup f cache k a).2.get? k' =
      if k = k' then some (lookup f cache k a).1 else cache.get? k' := by
  rw [lookup]
  cases h : cache.get? k with
  | some v =>
    split_ifs with hk
    · rw [← hk]
      exact h
    · rfl
  | none => exact OrderedDict.get?_set cache k k' (f a)

/-- All results are those of the arguments exactly if the table has no other ones at first, and
arguments of one key have one result. -/
theorem answers_eq_iff (qs : List (K × A)) (cache : OrderedDict K V) :
    answers f qs cache = qs.map (fun q => f q.2) ↔
      (∀ q ∈ qs, ∀ v, cache.get? q.1 = some v → v = f q.2) ∧
        qs.Pairwise fun q q' => q.1 = q'.1 → f q.2 = f q'.2 := by
  induction qs generalizing cache with
  | nil => simp [answers]
  | cons q qs ih =>
    have hfirst : (lookup f cache q.1 q.2).1 = f q.2 ↔
        ∀ v, cache.get? q.1 = some v → v = f q.2 := by
      rw [lookup]
      cases cache.get? q.1 <;> simp
    rw [answers, List.map_cons, List.cons.injEq, ih, hfirst, List.forall_mem_cons,
      List.pairwise_cons, and_assoc]
    refine and_congr_right fun hq => ?_
    have hnow := hfirst.mpr hq
    rw [← and_assoc]
    refine and_congr_left fun _ => ?_
    simp only [get?_lookup, hnow]
    constructor
    · intro h
      refine ⟨fun r hr v hv => ?_, fun r hr heq => ?_⟩
      · by_cases heq : q.1 = r.1
        · have hsame := h r hr (f q.2) (if_pos heq)
          rw [← heq] at hv
          rw [hq v hv]
          exact hsame
        · exact h r hr v (by rw [if_neg heq]; exact hv)
      · exact h r hr (f q.2) (if_pos heq)
    · rintro ⟨hcache, hrest⟩ r hr v hv
      split_ifs at hv with heq
      · rw [← Option.some.inj hv]
        exact hrest r hr heq
      · exact hcache r hr v hv

end Memo
