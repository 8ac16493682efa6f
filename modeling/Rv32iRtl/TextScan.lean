import Mathlib

/-! Leftmost, non-overlapping search of a pattern in a text, over any alphabet. A
pattern maps a text to its match at the very front, with what remains after it. -/
namespace TextScan

variable {C A B : Type*}

abbrev Pattern (C A : Type*) := List C → Option (A × List C)

def lit [DecidableEq C] (p : List C) : Pattern C (List C) := fun cs =>
  if p <+: cs then some (p, cs.drop p.length) else none

def exactly (n : ℕ) (P : C → Bool) : Pattern C (List C) := fun cs =>
  if n ≤ cs.length ∧ (cs.take n).all P then some (cs.take n, cs.drop n) else none

/-- One or more symbols of a class, as many as there are. -/
def plus (P : C → Bool) : Pattern C (List C) := fun cs =>
  if cs.takeWhile P = [] then none else some (cs.takeWhile P, cs.dropWhile P)

lemma lit_append [DecidableEq C] (p cs : List C) : lit p (p ++ cs) = some (p, cs) := by
  simp [lit]

lemma lit_none [DecidableEq C] {p cs : List C} {c : C} (h : p.head? ≠ some c) (hp : p ≠ []) :
    lit p (c :: cs) = none := by
  cases p with
  | nil => contradiction
  | cons d ds =>
    have hne : d ≠ c := fun hc => h (by simp [hc])
    simp [lit, hne]

lemma exactly_append {n : ℕ} {P : C → Bool} {l : List C} (hl : l.length = n)
    (hP : ∀ c ∈ l, P c = true) (cs : List C) : exactly n P (l ++ cs) = some (l, cs) := by
  subst hl
  simpa [exactly] using hP

lemma plus_append {P : C → Bool} {l cs : List C} {c : C} (hl : l ≠ [])
    (hP : ∀ c ∈ l, P c = true) (hc : P c = false) :
    plus P (l ++ c :: cs) = some (l, c :: cs) := by
  have ht : (l ++ c :: cs).takeWhile P = l := by
    rw [List.takeWhile_append_of_pos hP, List.takeWhile_cons_of_neg (by simp [hc]),
      List.append_nil]
  have hd : (l ++ c :: cs).dropWhile P = c :: cs := by
    rw [List.dropWhile_append_of_pos hP, List.dropWhile_cons_of_neg (by simp [hc])]
  rw [plus, ht, hd, if_neg hl]

def seq (p : Pattern C A) (q : Pattern C B) : Pattern C (A × B) := fun cs =>
  (p cs).bind fun m => (q m.2).map fun m' => ((m.1, m'.1), m'.2)

def groups (f : A → B) (p : Pattern C A) : Pattern C B := fun cs =>
  (p cs).map fun m => (f m.1, m.2)

lemma seq_some {p : Pattern C A} {q : Pattern C B} {cs ds es : List C} {a : A} {b : B}
    (hp : p cs = some (a, ds)) (hq : q ds = some (b, es)) : seq p q cs = some ((a, b), es) := by
  simp [seq, hp, hq]

lemma seq_none {p : Pattern C A} {q : Pattern C B} {cs : List C} (hp : p cs = none) :
    seq p q cs = none := by
  simp [seq, hp]

lemma groups_some {f : A → B} {p : Pattern C A} {cs ds : List C} {a : A}
    (hp : p cs = some (a, ds)) : groups f p cs = some (f a, ds) := by
  simp [groups, hp]

lemma groups_none {f : A → B} {p : Pattern C A} {cs : List C} (hp : p cs = none) :
    groups f p cs = none := by
  simp [groups, hp]

/-- The search, with the number of symbols still covered by the last match. -/
def scan (p : Pattern C A) : ℕ → List C → List A
  | _, [] => []
  | k + 1, _ :: cs => scan p k cs
  | 0, c :: cs =>
    match p (c :: cs) with
    | some (a, rest) => a :: scan p (cs.length - rest.length) cs
    | none => scan p 0 cs

def findAll (p : Pattern C A) (cs : List C) : List A := scan p 0 cs

lemma scan_skip (p : Pattern C A) (l cs : List C) : scan p l.length (l ++ cs) = scan p 0 cs := by
  induction l with
  | nil => rfl
  | cons c l ih => exact ih

lemma findAll_skip {p : Pattern C A} {l : List C} (h : ∀ c ∈ l, ∀ cs, p (c :: cs) = none)
    (cs : List C) : findAll p (l ++ cs) = findAll p cs := by
  induction l with
  | nil => rfl
  | cons c l ih =>
    have hc := h c List.mem_cons_self (l ++ cs)
    rw [List.cons_append, findAll, scan, hc]
    exact ih fun d hd => h d (List.mem_cons_of_mem _ hd)

/-- A match at the front is reported and the search goes on behind it. -/
lemma findAll_match {p : Pattern C A} {l cs : List C} {a : A} (hl : l ≠ [])
    (h : p (l ++ cs) = some (a, cs)) : findAll p (l ++ cs) = a :: findAll p cs := by
  cases l with
  | nil => contradiction
  | cons c l =>
    rw [List.cons_append] at h ⊢
    rw [findAll, scan, h]
    have hlen : (l ++ cs).length - cs.length = l.length := by simp
    simp only [hlen, scan_skip, findAll]

end TextScan
