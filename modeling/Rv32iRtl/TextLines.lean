import Mathlib

/-! Cutting a text into lines and into words, over any alphabet: a class of symbols ends
a line (of which a pair such as CR LF ends only one), another class separates words. -/
namespace TextLines

variable {C : Type*}

/-- Drop the first symbol of every pair that counts as one line end. -/
def joinPairs (pair : C → C → Bool) : List C → List C
  | c :: d :: cs => if pair c d then joinPairs pair (d :: cs) else c :: joinPairs pair (d :: cs)
  | cs => cs

/-- The pieces between line ends. Nothing after the last line end is no line. -/
def lines (brk : C → Bool) (pair : C → C → Bool) (cs : List C) : List (List C) :=
  let pieces := (joinPairs pair cs).splitOnP brk
  if pieces.getLastD [] = [] then pieces.dropLast else pieces

def words (sp : C → Bool) (cs : List C) : List (List C) := (cs.splitOnP sp).filter (· ≠ [])

def strip (sp : C → Bool) (cs : List C) : List C := (cs.dropWhile sp).rdropWhile sp

variable {brk sp : C → Bool} {pair : C → C → Bool}

lemma joinPairs_append {l : List C} (h : ∀ c ∈ l, ∀ d, pair c d = false) (cs : List C) :
    joinPairs pair (l ++ cs) = l ++ joinPairs pair cs := by
  induction l with
  | nil => rfl
  | cons c l ih =>
    have ih := ih fun d hd => h d (List.mem_cons_of_mem _ hd)
    have hc := h c List.mem_cons_self
    rw [List.cons_append, List.cons_append, ← ih]
    cases hl : l ++ cs with
    | nil => rfl
    | cons d ds => rw [joinPairs, if_neg (by simp [hc d])]

/-- A line end is one break symbol, or the two symbols of a pair. -/
def IsLineEnd (brk : C → Bool) (pair : C → C → Bool) (e : List C) : Prop :=
  ∃ c, brk c = true ∧ (∀ d, pair c d = false) ∧ (e = [c] ∨ ∃ b, pair b c = true ∧ e = [b, c])

lemma joinPairs_lineEnd {e : List C} (he : IsLineEnd brk pair e) :
    ∃ c, brk c = true ∧ ∀ cs, joinPairs pair (e ++ cs) = c :: joinPairs pair cs := by
  obtain ⟨c, hc, hp, he⟩ := he
  have hcs : ∀ cs, joinPairs pair (c :: cs) = c :: joinPairs pair cs := by
    intro cs
    exact joinPairs_append (l := [c]) (fun d hd => by simpa [List.mem_singleton.mp hd] using hp) cs
  refine ⟨c, hc, fun cs => ?_⟩
  rcases he with rfl | ⟨b, hb, rfl⟩
  · exact hcs cs
  · rw [← hcs]
    simp [joinPairs, hb]

lemma lines_nil : lines brk pair [] = [] := by simp [lines, joinPairs]

lemma lines_last {l : List C} (hb : ∀ c ∈ l, brk c = false) (hp : ∀ c ∈ l, ∀ d, pair c d = false)
    (hl : l ≠ []) : lines brk pair l = [l] := by
  have hj : joinPairs pair l = l := by simpa [joinPairs] using joinPairs_append hp []
  simp [lines, hj, List.splitOnP_eq_singleton hb, hl]

lemma lines_cons {l e : List C} (hb : ∀ c ∈ l, brk c = false)
    (hp : ∀ c ∈ l, ∀ d, pair c d = false) (he : IsLineEnd brk pair e) (cs : List C) :
    lines brk pair (l ++ (e ++ cs)) = l :: lines brk pair cs := by
  obtain ⟨c, hc, hj⟩ := joinPairs_lineEnd he
  obtain ⟨p, ps, hps⟩ := List.exists_cons_of_ne_nil
    (List.splitOnP_ne_nil brk (joinPairs pair cs))
  simp only [lines]
  rw [joinPairs_append hp, hj, List.splitOnP_append_cons_of_forall_mem hb c hc, hps]
  split_ifs with h1 h2 h2
  · rfl
  · exact absurd h1 h2
  · exact absurd h2 h1
  · rfl

lemma words_append (x y : List C) {c : C} (hc : sp c = true) :
    words sp (x ++ c :: y) = words sp x ++ words sp y := by
  rw [words, List.splitOnP_append_cons x y hc, List.filter_append, words, words]

@[simp] lemma words_nil : words sp [] = [] := by simp [words]

lemma words_cons (y : List C) {c : C} (hc : sp c = true) : words sp (c :: y) = words sp y := by
  simpa using words_append [] y hc

lemma words_singleton {w : List C} (hw : w ≠ []) (h : ∀ c ∈ w, sp c = false) :
    words sp w = [w] := by
  simp [words, List.splitOnP_eq_singleton h, hw]

/-- A text that does not start with a space starts with its first word. -/
lemma words_head (cs : List C) {c : C} (hc : sp c = false) :
    ∃ w ws, words sp (c :: cs) = (c :: w) :: ws := by
  obtain ⟨w, ws, hw⟩ := List.exists_cons_of_ne_nil (List.splitOnP_ne_nil sp cs)
  refine ⟨w, ws.filter (· ≠ []), ?_⟩
  rw [words, List.splitOnP_cons_eq_if_modifyHead, if_neg (by simp [hc]), hw]
  simp

lemma words_spaces {l : List C} (h : ∀ c ∈ l, sp c = true) (cs : List C) :
    words sp (l ++ cs) = words sp cs := by
  induction l with
  | nil => rfl
  | cons c l ih =>
    rw [List.cons_append, words_cons _ (h c List.mem_cons_self)]
    exact ih fun d hd => h d (List.mem_cons_of_mem _ hd)

lemma words_append_spaces {l : List C} (h : ∀ c ∈ l, sp c = true) (cs : List C) :
    words sp (cs ++ l) = words sp cs := by
  cases l with
  | nil => rw [List.append_nil]
  | cons c l =>
    have hl := words_spaces (fun d hd => h d (List.mem_cons_of_mem c hd)) []
    rw [List.append_nil] at hl
    rw [words_append cs l (h c List.mem_cons_self), hl, words_nil, List.append_nil]

lemma words_token {w l : List C} (hw : w ≠ []) (h : ∀ c ∈ w, sp c = false) (hl : l ≠ [])
    (hs : ∀ c ∈ l, sp c = true) (cs : List C) :
    words sp (w ++ (l ++ cs)) = w :: words sp cs := by
  cases l with
  | nil => contradiction
  | cons c l =>
    rw [List.cons_append, words_append w _ (hs c List.mem_cons_self), words_singleton hw h,
      words_spaces fun d hd => hs d (List.mem_cons_of_mem c hd)]
    rfl

lemma strip_append (l cs r : List C) (hl : ∀ c ∈ l, sp c = true) (hr : ∀ c ∈ r, sp c = true)
    (h : ∀ c ∈ cs.head?, sp c = false) (h' : ∀ c ∈ cs.getLast?, sp c = false) :
    strip sp (l ++ (cs ++ r)) = cs := by
  cases cs with
  | nil =>
    have hlr : ∀ c ∈ l ++ r, sp c = true := by
      intro c hc
      exact (List.mem_append.mp hc).elim (hl c) (hr c)
    rw [List.nil_append, strip, List.dropWhile_eq_nil_iff.mpr hlr, List.rdropWhile_nil]
  | cons c cs =>
    have hd : (l ++ (c :: cs ++ r)).dropWhile sp = c :: cs ++ r := by
      rw [List.dropWhile_append_of_pos hl, List.cons_append,
        List.dropWhile_cons_of_neg (by simp [h c rfl])]
    have hlast : sp ((c :: cs).getLast (List.cons_ne_nil c cs)) = false :=
      h' _ (List.getLast?_eq_some_getLast _)
    rw [strip, hd, List.rdropWhile, List.reverse_append,
      List.dropWhile_append_of_pos (by simpa using hr)]
    exact List.rdropWhile_eq_self_iff.mpr fun hne => by simp [hlast]

lemma strip_eq_self {cs : List C} (h : ∀ c ∈ cs.head?, sp c = false)
    (h' : ∀ c ∈ cs.getLast?, sp c = false) : strip sp cs = cs := by
  simpa using strip_append [] cs [] (by simp) (by simp) h h'

lemma strip_split (cs : List C) : ∃ l r, cs = l ++ (strip sp cs ++ r) ∧ (∀ c ∈ l, sp c = true) ∧
    ∀ c ∈ r, sp c = true := by
  refine ⟨cs.takeWhile sp, (cs.dropWhile sp).rtakeWhile sp, ?_, fun c hc => ?_, fun c hc => ?_⟩
  · rw [strip, List.rdropWhile_append_rtakeWhile, List.takeWhile_append_dropWhile]
  · exact List.mem_takeWhile_imp hc
  · exact List.mem_rtakeWhile_imp hc

lemma strip_spaces {l : List C} (hl : ∀ c ∈ l, sp c = true) (cs : List C) :
    strip sp (l ++ cs) = strip sp cs := by
  rw [strip, List.dropWhile_append_of_pos hl, strip]

/-- What is no space is kept. -/
lemma countP_strip {P : C → Bool} (hP : ∀ c, sp c = true → P c = false) (cs : List C) :
    (strip sp cs).countP P = cs.countP P := by
  have hzero : ∀ {l : List C}, (∀ c ∈ l, sp c = true) → l.countP P = 0 := by
    intro l hl
    rw [List.countP_eq_zero]
    intro c hc
    rw [hP c (hl c hc)]
    exact Bool.false_ne_true
  obtain ⟨l, r, hcs, hl, hr⟩ := @strip_split _ sp cs
  conv_rhs => rw [hcs]
  rw [List.countP_append, List.countP_append, hzero hl, hzero hr, Nat.zero_add, Nat.add_zero]

lemma words_strip (cs : List C) : words sp (strip sp cs) = words sp cs := by
  have hf : ∀ c ∈ cs.takeWhile sp, sp c = true := fun c hc => List.mem_takeWhile_imp hc
  have hb : ∀ c ∈ (cs.dropWhile sp).rtakeWhile sp, sp c = true :=
    fun c hc => List.mem_rtakeWhile_imp hc
  have hfront := words_spaces hf (cs.dropWhile sp)
  have hback := words_append_spaces hb ((cs.dropWhile sp).rdropWhile sp)
  rw [List.takeWhile_append_dropWhile] at hfront
  rw [List.rdropWhile_append_rtakeWhile] at hback
  rw [strip, ← hback, hfront]

section Infix

variable {m : List C}

lemma infix_break (hne : m ≠ []) (hm : ∀ c ∈ m, brk c = false) (x y : List C) {c : C}
    (hc : brk c = true) : m <:+: x ++ c :: y ↔ m <:+: x ∨ m <:+: y := by
  have hcm : c ∉ m := by
    intro h
    rw [hm c h] at hc
    contradiction
  constructor
  · intro h
    rcases List.infix_append_iff.mp h with h | h | ⟨l, l', rfl, hl, hl'⟩
    · exact Or.inl h
    · rcases List.infix_cons_iff.mp h with h | h
      · rcases List.prefix_cons_iff.mp h with rfl | ⟨m', rfl, -⟩
        · contradiction
        · exact absurd List.mem_cons_self hcm
      · exact Or.inr h
    · rcases List.prefix_cons_iff.mp hl' with rfl | ⟨m', rfl, -⟩
      · rw [List.append_nil]
        exact Or.inl hl.isInfix
      · exact absurd (List.mem_append_right l List.mem_cons_self) hcm
  · rintro (h | h)
    · exact h.trans (List.prefix_append x _).isInfix
    · exact h.trans ((List.suffix_cons c y).trans (List.suffix_append x _)).isInfix

/-- Breaks around a text do not matter. -/
lemma infix_append_breaks (hne : m ≠ []) (hm : ∀ c ∈ m, brk c = false) {n : List C}
    (hn : ∀ c ∈ n, brk c = true) (x : List C) : m <:+: x ++ n ↔ m <:+: x := by
  induction n generalizing x with
  | nil => rw [List.append_nil]
  | cons c n ih =>
    have ih := ih (fun d hd => hn d (List.mem_cons_of_mem c hd)) []
    rw [List.nil_append, List.infix_nil] at ih
    rw [infix_break hne hm x n (hn c List.mem_cons_self), ih, or_iff_left hne]

lemma infix_breaks_append (hne : m ≠ []) (hm : ∀ c ∈ m, brk c = false) {n : List C}
    (hn : ∀ c ∈ n, brk c = true) (x : List C) : m <:+: n ++ x ↔ m <:+: x := by
  induction n with
  | nil => rfl
  | cons c n ih =>
    have hbreak := infix_break hne hm [] (n ++ x) (hn c List.mem_cons_self)
    rw [List.infix_nil, or_iff_right hne, ih fun d hd => hn d (List.mem_cons_of_mem c hd)] at hbreak
    exact hbreak

lemma infix_strip (hne : m ≠ []) (hm : ∀ c ∈ m, sp c = false) (cs : List C) :
    m <:+: strip sp cs ↔ m <:+: cs := by
  obtain ⟨l, r, hcs, hl, hr⟩ := @strip_split _ sp cs
  conv_rhs => rw [hcs]
  rw [infix_breaks_append hne hm hl, infix_append_breaks hne hm hr]

lemma infix_splitOnP (hne : m ≠ []) (hm : ∀ c ∈ m, brk c = false) (cs : List C) {x : List C}
    (hx : ∀ c ∈ x, brk c = false) :
    m <:+: x ++ cs ↔ ∃ l ∈ (x ++ cs).splitOnP brk, m <:+: l := by
  induction cs generalizing x with
  | nil => simp [List.splitOnP_eq_singleton hx]
  | cons c cs ih =>
    by_cases hc : brk c = true
    · have hcs := ih (x := []) (by simp)
      rw [List.nil_append] at hcs
      rw [infix_break hne hm x cs hc, List.splitOnP_append_cons_of_forall_mem hx c hc, hcs]
      simp
    · have hxc : ∀ d ∈ x ++ [c], brk d = false := by
        intro d hd
        rcases List.mem_append.mp hd with hd | hd
        · exact hx d hd
        · rw [List.mem_singleton.mp hd]
          exact Bool.eq_false_iff.mpr hc
      simpa using ih hxc

lemma infix_joinPairs (hne : m ≠ []) (hm : ∀ c ∈ m, brk c = false)
    (hp : ∀ c d, pair c d = true → brk c = true ∧ brk d = true) (cs : List C) (x : List C) :
    m <:+: x ++ joinPairs pair cs ↔ m <:+: x ++ cs := by
  fun_induction joinPairs pair cs generalizing x with
  | case1 c d cs h ih =>
    obtain ⟨hc, hd⟩ := hp c d h
    have hnil : ¬m <:+: [] := fun h => hne (List.infix_nil.mp h)
    have hdcs := infix_break hne hm [] cs hd
    rw [List.nil_append, or_iff_right hnil] at hdcs
    rw [ih, infix_break hne hm x _ hc, hdcs, infix_break hne hm x cs hd]
  | case2 c d cs h ih =>
    rw [List.append_cons, ih, List.append_assoc]
    rfl
  | case3 cs h => rfl

/-- A word without line ends is found in the lines of a text if it is found in the text. -/
theorem infix_lines (hne : m ≠ []) (hm : ∀ c ∈ m, brk c = false)
    (hp : ∀ c d, pair c d = true → brk c = true ∧ brk d = true) (cs : List C) :
    (∃ l ∈ lines brk pair cs, m <:+: l) ↔ m <:+: cs := by
  have hsplit := infix_splitOnP hne hm (joinPairs pair cs) (x := []) (by simp)
  have hjoin := infix_joinPairs hne hm hp cs []
  rw [List.nil_append] at hsplit
  rw [List.nil_append, List.nil_append] at hjoin
  rw [← hjoin, hsplit, lines]
  obtain ⟨ps, l, hps⟩ := List.eq_nil_or_concat _ |>.resolve_left
    (List.splitOnP_ne_nil brk (joinPairs pair cs))
  rw [hps]
  split_ifs with hlast
  · obtain rfl : l = [] := by simpa using hlast
    simp [hne]
  · rfl

end Infix

end TextLines
