import Mathlib

/-! Regular expressions with captures, matched by backtracking: the matches at one place
in the order in which a backtracking matcher tries them, and the search for the leftmost
ones. Repetition is of single symbols only. -/
namespace Backtrack

variable {C : Type*}

inductive Regex (C : Type*)
  | empty
  | symbol (P : C → Bool)
  /-- Any number of symbols of a class: the longest match first, or the shortest. -/
  | many (greedy : Bool) (P : C → Bool)
  | seq (r s : Regex C)
  /-- The first alternative is tried first. -/
  | alt (r s : Regex C)
  | group (k : ℕ) (r : Regex C)
  /-- A place with a symbol of the class on one side only. -/
  | boundary (W : C → Bool)
  | ahead (r : Regex C)
  | stop

/-- A match: its text, what the groups captured, in order, and what is left behind it. -/
structure Hit (C : Type*) where
  text : List C
  groups : List (ℕ × List C)
  rest : List C
  deriving DecidableEq, Repr

namespace Hit

def nothing (cs : List C) : Hit C := ⟨[], [], cs⟩

def append (h h' : Hit C) : Hit C := ⟨h.text ++ h'.text, h.groups ++ h'.groups, h'.rest⟩

def capture (k : ℕ) (h : Hit C) : Hit C := { h with groups := h.groups ++ [(k, h.text)] }

/-- What a group captured last. -/
def group (h : Hit C) (k : ℕ) : Option (List C) :=
  ((h.groups.filter fun g => g.1 = k).getLast?).map Prod.snd

/-- The symbol before what is left behind the match. -/
def last (prev : Option C) (h : Hit C) : Option C := h.text.getLast?.or prev

end Hit

namespace Regex

/-- The ways to take symbols of a class from the front, the shortest first. -/
def splits (P : C → Bool) : List C → List (List C × List C)
  | [] => [([], [])]
  | c :: cs => ([], c :: cs) ::
      if P c then (splits P cs).map fun q => (c :: q.1, q.2) else []

/-- All matches at the front of a text, given the symbol before it. -/
def hits : Regex C → Option C → List C → List (Hit C)
  | empty, _, cs => [Hit.nothing cs]
  | symbol _, _, [] => []
  | symbol P, _, c :: cs => if P c then [⟨[c], [], cs⟩] else []
  | many greedy P, _, cs =>
    (if greedy then (splits P cs).reverse else splits P cs).map fun q => ⟨q.1, [], q.2⟩
  | seq r s, prev, cs =>
    (hits r prev cs).flatMap fun h => (hits s (h.last prev) h.rest).map h.append
  | alt r s, prev, cs => hits r prev cs ++ hits s prev cs
  | group k r, prev, cs => (hits r prev cs).map (Hit.capture k)
  | boundary W, prev, cs => if prev.any W = cs.head?.any W then [] else [Hit.nothing cs]
  | ahead r, prev, cs => if hits r prev cs = [] then [] else [Hit.nothing cs]
  | stop, _, cs => if cs ≠ [] then [] else [Hit.nothing cs]

def lit [DecidableEq C] (l : List C) : Regex C := l.foldr (fun c r => seq (symbol (· = c)) r) empty

def plus (P : C → Bool) : Regex C := seq (symbol P) (many true P)

/-- One or no match, rather one. -/
def opt (r : Regex C) : Regex C := alt r empty

/-- The leftmost matches that do not overlap, given how many symbols of the text are still
covered by the last one. Meant for expressions that do not match the empty text. -/
def scan (r : Regex C) : Option C → ℕ → List C → List (Hit C)
  | prev, 0, [] => (r.hits prev []).head?.toList
  | _, _ + 1, [] => []
  | _, n + 1, c :: cs => scan r (some c) n cs
  | prev, 0, c :: cs =>
    match (r.hits prev (c :: cs)).head? with
    | some h => h :: scan r (some c) (h.text.length - 1) cs
    | none => scan r (some c) 0 cs

def findAll (r : Regex C) (cs : List C) : List (Hit C) := r.scan none 0 cs

def search (r : Regex C) (cs : List C) : Option (Hit C) := (r.findAll cs).head?

/-- The text before the first match. -/
def before (r : Regex C) (cs : List C) : List C :=
  match r.search cs with
  | some h => cs.take (cs.length - (h.text.length + h.rest.length))
  | none => cs

lemma append_of_mem_splits {P : C → Bool} {cs : List C} {q : List C × List C}
    (hq : q ∈ splits P cs) : cs = q.1 ++ q.2 := by
  induction cs generalizing q with
  | nil =>
    obtain rfl := List.mem_singleton.mp hq
    rfl
  | cons c cs ih =>
    rcases List.mem_cons.mp hq with rfl | hq
    · rfl
    · split_ifs at hq
      · obtain ⟨q', hq', rfl⟩ := List.mem_map.mp hq
        rw [ih hq']
        rfl
      · contradiction

lemma mem_many {greedy : Bool} {P : C → Bool} {prev : Option C} {cs : List C} {h : Hit C}
    (hm : h ∈ (many greedy P).hits prev cs) :
    ∃ q ∈ splits P cs, h = ⟨q.1, [], q.2⟩ := by
  obtain ⟨q, hq, rfl⟩ := List.mem_map.mp hm
  refine ⟨q, ?_, rfl⟩
  split_ifs at hq
  · exact List.mem_reverse.mp hq
  · exact hq

lemma eq_nothing {p : Prop} [Decidable p] {cs : List C} {h : Hit C}
    (hm : h ∈ if p then [] else [Hit.nothing cs]) : h = Hit.nothing cs := by
  split_ifs at hm
  · contradiction
  · exact List.mem_singleton.mp hm

lemma hits_split {r : Regex C} {prev : Option C} {cs : List C} {h : Hit C}
    (hm : h ∈ r.hits prev cs) : cs = h.text ++ h.rest := by
  induction r generalizing prev cs h with
  | empty =>
    obtain rfl := List.mem_singleton.mp hm
    rfl
  | symbol P =>
    cases cs with
    | nil => contradiction
    | cons c cs =>
      rw [hits] at hm
      split_ifs at hm
      · obtain rfl := List.mem_singleton.mp hm
        rfl
      · contradiction
  | many greedy P =>
    obtain ⟨q, hq, rfl⟩ := mem_many hm
    exact append_of_mem_splits hq
  | seq r s ihr ihs =>
    obtain ⟨h1, hm1, hm2⟩ := List.mem_flatMap.mp hm
    obtain ⟨h2, hm3, rfl⟩ := List.mem_map.mp hm2
    rw [ihr hm1, ihs hm3]
    exact (List.append_assoc _ _ _).symm
  | alt r s ihr ihs =>
    rcases List.mem_append.mp hm with hm | hm
    · exact ihr hm
    · exact ihs hm
  | group k r ih =>
    obtain ⟨h1, hm1, rfl⟩ := List.mem_map.mp hm
    change cs = h1.text ++ h1.rest
    exact ih hm1
  | boundary | ahead | stop =>
    obtain rfl := eq_nothing hm
    rfl

section Trailing

variable {T : C → Bool}

/-- The expression does not look at the symbols of `T` that follow its matches. -/
def Steady (T : C → Bool) : Regex C → Prop
  | seq r s => Steady T r ∧ Steady T s
  | alt r s => Steady T r ∧ Steady T s
  | group _ r => Steady T r
  | boundary W => ∀ c, T c = true → W c = false
  | ahead _ => False
  | stop => False
  | _ => True

def extend (n : List C) (h : Hit C) : Hit C := { h with rest := h.rest ++ n }

lemma filter_map_of {A B : Type*} {f : A → B} {p : B → Bool} {q : A → Bool} {l : List A}
    (h : ∀ a ∈ l, p (f a) = q a) : (l.map f).filter p = (l.filter q).map f := by
  rw [List.filter_map]
  exact congrArg (List.map f) (List.filter_congr h)

lemma splits_append (P : C → Bool) (s n : List C) :
    (splits P (s ++ n)).filter (fun q => q.1.length ≤ s.length) =
      (splits P s).map fun q => (q.1, q.2 ++ n) := by
  induction s with
  | nil =>
    have hlong : ∀ (l : List (List C × List C)) (c : C),
        (l.map fun q : List C × List C => (c :: q.1, q.2)).filter
          (fun q => q.1.length ≤ 0) = [] := by
      intro l c
      rw [List.filter_eq_nil_iff]
      intro q hq
      obtain ⟨q', -, rfl⟩ := List.mem_map.mp hq
      simp
    cases n with
    | nil => rfl
    | cons c n =>
      simp only [List.nil_append, splits, List.length_nil]
      rw [List.filter_cons_of_pos (by simp)]
      split_ifs
      · rw [hlong]
        rfl
      · rfl
  | cons c s ih =>
    simp only [List.cons_append, splits, List.map_cons]
    rw [List.filter_cons_of_pos (by simp)]
    split_ifs
    · rw [filter_map_of (q := fun q => q.1.length ≤ s.length) fun q _ => by simp, ih,
        List.map_map, List.map_map]
      rfl
    · rfl

lemma filter_flatMap {A B : Type*} (p : B → Bool) (f : A → List B) (l : List A) :
    (l.flatMap f).filter p = l.flatMap fun a => (f a).filter p := by
  induction l with
  | nil => rfl
  | cons a l ih => rw [List.flatMap_cons, List.filter_append, ih, List.flatMap_cons]

/-- Elements that contribute nothing may be left out first. -/
lemma flatMap_filter {A B : Type*} {p : A → Bool} {f : A → List B} {l : List A}
    (h : ∀ a ∈ l, p a = false → f a = []) : l.flatMap f = (l.filter p).flatMap f := by
  induction l with
  | nil => rfl
  | cons a l ih =>
    have ih := ih fun b hb => h b (List.mem_cons_of_mem a hb)
    rw [List.flatMap_cons, ih]
    by_cases ha : p a = true
    · rw [List.filter_cons_of_pos ha, List.flatMap_cons]
    · rw [List.filter_cons_of_neg ha, h a List.mem_cons_self (Bool.eq_false_iff.mpr ha),
        List.nil_append]

/-- Matches that end within `s` are found alike, whatever symbols of `T` follow it. -/
lemma hits_extend {r : Regex C} (hr : r.Steady T) {s n : List C} (hn : ∀ c ∈ n, T c = true)
    (prev : Option C) :
    (r.hits prev (s ++ n)).filter (fun h => h.text.length ≤ s.length) =
      (r.hits prev s).map (extend n) := by
  induction r generalizing s prev with
  | empty => simp [hits, Hit.nothing, extend]
  | symbol P =>
    cases s with
    | nil =>
      cases n with
      | nil => rfl
      | cons c n =>
        simp only [List.nil_append, hits]
        split_ifs <;> rfl
    | cons c s =>
      simp only [List.cons_append, hits]
      split_ifs <;> simp [extend]
  | many greedy P =>
    have hs := splits_append P s n
    have hrev : (if greedy then (splits P (s ++ n)).reverse else splits P (s ++ n)).filter
        (fun q => q.1.length ≤ s.length) =
        (if greedy then (splits P s).reverse else splits P s).map fun q => (q.1, q.2 ++ n) := by
      split_ifs
      · rw [List.filter_reverse, hs, List.map_reverse]
      · exact hs
    simp only [hits]
    rw [filter_map_of (q := fun q => q.1.length ≤ s.length) fun q _ => rfl, hrev, List.map_map,
      List.map_map]
    rfl
  | seq r t ihr iht =>
    have hfar : ∀ h ∈ r.hits prev (s ++ n), decide (h.text.length ≤ s.length) = false →
        ((t.hits (h.last prev) h.rest).map h.append).filter
          (fun h => h.text.length ≤ s.length) = [] := by
      intro h _ hlen
      rw [List.filter_eq_nil_iff]
      intro h' hm
      obtain ⟨h2, -, rfl⟩ := List.mem_map.mp hm
      have hlen := of_decide_eq_false hlen
      simp only [Hit.append, List.length_append, decide_eq_true_eq]
      omega
    simp only [hits]
    rw [filter_flatMap, flatMap_filter hfar, ihr hr.1, List.flatMap_map, List.map_flatMap]
    refine List.flatMap_congr fun h hm => ?_
    have hlen : s.length = h.text.length + h.rest.length := by
      rw [hits_split hm, List.length_append]
    rw [filter_map_of (q := fun h' => h'.text.length ≤ h.rest.length)]
    · change ((t.hits (h.last prev) (h.rest ++ n)).filter _).map _ = _
      rw [iht hr.2, List.map_map, List.map_map]
      rfl
    · intro h' _
      simp only [Hit.append, extend, List.length_append, decide_eq_decide]
      omega
  | alt r t ihr iht =>
    simp only [hits, List.filter_append, List.map_append]
    rw [ihr hr.1, iht hr.2]
  | group k r ih =>
    simp only [hits]
    rw [filter_map_of (q := fun h => h.text.length ≤ s.length) fun h _ => rfl, ih hr,
      List.map_map, List.map_map]
    rfl
  | boundary W =>
    have hhead : (s ++ n).head?.any W = s.head?.any W := by
      cases s with
      | nil =>
        cases n with
        | nil => rfl
        | cons c n => simpa using hr c (hn c List.mem_cons_self)
      | cons c s => rfl
    simp only [hits, hhead]
    split_ifs <;> simp [Hit.nothing, extend]
  | ahead r _ => exact hr.elim
  | stop => exact hr.elim

/-- No match of the expression is empty. -/
def Consumes : Regex C → Prop
  | symbol _ => True
  | seq r s => Consumes r ∨ Consumes s
  | alt r s => Consumes r ∧ Consumes s
  | group _ r => Consumes r
  | _ => False

/-- No match of the expression ends with a symbol of `T`. -/
def EndsOutside (T : C → Bool) : Regex C → Prop
  | symbol P => ∀ c, P c = true → T c = false
  | many _ P => ∀ c, P c = true → T c = false
  | seq r s => EndsOutside T s ∧ (EndsOutside T r ∨ Consumes s)
  | alt r s => EndsOutside T r ∧ EndsOutside T s
  | group _ r => EndsOutside T r
  | _ => True

lemma text_ne_nil {r : Regex C} (hr : r.Consumes) {prev : Option C} {cs : List C} {h : Hit C}
    (hm : h ∈ r.hits prev cs) : h.text ≠ [] := by
  induction r generalizing prev cs h with
  | symbol P =>
    cases cs with
    | nil => contradiction
    | cons c cs =>
      rw [hits] at hm
      split_ifs at hm
      · obtain rfl := List.mem_singleton.mp hm
        exact List.cons_ne_nil c []
      · contradiction
  | seq r s ihr ihs =>
    obtain ⟨h1, hm1, hm2⟩ := List.mem_flatMap.mp hm
    obtain ⟨h2, hm3, rfl⟩ := List.mem_map.mp hm2
    rcases hr with hr | hr
    · exact List.append_ne_nil_of_left_ne_nil (ihr hr hm1) _
    · exact List.append_ne_nil_of_right_ne_nil _ (ihs hr hm3)
  | alt r s ihr ihs =>
    rcases List.mem_append.mp hm with hm | hm
    · exact ihr hr.1 hm
    · exact ihs hr.2 hm
  | group k r ih =>
    obtain ⟨h1, hm1, rfl⟩ := List.mem_map.mp hm
    have htext := ih hr hm1
    exact htext
  | empty | many | boundary | ahead | stop => exact hr.elim

lemma of_mem_splits {P : C → Bool} {cs : List C} {q : List C × List C} (hq : q ∈ splits P cs) :
    ∀ c ∈ q.1, P c = true := by
  induction cs generalizing q with
  | nil =>
    obtain rfl := List.mem_singleton.mp hq
    simp
  | cons c cs ih =>
    rcases List.mem_cons.mp hq with rfl | hq
    · simp
    · split_ifs at hq with hc
      · obtain ⟨q', hq', rfl⟩ := List.mem_map.mp hq
        exact List.forall_mem_cons.mpr ⟨hc, ih hq'⟩
      · contradiction

lemma last_outside {r : Regex C} (hr : r.EndsOutside T) {prev : Option C} {cs : List C} {h : Hit C}
    (hm : h ∈ r.hits prev cs) : ∀ c ∈ h.text.getLast?, T c = false := by
  induction r generalizing prev cs h with
  | symbol P =>
    cases cs with
    | nil => contradiction
    | cons c cs =>
      rw [hits] at hm
      split_ifs at hm with hc
      · obtain rfl := List.mem_singleton.mp hm
        intro d hd
        obtain rfl : c = d := by simpa using hd
        exact hr c hc
      · contradiction
  | many greedy P =>
    obtain ⟨q, hq, rfl⟩ := mem_many hm
    exact fun c hc => hr c (of_mem_splits hq c (List.mem_of_getLast? hc))
  | seq r s ihr ihs =>
    obtain ⟨h1, hm1, hm2⟩ := List.mem_flatMap.mp hm
    obtain ⟨h2, hm3, rfl⟩ := List.mem_map.mp hm2
    intro c hc
    change c ∈ (h1.text ++ h2.text).getLast? at hc
    rw [List.getLast?_append] at hc
    cases hl : h2.text.getLast? with
    | some d =>
      obtain rfl : d = c := by simpa [hl] using hc
      exact ihs hr.1 hm3 d hl
    | none =>
      have hnil : h2.text = [] := List.getLast?_eq_none_iff.mp hl
      rcases hr.2 with hr | hr
      · exact ihr hr hm1 c (by simpa [hl] using hc)
      · exact absurd hnil (text_ne_nil hr hm3)
  | alt r s ihr ihs =>
    rcases List.mem_append.mp hm with hm | hm
    · exact ihr hr.1 hm
    · exact ihs hr.2 hm
  | group k r ih =>
    obtain ⟨h1, hm1, rfl⟩ := List.mem_map.mp hm
    have htext := ih hr hm1
    exact htext
  | empty =>
    obtain rfl := List.mem_singleton.mp hm
    simp [Hit.nothing]
  | boundary | ahead | stop =>
    obtain rfl := eq_nothing hm
    simp [Hit.nothing]

section Literals

variable [DecidableEq C]

lemma steady_lit (l : List C) : (lit l).Steady T := by
  induction l with
  | nil => exact trivial
  | cons c l ih => exact ⟨trivial, ih⟩

lemma consumes_lit {l : List C} (hl : l ≠ []) : (lit l).Consumes := by
  cases l with
  | nil => contradiction
  | cons c l => exact Or.inl trivial

lemma endsOutside_lit {l : List C} (h : ∀ c ∈ l, T c = false) : (lit l).EndsOutside T := by
  induction l with
  | nil => exact trivial
  | cons c l ih =>
    have hc : (symbol (· = c)).EndsOutside T := by
      intro d hd
      rw [of_decide_eq_true hd]
      exact h c List.mem_cons_self
    exact ⟨ih fun d hd => h d (List.mem_cons_of_mem c hd), Or.inl hc⟩

end Literals

variable {r : Regex C}

lemma hits_trailing (hs : r.Steady T) (he : r.EndsOutside T) {n : List C}
    (hn : ∀ c ∈ n, T c = true) (prev : Option C) (s : List C) :
    r.hits prev (s ++ n) = (r.hits prev s).map (extend n) := by
  rw [← hits_extend hs hn, List.filter_eq_self.mpr]
  intro h hm
  by_contra hlong
  have hlen : s.length < h.text.length := by simpa using hlong
  have hpre : h.text <+: s ++ n := ⟨h.rest, (hits_split hm).symm⟩
  obtain ⟨m, hm'⟩ := List.prefix_of_prefix_length_le (List.prefix_append s n) hpre (by omega)
  have hne : m ≠ [] := by
    rintro rfl
    rw [← hm', List.append_nil] at hlen
    omega
  have hsub : m <+: n := by
    rw [← hm'] at hpre
    exact (List.prefix_append_right_inj s).mp hpre
  have hlast : m.getLast hne ∈ h.text.getLast? := by
    rw [← hm', List.getLast?_append_of_ne_nil _ hne]
    exact List.getLast?_eq_some_getLast hne
  have hT := hn _ (hsub.subset (List.getLast_mem hne))
  rw [last_outside he hm _ hlast] at hT
  contradiction

lemma hits_nil (hc : r.Consumes) (prev : Option C) : r.hits prev [] = [] := by
  rw [List.eq_nil_iff_forall_not_mem]
  intro h hm
  exact text_ne_nil hc hm (List.append_eq_nil_iff.mp (hits_split hm).symm).1

lemma scan_trailing_nil (hc : r.Consumes) (hs : r.Steady T) (he : r.EndsOutside T) {n : List C}
    (hn : ∀ c ∈ n, T c = true) (prev : Option C) : r.scan prev 0 n = [] := by
  induction n generalizing prev with
  | nil => simp [scan, hits_nil hc]
  | cons c n ih =>
    have hh : r.hits prev (c :: n) = [] := by
      simpa [hits_nil hc] using hits_trailing hs he hn prev []
    rw [scan, hh]
    exact ih (fun d hd => hn d (List.mem_cons_of_mem c hd)) _

lemma scan_trailing (hc : r.Consumes) (hs : r.Steady T) (he : r.EndsOutside T) {n : List C}
    (hn : ∀ c ∈ n, T c = true) (s : List C) {k : ℕ} (hk : k ≤ s.length) (prev : Option C) :
    r.scan prev k (s ++ n) = (r.scan prev k s).map (extend n) := by
  induction s generalizing prev k with
  | nil =>
    obtain rfl := Nat.le_zero.mp hk
    rw [List.nil_append, scan_trailing_nil hc hs he hn, scan, hits_nil hc]
    rfl
  | cons c s ih =>
    cases k with
    | succ k => exact ih (Nat.le_of_succ_le_succ hk) _
    | zero =>
      have hh := hits_trailing hs he hn prev (c :: s)
      rw [List.cons_append] at hh ⊢
      rw [scan, hh, List.head?_map, scan]
      cases hf : (r.hits prev (c :: s)).head? with
      | none => exact ih (Nat.zero_le _) _
      | some h =>
        have hlen : h.text.length - 1 ≤ s.length := by
          have := congrArg List.length (hits_split (List.mem_of_head? hf))
          rw [List.length_append, List.length_cons] at this
          omega
        change extend n h :: r.scan (some c) (h.text.length - 1) (s ++ n) = _
        rw [ih hlen]
        rfl

/-- Trailing symbols that no match ends with change no match of the text. -/
theorem findAll_trailing (hc : r.Consumes) (hs : r.Steady T) (he : r.EndsOutside T) {n : List C}
    (hn : ∀ c ∈ n, T c = true) (s : List C) :
    r.findAll (s ++ n) = (r.findAll s).map (extend n) :=
  scan_trailing hc hs he hn s (Nat.zero_le _) none

lemma search_trailing (hc : r.Consumes) (hs : r.Steady T) (he : r.EndsOutside T) {n : List C}
    (hn : ∀ c ∈ n, T c = true) (s : List C) :
    r.search (s ++ n) = (r.search s).map (extend n) := by
  rw [search, findAll_trailing hc hs he hn, List.head?_map, search]

end Trailing

end Regex

end Backtrack
