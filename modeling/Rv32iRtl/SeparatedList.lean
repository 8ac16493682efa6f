import Rv32iRtl.TextScan

/-! Items with separators between them: a pattern for such a list, and what it reads of a
list that was written with `intercalate`. -/
namespace TextScan

variable {C A : Type*}

lemma plus_front {P : C → Bool} {l cs : List C} (hl : l ≠ []) (hP : ∀ c ∈ l, P c = true)
    (hcs : ∀ c ∈ cs.head?, P c = false) : plus P (l ++ cs) = some (l, cs) := by
  cases cs with
  | nil =>
    have ht : l.takeWhile P = l := List.takeWhile_eq_self_iff.mpr hP
    have hd : l.dropWhile P = [] := List.dropWhile_eq_nil_iff.mpr hP
    rw [List.append_nil, plus, ht, hd, if_neg hl]
  | cons c cs => exact plus_append hl hP (hcs c rfl)

/-- One item or more. What passes over a separator is given by its own function. -/
def sepBy (p : Pattern C A) (sep : List C → Option (List C)) : ℕ → Pattern C (List A)
  | 0, _ => none
  | n + 1, cs => (p cs).bind fun m =>
    match sep m.2 with
    | none => some ([m.1], m.2)
    | some rest => (sepBy p sep n rest).map fun m' => (m.1 :: m'.1, m'.2)

variable {p : Pattern C A} {sep : List C → Option (List C)} {s : List C} {write : A → List C}

/-- A list is read back where every item is, up to a place where an item ends and no separator
follows. -/
theorem sepBy_intercalate (Ends : List C → Prop) {as : List A} (hne : as ≠ [])
    (hp : ∀ a ∈ as, ∀ cs, Ends cs → p (write a ++ cs) = some (a, cs))
    (hsep : ∀ a ∈ as, ∀ cs, sep (s ++ (write a ++ cs)) = some (write a ++ cs))
    (hends : ∀ a ∈ as, ∀ cs, Ends (s ++ (write a ++ cs))) {cs : List C} (hcs : Ends cs)
    (hlast : sep cs = none) {n : ℕ} (hn : as.length ≤ n) :
    sepBy p sep n (s.intercalate (as.map write) ++ cs) = some (as, cs) := by
  induction as generalizing n with
  | nil => contradiction
  | cons a as ih =>
    obtain ⟨k, rfl⟩ := Nat.exists_eq_add_of_le' (Nat.one_le_of_lt hn)
    cases as with
    | nil =>
      rw [List.map_cons, List.map_nil, List.intercalate_singleton, sepBy,
        hp a List.mem_cons_self cs hcs, Option.bind_some, hlast]
    | cons b as =>
      have hmem : ∀ x ∈ b :: as, x ∈ a :: b :: as := fun x hx => List.mem_cons_of_mem a hx
      have hrest := ih (List.cons_ne_nil b as) (fun x hx => hp x (hmem x hx))
        (fun x hx => hsep x (hmem x hx)) (fun x hx => hends x (hmem x hx))
        (n := k) (Nat.le_of_succ_le_succ hn)
      obtain ⟨u, hu⟩ : ∃ u, s.intercalate ((b :: as).map write) ++ cs = write b ++ u := by
        cases as with
        | nil => exact ⟨cs, by simp⟩
        | cons c as => exact ⟨s ++ s.intercalate ((c :: as).map write) ++ cs, by simp⟩
      have hb : b ∈ a :: b :: as := hmem b List.mem_cons_self
      rw [hu] at hrest
      rw [List.map_cons, List.map_cons, List.intercalate_cons_cons, ← List.map_cons,
        List.append_assoc, List.append_assoc, hu, sepBy,
        hp a List.mem_cons_self _ (hends b hb u), Option.bind_some, hsep b hb u]
      exact congrArg (Option.map fun m' => (a :: m'.1, m'.2)) hrest

lemma length_le_intercalate {as : List A} (h : ∀ a ∈ as, write a ≠ []) :
    as.length ≤ (s.intercalate (as.map write)).length := by
  induction as with
  | nil => exact Nat.zero_le _
  | cons a as ih =>
    have ha := List.length_pos_iff.mpr (h a List.mem_cons_self)
    have has := ih fun x hx => h x (List.mem_cons_of_mem a hx)
    cases as with
    | nil =>
      rw [List.map_cons, List.map_nil, List.intercalate_singleton]
      exact ha
    | cons b as =>
      rw [List.map_cons, List.map_cons, List.intercalate_cons_cons, ← List.map_cons]
      simp only [List.length_cons, List.length_append] at has ⊢
      omega

lemma infix_intercalate {l : List C} {ls : List (List C)} (h : l ∈ ls) :
    l <:+: s.intercalate ls := by
  induction ls with
  | nil => contradiction
  | cons l' ls ih =>
    cases ls with
    | nil =>
      obtain rfl := List.mem_singleton.mp h
      rw [List.intercalate_singleton]
    | cons l'' ls =>
      rw [List.intercalate_cons_cons]
      rcases List.mem_cons.mp h with rfl | h
      · exact ⟨[], _, by rw [List.nil_append, List.append_assoc]⟩
      · exact (ih h).trans (List.suffix_append _ _).isInfix

lemma length_le_of_mem_intercalate {l : List C} {ls : List (List C)} (h : l ∈ ls) :
    l.length ≤ (s.intercalate ls).length :=
  (infix_intercalate h).length_le

end TextScan
