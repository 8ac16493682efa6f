import Mathlib.Data.List.Induction

/-! Histories of commands in which some commands write a part of the state: that part is what the
last one of them has written. Whether a command writes may depend on the state it meets. -/
namespace LastWrite

variable {S C V : Type*} (step : S → C → S) (Writes : S → C → Prop)

/-- No command of the history writes. -/
def Silent (s : S) (cs : List C) : Prop :=
  ∀ before c later, cs = before ++ c :: later → ¬Writes (before.foldl step s) c

/-- The command between the two lists writes, and none of those after it. -/
structure Last (s : S) (before : List C) (c : C) (later : List C) : Prop where
  writes : Writes (before.foldl step s) c
  silent : Silent step Writes (step (before.foldl step s) c) later

variable {step Writes} {s : S}

lemma silent_nil : Silent step Writes s [] := by
  intro before c later h
  simp at h

lemma silent_concat {cs : List C} {c : C} (h : Silent step Writes s cs)
    (hc : ¬Writes (cs.foldl step s) c) : Silent step Writes s (cs ++ [c]) := by
  intro before d later heq
  induction later using List.reverseRecOn with
  | nil =>
    obtain ⟨rfl, hd⟩ := List.append_inj' heq rfl
    obtain rfl := List.singleton_inj.mp hd
    exact hc
  | append_singleton later e _ =>
    rw [← List.cons_append, ← List.append_assoc] at heq
    exact h before d later (List.append_inj' heq rfl).1

/-- A history in which no command writes, or its last command that does. -/
theorem silent_or_last (s : S) (cs : List C) :
    Silent step Writes s cs ∨
      ∃ before c later, cs = before ++ c :: later ∧ Last step Writes s before c later := by
  induction cs using List.reverseRecOn with
  | nil => exact Or.inl silent_nil
  | append_singleton cs d ih =>
    by_cases hd : Writes (cs.foldl step s) d
    · exact Or.inr ⟨cs, d, [], rfl, hd, silent_nil⟩
    · rcases ih with hsilent | ⟨before, c, later, rfl, hlast⟩
      · exact Or.inl (silent_concat hsilent hd)
      · refine Or.inr ⟨before, c, later ++ [d], by simp, hlast.writes, ?_⟩
        apply silent_concat hlast.silent
        rw [List.foldl_append] at hd
        exact hd

section View

variable {view : S → V} (hkeep : ∀ s c, ¬Writes s c → view (step s c) = view s)

include hkeep

lemma view_silent {cs : List C} (h : Silent step Writes s cs) : view (cs.foldl step s) = view s := by
  induction cs generalizing s with
  | nil => rfl
  | cons c cs ih =>
    have hc : ¬Writes s c := h [] c cs rfl
    have hcs : Silent step Writes (step s c) cs := by
      intro before d later heq
      exact h (c :: before) d later (congrArg (List.cons c) heq)
    rw [List.foldl_cons, ih hcs, hkeep s c hc]

/-- What a history leaves, by the last command that writes. -/
theorem view_cases (s : S) (cs : List C) :
    Silent step Writes s cs ∧ view (cs.foldl step s) = view s ∨
      ∃ before c later, cs = before ++ c :: later ∧ Last step Writes s before c later ∧
        view (cs.foldl step s) = view (step (before.foldl step s) c) := by
  rcases @silent_or_last _ _ step Writes s cs with h | ⟨before, c, later, rfl, h⟩
  · exact Or.inl ⟨h, view_silent hkeep h⟩
  · refine Or.inr ⟨before, c, later, rfl, h, ?_⟩
    rw [List.foldl_append, List.foldl_cons]
    exact view_silent hkeep h.silent

end View

end LastWrite
