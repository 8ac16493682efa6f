import Mathlib

/-! Optional events, as writes to an array and as traces over time. A slow source and a
fast one have the same trace when the active cycles of the slow one are the successive
steps of the fast one. -/
namespace EventTrace

variable {E : Type*}

/-- The events among the first `n` cycles, in order. -/
def events (f : ℕ → Option E) (n : ℕ) : List E := (List.range n).filterMap f

@[simp] lemma events_zero (f : ℕ → Option E) : events f 0 = [] := rfl

lemma events_succ (f : ℕ → Option E) (n : ℕ) : events f (n + 1) = events f n ++ (f n).toList := by
  simp only [events, List.range_succ, List.filterMap_append]
  cases h : f n <;> simp [h]

lemma events_mono (f : ℕ → Option E) {m n : ℕ} (h : m ≤ n) : events f m <+: events f n := by
  induction n, h using Nat.le_induction with
  | base => exact List.prefix_rfl
  | succ n _ ih =>
    rw [events_succ]
    exact ih.trans (List.prefix_append _ _)

lemma prefix_of_length {f : ℕ → Option E} {l : List E} {m n : ℕ}
    (h : l <+: events f m) (hl : l.length ≤ (events f n).length) : l <+: events f n := by
  rcases Nat.le_total m n with hmn | hnm
  · exact h.trans (events_mono f hmn)
  · exact List.prefix_of_prefix_length_le h (events_mono f hnm) hl

/-- Cycle `m` of `f` is silent or is step `count p m` of `g`. -/
theorem events_eq_count {f g : ℕ → Option E} {p : ℕ → Prop} [DecidablePred p] {n : ℕ}
    (hp : ∀ m < n, p m → f m = g (Nat.count p m)) (hn : ∀ m < n, ¬p m → f m = none) :
    events f n = events g (Nat.count p n) := by
  induction n with
  | zero => simp
  | succ n ih =>
    have ih := ih (fun m hm => hp m (by omega)) (fun m hm => hn m (by omega))
    rw [events_succ, ih, Nat.count_succ]
    by_cases h : p n
    · rw [if_pos h, events_succ, hp n (by omega) h]
    · rw [if_neg h, hn n (by omega) h]
      simp

/-- A register delays the events by one cycle. -/
lemma events_delay {f g : ℕ → Option E} (h0 : f 0 = none) (h : ∀ n, f (n + 1) = g n) (n : ℕ) :
    events f (n + 1) = events g n := by
  induction n with
  | zero => simp [events_succ, h0]
  | succ n ih => rw [events_succ, ih, h, events_succ]

/-- A register delays a valid bit by one cycle, and with it the count. -/
lemma count_delay {p q : ℕ → Prop} [DecidablePred p] [DecidablePred q] (h0 : ¬q 0)
    (h : ∀ n, q (n + 1) ↔ p n) (n : ℕ) : Nat.count q (n + 1) = Nat.count p n := by
  induction n with
  | zero => simp [Nat.count_succ, h0]
  | succ n ih =>
    rw [Nat.count_succ, ih, Nat.count_succ]
    simp only [h]

section Writes

variable {α β : Type*} [DecidableEq α]

def applyWrite (f : α → β) : Option (α × β) → α → β
  | some (a, v) => Function.update f a v
  | none => f

@[simp] lemma applyWrite_none (f : α → β) : applyWrite f none = f := rfl

@[simp] lemma applyWrite_some (f : α → β) (a : α) (v : β) :
    applyWrite f (some (a, v)) = Function.update f a v := rfl

lemma applyWrite_of_ne {f : α → β} {e : Option (α × β)} {a : α} (h : e.map Prod.fst ≠ some a) :
    applyWrite f e a = f a := by
  cases e with
  | none => rfl
  | some p => exact Function.update_of_ne (fun hc => h (by simp [hc])) _ _

end Writes

end EventTrace
