import Rv32iRtl.EventTrace

/-! An array with the writes of the last three steps kept apart from it: what a reader
finds depends on which of them reach him. -/
namespace PendingWrites

open EventTrace

variable {α β : Type*}

/-- `settled` is the array before the three writes. -/
structure Window (α β : Type*) where
  settled : α → β
  oldest : Option (α × β)
  middle : Option (α × β)
  newest : Option (α × β)

namespace Window

def still (f : α → β) : Window α β := ⟨f, none, none, none⟩

variable [DecidableEq α]

/-- One step: the oldest write settles and `e` is the newest. -/
def push (w : Window α β) (e : Option (α × β)) : Window α β :=
  ⟨applyWrite w.settled w.oldest, w.middle, w.newest, e⟩

/-- The array with all writes done. -/
def now (w : Window α β) : α → β :=
  applyWrite (applyWrite (applyWrite w.settled w.oldest) w.middle) w.newest

/-- The array for a reader that the oldest write does not reach. -/
def bypass (w : Window α β) : α → β := applyWrite (applyWrite w.settled w.middle) w.newest

/-- The oldest write is the last one to `a`. -/
def Missed (w : Window α β) (a : α) : Prop :=
  w.oldest.map Prod.fst = some a ∧ w.middle.map Prod.fst ≠ some a ∧ w.newest.map Prod.fst ≠ some a

instance (w : Window α β) (a : α) : Decidable (w.Missed a) := inferInstanceAs (Decidable (_ ∧ _))

@[simp] lemma now_still (f : α → β) : (still f).now = f := rfl

@[simp] lemma now_push (w : Window α β) (e : Option (α × β)) :
    (w.push e).now = applyWrite w.now e := rfl

@[simp] lemma settled_push (w : Window α β) (e : Option (α × β)) :
    (w.push e).settled = applyWrite w.settled w.oldest := rfl

lemma bypass_eq_now {w : Window α β} {a : α} (h : ¬w.Missed a) : w.bypass a = w.now a := by
  by_cases hn : w.newest.map Prod.fst = some a
  · cases he : w.newest with
    | none => simp [he] at hn
    | some p =>
      obtain rfl : p.1 = a := by simpa [he] using hn
      simp [bypass, now, he, applyWrite]
  · rw [bypass, now, applyWrite_of_ne hn, applyWrite_of_ne hn]
    by_cases hm : w.middle.map Prod.fst = some a
    · cases he : w.middle with
      | none => simp [he] at hm
      | some p =>
        obtain rfl : p.1 = a := by simpa [he] using hm
        simp [applyWrite]
    · have ho : w.oldest.map Prod.fst ≠ some a := fun ho => h ⟨ho, hm, hn⟩
      rw [applyWrite_of_ne hm, applyWrite_of_ne hm, applyWrite_of_ne ho]

end Window

variable [DecidableEq α]

/-- The writes, in order. -/
def applyWrites (f : α → β) (l : List (α × β)) : α → β :=
  l.foldl (fun f e => applyWrite f (some e)) f

lemma applyWrites_events_succ (f : α → β) (e : ℕ → Option (α × β)) (n : ℕ) :
    applyWrites f (events e (n + 1)) = applyWrite (applyWrites f (events e n)) (e n) := by
  rw [events_succ, applyWrites, List.foldl_append]
  cases e n <;> rfl

end PendingWrites
