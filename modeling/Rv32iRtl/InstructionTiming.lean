import Rv32iRtl.SpacedText

/-! When a program is where: the cycle of an instruction can be read off the instructions before it.
Their words, and which of them jump, decide every cycle that is lost. -/
namespace Rv32iRtl

open Isa EventTrace PendingWrites

/-- An instruction in EX, and whether the fetch is redirected behind it. -/
structure Executed where
  word : Word
  taken : Bool
  deriving DecidableEq, Repr

/-- The cycles that are lost before the word behind an instruction. -/
def Executed.delay (e : Executed) (w : Word) : ℕ :=
  if e.taken then 2 else if LoadUse e.word w then 1 else 0

/-- The cycles that are lost before the word behind all of them. -/
def delays : List Executed → Word → ℕ
  | [], _ => 0
  | e :: l, w => e.delay ((l.head?.map Executed.word).getD w) + delays l w

lemma delays_concat (l : List Executed) (e : Executed) (w : Word) :
    delays (l ++ [e]) w = delays l e.word + e.delay w := by
  induction l with
  | nil =>
    simp only [List.nil_append, delays, List.head?_nil, Option.map_none, Option.getD_none]
    omega
  | cons a l ih =>
    have hnext : ((l ++ [e]).head?.map Executed.word).getD w =
        (l.head?.map Executed.word).getD e.word := by
      cases l <;> rfl
    simp only [List.cons_append, delays, hnext, ih]
    omega

/-- Behind a jump it does not matter which word comes. -/
lemma delays_taken {l : List Executed} (h : ∀ e ∈ l.getLast?, e.taken = true) (w w' : Word) :
    delays l w = delays l w' := by
  induction l using List.reverseRecOn with
  | nil => rfl
  | append_singleton l e =>
    have he : e.taken = true := h e (by simp)
    simp only [delays_concat, Executed.delay, he, if_true]

def Traced.executed (t : Traced) : Option Executed :=
  t.inEx.map fun f => ⟨f.word, t.top.branchTakenEx⟩

/-- What has been in EX before cycle `n`. -/
def history (s₀ : Top) (n : ℕ) : List Executed := events (fun m => (trace s₀ m).executed) n

section Run

variable {s₀ : Top} {n : ℕ}

lemma executed_empty (hb : (slots s₀ n).bubbles ≠ 0) : (trace s₀ n).executed = none := by
  rw [Traced.executed, (lockstep s₀ n).inEx_none hb]
  rfl

lemma executed_slot (hb : (slots s₀ n).bubbles = 0) :
    (trace s₀ n).executed = some ⟨(slots s₀ n).word, (slots s₀ n).taken⟩ := by
  obtain ⟨f, hf, -, hw⟩ := (lockstep s₀ n).inEx hb
  rw [Traced.executed, hf, Option.map_some, hw, (lockstep s₀ n).taken hb]

lemma history_empty (hb : (slots s₀ n).bubbles ≠ 0) : history s₀ (n + 1) = history s₀ n := by
  rw [history, events_succ, executed_empty hb]
  apply List.append_nil

lemma history_slot (hb : (slots s₀ n).bubbles = 0) : history s₀ (n + 1) =
    history s₀ n ++ [⟨(slots s₀ n).word, (slots s₀ n).taken⟩] := by
  rw [history, events_succ, executed_slot hb]
  rfl

lemma length_history (s₀ : Top) (n : ℕ) : (history s₀ n).length = exIndex s₀ n := by
  induction n with
  | zero => rfl
  | succ n ih =>
    rw [exIndex_succ]
    by_cases hb : (slots s₀ n).bubbles = 0
    · rw [if_pos (isSome_inEx_iff.mpr hb), history_slot hb, List.length_append, ih]
      rfl
    · rw [if_neg (fun hs => hb (isSome_inEx_iff.mp hs)), history_empty hb, ih, Nat.add_zero]

/-- The lost cycles are those of the instructions before, and in an empty slot the word that comes
next is known, unless it comes behind a jump. -/
structure Charged (s₀ : Top) (n : ℕ) : Prop where
  lost : delays (history s₀ n) (slots s₀ n).word = stalls s₀ n + 2 * redirects s₀ n
  known : (slots s₀ n).bubbles ≠ 0 → (slots s₀ n).held.isSome = true ∨
    ∀ e ∈ (history s₀ n).getLast?, e.taken = true

lemma Charged.idle (h : Charged s₀ n) (hb : (slots s₀ n).bubbles ≠ 0) : Charged s₀ (n + 1) := by
  obtain ⟨ht, hl⟩ := Lockstep.front_moves ((lockstep s₀ n).inEx_none hb)
  have hstep : slots s₀ (n + 1) = (slots s₀ n).idle := by
    rw [slots_succ, SlotMachine.step_idle hb]
  have hword : delays (history s₀ n) (slots s₀ n).idle.word =
      delays (history s₀ n) (slots s₀ n).word := by
    rcases h.known hb with hheld | htaken
    · obtain ⟨w, hw⟩ := Option.isSome_iff_exists.mp hheld
      have hidle : (slots s₀ n).idle.held = some w := hw
      rw [SlotMachine.word, SlotMachine.word, hidle, hw]
      rfl
    · exact delays_taken htaken _ _
  constructor
  · rw [stalls_succ, redirects_succ, history_empty hb, hstep, hword, h.lost]
    simp [hl, ht]
  · intro _
    rw [history_empty hb, hstep]
    exact h.known hb

lemma Charged.lost_slot (h : Charged s₀ n) (hb : (slots s₀ n).bubbles = 0) :
    delays (history s₀ (n + 1)) (slots s₀ (n + 1)).word = stalls s₀ n + 2 * redirects s₀ n +
      Executed.delay ⟨(slots s₀ n).word, (slots s₀ n).taken⟩ (slots s₀ (n + 1)).word := by
  rw [history_slot hb, delays_concat, h.lost]

lemma Charged.slot_taken (h : Charged s₀ n) (hb : (slots s₀ n).bubbles = 0)
    (ht : (slots s₀ n).taken = true) : Charged s₀ (n + 1) := by
  have htop : (trace s₀ n).top.branchTakenEx = true := ((lockstep s₀ n).taken hb).trans ht
  have hl : (trace s₀ n).top.loadUse = false := by
    by_contra hl
    have hno := (tracks s₀ n).not_taken_of_loadUse (by simpa using hl)
    rw [htop] at hno
    contradiction
  constructor
  · rw [h.lost_slot hb, stalls_succ, redirects_succ]
    simp [Executed.delay, hl, htop, ht]
    omega
  · intro _
    rw [history_slot hb, ht]
    simp

lemma Charged.slot_next (h : Charged s₀ n) (hb : (slots s₀ n).bubbles = 0)
    (ht : (slots s₀ n).taken = false) : Charged s₀ (n + 1) := by
  have htop : (trace s₀ n).top.branchTakenEx = false := ((lockstep s₀ n).taken hb).trans ht
  have hl := (lockstep s₀ n).waits hb ht
  cases hw : (slots s₀ n).waits with
  | true =>
    have hstep := SlotMachine.step_waits hb ht hw
    have hnext : (slots s₀ (n + 1)).word = (slots s₀ n).retire.word := by
      rw [slots_succ, hstep]
      rfl
    have huse := (waits_iff (slots s₀ n)).mp hw
    rw [hw] at hl
    constructor
    · rw [h.lost_slot hb, stalls_succ, redirects_succ, hnext]
      simp [Executed.delay, hl, htop, ht, huse]
      omega
    · intro _
      rw [slots_succ, hstep]
      exact Or.inl rfl
  | false =>
    have hstep := SlotMachine.step_retire hb ht hw
    have huse : ¬LoadUse (slots s₀ n).word (slots s₀ n).retire.word := by
      rw [← waits_iff, hw]
      exact Bool.false_ne_true
    rw [hw] at hl
    constructor
    · rw [h.lost_slot hb, stalls_succ, redirects_succ, slots_succ, hstep]
      simp [Executed.delay, hl, htop, ht, huse]
    · intro hne
      rw [slots_succ, hstep] at hne
      exact absurd rfl hne

lemma charged (s₀ : Top) (n : ℕ) : Charged s₀ n := by
  induction n with
  | zero =>
    constructor
    · rfl
    · intro _
      apply Or.inr
      intro e he
      simp [history] at he
  | succ n ih =>
    by_cases hb : (slots s₀ n).bubbles = 0
    · cases ht : (slots s₀ n).taken with
      | true => exact ih.slot_taken hb ht
      | false => exact ih.slot_next hb ht
    · exact ih.idle hb

lemma cycle_eq {f : Fetched} (hf : (trace s₀ n).inEx = some f) :
    n = (history s₀ n).length + delays (history s₀ n) f.word + 2 := by
  have hb : (slots s₀ n).bubbles = 0 := isSome_inEx_iff.mp (Option.isSome_of_eq_some hf)
  obtain ⟨f', hf', -, hword⟩ := (lockstep s₀ n).inEx hb
  obtain rfl := Option.some.inj (hf.symm.trans hf')
  have hspent := cycles_spent s₀ n
  rw [hword, (charged s₀ n).lost, length_history]
  omega

/-- Whatever memory and registers hold, the `k`-th instruction is in EX in cycle `k + 2` and two
later for every jump taken before it and one for every load whose register the next word names: data
has a part in it only through the jumps. -/
theorem cycle_of_history (s₀ : Top) (k : ℕ) :
    ∃ n f, (trace s₀ n).inEx = some f ∧ (history s₀ n).length = k ∧
      n = k + delays (history s₀ n) f.word + 2 := by
  obtain ⟨n, hsome, hindex⟩ := exists_inEx s₀ k
  obtain ⟨f, hf⟩ := Option.isSome_iff_exists.mp hsome
  have hlength : (history s₀ n).length = k := (length_history s₀ n).trans hindex
  have hcycle := cycle_eq hf
  rw [hlength] at hcycle
  exact ⟨n, f, hf, hlength, hcycle⟩

end Run

namespace Isa.State

def executed (τ : State) : Option Executed :=
  τ.fetch.map fun i => ⟨encode i, (i.redirect τ.pc (τ.x1 i) (τ.x2 i)).isSome⟩

def history (τ : State) (k : ℕ) : List Executed := events (fun j => (τ.run j).executed) k

/-- The cycle in which the core has the instruction behind the first `k` in EX. -/
def cycle (τ : State) (k : ℕ) (i : Instr) : ℕ := k + delays (τ.history k) (encode i) + 2

end Isa.State

section Clock

variable {s₀ : Top} {n : ℕ} {τ : State}

/-- An orderly slot is what the sequential machine has to execute. -/
lemma executed_orderly (hb : (slots s₀ n).bubbles = 0) (ho : (slots s₀ n).Orderly)
    (hf : (slots s₀ n).Follows τ) :
    ∃ i, τ.fetch = some i ∧ (slots s₀ n).word = encode i ∧ (trace s₀ n).executed = τ.executed := by
  obtain ⟨hword, i, hi, hs, -⟩ := ho hb
  have hfetch : τ.fetch = some i := by
    rw [State.fetch, ← hf.mem, ← hf.pc, ← hword]
    exact hi
  have henc := encode_decode hi
  have hredirect := SlotMachine.redirect_eq henc
  rw [State.redirect_congr (SlotMachine.x1_eq henc hf hs) (SlotMachine.x2_eq henc hf hs), hf.pc]
    at hredirect
  refine ⟨i, hfetch, henc.symm, ?_⟩
  rw [executed_slot hb, State.executed, hfetch, Option.map_some, ← hredirect, henc]
  cases (slots s₀ n).taken <;> rfl

lemma history_of_orderly (h : ∀ m < n, (slots s₀ m).Orderly) :
    history s₀ n = (isaStart s₀).history (exIndex s₀ n) := by
  apply events_eq_count
  · intro m hm hs
    obtain ⟨i, -, -, hex⟩ := executed_orderly (isSome_inEx_iff.mp hs) (h m hm)
      (follows_of_orderly h m hm.le)
    exact hex
  · intro m _ hs
    exact executed_empty fun hb => hs (isSome_inEx_iff.mpr hb)

end Clock

/-- A spaced text, as long as the sequential machine stays in it: the `k`-th instruction of that
machine is in EX, with its address, in the cycle that the run of that machine gives. -/
theorem spaced_text_timing (text : List Instr) (hlen : text.length ≤ 2 ^ 16)
    (hspaced : Spaced text) (s₀ : Top) (hload : Loaded text (isaStart s₀).mem) (K : ℕ)
    (hin : ∀ k < K, (isaAt s₀ k).InText text) (k : ℕ) (hk : k < K) :
    ∃ i f, (isaAt s₀ k).fetch = some i ∧
      (trace s₀ ((isaStart s₀).cycle k i)).inEx = some f ∧
      exIndex s₀ ((isaStart s₀).cycle k i) = k ∧ f.addr = (isaAt s₀ k).pc ∧
      f.word = encode i := by
  obtain ⟨n, hsome, rfl⟩ := exists_inEx s₀ k
  have hb := isSome_inEx_iff.mp hsome
  have hnext : exIndex s₀ (n + 1) ≤ K := by
    rw [exIndex_succ, if_pos hsome]
    exact hk
  have horderly := (orderly_of_spaced hlen hspaced hload hin hnext).1
  have hbefore : ∀ m < n, (slots s₀ m).Orderly := fun m hm => horderly m (hm.trans n.lt_succ_self)
  have hfollows := follows_of_orderly hbefore n le_rfl
  obtain ⟨i, hfetch, hword, -⟩ := executed_orderly hb (horderly n n.lt_succ_self) hfollows
  obtain ⟨f, hf, haddr, hfword⟩ := (lockstep s₀ n).inEx hb
  have hcycle : (isaStart s₀).cycle (exIndex s₀ n) i = n := by
    have h := cycle_eq hf
    rw [length_history, history_of_orderly hbefore, hfword, hword] at h
    exact h.symm
  refine ⟨i, f, hfetch, ?_, ?_, ?_, hfword.trans hword⟩
  · rw [hcycle]
    exact hf
  · rw [hcycle]
  · rw [haddr, hfollows.pc]

/-- `addi x1,x0,5; sw x1,0x400(x0); lw x2,0x400(x0); add x3,x2,x2; jal x0,-16`. -/
def stallLoop : List Instr :=
  [.opImm .addi 1#5 0#5 5#12, .store .sw 0#5 1#5 0x400#12, .load .lw 2#5 0#5 0x400#12,
    .op .add 3#5 2#5 2#5, .jal 0#5 0xffff8#20]

theorem spaced_text_timing_loop : ∃ i f, (isaAt (load (stallLoop.map encode)) 6).fetch = some i ∧
    (trace (load (stallLoop.map encode))
      ((isaStart (load (stallLoop.map encode))).cycle 6 i)).inEx = some f ∧
    exIndex (load (stallLoop.map encode))
      ((isaStart (load (stallLoop.map encode))).cycle 6 i) = 6 ∧
    f.addr = (isaAt (load (stallLoop.map encode)) 6).pc ∧ f.word = encode i :=
  spaced_text_timing stallLoop (by decide) (by decide) (load (stallLoop.map encode))
    (by decide +kernel) 8 (by decide +kernel) 6 (by decide)

end Rv32iRtl
