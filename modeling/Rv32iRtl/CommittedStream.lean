import Rv32iRtl.StageContents
import Rv32iRtl.EventTrace

/-! The instructions that reach EX un-squashed: they form one address chain from
zero, each is fetched once, and each passes EX, MEM and WB in consecutive cycles. -/
namespace Rv32iRtl

/-- Where the front of the pipeline stands relative to the resolved chain. After
a taken branch nothing is promised until the redirect has reached `pc`. -/
structure Front (t : Traced) : Prop where
  ex_addr : ∀ {f}, t.inEx = some f → f.addr = t.next
  id_addr : t.top.branchTakenEx = false → ∀ {f}, t.inId = some f →
    f.addr = t.resolved ∧ t.top.pc = f.addr + 4#32
  pc_addr : t.top.branchTakenEx = false → t.inId = none → t.top.pc = t.resolved

namespace Front

lemma boot (s₀ : Top) : Front (Traced.boot s₀) := by
  constructor <;> simp [Traced.boot, Traced.resolved, Top.step_reset, Top.powerOn]

lemma step_taken {t : Traced} (ht : Tracks t) (hb : t.top.branchTakenEx = true) :
    Front t.step := by
  have hid : t.step.inId = none := by simp [Traced.step_inId, hb]
  have hex : t.step.inEx = none := by simp [Traced.step_inEx, hb]
  have hpc : t.step.top.pc = t.resolved := by
    change (t.top.step false).pc = _
    rw [Top.step_pc, if_pos hb]
    cases hf : t.inEx with
    | none =>
      rw [Top.branchTakenEx_of_idle (ht.ex_none hf)] at hb
      contradiction
    | some f => simp [Traced.resolved, hf, hb]
  have hr : t.step.resolved = t.resolved := by
    simp only [Traced.resolved, hex]
    rfl
  exact ⟨by simp [hex], by simp [hid], fun _ _ => hpc.trans hr.symm⟩

/-- A stall keeps `pc` and IF/ID and puts a bubble into ID/EX. -/
lemma step_stall {t : Traced} (h : Front t) (hl : t.top.loadUse = true)
    (hb : t.top.branchTakenEx = false) : Front t.step := by
  have hid : t.step.inId = t.inId := by simp [Traced.step_inId, hb, hl]
  have hex : t.step.inEx = none := by simp [Traced.step_inEx, hl]
  have hpc : t.step.top.pc = t.top.pc := by
    change (t.top.step false).pc = _
    simp [Top.step_pc, hb, hl]
  have hr : t.step.resolved = t.resolved := by
    simp only [Traced.resolved, hex]
    rfl
  constructor
  · simp [hex]
  · intro _ f hf
    rw [hr, hpc]
    exact h.id_addr hb (hid ▸ hf)
  · intro _ hf
    rw [hr, hpc]
    exact h.pc_addr hb (hid ▸ hf)

lemma step_advance {t : Traced} (h : Front t) (hl : t.top.loadUse = false)
    (hb : t.top.branchTakenEx = false) : Front t.step := by
  have hid : t.step.inId = some ⟨t.top.pc, t.top.instrFetch, t.cycle⟩ := by
    simp [Traced.step_inId, hb, hl]
  have hex : t.step.inEx = t.inId := by simp [Traced.step_inEx, hb, hl]
  have hpc : t.step.top.pc = t.top.pc + 4#32 := by
    change (t.top.step false).pc = _
    simp [Top.step_pc, hb, hl]
  constructor
  · intro f hf
    exact (h.id_addr hb (hex ▸ hf)).1
  · intro hb' f hf
    rw [hid, Option.some_inj] at hf
    subst hf
    refine ⟨?_, hpc⟩
    cases hf : t.inId with
    | none =>
      have hr : t.step.resolved = t.resolved := by
        simp only [Traced.resolved, hex, hf]
        rfl
      rw [hr]
      exact h.pc_addr hb hf
    | some g =>
      simp only [Traced.resolved, hex, hf, hb', Bool.false_eq_true, if_false]
      exact (h.id_addr hb hf).2
  · simp [hid]

lemma step {t : Traced} (ht : Tracks t) (h : Front t) : Front t.step := by
  cases hb : t.top.branchTakenEx with
  | true => exact step_taken ht hb
  | false =>
    cases hl : t.top.loadUse with
    | true => exact h.step_stall hl hb
    | false => exact h.step_advance hl hb

end Front

theorem front (s₀ : Top) (n : ℕ) : Front (trace s₀ n) :=
  (Traced.always (P := fun t => Tracks t ∧ Front t) (fun s₀ => ⟨.boot s₀, .boot s₀⟩)
    (fun _ h => ⟨h.1.step, .step h.1 h.2⟩) s₀ n).2

structure Commit where
  addr : Word
  taken : Bool
  target : Word
  deriving DecidableEq, Repr

def Commit.next (c : Commit) : Word := if c.taken then c.target else c.addr + 4#32

def ChainFrom (a : Word) : List Commit → Prop
  | [] => True
  | c :: cs => c.addr = a ∧ ChainFrom c.next cs

def chainEnd (a : Word) : List Commit → Word
  | [] => a
  | c :: cs => chainEnd c.next cs

lemma chainEnd_append (a : Word) (cs : List Commit) (c : Commit) :
    chainEnd a (cs ++ [c]) = c.next := by
  induction cs generalizing a with
  | nil => rfl
  | cons d ds ih => exact ih d.next

lemma chainFrom_append {a : Word} {cs : List Commit} {c : Commit} (h : ChainFrom a cs)
    (hc : c.addr = chainEnd a cs) : ChainFrom a (cs ++ [c]) := by
  induction cs generalizing a with
  | nil => exact ⟨hc, trivial⟩
  | cons d ds ih => exact ⟨h.1, ih h.2 hc⟩

def Traced.commit (t : Traced) : Option Commit :=
  t.inEx.map fun f => ⟨f.addr, t.top.branchTakenEx, t.top.branchTargetEx⟩

def commits (s₀ : Top) (n : ℕ) : List Commit := EventTrace.events (fun k => (trace s₀ k).commit) n

lemma commits_chain (s₀ : Top) (n : ℕ) :
    ChainFrom 0#32 (commits s₀ n) ∧ chainEnd 0#32 (commits s₀ n) = (trace s₀ n).next := by
  induction n with
  | zero => exact ⟨trivial, rfl⟩
  | succ n ih =>
    obtain ⟨hc, he⟩ := ih
    have hnext : (trace s₀ (n + 1)).next = (trace s₀ n).resolved := by
      rw [trace_succ]
      rfl
    rw [commits, EventTrace.events_succ, ← commits, hnext]
    cases hf : (trace s₀ n).inEx with
    | none => simpa [Traced.commit, Traced.resolved, hf] using And.intro hc he
    | some f =>
      have ha := (front s₀ n).ex_addr hf
      simp only [Traced.commit, Traced.resolved, hf, Option.map_some, Option.toList_some,
        chainEnd_append]
      exact ⟨chainFrom_append hc (ha.trans he.symm), rfl⟩

lemma inEx_succ {s₀ : Top} {n : ℕ} {f : Fetched} (h : (trace s₀ (n + 1)).inEx = some f) :
    (trace s₀ n).inId = some f ∧ ∃ g, (trace s₀ (n + 1)).inId = some g ∧ g.cycle = n := by
  rw [trace_succ, Traced.step_inEx] at h
  rw [trace_succ, Traced.step_inId]
  split_ifs at h with hs
  simp only [Bool.or_eq_true, not_or, Bool.not_eq_true] at hs
  simp [hs.1, hs.2, h]

lemma inEx_pos {s₀ : Top} {n : ℕ} {f : Fetched} (h : (trace s₀ n).inEx = some f) :
    ∃ m, n = m + 1 := by
  cases n with
  | zero => simp [Traced.boot] at h
  | succ m => exact ⟨m, rfl⟩

/-- An instruction in ID was fetched in its cycle and has been in ID ever since. -/
lemma inId_fetched {s₀ : Top} {n : ℕ} {f : Fetched} (h : (trace s₀ n).inId = some f) :
    f.cycle < n ∧ (trace s₀ f.cycle).top.pc = f.addr ∧
      (trace s₀ f.cycle).top.instrFetch = f.word ∧
      ∀ m, f.cycle < m → m ≤ n → (trace s₀ m).inId = some f := by
  induction n with
  | zero => simp [Traced.boot] at h
  | succ n ih =>
    have h' := h
    rw [trace_succ, Traced.step_inId] at h'
    split_ifs at h' with _ hl
    · obtain ⟨hlt, hpc, hw, hm⟩ := ih h'
      refine ⟨by omega, hpc, hw, fun m h1 h2 => ?_⟩
      rcases Nat.lt_or_eq_of_le h2 with h3 | rfl
      · exact hm m h1 (by omega)
      · exact h
    · cases h'
      simp only [trace_cycle] at h ⊢
      refine ⟨by omega, trivial, trivial, fun m h1 h2 => ?_⟩
      rw [show m = n + 1 by omega]
      exact h

lemma inEx_cycle_lt {s₀ : Top} {n m : ℕ} {f g : Fetched} (hnm : n < m)
    (hf : (trace s₀ n).inEx = some f) (hg : (trace s₀ m).inEx = some g) : f.cycle < g.cycle := by
  obtain ⟨n, rfl⟩ := inEx_pos hf
  obtain ⟨m, rfl⟩ := inEx_pos hg
  obtain ⟨hfid, k, hk, hkc⟩ := inEx_succ hf
  have hfc := (inId_fetched hfid).1
  by_contra hle
  have hsame := (inId_fetched (inEx_succ hg).1).2.2.2 (n + 1) (by omega) (by omega)
  rw [hk, Option.some_inj] at hsame
  subst hsame
  omega

lemma inEx_unique {s₀ : Top} {n m : ℕ} {f : Fetched} (hn : (trace s₀ n).inEx = some f)
    (hm : (trace s₀ m).inEx = some f) : n = m := by
  rcases Nat.lt_trichotomy n m with h | h | h
  · exact absurd (inEx_cycle_lt h hn hm) (lt_irrefl _)
  · exact h
  · exact absurd (inEx_cycle_lt h hm hn) (lt_irrefl _)

lemma inMem_iff {s₀ : Top} {m : ℕ} {f : Fetched} :
    (trace s₀ m).inMem = some f ↔ ∃ n, m = n + 1 ∧ (trace s₀ n).inEx = some f := by
  cases m with
  | zero => simp [Traced.boot]
  | succ m =>
    rw [trace_succ]
    simp [Traced.step]

lemma inWb_iff {s₀ : Top} {m : ℕ} {f : Fetched} :
    (trace s₀ m).inWb = some f ↔ ∃ n, m = n + 1 ∧ (trace s₀ n).inMem = some f := by
  cases m with
  | zero => simp [Traced.boot]
  | succ m =>
    rw [trace_succ]
    simp [Traced.step]

lemma loadUse_once (s : Top) (h : s.loadUse = true) : (s.step false).loadUse = false := by
  have hb : (s.step false).idEx.memRead = false := by simp [Top.step_idEx, h, IdEx.flush]
  simp [Top.loadUse, HazardUnit.loadUse, Top.hazardIn, hb]

lemma inEx_contents {s₀ : Top} {n : ℕ} {f : Fetched} (hf : (trace s₀ n).inEx = some f) :
    (trace s₀ (n + 1)).top.exMem.Carries f.word ∧ (trace s₀ (n + 2)).top.memWb.Carries f.word := by
  have hm : (trace s₀ (n + 1)).inMem = some f := inMem_iff.mpr ⟨n, rfl, hf⟩
  have hw : (trace s₀ (n + 2)).inWb = some f := inWb_iff.mpr ⟨n + 1, rfl, hm⟩
  exact ⟨(tracks s₀ (n + 1)).mem_some hm, (tracks s₀ (n + 2)).wb_some hw⟩

/-- The law of the committed instruction stream, for a run from reset. -/
structure CommittedStream (s₀ : Top) : Prop where
  /-- The addresses in EX form the chain from zero, nothing skipped or repeated. -/
  chain : ∀ n, ChainFrom 0#32 (commits s₀ n)
  /-- Each carries the word that memory held at its address in its fetch cycle. -/
  fetched : ∀ n f, (trace s₀ n).inEx = some f →
    f.cycle < n ∧ (trace s₀ f.cycle).top.pc = f.addr ∧
      f.word = (trace s₀ f.cycle).top.mem (wordIndex f.addr) ∧
      (trace s₀ n).top.idEx.pc = f.addr ∧ (trace s₀ n).top.idEx.Carries f.word
  /-- It is in EX, MEM and WB for one cycle each, and these follow each other. -/
  inOrder : ∀ n f, (trace s₀ n).inEx = some f → ∀ m,
    ((trace s₀ m).inEx = some f ↔ m = n) ∧ ((trace s₀ m).inMem = some f ↔ m = n + 1) ∧
      ((trace s₀ m).inWb = some f ↔ m = n + 2)
  /-- EX/MEM and MEM/WB then hold what its word decodes to. -/
  contents : ∀ n f, (trace s₀ n).inEx = some f →
    (trace s₀ (n + 1)).top.exMem.Carries f.word ∧ (trace s₀ (n + 2)).top.memWb.Carries f.word
  squashed_mem : ∀ n, (trace s₀ n).inMem = none → (trace s₀ n).top.memWriteEvent = none
  squashed_wb : ∀ n, (trace s₀ n).inWb = none → (trace s₀ n).top.regWriteEvent = none
  stall_once : ∀ n, (trace s₀ n).top.hazard.ifIdWrite = false →
    (trace s₀ (n + 1)).top.hazard.ifIdWrite = true

theorem committed_stream (s₀ : Top) : CommittedStream s₀ where
  chain n := (commits_chain s₀ n).1
  fetched n f hf := by
    obtain ⟨m, rfl⟩ := inEx_pos hf
    obtain ⟨hlt, hpc, hw, -⟩ := inId_fetched (inEx_succ hf).1
    obtain ⟨hc, ha⟩ := (tracks s₀ (m + 1)).ex_some hf
    refine ⟨by omega, hpc, ?_, ha, hc⟩
    rw [← hw, ← hpc]
    rfl
  inOrder n f hf m := by
    refine ⟨⟨fun h => inEx_unique h hf, fun h => h ▸ hf⟩, ?_, ?_⟩
    · rw [inMem_iff]
      constructor
      · rintro ⟨k, rfl, hk⟩
        rw [inEx_unique hk hf]
      · rintro rfl
        exact ⟨n, rfl, hf⟩
    · simp only [inWb_iff, inMem_iff]
      constructor
      · rintro ⟨_, rfl, k, rfl, hk⟩
        rw [inEx_unique hk hf]
      · rintro rfl
        exact ⟨n + 1, rfl, n, rfl, hf⟩
  contents n f hf := inEx_contents hf
  squashed_mem n h := Top.memWriteEvent_of_idle ((tracks s₀ n).mem_none h)
  squashed_wb n h := Top.regWriteEvent_of_idle ((tracks s₀ n).wb_none h)
  stall_once n h := by
    rw [trace_top_succ]
    simp only [Top.hazard_ifIdWrite, Bool.not_eq_false'] at h
    simp [loadUse_once _ h]

end Rv32iRtl
