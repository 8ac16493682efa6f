import Rv32iRtl.RunPipeline

/-! The contract files beside the modules over a history of runs. -/
namespace Rv32iRtl

structure Run where
  args : Args
  answers : RunAnswers

def Run.moduleNames (r : Run) : List String :=
  if r.args.skipGeneration then [] else r.args.modulesToGenerate

def World.emptyDir : World := ⟨.empty, .empty, []⟩

/-- The loop of the source gives up with candidate `k` in the file. -/
def GivesUp (validate : ℕ → Text → List Text) (maxIterations : ℕ) (a : Answers) (first : Text)
    (k : ℕ) : Prop :=
  (EndsAt validate maxIterations a first 1 k ∧ ¬Clean validate a first k) ∨
    (maxIterations = 0 ∧ k = 1)

section

variable (unicode : Char → Bool)

def afterRuns (w : World) (runs : List Run) : World :=
  runs.foldl (fun w r => (stepGenerate unicode r.args r.answers w).world) w

/-- The session of a run after some of its modules. -/
def Run.after (r : Run) (w : World) (ms : List String) : Session :=
  generateModules unicode r.args r.answers ms w

/-- Every contract that goes into the prompt for `top` is that of the file. -/
def InSync (w : World) : Prop :=
  ∀ m c, (m, c) ∈ w.metaFiles →
    ∃ text, w.verilog.get? m = some text ∧ extractPorts unicode text = c

/-- The module has a contract, is generated anew, and the generation gives up with a text
of other ports in the file. -/
def Outdates (r : Run) (m : String) (w : World) : Prop :=
  ∃ c first k, w.contracts.get? m = some c ∧ (r.answers.generate m).firstCandidate = .ok first ∧
    GivesUp (fun _ verilog => validate verilog m) r.args.maxIterations (r.answers.generate m) first
      k ∧
    extractPorts unicode ((r.answers.generate m).candidate first k) ≠ c

def SyncedAt (w : World) (m : String) : Prop :=
  ∀ c, w.contracts.get? m = some c →
    ∃ text, w.verilog.get? m = some text ∧ extractPorts unicode text = c

variable {unicode}

lemma inSync_iff (w : World) : InSync unicode w ↔ ∀ m, SyncedAt unicode w m := by
  have hmem : ∀ m c, (m, c) ∈ w.metaFiles ↔ w.contracts.get? m = some c := by
    intro m c
    rw [World.metaFiles, List.mem_mergeSort, OrderedDict.mem_entries_iff]
  exact forall_congr' fun m => forall_congr' fun c => by rw [hmem]

section Generate

variable {validate : ℕ → Text → List Text} {m : String} {allFiles : List String}
  {maxIterations : ℕ} {a : Answers} {first : Text}

lemma endsAt_unique {k k' : ℕ} (h : EndsAt validate maxIterations a first 1 k)
    (h' : EndsAt validate maxIterations a first 1 k') : k = k' := by
  have hle : ∀ {i j : ℕ}, EndsAt validate maxIterations a first 1 i →
      EndsAt validate maxIterations a first 1 j → j ≤ i := by
    intro i j hi hj
    by_contra hlt
    have hon := hj.before i hi.le (by omega)
    have hmax := hj.le_max
    rcases hi.ends with hend | hend
    · rw [hend] at hon
      contradiction
    · omega
  exact Nat.le_antisymm (hle h' h) (hle h h')

/-- A generation leaves the files alone, gives up with a candidate in the text file, or writes
the contract of the text that it leaves. -/
lemma generateWithLintFix_files (w : World) :
    let w' := (generateWithLintFix validate m allFiles maxIterations a unicode w).2
    ((∃ e, a.firstCandidate = .error e) ∧ w'.verilog = w.verilog ∧ w'.contracts = w.contracts) ∨
    ∃ first k, a.firstCandidate = .ok first ∧
      w'.verilog = w.verilog.set m (normalizeVerilogText (a.candidate first k)) ∧
      ((GivesUp validate maxIterations a first k ∧ w'.contracts = w.contracts) ∨
        (EndsAt validate maxIterations a first 1 k ∧ Clean validate a first k ∧
          w'.contracts = w.contracts.set m (extractPorts unicode (a.candidate first k)))) := by
  intro w'
  rcases generateWithLintFix_cases unicode w with ⟨e, hfirst, heq⟩ | ⟨first, e, hfirst, h0, heq⟩ |
    ⟨first, k, hfirst, hk⟩
  · have hw' : w' = w := congrArg Prod.snd heq
    rw [hw']
    exact Or.inl ⟨⟨e, hfirst⟩, rfl, rfl⟩
  · have hw' : w' = w.writeVerilog m (normalizeVerilogText first) := congrArg Prod.snd heq
    rw [hw']
    exact Or.inr ⟨first, 1, hfirst, rfl, Or.inl ⟨Or.inr ⟨h0, rfl⟩, rfl⟩⟩
  · have hw' := congrArg Prod.snd
      (generateWithLintFix_eq m allFiles unicode hfirst hk w)
    change w' = _ at hw'
    refine Or.inr ⟨first, k, hfirst, ?_⟩
    cases hv : verdict validate m maxIterations a first k with
    | error e =>
      rw [hw', hv]
      refine ⟨rfl, Or.inl ⟨Or.inl ⟨hk, fun hclean => ?_⟩, rfl⟩⟩
      rw [verdict_of_clean hclean] at hv
      contradiction
    | ok v =>
      rw [hw', hv]
      obtain ⟨rfl, hclean⟩ := clean_of_verdict hv
      exact ⟨rfl, Or.inr ⟨hk, hclean, rfl⟩⟩

end Generate

variable {r : Run}

/-- The check of a module's texts. -/
abbrev moduleCheck (m : String) : ℕ → Text → List Text := fun _ verilog => validate verilog m

variable (unicode r) in
/-- What a turn of the loop does to the files. -/
lemma stepModule_files (s : Session) (m : String) :
    let w' := (stepModule unicode r.args r.answers s m).world
    let a := r.answers.generate m
    (m = "top" ∧ w'.contracts = s.world.contracts ∧
      (w'.verilog = s.world.verilog ∨ ∃ t, w'.verilog = s.world.verilog.set m t)) ∨
    (m ≠ "top" ∧ (((∃ e, a.firstCandidate = .error e) ∧ w'.verilog = s.world.verilog ∧
        w'.contracts = s.world.contracts) ∨
      ∃ first k, a.firstCandidate = .ok first ∧
        w'.verilog = s.world.verilog.set m (normalizeVerilogText (a.candidate first k)) ∧
        ((GivesUp (moduleCheck m) r.args.maxIterations a first k ∧
            w'.contracts = s.world.contracts) ∨
          (EndsAt (moduleCheck m) r.args.maxIterations a first 1 k ∧
            Clean (moduleCheck m) a first k ∧
            w'.contracts =
              s.world.contracts.set m (extractPorts unicode (a.candidate first k)))))) := by
  intro w' a
  by_cases hm : m = "top"
  · refine Or.inl ⟨hm, ?_⟩
    have hw' : w'.contracts = (generateTop r.answers s.world).2.contracts ∧
        w'.verilog = (generateTop r.answers s.world).2.verilog := by
      simp only [w', stepModule, if_pos hm]
      rcases generateTop r.answers s.world with ⟨_ | _, w⟩ <;> exact ⟨rfl, rfl⟩
    rw [hw'.1, hw'.2, hm, generateTop]
    cases r.answers.retrieve <;> cases r.answers.queryKnowledge <;>
      cases r.answers.generateTopV <;> simp [World.note, World.writeVerilog]
  · have hw' : w'.verilog = (generateModule unicode r.args r.answers m s).2.verilog ∧
        w'.contracts = (generateModule unicode r.args r.answers m s).2.contracts := by
      simp only [w', stepModule, if_neg hm]
      rcases generateModule unicode r.args r.answers m s with ⟨(⟨_, _, _⟩ | _) | _, w⟩ <;>
        exact ⟨rfl, rfl⟩
    rw [hw'.1, hw'.2]
    exact Or.inr ⟨hm, generateWithLintFix_files s.world⟩

variable (unicode r) in
/-- The files of the other modules are left alone. -/
lemma stepModule_frame (s : Session) {m m' : String} (h : m' ≠ m) :
    let w' := (stepModule unicode r.args r.answers s m).world
    w'.verilog.get? m' = s.world.verilog.get? m' ∧
      w'.contracts.get? m' = s.world.contracts.get? m' := by
  intro w'
  have hset : ∀ {V : Type} {d d' : OrderedDict String V} {v : V}, d' = d.set m v →
      d'.get? m' = d.get? m' := by
    rintro V d d' v rfl
    rw [OrderedDict.get?_set, if_neg h.symm]
  rcases stepModule_files unicode r s m with ⟨-, hc, hv | ⟨t, hv⟩⟩ |
    ⟨-, ⟨-, hv, hc⟩ | ⟨first, k, -, hv, ⟨-, hc⟩ | ⟨-, -, hc⟩⟩⟩
  · exact ⟨congrArg (·.get? m') hv, congrArg (·.get? m') hc⟩
  · exact ⟨hset hv, congrArg (·.get? m') hc⟩
  · exact ⟨congrArg (·.get? m') hv, congrArg (·.get? m') hc⟩
  · exact ⟨hset hv, congrArg (·.get? m') hc⟩
  · exact ⟨hset hv, hset hc⟩

lemma syncedAt_frame (s : Session) {m m' : String} (h : m' ≠ m) :
    SyncedAt unicode (stepModule unicode r.args r.answers s m).world m' ↔
      SyncedAt unicode s.world m' := by
  obtain ⟨hv, hc⟩ := stepModule_frame unicode r s h
  rw [SyncedAt, SyncedAt, hv, hc]

/-- `top` has no contract file. -/
def NoTopContract (w : World) : Prop := w.contracts.get? "top" = none

variable (unicode r) in
lemma noTopContract_stepModule {s : Session} (h : NoTopContract s.world) (m : String) :
    NoTopContract (stepModule unicode r.args r.answers s m).world := by
  rcases stepModule_files unicode r s m with ⟨-, hc, -⟩ | ⟨hm, -⟩
  · rw [NoTopContract, hc]
    exact h
  · rw [NoTopContract, (stepModule_frame unicode r s fun hc => hm hc.symm).2]
    exact h

lemma endsAt_of_givesUp {validate : ℕ → Text → List Text} {maxIterations : ℕ} {a : Answers}
    {first : Text} {k k' : ℕ} (h : GivesUp validate maxIterations a first k)
    (h' : EndsAt validate maxIterations a first 1 k') :
    k = k' ∧ ¬Clean validate a first k := by
  rcases h with ⟨hend, hclean⟩ | ⟨h0, -⟩
  · exact ⟨endsAt_unique hend h', hclean⟩
  · have hle := h'.le
    have hmax := h'.le_max
    omega

lemma givesUp_unique {validate : ℕ → Text → List Text} {maxIterations : ℕ} {a : Answers}
    {first : Text} {k k' : ℕ} (h : GivesUp validate maxIterations a first k)
    (h' : GivesUp validate maxIterations a first k') : k = k' := by
  rcases h' with ⟨hend, -⟩ | ⟨h0, rfl⟩
  · exact (endsAt_of_givesUp h hend).1
  · rcases h with ⟨hend, -⟩ | ⟨-, rfl⟩
    · have hle := hend.le
      have hmax := hend.le_max
      omega
    · rfl

lemma syncedAt_of_eq {w w' : World} {m : String} (hv : w'.verilog = w.verilog)
    (hc : w'.contracts = w.contracts) (h : SyncedAt unicode w m) : SyncedAt unicode w' m := by
  rw [SyncedAt, hv, hc]
  exact h

/-- What is read from the file of a candidate. -/
lemma extractPorts_file {w w' : World} {m : String} {t : Text}
    (hv : w'.verilog = w.verilog.set m (normalizeVerilogText t)) (c : Contract) :
    (∃ text, w'.verilog.get? m = some text ∧ extractPorts unicode text = c) ↔
      extractPorts unicode t = c := by
  rw [hv, OrderedDict.get?_set, if_pos rfl]
  simp [extractPorts_normalize]

/-- A turn keeps a contract in step unless it outdates it. -/
lemma syncedAt_stepModule {s : Session} (htop : NoTopContract s.world) {m : String}
    (h : SyncedAt unicode s.world m) :
    SyncedAt unicode (stepModule unicode r.args r.answers s m).world m ↔
      ¬Outdates unicode r m s.world := by
  rcases stepModule_files unicode r s m with ⟨rfl, hc, -⟩ |
    ⟨-, ⟨⟨e, hfirst⟩, hv, hc⟩ | ⟨first, k, hfirst, hv, ⟨hgive, hc⟩ | ⟨hend, hclean, hc⟩⟩⟩
  · refine iff_of_true (fun c hc' => ?_) ?_
    · rw [hc, htop] at hc'
      contradiction
    · rintro ⟨c, -, -, hc', -⟩
      rw [htop] at hc'
      contradiction
  · refine iff_of_true (syncedAt_of_eq hv hc h) ?_
    rintro ⟨-, first, -, -, hfirst', -⟩
    rw [hfirst] at hfirst'
    contradiction
  · constructor
    · rintro hsync ⟨c, first', k', hc', hfirst', hgive', hne⟩
      obtain rfl : first = first' := Except.ok.inj (hfirst.symm.trans hfirst')
      obtain rfl := givesUp_unique hgive hgive'
      exact hne ((extractPorts_file hv c).mp (hsync c (hc ▸ hc')))
    · intro hnot c hc'
      rw [extractPorts_file hv]
      by_contra hne
      exact hnot ⟨c, first, k, hc ▸ hc', hfirst, hgive, hne⟩
  · refine iff_of_true (fun c hc' => ?_) ?_
    · rw [hc, OrderedDict.get?_set, if_pos rfl] at hc'
      exact (extractPorts_file hv c).mpr (Option.some.inj hc')
    · rintro ⟨-, first', k', -, hfirst', hgive, -⟩
      obtain rfl : first = first' := Except.ok.inj (hfirst.symm.trans hfirst')
      obtain ⟨rfl, hnot⟩ := endsAt_of_givesUp hgive hend
      exact hnot hclean

lemma syncedAt_foldl (ms : List String) (s : Session) {m : String} (h : m ∉ ms) :
    SyncedAt unicode (ms.foldl (stepModule unicode r.args r.answers) s).world m ↔
      SyncedAt unicode s.world m := by
  induction ms generalizing s with
  | nil => rfl
  | cons m' ms ih =>
    obtain ⟨hne, hms⟩ := List.ne_and_not_mem_of_not_mem_cons h
    rw [List.foldl_cons, ih _ hms, syncedAt_frame s hne]

/-- A statement about every element of a list and what stands before it. -/
lemma forall_split_cons {A : Type*} {P : List A → A → Prop} {x : A} {l : List A} :
    (∀ l₁ y l₂, x :: l = l₁ ++ y :: l₂ → P l₁ y) ↔
      P [] x ∧ ∀ l₁ y l₂, l = l₁ ++ y :: l₂ → P (x :: l₁) y := by
  constructor
  · intro h
    exact ⟨h [] x l rfl, fun l₁ y l₂ hl => h (x :: l₁) y l₂ (by rw [hl]; rfl)⟩
  · rintro ⟨hx, hl⟩ l₁ y l₂ h
    cases l₁ with
    | nil =>
      obtain ⟨rfl, -⟩ := List.cons.inj h
      exact hx
    | cons z l₁ =>
      obtain ⟨rfl, h'⟩ := List.cons.inj h
      exact hl l₁ y l₂ h'

lemma noTopContract_foldl (ms : List String) {s : Session} (h : NoTopContract s.world) :
    NoTopContract (ms.foldl (stepModule unicode r.args r.answers) s).world := by
  induction ms generalizing s with
  | nil => exact h
  | cons m ms ih => exact ih (noTopContract_stepModule unicode r h m)

variable (r) in
/-- The modules of a run are different ones, so what one turn outdates stays so to the end. -/
lemma synced_run (ms : List String) (hms : ms.Nodup) (s : Session) (htop : NoTopContract s.world)
    (h : ∀ m, SyncedAt unicode s.world m) :
    (∀ m, SyncedAt unicode (ms.foldl (stepModule unicode r.args r.answers) s).world m) ↔
      ∀ ms₁ m ms₂, ms = ms₁ ++ m :: ms₂ →
        ¬Outdates unicode r m (ms₁.foldl (stepModule unicode r.args r.answers) s).world := by
  induction ms generalizing s with
  | nil => exact iff_of_true h (by simp)
  | cons m ms ih =>
    obtain ⟨hm, hms⟩ := List.nodup_cons.mp hms
    have htop' := noTopContract_stepModule unicode r htop m
    have hstep := syncedAt_stepModule (r := r) htop (h m)
    rw [forall_split_cons, List.foldl_cons, List.foldl_nil]
    by_cases hout : Outdates unicode r m s.world
    · have hbad := mt hstep.mp (not_not_intro hout)
      refine iff_of_false (fun hall => ?_) fun hno => hno.1 hout
      exact hbad ((syncedAt_foldl ms _ hm).mp (hall m))
    · have hsync : ∀ m', SyncedAt unicode (stepModule unicode r.args r.answers s m).world m' := by
        intro m'
        by_cases hm' : m' = m
        · rw [hm']
          exact hstep.mpr hout
        · exact (syncedAt_frame s hm').mpr (h m')
      exact (ih hms _ htop' hsync).trans ⟨fun hno => ⟨hout, hno⟩, fun hno => hno.2⟩

lemma moduleNames_nodup (r : Run) : r.moduleNames.Nodup := by
  have horder : MODULE_ORDER.Nodup := by decide
  simp only [Run.moduleNames, Args.modulesToGenerate]
  split_ifs
  · exact List.nodup_nil
  · split
    · exact horder
    · exact horder
    · exact horder.filter _

variable (unicode) in
lemma stepGenerate_world (r : Run) (w : World) :
    (stepGenerate unicode r.args r.answers w).world = (r.after unicode w r.moduleNames).world := by
  simp only [stepGenerate, Run.after, Run.moduleNames]
  split_ifs <;> rfl

lemma inSync_runs (runs : List Run) (w : World) (htop : NoTopContract w) (h : InSync unicode w) :
    (∀ rs, rs <+: runs → InSync unicode (afterRuns unicode w rs)) ↔
      ∀ rs r rs', runs = rs ++ r :: rs' → ∀ ms m ms', r.moduleNames = ms ++ m :: ms' →
        ¬Outdates unicode r m (r.after unicode (afterRuns unicode w rs) ms).world := by
  induction runs generalizing w with
  | nil =>
    refine iff_of_true (fun rs hrs => ?_) (by simp)
    rw [List.prefix_nil.mp hrs]
    exact h
  | cons r runs ih =>
    have hrun := synced_run r r.moduleNames (moduleNames_nodup r)
      ⟨w, [], []⟩ htop ((inSync_iff w).mp h)
    have hw' := stepGenerate_world unicode r w
    have hfirst : InSync unicode (stepGenerate unicode r.args r.answers w).world ↔
        ∀ ms m ms', r.moduleNames = ms ++ m :: ms' →
          ¬Outdates unicode r m (r.after unicode w ms).world := by
      rw [inSync_iff, hw']
      exact hrun
    have htop' : NoTopContract (stepGenerate unicode r.args r.answers w).world := by
      rw [hw']
      exact noTopContract_foldl _ htop
    rw [forall_split_cons]
    constructor
    · intro hall
      have hnext := hall [r] (by simp)
      refine ⟨hfirst.mp hnext, (ih _ htop' hnext).mp fun rs hrs => ?_⟩
      exact hall (r :: rs) (List.cons_prefix_cons.mpr ⟨rfl, hrs⟩)
    · rintro ⟨hno, hrest⟩ rs hrs
      rcases List.prefix_cons_iff.mp hrs with rfl | ⟨rs', rfl, hrs'⟩
      · exact h
      · exact (ih _ htop' (hfirst.mpr hno)).mpr hrest rs' hrs'

/-- From an empty directory the contracts are those of the files after every run if and only
if no generation outdates one. -/
theorem contracts_in_sync_iff (runs : List Run) :
    (∀ rs, rs <+: runs → InSync unicode (afterRuns unicode World.emptyDir rs)) ↔
      ∀ rs r rs', runs = rs ++ r :: rs' → ∀ ms m ms', r.moduleNames = ms ++ m :: ms' →
        ¬Outdates unicode r m (r.after unicode (afterRuns unicode World.emptyDir rs) ms).world := by
  refine inSync_runs runs _ rfl ?_
  intro m c hm
  simp [World.metaFiles, World.emptyDir, OrderedDict.empty] at hm

end

/-- A run for `alu` alone, with one attempt. -/
def aluRun (text : String) (errors : List Text) : Run :=
  ⟨⟨false, some "alu".toList, 1⟩,
    ⟨fun _ => ⟨.ok (), .ok (), .ok (), .ok text.toList, fun _ => .ok errors, fun _ => .ok []⟩,
      .ok (), .ok (), .ok []⟩⟩

/-- The second run leaves a module with another port, and the contract of the first. -/
theorem contracts_in_sync_fails :
    ¬∀ rs, rs <+: [aluRun "module alu(input a);\nendmodule" [],
        aluRun "module alu(input b);\nendmodule" ["%Error: syntax error".toList]] →
      InSync (fun _ => false) (afterRuns (fun _ => false) World.emptyDir rs) := by
  intro hall
  have hsync := (inSync_iff _).mp (hall _ List.prefix_rfl) "alu"
  have hc : (afterRuns (fun _ => false) World.emptyDir
      [aluRun "module alu(input a);\nendmodule" [],
        aluRun "module alu(input b);\nendmodule" ["%Error: syntax error".toList]]).contracts.get?
      "alu" = some ⟨"alu".toList, [⟨"input".toList, ['1'], ['a']⟩]⟩ := by decide +kernel
  have hv : (afterRuns (fun _ => false) World.emptyDir
      [aluRun "module alu(input a);\nendmodule" [],
        aluRun "module alu(input b);\nendmodule" ["%Error: syntax error".toList]]).verilog.get?
      "alu" = some "module alu(input b);\nendmodule\n".toList := by decide +kernel
  obtain ⟨text, htext, hports⟩ := hsync _ hc
  obtain rfl := Option.some.inj (hv.symm.trans htext)
  have hb : extractPorts (fun _ => false) "module alu(input b);\nendmodule\n".toList =
      ⟨"alu".toList, [⟨"input".toList, ['1'], ['b']⟩]⟩ := by decide +kernel
  rw [hb] at hports
  simp at hports

end Rv32iRtl
