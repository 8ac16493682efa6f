import Rv32iRtl.LeftmostMatch
import Rv32iRtl.SeparatedList
import Rv32iRtl.ContractSync
import Rv32iRtl.VerifiedReports

/-! The port contracts in the prompt for `top`: they can be read back from its text, and each
of them is that of a module that the linter and the validator have accepted. -/
namespace Rv32iRtl

open Backtrack TextScan

/-- The digit `1`, or a range up to its bracket. -/
def readWidth : Pattern Char Text := fun cs =>
  if cs.head? = some '[' then
    groups (fun m => '[' :: m.2.1 ++ [']'])
      (seq (lit "[".toList) (seq (plus (· ≠ ']')) (lit "]".toList))) cs
  else plus (· ≠ ' ') cs

section Reader

variable (unicode : Char → Bool)

/-- A line of `Port.format`. -/
def readPort : Pattern Char Port :=
  groups (fun m => ⟨m.2.1, m.2.2.2.1, m.2.2.2.2.2⟩)
    (seq (lit "  ".toList) (seq (plus (· ≠ ' '))
      (seq (lit " ".toList) (seq readWidth
        (seq (lit " ".toList) (plus (isWord unicode)))))))

/-- The end of a line, if a port follows. -/
def nextPort (cs : Text) : Option Text :=
  if "\n  ".toList <+: cs then some (cs.drop 1) else none

def readPorts (n : ℕ) : Pattern Char (List Port) := fun cs =>
  if "  ".toList <+: cs then sepBy (readPort unicode) nextPort n cs else some ([], cs)

def readContract (n : ℕ) : Pattern Char Contract :=
  groups (fun m => ⟨m.2.1, m.2.2.2⟩)
    (seq (lit "// ".toList) (seq (plus (isWord unicode))
      (seq (lit "\n".toList) (readPorts unicode n))))

def nextContract (cs : Text) : Option Text :=
  if "\n\n".toList <+: cs then some (cs.drop 2) else none

/-- The contracts of a text of `buildPortContracts`. -/
def readPortContracts (text : Text) : Option (List Contract) :=
  (lit "=== EXACT PORT CONTRACTS ===\n".toList text).bind fun m =>
    if m.2 = [] then some []
    else (sepBy (readContract unicode m.2.length) nextContract m.2.length m.2).bind fun m' =>
      if m'.2 = [] then some m'.1 else none

end Reader

section Readable

variable (unicode : Char → Bool)

/-- Word characters only, and at least one. -/
def IsName (t : Text) : Prop := t ≠ [] ∧ ∀ c ∈ t, isWord unicode c = true

structure Port.Readable (p : Port) : Prop where
  direction : p.direction = "input".toList ∨ p.direction = "output".toList
  width : p.width = ['1'] ∨ ∃ w, w ≠ [] ∧ ']' ∉ w ∧ p.width = '[' :: w ++ [']']
  name : IsName unicode p.name

structure Contract.Readable (c : Contract) : Prop where
  moduleName : IsName unicode c.moduleName
  ports : ∀ p ∈ c.ports, p.Readable unicode

/-- What the groups of the port pattern may hold. -/
def PortCapture : ℕ → Text → Prop
  | 1, t => t = "input".toList ∨ t = "output".toList
  | 2, t => ']' ∉ t
  | 3, t => IsName unicode t
  | _, _ => True

variable {unicode}

lemma isName_of_plus {prev : Option Char} {cs : Text} {h : Hit Char}
    (hm : h ∈ (Regex.plus (isWord unicode)).hits prev cs) : IsName unicode h.text :=
  ⟨Regex.text_ne_nil (consumes_plus _) hm, Regex.mem_plus hm⟩

lemma portRe_captures : (portRe unicode).Captures (PortCapture unicode) := by
  have hlit : ∀ l : Text, (Regex.lit l).Captures (PortCapture unicode) := Regex.captures_lit
  have hplus : ∀ P : Char → Bool, (Regex.plus P).Captures (PortCapture unicode) :=
    fun P => ⟨trivial, trivial⟩
  refine ⟨⟨⟨hlit _, hlit _⟩, ?_⟩, hplus _,
    ⟨⟨⟨hlit _, hplus _⟩, ⟨hlit _, hplus _⟩⟩, trivial⟩,
    ⟨⟨hlit _, ⟨hplus _, ?_⟩, hlit _, hplus _⟩, trivial⟩, hplus _, ?_⟩
  · intro prev cs h hm
    rcases List.mem_append.mp hm with hm | hm
    · exact Or.inl (congrArg Hit.text (Regex.mem_lit hm).2)
    · exact Or.inr (congrArg Hit.text (Regex.mem_lit hm).2)
  · intro prev cs h hm hmem
    have hclass := Regex.mem_plus hm ']' hmem
    simp at hclass
  · intro prev cs h hm
    exact isName_of_plus hm

lemma portOf_readable {prev : Option Char} {cs : Text} {h : Hit Char}
    (hm : h ∈ (portRe unicode).hits prev cs) {p : Port} (hp : portOf h = some p) :
    p.Readable unicode := by
  have hset1 : (portRe unicode).Sets 1 := Or.inl (Or.inl rfl)
  have hset3 : (portRe unicode).Sets 3 := Or.inr (Or.inr (Or.inr (Or.inr (Or.inl rfl))))
  obtain ⟨d, hd, hdir⟩ := Regex.group_of_captures portRe_captures hset1 hm
  obtain ⟨n, hn, hname⟩ := Regex.group_of_captures portRe_captures hset3 hm
  have hw : ∀ w, h.group 2 = some w → ']' ∉ w :=
    fun w hw => Regex.groups_of_captures portRe_captures hm _ (Regex.mem_of_group hw)
  simp only [portOf, hd, hn, Option.getD_some] at hp
  split_ifs at hp with hkey hwidth
  · obtain rfl := Option.some.inj hp
    exact ⟨hdir, Or.inl rfl, hname⟩
  · obtain rfl := Option.some.inj hp
    cases hg : h.group 2 with
    | none =>
      rw [hg] at hwidth
      contradiction
    | some w =>
      rw [hg] at hwidth
      exact ⟨hdir, Or.inr ⟨w, hwidth, hw w hg, rfl⟩, hname⟩

lemma extractModuleName_isName (v : Text) : IsName unicode (extractModuleName unicode v) := by
  unfold extractModuleName
  cases hs : (moduleNameRe unicode).search v with
  | none =>
    have hword : ∀ c ∈ "unknown".toList, isWord unicode c = true := by simp [isWord]
    exact ⟨List.cons_ne_nil _ _, hword⟩
  | some h =>
    have hcap : (moduleNameRe unicode).Captures fun _ t => IsName unicode t :=
      ⟨trivial, Regex.captures_lit _, ⟨trivial, trivial⟩, ⟨trivial, trivial⟩,
        fun _ _ _ hm => isName_of_plus hm⟩
    have hset : (moduleNameRe unicode).Sets 1 := Or.inr (Or.inr (Or.inr (Or.inl rfl)))
    obtain ⟨prev, hm⟩ := Regex.mem_findAll (List.mem_of_head? hs)
    obtain ⟨t, ht, hname⟩ := Regex.group_of_captures hcap hset hm
    simpa [ht] using hname

lemma extractPorts_readable (v : Text) : (extractPorts unicode v).Readable unicode where
  moduleName := extractModuleName_isName v
  ports := by
    intro p hp
    obtain ⟨h, hm, hport⟩ := List.mem_filterMap.mp hp
    obtain ⟨prev, hhit⟩ := Regex.mem_findAll hm
    exact portOf_readable hhit hport

end Readable

section Reading

variable {unicode : Char → Bool}

/-- A port ends where its line ends. -/
def LineEnds (cs : Text) : Prop := ∀ c ∈ cs.head?, c = '\n'

lemma readWidth_append {p : Port} (hp : p.Readable unicode) (cs : Text) :
    readWidth (p.width ++ ' ' :: cs) = some (p.width, ' ' :: cs) := by
  rcases hp.width with h | ⟨w, hne, hw, h⟩
  · rw [h]
    rfl
  · have hclass : ∀ c ∈ w, decide (c ≠ ']') = true :=
      fun c hc => decide_eq_true fun heq => hw (heq ▸ hc)
    have hrange : plus (fun c => decide (c ≠ ']')) (w ++ ']' :: ' ' :: cs) =
        some (w, ']' :: ' ' :: cs) := plus_append hne hclass (by simp)
    have hopen : lit "[".toList ('[' :: (w ++ ']' :: ' ' :: cs)) =
        some ("[".toList, w ++ ']' :: ' ' :: cs) := lit_append "[".toList _
    have hclose : lit "]".toList (']' :: ' ' :: cs) = some ("]".toList, ' ' :: cs) :=
      lit_append "]".toList _
    have htext : p.width ++ ' ' :: cs = '[' :: (w ++ ']' :: ' ' :: cs) := by simp [h]
    have hread := groups_some (f := fun m : Text × Text × Text => '[' :: m.2.1 ++ [']'])
      (seq_some hopen (seq_some hrange hclose))
    rw [htext, readWidth, List.head?_cons, if_pos rfl, h]
    exact hread

lemma readPort_format {p : Port} (hp : p.Readable unicode) {cs : Text} (hcs : LineEnds cs) :
    readPort unicode (p.format ++ cs) = some (p, cs) := by
  have hdir : p.direction ≠ [] ∧ ∀ c ∈ p.direction, decide (c ≠ ' ') = true := by
    rcases hp.direction with h | h <;> rw [h] <;> simp
  have hend : ∀ c ∈ cs.head?, isWord unicode c = false := by
    intro c hc
    rw [hcs c hc]
    rfl
  have hindent := lit_append "  ".toList
    (p.direction ++ ' ' :: (p.width ++ ' ' :: (p.name ++ cs)))
  have hspace : ∀ t : Text, lit " ".toList (' ' :: t) = some (" ".toList, t) :=
    fun t => lit_append " ".toList t
  have hd : plus (fun c => decide (c ≠ ' ')) (p.direction ++ ' ' :: (p.width ++ ' ' ::
      (p.name ++ cs))) = some (p.direction, ' ' :: (p.width ++ ' ' :: (p.name ++ cs))) :=
    plus_append hdir.1 hdir.2 (by simp)
  have hn := plus_front hp.name.1 hp.name.2 hend
  have htext : p.format ++ cs = "  ".toList ++ (p.direction ++ ' ' :: (p.width ++ ' ' ::
      (p.name ++ cs))) := by simp [Port.format]
  rw [htext]
  exact groups_some (seq_some hindent (seq_some hd (seq_some (hspace _)
    (seq_some (readWidth_append hp _) (seq_some (hspace _) hn)))))

lemma format_prefix (p : Port) (cs : Text) : "  ".toList <+: p.format ++ cs := by
  simp [Port.format]

/-- Behind a contract there is nothing, or a blank line. -/
def ContractEnds (cs : Text) : Prop := cs = [] ∨ ∃ u, cs = '\n' :: '\n' :: u

lemma ContractEnds.line {cs : Text} (h : ContractEnds cs) :
    LineEnds cs ∧ nextPort cs = none ∧ ¬"  ".toList <+: cs := by
  rcases h with rfl | ⟨u, rfl⟩
  · exact ⟨by simp [LineEnds], rfl, by simp⟩
  · exact ⟨by simp [LineEnds], by simp [nextPort], by simp⟩

lemma readPorts_format {ps : List Port} (hps : ∀ p ∈ ps, p.Readable unicode) {cs : Text}
    (hcs : ContractEnds cs) {n : ℕ} (hn : ps.length ≤ n) :
    readPorts unicode n (['\n'].intercalate (ps.map Port.format) ++ cs) = some (ps, cs) := by
  obtain ⟨hline, hnext, hno⟩ := hcs.line
  cases ps with
  | nil => exact if_neg hno
  | cons p ps =>
    have hfront : "  ".toList <+: ['\n'].intercalate ((p :: ps).map Port.format) ++ cs := by
      cases ps with
      | nil =>
        rw [List.map_cons, List.map_nil, List.intercalate_singleton]
        exact format_prefix p cs
      | cons q ps =>
        rw [List.map_cons, List.map_cons, List.intercalate_cons_cons, List.append_assoc,
          List.append_assoc]
        exact format_prefix p _
    have hsep : ∀ q ∈ p :: ps, ∀ t, nextPort (['\n'] ++ (q.format ++ t)) = some (q.format ++ t) := by
      intro q _ t
      have hpre : "\n  ".toList <+: ['\n'] ++ (q.format ++ t) :=
        List.cons_prefix_cons.mpr ⟨rfl, format_prefix q t⟩
      rw [nextPort, if_pos hpre]
      rfl
    rw [readPorts, if_pos hfront]
    refine sepBy_intercalate LineEnds (List.cons_ne_nil p ps)
      (fun q hq t ht => readPort_format (hps q hq) ht) hsep (fun q _ t => ?_) hline hnext hn
    simp [LineEnds]

lemma readContract_format {c : Contract} (hc : c.Readable unicode) {cs : Text}
    (hcs : ContractEnds cs) {n : ℕ} (hn : c.ports.length ≤ n) :
    readContract unicode n (c.format ++ cs) = some (c, cs) := by
  have hmark := lit_append "// ".toList (c.moduleName ++ '\n' ::
    (['\n'].intercalate (c.ports.map Port.format) ++ cs))
  have hname : plus (isWord unicode) (c.moduleName ++ '\n' ::
      (['\n'].intercalate (c.ports.map Port.format) ++ cs)) = some (c.moduleName, '\n' ::
      (['\n'].intercalate (c.ports.map Port.format) ++ cs)) :=
    plus_append hc.moduleName.1 hc.moduleName.2 rfl
  have hline : ∀ t : Text, lit "\n".toList ('\n' :: t) = some ("\n".toList, t) :=
    fun t => lit_append "\n".toList t
  have htext : c.format ++ cs = "// ".toList ++ (c.moduleName ++ '\n' ::
      (['\n'].intercalate (c.ports.map Port.format) ++ cs)) := by simp [Contract.format]
  rw [htext]
  exact groups_some (seq_some hmark (seq_some hname (seq_some (hline _)
    (readPorts_format hc.ports hcs hn))))

lemma Contract.format_ne_nil (c : Contract) : c.format ≠ [] := by
  simp [Contract.format]

lemma ports_length_le (c : Contract) : c.ports.length ≤ c.format.length := by
  have hport : ∀ p ∈ c.ports, p.format ≠ [] := fun p _ => by simp [Port.format]
  have hle := length_le_intercalate (s := ['\n']) hport
  rw [Contract.format, List.length_append]
  omega

/-- A text of contracts determines the contracts. -/
theorem readPortContracts_format {cs : List Contract} (hcs : ∀ c ∈ cs, c.Readable unicode) :
    readPortContracts unicode ("=== EXACT PORT CONTRACTS ===\n".toList ++
      "\n\n".toList.intercalate (cs.map Contract.format)) = some cs := by
  rw [readPortContracts, lit_append, Option.bind_some]
  cases cs with
  | nil => rfl
  | cons c cs =>
    let body := "\n\n".toList.intercalate ((c :: cs).map Contract.format)
    have hlen : (c :: cs).length ≤ body.length :=
      length_le_intercalate fun d _ => d.format_ne_nil
    have hne : body ≠ [] := List.length_pos_iff.mp (Nat.lt_of_lt_of_le (Nat.succ_pos _) hlen)
    have hread : sepBy (readContract unicode body.length) nextContract body.length (body ++ []) =
        some (c :: cs, []) := by
      refine sepBy_intercalate ContractEnds (List.cons_ne_nil c cs)
        (fun d hd t ht => readContract_format (hcs d hd) ht ?_) (fun d _ t => rfl)
        (fun d _ t => Or.inr ⟨_, rfl⟩) (Or.inl rfl) rfl hlen
      exact (ports_length_le d).trans
        (length_le_of_mem_intercalate (List.mem_map_of_mem (f := Contract.format) hd))
    rw [List.append_nil] at hread
    change (if body = [] then some [] else
      (sepBy (readContract unicode body.length) nextContract body.length body).bind _) = _
    rw [if_neg hne, hread]
    rfl

end Reading

section Runs

variable (unicode : Char → Bool)

/-- The contract is that of a text which the linter, in its file, and the validator passed
without errors. -/
def PassedChecks (m : String) (c : Contract) (events : List Event) : Prop :=
  ∃ v, extractPorts unicode v = c ∧
    (∃ allFiles, .lintCheck m allFiles (some (normalizeVerilogText v)) [] ∈ events) ∧
    .validate m v [] ∈ events

/-- Contract files are there for accepted modules only, and not for `top`. -/
def ContractsEarned (w : World) : Prop :=
  ∀ m c, w.contracts.get? m = some c →
    m ∈ MODULE_ORDER ∧ m ≠ "top" ∧ PassedChecks unicode m c w.events

variable {unicode}

lemma PassedChecks.append {m : String} {c : Contract} {events : List Event}
    (h : PassedChecks unicode m c events) (es : List Event) :
    PassedChecks unicode m c (events ++ es) := by
  obtain ⟨v, hv, ⟨allFiles, hlint⟩, hval⟩ := h
  exact ⟨v, hv, ⟨allFiles, List.mem_append_left es hlint⟩, List.mem_append_left es hval⟩

/-- The contract file is written when the generation returns, and only then. -/
lemma generateWithLintFix_contracts {validate : ℕ → Text → List Text} {m : String}
    {allFiles : List String} {maxIterations : ℕ} {a : Answers} (w : World) :
    let run := generateWithLintFix validate m allFiles maxIterations a unicode w
    (∀ e, run.1 = .error e → run.2.contracts = w.contracts) ∧
      ∀ v, run.1 = .ok v → run.2.contracts = w.contracts.set m (extractPorts unicode v) := by
  intro run
  rcases generateWithLintFix_cases unicode w with ⟨e, -, heq⟩ | ⟨first, e, -, -, heq⟩ |
    ⟨first, k, hfirst, hk⟩
  · have hrun : run = (.error (.other e), w) := heq
    rw [hrun]
    exact ⟨fun _ _ => rfl, fun v hv => by contradiction⟩
  · have hrun : run = (.error (.other e), w.writeVerilog m (normalizeVerilogText first)) := heq
    rw [hrun]
    exact ⟨fun _ _ => rfl, fun v hv => by contradiction⟩
  · have hrun := generateWithLintFix_eq m allFiles unicode hfirst hk w
    change run = _ at hrun
    rw [hrun]
    cases verdict validate m maxIterations a first k with
    | error e => exact ⟨fun _ _ => rfl, fun v hv => by contradiction⟩
    | ok v =>
      refine ⟨fun e he => by contradiction, fun v' hv => ?_⟩
      obtain rfl := Except.ok.inj hv
      rfl

variable {r : Run}

variable (unicode r) in
/-- A turn of the loop adds at most one contract, with the checks that it was accepted in. -/
lemma stepModule_contract (s : Session) (m : String) :
    let w' := (stepModule unicode r.args r.answers s m).world
    w'.contracts = s.world.contracts ∨
      m ≠ "top" ∧ ∃ c, w'.contracts = s.world.contracts.set m c ∧ PassedChecks unicode m c w'.events := by
  intro w'
  by_cases htop : m = "top"
  · rcases stepModule_files unicode r s m with ⟨-, hc, -⟩ | ⟨hne, -⟩
    · exact Or.inl hc
    · exact absurd htop hne
  · obtain ⟨herror, hok⟩ := @generateWithLintFix_contracts unicode (moduleCheck m) m
      s.acceptedFiles r.args.maxIterations (r.answers.generate m) s.world
    have hreturned := @generateWithLintFix_ok (moduleCheck m) m s.acceptedFiles
      r.args.maxIterations (r.answers.generate m) unicode s.world
    have hw' : w' = (stepModule unicode r.args r.answers s m).world := rfl
    simp only [stepModule, if_neg htop, generateModule] at hw'
    cases hrun : generateWithLintFix (moduleCheck m) m s.acceptedFiles r.args.maxIterations
        (r.answers.generate m) unicode s.world with
    | mk result w =>
      rw [hrun] at herror hok hw'
      simp only [hrun] at hreturned
      cases result with
      | error e =>
        refine Or.inl ?_
        have hcontracts := herror e rfl
        cases e <;> rw [hw'] <;> exact hcontracts
      | ok v =>
        obtain ⟨-, hlint, hval, -⟩ := hreturned rfl
        refine Or.inr ⟨htop, extractPorts unicode v, ?_, v, rfl, ⟨s.acceptedFiles, ?_⟩, ?_⟩
        · rw [hw']
          exact hok v rfl
        · rw [hw']
          exact List.mem_append_left _ hlint
        · rw [hw']
          exact List.mem_append_left _ hval

variable (unicode r) in
lemma stepModule_history (s : Session) (m : String) :
    ∃ es, (stepModule unicode r.args r.answers s m).world.events = s.world.events ++ es := by
  obtain ⟨es, -, ⟨-, disk, hev, -⟩ | ⟨-, -, disk, hev⟩ | ⟨-, hev⟩⟩ :=
    stepModule_events unicode r.args r.answers s m
  · exact ⟨es ++ [.reported m disk], by rw [hev, List.append_assoc]⟩
  · exact ⟨es ++ [.reported m disk], by rw [hev, List.append_assoc]⟩
  · exact ⟨es, hev⟩

lemma contractsEarned_stepModule {s : Session} (h : ContractsEarned unicode s.world) {m : String}
    (hm : m ∈ MODULE_ORDER) :
    ContractsEarned unicode (stepModule unicode r.args r.answers s m).world := by
  obtain ⟨es, hes⟩ := stepModule_history unicode r s m
  have hold : ∀ m' c, s.world.contracts.get? m' = some c → m' ∈ MODULE_ORDER ∧ m' ≠ "top" ∧
      PassedChecks unicode m' c (stepModule unicode r.args r.answers s m).world.events := by
    intro m' c hc
    obtain ⟨hm', htop, hacc⟩ := h m' c hc
    exact ⟨hm', htop, hes ▸ hacc.append es⟩
  rcases stepModule_contract unicode r s m with hsame | ⟨htop, c, hset, hacc⟩
  · intro m' c hc
    rw [hsame] at hc
    exact hold m' c hc
  · intro m' c' hc
    rw [hset, OrderedDict.get?_set] at hc
    split_ifs at hc with heq
    · obtain rfl := Option.some.inj hc
      exact heq ▸ ⟨hm, htop, hacc⟩
    · exact hold m' c' hc

lemma contractsEarned_foldl {ms : List String} (hms : ∀ m ∈ ms, m ∈ MODULE_ORDER) {s : Session}
    (h : ContractsEarned unicode s.world) :
    ContractsEarned unicode (ms.foldl (stepModule unicode r.args r.answers) s).world := by
  induction ms generalizing s with
  | nil => exact h
  | cons m ms ih =>
    have hstep := contractsEarned_stepModule (r := r) h (hms m List.mem_cons_self)
    exact ih (fun x hx => hms x (List.mem_cons_of_mem m hx)) hstep

lemma mem_moduleOrder (r : Run) : ∀ m ∈ r.moduleNames, m ∈ MODULE_ORDER := by
  intro m hm
  simp only [Run.moduleNames, Args.modulesToGenerate] at hm
  split_ifs at hm
  · contradiction
  · split at hm
    · exact hm
    · exact hm
    · exact (List.mem_filter.mp hm).1

lemma contractsEarned_runs {runs : List Run} {w : World} (h : ContractsEarned unicode w) :
    ContractsEarned unicode (afterRuns unicode w runs) := by
  induction runs generalizing w with
  | nil => exact h
  | cons r runs ih =>
    have hrun := contractsEarned_foldl (r := r) (s := ⟨w, [], []⟩) (mem_moduleOrder r) h
    rw [← generateModules, ← Run.after, ← stepGenerate_world] at hrun
    exact ih hrun

/-- Whenever a prompt for `top` may be made, in any history of runs from an empty directory, all
contracts can be read back from its text, and each is that of an accepted module. -/
theorem port_contracts_read_back (runs : List Run) (r : Run) (k : ℕ) :
    let w := (r.after unicode (afterRuns unicode World.emptyDir runs) (r.moduleNames.take k)).world
    readPortContracts unicode (buildPortContracts w) = some (w.metaFiles.map Prod.snd) ∧
      ∀ m c, (m, c) ∈ w.metaFiles →
        m ∈ MODULE_ORDER ∧ m ≠ "top" ∧ PassedChecks unicode m c w.events := by
  intro w
  have hempty : ContractsEarned unicode World.emptyDir := by
    intro m c hc
    contradiction
  have hearned : ContractsEarned unicode w :=
    contractsEarned_foldl (fun m hm => mem_moduleOrder r m (List.mem_of_mem_take hm))
      (contractsEarned_runs hempty)
  have hfiles : ∀ m c, (m, c) ∈ w.metaFiles →
      m ∈ MODULE_ORDER ∧ m ≠ "top" ∧ PassedChecks unicode m c w.events := by
    intro m c hmc
    rw [World.metaFiles, List.mem_mergeSort, OrderedDict.mem_entries_iff] at hmc
    exact hearned m c hmc
  refine ⟨?_, hfiles⟩
  have hread : ∀ c ∈ w.metaFiles.map Prod.snd, c.Readable unicode := by
    intro c hc
    obtain ⟨⟨m, c⟩, hmc, rfl⟩ := List.mem_map.mp hc
    obtain ⟨-, -, v, rfl, -⟩ := hfiles m c hmc
    exact extractPorts_readable v
  have h := readPortContracts_format hread
  rw [List.map_map] at h
  exact h

end Runs

end Rv32iRtl
