import Rv32iRtl.VerilogText

/-! The semantic checks of `validator.py`. -/
namespace Rv32iRtl

open Backtrack Backtrack.Regex

/-- A pattern to be found somewhere in the text, or a test of the text. -/
inductive Rule
  | pattern (r : Regex Char)
  | test (p : Text → Bool)

namespace Rule

def passes (verilog : Text) : Rule → Bool
  | pattern r => (r.search verilog).isSome
  | test p => p verilog

end Rule

/-- Literals in this order, with anything between them (`.*` under `DOTALL`). -/
def literals : Text → List Text → Regex Char
  | l, [] => lit l
  | l, l' :: ls => seq (lit l) (seq (many true fun _ => true) (literals l' ls))

/-- `v.split(sep)[1]` of a text with the separator in it. -/
def secondPiece (sep verilog : Text) : Option Text :=
  ((lit sep).search verilog).map fun h => (lit sep).before h.rest

/-- `"3'b010" not in v.split(".mem_op")[1][:20] if ".mem_op" in v else True` -/
def memOpNotHardcoded (verilog : Text) : Bool :=
  match secondPiece ".mem_op".toList verilog with
  | some piece => !decide ("3'b010".toList <:+: piece.take 20)
  | none => true

def SIMULATION_RULES : String → List (Rule × String)
  | "top" => [
    (.pattern (seq (lit "mem".toList) (seq (many true isSpace) (lit "[0:65535]".toList))),
      "Memory must be 65536 words"),
    (.pattern (literals "$readmemh".toList []), "Must have $readmemh"),
    (.pattern (literals "$display".toList ["PC=".toList]), "Must have $display for pass detection"),
    (.pattern (literals "id_ex_is_auipc".toList ["id_ex_pc".toList]), "AUIPC must use PC not rs1"),
    (.pattern (literals "wb_sel".toList ["<=".toList, "_sel".toList]),
      "wb_sel must pipeline with data"),
    (.pattern (literals "ex_mem_funct3".toList []), "Must pipeline funct3 for LSU"),
    (.test memOpNotHardcoded, "LSU mem_op must not be hardcoded 3'b010"),
    (.pattern (alt (literals "alu_in_a".toList ["1100111".toList])
        (literals "id_ex_opcode".toList [])),
      "JALR must use forwarded alu_in_a and id_ex_opcode check"),
    (.pattern (literals "branch_taken_ex".toList []), "PC mux must check branch_taken_ex"),
    (.pattern (literals "mem[".toList ["17:2]".toList]),
      "Memory index must use pc[17:2] not pc[11:2] or pc[9:2]")]
  | "decoder" => [
    (.pattern (seq (lit "branch_funct3".toList) (seq (many true fun _ => true)
        (seq (lit "inst".toList) (seq (opt (lit "r".toList)) (lit "[14:12]".toList))))),
      "branch_funct3 must be instr[14:12]"),
    (.pattern (literals "7'b1110011".toList []), "Must handle CSR opcode"),
    (.pattern (literals "is_auipc".toList []), "Must output is_auipc flag")]
  | "hazard_unit" => [
    (.pattern (literals "branch_taken_ex".toList []),
      "Must use direct branch_taken_ex not registered")]
  | "csr_unit" => [
    (.pattern (alt (literals "12'hF14".toList ["32'h0".toList])
        (literals "mhartid".toList ["0".toList])),
      "mhartid must return 0")]
  | _ => []

/-- The violations, in the order of the rules. -/
def validate (verilog : Text) (moduleName : String) : List Text :=
  (SIMULATION_RULES moduleName).filterMap fun rule =>
    if rule.1.passes verilog then none else some ("SEMANTIC FAIL: " ++ rule.2).toList

/-- The outcome of a rule does not depend on them. -/
def Rule.Trimmed (rule : Rule) : Prop :=
  ∀ p n : Text, (∀ c ∈ n, isNewline c = true) → rule.passes (p ++ n) = rule.passes p

lemma trimmed_pattern {r : Regex Char} (hc : r.Consumes) (hs : r.Steady isNewline)
    (he : r.EndsOutside isNewline) : (Rule.pattern r).Trimmed := by
  intro p n hn
  simp only [Rule.passes]
  rw [search_trailing hc hs he hn, Option.isSome_map]

/-- A non-empty literal without newlines. -/
def Plain (l : Text) : Prop := l ≠ [] ∧ ∀ c ∈ l, isNewline c = false

lemma literals_spec {l : Text} {ls : List Text} (h : ∀ l' ∈ l :: ls, Plain l') :
    (literals l ls).Consumes ∧ (literals l ls).Steady isNewline ∧
      (literals l ls).EndsOutside isNewline := by
  induction ls generalizing l with
  | nil =>
    have hl := h l List.mem_cons_self
    exact ⟨consumes_lit hl.1, steady_lit l, endsOutside_lit hl.2⟩
  | cons l' ls ih =>
    obtain ⟨hl, hls⟩ := List.forall_mem_cons.mp h
    obtain ⟨hc, hs, he⟩ := ih hls
    exact ⟨Or.inl (consumes_lit hl.1), ⟨steady_lit l, trivial, hs⟩, ⟨he, Or.inr hc⟩,
      Or.inl (endsOutside_lit hl.2)⟩

lemma trimmed_literals {l : Text} {ls : List Text} (h : ∀ l' ∈ l :: ls, Plain l') :
    (Rule.pattern (literals l ls)).Trimmed :=
  trimmed_pattern (literals_spec h).1 (literals_spec h).2.1 (literals_spec h).2.2

lemma before_append {sep n : Text} (hsep : Plain sep) (hn : ∀ c ∈ n, isNewline c = true)
    (p : Text) : ∃ k, k <+: n ∧ (lit sep).before (p ++ n) = (lit sep).before p ++ k := by
  have hs := search_trailing (consumes_lit hsep.1) (steady_lit sep) (endsOutside_lit hsep.2) hn p
  simp only [before, hs]
  cases (lit sep).search p with
  | none => exact ⟨n, List.prefix_rfl, rfl⟩
  | some h =>
    refine ⟨[], List.nil_prefix, ?_⟩
    simp only [Option.map_some, extend, List.length_append, List.append_nil]
    rw [List.take_append_of_le_length (by omega)]
    congr 1
    omega

lemma secondPiece_append {sep n : Text} (hsep : Plain sep) (hn : ∀ c ∈ n, isNewline c = true)
    (p : Text) : ∃ k, k <+: n ∧
      secondPiece sep (p ++ n) = (secondPiece sep p).map (· ++ k) := by
  have hs := search_trailing (consumes_lit hsep.1) (steady_lit sep) (endsOutside_lit hsep.2) hn p
  simp only [secondPiece, hs]
  cases (lit sep).search p with
  | none => exact ⟨[], List.nil_prefix, rfl⟩
  | some h =>
    obtain ⟨k, hk, hb⟩ := before_append hsep hn h.rest
    exact ⟨k, hk, congrArg some hb⟩

lemma trimmed_memOp : (Rule.test memOpNotHardcoded).Trimmed := by
  intro p n hn
  have hplain : Plain ".mem_op".toList := by simp [Plain, isNewline]
  obtain ⟨k, hk, hpiece⟩ := secondPiece_append hplain hn p
  simp only [Rule.passes, memOpNotHardcoded, hpiece]
  cases secondPiece ".mem_op".toList p with
  | none => rfl
  | some piece =>
    have hkn : ∀ c ∈ k.take (20 - piece.length), isNewline c = true := fun c hc =>
      hn c (hk.subset (List.mem_of_mem_take hc))
    have hmemOp : Plain "3'b010".toList := by simp [Plain, isNewline]
    have hinf := TextLines.infix_append_breaks hmemOp.1 hmemOp.2 hkn (piece.take 20)
    simp only [Option.map_some]
    rw [List.take_append, decide_eq_decide.mpr hinf]

lemma trimmed_memoryWords :
    (Rule.pattern (seq (lit "mem".toList) (seq (many true isSpace)
      (lit "[0:65535]".toList)))).Trimmed := by
  refine trimmed_pattern ?_ ?_ ?_
  · exact Or.inl (consumes_lit (by simp))
  · exact ⟨steady_lit _, trivial, steady_lit _⟩
  · exact ⟨⟨endsOutside_lit (by simp [isNewline]), Or.inr (consumes_lit (by simp))⟩,
      Or.inl (endsOutside_lit (by simp [isNewline]))⟩

lemma trimmed_branchFunct3 :
    (Rule.pattern (seq (lit "branch_funct3".toList) (seq (many true fun _ => true)
      (seq (lit "inst".toList) (seq (opt (lit "r".toList))
        (lit "[14:12]".toList)))))).Trimmed := by
  have hbits : (lit "[14:12]".toList).Consumes := consumes_lit (by simp)
  refine trimmed_pattern ?_ ?_ ?_
  · exact Or.inl (consumes_lit (by simp))
  · exact ⟨steady_lit _, trivial, steady_lit _, ⟨steady_lit _, trivial⟩, steady_lit _⟩
  · exact ⟨⟨⟨⟨endsOutside_lit (by simp [isNewline]), Or.inr hbits⟩, Or.inr (Or.inr hbits)⟩,
      Or.inr (Or.inl (consumes_lit (by simp)))⟩, Or.inl (endsOutside_lit (by simp [isNewline]))⟩

lemma trimmed_alt {l m : Text} {ls ms : List Text} (hl : ∀ l' ∈ l :: ls, Plain l')
    (hm : ∀ l' ∈ m :: ms, Plain l') :
    (Rule.pattern (alt (literals l ls) (literals m ms))).Trimmed := by
  obtain ⟨hc, hs, he⟩ := literals_spec hl
  obtain ⟨hc', hs', he'⟩ := literals_spec hm
  exact trimmed_pattern ⟨hc, hc'⟩ ⟨hs, hs'⟩ ⟨he, he'⟩

lemma trimmed_rules (m : String) : ∀ rule ∈ SIMULATION_RULES m, rule.1.Trimmed := by
  unfold SIMULATION_RULES
  split
  · simp only [List.forall_mem_cons]
    refine ⟨trimmed_memoryWords, ?_, ?_, ?_, ?_, ?_, trimmed_memOp, ?_, ?_, ?_, by simp⟩
    · exact trimmed_literals (by simp [Plain, isNewline])
    · exact trimmed_literals (by simp [Plain, isNewline])
    · exact trimmed_literals (by simp [Plain, isNewline])
    · exact trimmed_literals (by simp [Plain, isNewline])
    · exact trimmed_literals (by simp [Plain, isNewline])
    · exact trimmed_alt (by simp [Plain, isNewline]) (by simp [Plain, isNewline])
    · exact trimmed_literals (by simp [Plain, isNewline])
    · exact trimmed_literals (by simp [Plain, isNewline])
  · simp only [List.forall_mem_cons]
    refine ⟨trimmed_branchFunct3, ?_, ?_, by simp⟩
    · exact trimmed_literals (by simp [Plain, isNewline])
    · exact trimmed_literals (by simp [Plain, isNewline])
  · simp only [List.forall_mem_cons]
    exact ⟨trimmed_literals (by simp [Plain, isNewline]), by simp⟩
  · simp only [List.forall_mem_cons]
    exact ⟨trimmed_alt (by simp [Plain, isNewline]) (by simp [Plain, isNewline]), by simp⟩
  · simp

lemma validate_append {n : Text} (hn : ∀ c ∈ n, isNewline c = true) (p : Text) (m : String) :
    validate (p ++ n) m = validate p m := by
  refine List.filterMap_congr fun rule hrule => ?_
  rw [trimmed_rules m rule hrule p n hn]

theorem validate_normalize (verilog : Text) (m : String) :
    validate (normalizeVerilogText verilog) m = validate verilog m := by
  obtain ⟨p, n, rfl, hnorm, hn⟩ := normalize_split verilog
  have hnl : ∀ c ∈ ['\n'], isNewline c = true := by simp [isNewline]
  rw [hnorm, validate_append hnl, validate_append hn]

end Rv32iRtl
