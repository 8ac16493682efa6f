import Rv32iRtl.InOrder
import Rv32iRtl.PortList
import Rv32iRtl.Validator

/-! What the semantic checks find in the comments of a text. -/
namespace Rv32iRtl

open Backtrack Backtrack.Regex

/-- What a place of a Verilog text belongs to. -/
inductive Region
  | code
  | string
  | escapedIdentifier
  | lineComment
  | blockComment

/-- The text without its comments, given where it starts. The newline behind a line comment is not
part of it. -/
def removeComments : Region → Text → Text
  | _, [] => []
  | .code, '/' :: '/' :: cs => removeComments .lineComment cs
  | .code, '/' :: '*' :: cs => removeComments .blockComment cs
  | .code, c :: cs => c :: removeComments
      (if c = '\x22' then .string else if c = '\x5c' then .escapedIdentifier else .code) cs
  | .string, '\x5c' :: c :: cs => '\x5c' :: c :: removeComments .string cs
  | .string, c :: cs => c :: removeComments (if c = '\x22' ∨ c = '\n' then .code else .string) cs
  | .escapedIdentifier, c :: cs =>
    c :: removeComments (if isBlank c then .code else .escapedIdentifier) cs
  | .lineComment, c :: cs =>
    if c = '\n' then c :: removeComments .code cs else removeComments .lineComment cs
  | .blockComment, '*' :: '/' :: cs => removeComments .code cs
  | .blockComment, _ :: cs => removeComments .blockComment cs

def withoutComments (verilog : Text) : Text := removeComments .code verilog

example : withoutComments "a // b\n/* c */\"// d\" \\e/*f /*g".toList =
    "a \n\"// d\" \\e/*f ".toList := by decide +kernel

/-- The characters of the text, with a mark on those that stand in a comment. -/
def marks : Region → Text → List (Char × Bool)
  | _, [] => []
  | .code, '/' :: '/' :: cs => ('/', true) :: ('/', true) :: marks .lineComment cs
  | .code, '/' :: '*' :: cs => ('/', true) :: ('*', true) :: marks .blockComment cs
  | .code, c :: cs => (c, false) :: marks
      (if c = '\x22' then .string else if c = '\x5c' then .escapedIdentifier else .code) cs
  | .string, '\x5c' :: c :: cs => ('\x5c', false) :: (c, false) :: marks .string cs
  | .string, c :: cs => (c, false) :: marks (if c = '\x22' ∨ c = '\n' then .code else .string) cs
  | .escapedIdentifier, c :: cs =>
    (c, false) :: marks (if isBlank c then .code else .escapedIdentifier) cs
  | .lineComment, c :: cs =>
    if c = '\n' then (c, false) :: marks .code cs else (c, true) :: marks .lineComment cs
  | .blockComment, '*' :: '/' :: cs => ('*', true) :: ('/', true) :: marks .code cs
  | .blockComment, c :: cs => (c, true) :: marks .blockComment cs

def withMarks (verilog : Text) : List (Char × Bool) := marks .code verilog

/-- What a stretch of the text has besides comments. -/
def codeOf (m : List (Char × Bool)) : Text := (m.filter fun c => !c.2).map Prod.fst

lemma marks_text (r : Region) (verilog : Text) : (marks r verilog).map Prod.fst = verilog := by
  fun_induction marks r verilog <;> simp_all

lemma codeOf_mark (r : Region) (verilog : Text) :
    codeOf (marks r verilog) = removeComments r verilog := by
  fun_induction marks r verilog <;> simp_all [codeOf, removeComments]

lemma codeOf_append_iff {m : List (Char × Bool)} {x y : Text} :
    codeOf m = x ++ y ↔ ∃ a b, m = a ++ b ∧ codeOf a = x ∧ codeOf b = y := by
  constructor
  · intro h
    obtain ⟨p, q, hpq, rfl, rfl⟩ := List.map_eq_append_iff.mp h
    obtain ⟨a, b, rfl, rfl, rfl⟩ := List.filter_eq_append_iff.mp hpq
    exact ⟨a, b, rfl, rfl, rfl⟩
  · rintro ⟨a, b, rfl, rfl, rfl⟩
    rw [codeOf, List.filter_append, List.map_append]
    rfl

/-- The words stand in this order, each as the code of a stretch of the text. -/
def CodeInOrder : List Text → List (Char × Bool) → Prop
  | [], _ => True
  | l :: ls, m => ∃ u w v, m = u ++ (w ++ v) ∧ codeOf w = l ∧ CodeInOrder ls v

lemma codeInOrder_iff {ls : List Text} {m : List (Char × Bool)} :
    CodeInOrder ls m ↔ InOrder ls (codeOf m) := by
  induction ls generalizing m with
  | nil => exact Iff.rfl
  | cons l ls ih =>
    constructor
    · rintro ⟨u, w, v, rfl, rfl, hv⟩
      refine ⟨codeOf u, codeOf v, ?_, ih.mp hv⟩
      exact codeOf_append_iff.mpr ⟨u, w ++ v, rfl, rfl, codeOf_append_iff.mpr ⟨w, v, rfl, rfl, rfl⟩⟩
    · rintro ⟨x, y, heq, hy⟩
      obtain ⟨u, t, rfl, rfl, ht⟩ := codeOf_append_iff.mp heq
      obtain ⟨w, v, rfl, rfl, rfl⟩ := codeOf_append_iff.mp ht
      exact ⟨u, w, v, rfl, rfl, ih.mpr hy⟩

def memOpPort : Text := ".mem_op".toList
def wordSize : Text := "3'b010".toList

/-- Behind the first `.mem_op` there are at most 14 characters, with no second one among them, and
then `3'b010`. -/
def Hardcoded (verilog : Text) : Prop :=
  ∃ u w v, verilog = u ++ (memOpPort ++ (w ++ (wordSize ++ v))) ∧ ¬memOpPort <:+: u ∧
    ¬memOpPort <:+: w ∧ w.length ≤ 14

/-- The same of the code: the words, and what is between them, may be broken by comments. -/
def HardcodedInCode (m : List (Char × Bool)) : Prop :=
  ∃ u d w b v, m = u ++ (d ++ (w ++ (b ++ v))) ∧ codeOf d = memOpPort ∧ codeOf b = wordSize ∧
    ¬memOpPort <:+: codeOf u ∧ ¬memOpPort <:+: codeOf w ∧ (codeOf w).length ≤ 14

lemma hardcodedInCode_iff {m : List (Char × Bool)} : HardcodedInCode m ↔ Hardcoded (codeOf m) := by
  constructor
  · rintro ⟨u, d, w, b, v, rfl, hd, hb, hu, hw, hlen⟩
    refine ⟨codeOf u, codeOf w, codeOf v, ?_, hu, hw, hlen⟩
    have hbv : codeOf (b ++ v) = wordSize ++ codeOf v := codeOf_append_iff.mpr ⟨b, v, rfl, hb, rfl⟩
    have hwbv := codeOf_append_iff.mpr ⟨w, b ++ v, rfl, rfl, hbv⟩
    have hdwbv := codeOf_append_iff.mpr ⟨d, w ++ (b ++ v), rfl, hd, hwbv⟩
    exact codeOf_append_iff.mpr ⟨u, d ++ (w ++ (b ++ v)), rfl, rfl, hdwbv⟩
  · rintro ⟨x, y, z, heq, hx, hy, hlen⟩
    obtain ⟨u, t, rfl, rfl, ht⟩ := codeOf_append_iff.mp heq
    obtain ⟨d, t', rfl, hd, ht'⟩ := codeOf_append_iff.mp ht
    obtain ⟨w, t'', rfl, rfl, ht''⟩ := codeOf_append_iff.mp ht'
    obtain ⟨b, v, rfl, hb, rfl⟩ := codeOf_append_iff.mp ht''
    exact ⟨u, d, w, b, v, rfl, hd, hb, hx, hy, hlen⟩

/-- `3'b010` stands in the piece if it stands before the next `.mem_op`. -/
lemma wordSize_in_piece {piece rest w v : Text} (hrest : rest = [] ∨ memOpPort <+: rest)
    (heq : piece ++ rest = w ++ (wordSize ++ v)) (hw : ¬memOpPort <:+: w) :
    ∃ t, piece = w ++ (wordSize ++ t) := by
  rcases hrest with rfl | ⟨q, rfl⟩
  · exact ⟨v, by rw [← heq, List.append_nil]⟩
  · rcases List.append_eq_append_iff.mp heq with ⟨a, rfl, ha⟩ | ⟨a, rfl, ha⟩
    · rcases List.append_eq_append_iff.mp ha with ⟨b, rfl, -⟩ | ⟨b, hb, hv⟩
      · exact absurd ⟨piece, b, List.append_assoc _ _ _⟩ hw
      · cases b with
        | nil =>
          rw [List.append_nil] at hb
          exact absurd ⟨piece, [], by rw [hb, List.append_nil]⟩ hw
        | cons d b =>
          have hd : d ∈ memOpPort := by simp [hb]
          obtain rfl : '3' = d := (List.cons.inj hv).1
          exact absurd hd (by decide)
    · rcases List.append_eq_append_iff.mp ha with ⟨b, rfl, -⟩ | ⟨b, hb, hv⟩
      · exact ⟨b, rfl⟩
      · cases b with
        | nil =>
          rw [List.append_nil] at hb
          exact ⟨[], by rw [hb, List.append_nil]⟩
        | cons d b =>
          have hd : d ∈ wordSize := by simp [hb]
          obtain rfl : '.' = d := (List.cons.inj hv).1
          exact absurd hd (by decide)

lemma memOpPort_eq : memOpPort = '.' :: "mem_op".toList := by decide

lemma search_memOpPort {u : Text} (hu : ¬memOpPort <:+: u) (v : Text) :
    (lit memOpPort).search (u ++ (memOpPort ++ v)) = some ⟨memOpPort, [], v⟩ := by
  rw [memOpPort_eq] at hu ⊢
  exact search_lit (by decide) hu v

lemma before_memOpPort {u : Text} (hu : ¬memOpPort <:+: u) (v : Text) :
    (lit memOpPort).before (u ++ (memOpPort ++ v)) = u := by
  rw [memOpPort_eq] at hu ⊢
  exact before_lit (by decide) hu v

/-- Up to the next `.mem_op`, or to the end of the text. -/
lemma exists_piece (rest : Text) : ∃ piece q, rest = piece ++ q ∧
    (lit memOpPort).before rest = piece ∧ ¬memOpPort <:+: piece ∧ (q = [] ∨ memOpPort <+: q) := by
  by_cases hrest : memOpPort <:+: rest
  · obtain ⟨piece, q, rfl, hpiece⟩ := exists_first_place (by decide) hrest
    exact ⟨piece, memOpPort ++ q, rfl, before_memOpPort hpiece q, hpiece,
      Or.inr (List.prefix_append _ _)⟩
  · exact ⟨rest, [], (List.append_nil rest).symm, before_lit_none hrest, hrest, Or.inl rfl⟩

lemma wordSize_early_iff (piece : Text) : wordSize <:+: piece.take 20 ↔
    ∃ w t, piece = w ++ (wordSize ++ t) ∧ w.length ≤ 14 := by
  have hsize : wordSize.length = 6 := rfl
  constructor
  · rintro ⟨w, t, h⟩
    refine ⟨w, t ++ piece.drop 20, ?_, ?_⟩
    · rw [← List.append_assoc, ← List.append_assoc, h, List.take_append_drop]
    · have hlen := congrArg List.length h
      rw [List.length_append, List.length_append, List.length_take, hsize] at hlen
      omega
  · rintro ⟨w, t, rfl, hlen⟩
    have hw : w.take 20 = w := List.take_of_length_le (by omega)
    have hword : wordSize.take (20 - w.length) = wordSize := List.take_of_length_le (by omega)
    refine ⟨w, t.take (20 - w.length - 6), ?_⟩
    rw [List.take_append, List.take_append, hw, hword, hsize, List.append_assoc]

/-- The piece of the text in which `3'b010` is looked for. -/
lemma secondPiece_memOpPort {u rest piece : Text} (hu : ¬memOpPort <:+: u)
    (hbefore : (lit memOpPort).before rest = piece) :
    secondPiece memOpPort (u ++ (memOpPort ++ rest)) = some piece := by
  rw [secondPiece, search_memOpPort hu, Option.map_some, hbefore]

lemma hardcoded_iff {u rest piece q : Text} (hu : ¬memOpPort <:+: u) (hrest : rest = piece ++ q)
    (hpiece : ¬memOpPort <:+: piece) (hq : q = [] ∨ memOpPort <+: q) :
    Hardcoded (u ++ (memOpPort ++ rest)) ↔ wordSize <:+: piece.take 20 := by
  rw [wordSize_early_iff]
  constructor
  · rintro ⟨u', w, v, heq, hu', hw, hlen⟩
    have hsearch := search_memOpPort hu' (w ++ (wordSize ++ v))
    rw [← heq, search_memOpPort hu] at hsearch
    have hsame : rest = w ++ (wordSize ++ v) := by
      injection hsearch with hsearch
      injection hsearch
    obtain ⟨t, ht⟩ := wordSize_in_piece hq (hrest.symm.trans hsame) hw
    exact ⟨w, t, ht, hlen⟩
  · rintro ⟨w, t, rfl, hlen⟩
    refine ⟨u, w, t ++ q, ?_, hu, fun h => hpiece (h.trans List.infix_append_left), hlen⟩
    rw [hrest, List.append_assoc, List.append_assoc]

lemma memOpNotHardcoded_iff (verilog : Text) :
    memOpNotHardcoded verilog = true ↔ ¬Hardcoded verilog := by
  by_cases hport : memOpPort <:+: verilog
  · obtain ⟨u, rest, rfl, hu⟩ := exists_first_place (by decide) hport
    obtain ⟨piece, q, hrest, hbefore, hpiece, hq⟩ := exists_piece rest
    have hsecond := secondPiece_memOpPort hu hbefore
    rw [hardcoded_iff hu hrest hpiece hq, memOpNotHardcoded, ← memOpPort, hsecond, ← wordSize]
    simp
  · have hnone : secondPiece memOpPort verilog = none := by
      rw [secondPiece, search_lit_none hport, Option.map_none]
    refine iff_of_true ?_ ?_
    · rw [memOpNotHardcoded, ← memOpPort, hnone]
    · rintro ⟨u, w, v, rfl, -⟩
      exact hport ⟨u, w ++ (wordSize ++ v), List.append_assoc _ _ _⟩

/-- What a rule asks a text for: the words of one of some families, in order, or that `mem_op` is
not hardcoded. -/
inductive Ask
  | words (A : Set (List Text))
  | memOp

def Ask.Met (verilog : Text) : Ask → Prop
  | words A => ∃ ls ∈ A, InOrder ls verilog
  | memOp => ¬Hardcoded verilog

/-- The code of the text meets what is asked for; comments stand for nothing. -/
def Ask.MetInCode (m : List (Char × Bool)) : Ask → Prop
  | words A => ∃ ls ∈ A, CodeInOrder ls m
  | memOp => ¬HardcodedInCode m

lemma Ask.metInCode_iff (ask : Ask) (verilog : Text) :
    ask.MetInCode (withMarks verilog) ↔ ask.Met (withoutComments verilog) := by
  rw [withoutComments, ← codeOf_mark]
  cases ask with
  | words A => exact exists_congr fun ls => and_congr_right fun _ => codeInOrder_iff
  | memOp => exact not_congr hardcodedInCode_iff

def asks : String → List Ask
  | "top" => [
    .words {[("mem".toList ++ u) ++ "[0:65535]".toList] | (u : Text) (_ : ∀ c ∈ u, isSpace c = true)},
    .words {["$readmemh".toList]},
    .words {["$display".toList, "PC=".toList]},
    .words {["id_ex_is_auipc".toList, "id_ex_pc".toList]},
    .words {["wb_sel".toList, "<=".toList, "_sel".toList]},
    .words {["ex_mem_funct3".toList]},
    .memOp,
    .words {["alu_in_a".toList, "1100111".toList], ["id_ex_opcode".toList]},
    .words {["branch_taken_ex".toList]},
    .words {["mem[".toList, "17:2]".toList]}]
  | "decoder" => [
    .words {["branch_funct3".toList, "instr[14:12]".toList],
      ["branch_funct3".toList, "inst[14:12]".toList]},
    .words {["7'b1110011".toList]},
    .words {["is_auipc".toList]}]
  | "hazard_unit" => [.words {["branch_taken_ex".toList]}]
  | "csr_unit" => [
    .words {["12'hF14".toList, "32'h0".toList], ["mhartid".toList, "0".toList]}]
  | _ => []

/-- The rule passes where what it asks for is met. -/
def Rule.AsksFor (rule : Rule) (ask : Ask) : Prop :=
  ∀ verilog, rule.passes verilog = true ↔ ask.Met verilog

lemma asksFor_words {r : Regex Char} {A : Set (List Text)} (h : r.Asks A) :
    (Rule.pattern r).AsksFor (.words A) := fun _ => h.search

lemma asks_literals (l : Text) (ls : List Text) : (literals l ls).Asks {l :: ls} := by
  induction ls generalizing l with
  | nil => exact asks_lit l
  | cons l' ls ih =>
    have h : (literals l (l' :: ls)).Asks ((l :: ·) '' {l' :: ls}) := (ih l').behind l
    rwa [Set.image_singleton] at h

lemma memoryWords_asks : (seq (lit "mem".toList) (seq (many true isSpace)
    (lit "[0:65535]".toList))).Asks {["mem".toList ++ u ++ "[0:65535]".toList] |
      (u : Text) (_ : ∀ c ∈ u, isSpace c = true)} := by
  have hlit : (lit "[0:65535]".toList).Asks ((fun w => [w]) '' {"[0:65535]".toList}) := by
    rw [Set.image_singleton]
    exact asks_lit _
  have hrun : (seq (many true isSpace) (lit "[0:65535]".toList)).Asks _ := hlit.run
  intro p cs
  rw [hrun.glued "mem".toList p cs]
  constructor
  · rintro ⟨-, ⟨-, ⟨u, hu, -, rfl, rfl⟩, rfl⟩, hfront⟩
    refine ⟨_, ⟨u, hu, rfl⟩, ?_⟩
    rw [List.append_assoc]
    exact hfront
  · rintro ⟨-, ⟨u, hu, rfl⟩, hfront⟩
    refine ⟨_, ⟨_, ⟨u, hu, _, rfl, rfl⟩, rfl⟩, ?_⟩
    change InFront ["mem".toList ++ (u ++ "[0:65535]".toList)] cs
    rwa [← List.append_assoc]

lemma branchFunct3_asks : (seq (lit "branch_funct3".toList) (seq (many true fun _ => true)
    (seq (lit "inst".toList) (seq (opt (lit "r".toList)) (lit "[14:12]".toList))))).Asks
      {["branch_funct3".toList, "instr[14:12]".toList],
        ["branch_funct3".toList, "inst[14:12]".toList]} := by
  have hbits : (lit "[14:12]".toList).Asks ((fun w => [w]) '' {"[14:12]".toList}) := by
    rw [Set.image_singleton]
    exact asks_lit _
  have hr : (seq (lit "r".toList) (lit "[14:12]".toList)).Asks {["r[14:12]".toList]} := by
    have h := hbits.glued "r".toList
    rwa [Set.image_singleton] at h
  have hopt : (seq (opt (lit "r".toList)) (lit "[14:12]".toList)).Asks
      ((fun w => [w]) '' {"r[14:12]".toList, "[14:12]".toList}) := by
    rw [Set.image_insert_eq, Set.insert_eq]
    exact hr.union hbits fun _ _ => hits_opt_seq
  have hinst := (hopt.glued "inst".toList)
  have h : (seq (lit "branch_funct3".toList) (seq (many true fun _ => true) _)).Asks _ :=
    hinst.behind "branch_funct3".toList
  rw [Set.image_image, Set.image_pair] at h
  exact h

/-- Each rule of a module asks for what is listed for it. -/
lemma rules_ask (moduleName : String) : List.Forall₂ (fun rule ask => rule.1.AsksFor ask)
    (SIMULATION_RULES moduleName) (asks moduleName) := by
  have hlits : ∀ l ls, (Rule.pattern (literals l ls)).AsksFor (.words {l :: ls}) :=
    fun l ls => asksFor_words (asks_literals l ls)
  have halt : ∀ l ls l' ls', (Rule.pattern (alt (literals l ls) (literals l' ls'))).AsksFor
      (.words {l :: ls, l' :: ls'}) := fun l ls l' ls' =>
    asksFor_words ((asks_literals l ls).union (asks_literals l' ls') fun _ _ => rfl)
  have hmemOp : (Rule.test memOpNotHardcoded).AsksFor .memOp :=
    memOpNotHardcoded_iff
  unfold SIMULATION_RULES
  split
  · refine .cons (asksFor_words memoryWords_asks) (.cons ?_ (.cons ?_ (.cons ?_ (.cons ?_ (.cons ?_
      (.cons hmemOp (.cons ?_ (.cons ?_ (.cons ?_ .nil)))))))))
    · exact hlits _ _
    · exact hlits _ _
    · exact hlits _ _
    · exact hlits _ _
    · exact hlits _ _
    · exact halt _ _ _ _
    · exact hlits _ _
    · exact hlits _ _
  · exact .cons (asksFor_words branchFunct3_asks) (.cons (hlits _ _) (.cons (hlits _ _) .nil))
  · exact .cons (hlits _ _) .nil
  · exact .cons (halt _ _ _ _) .nil
  · have hnone : asks moduleName = [] := by
      unfold asks
      split <;> first | contradiction | rfl
    rw [hnone]
    exact .nil

lemma passes_iff_met {rules : List (Rule × String)} {wanted : List Ask} (verilog : Text)
    (h : List.Forall₂ (fun rule ask => rule.1.AsksFor ask) rules wanted) :
    (∀ rule ∈ rules, rule.1.passes verilog = true) ↔ ∀ ask ∈ wanted, ask.Met verilog := by
  induction h with
  | nil => simp
  | cons h _ ih => rw [List.forall_mem_cons, List.forall_mem_cons, h verilog, ih]

/-- There is no violation where everything that is asked for is met. -/
lemma validate_eq_nil_iff (verilog : Text) (moduleName : String) :
    validate verilog moduleName = [] ↔ ∀ ask ∈ asks moduleName, ask.Met verilog := by
  rw [← passes_iff_met verilog (rules_ask moduleName), validate, List.filterMap_eq_nil_iff]
  refine forall₂_congr fun rule _ => ?_
  split_ifs with h <;> simp [h]

/-- Removing the comments keeps a text without violations exactly when some rule is not met with them
either, or the words of every rule lie in the code, in order. -/
theorem rules_ignore_comments_iff (moduleName : String) (verilog : Text) :
    (validate verilog moduleName = [] → validate (withoutComments verilog) moduleName = []) ↔
      (∃ ask ∈ asks moduleName, ¬ask.Met verilog) ∨
        ∀ ask ∈ asks moduleName, ask.MetInCode (withMarks verilog) := by
  have hcode : validate (withoutComments verilog) moduleName = [] ↔
      ∀ ask ∈ asks moduleName, ask.MetInCode (withMarks verilog) := by
    rw [validate_eq_nil_iff]
    exact forall₂_congr fun ask _ => (ask.metInCode_iff verilog).symm
  rw [hcode, validate_eq_nil_iff, imp_iff_not_or]
  simp only [not_forall, exists_prop]

theorem rules_ignore_comments_fails :
    ¬∀ (moduleName : String) (verilog : Text), validate verilog moduleName = [] →
      validate (withoutComments verilog) moduleName = [] := by
  intro h
  have hcsr := h "csr_unit" "module csr_unit;\n// mhartid reads 0\nendmodule\n".toList
    (by decide +kernel)
  revert hcsr
  decide +kernel

end Rv32iRtl
