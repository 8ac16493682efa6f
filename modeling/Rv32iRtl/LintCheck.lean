import Rv32iRtl.HexText
import Rv32iRtl.TextLines
import Rv32iRtl.OrderedDict

/-! The lint of a file in the container, `lint_check`: the files are copied with `docker cp`,
and what `docker exec` prints is searched for the marks of an error or a warning. -/
namespace Rv32iRtl

open TextLines

def DOCKER_ID : List Char := "ab09dec6aa83".toList
def DOCKER_APP_DIR : List Char := "/app".toList

inductive CpOutcome
  | exited (returncode : ℤ)
  | notStarted (error : List Char)
  deriving DecidableEq

inductive ExecOutcome
  | exited (returncode : ℤ) (stdout stderr : List Char)
  | timeoutExpired
  | notStarted (error : List Char)
  deriving DecidableEq

/-- The files of the host, and the outcomes of the `n`-th copy and of a command. -/
structure Docker (P : Type*) where
  name : P → List Char
  fileExists : P → Bool
  cp : ℕ → CpOutcome
  exec : List (List Char) → ExecOutcome

/-- The name of a path without its last suffix. -/
def stem (name : List Char) : List Char :=
  let i := (name.rdropWhile (· ≠ '.')).length - 1
  if '.' ∈ name ∧ 0 < i ∧ i < name.length - 1 then name.take i else name

def errorMark : List Char := "%Error".toList
def warningMark : List Char := "%Warning".toList

/-- `"%Error" in line or "%Warning" in line` -/
def marked (line : List Char) : Bool := errorMark <:+: line ∨ warningMark <:+: line

section

variable {P : Type*} (d : Docker P) (filepath : P) (allFiles : List P)

def filesToSync : List P := (filepath :: allFiles).filter d.fileExists

/-- The copies, of which only one that cannot be started raises. -/
def syncFiles : ℕ → List P → Except (List Char) Unit
  | _, [] => .ok ()
  | n, _ :: files =>
    match d.cp n with
    | .notStarted e => .error e
    | .exited _ => syncFiles (n + 1) files

def containerPath (f : P) : List Char := DOCKER_APP_DIR ++ "/rtl/generated/".toList ++ d.name f

def verilatorCmd : List (List Char) :=
  let moduleName := stem (d.name filepath)
  ["verilator".toList, "--lint-only".toList, "-Wall".toList, "--language".toList,
    "1800-2012".toList, "--top-module".toList, moduleName, "-Wno-fatal".toList] ++
  if moduleName ≠ "top".toList then
    ["-Wno-PINCONNECTEMPTY".toList, "-Wno-UNDRIVEN".toList, "-Wno-UNUSED".toList]
  else []

def fullCmd : List (List Char) :=
  ["docker".toList, "exec".toList, "-w".toList, DOCKER_APP_DIR ++ "/sim".toList, DOCKER_ID] ++
    verilatorCmd d filepath ++ (filesToSync d filepath allFiles).map (containerPath d)

def errorLines (output : List Char) : List (List Char) :=
  (lines isLineBreak isCrLf output).filter marked

def lintCheck : Except (List Char) (List (List Char)) :=
  match syncFiles d 0 (filesToSync d filepath allFiles) with
  | .error e => .error e
  | .ok () =>
    match d.exec (fullCmd d filepath allFiles) with
    | .exited _ stdout stderr => .ok (errorLines (stdout ++ stderr))
    | .timeoutExpired => .ok ["%Error: docker verilator lint timed out".toList]
    | .notStarted e => .ok ["%Error: Docker lint execution failed: ".toList ++ e]

/-- The files that the copies of this call have put under each name in the container. -/
def container : OrderedDict (List Char) P :=
  OrderedDict.ofSettings ((((filesToSync d filepath allFiles).zipIdx).filter fun p =>
    d.cp p.2 = .exited 0).map fun p => (d.name p.1, p.1))

/-- Every existing file of the list is in the container under its own name. -/
def AllCopied : Prop :=
  ∀ f ∈ filesToSync d filepath allFiles, (container d filepath allFiles).get? (d.name f) = some f

/-- Verilator ran to completion on all files, without an error and without a marked line. -/
def Accepted : Prop :=
  syncFiles d 0 (filesToSync d filepath allFiles) = .ok () ∧ AllCopied d filepath allFiles ∧
    ∃ stdout stderr, d.exec (fullCmd d filepath allFiles) = .exited 0 stdout stderr ∧
      ∀ l ∈ lines isLineBreak isCrLf stdout ++ lines isLineBreak isCrLf stderr, marked l = false

/-- No clean result without an accepted design, and an error line for every other outcome. -/
def CleanMeansAccepted : Prop :=
  (lintCheck d filepath allFiles = .ok [] → Accepted d filepath allFiles) ∧
    (¬Accepted d filepath allFiles → ∃ l ls, lintCheck d filepath allFiles = .ok (l :: ls))

def Marked (text : List Char) : Prop := errorMark <:+: text ∨ warningMark <:+: text

variable {d filepath allFiles}

lemma no_break {l : List Char} (h : l.all (fun c => !isLineBreak c) = true) :
    ∀ c ∈ l, isLineBreak c = false := by
  simpa using h

lemma exists_marked_line (text : List Char) :
    (∃ l ∈ lines isLineBreak isCrLf text, marked l = true) ↔ Marked text := by
  have hpair : ∀ c d, isCrLf c d = true → isLineBreak c = true ∧ isLineBreak d = true := by
    intro c d h
    simp only [isCrLf, Bool.and_eq_true, beq_iff_eq] at h
    obtain ⟨rfl, rfl⟩ := h
    exact ⟨rfl, rfl⟩
  have herror := infix_lines (m := errorMark) (by decide +kernel)
    (no_break (by decide +kernel)) hpair text
  have hwarning := infix_lines (m := warningMark) (by decide +kernel)
    (no_break (by decide +kernel)) hpair text
  rw [Marked, ← herror, ← hwarning]
  simp only [marked, decide_eq_true_eq, and_or_left, exists_or]

lemma errorLines_eq_nil_iff (text : List Char) : errorLines text = [] ↔ ¬Marked text := by
  rw [← exists_marked_line, errorLines, List.filter_eq_nil_iff]
  simp

lemma syncFiles_ok_iff (n : ℕ) (files : List P) :
    syncFiles d n files = .ok () ↔ ∀ i < files.length, ∃ code, d.cp (n + i) = .exited code := by
  induction files generalizing n with
  | nil => simp [syncFiles]
  | cons f files ih =>
    rw [List.length_cons, Nat.forall_lt_succ_left, Nat.add_zero, syncFiles]
    cases hcp : d.cp n with
    | notStarted e => simp
    | exited code =>
      simp only [ih, CpOutcome.exited.injEq, exists_eq', true_and]
      exact forall₂_congr fun i _ => by rw [Nat.add_right_comm, Nat.add_assoc]

/-- A mark in one of two texts is a mark in both together. -/
lemma marked_append {s t : List Char} (h : Marked s ∨ Marked t) : Marked (s ++ t) := by
  rcases h with h | h
  · exact h.imp (·.trans List.infix_append_left) (·.trans List.infix_append_left)
  · exact h.imp (·.trans List.infix_append_right) (·.trans List.infix_append_right)

lemma lines_unmarked {s t : List Char} (h : ¬Marked (s ++ t)) :
    ∀ l ∈ lines isLineBreak isCrLf s ++ lines isLineBreak isCrLf t, marked l = false := by
  intro l hl
  by_contra hm
  rw [Bool.not_eq_false] at hm
  refine h (marked_append ?_)
  rcases List.mem_append.mp hl with hl | hl
  · exact Or.inl ((exists_marked_line s).mp ⟨l, hl, hm⟩)
  · exact Or.inr ((exists_marked_line t).mp ⟨l, hl, hm⟩)

/-- The second half of the meaning contains the first. -/
lemma cleanMeansAccepted_iff :
    CleanMeansAccepted d filepath allFiles ↔
      (¬Accepted d filepath allFiles → ∃ l ls, lintCheck d filepath allFiles = .ok (l :: ls)) := by
  refine ⟨fun h => h.2, fun h => ⟨fun hnil => ?_, h⟩⟩
  by_contra hno
  obtain ⟨l, ls, hcons⟩ := h hno
  rw [hnil] at hcons
  simp at hcons

/-- When a clean result means what it should, by the outcomes of the subprocesses. -/
theorem lint_check_clean_iff (d : Docker P) (filepath : P) (allFiles : List P) :
    CleanMeansAccepted d filepath allFiles ↔
      (∀ i < (filesToSync d filepath allFiles).length, ∃ code, d.cp i = .exited code) ∧
      match d.exec (fullCmd d filepath allFiles) with
      | .exited code stdout stderr =>
        Marked (stdout ++ stderr) ∨ (code = 0 ∧ AllCopied d filepath allFiles)
      | .timeoutExpired => True
      | .notStarted _ => True := by
  have hsync := syncFiles_ok_iff (d := d) 0 (filesToSync d filepath allFiles)
  simp only [Nat.zero_add] at hsync
  rw [cleanMeansAccepted_iff, ← hsync, lintCheck]
  cases hs : syncFiles d 0 (filesToSync d filepath allFiles) with
  | error e => simp [Accepted, hs]
  | ok u =>
    cases he : d.exec (fullCmd d filepath allFiles) with
    | timeoutExpired => simp
    | notStarted e => simp
    | exited code stdout stderr =>
      by_cases hm : Marked (stdout ++ stderr)
      · obtain ⟨l, ls, hl⟩ := List.exists_cons_of_ne_nil
          (mt (errorLines_eq_nil_iff (stdout ++ stderr)).mp (not_not_intro hm))
        exact iff_of_true (fun _ => ⟨l, ls, congrArg Except.ok hl⟩) ⟨rfl, Or.inl hm⟩
      · have hclean := (errorLines_eq_nil_iff (stdout ++ stderr)).mpr hm
        have haccepted : Accepted d filepath allFiles ↔
            code = 0 ∧ AllCopied d filepath allFiles := by
          constructor
          · rintro ⟨-, hcopied, out, err, hexec, -⟩
            rw [he] at hexec
            exact ⟨(ExecOutcome.exited.inj hexec).1, hcopied⟩
          · rintro ⟨rfl, hcopied⟩
            exact ⟨hs, hcopied, stdout, stderr, he, lines_unmarked hm⟩
        simp [hclean, hm, haccepted]

end

/-- One existing file, and no container of that name. -/
def noContainer : Docker String where
  name := String.toList
  fileExists := fun _ => true
  cp := fun _ => .exited 1
  exec := fun _ => .exited 1 [] "Error response from daemon: No such container: ab09dec6aa83".toList

theorem lint_check_clean_fails : ¬CleanMeansAccepted noContainer "alu.v" [] := by
  rintro ⟨hclean, -⟩
  have hnil : lintCheck noContainer "alu.v" [] = .ok [] := by decide +kernel
  obtain ⟨-, -, stdout, stderr, hexec, -⟩ := hclean hnil
  simp [noContainer] at hexec

end Rv32iRtl
