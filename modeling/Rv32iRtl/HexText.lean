import Rv32iRtl.Execute

/-! Characters and hexadecimal digits of the texts that the tools around the core read and write. -/
namespace Rv32iRtl

/-- `%08h` of a 32-bit value. -/
def hex8 (w : Word) : List Char :=
  [28, 24, 20, 16, 12, 8, 4, 0].map fun i => Nat.digitChar ((w.toNat >>> i) % 16)

def isHex (c : Char) : Bool :=
  ('0' ≤ c ∧ c ≤ '9') ∨ ('a' ≤ c ∧ c ≤ 'f') ∨ ('A' ≤ c ∧ c ≤ 'F')

/-- The class `\s` of a text pattern: the characters that Python counts as white space. -/
def isSpace (c : Char) : Bool :=
  (0x09 ≤ c.toNat && c.toNat ≤ 0x0D) || (0x1C ≤ c.toNat && c.toNat ≤ 0x20) ||
    (0x2000 ≤ c.toNat && c.toNat ≤ 0x200A) ||
    [0x85, 0xA0, 0x1680, 0x2028, 0x2029, 0x202F, 0x205F, 0x3000].elem c.toNat

/-- The characters at which `splitlines` ends a line. -/
def isLineBreak (c : Char) : Bool :=
  (0x0A ≤ c.toNat && c.toNat ≤ 0x0D) || (0x1C ≤ c.toNat && c.toNat ≤ 0x1E) ||
    [0x85, 0x2028, 0x2029].elem c.toNat

/-- CR LF ends one line. -/
def isCrLf (c d : Char) : Bool := c == '\r' && d == '\n'

def hexDigitValue (c : Char) : ℕ :=
  if c ≤ '9' then c.toNat - '0'.toNat
  else if c ≤ 'F' then c.toNat - 'A'.toNat + 10
  else c.toNat - 'a'.toNat + 10

def hexValue (s : List Char) : ℕ := s.foldl (fun v c => 16 * v + hexDigitValue c) 0

lemma hexDigitValue_digitChar (d : ℕ) (h : d < 16) : hexDigitValue (Nat.digitChar d) = d := by
  interval_cases d <;> rfl

lemma isHex_digitChar (d : ℕ) (h : d < 16) : isHex (Nat.digitChar d) = true := by
  interval_cases d <;> rfl

lemma digitChar_ne (d : ℕ) (h : d < 16) : Nat.digitChar d ≠ 'P' := by
  interval_cases d <;> decide

lemma hex8_length (w : Word) : (hex8 w).length = 8 := rfl

lemma isHex_of_mem_hex8 {w : Word} {c : Char} (h : c ∈ hex8 w) : isHex c = true := by
  obtain ⟨i, -, rfl⟩ := List.mem_map.mp h
  exact isHex_digitChar _ (Nat.mod_lt _ (by omega))

lemma ne_of_mem_hex8 {w : Word} {c : Char} (h : c ∈ hex8 w) : c ≠ 'P' := by
  obtain ⟨i, -, rfl⟩ := List.mem_map.mp h
  exact digitChar_ne _ (Nat.mod_lt _ (by omega))

lemma hexValue_hex8 (w : Word) : hexValue (hex8 w) = w.toNat := by
  have hw := w.isLt
  have hd : ∀ i, hexDigitValue (Nat.digitChar ((w.toNat >>> i) % 16)) = (w.toNat >>> i) % 16 :=
    fun i => hexDigitValue_digitChar _ (Nat.mod_lt _ (by omega))
  have hstep : ∀ i, w.toNat >>> i = 16 * (w.toNat >>> (i + 4)) + (w.toNat >>> i) % 16 := by
    intro i
    rw [Nat.shiftRight_add, Nat.shiftRight_eq_div_pow _ 4]
    omega
  have hlast : w.toNat >>> 32 = 0 := by
    rw [Nat.shiftRight_eq_div_pow]
    exact Nat.div_eq_of_lt hw
  have hfirst : w.toNat >>> 0 = w.toNat := rfl
  simp only [hexValue, hex8, List.map_cons, List.map_nil, List.foldl_cons, List.foldl_nil, hd]
  have h0 := hstep 0
  have h4 := hstep 4
  have h8 := hstep 8
  have h12 := hstep 12
  have h16 := hstep 16
  have h20 := hstep 20
  have h24 := hstep 24
  have h28 := hstep 28
  omega

lemma isHex_toNat {c : Char} (h : isHex c = true) :
    (48 ≤ c.toNat ∧ c.toNat ≤ 57) ∨ (97 ≤ c.toNat ∧ c.toNat ≤ 102) ∨
      (65 ≤ c.toNat ∧ c.toNat ≤ 70) := by
  have h := of_decide_eq_true h
  simp only [Char.le_def, UInt32.le_iff_toNat_le] at h
  exact h

lemma isSpace_of_isHex {c : Char} (h : isHex c = true) : isSpace c = false := by
  have h := isHex_toNat h
  simp only [isSpace, List.elem_eq_mem, List.mem_cons, List.not_mem_nil]
  simp only [Bool.or_eq_false_iff, Bool.and_eq_false_iff, decide_eq_false_iff_not, or_false]
  omega

lemma isLineBreak_toNat {c : Char} (h : isLineBreak c = true) :
    (0x0A ≤ c.toNat ∧ c.toNat ≤ 0x0D) ∨ (0x1C ≤ c.toNat ∧ c.toNat ≤ 0x1E) ∨ c.toNat = 0x85 ∨
      c.toNat = 0x2028 ∨ c.toNat = 0x2029 := by
  simpa [isLineBreak, or_assoc] using h

lemma isSpace_of_isLineBreak {c : Char} (h : isLineBreak c = true) : isSpace c = true := by
  have h := isLineBreak_toNat h
  simp only [isSpace, List.elem_eq_mem, List.mem_cons, List.not_mem_nil]
  simp only [Bool.or_eq_true, Bool.and_eq_true, decide_eq_true_eq, or_false]
  omega

lemma hexDigitValue_lt {c : Char} (h : isHex c = true) : hexDigitValue c < 16 := by
  have h := isHex_toNat h
  simp only [hexDigitValue, Char.le_def, UInt32.le_iff_toNat_le]
  change (if c.toNat ≤ 57 then c.toNat - 48 else if c.toNat ≤ 70 then c.toNat - 65 + 10
    else c.toNat - 97 + 10) < 16
  split_ifs <;> omega

end Rv32iRtl
