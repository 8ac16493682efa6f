import Rv32iRtl.HexConversion
import Rv32iRtl.MemoryAccess

/-! The byte dumps that `elf_to_hex` reads, as lines of digits and blanks, and what it
writes for them: one word a line, each byte the last one that the dump gives for its
address, or the byte of a NOP. -/
namespace Rv32iRtl

open TextLines OrderedDict ByteLanes

abbrev HexDigit := {c : Char // isHex c = true}
abbrev Blank := {c : Char // isSpace c = true ∧ isLineBreak c = false}
abbrev LineEnd := {e : List Char // IsLineEnd isLineBreak isCrLf e}

structure ByteToken where
  hi : HexDigit
  lo : HexDigit

namespace ByteToken

def text (b : ByteToken) : List Char := [b.hi.1, b.lo.1]

def val (b : ByteToken) : ℕ := hexValue b.text

end ByteToken

def blanks (l : List Blank) : List Char := l.map Subtype.val

inductive DumpLine
  | blank (l : List Blank)
  | address (before : List Blank) (digit : HexDigit) (digits : List HexDigit) (after : List Blank)
  | bytes (before : List Blank) (separated : List (ByteToken × Blank × List Blank))
      (last : ByteToken) (after : List Blank)

inductive DumpItem
  | address (addr : ℕ)
  | byte (b : ByteToken)

namespace DumpLine

def text : DumpLine → List Char
  | blank l => blanks l
  | address before d ds after =>
    blanks before ++ ('@' :: (d :: ds).map Subtype.val ++ blanks after)
  | bytes before separated last after =>
    blanks before ++
      (separated.flatMap (fun t => t.1.text ++ blanks (t.2.1 :: t.2.2)) ++ last.text ++
        blanks after)

def items : DumpLine → List DumpItem
  | blank _ => []
  | address _ d ds _ => [.address (hexValue ((d :: ds).map Subtype.val))]
  | bytes _ separated last _ => separated.map (fun t => .byte t.1) ++ [.byte last]

end DumpLine

structure Dump where
  lines : List (DumpLine × LineEnd)
  /-- What follows the last line end. -/
  last : DumpLine

namespace Dump

def text (d : Dump) : List Char := d.lines.flatMap (fun l => l.1.text ++ l.2.1) ++ d.last.text

def items (d : Dump) : List DumpItem := d.lines.flatMap (fun l => l.1.items) ++ d.last.items

end Dump

/-- The bytes that the items give, each with its address, in the order of the dump. -/
def given : ℕ → List DumpItem → List (ℕ × ℕ)
  | _, [] => []
  | _, .address addr :: is => given addr is
  | addr, .byte b :: is => (addr, b.val) :: given (addr + 1) is

/-- The last byte that a dump gives for an address. -/
def Dump.lastByte (d : Dump) (addr : ℕ) : Option ℕ := lastFor addr (given 0 d.items)

lemma isSpace_of_mem_blanks {l : List Blank} : ∀ c ∈ blanks l, isSpace c = true := by
  rintro c hc
  obtain ⟨b, -, rfl⟩ := List.mem_map.mp hc
  exact b.2.1

lemma ByteToken.isSpace_text (b : ByteToken) : ∀ c ∈ b.text, isSpace c = false := by
  rintro c hc
  rcases List.mem_pair.mp hc with rfl | rfl
  · exact isSpace_of_isHex b.hi.2
  · exact isSpace_of_isHex b.lo.2

lemma ByteToken.int16_text (b : ByteToken) : int16 b.text = some b.val := by
  have hall : b.text.all isHex = true := by simp [text, b.hi.2, b.lo.2]
  rw [int16, if_pos ⟨List.cons_ne_nil _ _, hall⟩, val]

/-- The tokens of a line of bytes. -/
def DumpLine.tokens (separated : List (ByteToken × Blank × List Blank)) (last : ByteToken) :
    List ByteToken :=
  separated.map Prod.fst ++ [last]

lemma words_bytes (separated : List (ByteToken × Blank × List Blank)) (last : ByteToken)
    (after : List Blank) :
    words isSpace (separated.flatMap (fun t => t.1.text ++ blanks (t.2.1 :: t.2.2)) ++ last.text ++
      blanks after) = (DumpLine.tokens separated last).map ByteToken.text := by
  have hne : ∀ b : ByteToken, b.text ≠ [] := fun b => List.cons_ne_nil _ _
  rw [words_append_spaces isSpace_of_mem_blanks]
  induction separated with
  | nil => exact words_singleton (hne last) last.isSpace_text
  | cons t separated ih =>
    have hsep : blanks (t.2.1 :: t.2.2) ≠ [] := List.cons_ne_nil _ _
    rw [List.flatMap_cons, List.append_assoc, List.append_assoc,
      words_token (hne t.1) t.1.isSpace_text hsep isSpace_of_mem_blanks, ih]
    rfl

/-- The running address after the items. -/
def addrAfter : ℕ → List DumpItem → ℕ
  | addr, [] => addr
  | _, .address addr :: is => addrAfter addr is
  | addr, .byte _ :: is => addrAfter (addr + 1) is

lemma given_append (addr : ℕ) (is js : List DumpItem) :
    given addr (is ++ js) = given addr is ++ given (addrAfter addr is) js := by
  induction is generalizing addr with
  | nil => rfl
  | cons i is ih => cases i <;> simp [given, addrAfter, ih]

lemma addrAfter_append (addr : ℕ) (is js : List DumpItem) :
    addrAfter addr (is ++ js) = addrAfter (addrAfter addr is) js := by
  induction is generalizing addr with
  | nil => rfl
  | cons i is ih => cases i <;> exact ih _

/-- The loop state once the settings `l` have been made and the address is `addr`. -/
def parsed (l : List (ℕ × ℕ)) (addr : ℕ) : ByteMemory × ℕ := (ofSettings l, addr)

lemma parseBytes_tokens (bs : List ByteToken) (l : List (ℕ × ℕ)) (addr : ℕ) :
    parseBytes (bs.map ByteToken.text) (parsed l addr) =
      some (parsed (l ++ given addr (bs.map .byte)) (addrAfter addr (bs.map .byte))) := by
  induction bs generalizing l addr with
  | nil => simp [parseBytes, given, addrAfter]
  | cons b bs ih =>
    have hset : (ofSettings l).set addr b.val = ofSettings (l ++ [(addr, b.val)]) := by
      simp [ofSettings, List.foldl_append]
    have hi := ih (l ++ [(addr, b.val)]) (addr + 1)
    rw [List.append_assoc] at hi
    rw [List.map_cons, parsed, parseBytes, b.int16_text]
    change parseBytes (bs.map ByteToken.text) ((ofSettings l).set addr b.val, addr + 1) = _
    rw [hset]
    exact hi

lemma isSpace_at : isSpace '@' = false := by decide

lemma parseLine_text (line : DumpLine) (l : List (ℕ × ℕ)) (addr : ℕ) :
    parseLine (parsed l addr) line.text =
      some (parsed (l ++ given addr line.items) (addrAfter addr line.items)) := by
  cases line with
  | blank bs =>
    have hs : strip isSpace (blanks bs) = [] := by
      simpa using strip_append (blanks bs) [] [] isSpace_of_mem_blanks (by simp) (by simp) (by simp)
    rw [parseLine, DumpLine.text, hs, if_pos rfl]
    simp [DumpLine.items, given, addrAfter]
  | address before d ds after =>
    have hs : strip isSpace (DumpLine.address before d ds after).text =
        '@' :: (d :: ds).map Subtype.val := by
      refine strip_append _ _ _ isSpace_of_mem_blanks isSpace_of_mem_blanks ?_ ?_
      · intro c hc
        obtain rfl : '@' = c := by simpa using hc
        exact isSpace_at
      · intro c hc
        have hmem := List.mem_of_getLast? hc
        rcases List.mem_cons.mp hmem with rfl | hmem
        · exact isSpace_at
        · obtain ⟨h, -, rfl⟩ := List.mem_map.mp hmem
          exact isSpace_of_isHex h.2
    have hd : int16 ((d :: ds).map Subtype.val) = some (hexValue ((d :: ds).map Subtype.val)) := by
      refine if_pos ⟨by simp, ?_⟩
      rw [List.all_eq_true]
      intro c hc
      obtain ⟨h, -, rfl⟩ := List.mem_map.mp hc
      exact h.2
    rw [parseLine, hs, if_neg (by simp), if_pos (by simp), List.drop_one, List.tail_cons, hd]
    simp [DumpLine.items, given, addrAfter, parsed]
  | bytes before separated last after =>
    obtain ⟨t, ts, hts⟩ : ∃ t ts, DumpLine.tokens separated last = t :: ts := by
      cases separated <;> exact ⟨_, _, rfl⟩
    have hw : words isSpace (strip isSpace (DumpLine.bytes before separated last after).text) =
        (t :: ts).map ByteToken.text := by
      rw [words_strip, DumpLine.text, words_spaces isSpace_of_mem_blanks, words_bytes, hts]
    have hitems : (DumpLine.bytes before separated last after).items =
        (t :: ts).map DumpItem.byte := by
      rw [← hts]
      simp [DumpLine.items, DumpLine.tokens]
    cases hs : strip isSpace (DumpLine.bytes before separated last after).text with
    | nil =>
      rw [hs, words_nil] at hw
      contradiction
    | cons c cs =>
      have hc : c ≠ '@' := by
        rintro rfl
        obtain ⟨w, ws, hws⟩ := words_head cs isSpace_at
        rw [hs, hws, List.map_cons] at hw
        have hat : '@' = t.hi.1 := (List.cons.inj (List.cons.inj hw).1).1
        exact absurd (hat ▸ t.hi.2) (by decide)
      rw [hs] at hw
      rw [parseLine, hs, if_neg (List.cons_ne_nil _ _), if_neg (by simpa using hc), hw,
        parseBytes_tokens, hitems]

lemma isLineBreak_of_isHex {c : Char} (h : isHex c = true) : isLineBreak c = false := by
  by_contra hb
  have hs := isSpace_of_isLineBreak (Bool.not_eq_false _ ▸ hb)
  rw [isSpace_of_isHex h] at hs
  contradiction

lemma isLineBreak_of_mem_blanks {l : List Blank} : ∀ c ∈ blanks l, isLineBreak c = false := by
  rintro c hc
  obtain ⟨b, -, rfl⟩ := List.mem_map.mp hc
  exact b.2.2

lemma ByteToken.isLineBreak_text (b : ByteToken) : ∀ c ∈ b.text, isLineBreak c = false := by
  rintro c hc
  rcases List.mem_pair.mp hc with rfl | rfl
  · exact isLineBreak_of_isHex b.hi.2
  · exact isLineBreak_of_isHex b.lo.2

lemma DumpLine.isLineBreak_text (line : DumpLine) : ∀ c ∈ line.text, isLineBreak c = false := by
  have happ : ∀ {l l' : List Char}, (∀ c ∈ l, isLineBreak c = false) →
      (∀ c ∈ l', isLineBreak c = false) → ∀ c ∈ l ++ l', isLineBreak c = false := by
    intro l l' h h' c hc
    exact (List.mem_append.mp hc).elim (h c) (h' c)
  cases line with
  | blank l => exact isLineBreak_of_mem_blanks
  | address before d ds after =>
    refine happ isLineBreak_of_mem_blanks (happ ?_ isLineBreak_of_mem_blanks)
    intro c hc
    rcases List.mem_cons.mp hc with rfl | hc
    · decide
    · obtain ⟨h, -, rfl⟩ := List.mem_map.mp hc
      exact isLineBreak_of_isHex h.2
  | bytes before separated last after =>
    refine happ isLineBreak_of_mem_blanks
      (happ (happ ?_ last.isLineBreak_text) isLineBreak_of_mem_blanks)
    intro c hc
    obtain ⟨t, -, hc⟩ := List.mem_flatMap.mp hc
    exact happ t.1.isLineBreak_text isLineBreak_of_mem_blanks c hc

lemma isCrLf_of_isLineBreak {c : Char} (h : isLineBreak c = false) (d : Char) :
    isCrLf c d = false := by
  have hc : c ≠ '\r' := by
    rintro rfl
    exact absurd h (by decide)
  simp [isCrLf, hc]

lemma lines_text (d : Dump) :
    lines isLineBreak isCrLf d.text =
      d.lines.map (fun l => l.1.text) ++ if d.last.text = [] then [] else [d.last.text] := by
  obtain ⟨ls, last⟩ := d
  simp only [Dump.text]
  induction ls with
  | nil =>
    by_cases h : last.text = []
    · simp [h, lines_nil]
    · have hb := last.isLineBreak_text
      simp [h, lines_last hb (fun c hc => isCrLf_of_isLineBreak (hb c hc)) h]
  | cons l ls ih =>
    have hb := l.1.isLineBreak_text
    rw [List.flatMap_cons, List.append_assoc, List.append_assoc,
      lines_cons hb (fun c hc => isCrLf_of_isLineBreak (hb c hc)) l.2.2, ih]
    rfl

lemma foldlM_parseLine (ls : List DumpLine) (l : List (ℕ × ℕ)) (addr : ℕ) :
    (ls.map DumpLine.text).foldlM parseLine (parsed l addr) =
      some (parsed (l ++ given addr (ls.flatMap DumpLine.items))
        (addrAfter addr (ls.flatMap DumpLine.items))) := by
  induction ls generalizing l addr with
  | nil => simp [given, addrAfter]
  | cons line ls ih =>
    rw [List.map_cons, List.foldlM_cons, parseLine_text, Option.bind_eq_bind, Option.bind_some, ih,
      List.flatMap_cons, given_append, addrAfter_append, List.append_assoc]

/-- The parser sets every byte of the dump at its address, in the order of the dump. -/
theorem parseVerilogHex_text (d : Dump) :
    parseVerilogHex d.text = some (ofSettings (given 0 d.items)) := by
  have hitems : d.items = (d.lines.map Prod.fst ++ [d.last]).flatMap DumpLine.items := by
    simp [Dump.items, List.flatMap_map]
  have hempty : ∀ st, parseLine st [] = some st := fun st => rfl
  have hlines : (lines isLineBreak isCrLf d.text).foldlM parseLine (parsed [] 0) =
      ((d.lines.map Prod.fst ++ [d.last]).map DumpLine.text).foldlM parseLine (parsed [] 0) := by
    rw [lines_text, List.map_append, List.map_map]
    split_ifs with h
    · rw [List.append_nil, List.map_singleton, h, List.foldlM_append]
      simp [hempty, Function.comp_def]
    · rfl
  rw [parseVerilogHex]
  change ((lines isLineBreak isCrLf d.text).foldlM parseLine (parsed [] 0)).map Prod.fst = _
  rw [hlines, foldlM_parseLine, ← hitems]
  rfl

def laneOf (word k : ℕ) : ℕ := (word >>> (8 * k)) % 256

def byteOf (words : List ℕ) (b : ℕ) : ℕ := laneOf (words.getD (b / 4) 0) (b % 4)

lemma testBit_of_lt {v n i : ℕ} (hv : v < 2 ^ n) (hi : n ≤ i) : v.testBit i = false :=
  Nat.testBit_lt_two_pow (hv.trans_le (Nat.pow_le_pow_right Nat.two_pos hi))

lemma testBit_mergeLane {w l v : ℕ} (hv : v < 256) (i : ℕ) :
    (mergeLane w l v).testBit i =
      if 8 * l ≤ i ∧ i < 8 * l + 8 then v.testBit (i - 8 * l) else w.testBit i := by
  have hmask : (0xFF : ℕ) = 2 ^ 8 - 1 := rfl
  rw [mergeLane, Nat.testBit_or, Nat.testBit_ldiff, Nat.testBit_shiftLeft, Nat.testBit_shiftLeft,
    hmask, Nat.testBit_two_pow_sub_one, Nat.mul_comm l 8]
  by_cases h1 : 8 * l ≤ i
  · by_cases h2 : i < 8 * l + 8
    · have h8 : i - 8 * l < 8 := by omega
      simp [h1, h2, h8]
    · have h8 : ¬i - 8 * l < 8 := by omega
      have hbit : v.testBit (i - 8 * l) = false := testBit_of_lt (n := 8) hv (by omega)
      simp [h1, h2, h8, hbit]
  · simp [h1]

lemma mergeLane_lt {w l v : ℕ} (hw : w < 2 ^ 32) (hl : l < 4) (hv : v < 256) :
    mergeLane w l v < 2 ^ 32 := by
  refine Nat.lt_pow_two_of_testBit _ fun i hi => ?_
  rw [testBit_mergeLane hv, if_neg (by omega)]
  exact testBit_of_lt hw hi

lemma laneOf_mergeLane {w l k v : ℕ} (hv : v < 256) :
    laneOf (mergeLane w l v) k = if l = k then v else laneOf w k := by
  have h256 : (256 : ℕ) = 2 ^ 8 := rfl
  refine Nat.eq_of_testBit_eq fun i => ?_
  rw [laneOf, h256, Nat.testBit_mod_two_pow, Nat.testBit_shiftRight, testBit_mergeLane hv]
  by_cases hi : i < 8
  · by_cases h : l = k
    · subst h
      have hr : 8 * l ≤ 8 * l + i ∧ 8 * l + i < 8 * l + 8 := by omega
      simp [hi, hr]
    · have hr : ¬(8 * l ≤ 8 * k + i ∧ 8 * k + i < 8 * l + 8) := by omega
      rw [if_neg hr, if_neg h, laneOf, h256, Nat.testBit_mod_two_pow, Nat.testBit_shiftRight]
  · have hv' : v.testBit i = false := testBit_of_lt (n := 8) hv (by omega)
    have hw' : (laneOf w k).testBit i = false := by
      rw [laneOf, h256, Nat.testBit_mod_two_pow]
      simp [hi]
    split_ifs <;> simp [hi, hv', hw']

lemma toDigits_leftpad (k : ℕ) {n : ℕ} (h : n < 16 ^ (k + 1)) :
    (Nat.toDigits 16 n).leftpad (k + 1) '0' =
      (List.range (k + 1)).reverse.map fun i => Nat.digitChar (n / 16 ^ i % 16) := by
  induction k generalizing n with
  | zero =>
    have hn : n % 16 = n := Nat.mod_eq_of_lt (by simpa using h)
    rw [Nat.toDigits_of_lt_base (by simpa using h)]
    simp [List.leftpad, hn]
  | succ k ih =>
    have hdiv : n / 16 < 16 ^ (k + 1) := by
      rw [Nat.div_lt_iff_lt_mul (by omega), ← Nat.pow_succ]
      exact h
    have hrec := ih hdiv
    have hrange : (List.range (k + 2)).reverse.map (fun i => Nat.digitChar (n / 16 ^ i % 16)) =
        ((List.range (k + 1)).reverse.map fun i => Nat.digitChar (n / 16 / 16 ^ i % 16)) ++
          [Nat.digitChar (n % 16)] := by
      rw [List.range_succ_eq_map, List.reverse_cons, List.map_append, ← List.map_reverse,
        List.map_map]
      simp [Function.comp_def, Nat.pow_succ', Nat.div_div_eq_div_mul]
    rw [hrange, ← hrec]
    rcases Nat.lt_or_ge n 16 with hlt | hge
    · have h0 : n / 16 = 0 := Nat.div_eq_of_lt hlt
      rw [h0, Nat.toDigits_zero, Nat.toDigits_of_lt_base hlt, Nat.mod_eq_of_lt hlt]
      simp [List.leftpad, List.replicate_succ']
    · rw [Nat.toDigits_of_base_le (by omega) hge]
      simp [List.leftpad]

lemma format08x_eq {w : ℕ} (h : w < 2 ^ 32) : format08x w = hex8 (BitVec.ofNat 32 w) := by
  have hw : (BitVec.ofNat 32 w).toNat = w := Nat.mod_eq_of_lt h
  have hrange : (List.range 8).reverse = [7, 6, 5, 4, 3, 2, 1, 0] := rfl
  rw [format08x, toDigits_leftpad 7 (by simpa using h), hrange, hex8, hw]
  simp [Nat.shiftRight_eq_div_pow]

lemma byteOf_mergeByte {words : List ℕ} (hw : words.length = MEMORY_WORDS) {e : ℕ × ℕ}
    (he : e.1 < MEMORY_WORDS * 4 ∧ e.2 < 256) (b : ℕ) :
    byteOf (mergeByte words e) b = if e.1 = b then e.2 else byteOf words b := by
  have hidx : e.1 >>> 2 = e.1 / 4 := Nat.shiftRight_eq_div_pow e.1 2
  have hlane : e.1 &&& 3 = e.1 % 4 := Nat.and_two_pow_sub_one_eq_mod e.1 2
  have hlt : e.1 / 4 < MEMORY_WORDS := by omega
  rw [mergeByte, hidx, hlane, if_pos hlt, byteOf, byteOf, List.getD_eq_getElem?_getD,
    List.getD_eq_getElem?_getD, List.getElem?_modify]
  have hlen : e.1 / 4 < words.length := hw ▸ hlt
  by_cases hi : e.1 / 4 = b / 4
  · have hg : words[b / 4]? = some words[e.1 / 4] := by rw [← hi, List.getElem?_eq_getElem hlen]
    have hb : e.1 % 4 = b % 4 ↔ e.1 = b := by omega
    rw [hg]
    simp only [hi, if_true, Option.map_eq_map, Option.map_some, Option.getD_some,
      laneOf_mergeLane he.2, hb]
  · have hne : e.1 ≠ b := fun h => hi (by rw [h])
    simp [hi, hne]

lemma mergeByte_bounds {words : List ℕ}
    (hw : words.length = MEMORY_WORDS ∧ ∀ w ∈ words, w < 2 ^ 32) {e : ℕ × ℕ} (he : e.2 < 256) :
    (mergeByte words e).length = MEMORY_WORDS ∧ ∀ w ∈ mergeByte words e, w < 2 ^ 32 := by
  have hlane : e.1 &&& 3 = e.1 % 4 := Nat.and_two_pow_sub_one_eq_mod e.1 2
  rw [mergeByte]
  split_ifs with hi
  · refine ⟨by rw [List.length_modify, hw.1], fun w hmem => ?_⟩
    obtain ⟨i, hlt, rfl⟩ := List.getElem_of_mem hmem
    rw [List.getElem_modify]
    split_ifs
    · exact mergeLane_lt (hw.2 _ (List.getElem_mem _)) (by omega) he
    · exact hw.2 _ (List.getElem_mem _)
  · exact hw

/-- Once the bytes are merged, byte `b` of the array is the last one set for `b`. -/
lemma wordArray_bytes {remapped : ByteMemory}
    (h : ∀ e ∈ remapped.entries, e.1 < MEMORY_WORDS * 4 ∧ e.2 < 256) :
    ((wordArray remapped).length = MEMORY_WORDS ∧ ∀ w ∈ wordArray remapped, w < 2 ^ 32) ∧
      ∀ b < MEMORY_WORDS * 4,
        byteOf (wordArray remapped) b = (remapped.get? b).getD (laneOf NOP_WORD (b % 4)) := by
  have hinit : (List.replicate MEMORY_WORDS NOP_WORD).length = MEMORY_WORDS ∧
      ∀ w ∈ List.replicate MEMORY_WORDS NOP_WORD, w < 2 ^ 32 := by
    refine ⟨List.length_replicate, fun w hw => ?_⟩
    rw [List.eq_of_mem_replicate hw, NOP_WORD]
    omega
  obtain ⟨hi, hv⟩ := foldl_view mergeByte byteOf id
    (fun s e hs he => mergeByte_bounds hs he.2) (fun s e b hs he => byteOf_mergeByte hs.1 he b)
    remapped.entries h (List.replicate MEMORY_WORDS NOP_WORD) hinit
  refine ⟨hi, fun b hb => ?_⟩
  have hnop : (List.replicate MEMORY_WORDS NOP_WORD).getD (b / 4) 0 = NOP_WORD := by
    have hlt : b / 4 < MEMORY_WORDS := by omega
    rw [List.getD_eq_getElem?_getD, List.getElem?_replicate, if_pos hlt, Option.getD_some]
  rw [wordArray, hv, lastFor_entries, Option.map_id, id, byteOf, hnop]

def inWindow (baseAddr : ℕ) (e : ℕ × ℕ) : Option (ℕ × ℕ) :=
  if baseAddr ≤ e.1 ∧ e.1 - baseAddr < MEMORY_WORDS * 4 then some (e.1 - baseAddr, e.2) else none

lemma remap_eq (baseAddr : ℕ) (m : ByteMemory) :
    remap baseAddr m = ofSettings (m.entries.filterMap (inWindow baseAddr)) := by
  rw [remap, ofSettings, List.foldl_filterMap]
  congr 1
  funext d e
  rw [inWindow]
  split_ifs <;> rfl

lemma get?_remap (baseAddr : ℕ) (m : ByteMemory) {b : ℕ} (hb : b < MEMORY_WORDS * 4) :
    (remap baseAddr m).get? b = m.get? (baseAddr + b) := by
  rw [remap_eq, get?_ofSettings, ← lastFor_entries]
  refine lastFor_filterMap ?_ ?_ _
  · intro e he
    rw [inWindow, if_pos (by omega), he, Nat.add_sub_cancel_left]
  · intro e q hq hqb
    rw [inWindow] at hq
    split_ifs at hq with hw
    rw [← Option.some.inj hq] at hqb
    change e.1 - baseAddr = b at hqb
    omega

lemma remap_entries {baseAddr : ℕ} {m : ByteMemory} (h : ∀ e ∈ m.entries, e.2 < 256) :
    ∀ e ∈ (remap baseAddr m).entries, e.1 < MEMORY_WORDS * 4 ∧ e.2 < 256 := by
  intro e he
  rw [remap_eq] at he
  obtain ⟨q, hq, hw⟩ := List.mem_filterMap.mp (mem_of_mem_ofSettings he)
  rw [inWindow] at hw
  split_ifs at hw with hc
  obtain rfl := Option.some.inj hw
  exact ⟨hc.2, h q hq⟩

lemma ByteToken.val_lt (b : ByteToken) : b.val < 256 := by
  have hh := hexDigitValue_lt b.hi.2
  have hl := hexDigitValue_lt b.lo.2
  change 16 * (16 * 0 + hexDigitValue b.hi.1) + hexDigitValue b.lo.1 < 256
  omega

lemma given_lt (addr : ℕ) (is : List DumpItem) : ∀ e ∈ given addr is, e.2 < 256 := by
  induction is generalizing addr with
  | nil => simp [given]
  | cons i is ih =>
    cases i with
    | address a => exact ih a
    | byte b => exact List.forall_mem_cons.mpr ⟨b.val_lt, ih (addr + 1)⟩

/-- The words that the conversion of a dump writes. -/
def Dump.words (d : Dump) (baseAddr : ℕ) : List ℕ :=
  wordArray (remap baseAddr (ofSettings (given 0 d.items)))

lemma elfToHex_text (d : Dump) (hexOut : Option (List Char)) (baseAddr : ℕ) :
    elfToHex (.exited 0 d.text) hexOut baseAddr =
      (some true, some (hexLines (d.words baseAddr))) := by
  simp [elfToHex, parseVerilogHex_text, Dump.words]

lemma words_spec (d : Dump) (baseAddr : ℕ) :
    ((d.words baseAddr).length = MEMORY_WORDS ∧ ∀ w ∈ d.words baseAddr, w < 2 ^ 32) ∧
      ∀ b < MEMORY_WORDS * 4,
        byteOf (d.words baseAddr) b = (d.lastByte (baseAddr + b)).getD (laneOf NOP_WORD (b % 4)) := by
  have hlt : ∀ e ∈ (ofSettings (given 0 d.items)).entries, e.2 < 256 :=
    fun e he => given_lt 0 d.items e (mem_of_mem_ofSettings he)
  have hentries : ∀ e ∈ (remap baseAddr (ofSettings (given 0 d.items))).entries,
      e.1 < MEMORY_WORDS * 4 ∧ e.2 < 256 := remap_entries hlt
  obtain ⟨hbounds, hbytes⟩ := wordArray_bytes hentries
  refine ⟨hbounds, fun b hb => ?_⟩
  rw [Dump.words, hbytes b hb, get?_remap baseAddr _ hb, get?_ofSettings, Dump.lastByte]

lemma eq_of_laneOf {v w : ℕ} (hv : v < 2 ^ 32) (hw : w < 2 ^ 32)
    (h : ∀ k < 4, laneOf v k = laneOf w k) : v = w := by
  have h0 := h 0 (by omega)
  have h1 := h 1 (by omega)
  have h2 := h 2 (by omega)
  have h3 := h 3 (by omega)
  simp only [laneOf, Nat.shiftRight_eq_div_pow] at h0 h1 h2 h3
  omega

/-- Only the last bytes in the window matter. -/
lemma words_congr {d d' : Dump} {baseAddr : ℕ}
    (h : ∀ b < MEMORY_WORDS * 4, d'.lastByte (baseAddr + b) = d.lastByte (baseAddr + b)) :
    d'.words baseAddr = d.words baseAddr := by
  obtain ⟨⟨hlen, hlt⟩, hbyte⟩ := words_spec d baseAddr
  obtain ⟨⟨hlen', hlt'⟩, hbyte'⟩ := words_spec d' baseAddr
  refine List.ext_getElem (hlen'.trans hlen.symm) fun i hi hi' => ?_
  refine eq_of_laneOf (hlt' _ (List.getElem_mem hi)) (hlt _ (List.getElem_mem hi')) fun k hk => ?_
  have hb : 4 * i + k < MEMORY_WORDS * 4 := by omega
  have hdiv : (4 * i + k) / 4 = i := by omega
  have hmod : (4 * i + k) % 4 = k := by omega
  have heq : byteOf (d'.words baseAddr) (4 * i + k) = byteOf (d.words baseAddr) (4 * i + k) := by
    rw [hbyte' _ hb, hbyte _ hb, h _ hb]
  rw [byteOf, byteOf, hdiv, hmod] at heq
  simpa [List.getD_eq_getElem?_getD, hi, hi'] using heq

lemma lines_hexLines {words : List ℕ} (h : ∀ w ∈ words, w < 2 ^ 32) :
    lines isLineBreak isCrLf (hexLines words) = words.map format08x := by
  have hend : IsLineEnd isLineBreak isCrLf ['\n'] :=
    ⟨'\n', by decide, by simp [isCrLf], Or.inl rfl⟩
  induction words with
  | nil => exact lines_nil
  | cons w words ih =>
    have hb : ∀ c ∈ format08x w, isLineBreak c = false := by
      rw [format08x_eq (h w List.mem_cons_self)]
      exact fun c hc => isLineBreak_of_isHex (isHex_of_mem_hex8 hc)
    rw [hexLines, List.flatMap_cons, List.append_assoc,
      lines_cons hb (fun c hc => isCrLf_of_isLineBreak (hb c hc)) hend,
      ← hexLines, ih fun v hv => h v (List.mem_cons_of_mem w hv)]
    rfl

/-- The conversion of a dump: 65536 lines of eight hexadecimal digits, each byte of a word
the last one that the dump gives for its address, or the byte of a NOP; the line of an
address in the window is the one that the word index of `top` selects. -/
theorem elf_to_hex_faithful (d : Dump) (hexOut : Option (List Char)) :
    ∃ text, elfToHex (.exited 0 d.text) hexOut BASE_ADDR = (some true, some text) ∧
      text = (lines isLineBreak isCrLf text).flatMap (· ++ ['\n']) ∧
      (lines isLineBreak isCrLf text).length = 65536 ∧
      (∀ line ∈ lines isLineBreak isCrLf text, line.length = 8 ∧ ∀ c ∈ line, isHex c = true) ∧
      (∀ b < 2 ^ 18, laneOf (hexValue ((lines isLineBreak isCrLf text).getD (b / 4) [])) (b % 4) =
        (d.lastByte (BASE_ADDR + b)).getD (laneOf NOP_WORD (b % 4))) ∧
      (∀ d' : Dump, (∀ b < 2 ^ 18, d'.lastByte (BASE_ADDR + b) = d.lastByte (BASE_ADDR + b)) →
        elfToHex (.exited 0 d'.text) hexOut BASE_ADDR = (some true, some text)) ∧
      ∀ a, BASE_ADDR ≤ a → a < BASE_ADDR + 2 ^ 18 →
        a % 2 ^ 18 = a - BASE_ADDR ∧
          a % 2 ^ 18 / 4 = (wordIndex (BitVec.ofNat 32 a)).toNat := by
  obtain ⟨⟨hlen, hlt⟩, hbyte⟩ := words_spec d BASE_ADDR
  have hlines := lines_hexLines hlt
  refine ⟨_, elfToHex_text d hexOut BASE_ADDR, ?_, ?_, ?_, ?_, ?_, ?_⟩
  · rw [hlines, List.flatMap_map]
    rfl
  · rw [hlines, List.length_map, hlen, MEMORY_WORDS]
  · intro line hline
    rw [hlines] at hline
    obtain ⟨w, hw, rfl⟩ := List.mem_map.mp hline
    rw [format08x_eq (hlt w hw)]
    exact ⟨hex8_length _, fun c hc => isHex_of_mem_hex8 hc⟩
  · intro b hb
    have hi : b / 4 < (d.words BASE_ADDR).length := by
      rw [hlen, MEMORY_WORDS]
      omega
    have hw := hlt _ (List.getElem_mem hi)
    have hval : hexValue ((lines isLineBreak isCrLf (hexLines (d.words BASE_ADDR))).getD (b / 4) []) =
        (d.words BASE_ADDR).getD (b / 4) 0 := by
      rw [hlines]
      simp only [List.getD_eq_getElem?_getD, List.getElem?_map, List.getElem?_eq_getElem hi,
        Option.map_some, Option.getD_some]
      rw [format08x_eq hw, hexValue_hex8, BitVec.toNat_ofNat, Nat.mod_eq_of_lt hw]
    rw [hval, ← byteOf, hbyte b hb]
  · intro d' hd'
    rw [elfToHex_text, words_congr hd']
  · intro a h1 h2
    have hmod : a % 2 ^ 18 = a - BASE_ADDR := by
      unfold BASE_ADDR at *
      omega
    refine ⟨hmod, ?_⟩
    have ha : (BitVec.ofNat 32 a).toNat = a := by
      rw [BitVec.toNat_ofNat, Nat.mod_eq_of_lt]
      unfold BASE_ADDR at *
      omega
    rw [wordIndex, BitVec.extractLsb_toNat, ha, Nat.shiftRight_eq_div_pow]
    omega

end Rv32iRtl
