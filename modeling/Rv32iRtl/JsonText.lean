import Rv32iRtl.SeparatedList
import Rv32iRtl.OrderedDict

/-! JSON texts as Python's `json` module writes them, with an indent of two, and reads them:
strings, arrays and objects. Every value whose objects name no field twice is read back. -/
namespace JsonText

open TextScan

inductive Value
  | str (s : List Char)
  | arr (items : List Value)
  | obj (fields : List (List Char × Value))

/-- Induction along the items of arrays and the fields of objects. -/
@[elab_as_elim, induction_eliminator]
theorem Value.inductionOn {P : Value → Prop} (str : ∀ s, P (.str s))
    (arr : ∀ items, (∀ v ∈ items, P v) → P (.arr items))
    (obj : ∀ fields, (∀ f ∈ fields, P f.2) → P (.obj fields)) : ∀ v, P v
  | .str s => str s
  | .arr items => arr items fun v _ => Value.inductionOn str arr obj v
  | .obj fields => obj fields fun f hf =>
      have : sizeOf f.2 < 1 + sizeOf fields := by
        have hlt := List.sizeOf_lt_of_mem hf
        have hle : sizeOf f.2 < sizeOf f := by
          obtain ⟨k, v⟩ := f
          simp only [Prod.mk.sizeOf_spec]
          omega
        omega
      Value.inductionOn str arr obj f.2

/-- No object names a field twice. -/
inductive Distinct : Value → Prop
  | str (s : List Char) : Distinct (.str s)
  | arr {items : List Value} (h : ∀ v ∈ items, Distinct v) : Distinct (.arr items)
  | obj {fields : List (List Char × Value)} (hkeys : (fields.map Prod.fst).Nodup)
      (h : ∀ f ∈ fields, Distinct f.2) : Distinct (.obj fields)

def hex4 (n : ℕ) : List Char :=
  [n / 4096 % 16, n / 256 % 16, n / 16 % 16, n % 16].map Nat.digitChar

def escapeUnit (n : ℕ) : List Char := '\\' :: 'u' :: hex4 n

/-- The one-letter escapes. -/
def shortEscapes : List (Char × Char) :=
  [('\\', '\\'), ('"', '"'), ('\n', 'n'), ('\r', 'r'), ('\t', 't'), (Char.ofNat 0x0C, 'f'),
    (Char.ofNat 0x08, 'b')]

/-- Printable ASCII stands for itself; beyond 16 bits there are two code units. -/
def escapeChar (c : Char) : List Char :=
  match shortEscapes.find? fun e => e.1 = c with
  | some e => ['\\', e.2]
  | none =>
    if 0x20 ≤ c.toNat ∧ c.toNat ≤ 0x7E then [c]
    else if c.toNat < 0x10000 then escapeUnit c.toNat
    else escapeUnit (0xD800 + (c.toNat - 0x10000) / 0x400) ++
      escapeUnit (0xDC00 + (c.toNat - 0x10000) % 0x400)

def writeString (s : List Char) : List Char := '"' :: (s.flatMap escapeChar ++ ['"'])

def newline (level : ℕ) : List Char := '\n' :: List.replicate (2 * level) ' '

/-- The items between two brackets, each on a line of its own. -/
def bracketed (left right : Char) (level : ℕ) (items : List (List Char)) : List Char :=
  if items = [] then [left, right]
  else left :: (newline (level + 1) ++
    ((',' :: newline (level + 1)).intercalate items ++ (newline level ++ [right])))

mutual

def write : Value → ℕ → List Char
  | .str s, _ => writeString s
  | .arr items, level => bracketed '[' ']' level (writeItems items (level + 1))
  | .obj fields, level => bracketed '\x7b' '\x7d' level (writeFields fields (level + 1))

def writeItems : List Value → ℕ → List (List Char)
  | [], _ => []
  | v :: items, level => write v level :: writeItems items level

def writeFields : List (List Char × Value) → ℕ → List (List Char)
  | [], _ => []
  | (k, v) :: fields, level =>
    (writeString k ++ (": ".toList ++ write v level)) :: writeFields fields level

end

def dumps (v : Value) : List Char := write v 0

def isWs (c : Char) : Bool := c = ' ' ∨ c = '\t' ∨ c = '\n' ∨ c = '\r'

def skipWs (cs : List Char) : List Char := cs.dropWhile isWs

def hexDigit (c : Char) : Option ℕ :=
  if '0' ≤ c ∧ c ≤ '9' then some (c.toNat - 48)
  else if 'a' ≤ c ∧ c ≤ 'f' then some (c.toNat - 87)
  else if 'A' ≤ c ∧ c ≤ 'F' then some (c.toNat - 55)
  else none

def readHex4 : Pattern Char ℕ
  | a :: b :: c :: d :: cs => do
    let a ← hexDigit a
    let b ← hexDigit b
    let c ← hexDigit c
    let d ← hexDigit d
    some (((a * 16 + b) * 16 + c) * 16 + d, cs)
  | _ => none

/-- What follows `\u`. Half a pair is no character. -/
def readUnit : Pattern Char Char := fun cs => (readHex4 cs).bind fun m =>
  if 0xD800 ≤ m.1 ∧ m.1 ≤ 0xDBFF then
    (lit "\\u".toList m.2).bind fun m' => (readHex4 m'.2).bind fun m'' =>
      if 0xDC00 ≤ m''.1 ∧ m''.1 ≤ 0xDFFF then
        some (Char.ofNat (0x10000 + (m.1 - 0xD800) * 0x400 + (m''.1 - 0xDC00)), m''.2)
      else none
  else if 0xDC00 ≤ m.1 ∧ m.1 ≤ 0xDFFF then none
  else some (Char.ofNat m.1, m.2)

/-- One character of a string; control characters stand in none. -/
def readChar : Pattern Char Char
  | [] => none
  | ['\\'] => none
  | '\\' :: e :: cs =>
    if e = 'u' then readUnit cs
    else if e = '/' then some ('/', cs)
    else (shortEscapes.find? fun p => p.2 = e).map fun p => (p.1, cs)
  | c :: cs => if c = '"' ∨ c.toNat < 0x20 then none else some (c, cs)

/-- The characters up to the quotation mark. -/
def readChars : ℕ → Pattern Char (List Char)
  | 0, _ => none
  | n + 1, cs =>
    if cs.head? = some '"' then some ([], cs.tail)
    else (readChar cs).bind fun m => (readChars n m.2).map fun m' => (m.1 :: m'.1, m'.2)

def readString : Pattern Char (List Char) := fun cs =>
  if cs.head? = some '"' then readChars cs.length cs.tail else none

/-- A symbol with white space around it. -/
def symbol (c : Char) (cs : List Char) : Option (List Char) :=
  if (skipWs cs).head? = some c then some (skipWs (skipWs cs).tail) else none

/-- The items of an array or an object up to its end. -/
def readBracketed {A : Type*} (right : Char) (item : Pattern Char A) (n : ℕ) :
    Pattern Char (List A) := fun cs =>
  if (skipWs cs).head? = some right then some ([], (skipWs cs).tail)
  else (sepBy item (symbol ',') n (skipWs cs)).bind fun m =>
    if (skipWs m.2).head? = some right then some (m.1, (skipWs m.2).tail) else none

def readField (value : Pattern Char Value) : Pattern Char (List Char × Value) := fun cs =>
  (readString cs).bind fun m => (symbol ':' m.2).bind fun rest =>
    (value rest).map fun m' => ((m.1, m'.1), m'.2)

/-- A later field of the same name replaces an earlier one. -/
def readValue : ℕ → Pattern Char Value
  | 0, _ => none
  | n + 1, cs =>
    if cs.head? = some '[' then
      (readBracketed ']' (readValue n) n cs.tail).map fun m => (.arr m.1, m.2)
    else if cs.head? = some '\x7b' then
      (readBracketed '\x7d' (readField (readValue n)) n cs.tail).map fun m =>
        (.obj (OrderedDict.ofSettings m.1).entries, m.2)
    else (readString cs).map fun m => (.str m.1, m.2)

/-- The whole text is one value. -/
def loads (text : List Char) : Option Value :=
  (readValue (text.length + 1) (skipWs text)).bind fun m =>
    if skipWs m.2 = [] then some m.1 else none

lemma hexDigit_digitChar {d : ℕ} (h : d < 16) : hexDigit (Nat.digitChar d) = some d := by
  interval_cases d <;> rfl

lemma readHex4_hex4 {n : ℕ} (h : n < 0x10000) (cs : List Char) :
    readHex4 (hex4 n ++ cs) = some (n, cs) := by
  have hd : ∀ k, hexDigit (Nat.digitChar (k % 16)) = some (k % 16) :=
    fun k => hexDigit_digitChar (Nat.mod_lt k (by omega))
  have hn : (((n / 4096 % 16) * 16 + n / 256 % 16) * 16 + n / 16 % 16) * 16 + n % 16 = n := by
    omega
  simp only [hex4, List.map_cons, List.map_nil, List.cons_append, List.nil_append, readHex4, hd,
    Option.bind_eq_bind, Option.bind_some, hn]

lemma toNat_cases (c : Char) : c.toNat < 0xD800 ∨ (0xDFFF < c.toNat ∧ c.toNat < 0x110000) :=
  c.valid

lemma readUnit_hex4 {c : Char} (h : c.toNat < 0x10000) (cs : List Char) :
    readUnit (hex4 c.toNat ++ cs) = some (c, cs) := by
  have hc := toNat_cases c
  rw [readUnit, readHex4_hex4 h, Option.bind_some, if_neg (by omega), if_neg (by omega),
    Char.ofNat_toNat]

lemma readUnit_pair {c : Char} (h : 0x10000 ≤ c.toNat) (cs : List Char) :
    readUnit (hex4 (0xD800 + (c.toNat - 0x10000) / 0x400) ++
      (escapeUnit (0xDC00 + (c.toNat - 0x10000) % 0x400) ++ cs)) = some (c, cs) := by
  have hc := toNat_cases c
  have hlit : ∀ t : List Char, lit "\\u".toList ('\\' :: 'u' :: t) = some ("\\u".toList, t) :=
    fun t => lit_append "\\u".toList t
  have hlow : (c.toNat - 0x10000) % 0x400 < 0x400 := Nat.mod_lt _ (by omega)
  have hn : 0x10000 + (0xD800 + (c.toNat - 0x10000) / 0x400 - 0xD800) * 0x400 +
      (0xDC00 + (c.toNat - 0x10000) % 0x400 - 0xDC00) = c.toNat := by omega
  rw [readUnit, readHex4_hex4 (by omega), Option.bind_some, if_pos (by omega), escapeUnit,
    List.cons_append, List.cons_append, hlit, Option.bind_some, readHex4_hex4 (by omega),
    Option.bind_some, if_pos (by omega), hn, Char.ofNat_toNat]

lemma readChar_short {e : Char × Char} (h : e ∈ shortEscapes) (cs : List Char) :
    readChar ('\\' :: e.2 :: cs) = some (e.1, cs) := by
  simp only [shortEscapes, List.mem_cons, List.not_mem_nil, or_false] at h
  rcases h with rfl | rfl | rfl | rfl | rfl | rfl | rfl <;> rfl

lemma readChar_plain {c : Char} (hc : c ≠ '\\') (hq : c ≠ '"') (h : 0x20 ≤ c.toNat)
    (cs : List Char) : readChar (c :: cs) = some (c, cs) := by
  have hno : ¬(c = '"' ∨ c.toNat < 0x20) := by
    rintro (rfl | hlt)
    · exact hq rfl
    · omega
  rw [readChar.eq_def]
  split
  · contradiction
  · rename_i heq
    exact absurd (List.cons.inj heq).1 hc
  · rename_i heq
    exact absurd (List.cons.inj heq).1 hc
  · rename_i heq
    obtain ⟨rfl, rfl⟩ := List.cons.inj heq
    exact if_neg hno

lemma readChar_unit {n : ℕ} (cs : List Char) :
    readChar (escapeUnit n ++ cs) = readUnit (hex4 n ++ cs) := rfl

lemma readChar_escape (c : Char) (cs : List Char) :
    readChar (escapeChar c ++ cs) = some (c, cs) := by
  unfold escapeChar
  cases hf : shortEscapes.find? fun e => e.1 = c with
  | some e =>
    have he : e.1 = c := by simpa using List.find?_some hf
    exact he ▸ readChar_short (List.mem_of_find?_eq_some hf) cs
  | none =>
    have hne : ∀ e ∈ shortEscapes, e.1 ≠ c := by simpa using List.find?_eq_none.mp hf
    have hback : c ≠ '\\' := (hne ('\\', '\\') (by simp [shortEscapes])).symm
    have hquote : c ≠ '"' := (hne ('"', '"') (by simp [shortEscapes])).symm
    dsimp only
    split_ifs with hplain hshort
    · exact readChar_plain hback hquote hplain.1 cs
    · rw [readChar_unit]
      exact readUnit_hex4 hshort cs
    · rw [List.append_assoc, readChar_unit]
      exact readUnit_pair (Nat.le_of_not_lt hshort) cs

lemma escapeChar_head (c : Char) : ∃ d u, escapeChar c = d :: u ∧ d ≠ '"' := by
  unfold escapeChar
  cases hf : shortEscapes.find? fun e => e.1 = c with
  | some e => exact ⟨_, _, rfl, by decide⟩
  | none =>
    dsimp only
    split_ifs with hplain hshort
    · have hne : ∀ e ∈ shortEscapes, e.1 ≠ c := by simpa using List.find?_eq_none.mp hf
      exact ⟨c, [], rfl, (hne ('"', '"') (by simp [shortEscapes])).symm⟩
    · exact ⟨_, _, rfl, by decide⟩
    · exact ⟨_, _, rfl, by decide⟩

lemma readChars_escape (s cs : List Char) {n : ℕ} (hn : s.length < n) :
    readChars n (s.flatMap escapeChar ++ '"' :: cs) = some (s, cs) := by
  induction s generalizing n with
  | nil =>
    obtain ⟨k, rfl⟩ := Nat.exists_eq_add_of_le' hn
    rfl
  | cons c s ih =>
    obtain ⟨k, rfl⟩ := Nat.exists_eq_add_of_le' (Nat.one_le_of_lt hn)
    obtain ⟨d, u, hhead, hd⟩ := escapeChar_head c
    have hno : ¬(escapeChar c ++ (s.flatMap escapeChar ++ '"' :: cs)).head? = some '"' := by
      rw [hhead]
      exact fun h => hd (Option.some.inj h)
    rw [List.flatMap_cons, List.append_assoc, readChars, if_neg hno, readChar_escape,
      Option.bind_some, ih (Nat.lt_of_succ_lt_succ hn)]
    rfl

lemma escapeChar_ne_nil (c : Char) : escapeChar c ≠ [] := by
  obtain ⟨d, u, h, -⟩ := escapeChar_head c
  rw [h]
  exact List.cons_ne_nil d u

lemma length_le_escape (s : List Char) : s.length ≤ (s.flatMap escapeChar).length := by
  induction s with
  | nil => exact le_rfl
  | cons c s ih =>
    have hc := List.length_pos_iff.mpr (escapeChar_ne_nil c)
    rw [List.flatMap_cons, List.length_append, List.length_cons]
    omega

lemma readString_write (s cs : List Char) : readString (writeString s ++ cs) = some (s, cs) := by
  have htext : writeString s ++ cs = '"' :: (s.flatMap escapeChar ++ '"' :: cs) := by
    simp [writeString]
  have hlen := length_le_escape s
  rw [htext, readString, List.head?_cons, if_pos rfl]
  apply readChars_escape
  simp only [List.length_cons, List.length_append]
  omega

lemma skipWs_newline {c : Char} (hc : isWs c = false) (level : ℕ) (cs : List Char) :
    skipWs (newline level ++ c :: cs) = c :: cs := by
  have hws : ∀ d ∈ newline level, isWs d = true := by
    intro d hd
    rcases List.mem_cons.mp hd with rfl | hd
    · rfl
    · obtain rfl := List.eq_of_mem_replicate hd
      rfl
  rw [skipWs, List.dropWhile_append_of_pos hws, List.dropWhile_cons_of_neg (by simp [hc])]

lemma skipWs_cons {c : Char} (hc : isWs c = false) (cs : List Char) :
    skipWs (c :: cs) = c :: cs := by
  rw [skipWs, List.dropWhile_cons_of_neg (by simp [hc])]

lemma symbol_append {c d : Char} (hc : isWs c = false) (hd : isWs d = false) (level : ℕ)
    (cs : List Char) : symbol c (c :: newline level ++ d :: cs) = some (d :: cs) := by
  rw [symbol, List.cons_append, skipWs_cons hc, List.head?_cons, if_pos rfl, List.tail_cons,
    skipWs_newline hd]

lemma symbol_none {c d : Char} (hd : isWs d = false) (hne : d ≠ c) (level : ℕ) (cs : List Char) :
    symbol c (newline level ++ d :: cs) = none := by
  rw [symbol, skipWs_newline hd, List.head?_cons, if_neg fun h => hne (Option.some.inj h)]

section Bracketed

variable {A : Type*} {item : Pattern Char A} {text : A → List Char} {left right : Char}

/-- An item starts with a character that is neither white space nor the closing bracket. -/
def Starts (right : Char) (t : List Char) : Prop :=
  ∃ c u, t = c :: u ∧ isWs c = false ∧ c ≠ right

lemma bracketed_append (items : List (List Char)) (level : ℕ) (cs : List Char) :
    ∃ t, bracketed left right level items ++ cs = left :: t ∧
      t = (bracketed left right level items).tail ++ cs := by
  unfold bracketed
  split_ifs
  · exact ⟨_, rfl, rfl⟩
  · exact ⟨_, rfl, rfl⟩

variable (left right) in
/-- Items between brackets are read back where every single one is. -/
theorem readBracketed_write (hright : isWs right = false ∧ right ≠ ',') {as : List A} {n : ℕ}
    (hn : as.length ≤ n) (hitem : ∀ a ∈ as, ∀ cs, item (text a ++ cs) = some (a, cs))
    (hstart : ∀ a ∈ as, Starts right (text a)) (level : ℕ) (cs : List Char) :
    readBracketed right item n ((bracketed left right level (as.map text)).tail ++ cs) =
      some (as, cs) := by
  cases as with
  | nil =>
    change readBracketed right item n (right :: cs) = _
    rw [readBracketed, skipWs_cons hright.1, List.head?_cons, if_pos rfl, List.tail_cons]
  | cons a as =>
    let body := (',' :: newline (level + 1)).intercalate ((a :: as).map text)
    have htail : (bracketed left right level ((a :: as).map text)).tail ++ cs =
        newline (level + 1) ++ (body ++ (newline level ++ right :: cs)) := by
      simp [bracketed, body]
    obtain ⟨c, u, hc, hws, hne⟩ : Starts right (body ++ (newline level ++ right :: cs)) := by
      obtain ⟨c, u, hc, hws, hne⟩ := hstart a List.mem_cons_self
      cases as with
      | nil => exact ⟨c, u ++ (newline level ++ right :: cs), by simp [body, hc], hws, hne⟩
      | cons b as =>
        exact ⟨c, u ++ (',' :: newline (level + 1)) ++
          (',' :: newline (level + 1)).intercalate ((b :: as).map text) ++
            (newline level ++ right :: cs), by simp [body, hc], hws, hne⟩
    have hsep : ∀ b ∈ a :: as, ∀ t,
        symbol ',' (',' :: newline (level + 1) ++ (text b ++ t)) = some (text b ++ t) := by
      intro b hb t
      obtain ⟨d, v, hd, hdws, -⟩ := hstart b hb
      rw [hd]
      exact symbol_append rfl hdws (level + 1) (v ++ t)
    have hread : sepBy item (symbol ',') n (body ++ (newline level ++ right :: cs)) =
        some (a :: as, newline level ++ right :: cs) :=
      sepBy_intercalate (fun _ => True) (List.cons_ne_nil a as)
        (fun b hb t _ => hitem b hb t) hsep (fun _ _ _ => trivial) trivial
        (symbol_none hright.1 hright.2 level cs) hn
    rw [hc] at hread
    rw [htail, hc, readBracketed, skipWs_newline hws, List.head?_cons,
      if_neg fun h => hne (Option.some.inj h), hread, Option.bind_some, skipWs_newline hright.1,
      List.head?_cons, if_pos rfl, List.tail_cons]

lemma length_lt_bracketed {t : List Char} {items : List (List Char)} (h : t ∈ items)
    (level : ℕ) : t.length < (bracketed left right level items).length := by
  have hle := length_le_of_mem_intercalate (s := ',' :: newline (level + 1)) h
  rw [bracketed, if_neg (List.ne_nil_of_mem h)]
  simp only [List.length_cons, List.length_append]
  omega

lemma length_le_bracketed {items : List (List Char)} (h : ∀ t ∈ items, t ≠ []) (level : ℕ) :
    items.length ≤ (bracketed left right level items).length := by
  have hle : (items.map id).length ≤
      ((',' :: newline (level + 1)).intercalate (items.map id)).length :=
    (List.length_map id).trans_le (length_le_intercalate h)
  rw [List.map_id] at hle
  unfold bracketed
  split_ifs with hnil
  · simp [hnil]
  · simp only [List.length_cons, List.length_append]
    omega

end Bracketed

def writeField (level : ℕ) (f : List Char × Value) : List Char :=
  writeString f.1 ++ (": ".toList ++ write f.2 level)

lemma writeItems_eq (items : List Value) (level : ℕ) :
    writeItems items level = items.map fun v => write v level := by
  induction items with
  | nil => rfl
  | cons v items ih => rw [writeItems, ih, List.map_cons]

lemma writeFields_eq (fields : List (List Char × Value)) (level : ℕ) :
    writeFields fields level = fields.map (writeField level) := by
  induction fields with
  | nil => rfl
  | cons f fields ih => rw [writeFields, ih, List.map_cons, writeField]

lemma write_starts (v : Value) (level : ℕ) :
    ∃ c u, write v level = c :: u ∧ (c = '"' ∨ c = '[' ∨ c = '\x7b') := by
  cases v with
  | str s => exact ⟨'"', _, by rw [write, writeString], Or.inl rfl⟩
  | arr items =>
    obtain ⟨t, ht, -⟩ := @bracketed_append '[' ']' (writeItems items (level + 1)) level []
    rw [List.append_nil] at ht
    exact ⟨'[', t, by rw [write, ht], Or.inr (Or.inl rfl)⟩
  | obj fields =>
    obtain ⟨t, ht, -⟩ := @bracketed_append '\x7b' '\x7d' (writeFields fields (level + 1)) level []
    rw [List.append_nil] at ht
    exact ⟨'\x7b', t, by rw [write, ht], Or.inr (Or.inr rfl)⟩

lemma starts_write (v : Value) (level : ℕ) : Starts ']' (write v level) := by
  obtain ⟨c, u, h, rfl | rfl | rfl⟩ := write_starts v level <;>
    exact ⟨_, u, h, rfl, by decide⟩

lemma starts_writeField (f : List Char × Value) (level : ℕ) :
    Starts '\x7d' (writeField level f) := ⟨'"', _, rfl, rfl, by decide⟩

lemma readField_write {f : List Char × Value} {level : ℕ} {value : Pattern Char Value}
    (h : ∀ cs, value (write f.2 level ++ cs) = some (f.2, cs)) (cs : List Char) :
    readField value (writeField level f ++ cs) = some (f, cs) := by
  obtain ⟨c, u, hc, hws, -⟩ := starts_write f.2 level
  have hcolon : symbol ':' (": ".toList ++ (write f.2 level ++ cs)) =
      some (write f.2 level ++ cs) := by
    rw [hc]
    change symbol ':' (':' :: ' ' :: c :: (u ++ cs)) = _
    have hskip : skipWs (' ' :: c :: (u ++ cs)) = c :: (u ++ cs) := by
      rw [skipWs, List.dropWhile_cons_of_pos rfl, ← skipWs, skipWs_cons hws]
    rw [symbol, skipWs_cons rfl, List.head?_cons, if_pos rfl, List.tail_cons, hskip]
    rfl
  rw [writeField, List.append_assoc, List.append_assoc, readField, readString_write,
    Option.bind_some, hcolon, Option.bind_some, h]
  rfl

/-- A value is read back from any text that it stands in front of. -/
theorem readValue_write {v : Value} (hv : Distinct v) (level : ℕ) {n : ℕ}
    (hn : (write v level).length < n) (cs : List Char) :
    readValue n (write v level ++ cs) = some (v, cs) := by
  induction v generalizing level n cs with
  | str s =>
    obtain ⟨k, rfl⟩ := Nat.exists_eq_add_of_le' (Nat.one_le_of_lt hn)
    have hhead : (write (.str s) level ++ cs).head? = some '"' := by rw [write]; rfl
    rw [readValue, hhead, if_neg (by decide), if_neg (by decide), write, readString_write]
    rfl
  | arr items ih =>
    obtain ⟨k, rfl⟩ := Nat.exists_eq_add_of_le' (Nat.one_le_of_lt hn)
    have hitems : ∀ w ∈ items, Distinct w := by
      cases hv with
      | arr h => exact h
    rw [write, writeItems_eq] at hn ⊢
    have hlen : items.length ≤ k := by
      have hle := @length_le_bracketed '[' ']' (items.map fun w => write w (level + 1))
        (fun t ht => by
          obtain ⟨w, -, rfl⟩ := List.mem_map.mp ht
          obtain ⟨c, u, h, -⟩ := write_starts w (level + 1)
          simp [h]) level
      rw [List.length_map] at hle
      omega
    have hitem : ∀ w ∈ items, ∀ t, readValue k (write w (level + 1) ++ t) = some (w, t) := by
      intro w hw t
      have hlt := @length_lt_bracketed '[' ']' _ _
        (List.mem_map_of_mem (f := fun w => write w (level + 1)) hw) level
      exact ih w hw (hitems w hw) (level + 1) (by omega) t
    obtain ⟨t, ht, htail⟩ := @bracketed_append '[' ']'
      (items.map fun w => write w (level + 1)) level cs
    have hread := readBracketed_write '[' ']' (by decide) hlen hitem
      (fun w _ => starts_write w (level + 1)) level cs
    rw [← htail] at hread
    rw [ht, readValue, List.head?_cons, if_pos rfl, List.tail_cons, hread]
    rfl
  | obj fields ih =>
    obtain ⟨k, rfl⟩ := Nat.exists_eq_add_of_le' (Nat.one_le_of_lt hn)
    obtain ⟨hkeys, hfields⟩ : (fields.map Prod.fst).Nodup ∧ ∀ f ∈ fields, Distinct f.2 := by
      cases hv with
      | obj hkeys h => exact ⟨hkeys, h⟩
    rw [write, writeFields_eq] at hn ⊢
    have hlen : fields.length ≤ k := by
      have hle := @length_le_bracketed '\x7b' '\x7d' (fields.map (writeField (level + 1)))
        (fun t ht => by
          obtain ⟨f, -, rfl⟩ := List.mem_map.mp ht
          exact List.cons_ne_nil _ _) level
      rw [List.length_map] at hle
      omega
    have hfield : ∀ f ∈ fields, ∀ t,
        readField (readValue k) (writeField (level + 1) f ++ t) = some (f, t) := by
      intro f hf t
      have hlt := @length_lt_bracketed '\x7b' '\x7d' _ _
        (List.mem_map_of_mem (f := writeField (level + 1)) hf) level
      have hvalue : (write f.2 (level + 1)).length ≤ (writeField (level + 1) f).length := by
        rw [writeField, List.length_append, List.length_append]
        omega
      exact readField_write (fun t => ih f hf (hfields f hf) (level + 1) (by omega) t) t
    obtain ⟨t, ht, htail⟩ := @bracketed_append '\x7b' '\x7d'
      (fields.map (writeField (level + 1))) level cs
    have hread := readBracketed_write '\x7b' '\x7d' (by decide) hlen hfield
      (fun f _ => starts_writeField f (level + 1)) level cs
    rw [← htail] at hread
    rw [ht, readValue, List.head?_cons, if_neg (by decide), if_pos rfl, List.tail_cons, hread,
      Option.map_some, OrderedDict.entries_ofSettings hkeys]

/-- What is written is read back. -/
theorem loads_dumps {v : Value} (hv : Distinct v) : loads (dumps v) = some v := by
  obtain ⟨c, u, hc, hws, -⟩ := starts_write v 0
  have hskip : skipWs (dumps v) = dumps v ++ [] := by
    rw [List.append_nil, dumps, hc, skipWs_cons hws]
  rw [loads, hskip, dumps, readValue_write hv 0 (Nat.lt_succ_self _), Option.bind_some]
  rfl

/-- Printable ASCII or a newline, which no encoding changes. -/
def IsPlainChar (c : Char) : Prop := c = '\n' ∨ 0x20 ≤ c.toNat ∧ c.toNat ≤ 0x7E

instance (c : Char) : Decidable (IsPlainChar c) := inferInstanceAs (Decidable (_ ∨ _))

def IsPlain (t : List Char) : Prop := ∀ c ∈ t, IsPlainChar c

lemma IsPlain.append {t u : List Char} (ht : IsPlain t) (hu : IsPlain u) : IsPlain (t ++ u) := by
  intro c hc
  rcases List.mem_append.mp hc with hc | hc
  · exact ht c hc
  · exact hu c hc

lemma isPlain_cons {c : Char} {t : List Char} :
    IsPlain (c :: t) ↔ IsPlainChar c ∧ IsPlain t := List.forall_mem_cons

lemma isPlain_nil : IsPlain [] := fun _ h => by contradiction

lemma isPlain_hex4 (n : ℕ) : IsPlain (hex4 n) := by
  have hdigit : ∀ d, d < 16 → IsPlainChar (Nat.digitChar d) := by
    intro d hd
    interval_cases d <;> decide
  intro c hc
  obtain ⟨d, hd, rfl⟩ := List.mem_map.mp hc
  apply hdigit
  simp only [List.mem_cons, List.not_mem_nil, or_false] at hd
  omega

lemma isPlain_escapeUnit (n : ℕ) : IsPlain (escapeUnit n) :=
  isPlain_cons.mpr ⟨by decide, isPlain_cons.mpr ⟨by decide, isPlain_hex4 n⟩⟩

lemma isPlain_escapeChar (c : Char) : IsPlain (escapeChar c) := by
  unfold escapeChar
  cases hf : shortEscapes.find? fun e => e.1 = c with
  | some e =>
    have hshort : ∀ e ∈ shortEscapes, IsPlainChar e.2 := by decide
    exact isPlain_cons.mpr ⟨by decide,
      isPlain_cons.mpr ⟨hshort e (List.mem_of_find?_eq_some hf), isPlain_nil⟩⟩
  | none =>
    dsimp only
    split_ifs with hplain hshort
    · exact isPlain_cons.mpr ⟨Or.inr hplain, isPlain_nil⟩
    · exact isPlain_escapeUnit _
    · exact (isPlain_escapeUnit _).append (isPlain_escapeUnit _)

lemma isPlain_writeString (s : List Char) : IsPlain (writeString s) := by
  have hend : IsPlain ['"'] := isPlain_cons.mpr ⟨by decide, isPlain_nil⟩
  refine isPlain_cons.mpr ⟨by decide, IsPlain.append (fun c hc => ?_) hend⟩
  obtain ⟨d, -, hd⟩ := List.mem_flatMap.mp hc
  exact isPlain_escapeChar d c hd

lemma isPlain_newline (level : ℕ) : IsPlain (newline level) := by
  refine isPlain_cons.mpr ⟨by decide, fun c hc => ?_⟩
  obtain rfl := List.eq_of_mem_replicate hc
  decide

lemma isPlain_intercalate {s : List Char} (hs : IsPlain s) {ls : List (List Char)}
    (h : ∀ t ∈ ls, IsPlain t) : IsPlain (s.intercalate ls) := by
  induction ls with
  | nil => exact isPlain_nil
  | cons t ls ih =>
    have hrest := ih fun u hu => h u (List.mem_cons_of_mem t hu)
    cases ls with
    | nil =>
      rw [List.intercalate_singleton]
      exact h t List.mem_cons_self
    | cons u ls =>
      rw [List.intercalate_cons_cons]
      exact ((h t List.mem_cons_self).append hs).append hrest

lemma isPlain_bracketed {left right : Char} (hl : IsPlainChar left) (hr : IsPlainChar right)
    {items : List (List Char)} (h : ∀ t ∈ items, IsPlain t) (level : ℕ) :
    IsPlain (bracketed left right level items) := by
  have hend : IsPlain [right] := isPlain_cons.mpr ⟨hr, isPlain_nil⟩
  have hsep : IsPlain (',' :: newline (level + 1)) :=
    isPlain_cons.mpr ⟨by decide, isPlain_newline _⟩
  unfold bracketed
  split_ifs
  · exact isPlain_cons.mpr ⟨hl, hend⟩
  · exact isPlain_cons.mpr ⟨hl, (isPlain_newline _).append
      ((isPlain_intercalate hsep h).append ((isPlain_newline _).append hend))⟩

lemma isPlain_write (v : Value) (level : ℕ) : IsPlain (write v level) := by
  induction v generalizing level with
  | str s => exact isPlain_writeString s
  | arr items ih =>
    rw [write, writeItems_eq]
    refine isPlain_bracketed (by decide) (by decide) (fun t ht => ?_) level
    obtain ⟨w, hw, rfl⟩ := List.mem_map.mp ht
    exact ih w hw (level + 1)
  | obj fields ih =>
    rw [write, writeFields_eq]
    refine isPlain_bracketed (by decide) (by decide) (fun t ht => ?_) level
    obtain ⟨f, hf, rfl⟩ := List.mem_map.mp ht
    have hcolon : IsPlain ": ".toList :=
      isPlain_cons.mpr ⟨by decide, isPlain_cons.mpr ⟨by decide, isPlain_nil⟩⟩
    exact (isPlain_writeString f.1).append (hcolon.append (ih f hf (level + 1)))

end JsonText
