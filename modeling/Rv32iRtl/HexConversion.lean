import Rv32iRtl.HexText
import Rv32iRtl.TextLines
import Rv32iRtl.OrderedDict

/-! The conversion of an ELF file into `mem_init.hex` by `run_tests.py`: the parser of the
dump that `objcopy -O verilog` writes, and the word array built from its bytes. -/
namespace Rv32iRtl

open TextLines OrderedDict

def MEMORY_WORDS : ℕ := 65536
def NOP_WORD : ℕ := 0x00000013
def BASE_ADDR : ℕ := 0x80000000

abbrev ByteMemory := OrderedDict ℕ ℕ

/-- `int(s, 16)` of plain digits. A dump has no sign, `0x` or `_` in its numbers; every
other text counts as a `ValueError` here. -/
def int16 (s : List Char) : Option ℕ := if s ≠ [] ∧ s.all isHex then some (hexValue s) else none

def parseBytes : List (List Char) → ByteMemory × ℕ → Option (ByteMemory × ℕ)
  | [], st => some st
  | byteStr :: rest, (memory, currentAddr) => do
    let byteVal ← int16 byteStr
    parseBytes rest (memory.set currentAddr byteVal, currentAddr + 1)

/-- One pass of the line loop, on the dictionary and the running address. -/
def parseLine (st : ByteMemory × ℕ) (rawLine : List Char) : Option (ByteMemory × ℕ) :=
  let line := strip isSpace rawLine
  if line = [] then some st
  else if line.head? = some '@' then (int16 (line.drop 1)).map fun addr => (st.1, addr)
  else parseBytes (words isSpace line) st

def parseVerilogHex (hexText : List Char) : Option ByteMemory :=
  ((lines isLineBreak isCrLf hexText).foldlM parseLine (empty, 0)).map Prod.fst

/-- Keep the bytes of the memory window, at their offsets from the base address. -/
def remap (baseAddr : ℕ) (byteMemory : ByteMemory) : ByteMemory :=
  byteMemory.entries.foldl (fun remapped e =>
    if baseAddr ≤ e.1 ∧ e.1 - baseAddr < MEMORY_WORDS * 4 then remapped.set (e.1 - baseAddr) e.2
    else remapped) empty

/-- `(word & ~(0xFF << (lane * 8))) | (byte_val << (lane * 8))` -/
def mergeLane (word byteLane byteVal : ℕ) : ℕ :=
  word.ldiff (0xFF <<< (byteLane * 8)) ||| byteVal <<< (byteLane * 8)

def mergeByte (words : List ℕ) (e : ℕ × ℕ) : List ℕ :=
  let wordIdx := e.1 >>> 2
  let byteLane := e.1 &&& 3
  if wordIdx < MEMORY_WORDS then words.modify wordIdx fun w => mergeLane w byteLane e.2 else words

def wordArray (remapped : ByteMemory) : List ℕ :=
  remapped.entries.foldl mergeByte (List.replicate MEMORY_WORDS NOP_WORD)

/-- `f"{word:08x}"` -/
def format08x (word : ℕ) : List Char := (Nat.toDigits 16 word).leftpad 8 '0'

def hexLines (words : List ℕ) : List Char := words.flatMap fun word => format08x word ++ ['\n']

/-- What becomes of the call of `objcopy`; `dump` is the text read from its output file. -/
inductive Objcopy
  | notFound
  | raised
  | exited (returncode : ℤ) (dump : List Char)

/-- The returned flag, unless it raises, and the content of the output file. -/
def elfToHex (objcopy : Objcopy) (hexOut : Option (List Char)) (baseAddr : ℕ) :
    Option Bool × Option (List Char) :=
  match objcopy with
  | .notFound => (some false, hexOut)
  | .raised => (none, hexOut)
  | .exited returncode hexText =>
    if returncode ≠ 0 then (some false, hexOut)
    else match parseVerilogHex hexText with
      | none => (none, hexOut)
      | some byteMemory => (some true, some (hexLines (wordArray (remap baseAddr byteMemory))))

end Rv32iRtl
