import Rv32iRtl.JsonText
import Rv32iRtl.ContractSync

/-! The files `<module>_meta.json` that hold the port contracts as JSON: what is read from them
is what was written. -/
namespace Rv32iRtl

open JsonText

def Port.toJson (p : Port) : Value :=
  .obj [("direction".toList, .str p.direction), ("width".toList, .str p.width),
    ("name".toList, .str p.name)]

def Contract.toJson (c : Contract) : Value :=
  .obj [("module".toList, .str c.moduleName), ("ports".toList, .arr (c.ports.map Port.toJson))]

/-- `json.dumps(contract, indent=2)` -/
def Contract.metaText (c : Contract) : Text := dumps c.toJson

/-- `value[key]`; the error is a `KeyError` or a `TypeError`. -/
def fieldOf (key : String) : Value → Option Value
  | .obj fields => (fields.find? fun f => f.1 = key.toList).map Prod.snd
  | _ => none

def asText : Value → Option Text
  | .str s => some s
  | _ => none

def asItems : Value → Option (List Value)
  | .arr items => some items
  | _ => none

def portLine (p : Value) : Option Text := do
  let direction ← (fieldOf "direction" p).bind asText
  let width ← (fieldOf "width" p).bind asText
  let name ← (fieldOf "name" p).bind asText
  some ("  ".toList ++ direction ++ [' '] ++ width ++ [' '] ++ name)

/-- The part of the prompt made of one file. -/
def contractText (file : Text) : Option Text := do
  let contract ← loads file
  let moduleName ← (fieldOf "module" contract).bind asText
  let ports ← (fieldOf "ports" contract).bind asItems
  let portLines ← ports.mapM portLine
  some ("// ".toList ++ moduleName ++ ['\n'] ++ ['\n'].intercalate portLines)

/-- `_build_port_contracts` on the files by their modules. -/
def buildPortContractsOf (metaTexts : List (String × Text)) : Option Text := do
  let metaFiles := metaTexts.mergeSort fun p q => p.1 ++ "_meta.json" ≤ q.1 ++ "_meta.json"
  let contracts ← metaFiles.mapM fun p => contractText p.2
  some ("=== EXACT PORT CONTRACTS ===\n".toList ++ "\n\n".toList.intercalate contracts)

/-- The files that stand for the contracts of a state. -/
def World.metaTexts (w : World) : List (String × Text) :=
  w.contracts.entries.map fun e => (e.1, e.2.metaText)

lemma Contract.distinct_toJson (c : Contract) : Distinct c.toJson := by
  have hportKeys : ["direction".toList, "width".toList, "name".toList].Nodup := by decide
  have hkeys : ["module".toList, "ports".toList].Nodup := by decide
  have hport : ∀ p : Port, Distinct p.toJson := by
    intro p
    refine Distinct.obj hportKeys (List.forall_mem_cons.mpr ⟨.str _, ?_⟩)
    exact List.forall_mem_cons.mpr ⟨.str _, List.forall_mem_singleton.mpr (.str _)⟩
  refine Distinct.obj hkeys (List.forall_mem_cons.mpr ⟨.str _, ?_⟩)
  refine List.forall_mem_singleton.mpr (Distinct.arr fun v hv => ?_)
  obtain ⟨p, -, rfl⟩ := List.mem_map.mp hv
  exact hport p

lemma loads_metaText (c : Contract) : loads c.metaText = some c.toJson :=
  loads_dumps c.distinct_toJson

lemma portLine_toJson (p : Port) : portLine p.toJson = some p.format := rfl

lemma mapM_some {A B : Type*} {f : A → Option B} {g : A → B} {l : List A}
    (h : ∀ a ∈ l, f a = some (g a)) : l.mapM f = some (l.map g) := by
  induction l with
  | nil => rfl
  | cons a l ih =>
    rw [List.mapM_cons, h a List.mem_cons_self, ih fun b hb => h b (List.mem_cons_of_mem a hb)]
    rfl

lemma contractText_metaText (c : Contract) : contractText c.metaText = some c.format := by
  have hports : (c.ports.map Port.toJson).mapM portLine = some (c.ports.map Port.format) := by
    rw [List.mapM_map]
    exact mapM_some fun p _ => portLine_toJson p
  have hname : (fieldOf "module" c.toJson).bind asText = some c.moduleName := rfl
  have hitems : (fieldOf "ports" c.toJson).bind asItems = some (c.ports.map Port.toJson) := rfl
  simp only [contractText, loads_metaText, hname, hitems, hports, Option.bind_eq_bind,
    Option.bind_some, Contract.format]

/-- The contract files are plain text that gives back every contract, and the prompt made of
the files is that of the contracts. -/
theorem contract_files_read_back (w : World) :
    buildPortContractsOf w.metaTexts = some (buildPortContracts w) ∧
      ∀ c : Contract, loads c.metaText = some c.toJson ∧ IsPlain c.metaText := by
  refine ⟨?_, fun c => ⟨loads_metaText c, isPlain_write _ _⟩⟩
  have hsort : w.metaTexts.mergeSort (fun p q => p.1 ++ "_meta.json" ≤ q.1 ++ "_meta.json") =
      w.metaFiles.map fun e => (e.1, e.2.metaText) :=
    (List.map_mergeSort (f := fun e : String × Contract => (e.1, e.2.metaText))
      fun _ _ _ _ => rfl).symm
  have hread : (w.metaFiles.map fun e => (e.1, e.2.metaText)).mapM (fun p => contractText p.2) =
      some (w.metaFiles.map fun e => e.2.format) := by
    rw [List.mapM_map]
    exact mapM_some fun e _ => contractText_metaText e.2
  simp only [buildPortContractsOf, hsort, hread, Option.bind_eq_bind, Option.bind_some]
  rfl

end Rv32iRtl
