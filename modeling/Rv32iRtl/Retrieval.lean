import Rv32iRtl.HexText
import Rv32iRtl.TextLines
import Rv32iRtl.OrderedDict
import Rv32iRtl.VerilogText

/-! The hybrid retrieval of `pipeline.py`: the reference modules of a component, and for the
slots that are left a fusion of the semantic and the keyword ranking, re-ranked at the end. -/
namespace Rv32iRtl

open TextLines

/-- The arithmetic of scores: it can be computed, and nothing else is asked of it. -/
class Score (F : Type*) extends Zero F, One F, Add F, Div F, NatCast F where
  le : F → F → Bool

/-- The values of the keys that a document carries. -/
abbrev Metadata := String → Option Text

structure Document where
  document : Text
  metadata : Metadata

/-- A collection of the vector store: documents by id. -/
abbrev Collection (I : Type*) [DecidableEq I] := OrderedDict I Document

/-- A retrieved document, with the score of the re-ranking if there was one. -/
structure Entry (I F : Type*) where
  id : I
  document : Text
  metadata : Metadata
  crossScore : Option F

def COMPONENT_TO_MODULES : String → List String
  | "alu" => ["ibex_alu", "ibex_ex_block", "rv32i_alu"]
  | "decoder" => ["ibex_decoder", "rv32i_decoder"]
  | "regfile" => ["ibex_register_file_ff", "rv32i_basereg"]
  | "lsu" => ["ibex_load_store_unit", "rv32i_memoryaccess"]
  | "hazard" => ["rv32i_forwarding"]
  | "writeback" => ["rv32i_writeback"]
  | "full_core" => ["picorv32"]
  | _ => []

/-- The packages behind the retrieval: embedding, vector search, keyword scores (one for each
document of a tokenized corpus) and the cross-encoder (one for each pair). -/
structure Models (I V F : Type*) [DecidableEq I] where
  lower : Text → Text
  embedQueryCodebert : Text → V
  query : Collection I → V → ℕ → List I
  bm25Scores : List (List Text) → List Text → ℕ → F
  predict : List (Text × Text) → ℕ → F

section

variable {I V F : Type*} [DecidableEq I] [Score F] (models : Models I V F)

def bm25Search (corpusDocs : List Text) (corpusIds : List I) (query : Text) (k : ℕ) :
    List (I × F) :=
  let tokenizedCorpus := corpusDocs.map fun doc => words isSpace (models.lower doc)
  let tokenizedQuery := words isSpace (models.lower query)
  let scores := models.bm25Scores tokenizedCorpus tokenizedQuery
  let ranked := (corpusIds.zipIdx.map fun p => (p.1, scores p.2)).mergeSort fun x y => Score.le y.2 x.2
  ranked.take k

/-- One ranking counted into the scores, with ranks from 1. -/
def addRanks (k : ℕ) (scores : OrderedDict I F) (ids : List I) : OrderedDict I F :=
  (ids.zipIdx 1).foldl
    (fun scores p => scores.set p.1 ((scores.get? p.1).getD 0 + 1 / ((k + p.2 : ℕ) : F))) scores

/-- The fusion with its parameter `k`, which `retrieve` leaves at 60. -/
def rankFusion (k : ℕ) (semanticIds bm25Ids : List I) : List I :=
  let scores : OrderedDict I F := addRanks k (addRanks k .empty semanticIds) bm25Ids
  scores.keys.mergeSort fun x y => Score.le ((scores.get? y).getD 0) ((scores.get? x).getD 0)

def reciprocalRankFusion (semanticIds bm25Ids : List I) : List I :=
  rankFusion (F := F) 60 semanticIds bm25Ids

def crossEncodeRerank (query : Text) (candidates : List (Entry I F)) (topN : ℕ) :
    List (Entry I F) :=
  if candidates = [] then []
  else
    let scores := models.predict (candidates.map fun c => (query, c.document))
    let scored := candidates.zipIdx.map fun p => { p.1 with crossScore := some (scores p.2) }
    let ranked := scored.mergeSort fun x y =>
      Score.le (y.crossScore.getD 0) (x.crossScore.getD 0)
    ranked.take topN

structure Found (I F : Type*) where
  results : List (Entry I F)
  seenIds : List I

def Found.add (st : Found I F) (e : Entry I F) : Found I F :=
  ⟨st.results ++ [e], st.seenIds ++ [e.id]⟩

/-- `collection.get(where={"module_name": {"$eq": module_name}})` -/
def getModule (c : Collection I) (moduleName : String) : List (I × Document) :=
  c.entries.filter fun e => e.2.metadata "module_name" = some moduleName.toList

def fetchModule (c : Collection I) (st : Found I F) (moduleName : String) : Found I F :=
  (getModule c moduleName).foldl
    (fun st e => if e.1 ∈ st.seenIds then st else st.add ⟨e.1, e.2.document, e.2.metadata, none⟩) st

def deterministicFetch (c : Collection I) (targetModules : List String) : Found I F :=
  targetModules.foldl (fetchModule c) ⟨[], []⟩

/-- The loop over the merged ids, with the number of slots left. -/
def hybridFill (idToDoc : OrderedDict I Text) (idToMeta : OrderedDict I Metadata) :
    List I → ℕ → Found I F → Found I F
  | [], _, st => st
  | docId :: mergedIds, remaining, st =>
    if remaining = 0 then st
    else match idToDoc.get? docId with
      | some doc =>
        if docId ∈ st.seenIds then hybridFill idToDoc idToMeta mergedIds remaining st
        else hybridFill idToDoc idToMeta mergedIds (remaining - 1)
          (st.add ⟨docId, doc, (idToMeta.get? docId).getD fun _ => none, none⟩)
      | none => hybridFill idToDoc idToMeta mergedIds remaining st

def mergedIds (c : Collection I) (query : Text) (k : ℕ) : List I :=
  let allIds := c.entries.map Prod.fst
  let allDocs := c.entries.map fun e => e.2.document
  let nResults := min (k * 3) c.entries.length
  let semanticIds := models.query c (models.embedQueryCodebert query) nResults
  let bm25Ids := (bm25Search models allDocs allIds query nResults).map Prod.fst
  reciprocalRankFusion (F := F) semanticIds bm25Ids

/-- The candidates before the re-ranking. -/
def collect (c : Collection I) (targetModules : List String) (query : Text) (k : ℕ) :
    List (Entry I F) :=
  let found : Found I F := deterministicFetch c targetModules
  let remaining := k - found.results.length
  if remaining = 0 then found.results
  else
    let idToDoc := OrderedDict.ofSettings (c.entries.map fun e => (e.1, e.2.document))
    let idToMeta := OrderedDict.ofSettings (c.entries.map fun e => (e.1, e.2.metadata))
    (hybridFill idToDoc idToMeta (mergedIds models c query k) remaining found).results

def retrieve (c : Collection I) (component : String) (query : Text) (k : ℕ) :
    List (Entry I F) :=
  if c.entries.length = 0 then []
  else
    let targetModules := COMPONENT_TO_MODULES component
    let found : Found I F := deterministicFetch c targetModules
    let candidates := collect models c targetModules query k
    let results := if 0 < k - found.results.length then crossEncodeRerank models query candidates k
      else candidates
    results.take k

end

section Phases

variable {I F : Type*} [DecidableEq I]

/-- The ids of the documents that carry a module name listed for the component. -/
def referenceIds (c : Collection I) (component : String) : List I :=
  (c.entries.filter fun e => ∃ m ∈ COMPONENT_TO_MODULES component,
    e.2.metadata "module_name" = some m.toList).map Prod.fst

def Entry.unscored (e : Entry I F) : Entry I F := { e with crossScore := none }

/-- An entry of the collection, whatever its score. -/
def Entry.Own (c : Collection I) (e : Entry I F) : Prop :=
  c.get? e.id = some ⟨e.document, e.metadata⟩

structure FoundIn (c : Collection I) (st : Found I F) : Prop where
  ids : st.results.map Entry.id = st.seenIds
  nodup : st.seenIds.Nodup
  own : ∀ e ∈ st.results, e.Own c

variable {c : Collection I} {st : Found I F}

lemma foundIn_add (h : FoundIn c st) {e : Entry I F} (he : e.id ∉ st.seenIds) (hown : e.Own c) :
    FoundIn c (st.add e) := by
  refine ⟨?_, ?_, fun e' he' => ?_⟩
  · simp [Found.add, h.ids]
  · simpa [Found.add] using h.nodup.concat he
  · rcases List.mem_append.mp he' with he' | he'
    · exact h.own e' he'
    · rw [List.mem_singleton.mp he']
      exact hown

lemma foundIn_fold (rows : List (I × Document)) (hrows : ∀ e ∈ rows, c.get? e.1 = some e.2)
    (h : FoundIn c st) :
    let st' := rows.foldl (fun st e => if e.1 ∈ st.seenIds then st
      else st.add ⟨e.1, e.2.document, e.2.metadata, none⟩) st
    FoundIn c st' ∧ ∀ i, i ∈ st'.seenIds ↔ i ∈ st.seenIds ∨ i ∈ rows.map Prod.fst := by
  induction rows generalizing st with
  | nil => exact ⟨h, by simp⟩
  | cons e rows ih =>
    obtain ⟨he, hrows⟩ := List.forall_mem_cons.mp hrows
    by_cases hseen : e.1 ∈ st.seenIds
    · obtain ⟨hst, hmem⟩ := ih hrows h
      simp only [List.foldl_cons, if_pos hseen]
      refine ⟨hst, fun i => (hmem i).trans ?_⟩
      rw [List.map_cons, List.mem_cons]
      constructor
      · exact Or.imp_right Or.inr
      · rintro (hi | rfl | hi)
        · exact Or.inl hi
        · exact Or.inl hseen
        · exact Or.inr hi
    · obtain ⟨hst, hmem⟩ := ih hrows (foundIn_add h hseen
        (e := ⟨e.1, e.2.document, e.2.metadata, none⟩) he)
      simp only [List.foldl_cons, if_neg hseen]
      refine ⟨hst, fun i => (hmem i).trans ?_⟩
      simp [Found.add, or_assoc]

lemma mem_getModule {m : String} {e : I × Document} :
    e ∈ getModule c m ↔
      c.get? e.1 = some e.2 ∧ e.2.metadata "module_name" = some m.toList := by
  rw [getModule, List.mem_filter, decide_eq_true_eq, ← OrderedDict.mem_entries_iff c e.1 e.2]

lemma foundIn_fetch (targets : List String) (h : FoundIn c st) :
    FoundIn c (targets.foldl (fetchModule c) st) ∧
      ∀ i, i ∈ (targets.foldl (fetchModule c) st).seenIds ↔
        i ∈ st.seenIds ∨ ∃ m ∈ targets, i ∈ (getModule c m).map Prod.fst := by
  induction targets generalizing st with
  | nil => exact ⟨h, by simp⟩
  | cons m targets ih =>
    obtain ⟨hm, hmem⟩ : FoundIn c (fetchModule c st m) ∧
        ∀ i, i ∈ (fetchModule c st m).seenIds ↔
          i ∈ st.seenIds ∨ i ∈ (getModule c m).map Prod.fst :=
      foundIn_fold (getModule c m) (fun e he => (mem_getModule.mp he).1) h
    obtain ⟨hall, hmems⟩ := ih hm
    refine ⟨hall, fun i => (hmems i).trans ?_⟩
    rw [hmem, or_assoc]
    simp

/-- The first phase finds the reference documents of the component, each once. -/
lemma deterministicFetch_spec (c : Collection I) (component : String) :
    let found : Found I F := deterministicFetch c (COMPONENT_TO_MODULES component)
    FoundIn c found ∧ found.seenIds.Perm (referenceIds c component) := by
  intro found
  have hempty : FoundIn c (⟨[], []⟩ : Found I F) := ⟨rfl, List.nodup_nil, by simp⟩
  obtain ⟨hfound, hmem⟩ : FoundIn c found ∧ ∀ i, i ∈ found.seenIds ↔
      i ∈ [] ∨ ∃ m ∈ COMPONENT_TO_MODULES component, i ∈ (getModule c m).map Prod.fst :=
    foundIn_fetch (COMPONENT_TO_MODULES component) hempty
  refine ⟨hfound, (List.perm_ext_iff_of_nodup hfound.nodup ?_).mpr fun i => ?_⟩
  · exact c.nodup.sublist (List.filter_sublist.map _)
  · rw [hmem, or_iff_right (by simp)]
    simp only [referenceIds, List.mem_map, List.mem_filter, decide_eq_true_eq, mem_getModule]
    constructor
    · rintro ⟨m, hm, e, ⟨he, hname⟩, rfl⟩
      exact ⟨e, ⟨(OrderedDict.mem_entries_iff c e.1 e.2).mpr he, m, hm, hname⟩, rfl⟩
    · rintro ⟨e, ⟨he, m, hm, hname⟩, rfl⟩
      exact ⟨m, hm, e, ⟨(OrderedDict.mem_entries_iff c e.1 e.2).mp he, hname⟩, rfl⟩

lemma deterministicFetch_length (c : Collection I) (component : String) :
    (deterministicFetch (F := F) c (COMPONENT_TO_MODULES component)).results.length =
      (referenceIds c component).length := by
  obtain ⟨hfound, hperm⟩ := deterministicFetch_spec (F := F) c component
  rw [← hperm.length_eq, ← hfound.ids, List.length_map]

variable {idToDoc : OrderedDict I Text} {idToMeta : OrderedDict I Metadata}

/-- The second phase takes the first unseen documents of the merged ranking. -/
lemma hybridFill_spec (hdoc : ∀ i, idToDoc.get? i = (c.get? i).map Document.document)
    (hmeta : ∀ i, idToMeta.get? i = (c.get? i).map Document.metadata) {ids : List I}
    (hids : ids.Nodup) (remaining : ℕ) (h : FoundIn c st) :
    FoundIn c (hybridFill idToDoc idToMeta ids remaining st) ∧
      (hybridFill idToDoc idToMeta ids remaining st).seenIds = st.seenIds ++
        (ids.filter fun i => (c.get? i).isSome ∧ i ∉ st.seenIds).take remaining := by
  induction ids generalizing remaining st with
  | nil => exact ⟨h, by simp [hybridFill]⟩
  | cons i ids ih =>
    obtain ⟨hi, hids⟩ := List.nodup_cons.mp hids
    rw [hybridFill]
    by_cases hr : remaining = 0
    · simp [hr, h]
    · rw [if_neg hr, hdoc]
      cases hc : c.get? i with
      | none =>
        obtain ⟨hst, hseen⟩ := ih hids remaining h
        exact ⟨hst, by simp [hseen, hc]⟩
      | some doc =>
        by_cases hs : i ∈ st.seenIds
        · obtain ⟨hst, hseen⟩ := ih hids remaining h
          simp only [Option.map_some, if_pos hs]
          exact ⟨hst, by simp [hseen, hs]⟩
        · have hnew : FoundIn c (st.add ⟨i, doc.document, (idToMeta.get? i).getD fun _ => none, none⟩) := by
            apply foundIn_add h hs
            simp [Entry.Own, hmeta, hc]
          obtain ⟨hst, hseen⟩ := ih hids (remaining - 1) hnew
          simp only [Option.map_some, if_neg hs]
          refine ⟨hst, ?_⟩
          obtain ⟨r, rfl⟩ := Nat.exists_eq_succ_of_ne_zero hr
          have hsame : ids.filter (fun j => (c.get? j).isSome ∧ j ∉ st.seenIds ++ [i]) =
              ids.filter fun j => (c.get? j).isSome ∧ j ∉ st.seenIds := by
            refine List.filter_congr fun j hj => ?_
            have hne : j ≠ i := fun heq => hi (heq ▸ hj)
            simp [hne]
          rw [hseen, List.filter_cons_of_pos (by simp [hc, hs])]
          change st.seenIds ++ [i] ++ (ids.filter fun j => (c.get? j).isSome ∧
            j ∉ st.seenIds ++ [i]).take r = _
          rw [hsame, List.take_succ_cons, List.append_assoc]
          rfl

/-- Ids of the collection, each once, are no more than its documents. -/
lemma FoundIn.length_le {st : Found I F} (h : FoundIn c st) :
    st.results.length ≤ c.entries.length := by
  have hsub : st.seenIds ⊆ c.keys := by
    intro i hi
    rw [← h.ids] at hi
    obtain ⟨e, he, rfl⟩ := List.mem_map.mp hi
    exact List.mem_map.mpr ⟨_, (OrderedDict.mem_entries_iff c _ _).mpr (h.own e he), rfl⟩
  have hlen := (List.subperm_of_subset h.nodup hsub).length_le
  rw [← h.ids, List.length_map] at hlen
  simpa [OrderedDict.keys] using hlen

lemma get?_ofSettings_map {B : Type*} (f : Document → B) (i : I) :
    (OrderedDict.ofSettings (c.entries.map fun e => (e.1, f e.2))).get? i = (c.get? i).map f := by
  rw [OrderedDict.get?_ofSettings, OrderedDict.lastFor_map, OrderedDict.lastFor_entries]

end Phases

section Rankings

variable {I V F : Type*} [DecidableEq I] [Score F] {models : Models I V F}

lemma mem_keys_addRanks (k : ℕ) (scores : OrderedDict I F) (ids : List I) (i : I) :
    i ∈ (addRanks k scores ids).keys ↔ i ∈ scores.keys ∨ i ∈ ids := by
  have hranks : ∀ (ranks : List (I × ℕ)) (scores : OrderedDict I F),
      i ∈ (ranks.foldl (fun scores p =>
        scores.set p.1 ((scores.get? p.1).getD 0 + 1 / ((k + p.2 : ℕ) : F))) scores).keys ↔
      i ∈ scores.keys ∨ i ∈ ranks.map Prod.fst := by
    intro ranks
    induction ranks with
    | nil => simp
    | cons p ranks ih =>
      intro scores
      rw [List.foldl_cons, ih, OrderedDict.mem_keys_set, or_assoc, List.map_cons, List.mem_cons]
  rw [addRanks, hranks, List.zipIdx_map_fst]

/-- The fusion lists each id of the rankings once. -/
lemma rankFusion_spec (k : ℕ) (semanticIds bm25Ids : List I) :
    (rankFusion (F := F) k semanticIds bm25Ids).Nodup ∧
      ∀ i, i ∈ rankFusion (F := F) k semanticIds bm25Ids ↔ i ∈ semanticIds ∨ i ∈ bm25Ids := by
  refine ⟨(List.mergeSort_perm _ _).nodup_iff.mpr (OrderedDict.nodup _), fun i => ?_⟩
  rw [rankFusion, List.mem_mergeSort, mem_keys_addRanks, mem_keys_addRanks]
  simp [OrderedDict.keys, OrderedDict.empty]

variable (models) in
/-- The keyword ranking of a corpus lists as many of its ids as it is asked for. -/
lemma bm25Search_ids (docs : List Text) {ids : List I} (hids : ids.Nodup) (query : Text) (k : ℕ) :
    ((bm25Search models docs ids query k).map Prod.fst).Nodup ∧
      ((bm25Search models docs ids query k).map Prod.fst).length = min k ids.length ∧
      ∀ i ∈ (bm25Search models docs ids query k).map Prod.fst, i ∈ ids := by
  let scores := models.bm25Scores (docs.map fun doc => words isSpace (models.lower doc))
    (words isSpace (models.lower query))
  let scored := ids.zipIdx.map fun p => (p.1, scores p.2)
  have hscored : scored.map Prod.fst = ids := by simp [scored, Function.comp_def]
  have hperm : ((scored.mergeSort fun x y => Score.le y.2 x.2).map Prod.fst).Perm ids := by
    rw [← hscored]
    exact (List.mergeSort_perm _ _).map _
  have hsub : ((bm25Search models docs ids query k).map Prod.fst).Sublist
      ((scored.mergeSort fun x y => Score.le y.2 x.2).map Prod.fst) := (List.take_sublist _ _).map _
  refine ⟨(hperm.nodup_iff.mpr hids).sublist hsub, ?_, fun i hi => ?_⟩
  · rw [List.length_map, bm25Search, List.length_take, List.length_mergeSort]
    simp
  · exact hperm.mem_iff.mp (hsub.subset hi)

variable (models) in
/-- A re-ranking with room for all candidates permutes them. -/
lemma crossEncodeRerank_perm (query : Text) {candidates : List (Entry I F)} {topN : ℕ}
    (h : candidates.length ≤ topN) :
    ((crossEncodeRerank models query candidates topN).map Entry.unscored).Perm
      (candidates.map Entry.unscored) := by
  rw [crossEncodeRerank]
  split_ifs with hnil
  · rw [hnil]
  · rw [List.take_of_length_le (by simpa [List.length_mergeSort] using h)]
    refine ((List.mergeSort_perm _ _).map _).trans (List.Perm.of_eq ?_)
    rw [List.map_map]
    conv_rhs => rw [← List.zipIdx_map_fst 0 candidates, List.map_map]
    exact List.map_congr_left fun p _ => rfl

variable {c : Collection I}

variable (models) in
/-- The merged ranking has enough documents to fill the slots that the references leave. -/
lemma mergedIds_spec (c : Collection I) (query : Text) (k : ℕ) :
    (mergedIds models c query k).Nodup ∧ ∀ seen : List I, seen.length < k →
      min k c.entries.length ≤ seen.length +
        ((mergedIds models c query k).filter fun i => (c.get? i).isSome ∧ i ∉ seen).length := by
  obtain ⟨hnodup, hfused⟩ := rankFusion_spec (F := F) 60
    (models.query c (models.embedQueryCodebert query) (min (k * 3) c.entries.length))
    ((bm25Search models (c.entries.map fun e => e.2.document) (c.entries.map Prod.fst) query
      (min (k * 3) c.entries.length)).map Prod.fst)
  refine ⟨hnodup, fun seen hlt => ?_⟩
  have hmem : ∀ i ∈ (bm25Search models (c.entries.map fun e => e.2.document)
      (c.entries.map Prod.fst) query (min (k * 3) c.entries.length)).map Prod.fst,
      i ∈ mergedIds models c query k := fun i hi => (hfused i).mpr (Or.inr hi)
  obtain ⟨hbm, hlen, hsub⟩ := bm25Search_ids models
    (c.entries.map fun e => e.2.document) c.nodup query (min (k * 3) c.entries.length)
  generalize (bm25Search models (c.entries.map fun e => e.2.document) (c.entries.map Prod.fst)
    query (min (k * 3) c.entries.length)).map Prod.fst = bm25Ids at hmem hbm hlen hsub
  have hin : (bm25Ids.filter (· ∈ seen)).length ≤ seen.length :=
    (List.subperm_of_subset (hbm.filter _) fun i hi => by
      simpa using (List.mem_filter.mp hi).2).length_le
  have hout : (bm25Ids.filter (· ∉ seen)).length ≤
      ((mergedIds models c query k).filter fun i => (c.get? i).isSome ∧ i ∉ seen).length := by
    refine (List.subperm_of_subset (hbm.filter _) fun i hi => ?_).length_le
    obtain ⟨hi, hnot⟩ := List.mem_filter.mp hi
    have hcoll : (c.get? i).isSome := by
      obtain ⟨e, he, rfl⟩ := List.mem_map.mp (hsub i hi)
      rw [(OrderedDict.mem_entries_iff c e.1 e.2).mp he]
      rfl
    exact List.mem_filter.mpr ⟨hmem i hi, by simpa [hcoll] using hnot⟩
  have hsplit : bm25Ids.length =
      (bm25Ids.filter (· ∈ seen)).length + (bm25Ids.filter (· ∉ seen)).length := by
    rw [List.length_eq_length_filter_add (· ∈ seen)]
    simp
  rw [List.length_map] at hlen
  omega

variable (models) in
/-- The candidates are the references alone, if they fill the slots, or the references and
further documents up to the number asked for. -/
lemma collect_spec (c : Collection I) (component : String) (query : Text) (k : ℕ) :
    ∃ st : Found I F, (collect models c (COMPONENT_TO_MODULES component) query k) = st.results ∧
      FoundIn c st ∧ (∀ i ∈ referenceIds c component, i ∈ st.seenIds) ∧
      ((k ≤ (referenceIds c component).length ∧ st.seenIds.Perm (referenceIds c component)) ∨
        ((referenceIds c component).length < k ∧
          st.results.length = min k c.entries.length)) := by
  obtain ⟨hfound, hperm⟩ := deterministicFetch_spec (F := F) c component
  have hlen := deterministicFetch_length (F := F) c component
  generalize hst : deterministicFetch (F := F) c (COMPONENT_TO_MODULES component) = st at *
  by_cases hk : k ≤ (referenceIds c component).length
  · refine ⟨st, ?_, hfound, fun i hi => hperm.mem_iff.mpr hi, Or.inl ⟨hk, hperm⟩⟩
    simp only [collect, hst]
    rw [if_pos (by omega)]
  · obtain ⟨hnodup, hmany⟩ := mergedIds_spec models c query k
    obtain ⟨hfill, hseen⟩ := hybridFill_spec (get?_ofSettings_map Document.document)
      (get?_ofSettings_map Document.metadata) hnodup (k - st.results.length) hfound
    refine ⟨_, ?_, hfill, fun i hi => ?_, Or.inr ⟨by omega, ?_⟩⟩
    · simp only [collect, hst]
      rw [if_neg (by omega)]
    · rw [hseen]
      exact List.mem_append_left _ (hperm.mem_iff.mpr hi)
    · have hle := hfill.length_le
      have hfew := congrArg List.length hseen
      have hst' := congrArg List.length hfound.ids
      rw [← hfill.ids, List.length_map, List.length_append, List.length_take] at hfew
      rw [List.length_map] at hst'
      have hslots := hmany st.seenIds (by omega)
      omega

/-- Up to the scores the result is the candidates before the re-ranking, cut to the number
asked for. -/
lemma retrieve_perm (c : Collection I) (component : String) (query : Text) (k : ℕ) :
    ((retrieve models c component query k).map Entry.unscored).Perm
      (((collect models c (COMPONENT_TO_MODULES component) query k).take k).map
        Entry.unscored) := by
  obtain ⟨st, hst, hin, -, hcase⟩ := collect_spec models c component query k
  have hle := hin.length_le
  simp only [retrieve, hst, deterministicFetch_length]
  split_ifs with h0 hk
  · have hnil : st.results = [] := List.length_eq_zero_iff.mp (by omega)
    rw [hnil, List.take_nil]
  · have hlen : st.results.length ≤ k := by omega
    have hperm := crossEncodeRerank_perm models query hlen
    have hlen' := hperm.length_eq
    rw [List.length_map, List.length_map] at hlen'
    rw [List.take_of_length_le hlen, List.take_of_length_le (by omega)]
    exact hperm
  · exact List.Perm.refl _

/-- The retrieval returns as many documents as asked for, or all; the references come first,
and the re-ranking permutes what has been chosen. -/
theorem retrieve_spec (models : Models I V F) (c : Collection I) (component : String)
    (query : Text) (k : ℕ) :
    let results := retrieve models c component query k
    results.length = min k c.entries.length ∧ (results.map Entry.id).Nodup ∧
    (∀ e ∈ results, c.get? e.id = some ⟨e.document, e.metadata⟩) ∧
    ((referenceIds c component).length ≤ k →
      ∀ i ∈ referenceIds c component, i ∈ results.map Entry.id) ∧
    (k < (referenceIds c component).length → ∀ e ∈ results, e.id ∈ referenceIds c component) ∧
    (results.map Entry.unscored).Perm
      (((collect models c (COMPONENT_TO_MODULES component) query k).take k).map
        Entry.unscored) := by
  intro results
  have hperm : (results.map Entry.unscored).Perm
      (((collect models c (COMPONENT_TO_MODULES component) query k).take k).map Entry.unscored) :=
    retrieve_perm c component query k
  obtain ⟨st, hst, hin, hrefs, hcase⟩ := collect_spec models c component query k
  have hle := hin.length_le
  have hseen : st.seenIds.length = st.results.length := by rw [← hin.ids, List.length_map]
  have hids : (results.map Entry.id).Perm (st.seenIds.take k) := by
    have hmap := (hst ▸ hperm).map Entry.id
    rw [List.map_map, List.map_map] at hmap
    rw [← hin.ids, ← List.map_take]
    exact hmap
  have hcount : k ≤ (referenceIds c component).length → st.results.length =
      (referenceIds c component).length := by
    intro hk
    rcases hcase with ⟨-, hp⟩ | ⟨hlt, -⟩
    · rw [← hseen, hp.length_eq]
    · omega
  refine ⟨?_, ?_, fun e he => ?_, fun hk i hi => ?_, fun hk e he => ?_, hperm⟩
  · have hlen := hids.length_eq
    rw [List.length_map, List.length_take] at hlen
    rcases hcase with ⟨hk, -⟩ | ⟨-, hmin⟩
    · have := hcount hk
      omega
    · omega
  · exact hids.nodup_iff.mpr (hin.nodup.sublist (List.take_sublist _ _))
  · obtain ⟨e', he', heq⟩ := List.mem_map.mp
      (hperm.mem_iff.mp (List.mem_map_of_mem (f := Entry.unscored) he))
    have hown : e'.unscored.Own c := hin.own e' (List.mem_of_mem_take (hst ▸ he'))
    rw [heq] at hown
    exact hown
  · rw [hids.mem_iff, List.take_of_length_le]
    · exact hrefs i hi
    · rcases hcase with ⟨hk', -⟩ | ⟨-, hmin⟩
      · have := hcount hk'
        omega
      · omega
  · rcases hcase with ⟨-, hp⟩ | ⟨hlt, -⟩
    · exact hp.mem_iff.mp (List.mem_of_mem_take (hids.mem_iff.mp (List.mem_map_of_mem he)))
    · omega

end Rankings

end Rv32iRtl
