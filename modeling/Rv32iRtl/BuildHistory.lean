import Rv32iRtl.CorpusRecovery
import Rv32iRtl.JsonText

/-! Histories of corpus builds, failed ones among them: which call has made the collection,
and what the cache of summaries is when it is kept as a JSON file between the calls. -/
namespace Rv32iRtl

open JsonText

/-- Where an exception of the packages or of the file system ends a call: before the collection is
looked at, before it is emptied, before the chunks of the manual are stored, before the summaries
are saved, before a batch of documents is stored; the embedding belongs to the first batch. -/
inductive Stage
  | opening
  | loading
  | ingesting
  | reading
  | storing (batches : ℕ)
  deriving DecidableEq, Repr

/-- A call of `build_corpus`, with what it finds outside at that moment. -/
structure BuildCall where
  forceRebuild : Bool
  sources : Sources
  raised : Option (Stage × Text)

namespace BuildCall

/-- The collection is there already. -/
def Skipped (c : BuildCall) (st : Store) : Prop :=
  c.forceRebuild = false ∧ 0 < st.collection.entries.length

instance (c : BuildCall) (st : Store) : Decidable (c.Skipped st) :=
  inferInstanceAs (Decidable (_ ∧ _))

/-- The exception comes before the collection is touched. -/
def StopsEarly (c : BuildCall) : Prop :=
  ∃ e, c.raised = some (.opening, e) ∨ c.raised = some (.loading, e)

/-- The exception comes when the collection has been emptied. -/
def FailsToIngest (c : BuildCall) : Prop := ∃ e, c.raised = some (.ingesting, e)

variable (unicode : Char → Bool) (chunkText : String → Text)

/-- The loop over the whitelisted files. -/
def build (c : BuildCall) (chunkSummaries : OrderedDict Text Text) : Build :=
  (pieces unicode c.sources).foldl (addPiece c.sources) ⟨chunkSummaries, false, []⟩

/-- `BATCH` is 100, and a batch that is not there raises nothing. -/
def interrupted (c : BuildCall) (stage : Stage) (e : Text) (st : Store) :
    Except Text (Collection Text) × Store :=
  let collection := if c.forceRebuild = true ∧ 0 < st.collection.entries.length then .empty
    else st.collection
  let chunks := ingestRiscvSpec chunkText collection
  let b := c.build unicode st.chunkSummaries
  match stage with
  | .opening | .loading => (.error e, st)
  | .ingesting => (.error e, ⟨collection, st.chunkSummaries⟩)
  | .reading => (.error e, ⟨chunks, st.chunkSummaries⟩)
  | .storing n =>
    if b.documents.length ≤ 100 * n then
      buildCorpus unicode c.sources chunkText c.forceRebuild st
    else (.error e, ⟨addDocuments chunks (b.documents.take (100 * n)),
      if b.cacheDirty then b.summaryCache else st.chunkSummaries⟩)

def run (c : BuildCall) (st : Store) : Except Text (Collection Text) × Store :=
  match c.raised with
  | none => buildCorpus unicode c.sources chunkText c.forceRebuild st
  | some (.opening, e) => (.error e, st)
  | some (stage, e) =>
    if c.Skipped st then (.ok st.collection, st) else c.interrupted unicode chunkText stage e st

def after (c : BuildCall) (st : Store) : Store := (c.run unicode chunkText st).2

/-- The documents that a call makes of the sources, given the cache of summaries. -/
def documents (c : BuildCall) (chunkSummaries : OrderedDict Text Text) : List (Text × Document) :=
  (roles c.sources (pieces unicode c.sources) chunkSummaries).map documentOf

/-- What stands in the collection when a call has worked on it. -/
def leaves (c : BuildCall) (chunkSummaries : OrderedDict Text Text) : List (Text × Document) :=
  match c.raised with
  | some (.ingesting, _) => []
  | some (.reading, _) => specDocuments chunkText
  | some (.storing n, _) =>
    specDocuments chunkText ++ (c.documents unicode chunkSummaries).take (100 * n)
  | _ => specDocuments chunkText ++ c.documents unicode chunkSummaries

end BuildCall

section

variable (unicode : Char → Bool) (chunkText : String → Text)

def storeAfter (calls : List BuildCall) (st : Store) : Store :=
  calls.foldl (fun st c => c.after unicode chunkText st) st

/-- The call is the last one that gets to the collection and finds work there: it is forced, or the
collection is empty. -/
structure Governs (calls before : List BuildCall) (c : BuildCall) (later : List BuildCall)
    (st : Store) : Prop where
  split : calls = before ++ c :: later
  started : ¬c.StopsEarly
  needed : c.forceRebuild = true ∨ (storeAfter unicode chunkText before st).collection.entries = []
  last : ∀ d ∈ later, d.StopsEarly ∨ d.forceRebuild = false ∧ ¬c.FailsToIngest

end

section History

variable {unicode : Char → Bool} {chunkText : String → Text}

/-- The documents with new ids are stored behind the old ones, in their order. -/
lemma entries_addDocuments (c : Collection Text) {docs : List (Text × Document)}
    (h : (docs.map Prod.fst).Nodup) :
    (addDocuments c docs).entries = c.entries ++ docs.filter fun d => d.1 ∉ c.keys := by
  induction docs generalizing c with
  | nil => exact (List.append_nil _).symm
  | cons d docs ih =>
    obtain ⟨hd, hdocs⟩ := List.nodup_cons.mp h
    have hcons : addDocuments c (d :: docs) =
        addDocuments (if d.1 ∈ c.keys then c else c.set d.1 d.2) docs := rfl
    by_cases hmem : d.1 ∈ c.keys
    · rw [hcons, if_pos hmem, ih c hdocs, List.filter_cons_of_neg (by simpa using hmem)]
    · have hentries : (c.set d.1 d.2).entries = c.entries ++ [d] := OrderedDict.setEntry_new hmem
      have hsame : docs.filter (fun e => e.1 ∉ (c.set d.1 d.2).keys) =
          docs.filter fun e => e.1 ∉ c.keys := by
        apply List.filter_congr
        intro e he
        have hne : e.1 ≠ d.1 := fun heq => hd (heq ▸ List.mem_map_of_mem he)
        simp [OrderedDict.mem_keys_set, hne]
      rw [hcons, if_neg hmem, ih _ hdocs, hentries, hsame,
        List.filter_cons_of_pos (by simpa using hmem), List.append_assoc]
      rfl

lemma entries_addDocuments_new {c : Collection Text} {docs : List (Text × Document)}
    (h : (c.keys ++ docs.map Prod.fst).Nodup) :
    (addDocuments c docs).entries = c.entries ++ docs := by
  obtain ⟨-, hdocs, hdisj⟩ := List.nodup_append.mp h
  rw [entries_addDocuments c hdocs, List.filter_eq_self.mpr]
  intro d hd
  have hno : d.1 ∉ c.keys := fun hmem => hdisj d.1 hmem d.1 (List.mem_map_of_mem hd) rfl
  simpa using hno

lemma documents_ids (c : BuildCall) (chunkSummaries : OrderedDict Text Text) :
    (c.documents unicode chunkSummaries).map Prod.fst =
      (pieces unicode c.sources).map Piece.docId := by
  have hpieces := roles_pieces c.sources (pieces unicode c.sources) chunkSummaries
  rw [BuildCall.documents, List.map_map, ← hpieces, List.map_map, hpieces]
  rfl

lemma entries_specCollection : (specCollection chunkText).entries = specDocuments chunkText := by
  have hnodup : ((OrderedDict.empty : Collection Text).keys ++
      (specDocuments chunkText).map Prod.fst).Nodup := specDocuments_nodup
  exact entries_addDocuments_new hnodup

/-- The chunks and the first documents, as a call stores them. -/
lemma entries_stored (c : BuildCall) (chunkSummaries : OrderedDict Text Text) (k : ℕ) :
    (addDocuments (specCollection chunkText)
        ((c.documents unicode chunkSummaries).take k)).entries =
      specDocuments chunkText ++ (c.documents unicode chunkSummaries).take k := by
  have hkeys : (specCollection chunkText).keys = (specDocuments chunkText).map Prod.fst :=
    congrArg (List.map Prod.fst) entries_specCollection
  have hsub : (((c.documents unicode chunkSummaries).take k).map Prod.fst).Sublist
      ((pieces unicode c.sources).map Piece.docId) := by
    rw [← documents_ids c chunkSummaries]
    exact (List.take_sublist k _).map Prod.fst
  have hnodup : ((specCollection chunkText).keys ++
      ((c.documents unicode chunkSummaries).take k).map Prod.fst).Nodup := by
    rw [hkeys, List.nodup_append]
    refine ⟨specDocuments_nodup, (pieces_nodup c.sources).sublist hsub, fun i hi j hj hij => ?_⟩
    obtain ⟨d, hd, rfl⟩ := List.mem_map.mp hi
    obtain ⟨p, hp, rfl⟩ := List.mem_map.mp (hsub.subset hj)
    exact pieces_ne_spec c.sources hp hd hij
  have hentries := entries_addDocuments_new hnodup
  rwa [entries_specCollection] at hentries

namespace BuildCall

lemma build_eq (c : BuildCall) (chunkSummaries : OrderedDict Text Text) :
    (c.build unicode chunkSummaries).documents = c.documents unicode chunkSummaries := by
  rw [build, foldl_addPiece]
  exact List.nil_append _

variable {c : BuildCall} {st : Store}

lemma after_early (h : c.StopsEarly) : c.after unicode chunkText st = st := by
  obtain ⟨e, hopening | hloading⟩ := h
  · rw [after, run, hopening]
  · rw [after, run, hloading]
    by_cases hskip : c.Skipped st
    · simp only [if_pos hskip]
    · simp only [if_neg hskip, interrupted]

lemma after_skipped (h : c.Skipped st) : c.after unicode chunkText st = st := by
  have hrun : c.forceRebuild = false ∧ 0 < st.collection.entries.length := h
  rw [after, run]
  split
  · rw [buildCorpus, if_pos hrun]
  · rfl
  · rw [if_pos h]

/-- A call that is done without foreign exceptions. -/
lemma entries_buildCorpus (h : ¬c.Skipped st) :
    (buildCorpus unicode c.sources chunkText c.forceRebuild st).2.collection.entries =
      specDocuments chunkText ++ c.documents unicode st.chunkSummaries := by
  have hstored := @entries_stored unicode chunkText c st.chunkSummaries
    (c.documents unicode st.chunkSummaries).length
  rw [List.take_length] at hstored
  rw [buildCorpus_eq h]
  exact hstored

/-- What a call that gets to the collection and is not skipped stores. -/
lemma entries_after (hearly : ¬c.StopsEarly) (h : ¬c.Skipped st) :
    (c.after unicode chunkText st).collection.entries =
      c.leaves unicode chunkText st.chunkSummaries := by
  have hempty := emptied_eq h
  rw [after, run, leaves]
  cases hraised : c.raised with
  | none => exact entries_buildCorpus h
  | some p =>
    obtain ⟨stage, e⟩ := p
    cases stage with
    | opening => exact absurd ⟨e, Or.inl hraised⟩ hearly
    | loading => exact absurd ⟨e, Or.inr hraised⟩ hearly
    | ingesting =>
      simp only [if_neg h, interrupted, hempty]
      rfl
    | reading =>
      simp only [if_neg h, interrupted, hempty]
      exact entries_specCollection
    | storing n =>
      simp only [if_neg h, interrupted, hempty, build_eq]
      by_cases hall : (c.documents unicode st.chunkSummaries).length ≤ 100 * n
      · rw [if_pos hall, List.take_of_length_le hall]
        exact entries_buildCorpus h
      · rw [if_neg hall]
        exact entries_stored c st.chunkSummaries (100 * n)

lemma leaves_eq_nil (h : c.FailsToIngest) (chunkSummaries : OrderedDict Text Text) :
    c.leaves unicode chunkText chunkSummaries = [] := by
  obtain ⟨e, he⟩ := h
  rw [leaves, he]

end BuildCall

lemma storeAfter_concat (calls : List BuildCall) (d : BuildCall) (st : Store) :
    storeAfter unicode chunkText (calls ++ [d]) st =
      d.after unicode chunkText (storeAfter unicode chunkText calls st) := by
  rw [storeAfter, List.foldl_concat]
  rfl

/-- A call that changes nothing leaves the governing call what it is. -/
lemma Governs.concat {calls before later : List BuildCall} {c d : BuildCall} {st : Store}
    (h : Governs unicode chunkText calls before c later st)
    (hd : d.StopsEarly ∨ d.forceRebuild = false ∧ ¬c.FailsToIngest) :
    Governs unicode chunkText (calls ++ [d]) before c (later ++ [d]) st := by
  refine ⟨?_, h.started, h.needed, fun d' hd' => ?_⟩
  · rw [h.split, List.append_assoc, List.cons_append]
  · rcases List.mem_append.mp hd' with hd' | hd'
    · exact h.last d' hd'
    · exact List.mem_singleton.mp hd' ▸ hd

/-- The collection is that of the call that governs the history, as far as that call came. -/
lemma store_of_calls (calls : List BuildCall) {st₀ : Store} (h₀ : st₀.collection.entries = []) :
    let st' := storeAfter unicode chunkText calls st₀
    (∀ c ∈ calls, c.StopsEarly) ∧ st' = st₀ ∨
      ∃ before c later, Governs unicode chunkText calls before c later st₀ ∧
        let st := storeAfter unicode chunkText before st₀
        st' = c.after unicode chunkText st ∧
          st'.collection.entries = c.leaves unicode chunkText st.chunkSummaries := by
  induction calls using List.reverseRecOn with
  | nil => exact Or.inl ⟨by simp, rfl⟩
  | append_singleton calls d ih =>
    intro st'
    have hst' : st' = d.after unicode chunkText (storeAfter unicode chunkText calls st₀) :=
      storeAfter_concat calls d st₀
    by_cases hearly : d.StopsEarly
    · rw [BuildCall.after_early hearly] at hst'
      rw [hst']
      rcases ih with ⟨hall, hst⟩ | ⟨before, c, later, hgov, hst⟩
      · refine Or.inl ⟨fun c hc => ?_, hst⟩
        rcases List.mem_append.mp hc with hc | hc
        · exact hall c hc
        · exact List.mem_singleton.mp hc ▸ hearly
      · exact Or.inr ⟨before, c, later ++ [d], hgov.concat (Or.inl hearly), hst⟩
    by_cases hskip : d.Skipped (storeAfter unicode chunkText calls st₀)
    · rw [BuildCall.after_skipped hskip] at hst'
      rw [hst']
      have hne : (storeAfter unicode chunkText calls st₀).collection.entries ≠ [] :=
        List.ne_nil_of_length_pos hskip.2
      rcases ih with ⟨-, hst⟩ | ⟨before, c, later, hgov, hst⟩
      · rw [hst] at hne
        exact absurd h₀ hne
      · have hingests : ¬c.FailsToIngest := fun hfails =>
          hne (hst.2.trans (BuildCall.leaves_eq_nil hfails _))
        exact Or.inr ⟨before, c, later ++ [d], hgov.concat (Or.inr ⟨hskip.1, hingests⟩), hst⟩
    · refine Or.inr ⟨calls, d, [], ⟨rfl, hearly, ?_, by simp⟩, hst', ?_⟩
      · rw [BuildCall.Skipped, not_and_or, Bool.not_eq_false, not_lt, Nat.le_zero,
          List.length_eq_zero_iff] at hskip
        exact hskip
      · rw [hst']
        exact BuildCall.entries_after hearly hskip

/-- Whatever calls are made from an empty collection on, failed ones among them: either none of them
has got to the collection, or it holds what the last call has left that got there and was forced or
found it empty, and no later call has changed anything. -/
theorem corpus_of_governing_build (calls : List BuildCall) (chunkSummaries : OrderedDict Text Text) :
    let st₀ : Store := ⟨.empty, chunkSummaries⟩
    let st' := storeAfter unicode chunkText calls st₀
    (∀ c ∈ calls, c.StopsEarly) ∧ st' = st₀ ∨
      ∃ before c later, Governs unicode chunkText calls before c later st₀ ∧
        let st := storeAfter unicode chunkText before st₀
        st' = c.after unicode chunkText st ∧
          st'.collection.entries = c.leaves unicode chunkText st.chunkSummaries :=
  store_of_calls calls rfl

end History

def summaryJson (entries : List (Text × Text)) : Value :=
  .obj (entries.map fun e => (e.1, .str e.2))

/-- What the builds find in place of `chunk_summaries.json`. -/
inductive CacheFile
  | missing
  | unreadable
  | cache (text : Text) (entries : List (Text × Text)) (h : loads text = some (summaryJson entries))

/-- A file that is missing or cannot be read counts as an empty cache. -/
def loadSummaryCache : CacheFile → OrderedDict Text Text
  | .missing | .unreadable => .empty
  | .cache _ entries _ => OrderedDict.ofSettings entries

/-- What the builds keep on the disk: the collection, and `chunk_summaries.json`. -/
structure DataDir where
  collection : Collection Text
  chunkSummaries : CacheFile

def DataDir.store (d : DataDir) : Store := ⟨d.collection, loadSummaryCache d.chunkSummaries⟩

section

variable (unicode : Char → Bool) (chunkText : String → Text)

variable {unicode chunkText}

namespace BuildCall

variable {c : BuildCall} {st : Store}

end BuildCall

end

end Rv32iRtl
