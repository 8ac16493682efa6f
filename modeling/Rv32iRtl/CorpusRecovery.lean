import Rv32iRtl.Corpus

/-! What a failed corpus build leaves behind, and what a later build makes of it. -/
namespace Rv32iRtl

/-- Collections as maps from ids to documents. -/
def SameDocuments (c c' : Collection Text) : Prop := ∀ i, c.get? i = c'.get? i

def AllAvailable (src : Sources) : Prop :=
  ∀ repo ∈ WHITELIST, src.cloned repo.1 = true ∧
    ∀ relPath ∈ repo.2, (src.file repo.1 relPath).isSome = true

/-- No whitelisted file is there. -/
def NoneAvailable (src : Sources) : Prop :=
  ∀ repo ∈ WHITELIST, src.cloned repo.1 = true → ∀ relPath ∈ repo.2, src.file repo.1 relPath = none

section

variable (unicode : Char → Bool) (chunkText : String → Text)

/-- The chunks of the manual, and a document for every piece of the sources. -/
def HoldsAll (src : Sources) (c : Collection Text) : Prop :=
  (∀ d ∈ specDocuments chunkText, c.get? d.1 = some d.2) ∧
    ∀ p ∈ pieces unicode src, ∃ summary,
      c.get? p.docId = some ⟨makeEmbedWindow p.text summary, p.metadata⟩

/-- A build that raises leaves the collection as it was; if that was empty, a later build with all
sources fills it. -/
def Recoverable (forceRebuild : Bool) (src : Sources) (st : Store) : Prop :=
  ∀ e, (buildCorpus unicode src chunkText forceRebuild st).1 = .error e →
    let st' := (buildCorpus unicode src chunkText forceRebuild st).2
    SameDocuments st'.collection st.collection ∧
      (st.collection.entries = [] → ∀ src', AllAvailable src' →
        ∃ c, (buildCorpus unicode src' chunkText false st').1 = .ok c ∧
          HoldsAll unicode chunkText src' c)

variable {unicode chunkText}

lemma addDocuments_nil (c : Collection Text) : addDocuments c [] = c := rfl

lemma get?_addDocuments (c : Collection Text) (docs : List (Text × Document)) (i : Text) :
    (addDocuments c docs).get? i = (c.get? i).or ((docs.find? fun d => d.1 = i).map Prod.snd) := by
  induction docs generalizing c with
  | nil => simp [addDocuments]
  | cons d docs ih =>
    have hcons : addDocuments c (d :: docs) =
        addDocuments (if d.1 ∈ c.keys then c else c.set d.1 d.2) docs := rfl
    rw [hcons, ih]
    by_cases hd : d.1 = i
    · subst hd
      by_cases hk : d.1 ∈ c.keys
      · obtain ⟨v, hv⟩ := Option.isSome_iff_exists.mp (OrderedDict.mem_keys_iff.mp hk)
        simp [hk, hv]
      · have hnone : c.get? d.1 = none := by simpa [OrderedDict.mem_keys_iff] using hk
        simp [hk, hnone, OrderedDict.get?_set]
    · rw [List.find?_cons_of_neg (by simpa using hd)]
      split_ifs
      · rfl
      · rw [OrderedDict.get?_set, if_neg hd]

/-- The documents of a list without repeated ids are found by their ids. -/
lemma find?_of_nodup {docs : List (Text × Document)} (h : (docs.map Prod.fst).Nodup)
    {d : Text × Document} (hd : d ∈ docs) :
    (docs.find? fun e => e.1 = d.1).map Prod.snd = some d.2 :=
  (OrderedDict.mem_entries_iff ⟨docs, h⟩ d.1 d.2).mp hd

def idPrefix (repoName relPath : String) : Text :=
  repoName.toList ++ "::".toList ++ fileStem relPath ++ "::".toList

/-- The whitelisted files with their repositories. -/
def whitelisted : List (String × String) :=
  WHITELIST.flatMap fun repo => repo.2.map fun relPath => (repo.1, relPath)

lemma idPrefix_nodup : (whitelisted.map fun f => idPrefix f.1 f.2).Nodup := by
  decide +kernel

lemma isDigit_toDigits {n : ℕ} : ∀ c ∈ Nat.toDigits 10 n, c.isDigit = true :=
  fun _ hc => Nat.isDigit_of_mem_toDigits (by omega) (by omega) hc

lemma docId_rdropWhile (repoName relPath : String) (idx : ℕ) :
    (docId repoName relPath idx).rdropWhile Char.isDigit = idPrefix repoName relPath := by
  have hrev : ∀ c ∈ (Nat.toDigits 10 idx).reverse, c.isDigit = true :=
    fun c hc => isDigit_toDigits c (List.mem_reverse.mp hc)
  have hsplit : idPrefix repoName relPath =
      repoName.toList ++ "::".toList ++ fileStem relPath ++ [':'] ++ [':'] := by
    simp [idPrefix]
  rw [docId, ← idPrefix, List.rdropWhile, List.reverse_append, List.dropWhile_append_of_pos hrev]
  change (idPrefix repoName relPath).rdropWhile Char.isDigit = _
  rw [hsplit, List.rdropWhile_concat_neg _ _ _ (by decide)]

lemma docId_inj {f g : String × String} (hf : f ∈ whitelisted) (hg : g ∈ whitelisted) {i j : ℕ}
    (h : docId f.1 f.2 i = docId g.1 g.2 j) : f = g ∧ i = j := by
  have hp := congrArg (List.rdropWhile Char.isDigit) h
  rw [docId_rdropWhile, docId_rdropWhile] at hp
  obtain rfl := List.inj_on_of_nodup_map idPrefix_nodup hf hg hp
  refine ⟨rfl, ?_⟩
  have hd : Nat.toDigits 10 i = Nat.toDigits 10 j := List.append_cancel_left h
  rw [← Nat.ofDigitChars_ten_toDigits (n := i), hd, Nat.ofDigitChars_ten_toDigits]

/-- An id of a piece ends with a digit, that of a chunk does not. -/
lemma docId_ne_spec (repoName relPath : String) (idx : ℕ) {d : Text × Document}
    (hd : d ∈ specDocuments chunkText) : d.1 ≠ docId repoName relPath idx := by
  have hspec : ∀ chunk ∈ RISCV_ISA_SPEC_CHUNKS,
      (chunk.1.toList.getLast?.map Char.isDigit) = some false := by decide +kernel
  obtain ⟨chunk, hchunk, rfl⟩ := List.mem_map.mp hd
  intro heq
  have hlast := hspec chunk hchunk
  have hdigit := isDigit_toDigits _ (List.getLast_mem (Nat.toDigits_ne_nil (n := idx) (b := 10)))
  change (List.getLast? (chunk.1.toList)).map _ = _ at hlast
  rw [show chunk.1.toList = docId repoName relPath idx from heq, docId,
    List.getLast?_append_of_ne_nil _ Nat.toDigits_ne_nil,
    List.getLast?_eq_some_getLast Nat.toDigits_ne_nil, Option.map_some, hdigit] at hlast
  simp at hlast

lemma filePieces_ids (repoName relPath : String) (text : Text) :
    ∃ n, 0 < n ∧ (filePieces unicode repoName relPath text).map Piece.docId =
      (List.range n).map (docId repoName relPath) := by
  rw [filePieces]
  split
  · exact ⟨1, by omega, rfl⟩
  · rename_i modules hne
    refine ⟨(extractModules unicode text).length, List.length_pos_iff.mpr hne, ?_⟩
    rw [List.map_map, List.range_eq_range', ← List.zipIdx_map_snd 0, List.map_map]
    rfl

/-- The pieces of one whitelisted file, if it is there. -/
def piecesOf (unicode : Char → Bool) (src : Sources) (f : String × String) : List Piece :=
  if src.cloned f.1 then
    match src.file f.1 f.2 with
    | some text => filePieces unicode f.1 f.2 text
    | none => []
  else []

lemma pieces_eq (src : Sources) :
    pieces unicode src = whitelisted.flatMap (piecesOf unicode src) := by
  rw [pieces, whitelisted, List.flatMap_assoc]
  refine List.flatMap_congr fun repo _ => ?_
  rw [List.flatMap_map]
  simp only [piecesOf]
  split_ifs with h
  · rfl
  · simp

lemma piecesOf_ids (src : Sources) (f : String × String) :
    ∃ n, (piecesOf unicode src f).map Piece.docId = (List.range n).map (docId f.1 f.2) ∧
      (n = 0 ↔ ¬(src.cloned f.1 = true ∧ (src.file f.1 f.2).isSome = true)) := by
  rw [piecesOf]
  split_ifs with hc
  · cases hfile : src.file f.1 f.2 with
    | none => exact ⟨0, rfl, by simp⟩
    | some text =>
      obtain ⟨n, hn, hids⟩ := @filePieces_ids unicode f.1 f.2 text
      exact ⟨n, hids, by simp [hc, Nat.pos_iff_ne_zero.mp hn]⟩
  · exact ⟨0, rfl, by simp [hc]⟩

lemma pieces_nodup (src : Sources) : ((pieces unicode src).map Piece.docId).Nodup := by
  have hfiles : whitelisted.Nodup := by decide
  rw [pieces_eq, List.map_flatMap, List.nodup_flatMap]
  refine ⟨fun f hf => ?_, hfiles.pairwise_of_forall_ne fun f hf g hg hne => ?_⟩
  · obtain ⟨n, hids, -⟩ := @piecesOf_ids unicode src f
    rw [hids]
    exact List.nodup_range.map_on fun i _ j _ h => (docId_inj hf hf h).2
  · obtain ⟨n, hidsf, -⟩ := @piecesOf_ids unicode src f
    obtain ⟨n', hidsg, -⟩ := @piecesOf_ids unicode src g
    simp only [Function.onFun, hidsf, hidsg]
    intro i hi hj
    obtain ⟨k, -, rfl⟩ := List.mem_map.mp hi
    obtain ⟨k', -, heq⟩ := List.mem_map.mp hj
    exact hne (docId_inj hf hg heq.symm).1

lemma pieces_ne_spec (src : Sources) {p : Piece} (hp : p ∈ pieces unicode src)
    {d : Text × Document} (hd : d ∈ specDocuments chunkText) : d.1 ≠ p.docId := by
  rw [pieces_eq] at hp
  obtain ⟨f, -, hp⟩ := List.mem_flatMap.mp hp
  obtain ⟨n, hids, -⟩ := @piecesOf_ids unicode src f
  have hid := List.mem_map_of_mem (f := Piece.docId) hp
  rw [hids] at hid
  obtain ⟨i, -, heq⟩ := List.mem_map.mp hid
  rw [← heq]
  exact docId_ne_spec f.1 f.2 i hd

lemma mem_whitelisted {f : String × String} :
    f ∈ whitelisted ↔ ∃ repo ∈ WHITELIST, repo.1 = f.1 ∧ f.2 ∈ repo.2 := by
  obtain ⟨r, p⟩ := f
  simp only [whitelisted, List.mem_flatMap, List.mem_map, Prod.mk.injEq]
  refine exists_congr fun repo => and_congr_right fun _ => ?_
  constructor
  · rintro ⟨q, hq, hr, rfl⟩
    exact ⟨hr, hq⟩
  · rintro ⟨hr, hp⟩
    exact ⟨p, hp, hr, rfl⟩

lemma pieces_eq_nil_iff (src : Sources) : pieces unicode src = [] ↔ NoneAvailable src := by
  have hfile : ∀ f, piecesOf unicode src f = [] ↔
      ¬(src.cloned f.1 = true ∧ (src.file f.1 f.2).isSome = true) := by
    intro f
    obtain ⟨n, hids, hn⟩ := @piecesOf_ids unicode src f
    rw [← hn, ← List.map_eq_nil_iff (f := Piece.docId), hids, List.map_eq_nil_iff,
      List.range_eq_nil]
  rw [pieces_eq, List.flatMap_eq_nil_iff]
  simp only [hfile, mem_whitelisted, not_and, Bool.not_eq_true, Option.isSome_eq_false_iff,
    Option.isNone_iff_eq_none]
  constructor
  · intro h repo hrepo hcloned relPath hrel
    exact h (repo.1, relPath) ⟨repo, hrepo, rfl, hrel⟩ hcloned
  · rintro h f ⟨repo, hrepo, hr, hrel⟩ hcloned
    have := h repo hrepo
    rw [hr] at this
    exact this hcloned f.2 hrel

/-- The document has the id of the piece, and its text under some summary. -/
def Piece.Embedded (p : Piece) (d : Text × Document) : Prop :=
  d.1 = p.docId ∧ ∃ summary, d.2 = ⟨makeEmbedWindow p.text summary, p.metadata⟩

/-- The pieces of a build with the summaries they get, from the cache or newly made. -/
def roles (src : Sources) : List Piece → OrderedDict Text Text → List (Piece × Text)
  | [], _ => []
  | p :: ps, cache =>
    let (summary, cache) := generateChunkSummary src p.summarized p.docId cache
    (p, summary) :: roles src ps cache

def cacheAfter (src : Sources) (ps : List Piece) (cache : OrderedDict Text Text) :
    OrderedDict Text Text :=
  ps.foldl (fun cache p => (generateChunkSummary src p.summarized p.docId cache).2) cache

def documentOf (r : Piece × Text) : Text × Document :=
  (r.1.docId, ⟨makeEmbedWindow r.1.text r.2, r.1.metadata⟩)

lemma roles_pieces (src : Sources) (ps : List Piece) (cache : OrderedDict Text Text) :
    (roles src ps cache).map Prod.fst = ps := by
  induction ps generalizing cache with
  | nil => rfl
  | cons p ps ih => rw [roles, List.map_cons, ih]

lemma foldl_addPiece (src : Sources) (ps : List Piece) (b : Build) :
    ps.foldl (addPiece src) b = ⟨cacheAfter src ps b.summaryCache,
      b.cacheDirty || (roles src ps b.summaryCache).any (fun r => r.2 ≠ []),
      b.documents ++ (roles src ps b.summaryCache).map documentOf⟩ := by
  induction ps generalizing b with
  | nil => simp [cacheAfter, roles]
  | cons p ps ih =>
    rw [List.foldl_cons, ih]
    simp [addPiece, cacheAfter, roles, documentOf, Bool.or_assoc]

/-- Without a summary nothing is put into the cache. -/
lemma cacheAfter_of_empty (src : Sources) (ps : List Piece) (cache : OrderedDict Text Text)
    (h : ∀ r ∈ roles src ps cache, r.2 = []) : cacheAfter src ps cache = cache := by
  induction ps generalizing cache with
  | nil => rfl
  | cons p ps ih =>
    have hcache : (generateChunkSummary src p.summarized p.docId cache).2 = cache := by
      have hfirst : (generateChunkSummary src p.summarized p.docId cache).1 = [] :=
        h _ List.mem_cons_self
      rw [generateChunkSummary] at hfirst ⊢
      cases hc : cache.get? p.docId with
      | some summary => rfl
      | none =>
        rw [hc] at hfirst
        exact if_neg (not_not.mpr hfirst)
    have hrest := ih (generateChunkSummary src p.summarized p.docId cache).2
      fun r hr => h r (List.mem_cons_of_mem _ hr)
    rw [hcache] at hrest
    rw [cacheAfter, List.foldl_cons, hcache]
    exact hrest

/-- Each piece gives a document. -/
lemma roles_embedded (src : Sources) (ps : List Piece) (cache : OrderedDict Text Text) :
    List.Forall₂ Piece.Embedded ps ((roles src ps cache).map documentOf) := by
  induction ps generalizing cache with
  | nil => exact List.Forall₂.nil
  | cons p ps ih => exact List.Forall₂.cons ⟨rfl, _, rfl⟩ (ih _)

/-- The collection with nothing but the chunks. -/
def specCollection (chunkText : String → Text) : Collection Text :=
  addDocuments .empty (specDocuments chunkText)

variable {forceRebuild : Bool} {src : Sources} {st : Store}

/-- A build that is not skipped works on an empty collection. -/
lemma emptied_eq (h : ¬(forceRebuild = false ∧ 0 < st.collection.entries.length)) :
    (if forceRebuild = true ∧ 0 < st.collection.entries.length then .empty else st.collection) =
      (.empty : Collection Text) := by
  split_ifs with hf
  · rfl
  · refine OrderedDict.eq_empty_iff.mp (List.length_eq_zero_iff.mp ?_)
    cases forceRebuild <;> simp_all

/-- A build that is not skipped starts from the chunks alone. -/
lemma buildCorpus_eq (h : ¬(forceRebuild = false ∧ 0 < st.collection.entries.length)) :
    let docs := (roles src (pieces unicode src) st.chunkSummaries).map documentOf
    buildCorpus unicode src chunkText forceRebuild st =
      (if docs = [] then .error "No RTL source files were processed.".toList
        else .ok (addDocuments (specCollection chunkText) docs),
        ⟨addDocuments (specCollection chunkText) docs,
          cacheAfter src (pieces unicode src) st.chunkSummaries⟩) := by
  intro docs
  have hstart : ingestRiscvSpec chunkText (if forceRebuild = true ∧
      0 < st.collection.entries.length then .empty else st.collection) =
      specCollection chunkText := by
    rw [emptied_eq h]
    rfl
  have hdocs : [] ++ (roles src (pieces unicode src) st.chunkSummaries).map documentOf = docs :=
    List.nil_append _
  have hcache : (if (roles src (pieces unicode src) st.chunkSummaries).any (fun r => r.2 ≠ []) then
      cacheAfter src (pieces unicode src) st.chunkSummaries else st.chunkSummaries) =
      cacheAfter src (pieces unicode src) st.chunkSummaries := by
    split_ifs with hdirty
    · rfl
    · exact (cacheAfter_of_empty src _ _ (by simpa using hdirty)).symm
  simp only [buildCorpus, if_neg h, hstart, foldl_addPiece, hdocs, Bool.false_or, hcache]
  by_cases hnil : docs = []
  · rw [if_pos hnil, if_pos hnil, hnil, addDocuments_nil]
  · rw [if_neg hnil, if_neg hnil]

lemma specDocuments_nodup : ((specDocuments chunkText).map Prod.fst).Nodup := by
  have hids : (RISCV_ISA_SPEC_CHUNKS.map fun chunk => chunk.1.toList).Nodup := by decide +kernel
  rw [specDocuments, List.map_map]
  exact hids

lemma get?_specCollection {d : Text × Document} (hd : d ∈ specDocuments chunkText) :
    (specCollection chunkText).get? d.1 = some d.2 := by
  rw [specCollection, get?_addDocuments, OrderedDict.get?_empty, Option.none_or,
    find?_of_nodup specDocuments_nodup hd]

/-- A collection that was empty is not when it has got the chunks. -/
lemma not_sameDocuments_empty {c : Collection Text} (h : c.entries = []) :
    ¬SameDocuments (specCollection chunkText) c := by
  intro hsame
  have hd : ∃ d, d ∈ specDocuments chunkText := ⟨_, List.mem_cons_self⟩
  obtain ⟨d, hd⟩ := hd
  have hchunk := hsame d.1
  rw [get?_specCollection hd, OrderedDict.eq_empty_iff.mp h, OrderedDict.get?_empty] at hchunk
  contradiction

/-- When a build raises, and what is left then. -/
lemma buildCorpus_raises :
    (∃ e, (buildCorpus unicode src chunkText forceRebuild st).1 = .error e) ↔
      ¬(forceRebuild = false ∧ 0 < st.collection.entries.length) ∧ NoneAvailable src := by
  by_cases h : forceRebuild = false ∧ 0 < st.collection.entries.length
  · simp [buildCorpus, h]
  · have hnil : (roles src (pieces unicode src) st.chunkSummaries).map documentOf = [] ↔
        pieces unicode src = [] := by
      rw [← List.length_eq_zero_iff, ← (roles_embedded src _ _).length_eq, List.length_eq_zero_iff]
    rw [buildCorpus_eq h, ← @pieces_eq_nil_iff unicode, ← hnil]
    split_ifs with hd <;> simp [h, hd]

lemma buildCorpus_left (h : ∃ e, (buildCorpus unicode src chunkText forceRebuild st).1 = .error e) :
    (buildCorpus unicode src chunkText forceRebuild st).2.collection = specCollection chunkText := by
  obtain ⟨hskip, hnone⟩ := buildCorpus_raises.mp h
  have hpieces : pieces unicode src = [] := (pieces_eq_nil_iff src).mpr hnone
  have hdocs : (roles src [] st.chunkSummaries).map documentOf = [] := rfl
  simp only [buildCorpus_eq hskip, hpieces, hdocs, addDocuments_nil]

lemma specCollection_get?_docId {p : Piece} (hp : p ∈ pieces unicode src) :
    (specCollection chunkText).get? p.docId = none := by
  have hfind : (specDocuments chunkText).find? (fun d => d.1 = p.docId) = none := by
    rw [List.find?_eq_none]
    intro d hd
    simpa using pieces_ne_spec src hp hd
  rw [specCollection, get?_addDocuments, hfind, OrderedDict.get?_empty]
  rfl

lemma not_noneAvailable (h : AllAvailable src) : ¬NoneAvailable src := by
  intro hnone
  have hrepo : ("picorv32", ["picorv32.v"]) ∈ WHITELIST := List.mem_cons_self
  obtain ⟨hcloned, hfiles⟩ := h _ hrepo
  have hfile := hnone _ hrepo hcloned "picorv32.v" List.mem_cons_self
  have hsome := hfiles "picorv32.v" List.mem_cons_self
  rw [hfile] at hsome
  contradiction

/-- The documents of a build are found by the pieces they are for. -/
lemma forall₂_documents {ps : List Piece} {docs : List (Text × Document)}
    (hall : List.Forall₂ Piece.Embedded ps docs) :
    docs.map Prod.fst = ps.map Piece.docId ∧ ∀ p ∈ ps, ∃ d ∈ docs, p.Embedded d := by
  induction hall with
  | nil => simp
  | @cons p d ps docs hd _ ih =>
    obtain ⟨hids, hfound⟩ := ih
    refine ⟨by rw [List.map_cons, List.map_cons, hd.1, hids], fun q hq => ?_⟩
    rcases List.mem_cons.mp hq with rfl | hq
    · exact ⟨d, List.mem_cons_self, hd⟩
    · obtain ⟨e, he, hdoc⟩ := hfound q hq
      exact ⟨e, List.mem_cons_of_mem d he, hdoc⟩

/-- A build from an empty collection with all sources holds the chunks and all pieces. -/
theorem buildCorpus_complete (hst : st.collection.entries = []) (hsrc : AllAvailable src) :
    ∃ c, (buildCorpus unicode src chunkText false st).1 = .ok c ∧
      HoldsAll unicode chunkText src c := by
  let docs := (roles src (pieces unicode src) st.chunkSummaries).map documentOf
  have hall : List.Forall₂ Piece.Embedded (pieces unicode src) docs := roles_embedded src _ _
  obtain ⟨hids, hfound⟩ := forall₂_documents hall
  have hne : docs ≠ [] := by
    intro hnil
    rw [hnil] at hall
    exact not_noneAvailable hsrc
      ((pieces_eq_nil_iff src).mp (List.forall₂_nil_right_iff.mp hall))
  have hnodup : (docs.map Prod.fst).Nodup := hids ▸ pieces_nodup src
  have hok : (buildCorpus unicode src chunkText false st).1 =
      .ok (addDocuments (specCollection chunkText) docs) := by
    rw [buildCorpus_eq (by simp [hst])]
    exact if_neg hne
  refine ⟨_, hok, fun d hd => ?_, fun p hp => ?_⟩
  · rw [get?_addDocuments, get?_specCollection hd]
    rfl
  · obtain ⟨d, hd, hid, summary, hdoc⟩ := hfound p hp
    refine ⟨summary, ?_⟩
    rw [get?_addDocuments, specCollection_get?_docId hp, Option.none_or, ← hid,
      find?_of_nodup hnodup hd, hdoc]

/-- A build that leaves the collection alone when it raises can be repeated. -/
lemma recoverable_iff :
    Recoverable unicode chunkText forceRebuild src st ↔
      ((∃ e, (buildCorpus unicode src chunkText forceRebuild st).1 = .error e) →
        SameDocuments (buildCorpus unicode src chunkText forceRebuild st).2.collection
          st.collection) := by
  constructor
  · rintro h ⟨e, he⟩
    exact (h e he).1
  · intro h e he
    refine ⟨h ⟨e, he⟩, fun hempty src' hsrc' => buildCorpus_complete ?_ hsrc'⟩
    refine OrderedDict.entries_eq_nil fun i => ?_
    rw [h ⟨e, he⟩, OrderedDict.eq_empty_iff.mp hempty, OrderedDict.get?_empty]

/-- A failed build can be repeated only where it does not fail, or where the collection held just
the chunks before. -/
theorem build_corpus_recoverable_iff (forceRebuild : Bool) (src : Sources) (st : Store) :
    Recoverable unicode chunkText forceRebuild src st ↔
      (forceRebuild = false ∧ 0 < st.collection.entries.length) ∨ ¬NoneAvailable src ∨
        (forceRebuild = true ∧ SameDocuments (specCollection chunkText) st.collection) := by
  rw [recoverable_iff]
  constructor
  · intro h
    by_cases hskip : forceRebuild = false ∧ 0 < st.collection.entries.length
    · exact Or.inl hskip
    by_cases hnone : NoneAvailable src
    · have hraise := (@buildCorpus_raises unicode chunkText forceRebuild src st).mpr ⟨hskip, hnone⟩
      have hsame := h hraise
      rw [buildCorpus_left hraise] at hsame
      refine Or.inr (Or.inr ⟨?_, hsame⟩)
      by_contra hforce
      have hfalse : forceRebuild = false := Bool.not_eq_true _ ▸ hforce
      have hempty : st.collection.entries = [] :=
        List.length_eq_zero_iff.mp (Nat.eq_zero_of_not_pos fun hpos => hskip ⟨hfalse, hpos⟩)
      exact not_sameDocuments_empty hempty hsame
    · exact Or.inr (Or.inl hnone)
  · rintro h hraise
    obtain ⟨hskip, hnone⟩ := buildCorpus_raises.mp hraise
    rw [buildCorpus_left hraise]
    rcases h with h | h | ⟨-, h⟩
    · exact absurd h hskip
    · exact absurd hnone h
    · exact h

end

def noClones : Sources := ⟨fun _ => false, fun _ _ => none, fun _ => []⟩

/-- Without any clone a build from an empty collection raises, and leaves the chunks there. -/
theorem build_corpus_recoverable_fails :
    ¬Recoverable (fun _ => false) (fun _ => []) false noClones ⟨.empty, .empty⟩ := by
  intro h
  have hraise : ∃ e, (buildCorpus (fun _ => false) noClones (fun _ => []) false
      ⟨.empty, .empty⟩).1 = .error e :=
    buildCorpus_raises.mpr ⟨by simp [OrderedDict.empty], fun _ _ hcloned => by contradiction⟩
  have hleft := buildCorpus_left hraise
  obtain ⟨e, he⟩ := hraise
  obtain ⟨hsame, -⟩ := h e he
  rw [hleft] at hsame
  exact not_sameDocuments_empty rfl hsame

end Rv32iRtl
