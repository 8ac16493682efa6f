import Rv32iRtl.CorpusRecovery
import Rv32iRtl.Memo

/-! The cache of summaries over a history of corpus builds whose sources change. -/
namespace Rv32iRtl

/-- A language model that gives every text a summary. -/
structure Summariser where
  callLlmForSummary : Text → Text
  never_fails : ∀ t, callLlmForSummary t ≠ []

/-- A call of `build_corpus` with the sources of that moment. -/
structure Call where
  forceRebuild : Bool
  cloned : String → Bool
  file : String → String → Option Text

def Call.sources (c : Call) (llm : Summariser) : Sources :=
  ⟨c.cloned, c.file, llm.callLlmForSummary⟩

/-- The collection is there already. -/
def Call.Skipped (c : Call) (st : Store) : Prop :=
  c.forceRebuild = false ∧ 0 < st.collection.entries.length

instance (c : Call) (st : Store) : Decidable (c.Skipped st) := inferInstanceAs (Decidable (_ ∧ _))

section

variable (unicode : Char → Bool) (chunkText : String → Text) (llm : Summariser)

def Call.after (c : Call) (st : Store) : Store :=
  (buildCorpus unicode (c.sources llm) chunkText c.forceRebuild st).2

/-- What the call puts into the collection has the summary of its own text in front. -/
def Call.Current (c : Call) (st : Store) : Prop :=
  ∀ r ∈ roles (c.sources llm) (pieces unicode (c.sources llm)) st.chunkSummaries,
    (c.after unicode chunkText llm st).collection.get? r.1.docId =
        some ⟨makeEmbedWindow r.1.text r.2, r.1.metadata⟩ ∧
      r.2 = llm.callLlmForSummary r.1.summarized

/-- Every call of the history that is not skipped leaves current summaries. -/
def Coherent : List Call → Store → Prop
  | [], _ => True
  | c :: cs, st => (¬c.Skipped st → c.Current unicode chunkText llm st) ∧
      Coherent cs (c.after unicode chunkText llm st)

/-- The pieces that the calls have processed, in order. -/
def processed : List Call → Store → List Piece
  | [], _ => []
  | c :: cs, st => (if c.Skipped st then [] else pieces unicode (c.sources llm)) ++
      processed cs (c.after unicode chunkText llm st)

/-- Pieces with one position, the key of their summary, have one summary. -/
def SameRole (p q : Piece) : Prop :=
  p.docId = q.docId → llm.callLlmForSummary p.summarized = llm.callLlmForSummary q.summarized

variable {unicode chunkText llm}

def Piece.question (p : Piece) : Text × Text := (p.docId, p.summarized)

lemma generateChunkSummary_eq (c : Call) (cache : OrderedDict Text Text) (key text : Text) :
    generateChunkSummary (c.sources llm) text key cache =
      Memo.lookup llm.callLlmForSummary cache key text := by
  rw [generateChunkSummary, Memo.lookup]
  cases cache.get? key with
  | some summary => rfl
  | none =>
    change (_, if llm.callLlmForSummary text ≠ [] then _ else _) = _
    rw [if_pos (llm.never_fails text)]
    rfl

lemma roles_summaries (c : Call) (ps : List Piece) (cache : OrderedDict Text Text) :
    (roles (c.sources llm) ps cache).map Prod.snd =
      Memo.answers llm.callLlmForSummary (ps.map Piece.question) cache := by
  induction ps generalizing cache with
  | nil => rfl
  | cons p ps ih =>
    rw [roles, List.map_cons, ih, List.map_cons, Memo.answers, generateChunkSummary_eq]
    rfl

lemma cacheAfter_eq (c : Call) (ps : List Piece) (cache : OrderedDict Text Text) :
    cacheAfter (c.sources llm) ps cache =
      Memo.after llm.callLlmForSummary (ps.map Piece.question) cache := by
  induction ps generalizing cache with
  | nil => rfl
  | cons p ps ih =>
    have hcons : cacheAfter (c.sources llm) (p :: ps) cache = cacheAfter (c.sources llm) ps
        (generateChunkSummary (c.sources llm) p.summarized p.docId cache).2 := rfl
    rw [hcons, ih, generateChunkSummary_eq]
    rfl

/-- The windows of a build are stored with the summaries that their pieces get. -/
lemma stored (c : Call) {st : Store} (hc : ¬c.Skipped st) :
    ∀ r ∈ roles (c.sources llm) (pieces unicode (c.sources llm)) st.chunkSummaries,
      (c.after unicode chunkText llm st).collection.get? r.1.docId =
        some ⟨makeEmbedWindow r.1.text r.2, r.1.metadata⟩ := by
  intro r hr
  have hpiece : r.1 ∈ pieces unicode (c.sources llm) := by
    rw [← roles_pieces (c.sources llm) (pieces unicode (c.sources llm)) st.chunkSummaries]
    exact List.mem_map_of_mem hr
  have hnodup : (((roles (c.sources llm) (pieces unicode (c.sources llm))
      st.chunkSummaries).map documentOf).map Prod.fst).Nodup := by
    have hids := @pieces_nodup unicode (c.sources llm)
    rw [← roles_pieces (c.sources llm) (pieces unicode (c.sources llm)) st.chunkSummaries,
      List.map_map] at hids
    rw [List.map_map]
    exact hids
  have hafter := @buildCorpus_eq unicode chunkText c.forceRebuild (c.sources llm) st hc
  rw [Call.after, hafter, get?_addDocuments, specCollection_get?_docId hpiece, Option.none_or]
  exact find?_of_nodup hnodup (List.mem_map_of_mem hr)

/-- The file of summaries after a call is the cache that the call has filled. -/
lemma after_chunkSummaries (c : Call) {st : Store} (hc : ¬c.Skipped st) :
    (c.after unicode chunkText llm st).chunkSummaries =
      Memo.after llm.callLlmForSummary ((pieces unicode (c.sources llm)).map Piece.question)
        st.chunkSummaries := by
  rw [Call.after, @buildCorpus_eq unicode chunkText c.forceRebuild (c.sources llm) st hc]
  exact cacheAfter_eq c _ _

lemma after_of_skipped (c : Call) {st : Store} (hc : c.Skipped st) :
    c.after unicode chunkText llm st = st := by
  have hskip : c.forceRebuild = false ∧ 0 < st.collection.entries.length := hc
  rw [Call.after, buildCorpus, if_pos hskip]

/-- A call leaves current summaries exactly if the cache answers as the model would. -/
lemma current_iff (c : Call) {st : Store} (hc : ¬c.Skipped st) :
    c.Current unicode chunkText llm st ↔
      Memo.answers llm.callLlmForSummary ((pieces unicode (c.sources llm)).map Piece.question)
          st.chunkSummaries =
        ((pieces unicode (c.sources llm)).map Piece.question).map fun q =>
          llm.callLlmForSummary q.2 := by
  let rs := roles (c.sources llm) (pieces unicode (c.sources llm)) st.chunkSummaries
  have hpieces : (pieces unicode (c.sources llm)).map Piece.question =
      rs.map fun r => r.1.question := by
    rw [← roles_pieces (c.sources llm) (pieces unicode (c.sources llm)) st.chunkSummaries,
      List.map_map]
    rfl
  have hsummaries : Memo.answers llm.callLlmForSummary
      ((pieces unicode (c.sources llm)).map Piece.question) st.chunkSummaries = rs.map Prod.snd :=
    (roles_summaries c _ _).symm
  have hstored := @stored unicode chunkText llm c st hc
  rw [hsummaries, hpieces, List.map_map, List.map_inj_left]
  constructor
  · intro h r hr
    exact (h r hr).2
  · intro h r hr
    exact ⟨hstored r hr, h r hr⟩

lemma coherent_iff_answers (cs : List Call) (st : Store) :
    Coherent unicode chunkText llm cs st ↔
      Memo.answers llm.callLlmForSummary
          ((processed unicode chunkText llm cs st).map Piece.question) st.chunkSummaries =
        ((processed unicode chunkText llm cs st).map Piece.question).map fun q =>
          llm.callLlmForSummary q.2 := by
  induction cs generalizing st with
  | nil => simp [Coherent, processed, Memo.answers]
  | cons c cs ih =>
    rw [Coherent, processed, ih]
    by_cases hc : c.Skipped st
    · rw [if_pos hc, List.nil_append, after_of_skipped c hc]
      exact and_iff_right fun hn => absurd hc hn
    · have hlen := @Memo.length_answers _ _ _ _ llm.callLlmForSummary
        ((pieces unicode (c.sources llm)).map Piece.question) st.chunkSummaries
      rw [if_neg hc, List.map_append, Memo.answers_append, List.map_append,
        ← after_chunkSummaries c hc, forall_prop_of_true hc, current_iff c hc]
      constructor
      · rintro ⟨hnow, hlater⟩
        rw [hnow, hlater]
      · intro h
        exact List.append_inj h (by simp [hlen])

/-- Every stored window has the summary of its own text in front exactly if the texts that the
calls have found at one position have one summary. -/
theorem summary_cache_coherent_iff (unicode : Char → Bool) (chunkText : String → Text)
    (llm : Summariser) (calls : List Call) :
    Coherent unicode chunkText llm calls ⟨.empty, .empty⟩ ↔
      (processed unicode chunkText llm calls ⟨.empty, .empty⟩).Pairwise (SameRole llm) := by
  rw [coherent_iff_answers, Memo.answers_eq_iff, List.pairwise_map]
  refine and_iff_right fun q _ summary h => ?_
  rw [OrderedDict.get?_empty] at h
  contradiction

end

def echo : Summariser := ⟨fun t => 'a' :: t, fun _ => List.cons_ne_nil _ _⟩

def picorv32With (text : String) : Call where
  forceRebuild := true
  cloned repo := repo = "picorv32"
  file _ _ := some text.toList

lemma pieces_picorv32 :
    (pieces (fun _ => false) ((picorv32With "module a; endmodule").sources echo)).map
        Piece.question = [("picorv32::picorv32::0".toList, "module a; endmodule".toList)] ∧
    (pieces (fun _ => false) ((picorv32With "module b; endmodule").sources echo)).map
        Piece.question = [("picorv32::picorv32::0".toList, "module b; endmodule".toList)] := by
  decide +kernel

theorem summary_cache_coherent_fails :
    ¬∀ calls : List Call, Coherent (fun _ => false) (fun _ => []) echo calls ⟨.empty, .empty⟩ := by
  intro h
  have hsame := (summary_cache_coherent_iff _ _ _ _).mp
    (h [picorv32With "module a; endmodule", picorv32With "module b; endmodule"])
  have hforced : ∀ text st, ¬(picorv32With text).Skipped st := fun text st hs => by
    have hforce := hs.1
    contradiction
  rw [processed, processed, processed, if_neg (hforced _ _), if_neg (hforced _ _),
    List.append_nil] at hsame
  obtain ⟨ha, hb⟩ := pieces_picorv32
  obtain ⟨p, hp, hpq⟩ := List.mem_map.mp (ha ▸ List.mem_singleton_self _)
  obtain ⟨q, hq, hqq⟩ := List.mem_map.mp (hb ▸ List.mem_singleton_self _)
  have hrole := (List.pairwise_append.mp hsame).2.2 p hp q hq
  obtain ⟨hpid, hpt⟩ := Prod.mk.inj hpq
  obtain ⟨hqid, hqt⟩ := Prod.mk.inj hqq
  have heq := hrole (hpid.trans hqid.symm)
  rw [hpt, hqt] at heq
  revert heq
  decide

end Rv32iRtl
