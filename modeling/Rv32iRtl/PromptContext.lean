import Rv32iRtl.KnowledgeBase
import Rv32iRtl.SeparatedList

/-! The prompt for the body of a module: what is retrieved for it from the two collections and how
that is put into words, back to the sources that the corpus was built of. -/
namespace Rv32iRtl

open TextScan

/-- A row of `query_knowledge`. -/
structure KnowledgeRow (F : Type*) where
  id : Text
  document : Text
  metadata : Metadata
  distance : F

/-- The packages behind `query_knowledge`; the query may raise. -/
structure KnowledgeModels (V F : Type*) where
  embedQuery : Text → V
  query : Collection Text → V → ℕ → Option Text → Option (List (Text × F))

section

variable {V F : Type*}

def queryKnowledge (models : KnowledgeModels V F) (c : Collection Text) (query : Text) (k : ℕ)
    (categoryFilter : Option Text) : List (KnowledgeRow F) :=
  if c.entries.length = 0 then []
  else
    let whereFilter := categoryFilter.filter (· ≠ [])
    match models.query c (models.embedQuery query) (min k c.entries.length) whereFilter with
    | none => []
    | some found => found.filterMap fun p =>
        (c.get? p.1).map fun d => ⟨p.1, d.document, d.metadata, p.2⟩

def formatReference (i : ℕ) (d : Document) : Text :=
  "--- Reference ".toList ++ Nat.toDigits 10 i ++ ": ".toList ++
    (d.metadata "module_name").getD "unknown".toList ++ " (from ".toList ++
    (d.metadata "source").getD "unknown".toList ++ ") ---\n".toList ++ d.document

def formatRtlContext (rtlDocs : List (Entry Text F)) : Text :=
  if rtlDocs = [] then "No RTL reference context available.".toList
  else "\n\n".toList.intercalate ((rtlDocs.zipIdx 1).map fun p =>
    formatReference p.2 ⟨p.1.document, p.1.metadata⟩)

def formatKnowledgeContext (knowledgeDocs : List (KnowledgeRow F)) : Text :=
  if knowledgeDocs = [] then "No knowledge context available.".toList
  else "\n\n".toList.intercalate (knowledgeDocs.map fun d =>
    ['['] ++ (d.metadata "title").getD [] ++ "]\n".toList ++ d.document)

/-- The user's part of the prompt in `generate_module_v`. -/
def generateModuleVPrompt (moduleName spec header rtlCtxText knowCtxText : Text) : Text :=
  "Generate the full Verilog module: ".toList ++ moduleName ++
    "\nUsing this EXACT header signature:\n".toList ++ header ++
    "\n\nSPECIFICATION:\n".toList ++ spec ++
    "\n\nREFERENCE RTL (from RAG corpus):\n".toList ++ rtlCtxText ++
    "\n\nRELEVANT BUG PATTERNS:\n".toList ++ knowCtxText ++
    ("\n\nRequirements:\n1. Return ONLY the complete Verilog code in a \x60\x60\x60verilog block.\n" ++
      "2. Use the exact ports provided in the header.\n" ++
      "3. Follow ALL rules in the hardware contract.\n").toList

/-- The answer to the prompt for the header, cut behind the first `);`. -/
def cutHeader (header : Text) : Text :=
  let idx := find ");".toList header 0
  if idx = -1 then header else header.take (idx + 2).toNat

def COMPONENT_MAP : String → String
  | "alu" => "alu"
  | "regfile" => "regfile"
  | "decoder" => "decoder"
  | "branch_unit" => "alu"
  | "lsu" => "lsu"
  | "csr_unit" => "full_core"
  | "hazard_unit" => "hazard"
  | "pipeline_regs" => "full_core"
  | "top" => "full_core"
  | _ => "full_core"

end

/-- The two collections as a prompt finds them. -/
structure Collections where
  rtlCorpus : Collection Text
  knowledgeCorpus : Collection Text

section

variable {V W F G : Type*} [Score F] (models : Models Text V F)
  (knowledgeModels : KnowledgeModels W G)

/-- The reference documents for a module, given the header that was answered. -/
def rtlContext (c : Collections) (m : String) (header : Text) : List (Entry Text F) :=
  retrieve models c.rtlCorpus (COMPONENT_MAP m)
    ("Module ".toList ++ m.toList ++ " with ports: ".toList ++ header) 3

/-- The prompt that `generate_with_lint_fix` comes to before its first candidate. -/
def firstPrompt (c : Collections) (m : String) (spec headerAnswer : Text) : Text :=
  let header := cutHeader headerAnswer
  let knowledgeContext := queryKnowledge knowledgeModels c.knowledgeCorpus spec 3 none
  generateModuleVPrompt m.toList spec header (formatRtlContext (rtlContext models c m header))
    (formatKnowledgeContext knowledgeContext)

end

section Retrieved

variable {I V F : Type*} [DecidableEq I] [Score F] {models : Models I V F} {c : Collection I}
  {component : String} {query : Text} {k : ℕ}

lemma own_of_retrieved {e : Entry I F} (he : e ∈ retrieve models c component query k) :
    e.Own c := by
  obtain ⟨st, hst, hin, -, -⟩ := collect_spec models c component query k
  obtain ⟨e', he', heq⟩ := List.mem_map.mp ((retrieve_perm c component query k).mem_iff.mp
    (List.mem_map_of_mem (f := Entry.unscored) he))
  have hown : e'.unscored.Own c := hin.own e' (hst ▸ List.mem_of_mem_take he')
  rw [heq] at hown
  exact hown

/-- References that fit are all retrieved. -/
lemma retrieved_of_reference (hk : (referenceIds c component).length ≤ k) {i : I}
    (hi : i ∈ referenceIds c component) :
    ∃ e ∈ retrieve models c component query k, e.id = i := by
  obtain ⟨st, hst, hin, hrefs, hcase⟩ := collect_spec models c component query k
  have hlen : st.results.length ≤ k := by
    rcases hcase with ⟨-, hperm⟩ | ⟨-, hmin⟩
    · rwa [← List.length_map Entry.id, hin.ids, hperm.length_eq]
    · omega
  have hmem := hrefs i hi
  rw [← hin.ids] at hmem
  obtain ⟨e', he', rfl⟩ := List.mem_map.mp hmem
  have hperm : ((retrieve models c component query k).map Entry.unscored).Perm
      (((collect models c (COMPONENT_TO_MODULES component) query k).take k).map Entry.unscored) :=
    retrieve_perm c component query k
  rw [hst, List.take_of_length_le hlen] at hperm
  obtain ⟨e, he, heq⟩ := List.mem_map.mp
    (hperm.mem_iff.mpr (List.mem_map_of_mem (f := Entry.unscored) he'))
  have hid : e.unscored.id = e'.unscored.id := congrArg Entry.id heq
  exact ⟨e, he, hid⟩

end Retrieved

section Prompt

variable {F : Type*}

lemma reference_within {rtlDocs : List (Entry Text F)} {e : Entry Text F} (he : e ∈ rtlDocs) :
    ∃ i, formatReference i ⟨e.document, e.metadata⟩ <:+: formatRtlContext rtlDocs := by
  obtain ⟨i, hi⟩ : ∃ i, (e, i) ∈ rtlDocs.zipIdx 1 := by
    rw [← List.zipIdx_map_fst 1 rtlDocs] at he
    obtain ⟨p, hp, rfl⟩ := List.mem_map.mp he
    exact ⟨p.2, hp⟩
  refine ⟨i, ?_⟩
  rw [formatRtlContext, if_neg (List.ne_nil_of_mem he)]
  exact infix_intercalate (List.mem_map.mpr ⟨(e, i), hi, rfl⟩)

lemma context_within (moduleName spec header rtlCtxText knowCtxText : Text) :
    rtlCtxText <:+: generateModuleVPrompt moduleName spec header rtlCtxText knowCtxText := by
  have hfront (l : Text) : rtlCtxText <:+: l ++ rtlCtxText := (List.suffix_append l _).isInfix
  apply (hfront _).trans
  exact ((List.prefix_append _ _).trans
    ((List.prefix_append _ _).trans (List.prefix_append _ _))).isInfix

end Prompt

/-- The piece bears the name of a reference module for the module to be generated. -/
def Piece.IsReference (m : String) (p : Piece) : Prop :=
  ∃ name ∈ COMPONENT_TO_MODULES (COMPONENT_MAP m), p.metadata "module_name" = some name.toList

instance (m : String) (p : Piece) : Decidable (p.IsReference m) :=
  inferInstanceAs (Decidable (∃ name ∈ COMPONENT_TO_MODULES (COMPONENT_MAP m),
    p.metadata "module_name" = some name.toList))

section Sources

variable {unicode : Char → Bool} {chunkText : String → Text}

/-- The chunks of the ISA manual pass for no reference module. -/
lemma spec_not_reference {component name : String} (hname : name ∈ COMPONENT_TO_MODULES component)
    {d : Text × Document} (hd : d ∈ specDocuments chunkText) :
    d.2.metadata "module_name" ≠ some name.toList := by
  obtain ⟨chunk, hchunk, rfl⟩ := List.mem_map.mp hd
  have htitle : chunk.2.1.toList.head? = some 'R' := by
    have hall : ∀ chunk ∈ RISCV_ISA_SPEC_CHUNKS, chunk.2.1.toList.head? = some 'R' := by decide
    exact hall chunk hchunk
  have hhead : name.toList.head? ≠ some 'R' := by
    unfold COMPONENT_TO_MODULES at hname
    split at hname <;> simp only [List.mem_cons, List.not_mem_nil, or_false] at hname
    all_goals rcases hname with rfl | rfl | rfl <;> decide
  intro heq
  have hsame : some chunk.2.1.toList = some name.toList := heq
  rw [Option.some.inj hsame] at htitle
  exact hhead htitle

lemma mem_leaves {c : BuildCall} {chunkSummaries : OrderedDict Text Text} {d : Text × Document}
    (hd : d ∈ c.leaves unicode chunkText chunkSummaries) :
    d ∈ specDocuments chunkText ∨ d ∈ c.documents unicode chunkSummaries := by
  rw [BuildCall.leaves] at hd
  split at hd
  · contradiction
  · exact Or.inl hd
  · exact (List.mem_append.mp hd).imp_right List.mem_of_mem_take
  · exact List.mem_append.mp hd

/-- The references in the collection are counted by the pieces. -/
lemma length_referenceIds {c : BuildCall} {chunkSummaries : OrderedDict Text Text}
    {collection : Collection Text} (m : String)
    (h : collection.entries = specDocuments chunkText ++ c.documents unicode chunkSummaries) :
    (referenceIds collection (COMPONENT_MAP m)).length =
      (pieces unicode c.sources).countP fun p => p.IsReference m := by
  let named (d : Text × Document) : Bool := ∃ name ∈ COMPONENT_TO_MODULES (COMPONENT_MAP m),
    d.2.metadata "module_name" = some name.toList
  have hspec : (specDocuments chunkText).countP named = 0 := by
    apply List.countP_eq_zero.mpr
    intro d hd
    simp only [named, decide_eq_true_eq]
    rintro ⟨name, hname, heq⟩
    exact spec_not_reference hname hd heq
  have hdocs : (c.documents unicode chunkSummaries).countP named =
      (pieces unicode c.sources).countP fun p => p.IsReference m := by
    rw [BuildCall.documents, List.countP_map,
      ← roles_pieces c.sources (pieces unicode c.sources) chunkSummaries, List.countP_map,
      roles_pieces]
    rfl
  rw [referenceIds, List.length_map, ← List.countP_eq_length_filter, h, List.countP_append]
  change (specDocuments chunkText).countP named + (c.documents unicode chunkSummaries).countP named = _
  rw [hspec, hdocs, Nat.zero_add]

variable {V W F G : Type*} [Score F] (models : Models Text V F) (knowledgeModels : KnowledgeModels W G)

variable {models knowledgeModels} in
/-- References that fit are all in the prompt. -/
lemma reference_in_prompt {c : BuildCall} {chunkSummaries : OrderedDict Text Text}
    {collections : Collections} {m : String}
    (h : collections.rtlCorpus.entries =
      specDocuments chunkText ++ c.documents unicode chunkSummaries)
    (hfew : (pieces unicode c.sources).countP (fun p => p.IsReference m) ≤ 3)
    (spec headerAnswer : Text) {r : Piece × Text}
    (hr : r ∈ roles c.sources (pieces unicode c.sources) chunkSummaries)
    (href : r.1.IsReference m) :
    ∃ i, formatReference i (documentOf r).2 <:+:
      firstPrompt models knowledgeModels collections m spec headerAnswer := by
  have hstored : documentOf r ∈ collections.rtlCorpus.entries := by
    rw [h]
    exact List.mem_append_right _ (List.mem_map_of_mem hr)
  have hid : (documentOf r).1 ∈ referenceIds collections.rtlCorpus (COMPONENT_MAP m) := by
    refine List.mem_map.mpr ⟨_, List.mem_filter.mpr ⟨hstored, ?_⟩, rfl⟩
    exact decide_eq_true href
  have hlen : (referenceIds collections.rtlCorpus (COMPONENT_MAP m)).length ≤ 3 := by
    rwa [length_referenceIds m h]
  obtain ⟨e, he, hid⟩ : ∃ e ∈ rtlContext models collections m (cutHeader headerAnswer),
      e.id = (documentOf r).1 := retrieved_of_reference hlen hid
  have hown : collections.rtlCorpus.get? e.id = some ⟨e.document, e.metadata⟩ := own_of_retrieved he
  have hget : collections.rtlCorpus.get? (documentOf r).1 = some (documentOf r).2 :=
    (OrderedDict.mem_entries_iff _ _ _).mp hstored
  rw [hid, hget] at hown
  obtain ⟨i, hi⟩ := reference_within he
  rw [← Option.some.inj hown] at hi
  exact ⟨i, hi.trans (context_within _ _ _ _ _)⟩

variable (unicode chunkText) in
/-- Whatever corpus builds come before, failed ones among them: the reference documents of a prompt
are chunks of the ISA manual or documents that the governing build has made of the sources as it
found them; and if that build came to its end, and the pieces that bear a name listed for the
module are three at most, each of them is in the prompt, as it is stored. -/
theorem references_reach_prompt (calls : List BuildCall)
    (chunkSummaries : OrderedDict Text Text) (knowledgeCorpus : Collection Text) (m : String)
    (spec headerAnswer : Text) :
    let st₀ : Store := ⟨.empty, chunkSummaries⟩
    let collections : Collections :=
      ⟨(storeAfter unicode chunkText calls st₀).collection, knowledgeCorpus⟩
    let references := rtlContext models collections m (cutHeader headerAnswer)
    references = [] ∧ (∀ c ∈ calls, c.StopsEarly) ∨
      ∃ before c later, Governs unicode chunkText calls before c later st₀ ∧
        let st := storeAfter unicode chunkText before st₀
        let rs := roles c.sources (pieces unicode c.sources) st.chunkSummaries
        (∀ e ∈ references, (e.id, ⟨e.document, e.metadata⟩) ∈ specDocuments chunkText ∨
          ∃ r ∈ rs, (e.id, ⟨e.document, e.metadata⟩) = documentOf r) ∧
        (c.raised = none → (pieces unicode c.sources).countP (fun p => p.IsReference m) ≤ 3 →
          ∀ p ∈ pieces unicode c.sources, p.IsReference m → ∃ r ∈ rs, r.1 = p ∧
            ∃ i, formatReference i (documentOf r).2 <:+:
              firstPrompt models knowledgeModels collections m spec headerAnswer) := by
  intro st₀ collections references
  have hown : ∀ e ∈ references,
      (e.id, ⟨e.document, e.metadata⟩) ∈ collections.rtlCorpus.entries := fun e he =>
    (OrderedDict.mem_entries_iff _ _ _).mpr (own_of_retrieved he)
  rcases @store_of_calls unicode chunkText calls st₀ rfl with
    ⟨hearly, hst⟩ | ⟨before, c, later, hgov, -, hentries⟩
  · refine Or.inl ⟨List.eq_nil_iff_forall_not_mem.mpr fun e he => ?_, hearly⟩
    have hmem := hown e he
    simp only [collections, hst] at hmem
    contradiction
  refine Or.inr ⟨before, c, later, hgov, ?_⟩
  intro st rs
  constructor
  · intro e he
    have hmem := hown e he
    rw [show collections.rtlCorpus.entries = _ from hentries] at hmem
    rcases mem_leaves hmem with hspec | hdoc
    · exact Or.inl hspec
    · obtain ⟨r, hr, heq⟩ := List.mem_map.mp hdoc
      exact Or.inr ⟨r, hr, heq.symm⟩
  · intro hraised hfew p hp href
    rw [← roles_pieces c.sources (pieces unicode c.sources) st.chunkSummaries] at hp
    obtain ⟨r, hr, rfl⟩ := List.mem_map.mp hp
    have hall : collections.rtlCorpus.entries =
        specDocuments chunkText ++ c.documents unicode st.chunkSummaries := by
      refine hentries.trans ?_
      rw [BuildCall.leaves, hraised]
    exact ⟨r, hr, rfl, reference_in_prompt hall hfew spec headerAnswer hr href⟩

end Sources

end Rv32iRtl
