import Rv32iRtl.BuildHistory

/-! The knowledge base of `knowledge.py`: its entries, and what histories of builds leave of lists of
entries that are edited between the builds. -/
namespace Rv32iRtl

structure KnowledgeEntry where
  id : Text
  category : Text
  title : Text
  text : Text
  deriving DecidableEq, Repr

/-- A list of entries as it stands in the source when a build is run. -/
structure EntryList where
  entries : List KnowledgeEntry
  nonempty : entries ≠ []
  nodup : (entries.map KnowledgeEntry.id).Nodup

def KnowledgeEntry.metadata (e : KnowledgeEntry) : Metadata
  | "category" => some e.category
  | "title" => some e.title
  | _ => none

def KnowledgeEntry.document (e : KnowledgeEntry) : Text × Document := (e.id, ⟨e.text, e.metadata⟩)

def EntryList.documents (l : EntryList) : List (Text × Document) :=
  l.entries.map KnowledgeEntry.document

/-- The collection after a build; without force one that has as many documents stays as it is. -/
def buildKnowledgeBase (l : EntryList) (forceRebuild : Bool) (c : Collection Text) :
    Collection Text :=
  if forceRebuild = false ∧ l.entries.length ≤ c.entries.length then c
  else
    let c := if forceRebuild = true ∧ 0 < c.entries.length then .empty else c
    addDocuments c l.documents

structure KnowledgeBuild where
  entries : EntryList
  forceRebuild : Bool

def KnowledgeBuild.after (c : Collection Text) (b : KnowledgeBuild) : Collection Text :=
  buildKnowledgeBase b.entries b.forceRebuild c

lemma documents_nodup (l : EntryList) : (l.documents.map Prod.fst).Nodup := by
  rw [EntryList.documents, List.map_map]
  exact l.nodup

/-- The collection holds the documents of the list, each under its id, and nothing else. -/
def UpToDate (c : Collection Text) (l : EntryList) : Prop :=
  SameDocuments c ⟨l.documents, documents_nodup l⟩

lemma sameDocuments_iff {c c' : Collection Text} :
    SameDocuments c c' ↔ ∀ d, d ∈ c.entries ↔ d ∈ c'.entries := by
  constructor
  · intro h d
    rw [OrderedDict.mem_entries_iff, OrderedDict.mem_entries_iff, h d.1]
  · intro h i
    apply Option.ext
    intro v
    rw [← OrderedDict.mem_entries_iff, h, OrderedDict.mem_entries_iff]

lemma document_injective : Function.Injective KnowledgeEntry.document := by
  intro e e' h
  obtain ⟨hid, hdoc⟩ := Prod.ext_iff.mp h
  have htext : e.text = e'.text := congrArg Document.document hdoc
  have hmeta : e.metadata = e'.metadata := congrArg Document.metadata hdoc
  have hcategory : e.category = e'.category := Option.some.inj (congrFun hmeta "category")
  have htitle : e.title = e'.title := Option.some.inj (congrFun hmeta "title")
  cases e
  cases e'
  simp_all [KnowledgeEntry.document]

lemma documents_subset_iff (l l' : EntryList) :
    l.documents ⊆ l'.documents ↔ l.entries ⊆ l'.entries := by
  constructor
  · intro h e he
    obtain ⟨e', he', heq⟩ := List.mem_map.mp (h (List.mem_map_of_mem he))
    exact document_injective heq ▸ he'
  · exact List.map_subset KnowledgeEntry.document

/-- What is in a list with ids that do not repeat is all that is under its id there. -/
lemma eq_of_id {docs : List (Text × Document)} (h : (docs.map Prod.fst).Nodup)
    {d d' : Text × Document} (hd : d ∈ docs) (hd' : d' ∈ docs) (hid : d.1 = d'.1) : d = d' :=
  List.inj_on_of_nodup_map h hd hd' hid

section Build

variable {c : Collection Text} {b : KnowledgeBuild}

lemma after_forced (h : b.forceRebuild = true) : UpToDate (b.after c) b.entries := by
  have hempty : (if b.forceRebuild = true ∧ 0 < c.entries.length then .empty else c) =
      (.empty : Collection Text) := by
    split_ifs with hpos
    · rfl
    · have hzero : c.entries.length = 0 := by
        by_contra hne
        exact hpos ⟨h, Nat.pos_of_ne_zero hne⟩
      exact OrderedDict.eq_empty_iff.mp (List.length_eq_zero_iff.mp hzero)
  have hno : ¬(b.forceRebuild = false ∧ b.entries.entries.length ≤ c.entries.length) := by simp [h]
  have hnew : (addDocuments .empty b.entries.documents).entries = b.entries.documents :=
    entries_addDocuments_new (documents_nodup b.entries)
  have hafter : b.after c = addDocuments (if b.forceRebuild = true ∧ 0 < c.entries.length then .empty
      else c) b.entries.documents := if_neg hno
  rw [hafter, hempty]
  apply sameDocuments_iff.mpr
  intro d
  rw [hnew]

lemma after_skipped_build (h : b.forceRebuild = false)
    (hlen : b.entries.entries.length ≤ c.entries.length) : b.after c = c := by
  rw [KnowledgeBuild.after, buildKnowledgeBase, if_pos ⟨h, hlen⟩]

/-- An unforced build that is not skipped adds the entries with new ids. -/
lemma after_unforced (h : b.forceRebuild = false)
    (hlen : c.entries.length < b.entries.entries.length) :
    (b.after c).entries = c.entries ++ b.entries.documents.filter fun d => d.1 ∉ c.keys := by
  have hno : ¬(b.forceRebuild = false ∧ b.entries.entries.length ≤ c.entries.length) := by omega
  have hkeep : ¬(b.forceRebuild = true ∧ 0 < c.entries.length) := by simp [h]
  simp only [KnowledgeBuild.after, buildKnowledgeBase, if_neg hno, if_neg hkeep]
  exact entries_addDocuments c (documents_nodup b.entries)

/-- A collection that is skipped for its size is up to date where it holds nothing else. -/
lemma upToDate_of_subset (hlen : b.entries.entries.length ≤ c.entries.length)
    (h : c.entries ⊆ b.entries.documents) : UpToDate c b.entries := by
  have hnodup : c.entries.Nodup := List.Nodup.of_map Prod.fst c.nodup
  have hperm : c.entries.Perm b.entries.documents := by
    apply (hnodup.subperm h).perm_of_length_le
    rwa [EntryList.documents, List.length_map]
  exact sameDocuments_iff.mpr fun d => hperm.mem_iff

/-- A collection that is added to is up to date then if it held nothing else. -/
lemma upToDate_of_added (h : c.entries ⊆ b.entries.documents) {c' : Collection Text}
    (hadded : c'.entries = c.entries ++ b.entries.documents.filter fun d => d.1 ∉ c.keys) :
    UpToDate c' b.entries := by
  apply sameDocuments_iff.mpr
  intro d
  rw [hadded, List.mem_append, List.mem_filter]
  constructor
  · rintro (hold | ⟨hnew, -⟩)
    · exact h hold
    · exact hnew
  · intro hd
    by_cases hid : d.1 ∈ c.keys
    · obtain ⟨d', hd', heq⟩ := List.mem_map.mp hid
      exact Or.inl (eq_of_id (documents_nodup b.entries) (h hd') hd heq ▸ hd')
    · exact Or.inr ⟨hd, by simpa using hid⟩

/-- Without force a build brings the collection up to date if and only if all that is stored is in
the list. -/
lemma upToDate_after_iff :
    UpToDate (b.after c) b.entries ↔ b.forceRebuild = true ∨ c.entries ⊆ b.entries.documents := by
  cases hforce : b.forceRebuild with
  | true => exact iff_of_true (after_forced hforce) (Or.inl rfl)
  | false =>
    rw [or_iff_right Bool.false_ne_true]
    rcases Nat.lt_or_ge c.entries.length b.entries.entries.length with hlt | hge
    · have hadded := after_unforced hforce hlt
      refine ⟨fun h d hd => (sameDocuments_iff.mp h d).mp ?_, fun h => upToDate_of_added h hadded⟩
      rw [hadded]
      exact List.mem_append_left _ hd
    · rw [after_skipped_build hforce hge]
      exact ⟨fun h d => (sameDocuments_iff.mp h d).mp, upToDate_of_subset hge⟩

lemma subset_of_upToDate {l l' : EntryList} (h : UpToDate c l) :
    c.entries ⊆ l'.documents ↔ l.entries ⊆ l'.entries := by
  rw [← documents_subset_iff]
  have hmem := sameDocuments_iff.mp h
  exact ⟨fun hsub d hd => hsub ((hmem d).mpr hd), fun hsub d hd => hsub ((hmem d).mp hd)⟩

end Build

/-- From an empty collection the knowledge base is up to date after every build if and only if every
unforced build finds all entries of the build before: entries may be added and put in another
order, but one that is edited, renamed or removed takes a forced build. -/
theorem knowledge_up_to_date_iff (first : KnowledgeBuild) (builds : List KnowledgeBuild) :
    (∀ before b, before ++ [b] <+: first :: builds →
        UpToDate ((before ++ [b]).foldl KnowledgeBuild.after .empty) b.entries) ↔
      ∀ before b b', before ++ [b, b'] <+: first :: builds → b'.forceRebuild = false →
        b.entries.entries ⊆ b'.entries.entries := by
  have hfold : ∀ before b, (before ++ [b]).foldl KnowledgeBuild.after .empty =
      b.after (before.foldl KnowledgeBuild.after .empty) := by
    intro before b
    rw [List.foldl_append]
    rfl
  have hfront : ∀ (before : List KnowledgeBuild) b b', before ++ [b, b'] = before ++ [b] ++ [b'] := by
    intro before b b'
    rw [List.append_assoc]
    rfl
  constructor
  · intro hall before b b' hpre hforce
    rw [hfront] at hpre
    have hb := hall before b ((List.prefix_append _ _).trans hpre)
    have hb' := hall (before ++ [b]) b' hpre
    rw [hfold, upToDate_after_iff, hforce] at hb'
    exact (subset_of_upToDate hb).mp (hb'.resolve_left Bool.false_ne_true)
  · intro hpairs before
    induction before using List.reverseRecOn with
    | nil =>
      intro b _
      rw [hfold, upToDate_after_iff]
      exact Or.inr (List.nil_subset _)
    | append_singleton before b ih =>
      intro b' hpre
      have hb := ih b ((List.prefix_append _ _).trans hpre)
      rw [hfold, upToDate_after_iff]
      cases hforce : b'.forceRebuild with
      | true => exact Or.inl rfl
      | false =>
        rw [← hfront] at hpre
        exact Or.inr ((subset_of_upToDate hb).mpr (hpairs before b b' hpre hforce))

end Rv32iRtl
