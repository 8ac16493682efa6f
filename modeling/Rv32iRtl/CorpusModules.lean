import Rv32iRtl.ModuleNames

/-! The chunks of a source, and the names recorded for them, are its declared modules exactly when
no text pattern is misled. -/
namespace Rv32iRtl

open Backtrack Backtrack.Regex

variable (unicode : Char → Bool)

/-- No word `module` starts in `g` with a word `endmodule` behind it. -/
def SpanFree (p : Option Char) (g t : Text) : Prop :=
  ∀ u v, g = u ++ v → v ≠ [] → WordAt (isWord unicode) "module".toList (u.getLast?.or p) (v ++ t) →
    ¬StartsIn (isWord unicode) "endmodule".toList (some 'e') ((v ++ t).drop 6) []

namespace Source

/-- No declaration. -/
def Flat : Source → Prop
  | done | lastComment _ _ => True
  | lexeme _ rest => rest.Flat
  | declaration _ _ _ _ _ => False

def ChunksRead : Option Char → Source → Prop
  | _, done => True
  | p, lastComment t _ => SpanFree unicode p ("//".toList ++ t) []
  | p, lexeme l rest =>
    SpanFree unicode p l.text rest.text ∧ rest.ChunksRead (l.text.getLast?.or p)
  | p, declaration keyword head inside label rest =>
    keyword = .module ∧ inside.Flat ∧ Closed unicode (head.text ++ inside.text) label rest.text ∧
      rest.ChunksRead ((chunk keyword head inside label).getLast?.or p)

def NamesRead (stem : Text) : Source → Prop
  | done | lastComment _ _ => True
  | lexeme _ rest => rest.NamesRead stem
  | declaration _ head inside label rest =>
    NameRead unicode stem head (inside.text ++ ("endmodule".toList ++ labelText label)) ∧
      rest.NamesRead stem

/-- The chunks are the declarations, at their places, and are recorded under their names. -/
structure Exact (repoName relPath : String) (s : Source) : Prop where
  chunks : ((moduleRe unicode).findAll s.text).map (fun m => (m.place, m.text)) =
    (s.declared []).map fun d => (d.place, d.text)
  names : s.declared [] ≠ [] →
    (filePieces unicode repoName relPath s.text).map (fun p => (p.text, p.metadata "module_name")) =
      (s.declared []).map fun d => (d.text, some d.name)

variable {unicode}

lemma text_declaration (keyword : ModuleKeyword) (head : ModuleHead) (inside : Source)
    (label : Option Label) (rest : Source) : (declaration keyword head inside label rest).text =
      chunk keyword head inside label ++ rest.text := by
  simp only [text, chunk, List.append_assoc]

lemma flat_iff (s : Source) (t : Text) : s.Flat ↔ s.declared t = [] := by
  induction s generalizing t with
  | done | lastComment => exact iff_of_true trivial rfl
  | lexeme l rest ih => exact ih t
  | declaration => exact iff_of_false id (List.cons_ne_nil _ _)

lemma place_le {s : Source} {t : Text} : ∀ d ∈ s.declared t, d.place.length ≤ (s.text ++ t).length := by
  induction s generalizing t with
  | done | lastComment => exact fun d hd => absurd hd List.not_mem_nil
  | lexeme l rest ih =>
    intro d hd
    have hle := ih d hd
    rw [text, List.append_assoc, List.length_append]
    omega
  | declaration keyword head inside label rest ihi ihr =>
    intro d hd
    rcases List.mem_cons.mp hd with rfl | hd
    · simp [text, chunk]
    · simp only [text, List.length_append]
      rcases List.mem_append.mp hd with hd | hd
      · have hle := ihi d hd
        simp only [List.length_append] at hle
        omega
      · have hle := ihr d hd
        simp only [List.length_append] at hle
        omega

lemma lt_place {s : Source} {t : Text} : ∀ d ∈ s.declared t, t.length < d.place.length := by
  induction s generalizing t with
  | done | lastComment => exact fun d hd => absurd hd List.not_mem_nil
  | lexeme l rest ih => exact fun d hd => ih d hd
  | declaration keyword head inside label rest ihi ihr =>
    intro d hd
    rcases List.mem_cons.mp hd with rfl | hd
    · simp [chunk]
      omega
    · rcases List.mem_append.mp hd with hd | hd
      · have hlt := ihi d hd
        simp only [List.length_append] at hlt
        omega
      · exact ihr d hd

end Source

section Chunks

variable {unicode}

lemma silent_iff (p : Option Char) (g t : Text) :
    (moduleRe unicode).Silent p g t ↔ SpanFree unicode p g t := by
  rw [moduleRe_eq]
  refine forall₄_congr fun u v _ _ => ?_
  exact hits_span_eq_nil_iff isWord_module isWord_endmodule labelRe_ne_nil

/-- The other keyword starts no chunk. -/
lemma macromodule_unread {p : Option Char} {cs t x : Text} {ds : List (Text × Text)}
    (ht : cs = "macromodule".toList ++ t) :
    ((moduleRe unicode).scan p 0 cs).map (fun m => (m.place, m.text)) ≠ (cs, x) :: ds := by
  intro h
  have hmem : (cs, x) ∈ ((moduleRe unicode).scan p 0 cs).map fun m => (m.place, m.text) := by
    rw [h]
    exact List.mem_cons_self
  obtain ⟨m, hm, heq⟩ := List.mem_map.mp hmem
  have hplace : m.place = cs := (Prod.mk.inj heq).1
  have hne : cs ≠ [] := by
    rw [ht]
    exact List.append_ne_nil_of_left_ne_nil (by simp) _
  have hnil : (moduleRe unicode).hits p cs = [] := by
    rw [moduleRe_eq]
    refine hits_span_nil isWord_module isWord_endmodule fun hat => ?_
    obtain ⟨v, hv⟩ := hat.here
    rw [ht] at hv
    have hsecond : 'o' = 'a' := (List.cons.inj (List.cons.inj hv).2).1
    contradiction
  rcases scan_head (r := moduleRe unicode) p hne with hlater | ⟨m', later, hhead, -⟩
  · have hlt := hlater m hm
    rw [hplace] at hlt
    exact lt_irrefl _ hlt
  · rw [hnil] at hhead
    contradiction

lemma moduleRe_scan_nil (p : Option Char) : (moduleRe unicode).scan p 0 [] = [] := by
  have hnil : (moduleRe unicode).hits p [] = [] := by
    rw [moduleRe_eq]
    refine hits_span_nil isWord_module isWord_endmodule fun hat => ?_
    have hpre := hat.here
    simp at hpre
  rw [scan, hnil]
  rfl

/-- Between the declarations there are no chunks. -/
lemma gap_iff {p : Option Char} {g t : Text} {ds : List Source.Declared}
    (hds : ∀ d ∈ ds, d.place.length ≤ t.length) :
    ((moduleRe unicode).scan p 0 (g ++ t)).map (fun m => (m.place, m.text)) =
        ds.map (fun d => (d.place, d.text)) ↔
      SpanFree unicode p g t ∧
        ((moduleRe unicode).scan (g.getLast?.or p) 0 t).map (fun m => (m.place, m.text)) =
          ds.map fun d => (d.place, d.text) := by
  rw [← silent_iff]
  constructor
  · intro h
    have hsilent : (moduleRe unicode).Silent p g t := by
      by_contra hs
      obtain ⟨m, hm, hlong⟩ := exists_of_not_silent hs
      have hmem := List.mem_map_of_mem (f := fun m => (m.place, m.text)) hm
      rw [h] at hmem
      obtain ⟨d, hd, heq⟩ := List.mem_map.mp hmem
      have hle := hds d hd
      rw [(Prod.mk.inj heq).1] at hle
      omega
    rw [scan_silent hsilent] at h
    exact ⟨hsilent, h⟩
  · rintro ⟨hsilent, h⟩
    rw [scan_silent hsilent]
    exact h

namespace Source

/-- What is scanned behind a declaration has no chunk from inside it. -/
lemma flat_of_scan {inside : Source} {p : Option Char} {cs t : Text} {ds : List Declared}
    (hlen : cs.length ≤ t.length)
    (h : ((moduleRe unicode).scan p 0 cs).map (fun m => (m.place, m.text)) =
      (inside.declared t ++ ds).map fun d => (d.place, d.text)) : inside.Flat := by
  rw [flat_iff]
  by_contra hne
  obtain ⟨d, hd⟩ := List.exists_mem_of_ne_nil _ hne
  have hmem := List.mem_map_of_mem (f := fun d : Declared => (d.place, d.text))
    (List.mem_append_left ds hd)
  rw [← h] at hmem
  obtain ⟨m, hm, heq⟩ := List.mem_map.mp hmem
  have hle := (mem_scan hm).1.length_le
  rw [(Prod.mk.inj heq).1, List.drop_zero] at hle
  have hlt := lt_place d hd
  omega

/-- The chunks of a text that starts with a declaration. -/
lemma declaration_iff (hu : ∀ c, isSpace c = true → unicode c = false) {head : ModuleHead}
    {inside rest : Source} {label : Option Label} {p : Option Char}
    (hs : (declaration .module head inside label rest).Lexed []) (hp : p.any isWordLike = false) :
    ((moduleRe unicode).scan p 0 (declaration .module head inside label rest).text).map
          (fun m => (m.place, m.text)) =
        ((declaration .module head inside label rest).declared []).map (fun d => (d.place, d.text)) ↔
      inside.Flat ∧ Closed unicode (head.text ++ inside.text) label rest.text ∧
        ((moduleRe unicode).scan ((chunk .module head inside label).getLast?.or p) 0 rest.text).map
            (fun m => (m.place, m.text)) = (rest.declared []).map fun d => (d.place, d.text) := by
  have hapart := apart hs (by simp)
  obtain ⟨-, -, hlabel, -⟩ := hs
  rw [List.append_nil] at hapart hlabel
  obtain ⟨m, hm, hclosed⟩ := chunk_read_iff hu hlabel (any_isWord hp) hapart
  have hread : ((moduleRe unicode).hits p (declaration .module head inside label rest).text).head? =
    some m := hm
  have hne : m.text ≠ [] := by
    have hconsumes : (moduleRe unicode).Consumes := Or.inr (Or.inl (consumes_lit (by simp)))
    exact text_ne_nil hconsumes (List.mem_of_head? hm)
  have hsplit : (declaration .module head inside label rest).text = m.text ++ m.rest :=
    hits_split (List.mem_of_head? hread)
  rw [text_declaration] at hsplit
  rw [scan_eq_cons hread hne, declared, List.map_cons, List.map_cons, List.cons.injEq,
    Prod.mk.injEq, ← hclosed, List.append_nil]
  change (_ ∧ m.text = chunk .module head inside label) ∧ _ ↔
    _ ∧ m.text = chunk .module head inside label ∧ _
  constructor
  · rintro ⟨⟨-, htext⟩, hlater⟩
    rw [htext] at hsplit
    rw [htext, ← List.append_cancel_left hsplit] at hlater
    have hflat := flat_of_scan (by simp; omega) hlater
    rw [(flat_iff inside _).mp hflat, List.nil_append] at hlater
    exact ⟨hflat, htext, hlater⟩
  · rintro ⟨hflat, htext, hlater⟩
    rw [htext] at hsplit
    rw [Hit.place, htext, ← List.append_cancel_left hsplit, (flat_iff inside _).mp hflat,
      List.nil_append]
    exact ⟨⟨rfl, rfl⟩, hlater⟩

/-- The chunks of a source are its declarations, at their places. -/
lemma chunks_iff (hu : ∀ c, isSpace c = true → unicode c = false) {s : Source} {p : Option Char}
    (hs : s.Lexed []) (hp : s.text.head?.any isIdentifierChar = true → p.any isWordLike = false) :
    ((moduleRe unicode).scan p 0 s.text).map (fun m => (m.place, m.text)) =
        (s.declared []).map (fun d => (d.place, d.text)) ↔ s.ChunksRead unicode p := by
  induction s generalizing p with
  | done =>
    rw [text, moduleRe_scan_nil]
    exact iff_of_true rfl trivial
  | lastComment t ht =>
    have hgap := @gap_iff unicode p ("//".toList ++ t) [] [] (by simp)
    rw [List.append_nil, moduleRe_scan_nil] at hgap
    exact hgap.trans (and_iff_left rfl)
  | lexeme l rest ih =>
    obtain ⟨hl, -, hrest⟩ := hs
    have hle : ∀ d ∈ rest.declared [], d.place.length ≤ rest.text.length := by
      intro d hd
      have hle := place_le d hd
      rwa [List.append_nil] at hle
    apply (gap_iff hle).trans
    refine and_congr_right fun _ => ih hrest fun hhead => ?_
    rw [List.append_nil] at hl
    have hlast := Lexeme.last_apart hl hhead
    rwa [getLast?_or_of_ne_nil l.text_ne_nil]
  | declaration keyword head inside label rest _ ih =>
    cases keyword with
    | macromodule =>
      refine iff_of_false (fun h => ?_) fun h => ModuleKeyword.noConfusion h.1
      rw [declared, List.map_cons, List.append_nil, ← text_declaration] at h
      exact macromodule_unread rfl h
    | module =>
      obtain ⟨-, -, hlabel, hrest⟩ := id hs
      have hnext : rest.text.head?.any isIdentifierChar = true →
          ((chunk .module head inside label).getLast?.or p).any isWordLike = false := by
        intro hhead
        rw [List.append_nil] at hlabel
        rw [head_apart_of_labelEnds hlabel] at hhead
        contradiction
      rw [declaration_iff hu hs (hp rfl), ih hrest hnext, ChunksRead, eq_self, true_and]

end Source

end Chunks

section Names

variable {unicode}

lemma ModuleName.ends_congr {n : ModuleName} {t t' : Text} (h : t.head? = t'.head?) :
    n.Ends t ↔ n.Ends t' := by
  cases n <;> rw [Ends, Ends, h]

lemma filePieces_chunks {repoName relPath : String} {text : Text} (h : extractModules unicode text ≠ []) :
    (filePieces unicode repoName relPath text).map (fun p => (p.text, p.metadata "module_name")) =
      (extractModules unicode text).map fun c =>
        (c, some (recordedName unicode (fileStem relPath) c)) := by
  obtain ⟨c, cs, hchunks⟩ := List.exists_cons_of_ne_nil h
  have hfst : ((c :: cs).zipIdx 0).map Prod.fst = c :: cs := List.zipIdx_map_fst 0 (c :: cs)
  rw [filePieces, hchunks]
  refine Eq.trans ?_ (congrArg (List.map fun c =>
    (c, some (recordedName unicode (fileStem relPath) c))) hfst)
  rw [List.map_map, List.map_map]
  exact List.map_congr_left fun p _ => rfl

/-- Of chunks that are the declarations, the names are recorded one by one. -/
lemma Source.pieces_iff {s : Source} {repoName relPath : String} (hne : s.declared [] ≠ [])
    (h : ((moduleRe unicode).findAll s.text).map (fun m => (m.place, m.text)) =
      (s.declared []).map fun d => (d.place, d.text)) :
    (filePieces unicode repoName relPath s.text).map (fun p => (p.text, p.metadata "module_name")) =
        (s.declared []).map (fun d => (d.text, some d.name)) ↔
      ∀ d ∈ s.declared [], recordedName unicode (fileStem relPath) d.text = d.name := by
  have htexts : extractModules unicode s.text = (s.declared []).map Declared.text := by
    have hsnd := congrArg (List.map Prod.snd) h
    rw [List.map_map, List.map_map] at hsnd
    exact hsnd
  have hsome : extractModules unicode s.text ≠ [] := by
    rw [htexts]
    exact fun hnil => hne (List.map_eq_nil_iff.mp hnil)
  rw [filePieces_chunks hsome, htexts, List.map_map, List.map_inj_left]
  refine forall₂_congr fun d _ => ?_
  rw [Function.comp_apply, Prod.mk.injEq, Option.some.injEq, eq_self, true_and]

lemma Source.names_iff (hu : ∀ c, isSpace c = true → unicode c = false) {s : Source} {stem : Text}
    {p : Option Char} (hs : s.Lexed []) (hread : s.ChunksRead unicode p) :
    (∀ d ∈ s.declared [], recordedName unicode stem d.text = d.name) ↔ s.NamesRead unicode stem := by
  induction s generalizing p with
  | done | lastComment => exact iff_of_true (by simp [declared]) trivial
  | lexeme l rest ih => exact ih hs.2.2 hread.2
  | declaration keyword head inside label rest _ ih =>
    obtain ⟨hname, -, -, hrest⟩ := hs
    obtain ⟨rfl, hflat, -, hlater⟩ := hread
    have hends : head.name.Ends (inside.text ++ ("endmodule".toList ++ labelText label)) := by
      refine (ModuleName.ends_congr ?_).mp hname
      simp only [List.head?_append]
      rfl
    have hchunk : chunk .module head inside label = "module".toList ++
        (head.text ++ (inside.text ++ ("endmodule".toList ++ labelText label))) := by
      rw [chunk, List.append_assoc]
      rfl
    have hascii := inside.head_ascii (t := "endmodule".toList ++ labelText label) (by
      intro c hc
      obtain rfl : 'e' = c := Option.some.inj hc
      decide)
    have hfirst := @name_read_iff unicode stem _ _ hu hends hascii
    rw [declared, (flat_iff inside _).mp hflat, List.nil_append, List.forall_mem_cons, hchunk, hfirst,
      ih hrest hlater]
    rfl

end Names

/-- The text of a file. -/
structure SourceFile where
  source : Source
  lexed : source.Lexed []

/-- The chunks that a file gives to the corpus are its declared modules under their names exactly
if none of the patterns is misled. -/
theorem corpus_chunks_exact_iff (hu : ∀ c, isSpace c = true → unicode c = false)
    (repoName relPath : String) (file : SourceFile) :
    file.source.Exact unicode repoName relPath ↔
      file.source.ChunksRead unicode none ∧ file.source.NamesRead unicode (fileStem relPath) := by
  have hchunks := Source.chunks_iff hu (p := none) file.lexed fun _ => rfl
  constructor
  · intro h
    have hread := hchunks.mp h.chunks
    refine ⟨hread, (Source.names_iff hu file.lexed hread).mp ?_⟩
    by_cases hne : file.source.declared [] = []
    · rw [hne]
      exact fun d hd => absurd hd List.not_mem_nil
    · exact (Source.pieces_iff hne h.chunks).mp (h.names hne)
  · rintro ⟨hread, hnamed⟩
    have hplaces := hchunks.mpr hread
    refine ⟨hplaces, fun hne => (Source.pieces_iff hne hplaces).mpr ?_⟩
    exact (Source.names_iff hu file.lexed hread).mpr hnamed

/-- An empty module behind a line comment. -/
def commented (t : Text) (h : '\n' ∉ t) : SourceFile where
  source := .lexeme (.comment (.line t h)) (.declaration .module
    ⟨aBlank, none, .simple moduleAlu.name (by decide), by simp [aBlank], by simp⟩
    (.lexeme (.symbol ';' rfl) .done) none .done)
  lexed := by
    refine ⟨trivial, by simp [Comment.text], rfl, ⟨fun hc => ?_, by decide, trivial⟩,
      ⟨rfl, fun g u hgap => ?_⟩, trivial⟩
    · contradiction
    · exact absurd hgap.symm (by simp [Source.text])

/-- A comment that does not mention the keywords. -/
theorem corpus_chunks_exact_plain :
    (commented " the unit".toList (by simp)).source.Exact (fun _ => false) "ibex" "rtl/alu.sv" ∧
      (commented " the unit".toList (by simp)).source.ChunksRead (fun _ => false) none ∧
      (commented " the unit".toList (by simp)).source.NamesRead (fun _ => false)
        (fileStem "rtl/alu.sv") := by
  have hexact : (commented " the unit".toList (by simp)).source.Exact (fun _ => false) "ibex"
      "rtl/alu.sv" := by
    constructor
    · decide +kernel
    · intro _
      decide +kernel
  exact ⟨hexact, (corpus_chunks_exact_iff _ (fun _ _ => rfl) _ _ _).mp hexact⟩

/-- The chunk of a module starts at a comment that mentions one. -/
theorem corpus_chunks_exact_fails : ¬∀ file : SourceFile,
    file.source.Exact (fun _ => false) "ibex" "rtl/alu.sv" := by
  intro h
  have hplaces := (h (commented " the module of the unit".toList (by simp))).chunks
  revert hplaces
  decide +kernel

end Rv32iRtl
