import Rv32iRtl.InOrder
import Rv32iRtl.ModuleChunks

/-! The names that are recorded for chunks. -/
namespace Rv32iRtl

open Backtrack Backtrack.Regex

variable (unicode : Char → Bool)

/-- The name that is recorded for a chunk of a file with this stem. -/
def recordedName (stem text : Text) : Text :=
  match (moduleNameRe unicode).search text with
  | some m => (m.group 1).getD []
  | none => stem

/-- The text starts with `module`, white space and the word `w`. -/
structure NamedAt (p : Option Char) (t w : Text) : Prop where
  before : p.any (isWord unicode) = false
  ne_nil : w ≠ []
  word : ∀ c ∈ w, isWord unicode c = true
  split : ∃ sp v, t = "module".toList ++ (sp ++ (w ++ v)) ∧ sp ≠ [] ∧
    (∀ c ∈ sp, isSpace c = true) ∧ ∀ c ∈ v.head?, isWord unicode c = false

/-- The first word of that kind in the text, or the name of the file when there is none. -/
def FirstNamed (stem t w : Text) : Prop :=
  (∃ u v, t = u ++ v ∧ NamedAt unicode u.getLast? v w ∧
    ∀ u' v', t = u' ++ v' → u'.length < u.length → ∀ w', ¬NamedAt unicode u'.getLast? v' w') ∨
  (w = stem ∧ ∀ u v w', t = u ++ v → ¬NamedAt unicode u.getLast? v w')

/-- The first word behind the keyword, when only white space is between them, is the whole name.
Otherwise what is recorded comes from a later place, or from the name of the file. -/
structure NameRead (stem : Text) (head : ModuleHead) (behind : Text) : Prop where
  word : head.afterKeyword.Blank → head.lifetime = none → ¬head.name.Escaped → '$' ∉ head.name.name
  lifetime : head.afterKeyword.Blank → ∀ l ∈ head.lifetime, l.1.text = head.name.name
  other : (head.afterKeyword.Blank → head.lifetime = none ∧ head.name.Escaped) →
    FirstNamed unicode stem (head.text ++ behind) head.name.name

section Search

variable {unicode} {p : Option Char} {stem t w : Text}

lemma NamedAt.read (hu : ∀ c, isSpace c = true → unicode c = false) (h : NamedAt unicode p t w) :
    ∃ m, ((moduleNameRe unicode).hits p t).head? = some m ∧ m.group 1 = some w := by
  obtain ⟨sp, v, rfl, hne, hsp, hv⟩ := h.split
  have hp : ∀ c ∈ p, isWord unicode c = false := by
    rintro c rfl
    exact h.before
  have hword : ∀ c ∈ (w ++ v).head?, isSpace c = false := by
    obtain ⟨d, w, rfl⟩ := List.exists_cons_of_ne_nil h.ne_nil
    intro c hc
    obtain rfl : d = c := Option.some.inj hc
    by_contra hspace
    have hd := h.word d List.mem_cons_self
    rw [isWord_of_isSpace hu (Bool.not_eq_false _ ▸ hspace)] at hd
    contradiction
  have hspaces : ∀ q, ∀ c ∈ sp, ∀ t, (nameRe unicode 1).hits q (c :: t) = [] := by
    refine fun q c hc t => nameRe_nil fun d hd => ?_
    obtain rfl : c = d := Option.some.inj hd
    exact isWord_of_isSpace hu (hsp c hc)
  rw [moduleNameRe_keyword hp, hits_plus_seq hne hsp hword hspaces, List.head?_map, List.head?_map,
    nameRe_head h.ne_nil h.word hv]
  exact ⟨_, rfl, rfl⟩

lemma namedAt_of_mem {m : Hit Char} (hm : m ∈ (moduleNameRe unicode).hits p t) :
    ∃ w, NamedAt unicode p t w := by
  obtain ⟨h1, hm1, h2, hm2, -⟩ := mem_seq hm
  obtain rfl := eq_nothing hm1
  obtain ⟨h3, hm3, h4, hm4, -⟩ := mem_seq hm2
  have ht : t = "module".toList ++ h3.rest := (mem_lit hm3).1
  obtain ⟨h5, hm5, h6, hm6, -⟩ := mem_seq hm4
  obtain ⟨h7, hm7, rfl⟩ := List.mem_map.mp hm6
  have hsplit := hits_split hm5
  have hword := hits_split hm7
  have hconsumes : ∀ P : Char → Bool, (plus P).Consumes := fun _ => Or.inl trivial
  refine ⟨h7.text ++ h7.rest.takeWhile (isWord unicode), ?_, ?_, ?_, h5.text,
    h7.rest.dropWhile (isWord unicode), ?_, ?_, mem_plus hm5, ?_⟩
  · rw [hits] at hm1
    split_ifs at hm1 with hsame
    · contradiction
    · rw [ht] at hsame
      exact Bool.not_eq_true _ ▸ hsame
  · exact List.append_ne_nil_of_left_ne_nil (text_ne_nil (hconsumes _) hm7) _
  · intro c hc
    exact (List.mem_append.mp hc).elim (mem_plus hm7 c) List.mem_takeWhile_imp
  · rw [ht, List.append_assoc, List.takeWhile_append_dropWhile, ← hword, ← hsplit]
  · exact text_ne_nil (hconsumes _) hm5
  · intro c hc
    have hdrop := List.head?_dropWhile_not (isWord unicode) h7.rest
    rw [hc] at hdrop
    exact hdrop

lemma FirstNamed.recorded (hu : ∀ c, isSpace c = true → unicode c = false)
    (h : FirstNamed unicode stem t w) : recordedName unicode stem t = w := by
  rcases h with ⟨u, v, rfl, hat, hfirst⟩ | ⟨rfl, hnone⟩
  · obtain ⟨m, hm, hgroup⟩ := hat.read hu
    have hne : v ≠ [] := by
      obtain ⟨sp, v, rfl, -⟩ := hat.split
      exact List.append_ne_nil_of_left_ne_nil (by simp) _
    have hsearch : (moduleNameRe unicode).search (u ++ v) = some m := by
      refine ((search_place hne).mpr ⟨fun u' v' huv hv => ?_, hm⟩).1
      by_contra hhits
      obtain ⟨m', hm'⟩ := List.exists_mem_of_ne_nil _ hhits
      obtain ⟨w', hw'⟩ := namedAt_of_mem hm'
      refine hfirst u' (v' ++ v) (by rw [huv, List.append_assoc]) ?_ w' hw'
      have hpos := List.length_pos_iff.mpr hv
      rw [huv, List.length_append]
      omega
    rw [recordedName, hsearch]
    exact congrArg (Option.getD · []) hgroup
  · have hfind : (moduleNameRe unicode).findAll t = [] := by
      refine scan_eq_nil_iff.mpr fun u v huv => ?_
      by_contra hhits
      obtain ⟨m, hm⟩ := List.exists_mem_of_ne_nil _ hhits
      obtain ⟨w', hw'⟩ := namedAt_of_mem hm
      rw [Option.or_none] at hw'
      exact hnone u v w' huv hw'
    rw [recordedName, search, hfind]
    rfl

lemma exists_firstNamed (stem t : Text) : ∃ w, FirstNamed unicode stem t w := by
  by_cases h : ∃ n u v w, t = u ++ v ∧ u.length = n ∧ NamedAt unicode u.getLast? v w
  · classical
    obtain ⟨u, v, w, htext, hlen, hat⟩ := Nat.find_spec h
    refine ⟨w, Or.inl ⟨u, v, htext, hat, fun u' v' htext' hlt w' hat' => ?_⟩⟩
    rw [hlen] at hlt
    exact Nat.find_min h hlt ⟨u', v', w', htext', rfl, hat'⟩
  · exact ⟨stem, Or.inr ⟨rfl, fun u v w htext hat => h ⟨_, u, v, w, htext, rfl, hat⟩⟩⟩

lemma recordedName_iff (hu : ∀ c, isSpace c = true → unicode c = false) :
    recordedName unicode stem t = w ↔ FirstNamed unicode stem t w := by
  refine ⟨fun h => ?_, FirstNamed.recorded hu⟩
  obtain ⟨w', hw'⟩ := @exists_firstNamed unicode stem t
  obtain rfl := (hw'.recorded hu).symm.trans h
  exact hw'

end Search

section Keyword

variable {unicode} {stem : Text} {head : ModuleHead} {behind : Text}

lemma Gap.eq_nil_of_text {g : Gap} (h : g.text = []) : g = [] := by
  cases g with
  | nil => rfl
  | cons x g =>
    obtain ⟨hx, -⟩ := List.append_eq_nil_iff.mp (List.flatMap_cons.symm.trans h)
    rcases x.text_blank with ⟨c, -, hc, -⟩ | ⟨-, u, hu⟩
    · exact absurd (hc.symm.trans hx) (List.cons_ne_nil _ _)
    · exact absurd (hu.symm.trans hx) (List.cons_ne_nil _ _)

lemma lifetime_chars : ∀ w ∈ ["static".toList, "automatic".toList],
    ∀ c ∈ w, isIdentifierChar c = true := by
  simp [isIdentifierChar]

lemma Lifetime.isWord (l : Lifetime) : IsWord (isWord unicode) l.text := by
  have hdollar : '$' ∉ l.text := by cases l <;> decide
  have hmem : l.text ∈ ["static".toList, "automatic".toList] := by
    cases l with
    | static => exact List.mem_cons_self
    | automatic => exact List.mem_cons_of_mem _ List.mem_cons_self
  refine ⟨by cases l <;> exact List.cons_ne_nil _ _, fun c hc => ?_⟩
  exact (isWord_of_isIdentifierChar (lifetime_chars _ hmem c hc)).mpr fun h => hdollar (h ▸ hc)

lemma space_name_nil {w t : Text} (hw : ∀ c ∈ w, isBlank c = true)
    (ht : ∀ c ∈ t.head?, isSpace c = false ∧ isWord unicode c = false) (p : Option Char) :
    (seq (plus isSpace) (nameRe unicode 1)).hits p (w ++ t) = [] := by
  rcases eq_or_ne w [] with rfl | hne
  · exact hits_seq_nil (hits_plus_nil fun c hc => (ht c hc).1)
  · rw [hits_plus_seq hne (fun c hc => isSpace_of_isBlank (hw c hc)) (fun c hc => (ht c hc).1)
      fun q c hc v => nameRe_solid.blank (hw c hc) q v, nameRe_nil fun c hc => (ht c hc).2]
    rfl

lemma recordedName_word {g : Gap} (hg : g.Blank) {w t : Text} (hstarts : Starts (w ++ t))
    (hne : w ≠ []) (hw : ∀ c ∈ w, isWord unicode c = true)
    (ht : ∀ c ∈ t.head?, isWord unicode c = false) :
    recordedName unicode stem ("module".toList ++ (g.text ++ (w ++ t))) = w := by
  have hhits := @moduleNameRe_keyword unicode none (by simp) (g.text ++ (w ++ t))
  have hhead : ((moduleNameRe unicode).hits none ("module".toList ++ (g.text ++ (w ++ t)))).head? =
      some ⟨"module".toList ++ (g.text ++ w), [(1, w)], t⟩ := by
    rw [hhits, hits_gap_blank nameRe_solid hg hstarts, List.head?_map, List.head?_map,
      nameRe_head hne hw ht]
    rfl
  have hsearch : (moduleNameRe unicode).search ("module".toList ++ (g.text ++ (w ++ t))) = _ :=
    congrArg List.head? (scan_eq_cons hhead (by simp))
  rw [recordedName, hsearch]
  rfl

lemma recordedName_behind {t : Text} (hnil : (seq (plus isSpace) (nameRe unicode 1)).hits none t = [])
    (ht : t.head?.any isWordLike = false) :
    recordedName unicode stem ("module".toList ++ t) = recordedName unicode stem t := by
  have hsilent : (moduleNameRe unicode).Silent none ('m' :: "odule".toList) t := by
    have hfront := @moduleNameRe_keyword unicode none (by simp) t
    rw [hnil, List.map_nil] at hfront
    refine silent_cons.mpr ⟨hfront, fun u v huv hv => moduleNameRe_nil fun hpre => ?_⟩
    obtain ⟨c, v, rfl⟩ := List.exists_cons_of_ne_nil hv
    have hc : c ∈ "odule".toList := by
      rw [huv]
      exact List.mem_append_right u List.mem_cons_self
    obtain ⟨hm, -⟩ : 'm' = c ∧ "odule".toList <+: v ++ t := List.cons_prefix_cons.mp hpre
    rw [← hm] at hc
    revert hc
    decide
  have hstart : ∀ q, (moduleNameRe unicode).hits q t = [] := by
    refine fun q => moduleNameRe_nil fun hpre => ?_
    obtain ⟨v, rfl⟩ := hpre
    contradiction
  have hscan : (moduleNameRe unicode).scan none 0 ("module".toList ++ t) =
      (moduleNameRe unicode).scan none 0 t := by
    apply (scan_silent hsilent).trans
    cases t with
    | nil => rw [scan, scan, hstart, hstart]
    | cons c t => rw [scan, scan, hstart, hstart]
  have hsearch : (moduleNameRe unicode).search ("module".toList ++ t) =
      (moduleNameRe unicode).search t := congrArg List.head? hscan
  rw [recordedName, hsearch, recordedName]

lemma nameRead_other (h : head.afterKeyword.Blank → head.lifetime = none ∧ head.name.Escaped) :
    NameRead unicode stem head behind ↔
      FirstNamed unicode stem (head.text ++ behind) head.name.name := by
  refine ⟨fun hread => hread.other h, fun heq => ⟨fun hb _ hn => absurd (h hb).2 hn, ?_, fun _ => heq⟩⟩
  intro hb l hl
  rw [(h hb).1] at hl
  exact absurd hl (Option.not_mem_none l)

lemma nameRead_lifetime {l : Lifetime × Gap} (hblank : head.afterKeyword.Blank)
    (hl : head.lifetime = some l) :
    NameRead unicode stem head behind ↔ l.1.text = head.name.name := by
  refine ⟨fun hread => hread.lifetime hblank l hl, fun heq => ⟨fun _ hnone => ?_, ?_, fun h => ?_⟩⟩
  · rw [hl] at hnone
    exact absurd hnone (Option.some_ne_none l)
  · intro _ l' hl'
    rw [← Option.some.inj (hl.symm.trans hl')]
    exact heq
  · have hnone := (h hblank).1
    rw [hl] at hnone
    exact absurd hnone (Option.some_ne_none l)

lemma nameRead_word (hblank : head.afterKeyword.Blank) (hl : head.lifetime = none)
    (hname : ¬head.name.Escaped) :
    NameRead unicode stem head behind ↔ '$' ∉ head.name.name := by
  refine ⟨fun hread => hread.word hblank hl hname, fun hd => ⟨fun _ _ _ => hd, ?_, fun h => ?_⟩⟩
  · intro _ l hl'
    rw [hl] at hl'
    exact absurd hl' (Option.not_mem_none l)
  · exact absurd (h hblank).2 hname

/-- Behind a gap that is more than blanks, or before an escaped name, no word is read. -/
lemma head_name_nil (h : head.afterKeyword.Blank → head.lifetime = none ∧ head.name.Escaped) :
    (seq (plus isSpace) (nameRe unicode 1)).hits none (head.text ++ behind) = [] := by
  obtain ⟨w, hw, ⟨hgap, hblank⟩ | ⟨-, u, hgap⟩⟩ := head.afterKeyword.text_cases
  · have hescaped : head.lifetime = none ∧ head.name.Escaped := by
      by_cases hne : w = []
      · exact head.keyword_apart (Gap.eq_nil_of_text (hgap.trans hne))
      · exact h (hblank.mpr hne)
    obtain ⟨t, ht, hname⟩ := ModuleName.eq_escaped hescaped.2
    rw [ModuleHead.text, ModuleHead.lifetimeText, hescaped.1, hgap, hname, List.append_assoc]
    refine space_name_nil hw (fun c hc => ?_) none
    obtain rfl : '\x5c' = c := Option.some.inj hc
    exact ⟨rfl, rfl⟩
  · rw [ModuleHead.text, hgap, List.append_assoc, List.append_assoc]
    refine space_name_nil hw (fun c hc => ?_) none
    obtain rfl : '/' = c := Option.some.inj hc
    exact ⟨rfl, rfl⟩

/-- Behind a lifetime no word goes on. -/
lemma ModuleHead.lifetime_behind {l : Lifetime × Gap} (hl : head.lifetime = some l) (t : Text) :
    ∀ c ∈ (l.2.text ++ (head.name.text ++ t)).head?, isWord unicode c = false := by
  refine isWord_of_head (Gap.head_apart fun hgap => ?_)
  have hescaped : head.name.Escaped := by
    apply head.lifetime_apart l.1
    rw [hl, ← hgap]
  obtain ⟨u, hu, hname⟩ := ModuleName.eq_escaped hescaped
  rw [hname]
  rfl

lemma name_read_iff (hu : ∀ c, isSpace c = true → unicode c = false)
    (hbehind : head.name.Ends behind) (hascii : ∀ c ∈ behind.head?, c.toNat < 128) :
    recordedName unicode stem ("module".toList ++ (head.text ++ behind)) = head.name.name ↔
      NameRead unicode stem head behind := by
  have hhead : (head.text ++ behind).head?.any isWordLike = false := by
    rw [List.head?_append_of_ne_nil _ head.text_ne_nil]
    exact head.head_apart
  by_cases hother : head.afterKeyword.Blank → head.lifetime = none ∧ head.name.Escaped
  · rw [nameRead_other hother, recordedName_behind (head_name_nil hother) hhead, recordedName_iff hu]
  · obtain ⟨hblank, hplain⟩ := Classical.not_imp.mp hother
    cases hlifetime : head.lifetime with
    | some l =>
      have hstarts : Starts (l.1.text ++ (l.2.text ++ (head.name.text ++ behind))) := by
        cases l.1 <;> exact ⟨_, _, rfl, Or.inl rfl⟩
      have hword := @Lifetime.isWord unicode l.1
      have hread := @recordedName_word unicode stem _ hblank _ _ hstarts hword.ne_nil hword.all
        (head.lifetime_behind hlifetime behind)
      have htext : head.text ++ behind = head.afterKeyword.text ++
          (l.1.text ++ (l.2.text ++ (head.name.text ++ behind))) := by
        simp only [ModuleHead.text, ModuleHead.lifetimeText, hlifetime, List.append_assoc]
      rw [nameRead_lifetime hblank hlifetime, htext, hread]
    | none =>
      have hname : ¬head.name.Escaped := fun hn => hplain ⟨hlifetime, hn⟩
      obtain ⟨x, hx, hsimple⟩ := ModuleName.eq_simple hname
      have hnext := @isWord_of_head unicode _ (any_isWordLike hascii (head.name.head_apart hbehind))
      obtain ⟨w, t, hsplit, hne, hw, ht, hcases⟩ := x.word unicode hnext
      have hstarts : Starts (w ++ t) := by
        rw [← hsplit]
        exact x.starts behind
      have hread := @recordedName_word unicode stem _ hblank _ _ hstarts hne hw ht
      have htext : head.text ++ behind = head.afterKeyword.text ++ (w ++ t) := by
        rw [ModuleHead.text, ModuleHead.lifetimeText, hlifetime, hsimple, List.nil_append,
          List.append_assoc, ← hsplit]
        rfl
      rw [nameRead_word hblank hlifetime hname, htext, hread, hsimple]
      rcases hcases with ⟨hd, hwhole, -⟩ | ⟨hd, hpart⟩
      · exact iff_of_true hwhole hd
      · exact iff_of_false hpart fun hnot => hnot hd

end Keyword

end Rv32iRtl
