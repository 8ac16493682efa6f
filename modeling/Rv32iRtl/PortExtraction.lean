import Rv32iRtl.DeclarationReading

/-! The port contract that is extracted from a module with an ANSI port list. -/
namespace Rv32iRtl

open Backtrack Backtrack.Regex Segment

/-- The declarations with the text before each of them. -/
def declared (separator front : Text) : List Declaration → List (Segment Char Port)
  | [] => []
  | d :: ds => ⟨front ++ separator ++ d.before.text, d.core, d.ports⟩ :: declared [','] d.others ds

/-- The text behind the last name of the last declaration. -/
def lastGap (front : Text) : List Declaration → Text
  | [] => front
  | d :: ds => lastGap d.others ds

lemma join_declared (separator front : Text) (ds : List Declaration) (t : Text) :
    join (declared separator front ds) (lastGap front ds ++ t) =
      front ++ ((if ds = [] then [] else separator) ++ ([','].intercalate (ds.map Declaration.text) ++
        t)) := by
  induction ds generalizing separator front with
  | nil => rfl
  | cons d ds ih =>
    rw [declared, join, lastGap, ih]
    cases ds with
    | nil => simp [Declaration.text, List.append_assoc]
    | cons e ds =>
      simp only [List.map_cons]
      rw [List.intercalate_cons_cons, if_neg (List.cons_ne_nil _ _),
        if_neg (List.cons_ne_nil _ _)]
      simp only [Declaration.text, List.append_assoc]

namespace AnsiModule

variable (m : AnsiModule)

/-- From the start of the text to the opening of the port list. -/
def front : Text := m.before.text ++ ("module".toList ++ (m.afterKeyword.text ++ m.header))

def segments : List (Segment Char Port) := declared [] m.front m.ports

def ending : Text := lastGap m.front m.ports ++ m.rest

lemma text_eq : m.text = join m.segments m.ending := by
  have hkeyword : m.fromKeyword =
      "module".toList ++ (m.afterKeyword.text ++ (m.header ++ (m.portsText ++ m.rest))) := rfl
  rw [segments, ending, join_declared, ite_self, List.nil_append, text, hkeyword, front, portsText]
  simp only [List.append_assoc]

variable (unicode : Char → Bool)

/-- The contract is what the module declares, and it is read where that is declared. -/
structure Extracted : Prop where
  contract : extractPorts unicode m.text = m.contract
  name_place : ∃ h, (moduleNameRe unicode).search m.text = some h ∧ h.place = m.fromKeyword
  port_places : ∀ h ∈ (portRe unicode).findAll m.text, portOf h ≠ none →
    h.place ∈ places m.segments m.ending

/-- The module is one that the two patterns can read: its keyword is the first one that they find,
its declarations are simple, and they read nothing before, between and behind these. -/
structure Readable : Prop where
  name : '$' ∉ m.name.text
  keyword_gap : m.afterKeyword.Blank
  before : ∀ u v, m.before.text = u ++ v → v ≠ [] →
    (moduleNameRe unicode).hits u.getLast? (v ++ m.fromKeyword) = []
  simple : ∀ d ∈ m.ports, d.Simple
  gaps : ∀ g ∈ Segment.gaps m.segments m.ending, Quiet (portRe unicode) portOf g.1 g.2

end AnsiModule

section Ports

variable {unicode : Char → Bool}

lemma Declaration.others_delimited (d : Declaration) {t : Text} (ht : Delimited t) :
    Delimited (d.others ++ t) := by
  rw [Declaration.others, List.append_assoc]
  refine Gap.delimited fun _ => ?_
  cases d.more with
  | nil => exact ht
  | cons n ns => exact ⟨',', _, rfl, Or.inr (by decide)⟩

lemma join_delimited (d : Declaration) (ds : List Declaration) {t : Text} (ht : Delimited t) :
    Delimited (join (declared [','] d.others ds) (lastGap d.others ds ++ t)) := by
  rw [join_declared]
  apply d.others_delimited
  cases ds with
  | nil => exact ht
  | cons e ds => exact ⟨',', _, rfl, Or.inr (by decide)⟩

lemma Declaration.core_ne_nil (d : Declaration) : d.core ≠ [] := by
  rw [Declaration.core]
  cases d.direction <;> exact List.cons_ne_nil _ _

lemma Declaration.ports_eq (d : Declaration) : d.ports = d.port ::
    d.more.map fun n => ⟨d.direction.text, d.width, n.2.1.text⟩ := by
  rw [Declaration.ports, Declaration.names, List.map_cons, List.map_map]
  rfl

lemma Declaration.ports_singleton {d : Declaration} {b : Port} :
    d.ports = [b] ↔ d.more = [] ∧ b = d.port := by
  rw [Declaration.ports_eq, List.cons.injEq, List.map_eq_nil_iff, and_comm, eq_comm (a := d.port)]

variable (unicode) in
lemma declared_whole (separator front : Text) (ds : List Declaration) {t : Text}
    (ht : Delimited t) :
    Whole (portRe unicode) portOf (declared separator front ds) (lastGap front ds ++ t) := by
  induction ds generalizing separator front with
  | nil => trivial
  | cons d ds ih =>
    refine ⟨fun h b hh hread hb => ?_, ih [','] d.others⟩
    obtain ⟨-, rfl⟩ := Declaration.ports_singleton.mp hb
    exact (Declaration.portRe_reads (join_delimited d ds ht) hh hread).2

lemma declared_matched (separator front : Text) (ds : List Declaration) {t : Text}
    (ht : Delimited t) :
    Matched (portRe unicode) portOf (declared separator front ds) (lastGap front ds ++ t) ↔
      ∀ d ∈ ds, d.Simple := by
  induction ds generalizing separator front with
  | nil => exact iff_of_true trivial (by simp)
  | cons d ds ih =>
    have hdel := join_delimited d ds ht
    rw [declared, Matched, lastGap, ih, List.forall_mem_cons, and_congr_left_iff]
    intro _
    constructor
    · rintro ⟨h, b, hh, hread, hb, -⟩
      obtain ⟨hmore, rfl⟩ := Declaration.ports_singleton.mp hb
      exact (Declaration.portRe_reads hdel hh hread).1 hmore
    · intro hd
      obtain ⟨h, hh, hread⟩ := Declaration.portRe_simple hdel hd
      exact ⟨h, d.port, hh, hread, Declaration.ports_singleton.mpr ⟨hd.alone, rfl⟩,
        (Declaration.portRe_reads hdel hh hread).2⟩

lemma declared_segment (separator front : Text) (ds : List Declaration) :
    ∀ s ∈ declared separator front ds, s.core ≠ [] ∧ s.values ≠ [] := by
  induction ds generalizing separator front with
  | nil => simp [declared]
  | cons d ds ih =>
    refine List.forall_mem_cons.mpr ⟨⟨d.core_ne_nil, ?_⟩, ih _ _⟩
    rw [Declaration.ports_eq]
    exact List.cons_ne_nil _ _

lemma declared_values (separator front : Text) (ds : List Declaration) :
    (declared separator front ds).flatMap values = ds.flatMap Declaration.ports := by
  induction ds generalizing separator front with
  | nil => rfl
  | cons d ds ih => rw [declared, List.flatMap_cons, ih, List.flatMap_cons]

lemma portRe_placeless : (portRe unicode).Placeless := by
  simp [portRe, Placeless, opt, plus, lit]

lemma portRe_consumes : (portRe unicode).Consumes := Or.inr (Or.inl (consumes_plus _))

lemma AnsiModule.rest_delimited (m : AnsiModule) : Delimited m.rest := by
  simp only [AnsiModule.rest, List.append_assoc]
  exact Gap.delimited fun _ => ⟨')', _, rfl, Or.inr (by decide)⟩

variable (unicode) in
/-- The ports are read at the declarations exactly if these are simple and nothing else is read. -/
lemma AnsiModule.ports_read_iff (m : AnsiModule) :
    Reads (portRe unicode) portOf m.segments m.ending ↔
      (∀ d ∈ m.ports, d.Simple) ∧
        ∀ g ∈ Segment.gaps m.segments m.ending, Quiet (portRe unicode) portOf g.1 g.2 := by
  have hseg := declared_segment [] m.front m.ports
  have hreads := reads_iff portRe_placeless portRe_consumes (fun s hs => (hseg s hs).1)
    (fun s hs => (hseg s hs).2) (declared_whole unicode [] m.front m.ports m.rest_delimited)
  refine hreads.trans (and_congr_left fun _ => ?_)
  exact declared_matched [] m.front m.ports m.rest_delimited

variable (unicode) in
lemma Trivia.text_last (x : Trivia) :
    ∃ u c, x.text = u ++ [c] ∧ isWord unicode c = false := by
  cases x with
  | blank c h => exact ⟨[], c, rfl, isWord_of_isBlank h⟩
  | comment c =>
    cases c with
    | line t h => exact ⟨"//".toList ++ t, '\n', rfl, rfl⟩
    | block t h => exact ⟨"/*".toList ++ t ++ ['*'], '/', by simp [Trivia.text, Comment.text], rfl⟩

/-- A gap ends without a word. -/
lemma Gap.text_last (g : Gap) : ∀ c ∈ g.text.getLast?, isWord unicode c = false := by
  rcases List.eq_nil_or_concat' g with rfl | ⟨g', x, rfl⟩
  · simp [Gap.text]
  · obtain ⟨u, c, hx, hc⟩ := x.text_last unicode
    have htext : Gap.text (g' ++ [x]) = Gap.text g' ++ u ++ [c] := by
      rw [Gap.text, List.flatMap_append, List.flatMap_singleton, hx, List.append_assoc]
      rfl
    intro d hd
    rw [htext, List.getLast?_concat] at hd
    obtain rfl : c = d := by simpa using hd
    exact hc

lemma moduleNameRe_keyword {p : Option Char} (hp : ∀ c ∈ p, isWord unicode c = false) (t : Text) :
    (moduleNameRe unicode).hits p ("module".toList ++ t) =
      ((seq (plus isSpace) (nameRe unicode 1)).hits none t).map
        (Hit.append ⟨"module".toList, [], t⟩) := by
  have hplaceless : (seq (plus isSpace) (nameRe unicode 1)).Placeless :=
    ⟨⟨trivial, trivial⟩, nameRe_placeless unicode 1⟩
  have hany : p.any (isWord unicode) = false := by
    cases p with
    | none => rfl
    | some c => exact hp c rfl
  have hboundary : (boundary (isWord unicode)).hits p ("module".toList ++ t) =
      [Hit.nothing ("module".toList ++ t)] := by
    have hhead : ("module".toList ++ t).head?.any (isWord unicode) = true := rfl
    rw [hits, hany, hhead, if_neg (by decide)]
  rw [moduleNameRe, hits_seq_single hboundary]
  change ((seq (lit _) (seq (plus isSpace) (nameRe unicode 1))).hits _ ("module".toList ++ t)).map
    id = _
  rw [List.map_id, hits_seq_single (hits_lit _ t _), hits_placeless hplaceless _ none]

lemma AnsiModule.header_append (m : AnsiModule) (t : Text) :
    ∃ u, m.header ++ t = m.name.text ++ u ∧ Delimited u := by
  refine ⟨m.afterName.text ++ (m.parametersText ++ '(' :: t), by simp [AnsiModule.header], ?_⟩
  refine Gap.delimited fun _ => ?_
  rw [AnsiModule.parametersText]
  cases m.parameters with
  | none => exact ⟨'(', t, rfl, Or.inr (by decide)⟩
  | some e => exact ⟨'#', _, rfl, Or.inr (by decide)⟩

variable (unicode) in
/-- The declared name is read at the keyword exactly if it is a word behind blanks, and if the
pattern matches nowhere before. -/
lemma AnsiModule.name_read_iff (m : AnsiModule) :
    (extractModuleName unicode m.text = m.name.text ∧
        ∃ h, (moduleNameRe unicode).search m.text = some h ∧ h.place = m.fromKeyword) ↔
      ('$' ∉ m.name.text ∧ m.afterKeyword.Blank) ∧
        ∀ u v, m.before.text = u ++ v → v ≠ [] →
          (moduleNameRe unicode).hits u.getLast? (v ++ m.fromKeyword) = [] := by
  obtain ⟨u, hheader, hu⟩ := m.header_append (m.portsText ++ m.rest)
  obtain ⟨w, t, hsplit, hne, hw, ht, hcase⟩ := m.name.word unicode hu.isWord
  have hstarts : Starts (m.header ++ (m.portsText ++ m.rest)) := hheader ▸ m.name.starts u
  have hkeyword : m.fromKeyword ≠ [] := List.cons_ne_nil _ _
  have hfind := fun h => search_place (r := moduleNameRe unicode) (g := m.before.text) (h := h)
    hkeyword
  have hhits : (moduleNameRe unicode).hits m.before.text.getLast? m.fromKeyword = _ :=
    moduleNameRe_keyword m.before.text_last _
  have hhead : m.afterKeyword.Blank →
      ((moduleNameRe unicode).hits m.before.text.getLast? m.fromKeyword).head? =
        some ⟨"module".toList ++ (m.afterKeyword.text ++ w), [(1, w)], t⟩ := by
    intro hb
    rw [hhits, hits_gap_blank nameRe_solid hb hstarts, List.head?_map, List.head?_map, hheader,
      hsplit, nameRe_head hne hw ht]
    rfl
  constructor
  · rintro ⟨hname, h, hs, hplace⟩
    obtain ⟨hbefore, hh⟩ := (hfind h).mp ⟨hs, hplace⟩
    have hb : m.afterKeyword.Blank := by
      by_contra hb
      rw [hhits, hits_gap_nil nameRe_solid hb hstarts] at hh
      contradiction
    rw [hhead hb] at hh
    obtain rfl := Option.some.inj hh
    have hword : w = m.name.text := by
      rw [extractModuleName, hs] at hname
      exact hname
    obtain ⟨hd, -, -⟩ | ⟨-, hneq⟩ := hcase
    · exact ⟨⟨hd, hb⟩, hbefore⟩
    · exact absurd hword hneq
  · rintro ⟨⟨hd, hb⟩, hbefore⟩
    obtain ⟨hs, hplace⟩ := (hfind _).mpr ⟨hbefore, hhead hb⟩
    have hs : (moduleNameRe unicode).search m.text = _ := hs
    obtain ⟨-, hword, -⟩ | ⟨hd', -⟩ := hcase
    · refine ⟨?_, _, hs, hplace⟩
      rw [extractModuleName, hs]
      exact hword
    · exact absurd hd' hd

end Ports

lemma AnsiModule.contract_iff (unicode : Char → Bool) (m : AnsiModule) :
    extractPorts unicode m.text = m.contract ↔
      extractModuleName unicode m.text = m.name.text ∧
        ((portRe unicode).findAll m.text).filterMap portOf = m.segments.flatMap values := by
  rw [extractPorts, AnsiModule.contract, Contract.mk.injEq, AnsiModule.segments, declared_values]

section Plain

variable {unicode : Char → Bool}

/-- A word that starts in a text is in it, if what follows does not start like a part of the word. -/
lemma infix_of_prefix_append {k v t : Text} (hv : v ≠ [])
    (hk : ∀ c ∈ t.head?, ∀ w ∈ k.tails, w ≠ k → w.head? ≠ some c) (h : k <+: v ++ t) :
    k <:+: v := by
  obtain ⟨s, hs⟩ := h
  rcases List.append_eq_append_iff.mp hs with ⟨w, hw, -⟩ | ⟨w, rfl, rfl⟩
  · have hpre : k <+: v := ⟨w, hw.symm⟩
    exact hpre.isInfix
  · cases w with
    | nil => rw [List.append_nil]
    | cons c w =>
      have hmem := (List.mem_tails (c :: w) (v ++ c :: w)).mpr (List.suffix_append v (c :: w))
      have hne : c :: w ≠ v ++ c :: w := fun heq => hv (List.self_eq_append_left.mp heq)
      exact absurd rfl (hk c rfl (c :: w) hmem hne)

lemma portRe_starts {p : Option Char} {cs : Text} {h : Hit Char}
    (hm : h ∈ (portRe unicode).hits p cs) : ∃ e : Direction, e.text <+: cs := by
  by_contra hno
  have hin : ¬"input".toList <+: cs := fun hpre => hno ⟨.input, hpre⟩
  have hout : ¬"output".toList <+: cs := fun hpre => hno ⟨.output, hpre⟩
  have hnil : (group 1 (alt (lit "input".toList) (lit "output".toList))).hits p cs = [] := by
    rw [hits, hits, hits_lit_nil hin, hits_lit_nil hout]
    rfl
  rw [portRe_eq, hits_seq_nil hnil] at hm
  contradiction

/-- A gap without the words `input` and `output` is quiet before a declaration. -/
lemma quiet_of_plain {g t : Text} (hg : ∀ e : Direction, ¬e.text <:+: g)
    (ht : t = [] ∨ ∃ (e : Direction) (v : Text), t = e.text ++ v) :
    Quiet (portRe unicode) portOf g t := by
  intro h hm hlong
  obtain ⟨⟨u, hu⟩, p, hh⟩ := mem_scan hm
  rw [List.drop_zero] at hu
  obtain ⟨e, hpre⟩ := portRe_starts (List.mem_of_head? hh)
  rcases List.append_eq_append_iff.mp hu with ⟨v, rfl, hv⟩ | ⟨v, -, hv⟩
  · have hne : v ≠ [] := by
      rintro rfl
      rw [hv] at hlong
      exact absurd hlong (lt_irrefl _)
    have hheads : ∀ c ∈ t.head?, ∀ w ∈ e.text.tails, w ≠ e.text → w.head? ≠ some c := by
      rcases ht with rfl | ⟨e', v', rfl⟩
      · simp
      · have hfirst : ∃ c, (e'.text ++ v').head? = some c ∧
            ∀ w ∈ e.text.tails, w ≠ e.text → w.head? ≠ some c := by
          cases e' <;> cases e <;> exact ⟨_, rfl, by decide⟩
        obtain ⟨c, hc, hall⟩ := hfirst
        intro d hd
        rw [hc] at hd
        obtain rfl : c = d := by simpa using hd
        exact hall
    rw [hv] at hpre
    have hinf := infix_of_prefix_append hne hheads hpre
    exact absurd (hinf.trans (List.suffix_append u v).isInfix) (hg e)
  · rw [hv, List.length_append] at hlong
    omega

lemma gaps_declared (separator front : Text) (ds : List Declaration) (t : Text) :
    ∀ g ∈ Segment.gaps (declared separator front ds) t,
      g.2 = [] ∨ ∃ (e : Direction) (v : Text), g.2 = e.text ++ v := by
  induction ds generalizing separator front with
  | nil =>
    intro g hg
    obtain rfl := List.mem_singleton.mp hg
    exact Or.inl rfl
  | cons d ds ih =>
    refine List.forall_mem_cons.mpr ⟨Or.inr ⟨d.direction, ?_⟩, ih [','] d.others⟩
    rw [Declaration.core_append]
    exact ⟨_, rfl⟩

lemma moduleNameRe_nil {p : Option Char} {cs : Text} (h : ¬"module".toList <+: cs) :
    (moduleNameRe unicode).hits p cs = [] := by
  have hlit : ∀ q, (seq (lit "module".toList) (seq (plus isSpace)
      (group 1 (plus (isWord unicode))))).hits q cs = [] := fun q => hits_seq_nil (hits_lit_nil h)
  rw [moduleNameRe, hits, hits]
  split_ifs
  · rfl
  · rw [List.flatMap_singleton]
    exact List.map_eq_nil_iff.mpr (hlit _)

/-- Of a module with simple declarations the contract is extracted if the words of the patterns
stand nowhere else. -/
theorem AnsiModule.extractPorts_of_plain (m : AnsiModule) (hname : '$' ∉ m.name.text)
    (hgap : m.afterKeyword.Blank) (hbefore : ¬"module".toList <:+: m.before.text)
    (hsimple : ∀ d ∈ m.ports, d.Simple)
    (hplain : ∀ g ∈ Segment.gaps m.segments m.ending, ∀ e : Direction, ¬e.text <:+: g.1) :
    extractPorts unicode m.text = m.contract := by
  have hnone : ∀ u v, m.before.text = u ++ v → v ≠ [] →
      (moduleNameRe unicode).hits u.getLast? (v ++ m.fromKeyword) = [] := by
    intro u v huv hne
    refine moduleNameRe_nil fun hpre => ?_
    have hheads : ∀ c ∈ m.fromKeyword.head?, ∀ w ∈ "module".toList.tails,
        w ≠ "module".toList → w.head? ≠ some c := by
      intro c hc
      obtain rfl : 'm' = c := Option.some.inj hc
      decide
    have hinf := infix_of_prefix_append hne hheads hpre
    exact hbefore (huv ▸ hinf.trans (List.suffix_append u v).isInfix)
  have hquiet : ∀ g ∈ Segment.gaps m.segments m.ending, Quiet (portRe unicode) portOf g.1 g.2 :=
    fun g hg => quiet_of_plain (hplain g hg) (gaps_declared [] m.front m.ports m.ending g hg)
  obtain ⟨hn, -⟩ := (m.name_read_iff unicode).mpr ⟨⟨hname, hgap⟩, hnone⟩
  obtain ⟨hp, -⟩ := (m.ports_read_iff unicode).mpr ⟨hsimple, hquiet⟩
  rw [← m.text_eq] at hp
  exact (m.contract_iff unicode).mpr ⟨hn, hp⟩

end Plain

/-- The contract of a module is read off its declarations exactly if it is a readable one. -/
theorem extract_ports_exact_iff (unicode : Char → Bool) (m : AnsiModule) :
    m.Extracted unicode ↔ m.Readable unicode := by
  have hname := m.name_read_iff unicode
  have hports := m.ports_read_iff unicode
  have hcontract := m.contract_iff unicode
  rw [Reads, ← m.text_eq] at hports
  constructor
  · rintro ⟨hc, hplace, hplaces⟩
    obtain ⟨hn, hp⟩ := hcontract.mp hc
    obtain ⟨⟨hd, hb⟩, hbefore⟩ := hname.mp ⟨hn, hplace⟩
    obtain ⟨hsimple, hgaps⟩ := hports.mp ⟨hp, hplaces⟩
    exact ⟨hd, hb, hbefore, hsimple, hgaps⟩
  · rintro ⟨hd, hb, hbefore, hsimple, hgaps⟩
    obtain ⟨hn, hplace⟩ := hname.mpr ⟨⟨hd, hb⟩, hbefore⟩
    obtain ⟨hp, hplaces⟩ := hports.mpr ⟨hsimple, hgaps⟩
    exact ⟨hcontract.mpr ⟨hn, hp⟩, hplace, hplaces⟩

def aBlank : Gap := [.blank ' ' rfl]

def word31 : BitRange where
  content := "31:0".toList.map .inl
  closed := by decide
  no_line := by decide
  no_block := by decide
  nonempty := by decide

def portsAB : Declaration where
  before := []
  direction := .input
  afterDirection := aBlank
  net := none
  signed := none
  range := some (word31, aBlank)
  name := ⟨'a', [], Or.inl rfl, by simp, by simp [verilogKeywords]⟩
  afterName := []
  more := [(aBlank, ⟨'b', [], Or.inl rfl, by simp, by simp [verilogKeywords]⟩, [])]
  direction_apart := by simp
  net_apart := by simp
  signed_apart := by simp

def moduleAlu : AnsiModule where
  before := []
  afterKeyword := aBlank
  name := ⟨'a', "lu".toList, Or.inl rfl, by simp [isIdentifierChar], by simp [verilogKeywords]⟩
  afterName := []
  parameters := none
  ports := [portsAB]
  afterPorts := []
  afterList := []
  body := ['\n']
  after := []
  keyword_apart := List.cons_ne_nil _ _

theorem extract_ports_exact_fails :
    moduleAlu.text = "module alu(input [31:0] a, b);\nendmodule".toList ∧
      extractPorts (fun _ => false) moduleAlu.text ≠ moduleAlu.contract := by
  decide +kernel

end Rv32iRtl
