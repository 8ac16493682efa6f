import Rv32iRtl.LeftmostMatch

/-! A text cut into segments that are to be read and gaps between these. -/
namespace Backtrack

variable {C : Type*}

/-- A segment with the gap before it and the values that it stands for. -/
structure Segment (C B : Type*) where
  gap : List C
  core : List C
  values : List B

namespace Segment

variable {B : Type*}

def join : List (Segment C B) → List C → List C
  | [], t => t
  | s :: ss, t => s.gap ++ (s.core ++ join ss t)

/-- Where the segments start. -/
def places : List (Segment C B) → List C → List (List C)
  | [], _ => []
  | s :: ss, t => (s.core ++ join ss t) :: places ss t

/-- The gaps, each with the text behind it. -/
def gaps : List (Segment C B) → List C → List (List C × List C)
  | [], t => [(t, [])]
  | s :: ss, t => (s.gap, s.core ++ join ss t) :: gaps ss t

lemma length_of_mem_places {ss : List (Segment C B)} {t cs : List C} (h : cs ∈ places ss t) :
    cs.length ≤ (join ss t).length := by
  induction ss with
  | nil => contradiction
  | cons s ss ih =>
    simp only [join, List.length_append]
    rcases List.mem_cons.mp h with rfl | h
    · rw [List.length_append]
      omega
    · have := ih h
      omega

lemma length_places (ss : List (Segment C B)) (t : List C) : (places ss t).length = ss.length := by
  induction ss with
  | nil => rfl
  | cons s ss ih => rw [places, List.length_cons, ih, List.length_cons]

lemma length_values {ss : List (Segment C B)} (h : ∀ s ∈ ss, s.values ≠ []) :
    ss.length ≤ (ss.flatMap values).length := by
  induction ss with
  | nil => exact le_rfl
  | cons s ss ih =>
    have hin := ih fun s' hs' => h s' (List.mem_cons_of_mem s hs')
    have hpos := List.length_pos_iff.mpr (h s List.mem_cons_self)
    rw [List.flatMap_cons, List.length_append, List.length_cons]
    omega

section Reading

variable (r : Regex C) (f : Hit C → Option B)

/-- No match that starts in the gap is read, and none of them reaches what is behind the gap. -/
def Quiet (gap t : List C) : Prop :=
  ∀ h ∈ r.findAll (gap ++ t), t.length < h.place.length → f h = none ∧ t.length ≤ h.rest.length

/-- The values are read, and they are read where the segments are. -/
def Reads (ss : List (Segment C B)) (t : List C) : Prop :=
  (r.findAll (join ss t)).filterMap f = ss.flatMap values ∧
    ∀ h ∈ r.findAll (join ss t), f h ≠ none → h.place ∈ places ss t

/-- Each segment as a whole is a match from which its only value is read. -/
def Matched : List (Segment C B) → List C → Prop
  | [], _ => True
  | s :: ss, t => (∃ h b, (r.hits none (s.core ++ join ss t)).head? = some h ∧ f h = some b ∧
      s.values = [b] ∧ h.rest = join ss t) ∧ Matched ss t

/-- A match from which the only value of a segment is read is all of the segment. -/
def Whole : List (Segment C B) → List C → Prop
  | [], _ => True
  | s :: ss, t => (∀ h b, (r.hits none (s.core ++ join ss t)).head? = some h → f h = some b →
      s.values = [b] → h.rest = join ss t) ∧ Whole ss t

variable {r f}

/-- After a segment the scan starts anew. -/
lemma scan_segment (hr : r.Placeless) {p : Option C} {core t : List C} {h : Hit C}
    (hne : core ≠ []) (hh : (r.hits none (core ++ t)).head? = some h) (hrest : h.rest = t) :
    r.scan p 0 (core ++ t) = h :: r.findAll t := by
  have htext : core = h.text := by
    have hsplit := Regex.hits_split (List.mem_of_head? hh)
    rw [hrest] at hsplit
    exact List.append_cancel_right hsplit
  obtain ⟨c, core, rfl⟩ := List.exists_cons_of_ne_nil hne
  rw [List.cons_append] at hh ⊢
  have hlen : h.text.length - 1 = core.length := by
    rw [← htext, List.length_cons, Nat.add_sub_cancel]
  rw [Regex.scan, Regex.hits_placeless hr p none, hh]
  change h :: r.scan (some c) (h.text.length - 1) (core ++ t) = _
  rw [hlen, Regex.scan_covered, Regex.findAll, Regex.scan_placeless hr _ none]

/-- Matches that all start behind the first segment are too few for all values. -/
lemma too_few {s : Segment C B} {ss : List (Segment C B)} {t : List C} {l : List (Hit C)}
    (hvalues : ∀ s' ∈ ss, s'.values ≠ [])
    (hl : l.Pairwise fun h h' => h'.place.length < h.place.length)
    (hbehind : ∀ h ∈ l, h.place.length < (s.core ++ join ss t).length)
    (hplaces : ∀ h ∈ l, f h ≠ none → h.place ∈ places (s :: ss) t) :
    (l.filterMap f).length ≤ (ss.flatMap values).length := by
  have hread : ∀ h ∈ l.filter fun h => (f h).isSome, h.place ∈ places ss t := by
    intro h hm
    obtain ⟨hm, hsome⟩ := List.mem_filter.mp hm
    have hplace := hplaces h hm (Option.isSome_iff_ne_none.mp hsome)
    rcases List.mem_cons.mp hplace with heq | hplace
    · have hlt := hbehind h hm
      rw [heq] at hlt
      exact absurd hlt (lt_irrefl _)
    · exact hplace
  have hlen := Regex.length_le_places (hl.sublist List.filter_sublist) hread
  rw [length_places] at hlen
  rw [List.length_filterMap_eq_countP, List.countP_eq_length_filter]
  exact hlen.trans (length_values hvalues)

/-- What starts in a gap is not where a segment is. -/
lemma not_place_of_longer {s : Segment C B} {ss : List (Segment C B)} {t cs : List C}
    (h : (s.core ++ join ss t).length < cs.length) : cs ∉ places (s :: ss) t := by
  intro hm
  rcases List.mem_cons.mp hm with rfl | hm
  · exact lt_irrefl _ h
  · have hlen := length_of_mem_places hm
    rw [List.length_append] at h
    omega

/-- The scan reaches the first segment, and reads its only value there. -/
lemma reads_first (hr : r.Placeless) {s : Segment C B} {ss : List (Segment C B)} {t : List C}
    {p : Option C} {k : ℕ} (hcore : s.core ≠ []) (hvalues : ∀ s' ∈ s :: ss, s'.values ≠ [])
    (hread : (r.scan p k (s.core ++ join ss t)).filterMap f = s.values ++ ss.flatMap values)
    (hplaces : ∀ h ∈ r.scan p k (s.core ++ join ss t), f h ≠ none → h.place ∈ places (s :: ss) t) :
    k = 0 ∧ ∃ h b, (r.hits none (s.core ++ join ss t)).head? = some h ∧ f h = some b ∧
      s.values = [b] := by
  have hpos := List.length_pos_iff.mpr (hvalues s List.mem_cons_self)
  have hlen := congrArg List.length hread
  rw [List.length_append] at hlen
  have hne : s.core ++ join ss t ≠ [] := List.append_ne_nil_of_left_ne_nil hcore _
  have hfew : ∀ l : List (Hit C), l.Sublist (r.scan p k (s.core ++ join ss t)) →
      (∀ h ∈ l, h.place.length < (s.core ++ join ss t).length) →
      (l.filterMap f).length ≤ (ss.flatMap values).length := by
    intro l hl hbehind
    refine too_few (fun s' hs' => hvalues s' (List.mem_cons_of_mem s hs'))
      ((Regex.scan_places r p k _).sublist hl) hbehind fun h hm => ?_
    exact hplaces h (hl.subset hm)
  rcases Nat.eq_zero_or_pos k with rfl | hk
  · refine ⟨rfl, ?_⟩
    rcases Regex.scan_head (r := r) p hne with hbehind | ⟨h, later, hh, hscan, hbehind⟩
    · have hcount := hfew _ (List.Sublist.refl _) hbehind
      omega
    · rw [Regex.hits_placeless hr p none] at hh
      have hcount := hfew later (hscan ▸ List.sublist_cons_self h later) hbehind
      rw [hscan] at hread hlen
      cases hfh : f h with
      | none =>
        rw [List.filterMap_cons_none hfh] at hlen
        omega
      | some b =>
        refine ⟨h, b, hh, hfh, ?_⟩
        rw [List.filterMap_cons_some hfh] at hread hlen
        rw [List.length_cons] at hlen
        obtain ⟨b', hb⟩ := List.length_eq_one_iff.mp (show s.values.length = 1 by omega)
        rw [hb] at hread ⊢
        rw [(List.cons.inj hread).1]
  · have hcount := hfew _ (List.Sublist.refl _) (Regex.scan_behind p hk hne)
    omega

lemma quiet_iff {gap t : List C} {front : List (Hit C)} {k : ℕ} {p : Option C}
    (hscan : r.findAll (gap ++ t) = front ++ r.scan p k t)
    (hfront : ∀ h ∈ front, t.length < h.place.length)
    (hk : k = 0 ↔ 0 ≤ gap.length ∧ ∀ h ∈ front, t.length ≤ h.rest.length) :
    Quiet r f gap t ↔ (∀ h ∈ front, f h = none) ∧ k = 0 := by
  rw [hk, Quiet, hscan]
  constructor
  · intro h
    have hin : ∀ m ∈ front, f m = none ∧ t.length ≤ m.rest.length :=
      fun m hm => h m (List.mem_append_left _ hm) (hfront m hm)
    exact ⟨fun m hm => (hin m hm).1, Nat.zero_le _, fun m hm => (hin m hm).2⟩
  · rintro ⟨hnone, -, hrest⟩ m hm hlong
    rcases List.mem_append.mp hm with hm | hm
    · exact ⟨hnone m hm, hrest m hm⟩
    · have hsuf := ((Regex.mem_scan hm).1.trans (List.drop_suffix _ _)).length_le
      omega

/-- The values of the segments are read there exactly if each segment as a whole gives its only
value, and the gaps give none. -/
theorem reads_iff (hr : r.Placeless) (hc : r.Consumes) {ss : List (Segment C B)} {t : List C}
    (hcore : ∀ s ∈ ss, s.core ≠ []) (hvalues : ∀ s ∈ ss, s.values ≠ [])
    (hwhole : Whole r f ss t) :
    Reads r f ss t ↔ Matched r f ss t ∧ ∀ g ∈ gaps ss t, Quiet r f g.1 g.2 := by
  induction ss with
  | nil =>
    have hplace : ∀ h ∈ r.findAll t, 0 < h.place.length := by
      intro h hm
      obtain ⟨-, p, hh⟩ := Regex.mem_scan hm
      have hpos := List.length_pos_iff.mpr (Regex.text_ne_nil hc (List.mem_of_head? hh))
      rw [Hit.place, List.length_append]
      omega
    have hgap : gaps ([] : List (Segment C B)) t = [(t, [])] := rfl
    rw [hgap, List.forall_mem_singleton, Quiet, List.append_nil]
    constructor
    · rintro ⟨hread, -⟩
      exact ⟨trivial, fun h hm _ => ⟨List.filterMap_eq_nil_iff.mp hread h hm, Nat.zero_le _⟩⟩
    · rintro ⟨-, hquiet⟩
      have hnone : ∀ h ∈ r.findAll t, f h = none := fun h hm => (hquiet h hm (hplace h hm)).1
      exact ⟨List.filterMap_eq_nil_iff.mpr hnone, fun h hm hsome => absurd (hnone h hm) hsome⟩
  | cons s ss ih =>
    obtain ⟨hcores, hcoress⟩ := List.forall_mem_cons.mp hcore
    have hin := ih hcoress (List.forall_mem_cons.mp hvalues).2 hwhole.2
    obtain ⟨front, k, p, hscan, hfront, hk⟩ :=
      Regex.scan_append r none 0 s.gap (s.core ++ join ss t)
    have hall : r.findAll (join (s :: ss) t) = front ++ r.scan p k (s.core ++ join ss t) := hscan
    rw [Reads, hall, gaps, List.forall_mem_cons, quiet_iff hscan hfront hk, List.filterMap_append,
      List.flatMap_cons]
    constructor
    · rintro ⟨hread, hplaces⟩
      have hnone : ∀ m ∈ front, f m = none := by
        intro m hm
        by_contra hsome
        exact not_place_of_longer (hfront m hm) (hplaces m (List.mem_append_left _ hm) hsome)
      rw [List.filterMap_eq_nil_iff.mpr hnone, List.nil_append] at hread
      obtain ⟨rfl, h, b, hh, hfh, hb⟩ := reads_first hr hcores hvalues hread
        fun m hm => hplaces m (List.mem_append_right _ hm)
      have hrest := hwhole.1 h b hh hfh hb
      rw [scan_segment hr hcores hh hrest] at hread hplaces
      have hreads : Reads r f ss t := by
        rw [List.filterMap_cons_some hfh, hb] at hread
        refine ⟨(List.cons.inj hread).2, fun m hm hsome => ?_⟩
        have hplace := hplaces m (List.mem_append_right _ (List.mem_cons_of_mem h hm)) hsome
        refine (List.mem_cons.mp hplace).resolve_left fun heq => ?_
        have hsuf := (Regex.mem_scan hm).1.length_le
        have hpos := List.length_pos_iff.mpr hcores
        rw [heq, List.length_append, List.drop_zero] at hsuf
        omega
      obtain ⟨hmatched, hquiet⟩ := hin.mp hreads
      exact ⟨⟨⟨h, b, hh, hfh, hb, hrest⟩, hmatched⟩, ⟨hnone, rfl⟩, hquiet⟩
    · rintro ⟨⟨⟨h, b, hh, hfh, hb, hrest⟩, hmatched⟩, ⟨hnone, rfl⟩, hquiet⟩
      obtain ⟨hread, hplaces⟩ := hin.mpr ⟨hmatched, hquiet⟩
      rw [scan_segment hr hcores hh hrest, List.filterMap_eq_nil_iff.mpr hnone,
        List.filterMap_cons_some hfh, hread, hb]
      refine ⟨rfl, fun m hm hsome => ?_⟩
      rcases List.mem_append.mp hm with hm | hm
      · exact absurd (hnone m hm) hsome
      · rcases List.mem_cons.mp hm with rfl | hm
        · rw [places, Hit.place, Regex.hits_split (List.mem_of_head? hh)]
          exact List.mem_cons_self
        · exact List.mem_cons_of_mem _ (hplaces m hm hsome)

end Reading

end Segment

end Backtrack
