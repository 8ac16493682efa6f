import Mathlib

/-! Dictionaries that keep their keys in the order in which they were first set, and
what a sequence of settings leaves behind: for every key the value it was set to last. -/

structure OrderedDict (K V : Type*) where
  entries : List (K × V)
  nodup : (entries.map Prod.fst).Nodup

namespace OrderedDict

variable {K V : Type*} [DecidableEq K]

def empty : OrderedDict K V := ⟨[], List.nodup_nil⟩

def setEntry (k : K) (v : V) : List (K × V) → List (K × V)
  | [] => [(k, v)]
  | e :: es => if e.1 = k then (k, v) :: es else e :: setEntry k v es

lemma keys_setEntry (k : K) (v : V) (es : List (K × V)) :
    (setEntry k v es).map Prod.fst =
      if k ∈ es.map Prod.fst then es.map Prod.fst else es.map Prod.fst ++ [k] := by
  induction es with
  | nil => simp [setEntry]
  | cons e es ih =>
    by_cases h : e.1 = k
    · simp [setEntry, h]
    · have hk : k ≠ e.1 := fun hc => h hc.symm
      rw [setEntry, if_neg h, List.map_cons, ih]
      by_cases hm : k ∈ es.map Prod.fst <;> simp [hm, hk]

def set (d : OrderedDict K V) (k : K) (v : V) : OrderedDict K V where
  entries := setEntry k v d.entries
  nodup := by
    rw [keys_setEntry]
    split_ifs with h
    · exact d.nodup
    · simpa using d.nodup.concat h

def get? (d : OrderedDict K V) (k : K) : Option V :=
  (d.entries.find? fun e => e.1 = k).map Prod.snd

def keys (d : OrderedDict K V) : List K := d.entries.map Prod.fst

@[simp] lemma get?_empty (k : K) : (empty : OrderedDict K V).get? k = none := rfl

lemma find?_setEntry (k k' : K) (v : V) (es : List (K × V)) :
    ((setEntry k v es).find? fun e => e.1 = k').map Prod.snd =
      if k = k' then some v else (es.find? fun e => e.1 = k').map Prod.snd := by
  induction es with
  | nil => by_cases h : k = k' <;> simp [setEntry, h]
  | cons e es ih =>
    by_cases he : e.1 = k
    · subst he
      by_cases h : e.1 = k' <;> simp [setEntry, h]
    · rw [setEntry, if_neg he]
      by_cases h' : e.1 = k'
      · have hk : k ≠ k' := fun hc => he (h'.trans hc.symm)
        simp [h', hk]
      · rw [List.find?_cons_of_neg (by simpa using h'), ih,
          List.find?_cons_of_neg (by simpa using h')]

/-- Setting a key changes the dictionary at this key only. -/
lemma get?_set (d : OrderedDict K V) (k k' : K) (v : V) :
    (d.set k v).get? k' = if k = k' then some v else d.get? k' :=
  find?_setEntry k k' v d.entries

lemma setEntry_setEntry (k : K) (v v' : V) (es : List (K × V)) :
    setEntry k v' (setEntry k v es) = setEntry k v' es := by
  induction es with
  | nil => simp [setEntry]
  | cons e es ih =>
    by_cases h : e.1 = k
    · simp [setEntry, h]
    · simp [setEntry, h, ih]

/-- Of two settings of a key the later one remains. -/
lemma set_set (d : OrderedDict K V) (k : K) (v v' : V) : (d.set k v).set k v' = d.set k v' := by
  simp [set, setEntry_setEntry]

lemma keys_set (d : OrderedDict K V) (k : K) (v : V) :
    (d.set k v).keys = if k ∈ d.keys then d.keys else d.keys ++ [k] :=
  keys_setEntry k v d.entries

lemma mem_entries_iff (d : OrderedDict K V) (k : K) (v : V) :
    (k, v) ∈ d.entries ↔ d.get? k = some v := by
  obtain ⟨es, hn⟩ := d
  change (k, v) ∈ es ↔ (es.find? fun e => e.1 = k).map Prod.snd = some v
  induction es with
  | nil => simp
  | cons e es ih =>
    rw [List.map_cons, List.nodup_cons] at hn
    obtain ⟨k', v'⟩ := e
    by_cases h : k' = k
    · subst h
      have hnot : (k', v) ∉ es := fun hm => hn.1 (List.mem_map.mpr ⟨_, hm, rfl⟩)
      rw [List.find?_cons_of_pos (by simp), List.mem_cons, or_iff_left hnot]
      simp [eq_comm]
    · rw [List.find?_cons_of_neg (by simpa using h), ← ih hn.2, List.mem_cons]
      exact or_iff_right fun he => h (congrArg Prod.fst he).symm

lemma mem_keys_set {d : OrderedDict K V} {k k' : K} {v : V} :
    k' ∈ (d.set k v).keys ↔ k' ∈ d.keys ∨ k' = k := by
  rw [keys_set]
  split_ifs with h
  · exact ⟨Or.inl, fun hk => hk.elim id fun heq => heq ▸ h⟩
  · simp

lemma mem_keys_iff {d : OrderedDict K V} {k : K} : k ∈ d.keys ↔ (d.get? k).isSome = true := by
  rw [keys, List.mem_map, Option.isSome_iff_exists]
  constructor
  · rintro ⟨e, he, rfl⟩
    exact ⟨e.2, (mem_entries_iff d e.1 e.2).mp he⟩
  · rintro ⟨v, hv⟩
    exact ⟨(k, v), (mem_entries_iff d k v).mpr hv, rfl⟩

omit [DecidableEq K] in
lemma eq_empty_iff {d : OrderedDict K V} : d.entries = [] ↔ d = empty := by
  constructor
  · obtain ⟨es, hn⟩ := d
    rintro rfl
    rfl
  · rintro rfl
    rfl

lemma entries_eq_nil {d : OrderedDict K V} (h : ∀ k, d.get? k = none) : d.entries = [] := by
  refine List.eq_nil_iff_forall_not_mem.mpr fun e he => ?_
  have hget := (mem_entries_iff d e.1 e.2).mp he
  rw [h e.1] at hget
  contradiction

section LastSetting

variable {B : Type*}

/-- The value a key has after a sequence of settings, if it is among them. -/
def lastFor (k : K) (l : List (K × V)) : Option V :=
  (l.filter fun p => p.1 = k).getLast?.map Prod.snd

@[simp] lemma lastFor_nil (k : K) : lastFor k ([] : List (K × V)) = none := rfl

lemma lastFor_concat (k : K) (l : List (K × V)) (p : K × V) :
    lastFor k (l ++ [p]) = if p.1 = k then some p.2 else lastFor k l := by
  by_cases h : p.1 = k <;> simp [lastFor, h]

lemma mem_of_lastFor {k : K} {v : V} {l : List (K × V)} (h : lastFor k l = some v) :
    (k, v) ∈ l := by
  obtain ⟨⟨k', v'⟩, hp, rfl⟩ := Option.map_eq_some_iff.mp h
  obtain ⟨hm, hk⟩ := List.mem_filter.mp (List.mem_of_getLast? hp)
  obtain rfl : k' = k := of_decide_eq_true hk
  exact hm

/-- Renaming keys and dropping others keeps the last value of a key that is kept apart. -/
lemma lastFor_filterMap {K' : Type*} [DecidableEq K'] {g : K × V → Option (K' × V)} {k : K} {k' : K'}
    (h : ∀ p, p.1 = k → g p = some (k', p.2)) (h' : ∀ p q, g p = some q → q.1 = k' → p.1 = k)
    (l : List (K × V)) : lastFor k' (l.filterMap g) = lastFor k l := by
  induction l using List.reverseRecOn with
  | nil => rfl
  | append_singleton l p ih =>
    rw [List.filterMap_append, lastFor_concat]
    by_cases hp : p.1 = k
    · have hg : [p].filterMap g = [(k', p.2)] := by simp [h p hp]
      rw [hg, lastFor_concat, if_pos rfl, if_pos hp]
    · rw [if_neg hp, ← ih]
      cases hg : g p with
      | none => simp [hg]
      | some q =>
        have hq : q.1 ≠ k' := fun hc => hp (h' p q hg hc)
        have hs : [p].filterMap g = [q] := by simp [hg]
        rw [hs, lastFor_concat, if_neg hq]

/-- What a fold of settings leaves in a view that every setting updates at one key. -/
lemma foldl_view {S : Type*} (f : S → K × V → S) (view : S → K → B) (val : V → B)
    {P : K × V → Prop} {I : S → Prop}
    (hI : ∀ s p, I s → P p → I (f s p))
    (hf : ∀ s p k, I s → P p → view (f s p) k = if p.1 = k then val p.2 else view s k)
    (l : List (K × V)) (hl : ∀ p ∈ l, P p) (s : S) (hs : I s) :
    I (l.foldl f s) ∧
      ∀ k, view (l.foldl f s) k = ((lastFor k l).map val).getD (view s k) := by
  induction l using List.reverseRecOn with
  | nil => exact ⟨hs, fun k => rfl⟩
  | append_singleton l p ih =>
    obtain ⟨hi, hv⟩ := ih fun q hq => hl q (List.mem_append_left _ hq)
    have hp := hl p (List.mem_append_right _ (List.mem_singleton_self p))
    rw [List.foldl_concat]
    refine ⟨hI _ p hi hp, fun k => ?_⟩
    rw [hf _ p k hi hp, lastFor_concat, hv]
    split_ifs <;> rfl

end LastSetting

lemma lastFor_map {V' : Type*} (f : V → V') (k : K) (l : List (K × V)) :
    lastFor k (l.map fun p => (p.1, f p.2)) = (lastFor k l).map f := by
  rw [lastFor, List.filter_map, List.getLast?_map, lastFor, Option.map_map, Option.map_map]
  rfl

def ofSettings (l : List (K × V)) : OrderedDict K V := l.foldl (fun d p => d.set p.1 p.2) empty

theorem get?_ofSettings (l : List (K × V)) (k : K) : (ofSettings l).get? k = lastFor k l := by
  have h := foldl_view (fun (d : OrderedDict K V) p => d.set p.1 p.2) get? some
    (P := fun _ => True) (I := fun _ => True) (fun _ _ _ _ => trivial)
    (fun d p k' _ _ => get?_set d p.1 k' p.2) l (fun _ _ => trivial) empty trivial
  rw [ofSettings, h.2 k]
  cases lastFor k l <;> rfl

lemma mem_of_mem_ofSettings {l : List (K × V)} {p : K × V} (h : p ∈ (ofSettings l).entries) :
    p ∈ l := by
  rw [mem_entries_iff, get?_ofSettings] at h
  exact mem_of_lastFor h

/-- Every key of a dictionary is set once, so its entries leave the dictionary itself. -/
lemma lastFor_entries (d : OrderedDict K V) (k : K) : lastFor k d.entries = d.get? k := by
  cases h : d.get? k with
  | none =>
    have hf : (d.entries.filter fun p => p.1 = k) = [] := by
      rw [List.filter_eq_nil_iff]
      rintro ⟨k', v⟩ hm hk
      obtain rfl : k' = k := of_decide_eq_true hk
      rw [mem_entries_iff, h] at hm
      contradiction
    rw [lastFor, hf]
    rfl
  | some v =>
    have hmem : (k, v) ∈ d.entries.filter fun p => p.1 = k := by
      simpa [mem_entries_iff] using h
    obtain ⟨p, hp⟩ := Option.ne_none_iff_exists'.mp
      (mt List.getLast?_eq_none_iff.mp (List.ne_nil_of_mem hmem))
    have hl : lastFor k d.entries = some p.2 := by rw [lastFor, hp, Option.map_some]
    rw [hl, ← h, (mem_entries_iff d k p.2).mp (mem_of_lastFor hl)]

lemma setEntry_new {k : K} {v : V} {es : List (K × V)} (h : k ∉ es.map Prod.fst) :
    setEntry k v es = es ++ [(k, v)] := by
  induction es with
  | nil => rfl
  | cons e es ih =>
    obtain ⟨hne, hes⟩ := List.ne_and_not_mem_of_not_mem_cons h
    rw [setEntry, if_neg hne.symm, ih hes, List.cons_append]

/-- Different keys stay in the order in which they are set. -/
lemma entries_ofSettings {l : List (K × V)} (h : (l.map Prod.fst).Nodup) :
    (ofSettings l).entries = l := by
  induction l using List.reverseRecOn with
  | nil => rfl
  | append_singleton l p ih =>
    rw [List.map_append, List.map_singleton, ← List.concat_eq_append] at h
    obtain ⟨hl, hp⟩ := List.nodup_concat _ _ |>.mp h
    rw [ofSettings, List.foldl_concat, ← ofSettings]
    change setEntry p.1 p.2 (ofSettings l).entries = _
    rw [ih hp, setEntry_new hl]

end OrderedDict
