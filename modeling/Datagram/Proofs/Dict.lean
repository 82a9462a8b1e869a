import Datagram.Dict
import Mathlib.Data.List.Basic
import Mathlib.Data.List.Dedup
import Mathlib.Data.List.Forall2
import Mathlib.Data.List.Nodup

/-! # Looking up in a map of texts

A map is what its lookups say: a key has the value of its one entry, and two maps with the same
lookups are equal. -/

namespace Datagram.Dict

variable {α β : Type}

theorem lookup_cons_eq_if (e : String × α) (es : List (String × α)) (k : String) :
    (e :: es).lookup k = if k = e.1 then some e.2 else es.lookup k := by
  obtain ⟨k', v⟩ := e
  rw [List.lookup_cons]
  by_cases h : k = k'
  · simp [h]
  · simp [h, beq_eq_false_iff_ne.mpr h]

theorem lookup_map_eq_find? (key : β → String) (value : β → α) (xs : List β)
    (k : String) :
    (xs.map fun x => (key x, value x)).lookup k = (xs.find? fun x => key x = k).map value := by
  induction xs with
  | nil => rfl
  | cons x xs ih =>
    rw [List.map_cons, lookup_cons_eq_if, ih]
    by_cases h : k = key x
    · simp [h]
    · simp [h, Ne.symm h]

theorem get?_eq_some_iff {d : Dict α} {k : String} {v : α} :
    d.get? k = some v ↔ (k, v) ∈ d.entries := by
  unfold get?
  have hs := d.sorted
  generalize d.entries = es at hs
  induction es with
  | nil => simp
  | cons e es ih =>
    obtain ⟨hd, hs⟩ := List.pairwise_cons.mp hs
    rw [lookup_cons_eq_if]
    by_cases hk : k = e.1
    · subst hk
      simp only [if_true, Option.some.injEq, List.mem_cons]
      constructor
      · rintro rfl
        exact Or.inl rfl
      · rintro (h | h)
        · rw [← h]
        · exact absurd (hd _ h) (String.lt_irrefl _)
    · rw [if_neg hk, List.mem_cons]
      refine (ih hs).trans ?_
      constructor
      · exact Or.inr
      · rintro (h | h)
        · exact absurd (congrArg Prod.fst h) hk
        · exact h

theorem isEmpty_of_get? {d : Dict α} {k : String} {v : α} (h : d.get? k = some v) :
    d.isEmpty = false := by
  rw [isEmpty, List.isEmpty_eq_false_iff]
  exact List.ne_nil_of_mem (get?_eq_some_iff.mp h)

theorem ext_entries {d e : Dict α} (h : d.entries = e.entries) : d = e := by
  cases d
  cases e
  cases h
  rfl

theorem map_eq_self {f : α → α} {d : Dict α} (h : ∀ e ∈ d.entries, f e.2 = e.2) : d.map f = d := by
  have hentry : ∀ e ∈ d.entries, (e.1, f e.2) = e := by
    intro e he
    rw [h e he]
  apply ext_entries
  show d.entries.map (fun e => (e.1, f e.2)) = d.entries
  rw [List.map_congr_left hentry, List.map_id']

theorem map_eq_iff {f : α → β} {d : Dict α} {d' : Dict β} :
    d.map f = d' ↔ List.Forall₂ (fun e e' => e'.1 = e.1 ∧ f e.2 = e'.2) d.entries d'.entries := by
  have hentries : d.map f = d' ↔ d.entries.map (fun e => (e.1, f e.2)) = d'.entries :=
    ⟨congrArg entries, fun h => ext_entries h⟩
  rw [hentries, ← List.forall₂_eq_eq_eq, List.forall₂_map_left_iff]
  have hentry : ∀ (e : String × α) (e' : String × β), (e.1, f e.2) = e' ↔ e'.1 = e.1 ∧ f e.2 = e'.2 := by
    intro e e'
    rw [Prod.ext_iff]
    exact and_congr_left' eq_comm
  simp only [hentry]

theorem ext_get? {d e : Dict α} (h : ∀ k, d.get? k = e.get? k) : d = e := by
  have hmem : ∀ x, x ∈ d.entries ↔ x ∈ e.entries := by
    rintro ⟨k, v⟩
    rw [← get?_eq_some_iff, ← get?_eq_some_iff, h]
  have heq : d.entries = e.entries := by
    have hasymm : ∀ a b : String × α, a ∈ d.entries → b ∈ e.entries → a.1 < b.1 → b.1 < a.1 →
        a = b := by
      intro a b _ _ hab hba
      exact absurd (String.lt_trans hab hba) (String.lt_irrefl _)
    refine List.Perm.eq_of_pairwise hasymm d.sorted e.sorted ?_
    refine (List.perm_ext_iff_of_nodup ?_ ?_).mpr hmem
    · exact d.sorted.imp fun hab heq => absurd (heq ▸ hab) (String.lt_irrefl _)
    · exact e.sorted.imp fun hab heq => absurd (heq ▸ hab) (String.lt_irrefl _)
  exact ext_entries heq

theorem get?_insert (d : Dict α) (k : String) (v : α) (k' : String) :
    (d.insert k v).get? k' = if k' = k then some v else d.get? k' := by
  have hs := d.sorted
  simp only [get?, insert]
  generalize d.entries = es at hs
  induction es with
  | nil => by_cases h : k' = k <;> simp [insertEntry, h]
  | cons e es ih =>
    obtain ⟨hd, hs⟩ := List.pairwise_cons.mp hs
    rw [insertEntry]
    split
    · rename_i hlt
      rw [lookup_cons_eq_if, ih hs, lookup_cons_eq_if]
      by_cases h : k' = k
      · subst h
        have hne : k' ≠ e.1 := by
          rintro rfl
          exact String.lt_irrefl _ hlt
        simp [hne]
      · simp [h]
    · split
      · rename_i _ heq
        subst heq
        by_cases h : k' = e.1 <;> simp [lookup_cons_eq_if, h]
      · by_cases h : k' = k <;> simp [lookup_cons_eq_if, h]

theorem get?_empty (k : String) : (empty : Dict α).get? k = none := rfl

/-- Of entries with one key the last is found. -/
theorem get?_ofList (es : List (String × α)) (k : String) :
    (ofList es).get? k = es.reverse.lookup k := by
  have aux : ∀ d : Dict α, (es.foldl (fun d e => d.insert e.1 e.2) d).get? k =
      (es.reverse.lookup k).or (d.get? k) := by
    induction es with
    | nil => simp
    | cons e es ih =>
      intro d
      rw [List.foldl_cons, ih, List.reverse_cons, List.lookup_append, get?_insert,
        lookup_cons_eq_if, List.lookup_nil]
      by_cases h : k = e.1 <;> cases es.reverse.lookup k <;> simp [h]
  simpa [ofList, get?_empty] using aux empty

/-- An entry is found if no entry behind it has its key. -/
theorem get?_ofList_of_last {a b : List (String × α)} {k : String} (hb : ∀ e ∈ b, e.1 ≠ k) (v : α) :
    (ofList (a ++ (k, v) :: b)).get? k = some v := by
  rw [get?_ofList, List.lookup_eq_some_iff]
  refine ⟨b.reverse, a.reverse, by simp, ?_⟩
  intro e he
  rw [bne_iff_ne]
  exact (hb e (List.mem_reverse.mp he)).symm

theorem get?_ofList_of_mem {es : List (String × α)} (hn : (es.map Prod.fst).Nodup) {k : String}
    {v : α} (h : (k, v) ∈ es) : (ofList es).get? k = some v := by
  obtain ⟨a, b, rfl⟩ := List.append_of_mem h
  rw [List.map_append, List.map_cons] at hn
  have hk : k ∉ b.map Prod.fst := (List.nodup_cons.mp hn.of_append_right).1
  apply get?_ofList_of_last
  rintro e he rfl
  exact hk (List.mem_map_of_mem he)

theorem mem_of_get?_ofList {es : List (String × α)} {k : String} {v : α}
    (h : (ofList es).get? k = some v) : (k, v) ∈ es := by
  rw [get?_ofList, List.lookup_eq_some_iff] at h
  obtain ⟨a, b, hab, _⟩ := h
  rw [← List.mem_reverse, hab]
  simp

theorem get?_ofList_eq_some_iff {es : List (String × α)} (hn : (es.map Prod.fst).Nodup)
    {k : String} {v : α} : (ofList es).get? k = some v ↔ (k, v) ∈ es :=
  ⟨mem_of_get?_ofList, get?_ofList_of_mem hn⟩

theorem nodup_keys (d : Dict α) : d.keys.Nodup :=
  List.pairwise_map.mpr (d.sorted.imp fun hab heq => absurd (heq ▸ hab) (String.lt_irrefl _))

/-- Each key of some entries is once among those of the map. -/
theorem keys_ofList_perm (es : List (String × α)) :
    (ofList es).keys.Perm (es.map Prod.fst).dedup := by
  refine (List.perm_ext_iff_of_nodup (nodup_keys _) (List.nodup_dedup _)).mpr fun k => ?_
  rw [List.mem_dedup]
  constructor
  · intro hk
    obtain ⟨e, he, rfl⟩ := List.mem_map.mp hk
    exact List.mem_map_of_mem (mem_of_get?_ofList (get?_eq_some_iff.mpr he))
  · intro hk
    obtain ⟨v, hv⟩ : ∃ v, (ofList es).get? k = some v := by
      rw [get?_ofList, ← Option.isSome_iff_exists, ← Option.ne_none_iff_isSome, ne_eq,
        List.lookup_eq_none_iff]
      intro hnone
      obtain ⟨e, he, rfl⟩ := List.mem_map.mp hk
      simpa using hnone e (List.mem_reverse.mpr he)
    exact List.mem_map_of_mem (get?_eq_some_iff.mp hv)

/-- Entries in ascending order of their keys are the entries of a map. -/
theorem ofList_eq_of_pairwise {es : List (String × α)}
    (h : es.Pairwise (fun a b => a.1 < b.1)) : ofList es = ⟨es, h⟩ := by
  apply ext_get?
  intro k
  have hn : (es.map Prod.fst).Nodup :=
    List.pairwise_map.mpr (h.imp fun hab heq => absurd (heq ▸ hab) (String.lt_irrefl _))
  apply Option.ext
  intro v
  rw [get?_ofList_eq_some_iff hn, get?_eq_some_iff]

/-- Where entries are inserted only under new keys, the first one with a key is found. -/
theorem get?_foldl_insertNew (key : β → String) (value : β → α) (xs : List β) (d : Dict α)
    (k : String) :
    (xs.foldl (fun d x => if d.contains (key x) then d else d.insert (key x) (value x)) d).get? k =
      (d.get? k).or ((xs.map fun x => (key x, value x)).lookup k) := by
  induction xs generalizing d with
  | nil => simp
  | cons x xs ih =>
    rw [List.foldl_cons, ih, List.map_cons, lookup_cons_eq_if]
    by_cases hd : d.contains (key x) = true
    · rw [if_pos hd]
      by_cases hk : k = key x
      · subst hk
        obtain ⟨v, hv⟩ := Option.isSome_iff_exists.mp hd
        simp [hv]
      · simp [hk]
    · rw [if_neg hd, get?_insert]
      by_cases hk : k = key x
      · subst hk
        have hnone : d.get? (key x) = none := by simpa [contains] using hd
        simp [hnone]
      · simp [hk]

end Datagram.Dict
