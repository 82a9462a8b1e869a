import Datagram.Json.Record
import Datagram.Proofs.Dict
import Datagram.Proofs.Json.Value

/-! # Records read back

A notation for a type is faithful when what is written for a value is read as that value. Lists, maps
and records of faithful parts are faithful. A member that is left out is read as its default, so a
record may leave out exactly the members that have it. -/

namespace Datagram.Json

variable {α β : Type} {write : α → Json} {read : Json → Option α}

/-- What is written for a value is plain, stands for a value and not for its absence, and is read as
the value. -/
structure ReadsBack (write : α → Json) (read : Json → Option α) (x : α) : Prop where
  plain : Plain (write x)
  present : write x ≠ .null
  read_write : read (write x) = some x

def Faithful (write : α → Json) (read : Json → Option α) : Prop := ∀ x, ReadsBack write read x

theorem faithful_text : Faithful ofText text? := fun s => ⟨.string s, by simp [ofText], rfl⟩

theorem readsBack_nat {n bound : Nat} (h : n < bound) : ReadsBack .nat (nat? bound) n :=
  ⟨.nat n, by simp, by rw [nat?, if_pos h]⟩

theorem faithful_named {name : α → String} {ofName? : String → Option α}
    (h : ∀ x, ofName? (name x) = some x) :
    Faithful (fun x => ofText (name x)) (named? ofName?) :=
  fun x => ⟨.string (name x), by simp [ofText], h x⟩

theorem mapM_map_eq_some {f : α → β} {g : β → Option α} (h : ∀ x, g (f x) = some x) (xs : List α) :
    (xs.map f).mapM g = some xs := by
  induction xs with
  | nil => rfl
  | cons x xs ih =>
    rw [List.map_cons, List.mapM_cons, h, ih]
    rfl

theorem faithful_list (h : Faithful write read) : Faithful (ofList write) (list? read) := by
  intro xs
  refine ⟨?_, by simp [ofList], mapM_map_eq_some (fun x => (h x).read_write) xs⟩
  apply Plain.array
  intro j hj
  obtain ⟨x, _, rfl⟩ := List.mem_map.mp hj
  exact (h x).plain

/-- The members of an object whose keys are texts. -/
theorem members?_object (ms : List (String × Json)) :
    members? (.object (ms.map fun m => (some m.1, m.2))) = some ms := by
  unfold members?
  exact mapM_map_eq_some (f := fun m => (some m.1, m.2))
    (g := fun m : Option String × Json => m.1.map fun key => (key, m.2)) (fun _ => rfl) ms

theorem plain_object {ms : List (String × Json)} (h : ∀ m ∈ ms, Plain m.2) :
    Plain (.object (ms.map fun m => (some m.1, m.2))) := by
  apply Plain.object
  · intro m hm
    obtain ⟨_, _, rfl⟩ := List.mem_map.mp hm
    rfl
  · intro m hm
    obtain ⟨k, hk, rfl⟩ := List.mem_map.mp hm
    exact h k hk

theorem ofDict_eq (write : α → Json) (d : Dict α) :
    ofDict write d =
      .object ((d.entries.map fun e => (e.1, write e.2)).map fun m => (some m.1, m.2)) := by
  rw [ofDict, List.map_map]
  rfl

theorem faithful_dict (h : Faithful write read) : Faithful (ofDict write) (dict? read) := by
  intro d
  refine ⟨?_, by simp [ofDict], ?_⟩
  · rw [ofDict_eq]
    apply plain_object
    intro m hm
    obtain ⟨e, _, rfl⟩ := List.mem_map.mp hm
    exact (h e.2).plain
  · have hentries : (d.entries.map fun e => (e.1, write e.2)).mapM
        (fun m => (read m.2).map fun v => (m.1, v)) = some d.entries :=
      mapM_map_eq_some (fun e => by rw [(h e.2).read_write]; rfl) d.entries
    rw [ofDict_eq, dict?, members?_object, Option.bind_some, hentries, Option.map_some,
      Dict.ofList_eq_of_pairwise d.sorted]

/-! ## Records -/

/-- The members of a record that have a value. -/
def given (members : List (String × Option Json)) : List (String × Json) :=
  members.filterMap fun m => m.2.map fun j => (m.1, j)

theorem ofRecord_eq (members : List (String × Option Json)) :
    ofRecord members = .object ((given members).map fun m => (some m.1, m.2)) := by
  rw [ofRecord, given, List.map_filterMap]
  congr 1
  apply List.filterMap_congr
  rintro ⟨key, j⟩ _
  cases j <;> rfl

theorem sublist_keys_given (members : List (String × Option Json)) :
    ((given members).map Prod.fst).Sublist (members.map Prod.fst) := by
  induction members with
  | nil => exact List.Sublist.slnil
  | cons m ms ih =>
    obtain ⟨key, _ | j⟩ := m
    · exact ih.cons key
    · exact ih.cons_cons key

theorem lookup_given {members : List (String × Option Json)}
    (h : (members.map Prod.fst).Nodup) (key : String) :
    (given members).lookup key = (members.lookup key).join := by
  induction members with
  | nil => rfl
  | cons m ms ih =>
    obtain ⟨hm, hms⟩ := List.nodup_cons.mp h
    obtain ⟨k, _ | j⟩ := m
    · have hskip : given ((k, none) :: ms) = given ms := rfl
      rw [hskip, ih hms, Dict.lookup_cons_eq_if]
      by_cases hk : key = k
      · subst hk
        have hnone : ms.lookup key = none := by
          rw [List.lookup_eq_none_iff]
          intro p hp
          rw [bne_iff_ne]
          rintro rfl
          have hmem : p.1 ∈ ms.map Prod.fst := List.mem_map_of_mem hp
          exact hm hmem
        simp [hnone]
      · rw [if_neg hk]
    · have hkeep : given ((k, some j) :: ms) = (k, j) :: given ms := rfl
      rw [hkeep, Dict.lookup_cons_eq_if, Dict.lookup_cons_eq_if, ih hms]
      by_cases hk : key = k
      · rw [if_pos hk, if_pos hk]
        rfl
      · rw [if_neg hk, if_neg hk]

/-- A record has what its members have. -/
theorem record?_ofRecord {keys : List String} (members : List (String × Option Json))
    (hk : members.map Prod.fst = keys) (hn : keys.Nodup) :
    ∃ r, record? keys (ofRecord members) = some r ∧ ∀ key, r key = (members.lookup key).join := by
  have hkeys : (members.map Prod.fst).Nodup := hk ▸ hn
  have hknown : (((given members).map Prod.fst).filter (keys.contains ·)).Nodup :=
    (hkeys.sublist (sublist_keys_given members)).filter _
  refine ⟨fun key => (given members).lookup key, ?_, lookup_given hkeys⟩
  rw [ofRecord_eq]
  unfold record?
  dsimp only
  rw [members?_object, Option.bind_some, if_pos hknown]

/-! ## The members of a record -/

/-- A member that has a value only where the value is plain. -/
def PlainMember (j : Option Json) : Prop := ∀ value, j = some value → Plain value

theorem plain_ofRecord {members : List (String × Option Json)}
    (h : ∀ m ∈ members, PlainMember m.2) : Plain (ofRecord members) := by
  rw [ofRecord_eq]
  apply plain_object
  intro m hm
  obtain ⟨k, hk, heq⟩ := List.mem_filterMap.mp hm
  obtain ⟨j, hj, rfl⟩ := Option.map_eq_some_iff.mp heq
  exact h k hk j hj

theorem plainMember_some {j : Json} (h : Plain j) : PlainMember (some j) := by
  intro value hvalue
  exact Option.some.inj hvalue ▸ h

theorem plainMember_map {write : α → Json} (h : ∀ x, Plain (write x)) (x : Option α) :
    PlainMember (x.map write) := by
  intro j hj
  obtain ⟨v, _, rfl⟩ := Option.map_eq_some_iff.mp hj
  exact h v

theorem plainMember_nonempty (s : String) : PlainMember (ofNonempty s) := by
  intro j hj
  unfold ofNonempty at hj
  split at hj
  · cases hj
  · exact Option.some.inj hj ▸ Plain.string s

variable {r : Record} {key : String}

theorem get?_written {x : α} (h : ReadsBack write read x) (default : α)
    (hr : r key = some (write x)) : r.get? key default read = some x := by
  rw [Record.get?, hr]
  exact h.read_write

theorem option?_write {x : α} (h : ReadsBack write read x) :
    option? read (write x) = some (some x) := by
  obtain ⟨_, hpresent, hread⟩ := h
  generalize write x = j at hpresent hread
  cases j <;> first | exact absurd rfl hpresent | simp [option?, hread]

theorem get?_optional {x : Option α} (h : ∀ v, x = some v → ReadsBack write read v)
    (hr : r key = x.map write) : r.get? key none (option? read) = some x := by
  rw [Record.get?, hr]
  cases x with
  | none => rfl
  | some v => exact option?_write (h v rfl)

/-- An absent value may be written as null. -/
theorem get?_nullable {x : Option α} (h : Faithful write read)
    (hr : r key = some (x.elim .null write)) : r.get? key none (option? read) = some x := by
  rw [Record.get?, hr]
  cases x with
  | none => rfl
  | some v => exact option?_write (h v)

/-- A number of a type with a bound. -/
theorem get?_number {toNat : α → Nat} {bound : Nat} (h : ∀ i, toNat i < bound) {x : Option α}
    (hr : r key = x.map fun i => .nat (toNat i)) :
    r.get? key none (option? (nat? bound)) = some (x.map toNat) := by
  have hwritten : r key = (x.map toNat).map Json.nat := by
    rw [hr, Option.map_map]
    rfl
  refine get?_optional (fun n hn => ?_) hwritten
  obtain ⟨i, _, rfl⟩ := Option.map_eq_some_iff.mp hn
  exact readsBack_nat (h i)

/-- A text that is left out is empty. -/
theorem get?_nonempty {s : String} (hr : r key = ofNonempty s) :
    r.get? key "" text? = some s := by
  rw [Record.get?, hr, ofNonempty]
  by_cases hs : s = ""
  · rw [if_pos hs, hs]
  · rw [if_neg hs]
    rfl

/-- A record is read back if each of its members is, whatever they are. -/
theorem readsBack_record (keys : List String) (hn : keys.Nodup) {x : α}
    {members : List (String × Option Json)} (hwrite : write x = ofRecord members)
    (hk : members.map Prod.fst = keys)
    (hplain : members.Forall fun m => PlainMember m.2)
    (hread : ∀ r, record? keys (write x) = some r →
      (∀ key, r key = (members.lookup key).join) → read (write x) = some x) :
    ReadsBack write read x := by
  obtain ⟨r, hr, hmember⟩ := record?_ofRecord members hk hn
  refine ⟨?_, ?_, hread r (hwrite ▸ hr) hmember⟩
  · exact hwrite ▸ plain_ofRecord (List.forall_iff_forall_mem.mp hplain)
  · rw [hwrite, ofRecord]
    exact Json.noConfusion

end Datagram.Json
