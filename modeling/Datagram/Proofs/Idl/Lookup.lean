import Datagram.Proofs.Dict
import Datagram.Proofs.Idl.MessageKey

/-! # What the catalogue of a document holds

A user struct is found among the schemas under its name and a message under its key, unless another
struct has taken the name. -/

namespace Datagram.Idl

open Datagram.Text

/-! ## Components -/

/-- The component that a struct becomes. -/
def componentOf (d : Document) (s : Struct) : Component :=
  { description := s.comment, fields := d.structFields s }

theorem get?_schemas (d : Document) (name : String) :
    d.schemas.get? name = (d.userStructs.map fun s => (s.name, componentOf d s)).lookup name := by
  have h := Dict.get?_foldl_insertNew Struct.name (componentOf d) d.userStructs ∅ name
  exact h

/-- A user struct is found under its name if it is the first struct with this name. -/
theorem get?_schemas_of_user {d : Document} {s : Struct} (hs : d.struct? s.name = some s)
    (hr : s.role = .user) : d.schemas.get? s.name = some (componentOf d s) := by
  have hfind : d.userStructs.find? (fun t => t.name = s.name) = some s := by
    obtain ⟨hname, before, after, hsplit, hbefore⟩ := List.find?_eq_some_iff_append.mp hs
    rw [Document.userStructs, List.find?_filter, List.find?_eq_some_iff_append]
    refine ⟨by simpa using hr, before, after, hsplit, fun t ht => ?_⟩
    have hother := hbefore t ht
    simp only [Bool.not_eq_true', decide_eq_false_iff_not] at hother
    simp [hother]
  rw [get?_schemas, Dict.lookup_map_eq_find? Struct.name (componentOf d), hfind]
  rfl

theorem get?_headers {d : Document} {h : Struct} (hh : d.header? = some h) :
    d.components.headers.get? commonHeader = some (d.structFields h) := by
  unfold Document.components
  rw [hh]
  exact (Dict.get?_insert _ _ _ _).trans (if_pos rfl)

theorem components_toCatalog (d : Document) (source : String) : (d.toCatalog source).components =
    if d.components.isEmpty then none else some d.components := rfl

theorem components_of_schema {d : Document} {name : String} {k : Component}
    (h : d.schemas.get? name = some k) (source : String) :
    (d.toCatalog source).components = some d.components := by
  have hfull : d.components.isEmpty = false := by
    rw [Components.isEmpty, Bool.and_eq_false_iff]
    exact Or.inl (Dict.isEmpty_of_get? h)
  rw [components_toCatalog, hfull]
  rfl

theorem components_of_header {d : Document} {h : Struct} (hh : d.header? = some h)
    (source : String) : (d.toCatalog source).components = some d.components := by
  have hfull : d.components.isEmpty = false := by
    rw [Components.isEmpty, Bool.and_eq_false_iff]
    exact Or.inr (Dict.isEmpty_of_get? (get?_headers hh))
  rw [components_toCatalog, hfull]
  rfl

/-! ## Messages -/

/-- What a struct says of a message, if it is that of one. -/
def messageOf? (s : Struct) : Option (Struct × Nat × String) :=
  match s.role with
  | .message id idText => some (s, id, idText)
  | _ => none

theorem messageOf?_of_role {s : Struct} {id : Nat} {idText : String}
    (h : s.role = .message id idText) : messageOf? s = some (s, id, idText) := by
  rw [messageOf?, h]

theorem role_of_messageOf? {s : Struct} {x : Struct × Nat × String} (h : messageOf? s = some x) :
    x.1 = s ∧ ∃ idText, s.role = .message x.2.1 idText := by
  rw [messageOf?] at h
  split at h
  · rename_i id idText hrole
    rw [← Option.some.inj h]
    exact ⟨rfl, idText, hrole⟩
  · cases h

/-- The last declaration of a message with this number and name. -/
structure LastDeclaration (d : Document) (s : Struct) (id : Nat) (idText : String) : Prop where
  role : s.role = .message id idText
  last : ∃ before after, d.structs = before ++ s :: after ∧
    ∀ t ∈ after, t.name = s.name → ∀ other, t.role ≠ .message id other

theorem LastDeclaration.mem {d : Document} {s : Struct} {id : Nat} {idText : String}
    (h : LastDeclaration d s id idText) : s ∈ d.structs := by
  obtain ⟨before, after, hsplit, _⟩ := h.last
  rw [hsplit]
  exact List.mem_append_right before List.mem_cons_self

/-- A message is found under its key as it is declared last. -/
theorem LastDeclaration.get?_messages {d : Document} {s : Struct} {id : Nat} {idText : String}
    (h : LastDeclaration d s id idText) : d.messages.get? (messageKey id s.name) =
      some { Message.ofRequest (d.requestLayout s idText) with description := s.comment } := by
  obtain ⟨before, after, hsplit, hafter⟩ := h.last
  have hstructs : d.messageStructs =
      before.filterMap messageOf? ++ (s, id, idText) :: after.filterMap messageOf? := by
    rw [← List.filterMap_cons_some (messageOf?_of_role h.role), ← List.filterMap_append, ← hsplit]
    rfl
  rw [Document.messages, hstructs, List.map_append, List.map_cons]
  apply Dict.get?_ofList_of_last
  rintro e he heq
  obtain ⟨x, hx, rfl⟩ := List.mem_map.mp he
  obtain ⟨t, ht, htx⟩ := List.mem_filterMap.mp hx
  obtain ⟨rfl, other, hrole⟩ := role_of_messageOf? htx
  have hname : x.1.name = s.name := name_of_messageKey heq
  have hid : x.2.1 = id := id_of_messageKey heq
  exact hafter x.1 ht hname other (hid ▸ hrole)

/-- Where structs have different names every message is declared last. -/
theorem lastDeclaration_of_nodup {d : Document} (hn : (d.structs.map Struct.name).Nodup) {s : Struct}
    (hs : s ∈ d.structs) {id : Nat} {idText : String} (hr : s.role = .message id idText) :
    LastDeclaration d s id idText := by
  obtain ⟨before, after, hsplit⟩ := List.append_of_mem hs
  refine ⟨hr, before, after, hsplit, ?_⟩
  intro t ht hname
  rw [hsplit, List.map_append, List.map_cons] at hn
  have hother : s.name ∉ after.map Struct.name := (List.nodup_cons.mp hn.of_append_right).1
  exact absurd (hname ▸ List.mem_map_of_mem ht) hother

theorem get?_messages {d : Document} (hn : (d.structs.map Struct.name).Nodup) {s : Struct}
    (hs : s ∈ d.structs) {id : Nat} {idText : String} (hr : s.role = .message id idText) :
    d.messages.get? (messageKey id s.name) =
      some { Message.ofRequest (d.requestLayout s idText) with description := s.comment } :=
  (lastDeclaration_of_nodup hn hs hr).get?_messages

end Datagram.Idl
