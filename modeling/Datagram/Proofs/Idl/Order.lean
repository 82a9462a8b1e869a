import Datagram.Proofs.Idl.Expansion
import Datagram.Proofs.Idl.Lookup

/-! # The order of declarations

Structs are looked up by name, components by name and messages by key. Where names differ and there is
one header at most, each look-up has one answer wherever a struct stands, so the catalogue of a
document is a matter of its structs and not of their order. -/

namespace Datagram.Idl

/-! ## One answer wherever it stands -/

theorem findStruct?_eq_some_iff {structs : List Struct} (hn : (structs.map Struct.name).Nodup)
    {name : String} {s : Struct} :
    findStruct? structs name = some s ↔ s ∈ structs ∧ s.name = name := by
  constructor
  · intro h
    exact ⟨List.mem_of_find?_eq_some h, name_of_findStruct? h⟩
  · rintro ⟨hs, rfl⟩
    exact findStruct?_of_mem hn hs

theorem findStruct?_perm {structs structs' : List Struct} (hp : structs'.Perm structs)
    (hn : (structs.map Struct.name).Nodup) (name : String) :
    findStruct? structs' name = findStruct? structs name := by
  have hn' : (structs'.map Struct.name).Nodup := (hp.map _).nodup_iff.mpr hn
  apply Option.ext
  intro s
  rw [findStruct?_eq_some_iff hn, findStruct?_eq_some_iff hn', hp.mem_iff]

/-- No two structs are headers. -/
def SingleHeader (structs : List Struct) : Prop :=
  ∀ s ∈ structs, ∀ t ∈ structs, s.role = .header → t.role = .header → s = t

theorem header?_eq_some_iff {d : Document} (hone : SingleHeader d.structs) {h : Struct} :
    d.header? = some h ↔ h ∈ d.structs ∧ h.role = .header := by
  have hheader : ∀ s, d.header? = some s → s ∈ d.structs ∧ s.role = .header :=
    fun s hs => ⟨List.mem_of_find?_eq_some hs, by simpa using List.find?_some hs⟩
  refine ⟨hheader h, fun ⟨hh, hr⟩ => ?_⟩
  obtain ⟨s, hs⟩ : ∃ s, d.header? = some s := by
    rw [← Option.isSome_iff_exists, Document.header?, List.find?_isSome]
    exact ⟨h, hh, decide_eq_true hr⟩
  obtain ⟨hmem, hrole⟩ := hheader s hs
  rw [hs, hone s hmem h hh hrole hr]

/-! ## The same look-ups -/

theorem findStruct?_without_congr {structs structs' : List Struct}
    (h : ∀ name, findStruct? structs' name = findStruct? structs name) (name other : String) :
    findStruct? (without structs' name) other = findStruct? (without structs name) other := by
  by_cases hne : other = name
  · rw [hne, findStruct?_without_self, findStruct?_without_self]
  · rw [findStruct?_without hne, findStruct?_without hne, h]

/-- What a group becomes is a matter of the structs that are found. -/
theorem flatten_congr {structs structs' : List Struct}
    (h : ∀ name, findStruct? structs' name = findStruct? structs name) (e : Endian) (pre : String)
    (g : Group) : flatten structs' e pre g = flatten structs e pre g := by
  induction structs using expansion_induction generalizing structs' pre g with
  | step structs ih =>
    cases g with
    | bits first rest => rw [flatten, flatten]
    | single m =>
      cases hp : m.primitive.scalar? with
      | some scalar => rw [flatten_of_scalar hp, flatten_of_scalar hp]
      | none =>
        cases hs : findStruct? structs m.typeName with
        | none => rw [flatten_of_none hp hs, flatten_of_none hp ((h _).trans hs)]
        | some s =>
          rw [flatten_of_some hp hs, flatten_of_some hp ((h _).trans hs)]
          have hinner := findStruct?_without_congr h m.typeName
          exact List.flatMap_congr fun i _ => List.flatMap_congr fun g _ => ih _ s hs hinner _ g

variable {d d' : Document}

theorem structFields_congr (h : ∀ name, d'.struct? name = d.struct? name)
    (hd : d'.directives = d.directives) (s : Struct) : d'.structFields s = d.structFields s := by
  rw [Document.structFields, Document.structFields, hd]
  exact List.flatMap_congr fun g _ => flatten_congr (findStruct?_without_congr h s.name) _ _ g

theorem headerFields_congr (h : ∀ name, d'.struct? name = d.struct? name)
    (hd : d'.directives = d.directives) (s : Struct) (idText : String) :
    d'.headerFields s idText = d.headerFields s idText := by
  rw [Document.headerFields, Document.headerFields, hd]
  refine List.flatMap_congr fun g _ => ?_
  rw [flatten_congr (findStruct?_without_congr h s.name)]

theorem requestLayout_congr (h : ∀ name, d'.struct? name = d.struct? name)
    (hd : d'.directives = d.directives) (hh : d'.header? = d.header?) (s : Struct)
    (idText : String) : d'.requestLayout s idText = d.requestLayout s idText := by
  have hflatten : flatten d'.structs d'.directives.endian "" =
      flatten d.structs d.directives.endian "" := by
    funext g
    rw [hd]
    exact flatten_congr h _ _ g
  rw [Document.requestLayout, Document.requestLayout, hh, hflatten]
  cases d.header? with
  | none => rfl
  | some k => simp only [headerFields_congr h hd]

/-! ## Catalogues -/

theorem nodup_keys_messageStructs (hn : (d.structs.map Struct.name).Nodup) :
    (d.messageStructs.map fun x => messageKey x.2.1 x.1.name).Nodup := by
  rw [List.Nodup, List.pairwise_map]
  refine List.Pairwise.filterMap messageOf? ?_ (List.pairwise_map.mp hn)
  intro s t hst x hx y hy hkey
  have hname := name_of_messageKey hkey
  rw [(role_of_messageOf? hx).1, (role_of_messageOf? hy).1] at hname
  exact hst hname

section Perm

variable {structs : List Struct}

theorem struct?_perm (hn : (d.structs.map Struct.name).Nodup) (hp : structs.Perm d.structs)
    (name : String) : Document.struct? { d with structs } name = d.struct? name :=
  findStruct?_perm hp hn name

theorem header?_perm (hone : SingleHeader d.structs) (hp : structs.Perm d.structs) :
    Document.header? { d with structs } = d.header? := by
  have hone' : SingleHeader structs := fun s hs t ht => hone s (hp.subset hs) t (hp.subset ht)
  apply Option.ext
  intro h
  rw [header?_eq_some_iff hone', header?_eq_some_iff hone, hp.mem_iff]

theorem schemas_perm (hn : (d.structs.map Struct.name).Nodup) (hp : structs.Perm d.structs) :
    Document.schemas { d with structs } = d.schemas := by
  have husers : (d.userStructs.map Struct.name).Nodup := hn.sublist (List.filter_sublist.map _)
  have hcomponent : componentOf { d with structs } = componentOf d := by
    funext s
    rw [componentOf, componentOf, structFields_congr (struct?_perm hn hp) rfl]
  apply Dict.ext_get?
  intro name
  rw [get?_schemas, get?_schemas, Dict.lookup_map_eq_find? Struct.name,
    Dict.lookup_map_eq_find? Struct.name, hcomponent]
  exact congrArg _ (findStruct?_perm (hp.filter _) husers name)

theorem components_perm (hn : (d.structs.map Struct.name).Nodup) (hone : SingleHeader d.structs)
    (hp : structs.Perm d.structs) : Document.components { d with structs } = d.components := by
  have hfields := structFields_congr (struct?_perm hn hp) rfl
  unfold Document.components
  rw [schemas_perm hn hp, header?_perm hone hp]
  cases d.header? with
  | none => rfl
  | some h => simp only [hfields]

theorem messages_perm (hn : (d.structs.map Struct.name).Nodup) (hone : SingleHeader d.structs)
    (hp : structs.Perm d.structs) : Document.messages { d with structs } = d.messages := by
  have hrequest : Document.requestLayout { d with structs } = d.requestLayout := by
    funext s idText
    exact requestLayout_congr (struct?_perm hn hp) rfl (header?_perm hone hp) s idText
  have hn' : (structs.map Struct.name).Nodup := (hp.map _).nodup_iff.mpr hn
  have hentries := (hp.filterMap messageOf?).map fun x => (messageKey x.2.1 x.1.name,
    { Message.ofRequest (d.requestLayout x.1 x.2.2) with description := x.1.comment })
  apply Dict.ext_get?
  intro k
  apply Option.ext
  intro message
  unfold Document.messages
  rw [hrequest, Dict.get?_ofList_eq_some_iff, Dict.get?_ofList_eq_some_iff]
  · exact hentries.mem_iff
  · rw [List.map_map]
    exact nodup_keys_messageStructs hn
  · rw [List.map_map]
    exact nodup_keys_messageStructs (d := { d with structs }) hn'

/-- A document whose structs have different names and are not two headers has the same catalogue in
whatever order they are declared. -/
theorem toCatalog_perm (hn : (d.structs.map Struct.name).Nodup) (hone : SingleHeader d.structs)
    (hp : structs.Perm d.structs) (source : String) :
    Document.toCatalog { d with structs } source = d.toCatalog source := by
  unfold Document.toCatalog
  rw [components_perm hn hone hp, messages_perm hn hone hp]

/-- Two structs that hold each other, a header and a message, declared forwards and backwards. -/
theorem toCatalog_perm_mutual :
    let a : Struct := ⟨"A", .user, [
      ⟨"b", "B", .struct, none, none, false, ""⟩, ⟨"x", "int", .int true .w32, none, none, false, ""⟩], ""⟩
    let b : Struct := ⟨"B", .user, [
      ⟨"a", "A", .struct, some 2, none, false, ""⟩, ⟨"y", "bool", .bool, none, none, false, ""⟩], ""⟩
    let h : Struct := ⟨"H", .header, [⟨"msgId", "word", .int false .w16, none, none, false, ""⟩], ""⟩
    let m : Struct := ⟨"M", .message 7 "7", [
      ⟨"h", "H", .struct, none, none, false, ""⟩, ⟨"a", "A", .struct, none, none, false, ""⟩], ""⟩
    let d : Document := ⟨{}, [a, b, h, m]⟩
    (d.structs.map Struct.name).Nodup ∧ SingleHeader d.structs ∧ [m, h, b, a].Perm d.structs ∧
      Document.toCatalog ⟨{}, [m, h, b, a]⟩ "" = d.toCatalog "" ∧
      (d.structFields a).map Field.name = ["b.y", "x"] ∧
      (d.structFields b).map Field.name = ["a[0].x", "a[1].x", "y"] := by
  intro a b h m d
  have hn : (d.structs.map Struct.name).Nodup := by decide
  have hone : SingleHeader d.structs := by
    unfold SingleHeader
    decide
  have hp : [m, h, b, a].Perm d.structs := List.reverse_perm d.structs
  exact ⟨hn, hone, hp, toCatalog_perm hn hone hp "", by cbv, by cbv⟩

end Perm

end Datagram.Idl
