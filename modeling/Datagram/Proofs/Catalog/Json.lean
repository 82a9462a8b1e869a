import Datagram.Catalog.Json
import Datagram.Proofs.Json.Record

/-! # Catalogues read back from JSON

The notation of each type is faithful, from the members of a bit field up to whole catalogues. So a
catalogue that is written and read is the same catalogue with its references resolved, unless it is
not valid; then reading says why. -/

namespace Datagram

open Json

namespace BitMember

theorem faithful : Faithful toJson ofJson? := by
  intro b
  refine readsBack_record keys (by decide) rfl rfl ?_ ?_
  · exact ⟨plainMember_some (.string _), plainMember_map (fun _ => .nat _) _,
      plainMember_map .string _, plainMember_map .string _, plainMember_nonempty _,
      plainMember_map (fun d => (faithful_dict faithful_text d).plain) _⟩
  · intro r hr hmember
    have hname : r "name" = some (ofText b.name) := hmember "name"
    have hbit := get?_number UInt32.toNat_lt (hmember "bit")
    have hrange := get?_optional (fun s _ => faithful_text s) (hmember "bits")
    have hvalue := get?_optional (fun s _ => faithful_text s) (hmember "value")
    have hdescription := get?_nonempty (hmember "description")
    have hlabels := get?_optional (fun d _ => faithful_dict faithful_text d) (hmember "enum")
    simp only [ofJson?, hr, hname, hbit, hrange, hvalue, hdescription, hlabels,
      Option.bind_eq_bind, Option.bind_some, text?, ofText, Option.map_map, Function.comp_def,
      UInt32.ofNat_toNat, Option.map_id']
    rfl

end BitMember

theorem Endian.ofName?_name (e : Endian) : ofName? e.name = some e := by cases e <;> rfl

theorem Radix.ofName?_name (r : Radix) : ofName? r.name = some r := by cases r <;> rfl

namespace Field

theorem faithful : Faithful toJson ofJson? := by
  intro f
  refine readsBack_record keys (by decide) rfl rfl ?_ ?_
  · exact ⟨plainMember_some (.string _), plainMember_some (.string _), plainMember_map .string _,
      plainMember_map (fun _ => .nat _) _, plainMember_some (.string _), plainMember_nonempty _,
      plainMember_some (.string _), plainMember_map (fun d => (faithful_dict faithful_text d).plain) _,
      plainMember_map (fun bs => (faithful_list BitMember.faithful bs).plain) _,
      plainMember_map .string _⟩
  · intro r hr hmember
    have hname := get?_written (faithful_text f.name) "" (hmember "name")
    have htype := get?_written (faithful_named FieldType.ofName?_name f.type) .byte (hmember "type")
    have hvalue := get?_optional (fun s _ => faithful_text s) (hmember "value")
    have hsize := get?_number UInt64.toNat_lt (hmember "size")
    have hendian := get?_written (faithful_named Endian.ofName?_name f.endian) .big
      (hmember "endian")
    have hdescription := get?_nonempty (hmember "description")
    have hradix := get?_written (faithful_named Radix.ofName?_name f.radix) .decimal
      (hmember "format")
    have hlabels := get?_optional (fun d _ => faithful_dict faithful_text d) (hmember "enum")
    have hbits := get?_optional (fun bs _ => faithful_list BitMember.faithful bs) (hmember "bits")
    have htarget := get?_optional (fun s _ => faithful_text s) (hmember "$ref")
    simp only [ofJson?, hr, hname, htype, hvalue, hsize, hendian, hdescription, hradix, hlabels,
      hbits, htarget, Option.bind_eq_bind, Option.bind_some, Option.map_map, Function.comp_def,
      UInt64.ofNat_toNat, Option.map_id']
    rfl

end Field

namespace Layout

theorem faithful : Faithful toJson ofJson? := by
  intro l
  refine readsBack_record ["header", "payload"] (by decide) rfl rfl ?_ ?_
  · exact ⟨plainMember_some (faithful_list Field.faithful _).plain,
      plainMember_some (faithful_list Field.faithful _).plain⟩
  · intro r hr hmember
    have hheader := get?_written (faithful_list Field.faithful l.header) [] (hmember "header")
    have hpayload := get?_written (faithful_list Field.faithful l.payload) [] (hmember "payload")
    simp only [ofJson?, hr, hheader, hpayload, Option.bind_eq_bind, Option.bind_some]
    rfl

end Layout

namespace Endpoint

theorem faithful : Faithful toJson ofJson? := by
  intro e
  refine readsBack_record ["server", "ip", "port"] (by decide) rfl rfl ?_ ?_
  · exact ⟨plainMember_map .string _, plainMember_map .string _, plainMember_map (fun _ => .nat _) _⟩
  · intro r hr hmember
    have hserver := get?_optional (fun s _ => faithful_text s) (hmember "server")
    have hip := get?_optional (fun s _ => faithful_text s) (hmember "ip")
    have hport := get?_number UInt16.toNat_lt (hmember "port")
    simp only [ofJson?, hr, hserver, hip, hport, Option.bind_eq_bind, Option.bind_some,
      Option.map_map, Function.comp_def, UInt16.ofNat_toNat, Option.map_id']
    rfl

end Endpoint

namespace Message

theorem faithful : Faithful toJson ofJson? := by
  intro m
  refine readsBack_record keys (by decide) rfl rfl ?_ ?_
  · refine ⟨plainMember_nonempty _, plainMember_map .string _,
      plainMember_map (fun e => (Endpoint.faithful e).plain) _, plainMember_some ?_,
      plainMember_map (fun l => (Layout.faithful l).plain) _, plainMember_some (.nat _)⟩
    cases m.request with
    | none => exact .null
    | some l => exact (Layout.faithful l).plain
  · intro r hr hmember
    have hdescription := get?_nonempty (hmember "description")
    have hgroup := get?_optional (fun s _ => faithful_text s) (hmember "group")
    have hendpoint := get?_optional (fun e _ => Endpoint.faithful e) (hmember "endpoint")
    have hrequest := get?_nullable Layout.faithful (hmember "request")
    have hresponse := get?_optional (fun l _ => Layout.faithful l) (hmember "response")
    have htimeout := get?_written (readsBack_nat m.timeoutMs.toNat_lt) 1000 (hmember "timeoutMs")
    simp only [ofJson?, hr, hdescription, hgroup, hendpoint, hrequest, hresponse, htimeout,
      Option.bind_eq_bind, Option.bind_some, UInt64.ofNat_toNat]
    rfl

end Message

namespace Contact

theorem faithful : Faithful toJson ofJson? := by
  intro c
  refine readsBack_record ["name", "email"] (by decide) rfl rfl ?_ ?_
  · exact ⟨plainMember_some (.string _), plainMember_some (.string _)⟩
  · intro r hr hmember
    have hname := get?_written (faithful_text c.name) "" (hmember "name")
    have hemail := get?_written (faithful_text c.email) "" (hmember "email")
    simp only [ofJson?, hr, hname, hemail, Option.bind_eq_bind, Option.bind_some]
    rfl

end Contact

namespace Info

theorem faithful : Faithful toJson ofJson? := by
  intro i
  refine readsBack_record ["title", "description", "version", "contact"] (by decide) rfl rfl ?_ ?_
  · exact ⟨plainMember_some (.string _), plainMember_some (.string _), plainMember_some (.string _),
      plainMember_map (fun c => (Contact.faithful c).plain) _⟩
  · intro r hr hmember
    have htitle := get?_written (faithful_text i.title) "" (hmember "title")
    have hdescription := get?_written (faithful_text i.description) "" (hmember "description")
    have hversion := get?_written (faithful_text i.version) "" (hmember "version")
    have hcontact := get?_optional (fun c _ => Contact.faithful c) (hmember "contact")
    simp only [ofJson?, hr, htitle, hdescription, hversion, hcontact, Option.bind_eq_bind,
      Option.bind_some]
    rfl

end Info

namespace Server

theorem faithful : Faithful toJson ofJson? := by
  intro s
  refine readsBack_record ["name", "description", "ip", "port"] (by decide) rfl rfl ?_ ?_
  · exact ⟨plainMember_some (.string _), plainMember_some (.string _), plainMember_some (.string _),
      plainMember_some (.nat _)⟩
  · intro r hr hmember
    have hname := get?_written (faithful_text s.name) "" (hmember "name")
    have hdescription := get?_written (faithful_text s.description) "" (hmember "description")
    have hip := get?_written (faithful_text s.ip) "" (hmember "ip")
    have hport := get?_written (readsBack_nat s.port.toNat_lt) 0 (hmember "port")
    simp only [ofJson?, hr, hname, hdescription, hip, hport, Option.bind_eq_bind, Option.bind_some,
      UInt16.ofNat_toNat]
    rfl

end Server

namespace Component

theorem faithful : Faithful toJson ofJson? := by
  intro c
  refine readsBack_record ["description", "fields"] (by decide) rfl rfl ?_ ?_
  · exact ⟨plainMember_nonempty _, plainMember_some (faithful_list Field.faithful _).plain⟩
  · intro r hr hmember
    have hdescription := get?_nonempty (hmember "description")
    have hfields := get?_written (faithful_list Field.faithful c.fields) [] (hmember "fields")
    simp only [ofJson?, hr, hdescription, hfields, Option.bind_eq_bind, Option.bind_some]
    rfl

end Component

namespace Components

theorem faithful : Faithful toJson ofJson? := by
  intro c
  have hschemas := faithful_dict Component.faithful c.schemas
  have hheaders := faithful_dict (faithful_list Field.faithful) c.headers
  refine readsBack_record ["schemas", "headers"] (by decide) rfl rfl ?_ ?_
  · exact ⟨plainMember_some hschemas.plain, plainMember_some hheaders.plain⟩
  · intro r hr hmember
    simp only [ofJson?, hr, get?_written hschemas ∅ (hmember "schemas"),
      get?_written hheaders ∅ (hmember "headers"), Option.bind_eq_bind, Option.bind_some]
    rfl

end Components

namespace Catalog

theorem faithful : Faithful toJson ofJson? := by
  intro c
  have hservers := faithful_list Server.faithful c.servers
  have hmessages := faithful_dict Message.faithful c.messages
  refine readsBack_record keys (by decide) rfl rfl ?_ ?_
  · exact ⟨plainMember_some (.string _), plainMember_some (Info.faithful c.info).plain,
      plainMember_some hservers.plain, plainMember_some hmessages.plain,
      plainMember_map (fun k => (Components.faithful k).plain) _⟩
  · intro r hr hmember
    have hversion := get?_written (faithful_text c.version) "" (hmember "udpapi")
    have hinfo := get?_written (Info.faithful c.info) {} (hmember "info")
    have hcomponents := get?_optional (fun k _ => Components.faithful k) (hmember "components")
    simp only [ofJson?, hr, hversion, hinfo, get?_written hservers [] (hmember "servers"),
      get?_written hmessages ∅ (hmember "messages"), hcomponents, Option.bind_eq_bind,
      Option.bind_some]
    rfl

/-! ## Reading what was written -/

/-- A catalogue is written as an object. -/
theorem not_blank_toJsonText (c : Catalog) : c.toJsonText.toList.all Text.isBlank = false := by
  have hhead : ∃ s, c.toJsonText.toList = '\x7b' :: s := by
    rw [toJsonText, String.toList_ofList, toJson, ofRecord_eq, pretty, block]
    split
    · exact ⟨_, rfl⟩
    · exact ⟨_, by rw [List.append_assoc, List.append_assoc, List.append_assoc]; rfl⟩
  obtain ⟨s, hs⟩ := hhead
  rw [hs, List.all_cons, Text.isBlank_of_graphic (by decide) (by decide), Bool.false_and]

theorem ofJsonText_toJsonText_eq (c : Catalog) :
    ofJsonText c.toJsonText = c.validate.map fun _ => c.resolve := by
  have hread : (parse? c.toJsonText.toList).bind ofJson? = some c := by
    rw [toJsonText, String.toList_ofList, parse?_pretty (faithful c).plain, Option.bind_some,
      (faithful c).read_write]
  unfold ofJsonText
  simp only [not_blank_toJsonText, hread, Bool.false_eq_true, if_false]

/-- No message has a field that refers to a component of the catalogue. -/
def Settled (c : Catalog) : Prop :=
  ∀ k, c.components = some k → ∀ e ∈ c.messages.entries, ∀ l : Layout,
    e.2.request = some l ∨ e.2.response = some l →
      ∀ f ∈ l.header ++ l.payload, f.target?.bind k.lookup? = none

theorem resolveFields_of_unknown {k : Components} {fields : List Field}
    (h : ∀ f ∈ fields, f.target?.bind k.lookup? = none) : k.resolveFields fields = fields := by
  have hself : ∀ f ∈ fields, k.resolve f = [f] := by
    intro f hf
    rw [Components.resolve, h f hf, Option.getD_none]
  rw [Components.resolveFields, List.flatMap_congr hself, List.flatMap_singleton']

theorem resolveLayout_of_unknown {k : Components} {l : Layout}
    (h : ∀ f ∈ l.header ++ l.payload, f.target?.bind k.lookup? = none) :
    k.resolveLayout l = l := by
  rw [Components.resolveLayout,
    resolveFields_of_unknown fun f hf => h f (List.mem_append_left _ hf),
    resolveFields_of_unknown fun f hf => h f (List.mem_append_right _ hf)]

theorem resolve_of_settled {c : Catalog} (h : c.Settled) : c.resolve = c := by
  unfold resolve
  split
  · rfl
  · rename_i k hk
    have hlayout : ∀ e ∈ c.messages.entries, ∀ o : Option Layout,
        o = e.2.request ∨ o = e.2.response → o.map k.resolveLayout = o := by
      intro e he o ho
      cases o with
      | none => rfl
      | some l =>
        rw [Option.map_some, resolveLayout_of_unknown (h k hk e he l (ho.imp Eq.symm Eq.symm))]
    have hmessage : ∀ e ∈ c.messages.entries, k.resolveMessage e.2 = e.2 := by
      intro e he
      rw [Components.resolveMessage, hlayout e he _ (Or.inl rfl), hlayout e he _ (Or.inr rfl)]
    rw [Dict.map_eq_self hmessage]

/-- A valid catalogue is read back with its references resolved, and as it is if it has none to
resolve. Any other is refused for what makes it invalid. -/
theorem ofJsonText_toJsonText (c : Catalog) :
    (c.validate = .ok () → ofJsonText c.toJsonText = .ok c.resolve) ∧
    (c.validate = .ok () → c.Settled → ofJsonText c.toJsonText = .ok c) ∧
    (∀ fault, c.validate = .error fault →
      ofJsonText c.toJsonText = .error fault ∧ ∃ violation, fault = .invalid violation) := by
  refine ⟨?_, ?_, ?_⟩
  · intro hvalid
    rw [ofJsonText_toJsonText_eq, hvalid]
    rfl
  · intro hvalid hsettled
    rw [ofJsonText_toJsonText_eq, hvalid, resolve_of_settled hsettled]
    rfl
  · intro fault hfault
    refine ⟨?_, ?_⟩
    · rw [ofJsonText_toJsonText_eq, hfault]
      rfl
    · unfold validate at hfault
      split at hfault
      · exact ⟨_, (Except.error.inj hfault).symm⟩
      · split at hfault
        · exact ⟨_, (Except.error.inj hfault).symm⟩
        · cases hfault

theorem ofJsonText_referring :
    let k : Components :=
      { schemas := Dict.empty.insert "K" { description := "\t", fields := [Field.new "a\n" .byte] } }
    let c : Catalog :=
      { info := { title := "T" }
        messages := Dict.empty.insert "m\x01" (.ofRequest ⟨[.reference "#/components/schemas/K"], []⟩)
        components := some k }
    c.validate = .ok () ∧ c.resolve ≠ c ∧ ofJsonText c.toJsonText = .ok c.resolve := by
  intro k c
  have htitle : c.info.title.toList.all Text.isBlank = false := by decide
  have hrequests : c.messages.entries.find? (·.2.request.isNone) = none := by decide
  have hvalid : c.validate = .ok () := by
    rw [Catalog.validate, htitle, hrequests]
    rfl
  exact ⟨hvalid, by decide +kernel, (ofJsonText_toJsonText c).1 hvalid⟩

end Catalog

end Datagram
