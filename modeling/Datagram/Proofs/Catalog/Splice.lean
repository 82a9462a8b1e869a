import Datagram.Proofs.Catalog.Reload
import Datagram.Proofs.Layout
import Datagram.Codec.Decode
import Datagram.Codec.Encode

/-! # References replaced by components

Resolving a catalogue replaces each entry of a list that names a component by the component's fields,
in their place and as they stand there, and changes nothing else. Entries that name no component stay.
If they are references they are not on the wire. -/

namespace Datagram

/-! ## Entries that name a component -/

namespace Components

/-- A field refers to a component by its path among the schemas or among the headers. -/
inductive RefersTo (k : Components) (f : Field) : List Field → Prop where
  | schema {name : String} {component : Component} :
      f.target = some ("#/components/schemas/" ++ name) → (name, component) ∈ k.schemas.entries →
        RefersTo k f component.fields
  | header {name : String} {fields : List Field} :
      f.target = some ("#/components/headers/" ++ name) → (name, fields) ∈ k.headers.entries →
        RefersTo k f fields

/-- A list, and the list with components in place of the entries that refer to them. -/
inductive Splices (k : Components) : List Field → List Field → Prop where
  | nil : Splices k [] []
  | target {f : Field} {fields rest out : List Field} :
      k.RefersTo f fields → Splices k rest out → Splices k (f :: rest) (fields ++ out)
  | stays {f : Field} {rest out : List Field} :
      (∀ fields, ¬ k.RefersTo f fields) → Splices k rest out → Splices k (f :: rest) (f :: out)

/-- The field lists of the components that the entries of a list refer to, in the order of the entries. -/
def targets (k : Components) (fields : List Field) : List (List Field) :=
  fields.filterMap fun f => f.target?.bind k.lookup?

variable {k : Components} {f : Field} {fields out : List Field}

theorem target?_of_target {path : String} (h : f.target = some path) (hne : path.toList ≠ []) :
    f.target? = some path := by
  have hpath : path ≠ "" := by
    rintro rfl
    exact hne rfl
  rw [Field.target?, h, Option.filter_some, if_pos (decide_eq_true hpath)]

theorem lookup?_schema (k : Components) (name : String) :
    k.lookup? ("#/components/schemas/" ++ name) = (k.schemas.get? name).map Component.fields := by
  have hpath : schemaPath.isPrefixOf? ("#/components/schemas/" ++ name).toList = some name.toList := by
    rw [List.isPrefixOf?_eq_some_iff_append_eq, String.toList_append]
    rfl
  rw [lookup?, hpath]
  simp only [String.ofList_toList]

theorem lookup?_header (k : Components) (name : String) :
    k.lookup? ("#/components/headers/" ++ name) = k.headers.get? name := by
  have hother : schemaPath.isPrefixOf? ("#/components/headers/" ++ name).toList = none := by
    rw [String.toList_append]
    rfl
  have hpath : headerPath.isPrefixOf? ("#/components/headers/" ++ name).toList = some name.toList := by
    rw [List.isPrefixOf?_eq_some_iff_append_eq, String.toList_append]
    rfl
  rw [lookup?, hother, hpath]
  simp only [String.ofList_toList]

theorem refersTo_of_lookup? {path : String} (htarget : f.target = some path)
    (h : k.lookup? path = some fields) : k.RefersTo f fields := by
  unfold lookup? at h
  split at h
  · rename_i name hname
    obtain ⟨component, hget, rfl⟩ := Option.map_eq_some_iff.mp h
    refine .schema ?_ (Dict.get?_eq_some_iff.mp hget)
    rw [htarget, ← String.ofList_toList (s := path),
      ← List.isPrefixOf?_eq_some_iff_append_eq.mp hname, String.ofList_append]
    rfl
  · split at h
    · rename_i name hname
      refine .header ?_ (Dict.get?_eq_some_iff.mp h)
      rw [htarget, ← String.ofList_toList (s := path),
        ← List.isPrefixOf?_eq_some_iff_append_eq.mp hname, String.ofList_append]
      rfl
    · cases h

theorem lookup?_target_eq_some_iff : f.target?.bind k.lookup? = some fields ↔ k.RefersTo f fields := by
  constructor
  · intro h
    obtain ⟨path, hpath, hfound⟩ := Option.bind_eq_some_iff.mp h
    exact refersTo_of_lookup? (Option.filter_eq_some_iff.mp hpath).1 hfound
  · intro h
    cases h with
    | schema htarget hmem =>
      rw [target?_of_target htarget (by simp), Option.bind_some, lookup?_schema,
        Dict.get?_eq_some_iff.mpr hmem]
      rfl
    | header htarget hmem =>
      rw [target?_of_target htarget (by simp), Option.bind_some, lookup?_header,
        Dict.get?_eq_some_iff.mpr hmem]

theorem lookup?_target_eq_none_iff :
    f.target?.bind k.lookup? = none ↔ ∀ fields, ¬ k.RefersTo f fields := by
  rw [Option.eq_none_iff_forall_ne_some]
  exact forall_congr' fun fields => not_congr lookup?_target_eq_some_iff

/-! ## Lists -/

theorem resolveFields_cons (k : Components) (f : Field) (fields : List Field) :
    k.resolveFields (f :: fields) = k.resolve f ++ k.resolveFields fields := List.flatMap_cons ..

theorem resolve_of_refersTo (h : k.RefersTo f fields) : k.resolve f = fields := by
  rw [resolve, lookup?_target_eq_some_iff.mpr h, Option.getD_some]

theorem resolve_of_unknown (h : ∀ fields, ¬ k.RefersTo f fields) : k.resolve f = [f] := by
  rw [resolve, lookup?_target_eq_none_iff.mpr h, Option.getD_none]

theorem splices_resolveFields (k : Components) (fields : List Field) :
    k.Splices fields (k.resolveFields fields) := by
  induction fields with
  | nil => exact .nil
  | cons f fields ih =>
    rw [resolveFields_cons]
    by_cases h : ∃ spliced, k.RefersTo f spliced
    · obtain ⟨spliced, hspliced⟩ := h
      rw [resolve_of_refersTo hspliced]
      exact .target hspliced ih
    · have hunknown : ∀ spliced, ¬ k.RefersTo f spliced := not_exists.mp h
      rw [resolve_of_unknown hunknown]
      exact .stays hunknown ih

theorem resolveFields_eq_iff : k.resolveFields fields = out ↔ k.Splices fields out := by
  constructor
  · rintro rfl
    exact splices_resolveFields k fields
  · intro h
    induction h with
    | nil => rfl
    | target hspliced _ ih => rw [resolveFields_cons, resolve_of_refersTo hspliced, ih]
    | stays hunknown _ ih => rw [resolveFields_cons, resolve_of_unknown hunknown, ih, List.singleton_append]

theorem targets_cons (k : Components) (f : Field) (fields : List Field) :
    k.targets (f :: fields) = (f.target?.bind k.lookup?).toList ++ k.targets fields := by
  rw [targets, List.filterMap_cons]
  cases f.target?.bind k.lookup? with
  | none => rfl
  | some spliced => rfl

/-- The size of a resolved list. A reference that stays takes no bytes. -/
theorem wireSize_resolveFields (k : Components) (fields : List Field) :
    wireSize (k.resolveFields fields) =
      wireSize (ordinary fields) + ((k.targets fields).map wireSize).sum := by
  induction fields with
  | nil => rfl
  | cons f fields ih =>
    rw [resolveFields_cons, wireSize_append, ih, resolve, targets_cons]
    cases hr : f.isReference with
    | false =>
      have hnone : f.target?.bind k.lookup? = none := by
        rw [Field.isReference, Option.isSome_eq_false_iff, Option.isNone_iff_eq_none] at hr
        rw [hr, Option.bind_none]
      rw [hnone, ordinary_cons_field hr, Option.getD_none, Option.toList_none, List.nil_append,
        wireSize, wireSize, wireSize]
      omega
    | true =>
      rw [ordinary_cons_reference hr]
      cases f.target?.bind k.lookup? with
      | none =>
        rw [Option.getD_none, wireSize, byteSize_of_reference hr, wireSize, Option.toList_none,
          List.nil_append]
        omega
      | some spliced =>
        rw [Option.getD_some, Option.toList_some, List.singleton_append, List.map_cons, List.sum_cons]
        omega

/-- The sizes of lists that lie behind each other, added in a word of 64 bits. -/
theorem foldr_totalSize (lists : List (List Field)) :
    (lists.map totalSize).foldr (· + ·) 0 = .ofNat (lists.map wireSize).sum := by
  induction lists with
  | nil => rfl
  | cons fields lists ih =>
    rw [List.map_cons, List.foldr_cons, ih, List.map_cons, List.sum_cons, totalSize_eq_ofNat,
      UInt64.ofNat_add]

/-- The same size as it is counted. -/
theorem totalSize_resolveFields (k : Components) (fields : List Field) :
    totalSize (k.resolveFields fields) =
      totalSize (ordinary fields) + ((k.targets fields).map totalSize).foldr (· + ·) 0 := by
  rw [totalSize_eq_ofNat, wireSize_resolveFields, UInt64.ofNat_add, ← totalSize_eq_ofNat,
    foldr_totalSize]

end Components

/-! ## Catalogues -/

/-- Both lists of a layout with components in place of references. -/
structure Layout.Spliced (k : Components) (l l' : Layout) : Prop where
  header : k.Splices l.header l'.header
  payload : k.Splices l.payload l'.payload

/-- A message, and the same message with components in place of the references in its layouts. -/
structure Message.Spliced (k : Components) (m m' : Message) : Prop where
  description : m'.description = m.description
  group : m'.group = m.group
  endpoint : m'.endpoint = m.endpoint
  timeoutMs : m'.timeoutMs = m.timeoutMs
  request : Option.Rel (Layout.Spliced k) m.request m'.request
  response : Option.Rel (Layout.Spliced k) m.response m'.response

/-- A catalogue, and the same catalogue with its components in place of the references in its messages.
One without components has nothing to put in place of a reference. -/
structure Catalog.Spliced (c c' : Catalog) : Prop where
  version : c'.version = c.version
  info : c'.info = c.info
  servers : c'.servers = c.servers
  components : c'.components = c.components
  messages : List.Forall₂
    (fun e e' => e'.1 = e.1 ∧ Message.Spliced (c.components.getD {}) e.2 e'.2)
    c.messages.entries c'.messages.entries

section Resolution

variable {k : Components} {l l' : Layout} {m m' : Message} {c c' : Catalog}

theorem Components.resolveLayout_eq_iff : k.resolveLayout l = l' ↔ Layout.Spliced k l l' := by
  constructor
  · rintro rfl
    exact ⟨k.splices_resolveFields _, k.splices_resolveFields _⟩
  · rintro ⟨hheader, hpayload⟩
    rw [resolveLayout, resolveFields_eq_iff.mpr hheader, resolveFields_eq_iff.mpr hpayload]

theorem Components.map_resolveLayout_eq_iff {o o' : Option Layout} :
    o.map k.resolveLayout = o' ↔ Option.Rel (Layout.Spliced k) o o' := by
  constructor
  · rintro rfl
    cases o with
    | none => exact .none
    | some l => exact .some (resolveLayout_eq_iff.mp rfl)
  · rintro (h | _)
    · rw [Option.map_some, resolveLayout_eq_iff.mpr h]
    · rfl

theorem Components.resolveMessage_eq_iff : k.resolveMessage m = m' ↔ Message.Spliced k m m' := by
  constructor
  · rintro rfl
    exact ⟨rfl, rfl, rfl, rfl, map_resolveLayout_eq_iff.mp rfl, map_resolveLayout_eq_iff.mp rfl⟩
  · intro h
    cases m'
    cases h.description
    cases h.group
    cases h.endpoint
    cases h.timeoutMs
    rw [resolveMessage, map_resolveLayout_eq_iff.mpr h.request, map_resolveLayout_eq_iff.mpr h.response]

theorem Components.resolveMessage_empty (m : Message) : ({} : Components).resolveMessage m = m := by
  have hunknown : ∀ f : Field, f.target?.bind ({} : Components).lookup? = none := by
    intro f
    rw [lookup?_target_eq_none_iff]
    rintro fields (⟨_, hmem⟩ | ⟨_, hmem⟩)
    · cases hmem
    · cases hmem
  have hlayout : ({} : Components).resolveLayout = id :=
    funext fun l => Catalog.resolveLayout_of_unknown fun f _ => hunknown f
  rw [resolveMessage, hlayout, Option.map_id_apply, Option.map_id_apply]

namespace Catalog

theorem resolve_eq (c : Catalog) :
    c.resolve = { c with messages := c.messages.map (c.components.getD {}).resolveMessage } := by
  unfold resolve
  cases hk : c.components with
  | none =>
    have hsame : c.messages.map ({} : Components).resolveMessage = c.messages :=
      Dict.map_eq_self fun e _ => Components.resolveMessage_empty e.2
    rw [Option.getD_none, hsame]
    cases c
    cases hk
    rfl
  | some k => rfl

theorem resolve_eq_iff : c.resolve = c' ↔ c.Spliced c' := by
  have hmessages : c.messages.map (c.components.getD {}).resolveMessage = c'.messages ↔
      List.Forall₂ (fun e e' => e'.1 = e.1 ∧ Message.Spliced (c.components.getD {}) e.2 e'.2)
        c.messages.entries c'.messages.entries := by
    simp only [Dict.map_eq_iff, Components.resolveMessage_eq_iff]
  rw [resolve_eq]
  constructor
  · rintro rfl
    exact ⟨rfl, rfl, rfl, rfl, hmessages.mp rfl⟩
  · rintro ⟨hversion, hinfo, hservers, hcomponents, hspliced⟩
    cases c'
    cases hversion
    cases hinfo
    cases hservers
    cases hcomponents
    rw [hmessages.mpr hspliced]

/-- Resolving puts the fields of a component in the place of each entry that refers to it and changes
nothing else. A list takes the bytes of its ordinary fields and of the components that come in, and is
counted as their sum, in a word of 64 bits. The references that stay are not on the wire. A second pass
changes nothing if no component refers to one. -/
theorem resolve_splices (c : Catalog) :
    (∀ c', c.resolve = c' ↔ c.Spliced c') ∧
    (∀ (k : Components) (fields : List Field),
      wireSize (k.resolveFields fields) =
        wireSize (ordinary fields) + ((k.targets fields).map wireSize).sum ∧
      totalSize (k.resolveFields fields) =
        totalSize (ordinary fields) + ((k.targets fields).map totalSize).foldr (· + ·) 0) ∧
    (∀ l : Layout, l.wireSize = l.ordinary.wireSize ∧ l.totalSize = l.ordinary.totalSize ∧
      (∀ values, l.encodeFields values = l.ordinary.encodeFields values ∧
        l.encode values = l.ordinary.encode values) ∧
      ∀ bytes, l.decode bytes = l.ordinary.decode bytes) ∧
    ((∀ k, c.components = some k → k.Flat) → c.resolve.resolve = c.resolve) := by
  refine ⟨fun _ => resolve_eq_iff, fun k fields => ⟨k.wireSize_resolveFields fields,
    k.totalSize_resolveFields fields⟩, fun l => ⟨l.wireSize_ordinary.symm, ?_, ?_, ?_⟩, ?_⟩
  · rw [Layout.totalSize_eq_mod, Layout.totalSize_eq_mod, l.wireSize_ordinary]
  · intro values
    have hfields : l.encodeFields values = l.ordinary.encodeFields values := by
      rw [Layout.encodeFields, Layout.encodeFields, Layout.slots_ordinary]
    exact ⟨hfields, by rw [Layout.encode, Layout.encode, hfields]⟩
  · intro bytes
    rw [Layout.decode, Layout.decode, Layout.slots_ordinary]
  · exact fun hflat => resolve_of_settled (settled_resolve hflat)

/-- A schema and a header of one name, entries that refer to nothing, and one whose reference is empty. -/
theorem resolve_splices_both :
    let field := fun name => Field.new name .byte
    let k : Components :=
      { schemas := Dict.empty.insert "P" { fields := [field "x", .reference "#/components/P", field "y"] }
        headers := Dict.empty.insert "P" [field "z"] }
    let catalogWith : List Field → Catalog := fun header =>
      { messages := Dict.empty.insert "m" (.ofRequest ⟨header, [.reference "#/components/headers/P"]⟩)
        components := some k }
    let schema := Field.reference "#/components/schemas/P"
    let unknown := Field.reference "#/components/schemas/Q"
    let c := catalogWith [schema, unknown, field "a", .reference "", schema]
    let spliced := [field "x", .reference "#/components/P", field "y"]
    let header := spliced ++ [unknown, field "a", .reference ""] ++ spliced
    let c' : Catalog :=
      { catalogWith [] with messages := Dict.empty.insert "m" (.ofRequest ⟨header, [field "z"]⟩) }
    c.Spliced c' ∧ k.Flat ∧ c.resolve.resolve = c.resolve ∧
      wireSize header = wireSize [field "a", .reference ""] + (2 + 2) ∧
      totalSize header = totalSize [field "a", .reference ""] + (2 + 2) := by
  intro field k catalogWith schema unknown c spliced header c'
  have hresolved : c.resolve = c' := by decide +kernel
  have hflat : k.Flat := by
    unfold Components.Flat
    decide +kernel
  obtain ⟨hspliced, hsize, _, htwice⟩ := resolve_splices c
  have hlist : k.resolveFields [schema, unknown, field "a", .reference "", schema] = header := by
    decide +kernel
  obtain ⟨hwire, htotal⟩ := hsize k [schema, unknown, field "a", .reference "", schema]
  rw [hlist] at hwire htotal
  refine ⟨(hspliced c').mp hresolved, hflat, htwice fun k' hk' => ?_, ?_, ?_⟩
  · rw [← Option.some.inj hk']
    exact hflat
  · rw [hwire]
    decide +kernel
  · rw [htotal]
    decide +kernel

end Catalog

end Resolution

end Datagram
