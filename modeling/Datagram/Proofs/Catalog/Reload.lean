import Datagram.Proofs.Catalog.Json

/-! # Catalogues saved and loaded again

Loading resolves references in one pass, so a catalogue that is loaded may still have some. Each time
it is saved and loaded they are resolved by one more pass. It stays as it is once none of its messages
refers to a component, as when its components hold no references. -/

namespace Datagram

open Json

namespace Components

/-- No component has a field that refers to a component. -/
def Flat (k : Components) : Prop :=
  (∀ e ∈ k.schemas.entries, ∀ f ∈ e.2.fields, f.target?.bind k.lookup? = none) ∧
    ∀ e ∈ k.headers.entries, ∀ f ∈ e.2, f.target?.bind k.lookup? = none

variable {k : Components}

theorem Flat.lookup? (h : k.Flat) {path : String} {fields : List Field}
    (hfound : k.lookup? path = some fields) : ∀ f ∈ fields, f.target?.bind k.lookup? = none := by
  unfold Components.lookup? at hfound
  split at hfound
  · obtain ⟨component, hget, rfl⟩ := Option.map_eq_some_iff.mp hfound
    exact h.1 _ (Dict.get?_eq_some_iff.mp hget)
  · split at hfound
    · exact h.2 _ (Dict.get?_eq_some_iff.mp hfound)
    · cases hfound

theorem Flat.resolveFields (h : k.Flat) (fields : List Field) :
    ∀ f ∈ k.resolveFields fields, f.target?.bind k.lookup? = none := by
  intro f hf
  obtain ⟨g, _, hf⟩ := List.mem_flatMap.mp hf
  rw [resolve] at hf
  cases hg : g.target?.bind k.lookup? with
  | none =>
    rw [hg, Option.getD_none, List.mem_singleton] at hf
    rw [hf, hg]
  | some spliced =>
    rw [hg, Option.getD_some] at hf
    obtain ⟨path, _, hfound⟩ := Option.bind_eq_some_iff.mp hg
    exact h.lookup? hfound f hf

end Components

namespace Catalog

variable {c : Catalog} {text : String}

/-! ## One pass of resolution -/

theorem components_resolve (c : Catalog) : c.resolve.components = c.components := by
  unfold resolve
  split
  · rfl
  · rfl

theorem messages_resolve {k : Components} (h : c.components = some k) :
    c.resolve.messages = c.messages.map k.resolveMessage := by
  unfold resolve
  rw [h]

/-- Resolving keeps the title and which messages have a request. -/
theorem validate_resolve (c : Catalog) : c.resolve.validate = c.validate := by
  cases hk : c.components with
  | none =>
    unfold resolve
    rw [hk]
  | some k =>
    have hinfo : c.resolve.info = c.info := by
      unfold resolve
      rw [hk]
    have hrequest : ((·.2.request.isNone) ∘ fun e => (e.1, k.resolveMessage e.2)) =
        fun e : String × Message => e.2.request.isNone := by
      funext e
      exact Option.isNone_map ..
    have hentries : c.resolve.messages.entries.find? (·.2.request.isNone) =
        (c.messages.entries.find? (·.2.request.isNone)).map fun e => (e.1, k.resolveMessage e.2) := by
      rw [messages_resolve hk]
      exact (List.find?_map ..).trans (by rw [hrequest])
    unfold validate
    rw [hinfo, hentries]
    cases c.messages.entries.find? (·.2.request.isNone) with
    | none => rfl
    | some e => rfl

theorem settled_resolve (h : ∀ k, c.components = some k → k.Flat) : c.resolve.Settled := by
  intro k hk e he l hl
  rw [components_resolve] at hk
  rw [messages_resolve hk] at he
  obtain ⟨⟨name, m⟩, _, rfl⟩ := List.mem_map.mp he
  have hlayout : ∃ l', k.resolveLayout l' = l := by
    rcases hl with hl | hl
    · obtain ⟨l', _, hl'⟩ := Option.map_eq_some_iff.mp hl
      exact ⟨l', hl'⟩
    · obtain ⟨l', _, hl'⟩ := Option.map_eq_some_iff.mp hl
      exact ⟨l', hl'⟩
  obtain ⟨l', rfl⟩ := hlayout
  intro f hf
  rcases List.mem_append.mp hf with hf | hf
  · exact (h k hk).resolveFields l'.header f hf
  · exact (h k hk).resolveFields l'.payload f hf

/-! ## Loading -/

theorem ofJsonText_of_read (hblank : text.toList.all Text.isBlank = false)
    (h : (parse? text.toList).bind ofJson? = some c) :
    ofJsonText text = c.validate.map fun _ => c.resolve := by
  unfold ofJsonText
  simp only [hblank, h, Bool.false_eq_true, if_false]

/-- A catalogue that is loaded is a valid one with its references resolved in one pass. -/
theorem resolved_of_ofJsonText (h : ofJsonText text = .ok c) :
    ∃ c₀ : Catalog, c₀.validate = .ok () ∧ c = c₀.resolve := by
  unfold ofJsonText at h
  dsimp only at h
  split at h
  · cases h
  · split at h
    · cases h
    · rename_i c₀ _
      cases hvalid : c₀.validate with
      | error fault =>
        rw [hvalid] at h
        cases h
      | ok u =>
        rw [hvalid] at h
        exact ⟨c₀, hvalid, (Except.ok.inj h).symm⟩

/-- A catalogue that is saved and loaded a number of times. -/
def reloads : Nat → Catalog → Except Fault Catalog
  | 0, c => .ok c
  | n + 1, c => (ofJsonText c.toJsonText).bind (reloads n)

theorem reloads_of_valid (h : c.validate = .ok ()) (n : Nat) :
    reloads n c = .ok (resolve^[n] c) := by
  induction n generalizing c with
  | zero => rfl
  | succ n ih =>
    have hstep : ofJsonText c.toJsonText = .ok c.resolve := by
      rw [ofJsonText_toJsonText_eq, h]
      rfl
    rw [reloads, hstep, Function.iterate_succ_apply]
    exact ih (c.validate_resolve.trans h)

/-- A catalogue that was loaded can be saved and loaded as often as one likes, and each time its
references are resolved by one more pass. It stays as it is if none of its messages refers to a
component, and none does if no component refers to one. -/
theorem reloads_of_ofJsonText (h : ofJsonText text = .ok c) :
    (∀ n, reloads n c = .ok (resolve^[n] c)) ∧
    (ofJsonText c.toJsonText = .ok c ↔ c.resolve = c) ∧
    (c.Settled → ∀ n, reloads n c = .ok c) ∧
    ((∀ k, c.components = some k → k.Flat) → c.Settled) := by
  obtain ⟨c₀, hvalid₀, rfl⟩ := resolved_of_ofJsonText h
  have hvalid : c₀.resolve.validate = .ok () := c₀.validate_resolve.trans hvalid₀
  refine ⟨reloads_of_valid hvalid, ?_, ?_, ?_⟩
  · rw [ofJsonText_toJsonText_eq, hvalid]
    exact ⟨Except.ok.inj, congrArg Except.ok⟩
  · intro hsettled n
    rw [reloads_of_valid hvalid, Function.iterate_fixed (resolve_of_settled hsettled)]
  · intro hflat
    rw [components_resolve] at hflat
    exact settled_resolve hflat

/-- A header that is a component without references, beside a reference to nothing. -/
theorem reloads_of_ofJsonText_flat :
    let k : Components := { headers := Dict.empty.insert "A" [Field.new "x" .byte] }
    let catalogWith : List Field → Catalog := fun header =>
      { info := { title := "T" }
        messages := Dict.empty.insert "m" (.ofRequest ⟨header, []⟩)
        components := some k }
    let text := (catalogWith [.reference "#/components/headers/A", .reference "?"]).toJsonText
    let c := catalogWith [Field.new "x" .byte, .reference "?"]
    ofJsonText text = .ok c ∧ k.Flat ∧ ∀ n, reloads n c = .ok c := by
  intro k catalogWith text c
  have hload : ofJsonText text = .ok c := by
    rw [ofJsonText_toJsonText_eq]
    decide +kernel
  have hflat : k.Flat := by
    unfold Components.Flat
    decide +kernel
  refine ⟨hload, hflat, ?_⟩
  obtain ⟨_, _, hstays, hsettled⟩ := reloads_of_ofJsonText hload
  refine hstays (hsettled fun k' hk' => ?_)
  rw [← Option.some.inj hk']
  exact hflat

/-- A component that refers to another one: the message that is loaded has no bytes, and has one after
it is saved and loaded again. -/
theorem reload_changes_catalog :
    let text := "\x7b\"info\":\x7b\"title\":\"T\"\x7d,\"messages\":\x7b\"m\":\x7b\"request\":\x7b\"header\":[\x7b\"$ref\":\"#/components/headers/A\"\x7d]\x7d\x7d\x7d,\"components\":\x7b\"headers\":\x7b\"A\":[\x7b\"$ref\":\"#/components/headers/B\"\x7d],\"B\":[\x7b\x7d]\x7d\x7d\x7d"
    ∃ c c' : Catalog, ofJsonText text = .ok c ∧ ofJsonText c.toJsonText = .ok c' ∧ c' ≠ c ∧
      ((c.message? "m").bind Message.request).map Layout.totalSize = some 0 ∧
      ((c'.message? "m").bind Message.request).map Layout.totalSize = some 1 := by
  intro text
  let k : Components :=
    { headers := Dict.ofList [("A", [.reference "#/components/headers/B"]), ("B", [default])] }
  let catalogWith : Field → Catalog := fun f =>
    { info := { title := "T" }
      messages := Dict.empty.insert "m" (.ofRequest ⟨[f], []⟩)
      components := some k }
  have hblank : text.toList.all Text.isBlank = false := by decide +kernel
  have hread : (parse? text.toList).bind ofJson? =
      some (catalogWith (.reference "#/components/headers/A")) := by
    decide +kernel
  refine ⟨catalogWith (.reference "#/components/headers/B"), catalogWith default, ?_, ?_,
    by decide +kernel, by decide +kernel, by decide +kernel⟩
  · rw [ofJsonText_of_read hblank hread]
    decide +kernel
  · rw [ofJsonText_toJsonText_eq]
    decide +kernel

end Catalog

end Datagram
