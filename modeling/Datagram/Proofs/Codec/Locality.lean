import Datagram.Proofs.Codec.RoundTrip

/-! # Each value in its own bytes

A slot is written in the bytes that its field takes, whether its literals can be read or not, and
only the values under its own keys count for it. So a value that is given, changed or left out can
change the bytes of the slots that have its key, and no others. -/

namespace Datagram

variable {u v : Values}

/-! ## One slot -/

namespace Slot

variable {s : Slot}

/-- The keys of the values that are looked up for a slot. -/
def keys (s : Slot) : List String := s.key :: s.field.members.map s.memberKey

theorem literal_congr (h : u.get? s.key = v.get? s.key) : s.literal u = s.literal v := by
  rw [literal, literal, h]

theorem overlay_congr {b : BitMember} (h : u.get? (s.memberKey b) = v.get? (s.memberKey b))
    (word : UInt64) : s.overlay u word b = s.overlay v word b := by
  rw [overlay, overlay, memberLiteral?, memberLiteral?, h]

theorem foldlM_overlay_congr {members : List BitMember}
    (h : ∀ b ∈ members, u.get? (s.memberKey b) = v.get? (s.memberKey b)) (word : UInt64) :
    members.foldlM (s.overlay u) word = members.foldlM (s.overlay v) word := by
  induction members generalizing word with
  | nil => rfl
  | cons b members ih =>
    have hrest := ih fun c hc => h c (List.mem_cons_of_mem _ hc)
    rw [List.foldlM_cons, List.foldlM_cons, overlay_congr (h b List.mem_cons_self)]
    exact congrArg _ (funext hrest)

/-- What is written for a slot is a matter of the values under its keys. -/
theorem encode_congr (h : ∀ k ∈ s.keys, u.get? k = v.get? k) : s.encode u = s.encode v := by
  have hliteral : s.literal u = s.literal v := literal_congr (h s.key List.mem_cons_self)
  have hmembers : ∀ b ∈ s.field.members,
      u.get? (s.memberKey b) = v.get? (s.memberKey b) := by
    intro b hb
    exact h _ (List.mem_cons_of_mem _ (List.mem_map_of_mem hb))
  have hword : ∀ scalar, s.word scalar u = s.word scalar v := by
    intro scalar
    rw [word, word, hliteral]
    simp only [foldlM_overlay_congr hmembers]
  have hbytes : s.bytes u = s.bytes v := by
    rw [bytes, bytes, hliteral]
    simp only [hword]
  rw [encode, encode, hbytes]

/-- Where a literal cannot be read, the slot is written as zeros. -/
theorem zeros_of_failure (h : (s.encode v).failure? ≠ none) :
    (s.encode v).bytes = List.replicate s.field.byteSize 0 := by
  rw [encode] at h ⊢
  cases hb : s.bytes v with
  | ok b =>
    rw [hb] at h
    exact absurd rfl h
  | error cause => rfl

end Slot

/-! ## Slots behind each other -/

/-- What is written for a slot: under its key, as many bytes as its field takes, and only zeros if
a literal of it cannot be read. -/
structure EncodedField.Fills (s : Slot) (e : EncodedField) : Prop where
  key : e.key = s.key
  length : e.encoding.bytes.length = s.field.byteSize
  zeros : e.encoding.failure? ≠ none → e.encoding.bytes = List.replicate s.field.byteSize 0

/-- The bytes that some slots take. -/
def extent (slots : List Slot) : Nat := (slots.map (·.field.byteSize)).sum

theorem extent_cons (s : Slot) (slots : List Slot) :
    extent (s :: slots) = s.field.byteSize + extent slots := by
  rw [extent, List.map_cons, List.sum_cons]
  rfl

theorem getElem?_ne_of_append {α : Type} {a b a' b' : List α} (hlen : a.length = b.length) {i : Nat}
    (h : (a ++ a')[i]? ≠ (b ++ b')[i]?) :
    i < a.length ∧ a ≠ b ∨ a.length ≤ i ∧ a'[i - a.length]? ≠ b'[i - a.length]? := by
  by_cases hi : i < a.length
  · refine Or.inl ⟨hi, fun heq => h ?_⟩
    rw [List.getElem?_append_left hi, List.getElem?_append_left (hlen ▸ hi), heq]
  · have hi : a.length ≤ i := Nat.le_of_not_lt hi
    rw [List.getElem?_append_right hi, List.getElem?_append_right (hlen ▸ hi), ← hlen] at h
    exact Or.inr ⟨hi, h⟩

/-- Two messages of the same slots differ only within the bytes of slots that differ. -/
theorem differing_slot {slots : List Slot} {f g : Slot → List UInt8}
    (hf : ∀ s ∈ slots, (f s).length = s.field.byteSize)
    (hg : ∀ s ∈ slots, (g s).length = s.field.byteSize) {i : Nat}
    (h : (slots.flatMap f)[i]? ≠ (slots.flatMap g)[i]?) :
    ∃ before s after, slots = before ++ s :: after ∧ f s ≠ g s ∧
      extent before ≤ i ∧ i < extent before + s.field.byteSize := by
  -- Both first pieces have one length, so a byte lies in both of them or behind both.
  induction slots generalizing i with
  | nil => exact absurd rfl h
  | cons s slots ih =>
    have hfs := hf s List.mem_cons_self
    have hgs := hg s List.mem_cons_self
    rw [List.flatMap_cons, List.flatMap_cons] at h
    rcases getElem?_ne_of_append (hfs.trans hgs.symm) h with ⟨hi, hne⟩ | ⟨hi, hne⟩
    · refine ⟨[], s, slots, rfl, hne, Nat.zero_le i, ?_⟩
      rw [extent, List.map_nil, List.sum_nil, Nat.zero_add, ← hfs]
      exact hi
    · obtain ⟨before, t, after, rfl, hne, hle, hlt⟩ := ih
        (fun t ht => hf t (List.mem_cons_of_mem _ ht))
        (fun t ht => hg t (List.mem_cons_of_mem _ ht)) hne
      have hextent : extent (s :: before) = (f s).length + extent before := by
        rw [extent_cons, hfs]
      refine ⟨s :: before, t, after, rfl, hne, ?_, ?_⟩
      · omega
      · omega

namespace Layout

theorem encode_eq_flatMap (l : Layout) (v : Values) :
    l.encode v = l.slots.flatMap fun s => (s.encode v).bytes := by
  rw [encode, encodeFields, List.flatMap_map]

theorem length_encode (l : Layout) (v : Values) : (l.encode v).length = l.wireSize := by
  rw [encode_eq_flatMap, List.length_flatMap, wireSize_eq_sum]
  congr 1
  apply List.map_congr_left
  intro s hs
  exact length_of_mem_slots v hs

theorem forall₂_encodeFields (l : Layout) (v : Values) :
    List.Forall₂ EncodedField.Fills l.slots (l.encodeFields v) := by
  rw [encodeFields, List.forall₂_map_right_iff, List.forall₂_same]
  intro s hs
  exact ⟨rfl, length_of_mem_slots v hs, Slot.zeros_of_failure⟩

/-- Values under keys that no slot and no member has do not count. -/
theorem encodeFields_congr {l : Layout} (h : ∀ k ∈ l.valueKeys, u.get? k = v.get? k) :
    l.encodeFields u = l.encodeFields v := by
  apply List.map_congr_left
  intro s hs
  rw [Slot.encode_congr fun k hk => h k (List.mem_flatMap.mpr ⟨s, hs, hk⟩)]

/-- Any values are written in the size of the layout, slot by slot, each slot filling its own bytes. It
is the size that is counted unless there are more bytes than 64 bits can count. Values under other keys
than those of the layout have no effect. Values that differ under one key are written alike but for the
slots that have this key, and differ in their bytes only. -/
theorem encode_local (l : Layout) {key : String} (h : ∀ k, k ≠ key → u.get? k = v.get? k) :
    (∀ w : Values, (l.encode w).length = l.wireSize ∧ l.totalSize = l.wireSize % UInt64.size ∧
      List.Forall₂ EncodedField.Fills l.slots (l.encodeFields w) ∧
      ∀ w' : Values, (∀ k ∈ l.valueKeys, w'.get? k = w.get? k) →
        l.encodeFields w' = l.encodeFields w ∧ l.encode w' = l.encode w) ∧
    (∀ (i : Nat) (s : Slot), l.slots[i]? = some s → key ∉ s.keys →
      (l.encodeFields u)[i]? = (l.encodeFields v)[i]?) ∧
    ∀ i : Nat, (l.encode u)[i]? ≠ (l.encode v)[i]? →
      ∃ before s after, l.slots = before ++ s :: after ∧ key ∈ s.keys ∧
        extent before ≤ i ∧ i < extent before + s.field.byteSize := by
  have hslot : ∀ s : Slot, key ∉ s.keys → s.encode u = s.encode v := by
    intro s hs
    refine Slot.encode_congr fun k hk => h k ?_
    rintro rfl
    exact hs hk
  refine ⟨fun w => ⟨length_encode l w, l.totalSize_eq_mod, forall₂_encodeFields l w,
    fun w' hw => ?_⟩, ?_, ?_⟩
  · have hfields := encodeFields_congr hw
    exact ⟨hfields, by rw [encode, encode, hfields]⟩
  · intro i s hi hs
    simp only [encodeFields, List.getElem?_map, hi, Option.map_some, hslot s hs]
  · intro i hi
    rw [encode_eq_flatMap, encode_eq_flatMap] at hi
    obtain ⟨before, s, after, hsplit, hne, hle, hlt⟩ :=
      differing_slot (fun s hs => length_of_mem_slots u hs) (fun s hs => length_of_mem_slots v hs) hi
    refine ⟨before, s, after, hsplit, ?_, hle, hlt⟩
    by_contra hs
    exact hne (by rw [hslot s hs])

/-- A number that is too large for its field is written as zeros, in front of a text that stays. -/
theorem encode_local_unreadable :
    let count := ((Field.new "n" (.scalar (.int false .w16))).withValue "258").withBits
      [.single "odd" 0]
    let label := ((Field.new "s" .string).withSize 3).withValue "abc"
    let l : Layout := ⟨[count], [label]⟩
    let given : Values := Dict.empty.insert "header.n" "99999"
    (∀ k, k ≠ "header.n" → (∅ : Values).get? k = given.get? k) ∧
      l.encode ∅ = [1, 2, 97, 98, 99] ∧ l.encode given = [0, 0, 97, 98, 99] ∧
      (l.encodeFields ∅)[1]? = (l.encodeFields given)[1]? ∧
      ∃ before s after, l.slots = before ++ s :: after ∧ "header.n" ∈ s.keys ∧
        extent before ≤ 1 ∧ 1 < extent before + s.field.byteSize := by
  intro count label l given
  have hother : ∀ k, k ≠ "header.n" → (∅ : Values).get? k = given.get? k := by
    intro k hk
    exact ((Dict.get?_insert _ _ _ _).trans (if_neg hk)).symm
  have hempty : l.encode ∅ = [1, 2, 97, 98, 99] := by decide +kernel
  have hgiven : l.encode given = [0, 0, 97, 98, 99] := by decide +kernel
  obtain ⟨_, hsame, hdiffer⟩ := encode_local l hother
  refine ⟨hother, hempty, hgiven, ?_, ?_⟩
  · exact hsame 1 ⟨"payload.s", label⟩ (by decide +kernel) (by decide +kernel)
  · refine hdiffer 1 ?_
    rw [hempty, hgiven]
    decide

end Layout

end Datagram
