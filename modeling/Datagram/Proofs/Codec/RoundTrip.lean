import Datagram.Proofs.Codec.Display
import Datagram.Proofs.Dict
import Datagram.Proofs.Layout
import Mathlib.Data.List.Flatten

/-! # Messages written and read

Slots lie behind each other without a gap, so a message is read slot by slot from the bytes that
each slot has. What is written is read back, and what is read is written back. -/

namespace Datagram

variable {l : Layout} {values : Values} {buffer : List UInt8}

/-! ## Slots behind each other -/

theorem rdropWhile_cons {α : Type} (p : α → Bool) (a : α) (l : List α) :
    (a :: l).rdropWhile p = if (a :: l).all p then [] else a :: l.rdropWhile p := by
  rw [List.rdropWhile, List.reverse_cons, List.dropWhile_append]
  by_cases hl : l.all p = true
  · have hnil : l.reverse.dropWhile p = [] := by simpa using hl
    by_cases ha : p a = true
    · simp [hnil, ha, hl]
    · simp [hnil, ha, List.rdropWhile]
  · have hne : l.reverse.dropWhile p ≠ [] := by simpa using hl
    simp [hne, hl, List.rdropWhile]

theorem rdropWhile_append_cons {α : Type} {p : α → Bool} {a : α} (ha : p a = false)
    (l r : List α) : (l ++ a :: r).rdropWhile p = l ++ a :: r.rdropWhile p := by
  induction l with
  | nil =>
    rw [List.nil_append, rdropWhile_cons, List.all_cons, ha, Bool.false_and]
    rfl
  | cons b l ih =>
    have hall : (b :: (l ++ a :: r)).all p = false := by simp [ha]
    rw [List.cons_append, rdropWhile_cons, hall, ih]
    rfl

theorem rdropWhile_map {α β : Type} (p : β → Bool) (f : α → β) (l : List α) :
    (l.map f).rdropWhile p = (l.rdropWhile (p ∘ f)).map f := by
  rw [List.rdropWhile, ← List.map_reverse, List.dropWhile_map, ← List.map_reverse]
  rfl

theorem mem_rdropWhile {α : Type} {p : α → Bool} {l : List α} {a : α} (h : a ∈ l) (ha : p a = false) :
    a ∈ l.rdropWhile p := by
  rw [← List.rdropWhile_append_rtakeWhile (p := p) (l := l), List.mem_append] at h
  rcases h with h | h
  · exact h
  · have := List.mem_rtakeWhile_imp h
    rw [ha] at this
    cases this

theorem slices_of_length_le {bytes : List UInt8} {offset : Nat} (h : bytes.length ≤ offset)
    (slots : List Slot) : slices bytes offset slots = [] := by
  cases slots with
  | nil => rfl
  | cons s slots => exact if_pos h

/-- The slots that are looked at are the first ones. -/
theorem map_fst_slices (bytes : List UInt8) (offset : Nat) (slots : List Slot) :
    (slices bytes offset slots).map Prod.fst <+: slots := by
  induction slots generalizing offset with
  | nil => exact List.prefix_rfl
  | cons s slots ih =>
    simp only [slices]
    split
    · exact List.nil_prefix
    · split
      · exact (List.prefix_cons_inj s).mpr (ih _)
      · exact (List.prefix_cons_inj s).mpr (ih _)

/-- A slot whose bytes are there is read from them, and the next one behind them. -/
theorem slices_cons {s : Slot} {raw : List UInt8} (hlen : raw.length = s.field.byteSize)
    (front : List UInt8) {rest : List UInt8} (hne : raw ++ rest ≠ []) (slots : List Slot) :
    slices (front ++ (raw ++ rest)) front.length (s :: slots) =
      (s, some raw) :: slices (front ++ (raw ++ rest)) (front.length + raw.length) slots := by
  have hleft : 0 < (raw ++ rest).length := List.length_pos_iff.mpr hne
  have hbegin : ¬ (front ++ (raw ++ rest)).length ≤ front.length := by
    rw [List.length_append]
    omega
  have hstop : front.length + raw.length ≤ (front ++ (raw ++ rest)).length := by
    rw [List.length_append, List.length_append]
    omega
  simp only [slices, ← hlen, if_neg hbegin, if_pos hstop]
  rw [List.drop_left, List.take_left]

/-- Whole slots are read one after the other if each of them begins in front of the end. -/
theorem slices_append {ps : List (Slot × List UInt8)}
    (hsize : ∀ p ∈ ps, p.2.length = p.1.field.byteSize) (front : List UInt8)
    {rest bytes : List UInt8} (hbytes : bytes = front ++ (ps.flatMap Prod.snd ++ rest))
    (hbegun : ∀ qs, qs <:+ ps → qs ≠ [] → qs.flatMap Prod.snd ++ rest ≠ []) (back : List Slot) :
    slices bytes front.length (ps.map Prod.fst ++ back) = ps.map (Prod.map id some) ++
      slices bytes (front.length + (ps.flatMap Prod.snd).length) back := by
  induction ps generalizing front with
  | nil => rfl
  | cons p ps ih =>
    have hne := hbegun (p :: ps) List.suffix_rfl (List.cons_ne_nil p ps)
    rw [List.flatMap_cons, List.append_assoc] at hbytes hne
    have hfirst := slices_cons (hsize p List.mem_cons_self) front hne (ps.map Prod.fst ++ back)
    have hrest := ih (fun q hq => hsize q (List.mem_cons_of_mem _ hq)) (front ++ p.2)
      (by rw [hbytes, List.append_assoc]) fun qs hqs => hbegun qs (hqs.trans (List.suffix_cons p ps))
    rw [← hbytes] at hfirst
    rw [List.length_append, Nat.add_assoc] at hrest
    rw [List.map_cons, List.cons_append, hfirst, hrest, List.flatMap_cons, List.length_append]
    rfl

theorem decodeFrom_append {ps : List (Slot × List UInt8)}
    (hsize : ∀ p ∈ ps, p.2.length = p.1.field.byteSize) {rest bytes : List UInt8}
    (hbytes : bytes = ps.flatMap Prod.snd ++ rest)
    (hbegun : ∀ qs, qs <:+ ps → qs ≠ [] → qs.flatMap Prod.snd ++ rest ≠ []) (back : List Slot) :
    decodeFrom bytes 0 (ps.map Prod.fst ++ back) = ps.flatMap (fun p => p.1.decode p.2) ++
      decodeFrom bytes (ps.flatMap Prod.snd).length back := by
  have hslices := slices_append hsize [] hbytes hbegun back
  rw [List.length_nil, Nat.zero_add] at hslices
  rw [decodeFrom, hslices, List.flatMap_append, List.flatMap_map]
  rfl

theorem decodeFrom_of_length_le {bytes : List UInt8} {offset : Nat} (h : bytes.length ≤ offset)
    (slots : List Slot) : decodeFrom bytes offset slots = [] := by
  rw [decodeFrom, slices_of_length_le h, List.flatMap_nil]

/-- A message is read from the pieces of its slots, up to the last one that has a byte. -/
theorem decodeFrom_flatMap {ps : List (Slot × List UInt8)}
    (h : ∀ p ∈ ps, p.2.length = p.1.field.byteSize) :
    decodeFrom (ps.flatMap Prod.snd) 0 (ps.map Prod.fst) =
      (ps.rdropWhile (·.1.field.byteSize = 0)).flatMap fun p => p.1.decode p.2 := by
  let isEmpty : Slot × List UInt8 → Bool := fun p => p.1.field.byteSize = 0
  have hsplit : ps.rdropWhile isEmpty ++ ps.rtakeWhile isEmpty = ps :=
    List.rdropWhile_append_rtakeWhile
  have hfront : ∀ p ∈ ps.rdropWhile isEmpty, p.2.length = p.1.field.byteSize :=
    fun p hp => h p ((List.rdropWhile_prefix _ ps).subset hp)
  have hback : (ps.rtakeWhile isEmpty).flatMap Prod.snd = [] := by
    rw [List.flatMap_eq_nil_iff]
    intro p hp
    have hempty : isEmpty p = true := List.mem_rtakeWhile_imp hp
    have hsize := h p ((List.rtakeWhile_suffix _ ps).subset hp)
    exact List.length_eq_zero_iff.mp (hsize.trans (of_decide_eq_true hempty))
  -- The last slot in front has a byte, and any slots up to it have this one.
  have hbegun : ∀ qs, qs <:+ ps.rdropWhile isEmpty → qs ≠ [] → qs.flatMap Prod.snd ++ [] ≠ [] := by
    intro qs hqs hne hnil
    have hlast := List.rdropWhile_last_not isEmpty ps (hqs.ne_nil hne)
    rw [← hqs.getLast hne] at hlast
    have hmem := List.getLast_mem hne
    rw [List.append_nil, List.flatMap_eq_nil_iff] at hnil
    have hsize := hfront _ (hqs.subset hmem)
    rw [hnil _ hmem] at hsize
    exact hlast (decide_eq_true hsize.symm)
  conv_lhs => rw [← hsplit]
  rw [List.map_append, List.flatMap_append, hback, decodeFrom_append hfront rfl hbegun,
    decodeFrom_of_length_le (by rw [List.append_nil]), List.append_nil]

namespace Layout

theorem isReference_of_mem_slots {s : Slot} (h : s ∈ l.slots) : s.field.isReference = false := by
  simp only [slots, slotsOf, List.mem_append, List.mem_map, List.mem_filter] at h
  rcases h with ⟨f, ⟨_, hf⟩, rfl⟩ | ⟨f, ⟨_, hf⟩, rfl⟩ <;> simpa using hf

theorem length_of_mem_slots (values : Values) {s : Slot} (h : s ∈ l.slots) :
    (s.encode values).bytes.length = s.field.byteSize :=
  Slot.length_encode (isReference_of_mem_slots h) values

theorem wireSize_slotsOf (p : Part) (fields : List Field) :
    Datagram.wireSize fields = ((slotsOf p fields).map (·.field.byteSize)).sum := by
  induction fields with
  | nil => rfl
  | cons f fields ih =>
    by_cases hf : f.isReference = true
    · simpa [Datagram.wireSize, slotsOf, hf, byteSize_of_reference hf] using ih
    · simpa [Datagram.wireSize, slotsOf, hf] using ih

theorem wireSize_eq_sum (l : Layout) : l.wireSize = (l.slots.map (·.field.byteSize)).sum := by
  rw [wireSize, wireSize_slotsOf .header, wireSize_slotsOf .payload, slots, List.map_append,
    List.sum_append]

/-- The slots up to the last one that takes a byte. -/
def occupied (l : Layout) : List Slot := l.slots.rdropWhile (·.field.byteSize = 0)

theorem mem_slots_of_mem_occupied {s : Slot} (h : s ∈ l.occupied) : s ∈ l.slots :=
  (List.rdropWhile_prefix _ l.slots).subset h

/-! ## What is written is read back -/

theorem decode_encode_eq (l : Layout) (values : Values) :
    l.decode (l.encode values) = l.occupied.flatMap fun s => s.decode (s.encode values).bytes := by
  have hlen : ∀ p ∈ l.slots.map fun s => (s, (s.encode values).bytes),
      p.2.length = p.1.field.byteSize := by
    intro p hp
    obtain ⟨s, hs, rfl⟩ := List.mem_map.mp hp
    exact length_of_mem_slots values hs
  have hslots : (l.slots.map fun s => (s, (s.encode values).bytes)).map Prod.fst = l.slots := by
    rw [List.map_map]
    exact List.map_id _
  have hbytes : (l.slots.map fun s => (s, (s.encode values).bytes)).flatMap Prod.snd =
      l.encode values := by
    simp [encode, encodeFields, List.flatMap_map]
  have h := decodeFrom_flatMap hlen
  rw [hslots, hbytes, rdropWhile_map, List.flatMap_map] at h
  exact h

/-- What is read at fields that lie behind each other. -/
def entriesOf (p : Part) (fields : List Field) (values : Values) : List Entry :=
  (slotsOf p fields).flatMap fun s => s.decode (s.encode values).bytes

/-- A header field with bytes is read behind the entries of those in front of it. -/
theorem decode_encode_header {l : Layout} {front back : List Field} {f : Field}
    (hl : l.header = front ++ f :: back) (hr : f.isReference = false) (hpos : 0 < f.byteSize)
    (values : Values) :
    ∃ rest, l.decode (l.encode values) = entriesOf .header front values ++
      (Slot.decode ⟨Part.header.key f.name, f⟩
        (Slot.encode ⟨Part.header.key f.name, f⟩ values).bytes ++ rest) := by
  let s : Slot := ⟨Part.header.key f.name, f⟩
  obtain ⟨after, hslots⟩ : ∃ after, l.slots = slotsOf .header front ++ s :: after := by
    refine ⟨slotsOf .header back ++ slotsOf .payload l.payload, ?_⟩
    rw [slots, hl, slotsOf, List.filter_append, List.filter_cons_of_pos (by rw [hr]; rfl),
      List.map_append, List.map_cons, List.append_assoc]
    rfl
  let isEmpty : Slot → Bool := fun t => t.field.byteSize = 0
  have hsize : isEmpty s = false := decide_eq_false hpos.ne'
  have hoccupied : l.occupied = slotsOf .header front ++ s :: after.rdropWhile isEmpty := by
    rw [occupied, hslots]
    exact rdropWhile_append_cons hsize _ _
  refine ⟨(after.rdropWhile isEmpty).flatMap fun t => t.decode (t.encode values).bytes, ?_⟩
  rw [decode_encode_eq, hoccupied, List.flatMap_append, List.flatMap_cons]
  rfl

/-- Encoding and then decoding: each slot up to the last byte has its entry, followed by those of
its members, nothing is cut off or refused, and the text that stands for a slot, if it could be written,
is shown. -/
theorem decode_encode (l : Layout) (values : Values) :
    (l.decode (l.encode values) = l.occupied.flatMap fun s =>
      ⟨s.key, s.readBack values⟩ :: s.memberEntries (s.encode values).bytes) ∧
    (∀ e ∈ l.decode (l.encode values), e.reading.status = .ok) ∧
    ∀ s ∈ l.occupied, s.field.members = [] → (s.encode values).failure? = none →
      ∃ text, s.Stands values text ∧ s.ShowsLiteral text (s.readBack values).value := by
  refine ⟨decode_encode_eq l values, ?_, fun s _ hm hf =>
    ⟨_, s.stands_literal values, Slot.showsLiteral_readBack hm hf⟩⟩
  intro e he
  rw [decode_encode_eq, List.mem_flatMap] at he
  obtain ⟨s, hs, he⟩ := he
  have hr := isReference_of_mem_slots (mem_slots_of_mem_occupied hs)
  rw [Slot.decode_eq] at he
  rcases List.mem_cons.mp he with rfl | he
  · obtain ⟨v, hv⟩ := Slot.interpret_encode hr values
    exact (Slot.readBack_of_interpret hv).2
  · exact Slot.status_of_mem_memberEntries he

/-- A given number in place of the field's own one, given digits and letters, octets of the field's own,
and a field that has neither. -/
theorem decode_encode_given :
    let count : Slot :=
      ⟨"header.n", (Field.new "n" (.scalar (.int true .w16))).withValue "7"⟩
    let code : Slot :=
      ⟨"header.m", ((Field.new "m" (.scalar (.int false .w32))).withEndian .little).withRadix .hex⟩
    let label : Slot := ⟨"payload.s", (Field.new "s" .string).withSize 4⟩
    let blob : Slot :=
      ⟨"payload.b", ((Field.new "b" .bytes).withSize 3).withValue "0x0A ff"⟩
    let last : Slot := ⟨"payload.z", Field.new "z" .byte⟩
    let l : Layout := ⟨[count.field, code.field], [label.field, blob.field, last.field]⟩
    let values : Values := ((Dict.empty.insert "header.n" " -300 ").insert "header.m" "0xBE_EF").insert
      "payload.s" "née-"
    l.occupied = [count, code, label, blob, last] ∧
      (count.readBack values).value.bind Value.integer? = some (-300) ∧
      ((code.readBack values).value.bind Value.pattern?).map UInt64.toNat = some 0xBEEF ∧
      (label.readBack values).value = some (.text "n?e-") ∧
      (blob.readBack values).value = some (.bytes [0x0A, 0xFF, 0]) ∧
      (last.readBack values).value.bind Value.integer? = some 0 := by
  intro count code label blob last l values
  have hslots : l.occupied = [count, code, label, blob, last] := by decide +kernel
  have hshown : ∀ s ∈ [count, code, label, blob, last],
      s.ShowsLiteral (s.literal values) (s.readBack values).value := by
    have hplain : ∀ s ∈ [count, code, label, blob, last],
        s.field.members = [] ∧ (s.encode values).failure? = none := by decide +kernel
    intro s hs
    obtain ⟨hm, hf⟩ := hplain s hs
    obtain ⟨text, htext, hshows⟩ := (decode_encode l values).2.2 s (hslots ▸ hs) hm hf
    rwa [htext.eq_literal] at hshows
  have hcount := (hshown count (by simp)).number true .w16 (-300) rfl rfl
    (Text.integer?_eq_some_iff.mp (by decide +kernel))
  have hcode := (hshown code (by simp)).pattern (.int false .w32) 0xBEEF rfl (by decide)
    ((Literal.map_integerPattern?_eq_some_iff (by decide) (by decide)).mp (by decide +kernel))
  have hlast := (hshown last (by simp)).number false .w8 0 rfl rfl
    (Text.integer?_eq_some_iff.mp (by decide +kernel))
  obtain ⟨b, hb, hblob⟩ := (hshown blob (by simp)).octets rfl
  have hoctets : Literal.octets (blob.literal values).toList = .ok [0x0A, 0xFF] := by decide +kernel
  cases Except.ok.inj ((Literal.octets_eq_ok_iff.mpr hb).symm.trans hoctets)
  refine ⟨hslots, hcount, hcode, ?_, hblob, hlast⟩
  rw [(hshown label (by simp)).letters rfl]
  decide +kernel

end Layout

/-! ## Numbers that fit -/

/-- What is read at an integer field that holds a number. -/
def numberReading (e : Endian) (signed : Bool) (w : Width) (n : Nat) : Reading :=
  { raw := Octets.write e w.bytes n
    display := String.ofList (Text.decimal n)
    value := some (.scalar (.int signed w) (BitVec.ofNat _ n))
    status := .ok }

theorem integer?_ofNat {signed : Bool} {w : Width} {n : Nat} (h : Literal.InRange signed w n) :
    Value.integer? (.scalar (.int signed w) (BitVec.ofNat _ n)) = some (n : Int) := by
  rw [← BitVec.ofInt_natCast]
  exact Value.integer?_ofInt h

/-- A literal that denotes a number of the field's type is written and shown as this number. -/
theorem Slot.decode_encode_number {s : Slot} {values : Values} {signed : Bool} {w : Width}
    (htype : s.field.type = .scalar (.int signed w)) (hradix : s.field.radix = .decimal)
    (hmembers : s.field.members = []) (hlabels : s.field.labels = none) {n : Nat}
    (hn : Literal.InRange signed w n)
    (hliteral : Literal.scalarPattern? (.int signed w) .decimal (s.literal values).toList =
      some (UInt64.ofNat n)) :
    s.decode (s.encode values).bytes = [⟨s.key, numberReading s.field.endian signed w n⟩] := by
  have hlt : n < 2 ^ 64 := Nat.lt_of_lt_of_le (Literal.lt_of_inRange hn)
    (Nat.pow_le_pow_right (by decide) (Scalar.bits_le (.int signed w)))
  have hword : s.word (.int signed w) values = .ok (UInt64.ofNat n) := by
    simp only [word, hradix, hliteral, hmembers]
    rfl
  have hbytes : (s.encode values).bytes = Octets.write s.field.endian w.bytes n := by
    rw [encode, bytes, htype]
    simp only [hword, Except.map, UInt64.toNat_ofNat', Nat.mod_eq_of_lt hlt]
    rfl
  have hinterpret : s.field.interpret (Octets.write s.field.endian w.bytes n) =
      .ok (.scalar (.int signed w) (BitVec.ofNat _ n)) := by
    rw [Field.interpret, htype]
    exact Scalar.read_write (.int signed w) s.field.endian n
  have hdisplay : Value.display (.scalar (.int signed w) (BitVec.ofNat _ n)) =
      String.ofList (Text.decimal n) := by
    rw [Value.display_of_integer? (integer?_ofNat hn), Text.decimalInt_natCast]
  have hreading : s.field.decode (Octets.write s.field.endian w.bytes n) =
      numberReading s.field.endian signed w n := by
    rw [Field.decode, hinterpret]
    simp only [Field.radixText, hradix, hlabels, hdisplay]
    rfl
  rw [hbytes, decode_eq, memberEntries, hreading, hmembers]
  rfl

/-! ## What is read is written back -/

/-- The bytes of a message, each slot with its own. -/
def pieces : List Slot → List UInt8 → List (Slot × List UInt8)
  | [], _ => []
  | s :: slots, bytes =>
    (s, bytes.take s.field.byteSize) :: pieces slots (bytes.drop s.field.byteSize)

theorem map_fst_pieces (slots : List Slot) (bytes : List UInt8) :
    (pieces slots bytes).map Prod.fst = slots := by
  induction slots generalizing bytes with
  | nil => rfl
  | cons s slots ih => rw [pieces, List.map_cons, ih]

theorem length_of_mem_pieces {slots : List Slot} {bytes : List UInt8}
    (h : bytes.length = (slots.map (·.field.byteSize)).sum) :
    ∀ p ∈ pieces slots bytes, p.2.length = p.1.field.byteSize := by
  induction slots generalizing bytes with
  | nil => simp [pieces]
  | cons s slots ih =>
    rw [List.map_cons, List.sum_cons] at h
    intro p hp
    rw [pieces] at hp
    rcases List.mem_cons.mp hp with rfl | hp
    · have hlen : (bytes.take s.field.byteSize).length = s.field.byteSize := by
        rw [List.length_take]
        omega
      exact hlen
    · refine ih ?_ p hp
      rw [List.length_drop]
      omega

theorem flatMap_snd_pieces {slots : List Slot} {bytes : List UInt8}
    (h : bytes.length = (slots.map (·.field.byteSize)).sum) :
    (pieces slots bytes).flatMap Prod.snd = bytes := by
  induction slots generalizing bytes with
  | nil =>
    rw [List.map_nil, List.sum_nil, List.length_eq_zero_iff] at h
    rw [h]
    rfl
  | cons s slots ih =>
    rw [List.map_cons, List.sum_cons] at h
    have htail : (bytes.drop s.field.byteSize).length = (slots.map (·.field.byteSize)).sum := by
      rw [List.length_drop]
      omega
    rw [pieces, List.flatMap_cons, ih htail, List.take_append_drop]

namespace Layout

/-- The keys of all values of a message. -/
def valueKeys (l : Layout) : List String :=
  l.slots.flatMap fun s => s.key :: s.field.members.map s.memberKey

/-- The texts that a message is shown with, by key. -/
def texts (l : Layout) (buffer : List UInt8) : Values :=
  Dict.ofList ((l.decode buffer).map fun e => (e.key, e.reading.display))

theorem decode_eq_pieces (h : buffer.length = l.wireSize) :
    l.decode buffer = ((pieces l.slots buffer).rdropWhile (·.1.field.byteSize = 0)).flatMap
      fun p => p.1.decode p.2 := by
  rw [wireSize_eq_sum] at h
  have hd := decodeFrom_flatMap (length_of_mem_pieces h)
  rwa [map_fst_pieces, flatMap_snd_pieces h] at hd

theorem keys_decode_sublist (h : buffer.length = l.wireSize) :
    ((l.decode buffer).map Entry.key).Sublist l.valueKeys := by
  have hkeys : ∀ p ∈ pieces l.slots buffer, ((p.1.decode p.2).map Entry.key).Sublist
      (p.1.key :: p.1.field.members.map p.1.memberKey) := by
    intro p _
    rw [Slot.decode_eq, List.map_cons]
    exact (Slot.keys_memberEntries p.1 p.2).cons_cons _
  have hslots : l.valueKeys = (pieces l.slots buffer).flatMap fun p =>
      p.1.key :: p.1.field.members.map p.1.memberKey := by
    conv_lhs => rw [valueKeys, ← map_fst_pieces l.slots buffer, List.flatMap_map]
  rw [decode_eq_pieces h, hslots, List.map_flatMap]
  exact ((List.rdropWhile_prefix _ _).sublist.flatMap _).trans
    (List.Sublist.flatMap_right _ hkeys)

/-- Where keys differ, each entry of a message has its own text among them. -/
theorem get?_texts (h : buffer.length = l.wireSize) (hn : l.valueKeys.Nodup) {e : Entry}
    (he : e ∈ l.decode buffer) : (l.texts buffer).get? e.key = some e.reading.display := by
  have hkeys : (((l.decode buffer).map fun e => (e.key, e.reading.display)).map Prod.fst).Nodup := by
    rw [List.map_map]
    exact hn.sublist (keys_decode_sublist h)
  exact Dict.get?_ofList_of_mem hkeys (List.mem_map_of_mem he)

theorem bytes_of_mem_pieces (h : buffer.length = l.wireSize) (hn : l.valueKeys.Nodup)
    (hx : ∀ s ∈ l.slots, s.field.Exact) (hk : ∀ p ∈ pieces l.slots buffer, p.1.field.Keeps p.2)
    {p : Slot × List UInt8} (hp : p ∈ pieces l.slots buffer) :
    (p.1.encode (l.texts buffer)).bytes = p.2 := by
  have hs : p.1 ∈ l.slots := by
    rw [← map_fst_pieces l.slots buffer]
    exact List.mem_map_of_mem hp
  have hr := isReference_of_mem_slots hs
  have hlen := length_of_mem_pieces (h.trans l.wireSize_eq_sum) p hp
  by_cases hz : p.1.field.byteSize = 0
  · have hleft := Slot.length_encode hr (l.texts buffer)
    rw [hz] at hleft hlen
    rw [List.length_eq_zero_iff.mp hleft, List.length_eq_zero_iff.mp hlen]
  · have hmem : p ∈ (pieces l.slots buffer).rdropWhile (·.1.field.byteSize = 0) :=
      mem_rdropWhile hp (decide_eq_false hz)
    have hgiven : ∀ e ∈ p.1.decode p.2,
        (l.texts buffer).get? e.key = some e.reading.display := by
      intro e he
      refine get?_texts h hn ?_
      rw [decode_eq_pieces h]
      exact List.mem_flatMap.mpr ⟨p, hmem, he⟩
    rw [Slot.encode, Slot.bytes_of_given hr (hx p.1 hs) (hk p hp) hlen hgiven]
    rfl

/-- Decoding and then encoding: a message whose fields show all of their bytes, under keys that
differ, is written back from the texts that it is shown with. -/
theorem encode_texts (l : Layout) (buffer : List UInt8) (hx : ∀ s ∈ l.slots, s.field.Exact)
    (hn : l.valueKeys.Nodup) (h : buffer.length = l.wireSize)
    (hk : ∀ p ∈ pieces l.slots buffer, p.1.field.Keeps p.2) :
    l.encode (l.texts buffer) = buffer := by
  have hslots : l.encode (l.texts buffer) =
      (pieces l.slots buffer).flatMap fun p => (p.1.encode (l.texts buffer)).bytes := by
    conv_lhs => rw [encode, encodeFields, ← map_fst_pieces l.slots buffer]
    rw [List.map_map, List.flatMap_map]
    rfl
  rw [hslots, List.flatMap_congr fun p hp => bytes_of_mem_pieces h hn hx hk hp]
  exact flatMap_snd_pieces (h.trans l.wireSize_eq_sum)

/-- A signed number with a flag over its low bits, and a text. -/
theorem encode_texts_flagged :
    let count := (Field.new "n" (.scalar (.int true .w16))).withBits [.single "odd" 0]
    let label := (Field.new "s" .string).withSize 3
    let l : Layout := ⟨[count], [label]⟩
    l.encode (l.texts [0xFF, 0xFE, 0x41, 0, 0]) = [0xFF, 0xFE, 0x41, 0, 0] := by
  intro count label l
  have hslots : l.slots = [⟨"header.n", count⟩, ⟨"payload.s", label⟩] := by decide +kernel
  refine encode_texts l [0xFF, 0xFE, 0x41, 0, 0] ?_ (by decide +kernel) (by decide +kernel) ?_
  · intro s hs
    rw [hslots, List.mem_pair] at hs
    rcases hs with rfl | rfl
    · exact ⟨rfl, by decide, by decide⟩
    · exact ⟨rfl, by decide, by decide⟩
  · intro p hp
    rw [hslots] at hp
    have hp : p ∈ [((⟨"header.n", count⟩ : Slot), [0xFF, 0xFE]),
        (⟨"payload.s", label⟩, [0x41, 0, 0])] := hp
    have hascii : [0x41, 0, 0].all (fun b : UInt8 => b < 128) = true := by decide
    rcases List.mem_pair.mp hp with rfl | rfl
    · exact ⟨by decide, by decide⟩
    · exact ⟨fun _ b hb => of_decide_eq_true (List.all_eq_true.mp hascii b hb), by decide⟩

end Layout

end Datagram
