import Datagram.Proofs.Codec.Display

/-! # Byte orders as mirrors of each other

Of a numeric field, one byte order is written as the other one from its last byte to its first, and
the two are read so. Whether a literal can be read, and which value bytes have, is the same in both.
The bytes of all other fields have one order only. -/

namespace Datagram

/-! ## Bytes -/

theorem Octets.write_little (n x : Nat) : write .little n x = (write .big n x).reverse :=
  (List.reverse_reverse _).symm

theorem Octets.read_reverse (bytes : List UInt8) : read .big bytes.reverse = read .little bytes := by
  rw [read, read, List.reverse_reverse]

/-- What is written, from its last byte to its first. -/
def Encoding.mirror : Encoding → Encoding
  | .ok bytes => .ok bytes.reverse
  | .zeroFilled size cause => .zeroFilled size cause

theorem Encoding.bytes_mirror (e : Encoding) : e.mirror.bytes = e.bytes.reverse := by
  cases e with
  | ok bytes => rfl
  | zeroFilled size cause => exact List.reverse_replicate.symm

theorem Encoding.failure?_mirror (e : Encoding) : e.mirror.failure? = e.failure? := by
  cases e with
  | ok bytes => rfl
  | zeroFilled size cause => rfl

/-- The same reading of the same bytes, which stand in the other order. Bytes that are no value are
shown as they stand. -/
structure Reading.Mirrors (r r' : Reading) : Prop where
  raw : r'.raw = r.raw.reverse
  value : r.value = r'.value
  status : r.status = r'.status
  display : r.status = .ok → r.display = r'.display

/-! ## Fields -/

theorem Scalar.read_mirror (s : Scalar) (raw : List UInt8) :
    s.read .little raw = s.read .big raw.reverse := by
  rw [Scalar.read, Scalar.read, List.length_reverse, Octets.read_reverse]

theorem FieldType.exists_scalar {t : FieldType} (h : t.isNumeric = true) : ∃ s, t = .scalar s := by
  cases t with
  | scalar s => exact ⟨s, rfl⟩
  | padding | string | bytes => cases h

namespace Field

variable {f : Field} {raw : List UInt8}

theorem interpret_mirror {s : Scalar} (ht : f.type = .scalar s) :
    (f.withEndian .little).interpret raw = (f.withEndian .big).interpret raw.reverse := by
  have hread : ∀ (e : Endian) (bytes : List UInt8),
      (f.withEndian e).interpret bytes = s.read e bytes := by
    intro e bytes
    rw [interpret, withEndian, ht]
  rw [hread, hread, s.read_mirror]

theorem decode_mirror {s : Scalar} (ht : f.type = .scalar s) :
    ((f.withEndian .little).decode raw).Mirrors ((f.withEndian .big).decode raw.reverse) := by
  rw [decode, decode, interpret_mirror ht]
  -- The order shows in the bytes alone, so a value has the same text, but not what is none.
  cases (f.withEndian .big).interpret raw.reverse with
  | ok v => exact ⟨rfl, rfl, rfl, fun _ => rfl⟩
  | error reason => exact ⟨rfl, rfl, rfl, fun h => Status.noConfusion h⟩

theorem decode_unordered (hn : f.type.isNumeric = false) (e : Endian) :
    (f.withEndian e).decode raw = f.decode raw := by
  have hinterpret : (f.withEndian e).interpret raw = f.interpret raw := by
    rw [interpret, interpret, withEndian]
    cases ht : f.type with
    | scalar s =>
      rw [ht] at hn
      cases hn
    | padding | string | bytes => rfl
  rw [decode, decode, hinterpret]
  rfl

end Field

namespace Slot

variable {s : Slot} {values : Values} {raw : List UInt8}

/-- The slot with its field in a byte order. -/
def ordered (s : Slot) (e : Endian) : Slot := ⟨s.key, s.field.withEndian e⟩

/-- The word of a slot is put together before it is written. -/
theorem word_ordered (scalar : Scalar) (e : Endian) :
    (s.ordered e).word scalar values = s.word scalar values := rfl

theorem encode_mirror {scalar : Scalar} (ht : s.field.type = .scalar scalar) :
    (s.ordered .little).encode values = ((s.ordered .big).encode values).mirror := by
  have hbytes : ∀ e, (s.ordered e).bytes values =
      (s.word scalar values).map fun w => Octets.write e scalar.bytes w.toNat := by
    intro e
    have htype : (s.ordered e).field.type = .scalar scalar := ht
    simp only [bytes, htype, word_ordered]
    rfl
  rw [encode, encode, hbytes, hbytes]
  cases s.word scalar values with
  | ok w => exact congrArg Encoding.ok (Octets.write_little scalar.bytes w.toNat)
  | error cause => rfl

theorem encode_unordered (hn : s.field.type.isNumeric = false) (e : Endian) :
    (s.ordered e).encode values = s.encode values := by
  have hbytes : (s.ordered e).bytes values = s.bytes values := by
    have htype : (s.ordered e).field.type = s.field.type := rfl
    rw [bytes, bytes, htype]
    cases ht : s.field.type with
    | scalar scalar =>
      rw [ht] at hn
      cases hn
    | padding | string | bytes => rfl
  rw [encode, encode, hbytes]
  rfl

/-- The members of a mirrored word are read from the same word. -/
theorem memberEntries_mirror {scalar : Scalar} (ht : s.field.type = .scalar scalar) :
    List.Forall₂ (fun e e' => e.key = e'.key ∧ e.reading.Mirrors e'.reading)
      ((s.ordered .little).memberEntries raw) ((s.ordered .big).memberEntries raw.reverse) := by
  have hvalue : ((s.ordered .little).field.decode raw).value =
      ((s.ordered .big).field.decode raw.reverse).value := (Field.decode_mirror ht).value
  rw [memberEntries, memberEntries, hvalue]
  cases ((s.ordered .big).field.decode raw.reverse).value.bind Value.pattern? with
  | none => exact .nil
  | some word =>
    have hmembers : (s.ordered .little).field.members = (s.ordered .big).field.members := rfl
    dsimp only
    rw [hmembers, List.forall₂_map_left_iff, List.forall₂_map_right_iff, List.forall₂_same]
    exact fun b _ => ⟨rfl, rfl, rfl, rfl, fun _ => rfl⟩

theorem entries_mirror {scalar : Scalar} (ht : s.field.type = .scalar scalar) :
    List.Forall₂ (fun e e' => e.key = e'.key ∧ e.reading.Mirrors e'.reading)
      ((s.ordered .little).decode raw) ((s.ordered .big).decode raw.reverse) := by
  rw [decode_eq, decode_eq]
  exact .cons ⟨rfl, Field.decode_mirror ht⟩ (memberEntries_mirror ht)

theorem entries_unordered (hn : s.field.type.isNumeric = false) (e : Endian) :
    (s.ordered e).decode raw = s.decode raw := by
  have hfield : (s.ordered e).field.decode raw = s.field.decode raw := Field.decode_unordered hn e
  rw [decode_eq, decode_eq, memberEntries, memberEntries, hfield]
  rfl

/-- A numeric field is written in one byte order as the mirror of the other, and bytes are read in
one order as the mirrored bytes are in the other, the field and its bit members alike. Literals that
cannot be read are the same in both, and so are the bytes of fields that are not numeric. -/
theorem byte_orders_mirror (s : Slot) (values : Values) (raw : List UInt8) :
    let little := s.ordered .little
    let big := s.ordered .big
    (little.encode values).failure? = (big.encode values).failure? ∧
      (s.field.type.isNumeric = true →
        (little.encode values).bytes = (big.encode values).bytes.reverse ∧
        (little.field.decode raw).Mirrors (big.field.decode raw.reverse) ∧
        List.Forall₂ (fun e e' => e.key = e'.key ∧ e.reading.Mirrors e'.reading)
          (little.decode raw) (big.decode raw.reverse)) ∧
      (s.field.type.isNumeric = false →
        little.encode values = big.encode values ∧ little.decode raw = big.decode raw) := by
  intro little big
  have hnumeric : s.field.type.isNumeric = true →
      little.encode values = (big.encode values).mirror := by
    intro hn
    obtain ⟨scalar, ht⟩ := FieldType.exists_scalar hn
    exact encode_mirror ht
  have hother : s.field.type.isNumeric = false → little.encode values = big.encode values := by
    intro hn
    rw [encode_unordered hn, encode_unordered hn]
  refine ⟨?_, ?_, ?_⟩
  · cases hn : s.field.type.isNumeric with
    | true => rw [hnumeric hn, Encoding.failure?_mirror]
    | false => rw [hother hn]
  · intro hn
    obtain ⟨scalar, ht⟩ := FieldType.exists_scalar hn
    exact ⟨by rw [hnumeric hn, Encoding.bytes_mirror], Field.decode_mirror ht, entries_mirror ht⟩
  · intro hn
    exact ⟨hother hn, by rw [entries_unordered hn, entries_unordered hn]⟩

/-- A signed word with a flag over its number, written in both orders and read with its label. -/
theorem byte_orders_mirror_flag :
    let field := ((Field.new "state" (.scalar (.int true .w16))).withBits
      [BitMember.single "on" 15]).withLabels (Dict.empty.insert "-28108" "busy")
    let s : Slot := ⟨"payload.state", field⟩
    let values : Values := (Dict.empty.insert "payload.state" "0x1234").insert "payload.state.on" "1"
    s.field.type.isNumeric = true ∧
      ((s.ordered .big).encode values).bytes = [0x92, 0x34] ∧
      ((s.ordered .little).encode values).bytes = [0x34, 0x92] ∧
      ((s.ordered .big).field.decode [0x92, 0x34]).display = "busy (-28108)" ∧
      ((s.ordered .little).field.decode [0x34, 0x92]).display = "busy (-28108)" := by
  intro field s values
  have hbig : ((s.ordered .big).encode values).bytes = [0x92, 0x34] := by decide +kernel
  have hok : ((s.ordered .little).field.decode [0x34, 0x92]).status = .ok := by decide +kernel
  have hdisplay : ((s.ordered .big).field.decode [0x92, 0x34]).display = "busy (-28108)" := by
    decide +kernel
  obtain ⟨hbytes, hreading, _⟩ := (byte_orders_mirror s values [0x34, 0x92]).2.1 rfl
  refine ⟨rfl, hbig, ?_, hdisplay, ?_⟩
  · rw [hbytes, hbig]
    rfl
  · rw [hreading.display hok]
    exact hdisplay

end Slot

end Datagram
