import Datagram.Proofs.Codec.RoundTrip

/-! # Bit members over a number

The literals of the bit members are put into the word of a numeric field one after the other, so the
last one that covers a bit decides it, and the bits that none of them covers stay those of the field's
own literal. Every member is read again from its bits of the number that was written. -/

namespace Datagram

open Datagram.Text

/-! ## Members in a number -/

/-- What is read at a bit member that holds a number. -/
def BitMember.shown (b : BitMember) (raw : List UInt8) (n : Nat) : Reading :=
  let text := String.ofList (decimal n)
  { raw
    display := labelled text text b.labels
    value := some (.ofWord (UInt64.ofNat n))
    status := .ok }

/-- The number in the bits of a span. -/
def Span.cut (s : Span) (n : Nat) : Nat := n / 2 ^ s.first % 2 ^ s.size

theorem Span.toNat_extract_eq_cut (s : Span) (word : UInt64) :
    (s.extract word).toNat = s.cut word.toNat := s.toNat_extract word

theorem Value.display_ofWord (w : UInt64) :
    (Value.ofWord w).display = String.ofList (decimal w.toNat) := by
  have hnat : (BitVec.ofNat (Scalar.int false .w64).bits w.toNat).toNat = w.toNat :=
    Nat.mod_eq_of_lt w.toNat_lt
  rw [Value.ofWord, Value.display, hnat, decimalInt_natCast]

theorem BitMember.decode_eq_shown (b : BitMember) (raw : List UInt8) (word : UInt64) :
    b.decode raw word = b.shown raw (b.span.cut word.toNat) := by
  rw [← Span.toNat_extract_eq_cut, BitMember.decode, BitMember.shown, UInt64.ofNat_toNat,
    Value.display_ofWord]

namespace Slot

variable {s : Slot} {scalar : Scalar} {values : Values}

/-- The members of a numeric field are read from the number in its bytes. -/
theorem memberEntries_of_scalar (ht : s.field.type = .scalar scalar) {raw : List UInt8}
    (hlen : raw.length = scalar.bytes) :
    s.memberEntries raw = s.field.members.map fun b =>
      ⟨s.memberKey b, b.shown raw (b.span.cut (Octets.read s.field.endian raw))⟩ := by
  let n := Octets.read s.field.endian raw
  have hlt : n < 2 ^ scalar.bits := by
    have := Octets.read_lt s.field.endian raw
    rwa [hlen, Octets.two_pow_bits] at this
  have hvalue : (s.field.decode raw).value = some (.scalar scalar (BitVec.ofNat _ n)) := by
    have hinterpret : s.field.interpret raw = .ok (.scalar scalar (BitVec.ofNat _ n)) := by
      rw [Field.interpret, ht]
      exact scalar.read_of_length hlen _
    rw [Field.decode, hinterpret]
  have hword : (UInt64.ofNat (BitVec.ofNat scalar.bits n).toNat).toNat = n := by
    rw [toNat_pattern, BitVec.toNat_ofNat, Nat.mod_eq_of_lt hlt]
  simp only [memberEntries, hvalue, Option.bind_some, Value.pattern?, BitMember.decode_eq_shown,
    hword]
  rfl

/-! ## One member -/

theorem bytes_of_scalar (ht : s.field.type = .scalar scalar) : s.bytes values =
    (s.word scalar values).map fun w => Octets.write s.field.endian scalar.bytes w.toNat := by
  simp only [bytes, ht]

theorem word_ok_iff {w : UInt64} : s.word scalar values = .ok w ↔ ∃ base,
    Literal.scalarPattern? scalar s.field.radix (s.literal values).toList = some base ∧
      s.field.members.foldlM (s.overlay values) base = .ok w := by
  cases hb : Literal.scalarPattern? scalar s.field.radix (s.literal values).toList with
  | none => simp [word, hb]
  | some base => simp [word, hb]

theorem encode_ok_iff {bytes : List UInt8} (ht : s.field.type = .scalar scalar) :
    s.encode values = .ok bytes ↔ ∃ w, s.word scalar values = .ok w ∧
      Octets.write s.field.endian scalar.bytes w.toNat = bytes := by
  rw [encode, bytes_of_scalar ht]
  cases s.word scalar values with
  | error cause => simp [Except.map]
  | ok w => simp [Except.map]

end Slot

end Datagram
