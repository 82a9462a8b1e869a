import Datagram.Codec.Decode
import Datagram.Codec.Encode
import Datagram.Proofs.BitMember
import Datagram.Proofs.Codec.Grammar
import Mathlib.Data.List.DropRight

/-! # One slot written and read

A slot writes as many bytes as its field takes, and what it writes is always read as a value of the
field's type. A literal is read back as the value that it denotes, and the text of a value is read
back as the bytes that it was read from. -/

namespace Datagram

open Datagram.Text

/-! ## Bytes of the right number -/

theorem Scalar.read_of_length {s : Scalar} {raw : List UInt8} (h : raw.length = s.bytes)
    (e : Endian) : s.read e raw = .ok (.scalar s (BitVec.ofNat _ (Octets.read e raw))) := by
  simp [Scalar.read, h]

theorem Scalar.read_write (s : Scalar) (e : Endian) (x : Nat) :
    s.read e (Octets.write e s.bytes x) = .ok (.scalar s (BitVec.ofNat _ x)) := by
  have hmod : BitVec.ofNat s.bits (x % 256 ^ s.bytes) = BitVec.ofNat s.bits x := by
    apply BitVec.eq_of_toNat_eq
    rw [BitVec.toNat_ofNat, BitVec.toNat_ofNat, Octets.two_pow_bits]
    exact Nat.mod_mod _ _
  rw [s.read_of_length (Octets.length_write e _ x), Octets.read_write, hmod]

/-- Bytes in the field's number are a value unless they are a text that is not ASCII. -/
theorem Field.interpret_ok {f : Field} (hr : f.isReference = false) {raw : List UInt8}
    (hlen : raw.length = f.byteSize) (hs : f.type = .string → ∀ b ∈ raw, b < 128) :
    ∃ v, f.interpret raw = .ok v := by
  unfold Field.interpret
  cases ht : f.type with
  | scalar s =>
    rw [Field.byteSize_of_scalar hr ht] at hlen
    exact ⟨_, s.read_of_length hlen f.endian⟩
  | padding => exact ⟨_, rfl⟩
  | string =>
    have hall : raw.all (· < 128) = true := by simpa using hs ht
    simp only [hall, if_true]
    exact ⟨_, rfl⟩
  | bytes => exact ⟨_, rfl⟩

namespace Slot

variable {s : Slot} {values : Values}

theorem length_of_bytes_ok (hr : s.field.isReference = false) {b : List UInt8}
    (h : s.bytes values = .ok b) : b.length = s.field.byteSize := by
  unfold bytes at h
  cases ht : s.field.type with
  | scalar sc =>
    simp only [ht] at h
    cases hw : s.word sc values with
    | error e => rw [hw] at h; cases h
    | ok w =>
      rw [hw] at h
      cases h
      rw [Octets.length_write, Field.byteSize_of_scalar hr ht]
  | padding =>
    simp only [ht] at h
    cases h
    exact List.length_replicate
  | string =>
    simp only [ht] at h
    cases h
    exact Octets.length_fit _ _
  | bytes =>
    simp only [ht] at h
    cases ho : Literal.octets (s.literal values).toList with
    | error e => rw [ho] at h; cases h
    | ok o =>
      rw [ho] at h
      cases h
      exact Octets.length_fit _ _

theorem length_encode (hr : s.field.isReference = false) (values : Values) :
    (s.encode values).bytes.length = s.field.byteSize := by
  unfold encode
  cases h : s.bytes values with
  | ok b => exact length_of_bytes_ok hr h
  | error e => exact List.length_replicate

theorem bytes_of_failure?_eq_none (h : (s.encode values).failure? = none) :
    s.bytes values = .ok (s.encode values).bytes := by
  unfold encode at h ⊢
  cases hb : s.bytes values with
  | ok b => rfl
  | error e => rw [hb] at h; cases h

theorem ascii_of_encode (ht : s.field.type = .string) :
    ∀ b ∈ (s.encode values).bytes, b < 128 := by
  have hb : s.bytes values =
      .ok (Octets.fit s.field.byteSize (Literal.ascii (s.literal values).toList)) := by
    simp only [bytes, ht]
  intro b h
  simp only [encode, hb, Encoding.bytes, Octets.fit, List.mem_append, List.mem_replicate] at h
  rcases h with h | ⟨_, rfl⟩
  · obtain ⟨c, _, rfl⟩ := List.mem_map.mp (List.mem_of_mem_take h)
    split
    · rename_i hc
      rw [UInt8.lt_iff_toNat_lt, UInt8.toNat_ofNat', Nat.mod_eq_of_lt (by omega)]
      exact hc
    · decide
  · decide

/-- What is read at a slot that was written with the given values. -/
def readBack (s : Slot) (values : Values) : Reading := s.field.decode (s.encode values).bytes

theorem interpret_encode (hr : s.field.isReference = false) (values : Values) :
    ∃ v, s.field.interpret (s.encode values).bytes = .ok v :=
  Field.interpret_ok hr (length_encode hr values) ascii_of_encode

theorem readBack_of_interpret {v : Value}
    (h : s.field.interpret (s.encode values).bytes = .ok v) :
    (s.readBack values).value = some v ∧ (s.readBack values).status = .ok := by
  simp [readBack, Field.decode, h]

/-! ## Literals -/

/-- The text that a field of some bytes shows for a literal. -/
def shownText (size : Nat) (literal : List Char) : List Char :=
  ((literal.map fun c => if c.toNat < 128 then c else '?').take size).rdropWhile (· = '\x00')

/-- The text that stands for a slot: the one that is given under its key, else its field's own, else
zero. -/
inductive Stands (s : Slot) (values : Values) : String → Prop where
  | given {text} : values.get? s.key = some text → Stands s values text
  | own {text} : values.get? s.key = none → s.field.value = some text → Stands s values text
  | zero : values.get? s.key = none → s.field.value = none → Stands s values "0"

theorem stands_literal (s : Slot) (values : Values) : s.Stands values (s.literal values) := by
  unfold literal
  cases hgiven : values.get? s.key with
  | some text => exact .given hgiven
  | none =>
    cases hown : s.field.value with
    | some text => exact .own hgiven hown
    | none => exact .zero hgiven hown

theorem Stands.eq_literal {text : String} (h : s.Stands values text) : text = s.literal values := by
  cases h with
  | given hgiven =>
    rw [literal, hgiven]
    rfl
  | own hnone hown =>
    rw [literal, hnone, hown]
    rfl
  | zero hnone hown =>
    rw [literal, hnone, hown]
    rfl

/-- The value that is read back for a text that stands for a slot without bit members. -/
structure ShowsLiteral (s : Slot) (text : String) (v : Option Value) : Prop where
  number : ∀ signed w n, s.field.type = .scalar (.int signed w) → s.field.radix = .decimal →
    Integer (trim text.toList) n → v.bind Value.integer? = some n
  pattern : ∀ scalar p, s.field.type = .scalar scalar → s.field.radix ≠ .decimal →
    Literal.Denotes scalar.bytes scalar.isSigned s.field.radix (trim text.toList) p →
    (v.bind Value.pattern?).map UInt64.toNat = some p
  letters : s.field.type = .string →
    v = some (.text (String.ofList (shownText s.field.byteSize text.toList)))
  octets : s.field.type = .bytes →
    ∃ b, List.Forall₂ Literal.Octet (words text.toList) b ∧
      v = some (.bytes (b.take s.field.byteSize ++ List.replicate (s.field.byteSize - b.length) 0))

theorem word_of_no_members (h : s.field.members = []) {scalar : Scalar} {u : UInt64}
    (hw : s.word scalar values = .ok u) :
    Literal.scalarPattern? scalar s.field.radix (s.literal values).toList = some u := by
  unfold word at hw
  cases hp : Literal.scalarPattern? scalar s.field.radix (s.literal values).toList with
  | none => simp [hp] at hw
  | some base =>
    simp only [hp, h, List.foldlM_nil] at hw
    cases hw
    rfl

theorem interpret_of_scalar {scalar : Scalar} (ht : s.field.type = .scalar scalar)
    (hf : (s.encode values).failure? = none) :
    ∃ u, s.word scalar values = .ok u ∧ s.field.interpret (s.encode values).bytes =
      .ok (.scalar scalar (BitVec.ofNat _ u.toNat)) := by
  have hb := bytes_of_failure?_eq_none hf
  simp only [bytes, ht] at hb
  cases hw : s.word scalar values with
  | error e => rw [hw] at hb; cases hb
  | ok u =>
    rw [hw] at hb
    refine ⟨u, rfl, ?_⟩
    rw [← Except.ok.inj hb, Field.interpret, ht]
    exact scalar.read_write s.field.endian u.toNat

theorem integer?_of_word {signed : Bool} {w : Width} {n : Int} {u : UInt64}
    (hn : integer? (trim (s.literal values).toList) = some n) (hr : s.field.radix = .decimal)
    (hu : Literal.scalarPattern? (.int signed w) s.field.radix (s.literal values).toList = some u) :
    Value.integer? (.scalar (.int signed w) (BitVec.ofNat _ u.toNat)) = some n := by
  have hfrac : Literal.fractionFormat? (.int signed w) .decimal (trim (s.literal values).toList) =
      none := by
    simp [Literal.fractionFormat?]
  rw [Literal.scalarPattern?, hr] at hu
  simp only [hfrac, Literal.integerPattern?_of_integer? hn] at hu
  obtain ⟨hrange, rfl⟩ := (Literal.decimal?_eq_some hn u).mp hu
  have hlt : (BitVec.ofInt (8 * w.bytes) n).toNat < 2 ^ 64 :=
    Nat.lt_of_lt_of_le (BitVec.isLt _) (Nat.pow_le_pow_right (by decide)
      (Scalar.bits_le (.int signed w)))
  have hback : BitVec.ofNat (Scalar.int signed w).bits (BitVec.ofInt (8 * w.bytes) n).toNat =
      BitVec.ofInt (Scalar.int signed w).bits n :=
    (BitVec.ofNat_toNat _ _).trans (BitVec.setWidth_eq _)
  rw [UInt64.toNat_ofNat', Nat.mod_eq_of_lt hlt, hback]
  exact Value.integer?_ofInt hrange

theorem pattern?_of_word {scalar : Scalar} {p : Nat} {u : UInt64}
    (hp : Literal.Denotes scalar.bytes scalar.isSigned s.field.radix (trim (s.literal values).toList) p)
    (hr : s.field.radix ≠ .decimal)
    (hu : Literal.scalarPattern? scalar s.field.radix (s.literal values).toList = some u) :
    (Value.pattern? (.scalar scalar (BitVec.ofNat _ u.toNat))).map UInt64.toNat = some p := by
  have hfrac : Literal.fractionFormat? scalar s.field.radix (trim (s.literal values).toList) =
      none := by
    simp [Literal.fractionFormat?, hr]
  have hread := (Literal.map_integerPattern?_eq_some_iff scalar.bytes_pos scalar.bytes_le).mpr hp
  have hlt : p < 2 ^ scalar.bits := hp.lt
  simp only [Literal.scalarPattern?, hfrac] at hu
  rw [hu, Option.map_some, Option.some.injEq] at hread
  rw [Value.pattern?, BitVec.toNat_ofNat, hread, Nat.mod_eq_of_lt hlt, Option.map_some, ← hread,
    UInt64.ofNat_toNat]

/-- The text that is read from a literal's codes, filled up with zeros or cut. -/
theorem interpret_ascii (size : Nat) (literal : List Char) :
    (((Octets.fit size (Literal.ascii literal)).reverse.dropWhile (· = 0)).reverse.map
      fun b => Char.ofNat b.toNat) = shownText size literal := by
  have hcode : ∀ c : Char, c.toNat < 128 → (UInt8.ofNat c.toNat).toNat = c.toNat := by
    intro c h
    rw [UInt8.toNat_ofNat']
    omega
  have hshow : ∀ c : Char, Char.ofNat (if c.toNat < 128 then UInt8.ofNat c.toNat else 63).toNat =
      if c.toNat < 128 then c else '?' := by
    intro c
    split
    · rename_i h
      rw [hcode c h, Char.ofNat_toNat]
    · rfl
  have hzero : ∀ c : Char, (if c.toNat < 128 then UInt8.ofNat c.toNat else 63) = 0 ↔
      (if c.toNat < 128 then c else '?') = '\x00' := by
    intro c
    split
    · rename_i h
      rw [← UInt8.toNat_inj, hcode c h, ← Char.toNat_inj]
      rfl
    · decide
  have hzeros : ∀ b ∈ (List.replicate (size - (Literal.ascii literal).length) (0 : UInt8)).reverse,
      decide (b = 0) = true := by
    intro b hb
    simp only [List.reverse_replicate, List.mem_replicate] at hb
    exact decide_eq_true hb.2
  rw [Octets.fit, List.reverse_append, List.dropWhile_append_of_pos hzeros, shownText,
    Literal.ascii, ← List.map_take, ← List.map_take, ← List.map_reverse, List.dropWhile_map,
    ← List.map_reverse, List.map_map, List.rdropWhile, ← List.map_reverse, List.dropWhile_map,
    ← List.map_reverse]
  have hp : ((fun b : UInt8 => decide (b = 0)) ∘ fun c : Char =>
      if c.toNat < 128 then UInt8.ofNat c.toNat else 63) =
      (fun c => decide (c = '\x00')) ∘ fun c : Char => if c.toNat < 128 then c else '?' := by
    funext c
    exact decide_eq_decide.mpr (hzero c)
  rw [hp]
  exact List.map_congr_left fun c _ => hshow c

theorem interpret_of_string (ht : s.field.type = .string) :
    s.field.interpret (s.encode values).bytes = .ok (.text (String.ofList
      (shownText s.field.byteSize (s.literal values).toList))) := by
  have hall : (s.encode values).bytes.all (· < 128) = true := by simpa using ascii_of_encode ht
  have hb : s.bytes values =
      .ok (Octets.fit s.field.byteSize (Literal.ascii (s.literal values).toList)) := by
    simp only [bytes, ht]
  rw [← interpret_ascii]
  simp only [Field.interpret, ht, hall, if_true]
  simp only [encode, hb, Encoding.bytes]

theorem interpret_of_bytes (ht : s.field.type = .bytes) (hf : (s.encode values).failure? = none) :
    ∃ b, Literal.octets (s.literal values).toList = .ok b ∧
      s.field.interpret (s.encode values).bytes = .ok (.bytes (Octets.fit s.field.byteSize b)) := by
  have hb := bytes_of_failure?_eq_none hf
  simp only [bytes, ht] at hb
  cases ho : Literal.octets (s.literal values).toList with
  | error e => rw [ho] at hb; cases hb
  | ok b =>
    rw [ho] at hb
    refine ⟨b, rfl, ?_⟩
    rw [← Except.ok.inj hb, Field.interpret, ht]

/-- A literal that could be written is read back. -/
theorem showsLiteral_readBack (hm : s.field.members = [])
    (hf : (s.encode values).failure? = none) :
    ShowsLiteral s (s.literal values) (s.readBack values).value where
  number := by
    intro signed w n ht hr hn
    obtain ⟨u, hw, hi⟩ := interpret_of_scalar ht hf
    rw [(readBack_of_interpret hi).1]
    exact integer?_of_word (integer?_eq_some_iff.mpr hn) hr (word_of_no_members hm hw)
  pattern := by
    intro scalar p ht hr hp
    obtain ⟨u, hw, hi⟩ := interpret_of_scalar ht hf
    rw [(readBack_of_interpret hi).1]
    exact pattern?_of_word hp hr (word_of_no_members hm hw)
  letters := by
    intro ht
    exact (readBack_of_interpret (interpret_of_string ht)).1
  octets := by
    intro ht
    obtain ⟨b, ho, hi⟩ := interpret_of_bytes ht hf
    exact ⟨b, Literal.octets_eq_ok_iff.mp ho, (readBack_of_interpret hi).1⟩

end Slot

end Datagram
