import Datagram.Proofs.Codec.Slot
import Datagram.Proofs.Octets.Input

/-! # The texts of values, read as literals

What a field shows for its bytes is a literal for them: a number in the field's radix, the octets of
a blob, the letters of a text. -/

namespace Datagram

open Datagram.Text

/-! ## Numbers -/

theorem solid_hexText (p : UInt64) (width : Nat) : Solid (hexText p width).toList := by
  rw [hexText, String.toList_ofList]
  exact Solid.append (solid_of_mark .hex) (solid_of_ofDigits? (ofDigits?_upperHex _ _))

theorem solid_binaryText (p : UInt64) (width : Nat) : Solid (binaryText p width).toList := by
  rw [binaryText, String.toList_ofList]
  exact Solid.append (solid_of_mark .binary) (solid_of_ofDigits? (ofDigits?_binary _ _))

theorem digitsValue?_hexText (p : UInt64) (width : Nat) :
    Literal.digitsValue? .hex (hexText p width).toList = some p.toNat := by
  have h := ofDigits?_upperHex (2 * width) p.toNat
  have hmark : afterHexMark? (hexText p width).toList =
      some (zeroPadded (2 * width) (upperHex p.toNat)) := by
    rw [hexText, String.toList_ofList]
    rfl
  rw [Literal.digitsValue?, hmark, Option.getD_some, filter_underscore_of_ofDigits? h]
  exact natural?_of_ofDigits? h

theorem digitsValue?_binaryText (p : UInt64) (width : Nat) :
    Literal.digitsValue? .binary (binaryText p width).toList = some p.toNat := by
  have h := ofDigits?_binary (8 * width) p.toNat
  have hmark : afterBinaryMark? (binaryText p width).toList =
      some (zeroPadded (8 * width) (binary p.toNat)) := by
    rw [binaryText, String.toList_ofList]
    rfl
  rw [Literal.digitsValue?, hmark, Option.getD_some, filter_underscore_of_ofDigits? h]
  exact natural?_of_ofDigits? h

theorem toNat_pattern {s : Scalar} (p : BitVec s.bits) : (UInt64.ofNat p.toNat).toNat = p.toNat := by
  have h : 2 ^ s.bits ≤ 2 ^ 64 := Nat.pow_le_pow_right (by decide) (Scalar.bits_le s)
  have hp := p.isLt
  rw [UInt64.toNat_ofNat']
  omega

/-- An integer's decimal text is the literal of its pattern. -/
theorem integerPattern?_display {signed : Bool} {w : Width}
    (p : BitVec (Scalar.int signed w).bits) :
    Literal.integerPattern? .decimal w.bytes signed
        (trim (Value.scalar (.int signed w) p).display.toList) =
      some (UInt64.ofNat p.toNat) := by
  obtain ⟨n, hn⟩ : ∃ n, Value.integer? (.scalar (.int signed w) p) = some n := by
    cases signed <;> exact ⟨_, rfl⟩
  obtain ⟨hrange, hback⟩ := Value.inRange_of_integer? hn
  have hread := integer?_decimalInt n
  rw [Value.display_of_integer? hn, String.toList_ofList, trim_of_solid (solid_decimalInt n)]
  rw [show w.bytes = (Scalar.int signed w).bytes from rfl,
    Literal.integerPattern?_of_integer? hread]
  refine (Literal.decimal?_eq_some hread _).mpr ⟨hrange, ?_⟩
  rw [← hback]
  rfl

theorem memberValue?_display (w : UInt64) :
    Literal.memberValue? (Value.ofWord w).display.toList = some w := by
  let p : BitVec (Scalar.int false .w64).bits := BitVec.ofNat _ w.toNat
  have h := integerPattern?_display p
  have hw : p.toNat = w.toNat := Nat.mod_eq_of_lt w.toNat_lt
  rw [hw, UInt64.ofNat_toNat] at h
  exact h

/-- A number's text in its radix is the literal of its pattern. -/
theorem scalarPattern?_radixText {f : Field} {s : Scalar}
    (hd : s.isInteger = false → f.radix ≠ .decimal) (p : BitVec s.bits) :
    Literal.scalarPattern? s f.radix (f.radixText (.scalar s p)).toList =
      some (UInt64.ofNat p.toNat) := by
  have hlt : p.toNat < 2 ^ s.bits := p.isLt
  unfold Literal.scalarPattern?
  cases hr : f.radix with
  | hex =>
    have htext : f.radixText (.scalar s p) = hexText (UInt64.ofNat p.toNat) f.byteSize := by
      rw [Field.radixText, hr]
      rfl
    have hfrac : ∀ t, Literal.fractionFormat? s .hex t = none := fun t => rfl
    simp only [htext, hfrac, trim_of_solid (solid_hexText _ _)]
    rw [Literal.integerPattern?_eq_digitsValue? (by decide), digitsValue?_hexText, toNat_pattern]
    simp [hlt]
  | binary =>
    have htext : f.radixText (.scalar s p) = binaryText (UInt64.ofNat p.toNat) f.byteSize := by
      rw [Field.radixText, hr]
      rfl
    have hfrac : ∀ t, Literal.fractionFormat? s .binary t = none := fun t => rfl
    simp only [htext, hfrac, trim_of_solid (solid_binaryText _ _)]
    rw [Literal.integerPattern?_eq_digitsValue? (by decide), digitsValue?_binaryText, toNat_pattern]
    simp [hlt]
  | decimal =>
    have htext : f.radixText (.scalar s p) = Value.display (.scalar s p) := by
      rw [Field.radixText, hr]
    rw [htext]
    cases s with
    | int signed w =>
      have hfrac : ∀ t, Literal.fractionFormat? (.int signed w) .decimal t = none := by
        intro t
        simp [Literal.fractionFormat?]
      simp only [hfrac]
      exact integerPattern?_display p
    | float => exact absurd hr (hd rfl)
    | double => exact absurd hr (hd rfl)

/-! ## Text -/

theorem toNat_charOfNat (b : UInt8) : (Char.ofNat b.toNat).toNat = b.toNat := by
  have hlt : b.toNat < 256 := b.toNat_lt
  have hvalid : b.toNat.isValidChar := Or.inl (by omega)
  rw [Char.ofNat, dif_pos hvalid]
  rfl

theorem ascii_map_ofNat {codes : List UInt8} (h : ∀ b ∈ codes, b < 128) :
    Literal.ascii (codes.map fun b => Char.ofNat b.toNat) = codes := by
  rw [Literal.ascii, List.map_map]
  conv_rhs => rw [← List.map_id codes]
  apply List.map_congr_left
  intro b hb
  have hlt : b.toNat < 128 := UInt8.lt_iff_toNat_lt.mp (h b hb)
  rw [Function.comp_apply, toNat_charOfNat, if_pos hlt, UInt8.ofNat_toNat, id]

/-- The zeros behind a text are what it is filled up with. -/
theorem fit_trimmed (raw : List UInt8) :
    Octets.fit raw.length (raw.rdropWhile (· = 0)) = raw := by
  have hsplit := List.rdropWhile_append_rtakeWhile (p := fun b : UInt8 => decide (b = 0)) (l := raw)
  have hzeros : raw.rtakeWhile (· = 0) =
      List.replicate (raw.rtakeWhile (· = 0)).length (0 : UInt8) := by
    apply List.eq_replicate_of_mem
    intro b hb
    have := List.mem_rtakeWhile_imp hb
    simpa using this
  have hlen : raw.length =
      (raw.rdropWhile (· = 0)).length + (raw.rtakeWhile (· = 0)).length := by
    rw [← List.length_append, hsplit]
  rw [hlen, Octets.fit_append_zeros, ← hzeros, hsplit]

/-! ## One slot -/

/-- A field that shows all of its bytes: it has no labels, and a fraction is not in decimal. -/
structure Field.Exact (f : Field) : Prop where
  labels : f.labels = none
  memberLabels : ∀ b ∈ f.members, b.labels = none
  radix : f.type = .scalar .float ∨ f.type = .scalar .double → f.radix ≠ .decimal

/-- Bytes of which nothing is lost in reading: a text in ASCII, padding of zeros. -/
structure Field.Keeps (f : Field) (raw : List UInt8) : Prop where
  ascii : f.type = .string → ∀ b ∈ raw, b < 128
  zeros : f.type = .padding → ∀ b ∈ raw, b = 0

namespace Slot

variable {s : Slot} {values : Values} {raw : List UInt8}

/-- The members of a slot, as they are in its bytes. -/
def memberEntries (s : Slot) (raw : List UInt8) : List Entry :=
  match (s.field.decode raw).value.bind Value.pattern? with
  | some word => s.field.members.map fun b => ⟨s.memberKey b, b.decode raw word⟩
  | none => []

theorem decode_eq (s : Slot) (raw : List UInt8) :
    s.decode raw = ⟨s.key, s.field.decode raw⟩ :: s.memberEntries raw := rfl

theorem exists_member {e : Entry} (h : e ∈ s.memberEntries raw) :
    ∃ b ∈ s.field.members, ∃ word, e = ⟨s.memberKey b, b.decode raw word⟩ := by
  unfold memberEntries at h
  split at h
  · rename_i word _
    obtain ⟨b, hb, rfl⟩ := List.mem_map.mp h
    exact ⟨b, hb, word, rfl⟩
  · cases h

theorem status_of_mem_memberEntries {e : Entry} (h : e ∈ s.memberEntries raw) :
    e.reading.status = .ok := by
  obtain ⟨b, _, word, rfl⟩ := exists_member h
  rfl

theorem keys_memberEntries (s : Slot) (raw : List UInt8) :
    ((s.memberEntries raw).map Entry.key).Sublist (s.field.members.map s.memberKey) := by
  unfold memberEntries
  split
  · rw [List.map_map]
    exact List.Sublist.refl _
  · exact List.nil_sublist _

theorem decode_of_interpret (hl : s.field.labels = none) {v : Value}
    (h : s.field.interpret raw = .ok v) :
    (s.field.decode raw).display = s.field.radixText v ∧ (s.field.decode raw).value = some v := by
  simp [Field.decode, h, hl, labelled]

theorem literal_of_given (hg : ∀ e ∈ s.decode raw, values.get? e.key = some e.reading.display)
    (hl : s.field.labels = none) {v : Value} (h : s.field.interpret raw = .ok v) :
    s.literal values = s.field.radixText v := by
  have hkey := hg ⟨s.key, s.field.decode raw⟩ (by rw [decode_eq]; exact List.mem_cons_self)
  rw [literal, hkey, (decode_of_interpret hl h).1]
  rfl

/-- The value that is read at a member, put back into the word, leaves the word as it is. -/
theorem overlay_of_given (hg : ∀ e ∈ s.decode raw, values.get? e.key = some e.reading.display)
    {v : Value} {word : UInt64} (hx : s.field.Exact) (h : s.field.interpret raw = .ok v)
    (hp : v.pattern? = some word) {b : BitMember} (hb : b ∈ s.field.members) :
    s.overlay values word b = .ok word := by
  have hentries : s.memberEntries raw =
      s.field.members.map fun b => ⟨s.memberKey b, b.decode raw word⟩ := by
    rw [memberEntries, (decode_of_interpret hx.labels h).2, Option.bind_some, hp]
  have hmem : ⟨s.memberKey b, b.decode raw word⟩ ∈ s.decode raw := by
    rw [decode_eq, hentries]
    exact List.mem_cons_of_mem _ (List.mem_map_of_mem hb)
  have hkey : values.get? (s.memberKey b) = some (Value.ofWord (b.span.extract word)).display := by
    have := hg _ hmem
    simpa [BitMember.decode, labelled, hx.memberLabels b hb] using this
  have hlit : s.memberLiteral? values b = some (Value.ofWord (b.span.extract word)).display := by
    rw [memberLiteral?, hkey]
    rfl
  simp only [overlay, hlit, memberValue?_display, Span.insert_extract]

theorem foldlM_overlay_of_given
    (hg : ∀ e ∈ s.decode raw, values.get? e.key = some e.reading.display)
    {v : Value} {word : UInt64} (hx : s.field.Exact) (h : s.field.interpret raw = .ok v)
    (hp : v.pattern? = some word) {members : List BitMember}
    (hb : ∀ b ∈ members, b ∈ s.field.members) :
    members.foldlM (s.overlay values) word = .ok word := by
  induction members with
  | nil => rfl
  | cons b members ih =>
    rw [List.foldlM_cons, overlay_of_given hg hx h hp (hb b List.mem_cons_self)]
    exact ih fun c hc => hb c (List.mem_cons_of_mem _ hc)

theorem bytes_of_given_octets (ht : s.field.type = .bytes) (hx : s.field.Exact)
    (hlen : raw.length = s.field.byteSize)
    (hg : ∀ e ∈ s.decode raw, values.get? e.key = some e.reading.display) :
    s.bytes values = .ok raw := by
  have hv : s.field.interpret raw = .ok (.bytes raw) := by rw [Field.interpret, ht]
  have htext : s.field.radixText (.bytes raw) = String.ofList (Octets.dump raw) := by
    cases hr : s.field.radix <;> simp [Field.radixText, hr, Value.pattern?, Value.display]
  have hlit := literal_of_given hg hx.labels hv
  simp only [bytes, ht, hlit, htext, String.toList_ofList, Octets.octets_dump]
  rw [← hlen]
  exact congrArg Except.ok (Octets.fit_length raw)

theorem bytes_of_given_text (hr : s.field.isReference = false) (ht : s.field.type = .string)
    (hx : s.field.Exact) (hascii : ∀ b ∈ raw, b < 128) (hlen : raw.length = s.field.byteSize)
    (hg : ∀ e ∈ s.decode raw, values.get? e.key = some e.reading.display) :
    s.bytes values = .ok raw := by
  have hall : raw.all (· < 128) = true := by simpa using hascii
  obtain ⟨v, hv⟩ := Field.interpret_ok hr hlen fun _ => hascii
  have hlit := literal_of_given hg hx.labels hv
  simp only [Field.interpret, ht, hall, if_true] at hv
  obtain rfl := Except.ok.inj hv
  have htext : ∀ t, s.field.radixText (.text t) = t := by
    intro t
    cases hr : s.field.radix <;> simp [Field.radixText, hr, Value.pattern?, Value.display]
  have hcodes : ∀ b ∈ raw.rdropWhile (· = 0), b < 128 := fun b hb =>
    hascii b ((List.rdropWhile_prefix _ raw).subset hb)
  simp only [bytes, ht, hlit, htext, String.toList_ofList]
  rw [← hlen]
  exact congrArg Except.ok ((congrArg _ (ascii_map_ofNat hcodes)).trans (fit_trimmed raw))

theorem bytes_of_given_scalar (hr : s.field.isReference = false) {scalar : Scalar}
    (ht : s.field.type = .scalar scalar) (hx : s.field.Exact)
    (hlen : raw.length = s.field.byteSize)
    (hg : ∀ e ∈ s.decode raw, values.get? e.key = some e.reading.display) :
    s.bytes values = .ok raw := by
  have hsize : raw.length = scalar.bytes := by rw [hlen, Field.byteSize_of_scalar hr ht]
  have hv : s.field.interpret raw =
      .ok (.scalar scalar (BitVec.ofNat _ (Octets.read s.field.endian raw))) := by
    rw [Field.interpret, ht]
    exact Scalar.read_of_length hsize _
  have hlit := literal_of_given hg hx.labels hv
  have hradix : scalar.isInteger = false → s.field.radix ≠ .decimal := by
    intro hi
    cases scalar with
    | int => cases hi
    | float => exact hx.radix (Or.inl ht)
    | double => exact hx.radix (Or.inr ht)
  -- The literal gives the whole word, so the members have nothing left to change in it.
  have hword : s.word scalar values =
      .ok (UInt64.ofNat (BitVec.ofNat scalar.bits (Octets.read s.field.endian raw)).toNat) := by
    simp only [word, hlit, scalarPattern?_radixText hradix]
    exact foldlM_overlay_of_given hg hx hv rfl fun b hb => hb
  have hlt : Octets.read s.field.endian raw < 2 ^ scalar.bits := by
    have := Octets.read_lt s.field.endian raw
    rwa [hsize, Octets.two_pow_bits] at this
  simp only [bytes, ht, hword, Except.map]
  rw [toNat_pattern, BitVec.toNat_ofNat, Nat.mod_eq_of_lt hlt, ← hsize, Octets.write_read]

/-- Bytes are what is written for the texts that they are shown as. -/
theorem bytes_of_given (hr : s.field.isReference = false) (hx : s.field.Exact)
    (hk : s.field.Keeps raw) (hlen : raw.length = s.field.byteSize)
    (hg : ∀ e ∈ s.decode raw, values.get? e.key = some e.reading.display) :
    s.bytes values = .ok raw := by
  cases ht : s.field.type with
  | padding =>
    simp only [bytes, ht]
    rw [← hlen, ← List.eq_replicate_of_mem (hk.zeros ht)]
  | bytes => exact bytes_of_given_octets ht hx hlen hg
  | string => exact bytes_of_given_text hr ht hx (hk.ascii ht) hlen hg
  | scalar scalar => exact bytes_of_given_scalar hr ht hx hlen hg

end Slot

end Datagram
