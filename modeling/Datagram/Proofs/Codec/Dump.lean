import Datagram.Proofs.Codec.RoundTrip

/-! # The lines of a dump

A dump has a line for each entry, and the line begins with the key of the entry. Numbers, octets and
notes have no line feed in them, so that nothing but a text breaks its line: it does so at every byte
10 that it has. -/

namespace Datagram

open Datagram.Text

/-! ## Line feeds -/

/-- The number of line feeds in a text. -/
def feeds (s : String) : Nat := s.toList.count '\n'

theorem feeds_eq_zero {s : String} : feeds s = 0 ↔ '\n' ∉ s.toList := List.count_eq_zero

theorem feeds_append (s t : String) : feeds (s ++ t) = feeds s + feeds t := by
  simp [feeds]

theorem feeds_of_solid {s : List Char} (h : Solid s) : feeds (String.ofList s) = 0 := by
  rw [feeds_eq_zero, String.toList_ofList]
  intro hmem
  exact absurd (h '\n' hmem) (by decide)

/-- Each of the lines that are joined counts once, and once more for every line feed in it. -/
theorem count_intercalate {lines : List (List Char)} (h : lines ≠ []) :
    (List.intercalate ['\n'] lines).count '\n' + 1 =
      lines.length + (lines.map (List.count '\n')).sum := by
  induction lines with
  | nil => exact absurd rfl h
  | cons l lines ih =>
    cases lines with
    | nil => simp [Nat.add_comm]
    | cons k lines =>
      have hrest := ih (List.cons_ne_nil k lines)
      rw [List.intercalate_cons_cons, List.count_append, List.count_append,
        List.count_singleton_self]
      simp only [List.length_cons, List.map_cons, List.sum_cons] at hrest ⊢
      omega

/-- The lines that are joined are the lines of the whole just if none of them breaks. -/
theorem count_intercalate_eq_iff {lines : List (List Char)} (h : lines ≠ []) :
    (List.intercalate ['\n'] lines).count '\n' + 1 = lines.length ↔
      ∀ line ∈ lines, '\n' ∉ line := by
  rw [count_intercalate h, Nat.add_eq_left, List.sum_eq_zero_iff_forall_eq_nat, List.forall_mem_map]
  simp only [List.count_eq_zero]

/-! ## Texts of values -/

theorem solid_zeros (n : Nat) : Solid (List.replicate n '0') := by
  intro c hc
  rw [List.eq_of_mem_replicate hc]
  decide

theorem solid_zeroPadded {ds : List Char} (h : Solid ds) (n : Nat) : Solid (zeroPadded n ds) :=
  (solid_zeros _).append h

theorem solid_positional (k p scale : Nat) : Solid (Ieee.positional k p scale) := by
  have hpadded : Solid (zeroPadded (scale - p + 1) (decimal k)) :=
    solid_zeroPadded (solid_decimal k) _
  have hdot : Solid ['.'] := solid_of_all (by decide)
  unfold Ieee.positional
  split
  · exact (solid_decimal k).append (solid_zeros _)
  · refine Solid.append (Solid.append ?_ hdot) ?_
    · exact fun c hc => hpadded c (List.mem_of_mem_take hc)
    · exact fun c hc => hpadded c (List.mem_of_mem_drop hc)

theorem solid_formatText (f : Ieee.Format) (pattern : Nat) : Solid (f.text pattern) := by
  have hsign : ∀ negative, Solid (Ieee.sign negative) := by
    intro negative
    apply solid_of_all
    cases negative <;> decide
  unfold Ieee.Format.text
  split
  · exact solid_of_all (by decide)
  · exact (hsign _).append (solid_of_all (by decide))
  · refine (hsign _).append ?_
    unfold Ieee.Format.magnitudeText
    split
    · exact solid_of_all (by decide)
    · exact solid_positional _ _ _

theorem feeds_octets (raw : List UInt8) : feeds (String.ofList (Octets.dump raw)) = 0 := by
  rw [feeds_eq_zero, String.toList_ofList]
  intro hmem
  rcases mem_intercalate_space hmem with h | ⟨ds, hds, hc⟩
  · exact absurd h (by decide)
  · obtain ⟨b, _, rfl⟩ := List.mem_map.mp hds
    exact absurd ((Octets.pair_digits b).solid.2 '\n' hc) (by decide)

theorem Value.feeds_display (v : Value) : feeds v.display = v.text?.elim 0 feeds := by
  cases v with
  | text s => rfl
  | bytes b => exact feeds_octets b
  | scalar s p =>
    cases s with
    | int signed w => cases signed <;> exact feeds_of_solid (solid_decimalInt _)
    | float | double => exact feeds_of_solid (solid_formatText _ _)

theorem Field.feeds_radixText (f : Field) (v : Value) :
    feeds (f.radixText v) = v.text?.elim 0 feeds := by
  have hnumber : ∀ p, v.pattern? = some p → v.text? = none := by
    intro p hp
    cases v with
    | scalar s q => rfl
    | text | bytes => cases hp
  unfold radixText
  split
  · rename_i p _ hp
    rw [hnumber p hp, ← String.ofList_toList (s := hexText _ _)]
    exact feeds_of_solid (solid_hexText _ _)
  · rename_i p _ hp
    rw [hnumber p hp, ← String.ofList_toList (s := binaryText _ _)]
    exact feeds_of_solid (solid_binaryText _ _)
  · exact v.feeds_display

/-- There is no line feed in the labels. -/
def PlainLabels (labels : Option (Dict String)) : Prop :=
  ∀ d, labels = some d → ∀ label ∈ d.values, '\n' ∉ label.toList

theorem feeds_labelled {labels : Option (Dict String)} (h : PlainLabels labels)
    (text decimal : String) : feeds (labelled text decimal labels) = feeds text := by
  unfold labelled
  split
  · rename_i label hlabel
    obtain ⟨d, hd, hget⟩ := Option.bind_eq_some_iff.mp hlabel
    obtain ⟨key, hkey⟩ : ∃ key, d.get? key = some label := by
      cases htext : d.get? text with
      | none => exact ⟨decimal, by rwa [htext] at hget⟩
      | some first => exact ⟨text, by rw [htext] at hget ⊢; exact hget⟩
    have hmem : label ∈ d.values := List.mem_map_of_mem (Dict.get?_eq_some_iff.mp hkey)
    have hplain : feeds label = 0 := feeds_eq_zero.mpr (h d hd label hmem)
    have hparentheses : feeds " (" = 0 ∧ feeds ")" = 0 := by decide
    simp only [feeds_append, hplain, hparentheses]
    omega
  · rfl

/-! ## Readings -/

theorem charOfNat_eq_newline_iff (b : UInt8) : Char.ofNat b.toNat = '\n' ↔ b = 10 := by
  rw [← Char.toNat_inj, toNat_charOfNat, ← UInt8.toNat_inj]
  rfl

theorem count_map_ofNat (codes : List UInt8) :
    (codes.map fun b => Char.ofNat b.toNat).count '\n' = codes.count 10 := by
  induction codes with
  | nil => rfl
  | cons b codes ih =>
    rw [List.map_cons, List.count_cons, List.count_cons, ih]
    congr 1
    by_cases h : b = 10
    · rw [h]
      rfl
    · simp [h, charOfNat_eq_newline_iff]

/-- The zeros behind a text are no line feeds. -/
theorem count_trimmed (raw : List UInt8) : (raw.rdropWhile (· = 0)).count 10 = raw.count 10 := by
  have hsplit := List.rdropWhile_append_rtakeWhile (p := fun b : UInt8 => decide (b = 0)) (l := raw)
  have hzeros : (raw.rtakeWhile (· = 0)).count 10 = 0 := by
    rw [List.count_eq_zero]
    intro hmem
    exact absurd (List.mem_rtakeWhile_imp hmem) (by decide)
  conv_rhs => rw [← hsplit, List.count_append, hzeros, Nat.add_zero]

/-- The line feeds among the bytes that are read as a text. -/
def Reading.feeds (r : Reading) : Nat :=
  match r.value.bind Value.text? with
  | some _ => r.raw.count 10
  | none => 0

namespace Field

variable {f : Field} {raw : List UInt8}

theorem text_of_interpret {v : Value} {t : String} (h : f.interpret raw = .ok v)
    (ht : v.text? = some t) :
    f.type = .string ∧ (∀ b ∈ raw, b < 128) ∧ Datagram.feeds t = raw.count 10 := by
  unfold interpret at h
  split at h
  · rename_i hstring
    split at h
    · rename_i hascii
      cases h
      cases ht
      refine ⟨hstring, by simpa using hascii, ?_⟩
      rw [Datagram.feeds, String.toList_ofList, count_map_ofNat]
      exact count_trimmed raw
    · cases h
  · cases h
    cases ht
  · cases h
    cases ht
  · simp only [Scalar.read] at h
    split at h
    · cases h
    · split at h
      · cases h
      · cases h
        cases ht

/-- Why bytes are refused is said on one line. -/
theorem feeds_refusal {reason : String} (h : f.interpret raw = .error reason) :
    Datagram.feeds reason = 0 := by
  have hsaid : Datagram.feeds "non-ASCII string" = 0 ∧ Datagram.feeds " bytes as " = 0 ∧
      Datagram.feeds ": " = 0 ∧ Datagram.feeds "failed to fill whole buffer" = 0 ∧
      Datagram.feeds "trailing bytes" = 0 := by decide +kernel
  have hcount : Datagram.feeds (toString raw.length) = 0 := feeds_of_solid (solid_decimal _)
  have hname : ∀ s : Scalar, Datagram.feeds s.name = 0 := by
    intro s
    cases s with
    | int signed w => cases signed <;> cases w <;> decide
    | float => decide
    | double => decide
  unfold interpret at h
  split at h
  · split at h
    · cases h
    · cases h
      exact hsaid.1
  · cases h
  · cases h
  · simp only [Scalar.read] at h
    split at h
    · cases h
      simp only [feeds_append, hcount, hname, hsaid]
    · split at h
      · cases h
        simp only [feeds_append, hcount, hname, hsaid]
      · cases h

theorem feeds_decode (hl : PlainLabels f.labels) (raw : List UInt8) :
    Datagram.feeds (f.decode raw).display = (f.decode raw).feeds := by
  unfold decode
  split
  · rename_i v hv
    rw [feeds_labelled hl, feeds_radixText]
    cases ht : v.text? with
    | none => simp [Reading.feeds, ht]
    | some t => simp [Reading.feeds, ht, (text_of_interpret hv ht).2.2]
  · exact feeds_octets raw

theorem feeds_note (f : Field) (raw : List UInt8) :
    Datagram.feeds (f.decode raw).status.note = 0 := by
  have hraw : Datagram.feeds "  [raw: " = 0 ∧ Datagram.feeds "]" = 0 := by decide
  unfold decode
  split
  · rfl
  · rename_i reason hreason
    simp only [Status.note, feeds_append, feeds_refusal hreason, hraw]

/-- A reading breaks its line just if the field is a text, in ASCII and with a line feed. -/
theorem feeds_decode_eq_zero_iff (f : Field) (raw : List UInt8) : (f.decode raw).feeds = 0 ↔
    (f.type = .string → (∀ b ∈ raw, b < 128) → 10 ∉ raw) := by
  rw [← List.count_eq_zero]
  constructor
  · intro h ht hascii
    have hread : ∃ t, f.interpret raw = .ok (.text t) := by
      rw [interpret, ht]
      exact ⟨_, if_pos (by simpa using hascii)⟩
    obtain ⟨t, hread⟩ := hread
    rwa [decode, hread] at h
  · intro h
    unfold decode
    split
    · rename_i v hv
      cases ht : v.text? with
      | none => simp [Reading.feeds, ht]
      | some t =>
        obtain ⟨hstring, hascii, _⟩ := text_of_interpret hv ht
        simpa [Reading.feeds, ht] using h hstring hascii
    · rfl

end Field

/-! ## Entries -/

/-- A field with no line feed in a name or a label of its own or of its bit members. -/
structure Field.OneLine (f : Field) : Prop where
  name : '\n' ∉ f.name.toList
  labels : PlainLabels f.labels
  memberNames : ∀ b ∈ f.members, '\n' ∉ b.name.toList
  memberLabels : ∀ b ∈ f.members, PlainLabels b.labels

theorem Field.oneLine_of_bare {f : Field}
    (h : '\n' ∉ f.name.toList ∧ f.labels = none ∧ f.members = []) : f.OneLine where
  name := h.1
  labels := by
    intro d hd
    rw [h.2.1] at hd
    cases hd
  memberNames := by simp [h.2.2]
  memberLabels := by simp [h.2.2]

/-- An entry with no line feed in its line but those of a text. -/
structure Entry.Plain (e : Entry) : Prop where
  key : feeds e.key = 0
  display : feeds e.reading.display = e.reading.feeds
  note : feeds e.reading.status.note = 0

theorem Entry.feeds_line (e : Entry) (width : Nat) : feeds (e.line width) =
    feeds e.key + feeds e.reading.display + feeds e.reading.status.note := by
  have hgap :
      feeds (String.ofList (List.replicate (width - e.key.length) ' ' ++ [' ', ' '])) = 0 := by
    rw [feeds_eq_zero, String.toList_ofList]
    intro hmem
    rcases List.mem_append.mp hmem with h | h
    · exact absurd (List.eq_of_mem_replicate h) (by decide)
    · exact absurd h (by decide)
  simp only [Entry.line, feeds_append, hgap]
  omega

theorem Entry.Plain.feeds_line {e : Entry} (h : e.Plain) (width : Nat) :
    feeds (e.line width) = e.reading.feeds := by
  rw [Entry.feeds_line, h.key, h.display, h.note]
  omega

theorem Entry.key_prefix_line (e : Entry) (width : Nat) :
    e.key.toList <+: (e.line width).toList := by
  simp only [Entry.line, String.toList_append, List.append_assoc]
  exact List.prefix_append _ _

namespace Slot

variable {s : Slot} {e : Entry}

theorem plain_notAvailable (hk : feeds s.key = 0) : Entry.Plain ⟨s.key, .notAvailable⟩ := by
  have hshown : feeds Reading.notAvailable.display = 0 ∧ feeds Status.truncated.note = 0 := by
    decide
  exact ⟨hk, hshown.1, hshown.2⟩

theorem feeds_of_mem_memberEntries {raw : List UInt8} (h : e ∈ s.memberEntries raw) :
    e.reading.feeds = 0 := by
  obtain ⟨b, _, word, rfl⟩ := exists_member h
  rfl

theorem plain_of_mem_memberEntries (hk : feeds s.key = 0) (hf : s.field.OneLine) {raw : List UInt8}
    (h : e ∈ s.memberEntries raw) : e.Plain := by
  obtain ⟨b, hb, word, rfl⟩ := exists_member h
  have hdot : feeds "." = 0 := by decide
  have hname : feeds b.name = 0 := feeds_eq_zero.mpr (hf.memberNames b hb)
  have hkey : feeds (s.memberKey b) = 0 := by
    simp only [memberKey, feeds_append, hk, hdot, hname]
  have hdisplay : feeds (b.decode raw word).display = 0 := by
    rw [BitMember.decode, feeds_labelled (hf.memberLabels b hb), Value.feeds_display]
    rfl
  exact ⟨hkey, hdisplay, rfl⟩

theorem plain_of_mem_decode (hk : feeds s.key = 0) (hf : s.field.OneLine) {raw : List UInt8}
    (h : e ∈ s.decode raw) : e.Plain := by
  rw [decode_eq] at h
  rcases List.mem_cons.mp h with rfl | h
  · exact ⟨hk, s.field.feeds_decode hf.labels raw, s.field.feeds_note raw⟩
  · exact plain_of_mem_memberEntries hk hf h

theorem plain_of_mem_entries (hk : feeds s.key = 0) (hf : s.field.OneLine)
    {raw : Option (List UInt8)} (h : e ∈ s.entries raw) : e.Plain := by
  cases raw with
  | none =>
    rw [List.mem_singleton.mp h]
    exact plain_notAvailable hk
  | some raw => exact plain_of_mem_decode hk hf h

/-- What is read whole breaks its line if it is a text; what is not available has no text. -/
theorem feeds_entries_iff (s : Slot) (raw : Option (List UInt8)) :
    (∀ e ∈ s.entries raw, e.reading.feeds = 0) ↔ ∀ bytes, raw = some bytes →
      s.field.type = .string → (∀ b ∈ bytes, b < 128) → 10 ∉ bytes := by
  cases raw with
  | none =>
    refine iff_of_true (List.forall_mem_singleton.mpr rfl) ?_
    rintro _ ⟨⟩
  | some raw =>
    simp only [entries, decode_eq, Option.some.injEq, forall_eq']
    rw [List.forall_mem_cons, Field.feeds_decode_eq_zero_iff, and_iff_left_iff_imp]
    exact fun _ _ => feeds_of_mem_memberEntries

end Slot

theorem plain_of_mem_decodeFrom {slots : List Slot}
    (hs : ∀ s ∈ slots, feeds s.key = 0 ∧ s.field.OneLine) {bytes : List UInt8} {offset : Nat}
    {e : Entry} (h : e ∈ decodeFrom bytes offset slots) : e.Plain := by
  obtain ⟨p, hp, he⟩ := List.mem_flatMap.mp h
  obtain ⟨hk, hf⟩ := hs p.1 ((map_fst_slices bytes offset slots).subset (List.mem_map_of_mem hp))
  exact Slot.plain_of_mem_entries hk hf he

/-! ## Dumps -/

/-- A text of as many lines as there are entries, each of which begins with the key of its entry. -/
def Lined (entries : List Entry) (text : String) : Prop :=
  ∃ lines, text.toList = List.intercalate ['\n'] lines ∧
    (∀ line ∈ lines, '\n' ∉ line) ∧
    List.Forall₂ (fun e line => e.key.toList <+: line) entries lines

theorem toList_dump (entries : List Entry) : ∃ width, (dump entries).toList =
    List.intercalate ['\n'] (entries.map fun e => (e.line width).toList) := by
  rw [dump, String.toList_intercalate, List.map_map]
  exact ⟨_, rfl⟩

theorem Lined.feeds_eq {entries : List Entry} {text : String} (h : Lined entries text)
    (hne : entries ≠ []) : feeds text + 1 = entries.length := by
  obtain ⟨lines, htext, hlines, hkeys⟩ := h
  have hlength : entries.length = lines.length := hkeys.length_eq
  have hlines_ne : lines ≠ [] := by
    rwa [← List.length_pos_iff, ← hlength, List.length_pos_iff]
  rw [feeds, htext, hlength]
  exact (count_intercalate_eq_iff hlines_ne).mpr hlines

theorem keys_prefix_lines (entries : List Entry) (width : Nat) :
    List.Forall₂ (fun e line => e.key.toList <+: line) entries
      (entries.map fun e => (e.line width).toList) := by
  rw [List.forall₂_map_right_iff, List.forall₂_same]
  exact fun e _ => e.key_prefix_line width

/-- A dump of plain entries has a line for each of them just if none of them breaks its line. -/
theorem lined_dump_iff {entries : List Entry} (h : ∀ e ∈ entries, e.Plain) :
    Lined entries (dump entries) ↔ ∀ e ∈ entries, e.reading.feeds = 0 := by
  obtain ⟨width, hdump⟩ := toList_dump entries
  have hunbroken : (∀ line ∈ entries.map fun e => (e.line width).toList, '\n' ∉ line) ↔
      ∀ e ∈ entries, e.reading.feeds = 0 := by
    rw [List.forall_mem_map]
    apply forall₂_congr
    intro e he
    rw [← feeds_eq_zero, (h e he).feeds_line]
  constructor
  · intro hlined
    rw [← hunbroken]
    -- The dump is cut at its line feeds, into as many pieces as it has entries.
    by_cases hempty : entries = []
    · simp [hempty]
    · have hcount := hlined.feeds_eq hempty
      rw [feeds, hdump, ← List.length_map (fun e => (e.line width).toList)] at hcount
      exact (count_intercalate_eq_iff (by simpa using hempty)).mp hcount
  · intro hnone
    exact ⟨_, hdump, hunbroken.mpr hnone, keys_prefix_lines entries width⟩

namespace Layout

variable {l : Layout} {bytes : List UInt8}

theorem oneLine_of_mem_slots (hl : ∀ f ∈ l.header ++ l.payload, f.OneLine) {s : Slot}
    (hs : s ∈ l.slots) : feeds s.key = 0 ∧ s.field.OneLine := by
  have hkey : ∀ (p : Part) (f : Field), f.OneLine → feeds (p.key f.name) = 0 := by
    intro p f hf
    have hpart : feeds p.name = 0 ∧ feeds "." = 0 := by cases p <;> decide
    simp only [Part.key, feeds_append, hpart, feeds_eq_zero.mpr hf.name]
  simp only [slots, slotsOf, List.mem_append, List.mem_map, List.mem_filter] at hs
  rcases hs with ⟨f, ⟨hf, _⟩, rfl⟩ | ⟨f, ⟨hf, _⟩, rfl⟩
  · have hline := hl f (List.mem_append_left _ hf)
    exact ⟨hkey _ f hline, hline⟩
  · have hline := hl f (List.mem_append_right _ hf)
    exact ⟨hkey _ f hline, hline⟩

theorem feeds_decode_iff (l : Layout) (bytes : List UInt8) :
    (∀ e ∈ l.decode bytes, e.reading.feeds = 0) ↔
      ∀ s raw, (s, some raw) ∈ slices bytes 0 l.slots →
        s.field.type = .string → (∀ b ∈ raw, b < 128) → 10 ∉ raw := by
  rw [decode, decodeFrom, List.forall_mem_flatMap]
  constructor
  · intro h s raw hmem
    exact (s.feeds_entries_iff (some raw)).mp (h _ hmem) raw rfl
  · rintro h ⟨s, raw⟩ hmem
    refine (s.feeds_entries_iff raw).mpr ?_
    rintro bytes rfl
    exact h s bytes hmem

/-- The lines of a dump are those of the entries, and of the line feeds in a text. There is one for
each entry just if no slot that is read with all of its bytes is a text, in ASCII and with a line feed. -/
theorem dump_decode (hl : ∀ f ∈ l.header ++ l.payload, f.OneLine) (bytes : List UInt8) :
    ∃ lines, (dump (l.decode bytes)).toList = List.intercalate ['\n'] lines ∧
      List.Forall₂ (fun e line => e.key.toList <+: line) (l.decode bytes) lines ∧
      lines.map (List.count '\n') = (l.decode bytes).map (·.reading.feeds) ∧
      (Lined (l.decode bytes) (dump (l.decode bytes)) ↔
        ∀ s raw, (s, some raw) ∈ slices bytes 0 l.slots →
          s.field.type = .string → (∀ b ∈ raw, b < 128) → 10 ∉ raw) := by
  have hplain : ∀ e ∈ l.decode bytes, e.Plain :=
    fun e he => plain_of_mem_decodeFrom (fun s hs => oneLine_of_mem_slots hl hs) he
  obtain ⟨width, hdump⟩ := toList_dump (l.decode bytes)
  refine ⟨_, hdump, keys_prefix_lines _ width, ?_, ?_⟩
  · rw [List.map_map]
    exact List.map_congr_left fun e he => (hplain e he).feeds_line width
  · rw [lined_dump_iff hplain, feeds_decode_iff]

/-- The byte 10 is shown in digits in octets and in a number. A carriage return breaks no line. -/
theorem dump_decode_digits :
    let l : Layout :=
      ⟨[Field.new "n" .byte], [(Field.new "s" .string).withSize 2, Field.new "b" .bytes]⟩
    let bytes : List UInt8 := [10, 0x41, 13, 10, 10, 10, 10]
    (∀ f ∈ l.header ++ l.payload, f.OneLine) ∧
      dump (l.decode bytes) = "header.n   10\npayload.s  A\x0d\npayload.b  0A 0A 0A 0A" ∧
      Lined (l.decode bytes) (dump (l.decode bytes)) := by
  intro l bytes
  have hl : ∀ f ∈ l.header ++ l.payload, f.OneLine := by
    have hbare : ∀ f ∈ l.header ++ l.payload,
        '\n' ∉ f.name.toList ∧ f.labels = none ∧ f.members = [] := by decide
    exact fun f hf => Field.oneLine_of_bare (hbare f hf)
  obtain ⟨lines, hdump, hkeys, hcounts, _⟩ := dump_decode hl bytes
  have hnone : (l.decode bytes).map (·.reading.feeds) = [0, 0, 0] := by decide +kernel
  rw [hnone] at hcounts
  refine ⟨hl, by decide +kernel, lines, hdump, fun line hline => ?_, hkeys⟩
  have hcount : line.count '\n' ∈ [0, 0, 0] := hcounts ▸ List.mem_map_of_mem hline
  rw [← List.count_eq_zero]
  simpa using hcount

/-- A text with a line feed in it shows an entry that there is not. -/
theorem forged_line :
    let l : Layout := ⟨[], [Field.new "s" .string, Field.new "b" .byte]⟩
    let bytes : List UInt8 := "a\npayload.b  99".toUTF8.toList ++ [0, 0]
    (∀ f ∈ l.header ++ l.payload, f.OneLine) ∧
      (l.decode bytes).map Entry.key = ["payload.s", "payload.b"] ∧
      dump (l.decode bytes) = "payload.s  a\npayload.b  99\npayload.b  0" ∧
      ¬ Lined (l.decode bytes) (dump (l.decode bytes)) := by
  intro l bytes
  have hl : ∀ f ∈ l.header ++ l.payload, f.OneLine := by
    have hbare : ∀ f ∈ l.header ++ l.payload,
        '\n' ∉ f.name.toList ∧ f.labels = none ∧ f.members = [] := by decide
    exact fun f hf => Field.oneLine_of_bare (hbare f hf)
  have hkeys : (l.decode bytes).map Entry.key = ["payload.s", "payload.b"] := by decide +kernel
  have hdump : dump (l.decode bytes) = "payload.s  a\npayload.b  99\npayload.b  0" := by
    decide +kernel
  refine ⟨hl, hkeys, hdump, fun hlined => ?_⟩
  have hlength : (l.decode bytes).length = 2 := by
    rw [← List.length_map Entry.key, hkeys]
    rfl
  have hcount := hlined.feeds_eq (List.ne_nil_of_length_pos (by omega))
  rw [hdump, hlength] at hcount
  exact absurd hcount (by decide)

end Layout

end Datagram
