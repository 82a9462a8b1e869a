import Datagram.Proofs.Codec.Overlay
import Datagram.Proofs.Idl.Import
import Datagram.Proofs.Idl.Provenance

/-! # Runs of bit fields

The bit fields of a run have one type and fit in it together, and they become bit members that lie
behind each other from bit 0 on. So the number in the storage unit is the sum of their values, each cut
to its width and moved behind those before it, and every value is read back from its own bits. -/

namespace Datagram.Idl

open Datagram.Text

/-! ## Runs -/

/-- The bits that a member takes of a storage unit. -/
def Member.width (m : Member) : Nat := m.bitWidth.getD 0

def totalWidth (run : List Member) : Nat := (run.map Member.width).sum

theorem totalWidth_cons (m : Member) (run : List Member) :
    totalWidth (m :: run) = m.width + totalWidth run := List.sum_cons

theorem totalWidth_concat (run : List Member) (m : Member) :
    totalWidth (run ++ [m]) = totalWidth run + m.width := by
  simp [totalWidth]

/-- Bit fields of one type that fit in it. -/
structure Shares (p : Primitive) (run : List Member) : Prop where
  integer : p.isInteger = true
  primitive : ∀ m ∈ run, m.primitive = p
  width_pos : ∀ m ∈ run, 0 < m.width
  fits : totalWidth run ≤ p.bits

theorem Member.width_of_bitWidth {m : Member} {w : Nat} (h : m.bitWidth = some w) : m.width = w := by
  rw [Member.width, h, Option.getD_some]

theorem Shares.concat {p : Primitive} {run : List Member} (h : Shares p run) {m : Member}
    (hp : m.primitive = p) (hpos : 0 < m.width) (hfit : totalWidth run + m.width ≤ p.bits) :
    Shares p (run ++ [m]) where
  integer := h.integer
  primitive := by
    intro k hk
    rcases List.mem_append.mp hk with hk | hk
    · exact h.primitive k hk
    · rw [List.mem_singleton.mp hk]
      exact hp
  width_pos := by
    intro k hk
    rcases List.mem_append.mp hk with hk | hk
    · exact h.width_pos k hk
    · rw [List.mem_singleton.mp hk]
      exact hpos
  fits := by
    rw [totalWidth_concat]
    exact hfit

/-- What holds of a run that is not yet closed. -/
structure Run.Open (r : Run) : Prop where
  shares : Shares r.first.primitive (r.first :: r.rest)
  used : r.used = totalWidth (r.first :: r.rest)

theorem open_first {m : Member} (hm : m.Sound) {w : Nat} (hw : m.bitWidth = some w) :
    Run.Open ⟨m, [], w⟩ := by
  obtain ⟨hinteger, hpos, hle⟩ := hm w hw
  have hwidth := Member.width_of_bitWidth hw
  have hnone : Shares m.primitive [] := ⟨hinteger, by simp, by simp, Nat.zero_le _⟩
  have hshares : Shares m.primitive [m] :=
    hnone.concat rfl (hwidth ▸ hpos) (by rw [hwidth]; exact (Nat.zero_add w).trans_le hle)
  exact ⟨hshares, by rw [totalWidth_cons, hwidth]; rfl⟩

theorem open_add {r : Run} (hr : r.Open) {m : Member} (hm : m.Sound) {w : Nat}
    (hw : m.bitWidth = some w) (ha : r.accepts m w = true) : (r.add m w).Open := by
  have hwidth := Member.width_of_bitWidth hw
  rw [Run.accepts, Bool.and_eq_true, decide_eq_true_eq, decide_eq_true_eq] at ha
  obtain ⟨hp, hfit⟩ := ha
  refine ⟨?_, ?_⟩
  · refine hr.shares.concat hp.symm (hwidth ▸ (hm w hw).2.1) ?_
    rw [← hr.used, hwidth, hp]
    exact hfit
  · show r.used + w = totalWidth ((r.first :: r.rest) ++ [m])
    rw [totalWidth_concat, ← hr.used, hwidth]

/-- What holds of the run that members find open, if there is one. -/
def FindsOpen (run : Option Run) : Prop := ∀ r, run = some r → r.Open

theorem findsOpen_none : FindsOpen none := by rintro _ ⟨⟩

theorem Run.Open.findsOpen {r : Run} (h : r.Open) : FindsOpen (some r) := by
  rintro _ ⟨⟩
  exact h

/-- What a member does to the run that it finds: it ends it, begins one, is taken by it, or closes it and
begins the next one. Each run is open when the members behind find it. -/
theorem packing_induction {P : Option Run → List Member → Prop}
    (nil : ∀ run, FindsOpen run → P run [])
    (single : ∀ run m ms, FindsOpen run → m.bitWidth = none → P none ms → P run (m :: ms))
    (first : ∀ m ms w, m.bitWidth = some w → P (some ⟨m, [], w⟩) ms → P none (m :: ms))
    (take : ∀ r m ms w, r.Open → m.bitWidth = some w → r.accepts m w = true →
      P (some (r.add m w)) ms → P (some r) (m :: ms))
    (close : ∀ r m ms w, r.Open → m.bitWidth = some w → ¬ r.accepts m w = true →
      P (some ⟨m, [], w⟩) ms → P (some r) (m :: ms))
    {run : Option Run} (hr : FindsOpen run) {ms : List Member} (hm : ∀ m ∈ ms, m.Sound) :
    P run ms := by
  induction ms generalizing run with
  | nil => exact nil run hr
  | cons m ms ih =>
    rw [List.forall_mem_cons] at hm
    have ih := fun {run} (hr : FindsOpen run) => ih hr hm.2
    cases hw : m.bitWidth with
    | none => exact single run m ms hr hw (ih findsOpen_none)
    | some w =>
      have hfirst := ih (open_first hm.1 hw).findsOpen
      cases run with
      | none => exact first m ms w hw hfirst
      | some r =>
        have hopen := hr r rfl
        by_cases ha : r.accepts m w = true
        · exact take r m ms w hopen hw ha (ih (open_add hopen hm.1 hw ha).findsOpen)
        · exact close r m ms w hopen hw ha hfirst

theorem shares_of_mem_close {run : Option Run} (hr : FindsOpen run) {first : Member}
    {rest : List Member} (h : .bits first rest ∈ Run.close run) :
    Shares first.primitive (first :: rest) := by
  cases run with
  | none => cases h
  | some r =>
    cases List.mem_singleton.mp h
    exact (hr r rfl).shares

/-- What closes is a run that was open. -/
theorem shares_of_mem_groupsAfter {run : Option Run} (hr : FindsOpen run) {ms : List Member}
    (hm : ∀ m ∈ ms, m.Sound) {first : Member} {rest : List Member} :
    .bits first rest ∈ groupsAfter run ms → Shares first.primitive (first :: rest) := by
  refine packing_induction (P := fun run ms => .bits first rest ∈ groupsAfter run ms →
    Shares first.primitive (first :: rest)) ?nil ?single ?first ?take ?close hr hm
  case nil =>
    intro run hr h
    exact shares_of_mem_close hr h
  case single =>
    intro run m ms hr hw ih h
    rw [groupsAfter_single hw] at h
    rcases List.mem_append.mp h with h | h
    · exact shares_of_mem_close hr h
    · rcases List.mem_cons.mp h with h | h
      · cases h
      · exact ih h
  case first =>
    intro m ms w hw ih h
    rw [groupsAfter_first hw] at h
    exact ih h
  case take =>
    intro r m ms w _ hw ha ih h
    rw [groupsAfter_next hw, if_pos ha] at h
    exact ih h
  case close =>
    intro r m ms w hopen hw ha ih h
    rw [groupsAfter_next hw, if_neg ha] at h
    rcases List.mem_cons.mp h with h | h
    · cases h
      exact hopen.shares
    · exact ih h

theorem shares_of_mem_groups {ms : List Member} (hm : ∀ m ∈ ms, m.Sound) {first : Member}
    {rest : List Member} (h : .bits first rest ∈ groups ms) :
    Shares first.primitive (first :: rest) :=
  shares_of_mem_groupsAfter findsOpen_none hm h

theorem Shares.scalar {p : Primitive} {run : List Member} (h : Shares p run) :
    ∃ signed w, p.scalar? = some (.int signed w) ∧ totalWidth run ≤ (Scalar.int signed w).bits := by
  have hinteger := h.integer
  have hfits := h.fits
  cases p with
  | int signed w => exact ⟨signed, w, rfl, hfits⟩
  | bool => exact ⟨false, .w8, rfl, hfits⟩
  | float => cases hinteger
  | double => cases hinteger
  | struct => cases hinteger

/-! ## Bit members behind each other -/

/-- The bit member that a bit field becomes at a bit number. -/
structure LiesAt (start : Nat) (m : Member) (b : BitMember) : Prop where
  name : b.name = m.name
  first : b.span.first = start
  size : b.span.size = m.width
  value : b.value = none
  labels : b.labels = none

/-- Bit fields that a word has room for behind some bits. -/
structure Placed (start : Nat) (run : List Member) : Prop where
  width_pos : ∀ m ∈ run, 0 < m.width
  fits : start + totalWidth run ≤ 64

theorem Shares.placed {p : Primitive} {run : List Member} (h : Shares p run) : Placed 0 run where
  width_pos := h.width_pos
  fits := by
    obtain ⟨signed, w, _, hfit⟩ := h.scalar
    have := Scalar.bits_le (.int signed w)
    omega

theorem Placed.tail {start : Nat} {m : Member} {ms : List Member} (h : Placed start (m :: ms)) :
    Placed (start + m.width) ms where
  width_pos k hk := h.width_pos k (List.mem_cons_of_mem _ hk)
  fits := by
    have := h.fits
    rw [totalWidth_cons] at this
    omega

theorem Placed.head {start : Nat} {m : Member} {ms : List Member} (h : Placed start (m :: ms)) :
    ∃ b, bitMembersFrom start (m :: ms) = b :: bitMembersFrom (start + m.width) ms ∧
      LiesAt start m b := by
  have hpos := h.width_pos m List.mem_cons_self
  have hfit : start + m.width ≤ 64 := Nat.le_trans (Nat.le_add_right _ _) h.tail.fits
  have hmax : max (m.bitWidth.getD 1) 1 = m.width := by
    rw [Member.width] at hpos ⊢
    cases hw : m.bitWidth with
    | none =>
      rw [hw] at hpos
      exact absurd hpos (Nat.lt_irrefl 0)
    | some w =>
      rw [hw] at hpos
      exact Nat.max_eq_left hpos
  let b : BitMember := { bitsFrom m.name start m.width with description := m.comment }
  have hspan : b.span = Span.between start (start + m.width - 1) :=
    (span_congr rfl rfl).trans (span_bitsFrom m.name hpos hfit)
  obtain ⟨hfirst, hlast⟩ : b.span.first = start ∧ b.span.last = start + m.width - 1 := by
    rw [hspan]
    exact between_of_le (by omega) (by omega)
  have hsize := b.span.first_add_size
  refine ⟨b, ?_, ?_, hfirst, by omega, ?_, ?_⟩
  · rw [bitMembersFrom]
    simp only [hmax]
    rfl
  · exact name_bitsFrom m.name start m.width
  · show (bitsFrom m.name start m.width).value = none
    rw [bitsFrom]
    split <;> rfl
  · show (bitsFrom m.name start m.width).labels = none
    rw [bitsFrom]
    split <;> rfl

theorem stacked_bitMembersFrom {start : Nat} {run : List Member} (h : Placed start run) :
    SpansTile start (start + totalWidth run) (bitMembersFrom start run) ∧
      (bitMembersFrom start run).map BitMember.name = run.map Member.name ∧
      (bitMembersFrom start run).map (·.span.size) = run.map Member.width := by
  induction run generalizing start with
  | nil => exact ⟨rfl, rfl, rfl⟩
  | cons m ms ih =>
    obtain ⟨b, hcons, hb⟩ := h.head
    obtain ⟨htile, hnames, hwidths⟩ := ih h.tail
    have hend : b.span.last + 1 = start + m.width := by
      rw [← b.span.first_add_size, hb.first, hb.size]
    rw [hcons, List.map_cons, List.map_cons, List.map_cons, List.map_cons, hnames, hwidths, hb.name,
      hb.size]
    refine ⟨⟨hb.first, ?_⟩, rfl, rfl⟩
    rw [hend, totalWidth_cons, ← Nat.add_assoc]
    exact htile

theorem SpansTile.bounds {start stop : Nat} {bs : List BitMember} (h : SpansTile start stop bs) :
    start ≤ stop ∧ (∀ b ∈ bs, start ≤ b.span.first ∧ b.span.last < stop) ∧
      bs.Pairwise fun a b => a.span.last < b.span.first := by
  induction bs generalizing start with
  | nil => exact ⟨Nat.le_of_eq h, by simp, List.Pairwise.nil⟩
  | cons b bs ih =>
    obtain ⟨hfirst, hrest⟩ := h
    obtain ⟨hle, hall, hdisjoint⟩ := ih hrest
    have hspan := b.span.first_le_last
    refine ⟨by omega, ?_, List.pairwise_cons.mpr ⟨fun c hc => (hall c hc).1, hdisjoint⟩⟩
    intro c hc
    rcases List.mem_cons.mp hc with rfl | hc
    · omega
    · have := hall c hc
      omega

/-- A field whose bit members are those of a run, in its order and behind each other from bit 0 on. -/
structure Stacked (run : List Member) (f : Datagram.Field) : Prop where
  names : f.members.map BitMember.name = run.map Member.name
  widths : f.members.map (·.span.size) = run.map Member.width
  consecutive : SpansTile 0 (totalWidth run) f.members
  disjoint : f.members.Pairwise fun a b => a.span.last < b.span.first
  inside : ∀ b ∈ f.members, b.span.last < 8 * f.byteSize

section Storage

variable {run : List Member}

theorem stacked_storageField (h : Placed 0 run) (e : Endian) (pre : String) {signed : Bool}
    {w : Width} (hfit : totalWidth run ≤ (Scalar.int signed w).bits) :
    Stacked run (storageField e pre (.int signed w) run) := by
  have hsize : 8 * (storageField e pre (.int signed w) run).byteSize = (Scalar.int signed w).bits := rfl
  obtain ⟨htile, hnames, hwidths⟩ := stacked_bitMembersFrom h
  rw [Nat.zero_add] at htile
  obtain ⟨_, hall, hdisjoint⟩ := htile.bounds
  refine ⟨hnames, hwidths, htile, hdisjoint, fun b hb => ?_⟩
  have := (hall b hb).2
  omega

/-! ## Values in a storage unit -/

/-- The sum of values by name, each cut to the width of its bit field and moved behind those of the
bit fields before it. -/
def packed (value : String → Nat) (start : Nat) : List Member → Nat
  | [] => 0
  | m :: ms => value m.name % 2 ^ m.width * 2 ^ start + packed value (start + m.width) ms

variable {value : String → Nat}

theorem dvd_packed (start : Nat) (run : List Member) : 2 ^ start ∣ packed value start run := by
  induction run generalizing start with
  | nil => exact Nat.dvd_zero _
  | cons m ms ih =>
    have hpow : 2 ^ start ∣ 2 ^ (start + m.width) := Nat.pow_dvd_pow 2 (Nat.le_add_right _ _)
    exact Nat.dvd_add (Nat.dvd_mul_left _ _) (hpow.trans (ih _))

theorem add_cut_lt {low start : Nat} (h : low < 2 ^ start) (n width : Nat) :
    low + n % 2 ^ width * 2 ^ start < 2 ^ (start + width) := by
  have hcut : n % 2 ^ width + 1 ≤ 2 ^ width := Nat.mod_lt n (Nat.two_pow_pos width)
  calc low + n % 2 ^ width * 2 ^ start < (n % 2 ^ width + 1) * 2 ^ start := by
        rw [Nat.add_mul, Nat.one_mul]
        omega
    _ ≤ 2 ^ width * 2 ^ start := Nat.mul_le_mul_right _ hcut
    _ = 2 ^ (start + width) := by rw [← Nat.pow_add, Nat.add_comm]

theorem add_packed_lt {low start : Nat} (h : low < 2 ^ start) (run : List Member) :
    low + packed value start run < 2 ^ (start + totalWidth run) := by
  induction run generalizing low start with
  | nil => exact h
  | cons m ms ih =>
    have hrest := ih (add_cut_lt h (value m.name) m.width)
    rw [totalWidth_cons, ← Nat.add_assoc start, packed, ← Nat.add_assoc low]
    exact hrest

/-- The value behind some low bits is cut out of the sum again. -/
theorem cut_packed {low start : Nat} (h : low < 2 ^ start) (m : Member) (ms : List Member) :
    (low + packed value start (m :: ms)) / 2 ^ start % 2 ^ m.width = value m.name % 2 ^ m.width := by
  obtain ⟨q, hq⟩ : 2 ^ (start + m.width) ∣ packed value (start + m.width) ms := dvd_packed _ ms
  have hsum : low + packed value start (m :: ms) =
      low + 2 ^ start * (value m.name % 2 ^ m.width + 2 ^ m.width * q) := by
    rw [packed, hq, Nat.pow_add]
    ring
  rw [hsum, Nat.add_mul_div_left _ _ (Nat.two_pow_pos start), Nat.div_eq_of_lt h, Nat.zero_add,
    Nat.add_mul_mod_self_left, Nat.mod_mod]

/-! ## Storage units written and read -/

/-- The number that is given under a key in decimal. Where none is given, the number is zero. -/
def Gives (values : Values) (key : String) (n : Nat) : Prop :=
  match values.get? key with
  | some literal => integer? (trim literal.toList) = some (n : Int)
  | none => n = 0

variable {s : Slot} {values : Values}

theorem gives_of_literal {key literal : String} (h : values.get? key = some literal) {n : Nat}
    (hn : integer? (trim literal.toList) = some (n : Int)) : Gives values key n := by
  rw [Gives, h]
  exact hn

theorem overlay_of_gives {m : Member} {b : BitMember} {start : Nat} (hb : LiesAt start m b)
    (hn : value m.name < 2 ^ 64) (hg : Gives values (s.key ++ "." ++ m.name) (value m.name))
    {word : UInt64} (hword : word.toNat < 2 ^ start) :
    ∃ w, s.overlay values word b = .ok w ∧
      w.toNat = word.toNat + value m.name % 2 ^ m.width * 2 ^ start := by
  have hkey : s.memberKey b = s.key ++ "." ++ m.name := by rw [Slot.memberKey, hb.name]
  rw [Gives] at hg
  rw [Slot.overlay, Slot.memberLiteral?, hkey, hb.value]
  cases hv : values.get? (s.key ++ "." ++ m.name) with
  | none =>
    rw [hv] at hg
    refine ⟨word, rfl, ?_⟩
    rw [hg, Nat.zero_mod, Nat.zero_mul, Nat.add_zero]
  | some literal =>
    rw [hv] at hg
    refine ⟨b.span.insert word (UInt64.ofNat (value m.name)), ?_, ?_⟩
    · simp [Literal.memberValue?_of_integer? hg hn]
    · rw [Span.toNat_insert _ _ (hb.first ▸ hword), hb.first, hb.size, UInt64.toNat_ofNat',
        Nat.mod_eq_of_lt hn]

/-- The bit fields that are left are added behind the bits that are written already. -/
theorem foldlM_overlay_packed {start : Nat} (h : Placed start run)
    (hg : ∀ m ∈ run, value m.name < 2 ^ 64 ∧
      Gives values (s.key ++ "." ++ m.name) (value m.name)) {word : UInt64}
    (hword : word.toNat < 2 ^ start) :
    ∃ w, (bitMembersFrom start run).foldlM (s.overlay values) word = .ok w ∧
      w.toNat = word.toNat + packed value start run := by
  -- The word has no bits from `start` on, so the next value is added without a carry.
  induction run generalizing start word with
  | nil => exact ⟨word, rfl, rfl⟩
  | cons m ms ih =>
    obtain ⟨b, hcons, hb⟩ := h.head
    obtain ⟨hn, hgm⟩ := hg m List.mem_cons_self
    obtain ⟨w, hw, hsum⟩ := overlay_of_gives hb hn hgm hword
    have hlow : w.toNat < 2 ^ (start + m.width) := hsum ▸ add_cut_lt hword _ _
    obtain ⟨w', hw', hsum'⟩ := ih h.tail (fun k hk => hg k (List.mem_cons_of_mem _ hk)) hlow
    refine ⟨w', ?_, ?_⟩
    · rw [hcons, List.foldlM_cons, hw]
      exact hw'
    · rw [hsum', hsum, packed, Nat.add_assoc]

/-- What is read at a bit member that holds a number. -/
def shownNumber (raw : List UInt8) (n : Nat) : Reading :=
  { raw
    display := String.ofList (decimal n)
    value := some (.ofWord (UInt64.ofNat n))
    status := .ok }

theorem shown_of_liesAt {m : Member} {b : BitMember} {start : Nat} (hb : LiesAt start m b)
    (raw : List UInt8) (n : Nat) :
    b.shown raw (b.span.cut n) = shownNumber raw (n / 2 ^ start % 2 ^ m.width) := by
  rw [BitMember.shown, hb.labels, Span.cut, hb.first, hb.size]
  rfl

/-- Every bit field is read from behind the bits in front of it. -/
theorem map_shown_packed {start : Nat} (h : Placed start run) {low : Nat} (hlow : low < 2 ^ start)
    {n : Nat} (hn : n = low + packed value start run) (raw : List UInt8) :
    (bitMembersFrom start run).map
        (fun b => (⟨s.memberKey b, b.shown raw (b.span.cut n)⟩ : Entry)) =
      run.map fun m => ⟨s.key ++ "." ++ m.name, shownNumber raw (value m.name % 2 ^ m.width)⟩ := by
  -- `low` is what the bit fields in front have in the bits below `start`.
  induction run generalizing start low with
  | nil => rfl
  | cons m ms ih =>
    obtain ⟨b, hcons, hb⟩ := h.head
    have hcut : n / 2 ^ start % 2 ^ m.width = value m.name % 2 ^ m.width := by
      rw [hn]
      exact cut_packed hlow m ms
    rw [packed, ← Nat.add_assoc] at hn
    have hrest := ih h.tail (add_cut_lt hlow _ _) hn
    rw [hcons, List.map_cons, List.map_cons, hrest, shown_of_liesAt hb, hcut, Slot.memberKey, hb.name]

/-- A storage unit without a value of its own is written as the sum of the values of its bit fields,
and each of them is read from it. -/
theorem storage_packs (e : Endian) (pre : String) {key : String} {signed : Bool} {w : Width}
    (h : Placed 0 run) (hfit : totalWidth run ≤ (Scalar.int signed w).bits)
    (hkey : values.get? key = none) (hg : ∀ m ∈ run, value m.name < 2 ^ 64 ∧
      Gives values (key ++ "." ++ m.name) (value m.name)) :
    ∃ bytes reading, Slot.encode ⟨key, storageField e pre (.int signed w) run⟩ values = .ok bytes ∧
      Octets.read e bytes = packed value 0 run ∧
      Slot.decode ⟨key, storageField e pre (.int signed w) run⟩ bytes =
        ⟨key, reading⟩ :: run.map fun m =>
          ⟨key ++ "." ++ m.name, shownNumber bytes (value m.name % 2 ^ m.width)⟩ := by
  let s : Slot := ⟨key, storageField e pre (.int signed w) run⟩
  have htype : s.field.type = .scalar (.int signed w) := rfl
  have hliteral : s.literal values = "0" := by
    rw [Slot.literal, hkey]
    rfl
  have hbase : Literal.scalarPattern? (.int signed w) .decimal "0".toList = some 0 := by
    rw [Literal.scalarPattern?_int]
    exact Literal.integerPattern?_of_inRange rfl (Literal.inRange_zero signed w)
  have hzero : (0 : UInt64).toNat < 2 ^ 0 := by decide
  obtain ⟨word, hword, hsum⟩ := foldlM_overlay_packed (s := s) h hg hzero
  rw [UInt64.toNat_zero, Nat.zero_add] at hsum
  have hlt : word.toNat < 2 ^ (Scalar.int signed w).bits := by
    have hpacked : 0 + packed value 0 run < 2 ^ (0 + totalWidth run) := add_packed_lt hzero run
    rw [Nat.zero_add, Nat.zero_add] at hpacked
    rw [hsum]
    exact Nat.lt_of_lt_of_le hpacked (Nat.pow_le_pow_right (by decide) hfit)
  have hwritten : s.word (.int signed w) values = .ok word := by
    rw [Slot.word_ok_iff, hliteral]
    exact ⟨0, hbase, hword⟩
  have hread : Octets.read e (Octets.write e w.bytes word.toNat) = packed value 0 run := by
    rw [Octets.read_write, Octets.two_pow_bits, ← hsum]
    exact Nat.mod_eq_of_lt hlt
  have hmembers := Slot.memberEntries_of_scalar htype (Octets.length_write e w.bytes word.toNat)
  refine ⟨_, s.field.decode (Octets.write e w.bytes word.toNat), ?_, hread, ?_⟩
  · exact (Slot.encode_ok_iff htype).mpr ⟨word, hwritten, rfl⟩
  · have hendian : s.field.endian = e := rfl
    rw [Slot.decode_eq, hmembers, hendian, hread]
    exact congrArg _ (map_shown_packed h hzero (Nat.zero_add _).symm _)

end Storage

/-! ## Runs of a source -/

/-- A run of bit fields in a source becomes one field. Its bit members have the widths of the bit fields
and lie behind each other from bit 0 to the end of the run, inside the field. Whatever numbers are
given for them, the field is written as the sum of these in its byte order, and the numbers are read
again, each cut to its width. -/
theorem run_packs {options : Options} {text : String} {d : Document}
    (hd : Document.parse options text = .ok d) {s : Struct} (hs : s ∈ d.structs) {first : Member}
    {rest : List Member} (hg : .bits first rest ∈ groups s.members) (structs : List Struct)
    (e : Endian) (pre : String) :
    ∃ field, flatten structs e pre (.bits first rest) = [field] ∧ field.endian = e ∧
      Stacked (first :: rest) field ∧
      ∀ (key : String) (values : Values) (value : String → Nat), values.get? key = none →
        (∀ m ∈ first :: rest, value m.name < 2 ^ 64 ∧
          Gives values (key ++ "." ++ m.name) (value m.name)) →
        ∃ bytes reading, Slot.encode ⟨key, field⟩ values = .ok bytes ∧
          Octets.read field.endian bytes = packed value 0 (first :: rest) ∧
          Slot.decode ⟨key, field⟩ bytes = ⟨key, reading⟩ :: (first :: rest).map fun m =>
            ⟨key ++ "." ++ m.name, shownNumber bytes (value m.name % 2 ^ m.width)⟩ := by
  have hshares := shares_of_mem_groups (sound_of_parse hd hs) hg
  obtain ⟨signed, w, hscalar, hfit⟩ := hshares.scalar
  refine ⟨storageField e pre (.int signed w) (first :: rest), ?_, rfl,
    stacked_storageField hshares.placed e pre hfit, ?_⟩
  · rw [flatten, hscalar]
  · intro key values value hkey hgiven
    exact storage_packs e pre hshares.placed hfit hkey hgiven

/-- A signed unit in little endian order. Of the first two values the high bits are cut off. -/
theorem run_packs_signed :
    let text := "//+MOST_BYTE=false\nstruct S\n\x7b short a : 3; short b : 12; short c : 1; \x7d;\n"
    let a : Member := ⟨"a", "short", .int true .w16, none, some 3, false, ""⟩
    let b : Member := ⟨"b", "short", .int true .w16, none, some 12, false, ""⟩
    let c : Member := ⟨"c", "short", .int true .w16, none, some 1, false, ""⟩
    let values : Values := ((Dict.empty.insert "k.a" "9").insert "k.b" " +5000").insert "k.c" "1"
    ∃ d field bytes reading, Document.parse {} text = .ok d ∧
      flatten d.structs d.directives.endian "" (.bits a [b, c]) = [field] ∧
      Stacked [a, b, c] field ∧ Slot.encode ⟨"k", field⟩ values = .ok bytes ∧
      Octets.read .little bytes = 1 + 904 * 2 ^ 3 + 1 * 2 ^ 15 ∧
      Slot.decode ⟨"k", field⟩ bytes = [⟨"k", reading⟩, ⟨"k.a", shownNumber bytes 1⟩,
        ⟨"k.b", shownNumber bytes 904⟩, ⟨"k.c", shownNumber bytes 1⟩] := by
  intro text a b c values
  let s : Struct := ⟨"S", .user, [a, b, c], ""⟩
  let d : Document := ⟨⟨1, false⟩, [s]⟩
  let value : String → Nat := fun name => if name = "a" then 9 else if name = "b" then 5000 else 1
  have hblank : text.toList.all isBlank = false := by decide +kernel
  have hdocument : documentOf {} text = d := by decide +kernel
  have hparse : Document.parse {} text = .ok d := hdocument ▸ parse_eq_documentOf {} hblank
  have hgroup : .bits a [b, c] ∈ groups s.members := by decide
  have hkeys : "k" ++ "." ++ a.name = "k.a" ∧ "k" ++ "." ++ b.name = "k.b" ∧
      "k" ++ "." ++ c.name = "k.c" := by decide +kernel
  have hcut : value a.name % 2 ^ a.width = 1 ∧ value b.name % 2 ^ b.width = 904 ∧
      value c.name % 2 ^ c.width = 1 := by decide
  have hsum : packed value 0 [a, b, c] = 1 + 904 * 2 ^ 3 + 1 * 2 ^ 15 := by decide
  have hgiven : ∀ m ∈ [a, b, c], value m.name < 2 ^ 64 ∧
      Gives values ("k" ++ "." ++ m.name) (value m.name) := by
    intro m hm
    simp only [List.mem_cons, List.not_mem_nil, or_false] at hm
    rcases hm with rfl | rfl | rfl
    · rw [hkeys.1]
      exact ⟨by decide, gives_of_literal (show _ = some "9" by decide +kernel) (by decide +kernel)⟩
    · rw [hkeys.2.1]
      exact ⟨by decide,
        gives_of_literal (show _ = some " +5000" by decide +kernel) (by decide +kernel)⟩
    · rw [hkeys.2.2]
      exact ⟨by decide, gives_of_literal (show _ = some "1" by decide +kernel) (by decide +kernel)⟩
  obtain ⟨field, hflat, hendian, hstacked, hvalues⟩ :=
    run_packs hparse (List.mem_singleton.mpr rfl) hgroup d.structs d.directives.endian ""
  obtain ⟨bytes, reading, hencode, hread, hdecode⟩ :=
    hvalues "k" values value (by decide +kernel) hgiven
  rw [hendian, hsum] at hread
  simp only [List.map_cons, List.map_nil, hkeys, hcut] at hdecode
  exact ⟨d, field, bytes, reading, hparse, hflat, hstacked, hencode, hread, hdecode⟩

end Datagram.Idl
