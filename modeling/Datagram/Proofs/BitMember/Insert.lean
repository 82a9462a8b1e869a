import Datagram.Proofs.BitMember
import Datagram.Proofs.Text.Grammar

/-! # Values in the bits of a word

The bit numbers of a member are those that its range text gives, in either order and cut off at the end
of the word, so every member has a span. What is put into a span is taken out of it again, the bits
outside of it stay, and spans without a common bit do not see each other. No word is shifted by its
whole length for this, and no bit is lost at its upper end. -/

namespace Datagram

open Datagram.Text

/-! ## Range texts -/

namespace Span

/-- A bit number with blanks around it. -/
def Number (s : List Char) (n : Nat) : Prop :=
  ∃ lead digits trail, s = lead ++ (digits ++ trail) ∧ (∀ c ∈ lead, isBlank c = true) ∧
    (∀ c ∈ trail, isBlank c = true) ∧ Natural 10 digits n ∧ n < UInt32.size

/-- The bit numbers of a range text: one that counts twice, or two with a colon between them. -/
inductive Written : List Char → Nat → Nat → Prop where
  | one {s n} : Number s n → Written s n n
  | two {s t m n} : Number s m → Number t n → Written (s ++ ':' :: t) m n

variable {s t : List Char} {m n : Nat}

theorem naturalBelow?_trim_iff : naturalBelow? 10 UInt32.size (trim s) = some n ↔ Number s n := by
  rw [naturalBelow?, Option.filter_eq_some_iff, natural?_eq_some_iff (by decide), decide_eq_true_eq]
  constructor
  · rintro ⟨hn, hlt⟩
    obtain ⟨lead, trail, hs, hlead, htrail⟩ := exists_trim s
    exact ⟨lead, trim s, trail, hs, hlead, htrail, hn, hlt⟩
  · rintro ⟨lead, digits, trail, rfl, hlead, htrail, hn, hlt⟩
    rw [trim_append_blank hlead htrail, trim_of_solid (hn.solid (by decide))]
    exact ⟨hn, hlt⟩

theorem Number.no_colon (h : Number s n) : ∀ c ∈ s, decide (c ≠ ':') = true := by
  obtain ⟨lead, digits, trail, rfl, hlead, htrail, hn, -⟩ := h
  have hblank : ¬ isBlank ':' = true := by decide
  have hmem : ':' ∉ lead ++ (digits ++ trail) := by
    rw [List.mem_append, List.mem_append]
    rintro (hc | hc | hc)
    · exact hblank (hlead _ hc)
    · exact hn.not_mem (by decide) rfl (by decide) hc
    · exact hblank (htrail _ hc)
  exact fun c hc => decide_eq_true (ne_of_mem_of_not_mem hc hmem)

/-- A range text is read exactly where it gives bit numbers. -/
theorem read?_eq_some_iff {span : Span} :
    read? s = some span ↔ ∃ m n, Written s m n ∧ span = between m n := by
  constructor
  · intro h
    have hcut := List.takeWhile_append_dropWhile (p := (· ≠ ':')) (l := s)
    unfold read? at h
    dsimp only at h
    split at h
    · obtain ⟨n, hn, rfl⟩ := Option.map_eq_some_iff.mp h
      exact ⟨n, n, .one (naturalBelow?_trim_iff.mp hn), rfl⟩
    · rename_i c after hdrop
      obtain rfl : c = ':' := by
        have hhead := List.head?_dropWhile_not (· ≠ ':') s
        rw [hdrop] at hhead
        simpa using hhead
      split at h
      · rename_i m n hm hn
        cases h
        rw [hdrop] at hcut
        rw [← hcut]
        exact ⟨m, n, .two (naturalBelow?_trim_iff.mp hm) (naturalBelow?_trim_iff.mp hn), rfl⟩
      · cases h
  · rintro ⟨m, n, hs, rfl⟩
    cases hs with
    | one hn =>
      have hdrop : s.dropWhile (· ≠ ':') = [] := by
        simpa using dropWhile_exact hn.no_colon (t := []) (by simp)
      rw [read?, hdrop]
      exact congrArg (Option.map _) (naturalBelow?_trim_iff.mpr hn)
    | @two before after _ _ hm hn =>
      have hcolon : ∀ c, (':' :: after).head? = some c → decide (c ≠ ':') = false := by simp
      rw [read?, dropWhile_exact hm.no_colon hcolon, takeWhile_exact hm.no_colon hcolon]
      simp only [naturalBelow?_trim_iff.mpr hm, naturalBelow?_trim_iff.mpr hn]

end Span

namespace BitMember

/-- The bit numbers of a member: those of its range if that gives any, else those of its single bit. -/
inductive Covers (b : BitMember) : Nat → Nat → Prop where
  | range {text m n} : b.range = some text → Span.Written text.toList m n → Covers b m n
  | bit : (∀ text m n, b.range = some text → ¬ Span.Written text.toList m n) →
      Covers b (b.bit.getD 0).toNat (b.bit.getD 0).toNat

theorem exists_covers (b : BitMember) : ∃ m n, b.Covers m n ∧ b.span = .between m n := by
  unfold span
  split
  · rename_i s hs
    obtain ⟨text, hrange, hread⟩ := Option.bind_eq_some_iff.mp hs
    obtain ⟨m, n, hwritten, rfl⟩ := Span.read?_eq_some_iff.mp hread
    exact ⟨m, n, .range hrange hwritten, rfl⟩
  · rename_i hnone
    refine ⟨_, _, .bit fun text m n hrange hwritten => ?_, rfl⟩
    rw [hrange, Option.bind_some, Span.read?_eq_some_iff.mpr ⟨m, n, hwritten, rfl⟩] at hnone
    cases hnone

end BitMember

/-! ## Values put in and taken out -/

namespace Span

/-- No bit lies in both spans. -/
def Apart (s t : Span) : Prop := s.last < t.first ∨ t.last < s.first

variable {s t : Span}

theorem extract_insert (s : Span) (w v : UInt64) :
    (s.extract (s.insert w v)).toNat = v.toNat % 2 ^ s.size := by
  have hadd := s.first_add_size
  have hlast := s.last_lt
  apply Nat.eq_of_testBit_eq
  intro i
  rw [← bit_eq_testBit, bit_extract, Nat.testBit_mod_two_pow]
  by_cases hi : i < s.size
  · have hin : s.first ≤ s.first + i ∧ s.first + i ≤ s.last := by omega
    rw [bit_insert s w v (by omega), if_pos hin, Nat.add_sub_cancel_left, bit_eq_testBit]
  · simp [hi]

theorem bit_insert_of_outside (s : Span) (w v : UInt64) {i : Nat} (h : i < s.first ∨ s.last < i) :
    bit (s.insert w v) i = bit w i := by
  by_cases hi : i < 64
  · rw [bit_insert s w v hi, if_neg (by omega)]
  · rw [bit, bit, BitVec.getLsbD_of_ge _ _ (by omega), BitVec.getLsbD_of_ge _ _ (by omega)]

theorem insert_insert (s : Span) (w u v : UInt64) : s.insert (s.insert w u) v = s.insert w v := by
  apply bit_ext
  intro i hi
  rw [bit_insert s _ v hi, bit_insert s w v hi, bit_insert s w u hi]
  split <;> rfl

theorem insert_comm (h : s.Apart t) (w u v : UInt64) :
    s.insert (t.insert w u) v = t.insert (s.insert w v) u := by
  apply bit_ext
  intro i hi
  rw [bit_insert s _ v hi, bit_insert t w u hi, bit_insert t _ u hi, bit_insert s w v hi]
  by_cases hs : s.first ≤ i ∧ i ≤ s.last
  · have ht : ¬ (t.first ≤ i ∧ i ≤ t.last) := by
      unfold Apart at h
      omega
    rw [if_pos hs, if_neg ht, if_pos hs]
  · rw [if_neg hs, if_neg hs]

theorem extract_insert_of_apart (h : s.Apart t) (w v : UInt64) :
    s.extract (t.insert w v) = s.extract w := by
  have hadd := s.first_add_size
  apply bit_ext
  intro i _
  rw [bit_extract, bit_extract]
  by_cases hi : i < s.size
  · have hout : s.first + i < t.first ∨ t.last < s.first + i := by
      unfold Apart at h
      omega
    rw [bit_insert_of_outside t w v hout]
  · rw [decide_eq_false hi, Bool.false_and, Bool.false_and]

theorem Apart.symm (h : s.Apart t) : t.Apart s := Or.symm h

end Span

/-! ## Shifts that lose nothing -/

namespace Span

/-- A word moved up, not by its whole length and without the loss of a bit. -/
def up? (w : UInt64) (k : Nat) : Option UInt64 :=
  if k < 64 ∧ w.toNat * 2 ^ k < 2 ^ 64 then some (w <<< UInt64.ofNat k) else none

/-- A word moved down, not by its whole length. -/
def down? (w : UInt64) (k : Nat) : Option UInt64 :=
  if k < 64 then some (w >>> UInt64.ofNat k) else none

/-- The largest value. That of the whole word has all bits and takes no shift. -/
def max? (s : Span) : Option UInt64 :=
  if 64 ≤ s.size then some (UInt64.ofNat (2 ^ 64 - 1)) else (up? 1 s.size).map (· - 1)

def mask? (s : Span) : Option UInt64 := do
  let max ← s.max?
  up? max s.first

def extract? (s : Span) (word : UInt64) : Option UInt64 := do
  let low ← down? word s.first
  let max ← s.max?
  return low &&& max

def insert? (s : Span) (word value : UInt64) : Option UInt64 := do
  let mask ← s.mask?
  let max ← s.max?
  let bits ← up? (value &&& max) s.first
  return (word &&& ~~~mask) ||| bits

variable (s : Span)

theorem toNat_shiftLeft_of_lt {w : UInt64} {k : Nat} (hk : k < 64) (h : w.toNat * 2 ^ k < 2 ^ 64) :
    (w <<< UInt64.ofNat k).toNat = w.toNat * 2 ^ k := by
  have hmod : k % 2 ^ 64 % 64 = k := by omega
  rw [UInt64.toNat_shiftLeft, UInt64.toNat_ofNat', hmod, Nat.shiftLeft_eq, Nat.mod_eq_of_lt h]

theorem max?_eq : s.max? = some s.max := by
  have hsize := s.size_le
  unfold max?
  split
  · rename_i h
    have heq : s.size = 64 := by omega
    rw [max, heq]
    rfl
  · rename_i h
    have hlt : (1 : UInt64).toNat * 2 ^ s.size < 2 ^ 64 := by
      rw [UInt64.toNat_one, Nat.one_mul]
      exact Nat.pow_lt_pow_right (by decide) (by omega)
    have hone : 1 ≤ (1 : UInt64) <<< UInt64.ofNat s.size := by
      rw [UInt64.le_iff_toNat_le, toNat_shiftLeft_of_lt (by omega) hlt, UInt64.toNat_one, Nat.one_mul]
      exact Nat.one_le_two_pow
    rw [up?, if_pos ⟨by omega, hlt⟩, Option.map_some, Option.some_inj]
    apply UInt64.toNat_inj.mp
    rw [UInt64.toNat_sub_of_le _ _ hone, toNat_shiftLeft_of_lt (by omega) hlt, toNat_max,
      UInt64.toNat_one, Nat.one_mul]

/-- A value that the span holds stays in the word when it is moved up to the span. -/
theorem lt_of_le_max {w : UInt64} (h : w.toNat ≤ s.max.toNat) : w.toNat * 2 ^ s.first < 2 ^ 64 := by
  have hadd := s.first_add_size
  have hlast := s.last_lt
  have hpos : 0 < 2 ^ s.size := Nat.two_pow_pos _
  rw [toNat_max] at h
  calc w.toNat * 2 ^ s.first < 2 ^ s.size * 2 ^ s.first :=
        Nat.mul_lt_mul_of_pos_right (by omega) (Nat.two_pow_pos _)
    _ = 2 ^ (s.size + s.first) := (Nat.pow_add ..).symm
    _ ≤ 2 ^ 64 := Nat.pow_le_pow_right (by decide) (by omega)

theorem up?_of_le_max {w : UInt64} (h : w.toNat ≤ s.max.toNat) :
    up? w s.first = some (w <<< UInt64.ofNat s.first) := by
  rw [up?, if_pos ⟨s.first_lt, s.lt_of_le_max h⟩]

theorem mask?_eq : s.mask? = some s.mask := by
  rw [mask?, max?_eq]
  exact s.up?_of_le_max (Nat.le_refl _)

theorem toNat_mask : s.mask.toNat = (2 ^ s.size - 1) * 2 ^ s.first := by
  rw [mask, toNat_shiftLeft_of_lt s.first_lt (s.lt_of_le_max (Nat.le_refl _)), toNat_max]

theorem extract?_eq (w : UInt64) : s.extract? w = some (s.extract w) := by
  rw [extract?, down?, if_pos s.first_lt, max?_eq]
  rfl

theorem insert?_eq (w v : UInt64) : s.insert? w v = some (s.insert w v) := by
  have hle : (v &&& s.max).toNat ≤ s.max.toNat := by
    rw [UInt64.toNat_and]
    exact Nat.and_le_right
  rw [insert?, mask?_eq, max?_eq]
  simp only [Option.bind_eq_bind, Option.bind_some, s.up?_of_le_max hle]
  rfl

end Span

namespace BitMember

/-- Whatever ranges and single bits members have: their spans lie in the word and begin and end at the bit
numbers that they give, a value is put in and taken out by its low bits and by nothing else, members
without a common bit do not depend on each other, and no shift loses a bit. -/
theorem insert_laws (b c : BitMember) (raw u v : UInt64) :
    (∃ m n, b.Covers m n ∧ b.span.first = min (min m n) 63 ∧ b.span.last = min (max m n) 63) ∧
    (b.span.first ≤ b.span.last ∧ b.span.last ≤ 63) ∧
    (b.span.extract (b.span.insert raw v)).toNat = v.toNat % 2 ^ b.span.size ∧
    (∀ i, i < b.span.first ∨ b.span.last < i →
      (b.span.insert raw v).toNat.testBit i = raw.toNat.testBit i) ∧
    b.span.insert raw (b.span.extract raw) = raw ∧
    b.span.insert (b.span.insert raw u) v = b.span.insert raw v ∧
    (b.span.Apart c.span →
      b.span.insert (c.span.insert raw u) v = c.span.insert (b.span.insert raw v) u ∧
      b.span.extract (c.span.insert raw u) = b.span.extract raw ∧
      c.span.extract (b.span.insert raw v) = c.span.extract raw) ∧
    b.span.mask? = some b.span.mask ∧ b.span.extract? raw = some (b.span.extract raw) ∧
    b.span.insert? raw v = some (b.span.insert raw v) ∧
    b.span.mask.toNat = (2 ^ b.span.size - 1) * 2 ^ b.span.first := by
  have hbounds : ∃ m n, b.Covers m n ∧
      b.span.first = min (min m n) 63 ∧ b.span.last = min (max m n) 63 := by
    obtain ⟨m, n, hcovers, hspan⟩ := b.exists_covers
    exact ⟨m, n, hcovers, by rw [hspan]; rfl, by rw [hspan]; rfl⟩
  have hlast := b.span.last_lt
  refine ⟨hbounds, ⟨b.span.first_le_last, by omega⟩, b.span.extract_insert raw v,
    fun i hi => b.span.bit_insert_of_outside raw v hi, b.span.insert_extract raw,
    b.span.insert_insert raw u v, fun h => ?_, b.span.mask?_eq, b.span.extract?_eq raw,
    b.span.insert?_eq raw v, b.span.toNat_mask⟩
  exact ⟨Span.insert_comm h raw u v, Span.extract_insert_of_apart h raw u,
    Span.extract_insert_of_apart h.symm raw v⟩

/-- A range beyond the end of the word, from its higher number to its lower one, and a bit in front of
it whose range cannot be read. -/
theorem insert_laws_reversed :
    let mode : BitMember := { name := "mode", range := some " 70 :\t+60" }
    let flag : BitMember := { name := "flag", bit := some 59, range := some "9:" }
    (mode.span.first = 60 ∧ mode.span.last = 63 ∧ flag.span.first = 59 ∧ flag.span.last = 59) ∧
      mode.span.Apart flag.span ∧
      mode.span.insert (flag.span.insert 7 1) 18 = flag.span.insert (mode.span.insert 7 18) 1 ∧
      mode.span.extract (flag.span.insert 7 1) = mode.span.extract 7 ∧
      flag.span.extract (mode.span.insert 7 18) = flag.span.extract 7 := by
  intro mode flag
  have hapart : mode.span.Apart flag.span := Or.inr (by decide)
  obtain ⟨-, -, -, -, -, -, hcommute, -⟩ := insert_laws mode flag 7 1 18
  exact ⟨by decide, hapart, hcommute hapart⟩

end BitMember

end Datagram
