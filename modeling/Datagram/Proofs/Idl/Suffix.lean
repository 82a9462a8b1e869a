import Datagram.Proofs.Idl.Grammar

/-! # Array sizes and bit widths behind a name

A number of 32 bits behind a name is the size or the width of the member. A longer number is none: the
line is then read like the one with the bare name. -/

namespace Datagram.Idl

open Datagram.Text

/-- A type, a name and what stands between the name and the semicolon. -/
def declaratorLine (type name suffix : List Char) : Line :=
  type ++ ' ' :: (name ++ (suffix ++ [';']))

def sizeSuffix (digits : List Char) : List Char := '[' :: (digits ++ [']'])

def widthSuffix (digits : List Char) : List Char := ' ' :: ':' :: ' ' :: digits

/-- What may stand behind a name: nothing, a size or a width. -/
inductive Suffix : Option Nat → Option Nat → List Char → Prop where
  | none : Suffix none none []
  | size {ds n} : Digits 10 ds n → Suffix (some n) none (sizeSuffix ds)
  | width {ds n} : Digits 10 ds n → Suffix none (some n) (widthSuffix ds)

section Suffixes

variable {types : TypeTable} {words : List (List Char)} {type name suffix : List Char}
  {size width : Option Nat}

theorem memberCode_of_suffix (htype : WordsCode words type) (hname : Word name)
    (hsuffix : Suffix size width suffix) :
    MemberCode (words ++ [name]) size width (declaratorLine type name suffix) := by
  have hnone : Gap [] := List.forall_mem_nil _
  have hwords : WordsCode (words ++ [name]) (type ++ ([' '] ++ name)) :=
    htype.append gap_space (List.cons_ne_nil _ _) (.one hname)
  have hlength : 2 ≤ (words ++ [name]).length := by
    cases htype <;> simp
  cases hsuffix with
  | none =>
    have hcode := MemberCode.intro hnone hlength hwords hnone .none hnone .none hnone hnone
    simpa [declaratorLine] using hcode
  | size hds =>
    have hcode := MemberCode.intro hnone hlength hwords hnone (.some hnone hds hnone) hnone .none
      hnone hnone
    simpa [declaratorLine, sizeSuffix] using hcode
  | width hds =>
    have hcode := MemberCode.intro hnone hlength hwords gap_space .none hnone (.some gap_space hds)
      hnone hnone
    simpa [declaratorLine, widthSuffix] using hcode

/-- The member of a type and a name with a size and a width, as far as these are read. -/
def memberOf (types : TypeTable) (words : List (List Char)) (name : List Char)
    (size width : Option Nat) : Member :=
  let typeName := String.ofList (typeText words)
  let primitive := types.resolve typeName
  { name := String.ofList name
    typeName
    primitive
    arraySize := size
    bitWidth := width.map (min · primitive.bits)
    isMessageId := false
    comment := "" }

theorem trim_declaratorLine (htype : WordsCode words type) (name suffix : List Char) :
    trim (declaratorLine type name suffix) = declaratorLine type name suffix := by
  obtain ⟨c, t, rfl, hc⟩ := htype.head
  apply trim_of_ends
  · intro d hd
    cases hd
    exact isBlank_of_isWordChar hc
  · intro d hd
    have hlast : declaratorLine (c :: t) name suffix =
        (c :: t ++ ' ' :: (name ++ suffix)) ++ [';'] := by simp [declaratorLine]
    rw [hlast, List.getLast?_concat] at hd
    cases hd
    decide

theorem member?_declaratorLine (htype : WordsCode words type)
    (hinteger : (types.resolve (String.ofList (typeText words))).isInteger = true)
    (hname : Word name) (hsuffix : Suffix size width suffix) (hwidth : width ≠ some 0) :
    member? types (declaratorLine type name suffix) =
      some (memberOf types words name (counted size) (counted width)) := by
  have hcode := memberCode_of_suffix htype hname hsuffix
  have htrim := trim_declaratorLine htype name suffix
  have hslash := hcode.slash_not_mem
  have hcommented : Commented (trim (declaratorLine type name suffix))
      (declaratorLine type name suffix) [] := by
    have happend := splitComment_append hslash []
    rw [List.append_nil] at happend
    rw [htrim, ← splitComment_eq_iff, happend]
    simp [splitComment]
  have hmarker : ¬ idMarker <:+: declaratorLine type name suffix :=
    fun h => hslash (h.subset List.mem_cons_self)
  have hplain : Unmarks [] [] := .plain (by simp [Unmarked, idMarker])
  rw [← htrim] at hcode
  rw [member?_of_memberLine (.intro hcommented hcode rfl (fun _ => hwidth) hplain), memberOf,
    decide_eq_false hmarker, if_pos hinteger]
  rfl

theorem counted_of_lt {n : Nat} (h : n < UInt32.size) : counted (some n) = some n := by
  simp [counted, h]

theorem counted_of_not_lt {n : Nat} (h : ¬ n < UInt32.size) : counted (some n) = none := by
  simp [counted, Nat.le_of_not_lt h]

end Suffixes

/-- A size or a width of 32 bits counts, however many zeros stand in front of it; the width is cut off
at that of the type. With a longer number, the member is the one that is read without size and
width. -/
theorem member?_suffix (types : TypeTable) {words : List (List Char)} {type name ds : List Char}
    {n : Nat} (htype : WordsCode words type)
    (hinteger : (types.resolve (String.ofList (typeText words))).isInteger = true)
    (hname : Word name) (hds : Digits 10 ds n) (hn : 1 ≤ n) :
    ∃ plain, member? types (declaratorLine type name []) = some plain ∧
      plain.name = String.ofList name ∧
      plain.primitive = types.resolve (String.ofList (typeText words)) ∧
      plain.arraySize = none ∧ plain.bitWidth = none ∧
      member? types (declaratorLine type name (sizeSuffix ds)) =
        some (if n < UInt32.size then { plain with arraySize := some n } else plain) ∧
      member? types (declaratorLine type name (widthSuffix ds)) =
        some (if n < UInt32.size then { plain with bitWidth := some (min n plain.primitive.bits) }
          else plain) := by
  have hnone : (none : Option Nat) ≠ some 0 := by simp
  have hzero : some n ≠ some 0 := by simp; omega
  refine ⟨_, member?_declaratorLine htype hinteger hname .none hnone, rfl, rfl, rfl, rfl, ?_,
    ?_⟩
  · rw [member?_declaratorLine htype hinteger hname (.size hds) hnone]
    by_cases h : n < UInt32.size
    · rw [if_pos h, counted_of_lt h]
      rfl
    · rw [if_neg h, counted_of_not_lt h]
      rfl
  · rw [member?_declaratorLine htype hinteger hname (.width hds) hzero]
    by_cases h : n < UInt32.size
    · rw [if_pos h, counted_of_lt h]
      rfl
    · rw [if_neg h, counted_of_not_lt h]
      rfl

/-- Zeros in front of a number do not make it longer. -/
theorem member?_suffix_zeros :
    let plain : Member :=
      ⟨"x_1", "unsigned short", .int false .w16, none, none, false, ""⟩
    WordsCode ["unsigned".toList, "short".toList] "unsigned\tshort".toList ∧
      Digits 10 "00000000017".toList 17 ∧
      member? .standard "unsigned\tshort x_1;".toList = some plain ∧
      member? .standard "unsigned\tshort x_1[00000000017];".toList =
        some { plain with arraySize := some 17 } ∧
      member? .standard "unsigned\tshort x_1 : 00000000017;".toList =
        some { plain with bitWidth := some 16 } := by
  intro plain
  have htab : Gap ['\t'] := List.forall_mem_singleton.mpr rfl
  have hshort : WordsCode ["short".toList] "short".toList :=
    .one (Word.of_all (by decide) (by decide))
  have htype : WordsCode ["unsigned".toList, "short".toList] "unsigned\tshort".toList :=
    .more (Word.of_all (by decide) (by decide)) htab (List.cons_ne_nil _ _) hshort
  have hname : Word "x_1".toList := Word.of_all (by decide) (by decide)
  have hds : Digits 10 "00000000017".toList 17 := digits_of_ofDigits? (by decide) (by decide)
  obtain ⟨found, hfound, _, _, _, _, hsize, hwidth⟩ :=
    member?_suffix .standard htype (by decide +kernel) hname hds (by decide)
  have hplain : member? .standard "unsigned\tshort x_1;".toList = some plain := by decide +kernel
  obtain rfl : plain = found := Option.some.inj (hplain.symm.trans hfound)
  exact ⟨htype, hds, hplain, hsize, hwidth⟩

/-- The number behind the largest that counts makes a plain member of an array and of a bit field. -/
theorem long_suffix_dropped :
    let plain : Member := ⟨"x", "int", .int true .w32, none, none, false, ""⟩
    Digits 10 "4294967296".toList UInt32.size ∧
      member? .standard "int x[4294967296];".toList = some plain ∧
      member? .standard "int x : 4294967296;".toList = some plain := by
  intro plain
  have hds : Digits 10 "4294967296".toList UInt32.size :=
    digits_of_ofDigits? (by decide) (by decide)
  exact ⟨hds, by decide +kernel, by decide +kernel⟩

end Datagram.Idl
