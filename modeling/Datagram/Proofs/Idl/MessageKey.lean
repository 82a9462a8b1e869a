import Datagram.Idl.Export
import Datagram.Idl.Import
import Datagram.Proofs.Text.Blank
import Datagram.Proofs.Text.Numeral

/-! # The keys of messages

A key has the number of its message, with zeros in front up to four digits, and its name. Both can
be read back from it. Keys are in the order of their numbers as long as the numbers have as many
digits; where one has more, its first digits are compared with the other. -/

namespace Datagram.Idl

open Datagram.Text

/-! ## Number and name -/

/-- The digits of a number in a key. -/
def keyDigits (id : Nat) : List Char := zeroPadded 4 (decimal id)

theorem messageKey_toList (id : Nat) (name : String) : (messageKey id name).toList =
    'M' :: 's' :: 'g' :: '_' :: (keyDigits id ++ '_' :: name.toList) := by
  simp [messageKey, keyDigits]

theorem ofDigits?_keyDigits (id : Nat) : ofDigits? 10 (keyDigits id) = some id :=
  ofDigits?_paddedDecimal 4 id

theorem readDigits_keyDigits (id : Nat) : readDigits 10 0 (keyDigits id) = some id :=
  (ofDigits?_eq_some.mp (ofDigits?_keyDigits id)).2

/-- The digits of a message key, up to the underscore behind them. -/
theorem takeWhile_keyDigits (id : Nat) (t : List Char) :
    (keyDigits id ++ '_' :: t).takeWhile (· ≠ '_') = keyDigits id ∧
    (keyDigits id ++ '_' :: t).dropWhile (· ≠ '_') = '_' :: t := by
  have hdigits : ∀ c ∈ keyDigits id, decide (c ≠ '_') = true := by
    intro c hc
    rw [decide_eq_true_eq]
    rintro rfl
    exact not_mem_of_ofDigits? (ofDigits?_keyDigits id) rfl hc
  have hend : ∀ c, ('_' :: t).head? = some c → decide (c ≠ '_') = false := by
    intro c hc
    cases hc
    decide
  exact ⟨takeWhile_exact hdigits hend, dropWhile_exact hdigits hend⟩

theorem id_of_messageKey {i j : Nat} {a b : String} (h : messageKey i a = messageKey j b) :
    i = j := by
  have hlist := congrArg String.toList h
  rw [messageKey_toList, messageKey_toList] at hlist
  simp only [List.cons.injEq, true_and] at hlist
  have hdigits : keyDigits i = keyDigits j := by
    rw [← (takeWhile_keyDigits i a.toList).1, hlist, (takeWhile_keyDigits j b.toList).1]
  have hi := ofDigits?_keyDigits i
  rw [hdigits, ofDigits?_keyDigits] at hi
  exact (Option.some.inj hi).symm

theorem name_of_messageKey {i j : Nat} {a b : String} (h : messageKey i a = messageKey j b) :
    a = b := by
  have hlist := congrArg String.toList h
  rw [messageKey_toList, messageKey_toList] at hlist
  simp only [List.cons.injEq, true_and] at hlist
  have hrest : '_' :: a.toList = '_' :: b.toList := by
    rw [← (takeWhile_keyDigits i a.toList).2, hlist, (takeWhile_keyDigits j b.toList).2]
  exact String.toList_inj.mp (List.cons.inj hrest).2

/-- The name is read back, whatever it looks like itself. -/
theorem messageName_messageKey (id : Nat) {name : String} (hn : name ≠ "") :
    messageName (messageKey id name) = name := by
  have hstripped : "Msg_".toList.isPrefixOf? (messageKey id name).toList =
      some (keyDigits id ++ '_' :: name.toList) := by
    rw [messageKey_toList]
    rfl
  obtain ⟨htake, hdrop⟩ := takeWhile_keyDigits id name.toList
  have hdigits : (keyDigits id).all Char.isDigit = true := by
    rw [List.all_eq_true]
    intro c hc
    obtain ⟨d, hd⟩ := digit?_of_mem_ofDigits? (ofDigits?_keyDigits id) c hc
    exact isDigit_of_digit? hd
  have hpad : (keyDigits id).isEmpty = false := by
    rw [List.isEmpty_eq_false_iff]
    exact (ofDigits?_eq_some.mp (ofDigits?_keyDigits id)).1
  have hname : name.toList.isEmpty = false := by
    rw [List.isEmpty_eq_false_iff]
    exact fun h => hn (String.toList_eq_nil_iff.mp h)
  unfold messageName
  simp only [hstripped, htake, hdrop, List.drop_succ_cons, List.drop_zero, hdigits, hpad, hname]
  exact String.ofList_toList

/-! ## Order -/

/-- How many digits a number has in a key. -/
def keyWidth (id : Nat) : Nat := (keyDigits id).length

theorem keyWidth_le_iff {id width : Nat} (h : 4 ≤ width) :
    keyWidth id ≤ width ↔ id < 10 ^ width := by
  rw [keyWidth, keyDigits, zeroPadded, List.length_leftpad, decimal, Nat.max_le,
    Nat.length_toDigits_le_iff (by decide) (by omega)]
  exact and_iff_right h

theorem four_le_keyWidth (id : Nat) : 4 ≤ keyWidth id := by
  rw [keyWidth, keyDigits, zeroPadded, List.length_leftpad]
  exact Nat.le_max_left _ _

theorem keyWidth_mono {i j : Nat} (h : i ≤ j) : keyWidth i ≤ keyWidth j := by
  rw [keyWidth_le_iff (four_le_keyWidth j)]
  exact Nat.lt_of_le_of_lt h ((keyWidth_le_iff (four_le_keyWidth j)).mp (Nat.le_refl _))

theorem append_lt_append_iff {s t : List Char} (hlen : s.length = t.length) (x y : List Char) :
    s ++ x < t ++ y ↔ s < t ∨ s = t ∧ x < y := by
  induction s generalizing t with
  | nil =>
    rw [List.length_nil, eq_comm, List.length_eq_zero_iff] at hlen
    subst hlen
    simp
  | cons c s ih =>
    obtain ⟨d, t, rfl⟩ := List.exists_cons_of_length_pos (l := t) (by rw [← hlen]; simp)
    have hrest : s.length = t.length := by simpa using hlen
    rw [List.cons_append, List.cons_append, List.cons_lt_cons_iff, List.cons_lt_cons_iff, ih hrest,
      List.cons.injEq]
    tauto

/-- The first digits of a number in a key are those of a quotient of it. -/
theorem exists_front {id width : Nat} (h : width ≤ keyWidth id) :
    ∃ front back, keyDigits id = front ++ back ∧ front.length = width ∧
      back.length = keyWidth id - width ∧
      readDigits 10 0 front = some (id / 10 ^ (keyWidth id - width)) := by
  have hsplit := List.take_append_drop width (keyDigits id)
  have hback : ((keyDigits id).drop width).length = keyWidth id - width := List.length_drop
  have hread := readDigits_keyDigits id
  rw [← hsplit] at hread
  refine ⟨_, _, hsplit.symm, List.length_take_of_le h, hback, ?_⟩
  rw [readDigits_front hread, hback]

/-- Of two keys that differ in their numbers, the one with the larger number stands behind the other
only if the first digits of that number already make a larger one. -/
theorem messageKey_lt_iff {i j : Nat} (h : i < j) (a b : String) :
    messageKey i a < messageKey j b ↔ i < j / 10 ^ (keyWidth j - keyWidth i) := by
  obtain ⟨front, back, hj, hfront, hback, hread⟩ := exists_front (keyWidth_mono (Nat.le_of_lt h))
  have hlen : (keyDigits i).length = front.length := hfront.symm
  have hlist : messageKey i a < messageKey j b ↔
      keyDigits i ++ '_' :: a.toList < front ++ (back ++ '_' :: b.toList) := by
    show (messageKey i a).toList < (messageKey j b).toList ↔ _
    rw [messageKey_toList, messageKey_toList, hj, List.append_assoc]
    simp only [List.cons_lt_cons_iff, Char.lt_irrefl, true_and, false_or]
  -- Where all digits of one number begin the other, an underscore is compared with a digit.
  have hbehind : ¬ (keyDigits i = front ∧ '_' :: a.toList < back ++ '_' :: b.toList) := by
    rintro ⟨rfl, hlt⟩
    have hi : i = j / 10 ^ (keyWidth j - keyWidth i) :=
      Option.some.inj ((readDigits_keyDigits i).symm.trans hread)
    cases back with
    | nil =>
      rw [← hback, List.length_nil, Nat.pow_zero, Nat.div_one] at hi
      omega
    | cons d back =>
      have hd : d ∈ keyDigits j := by
        rw [hj]
        exact List.mem_append_right _ List.mem_cons_self
      obtain ⟨n, hn⟩ := digit?_of_mem_ofDigits? (ofDigits?_keyDigits j) d hd
      have hdigit := lt_underscore_of_digit? hn
      rcases List.cons_lt_cons_iff.mp hlt with hc | ⟨hc, _⟩
      · exact absurd hc (Char.lt_asymm hdigit)
      · exact absurd hdigit (hc ▸ Char.lt_irrefl _)
  rw [hlist, append_lt_append_iff hlen, or_iff_left hbehind]
  exact lt_iff_of_readDigits hlen (readDigits_keyDigits i) hread

/-- Where the numbers have at most four digits, keys are in their order. -/
theorem messageKey_lt {i j : Nat} (h : i < j) (hj : j ≤ 9999) (a b : String) :
    messageKey i a < messageKey j b := by
  have hwidth : keyWidth j ≤ keyWidth i :=
    Nat.le_trans ((keyWidth_le_iff (Nat.le_refl 4)).mpr (by omega)) (four_le_keyWidth i)
  rw [messageKey_lt_iff h, Nat.sub_eq_zero_of_le hwidth, Nat.pow_zero, Nat.div_one]
  exact h

end Datagram.Idl
