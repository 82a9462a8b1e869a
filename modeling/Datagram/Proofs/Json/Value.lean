import Datagram.Json.Parse
import Datagram.Proofs.Json.Token
import Mathlib.Data.List.Forall2

/-! # Values read back

The text of a value falls into the value's tokens, and from its tokens the value is read again. Both
go by the structure of the value: what is open around it stays as it is. -/

namespace Datagram.Json

/-- A value whose numbers are all naturals, and whose strings are texts. -/
inductive Plain : Json → Prop where
  | null : Plain .null
  | bool (b : Bool) : Plain (.bool b)
  | nat (n : Nat) : Plain (.nat n)
  | string (s : String) : Plain (.string (some s))
  | array {items : List Json} (h : ∀ j ∈ items, Plain j) : Plain (.array items)
  | object {members : List (Option String × Json)} (keys : ∀ m ∈ members, m.1.isSome = true)
    (values : ∀ m ∈ members, Plain m.2) : Plain (.object members)

mutual

/-- The tokens that a value is written with. -/
def tokens : Json → List Token
  | .null => [.null]
  | .bool b => [.bool b]
  | .nat n => [.nat n]
  | .number lexeme => [.number lexeme]
  | .string s => [.string s]
  | .array items => .openBracket :: List.intercalate [.comma] (itemTokens items) ++ [.closeBracket]
  | .object members =>
    .openBrace :: List.intercalate [.comma] (memberTokens members) ++ [.closeBrace]

def itemTokens : List Json → List (List Token)
  | [] => []
  | j :: js => tokens j :: itemTokens js

def memberTokens : List (Option String × Json) → List (List Token)
  | [] => []
  | (key, j) :: ms => (.string key :: .colon :: tokens j) :: memberTokens ms

end

/-! ## From the text to the tokens -/

/-- In front of anything that may follow a value, the text falls into the tokens. -/
def Scans (s : List Char) (ts : List Token) : Prop :=
  ∀ before rest, EndsValue rest →
    tokensAfter before (s ++ rest) = tokensAfter (ts.reverse ++ before) rest

theorem scans_token {s : List Char} {t : Token}
    (h : ∀ rest, EndsValue rest → token? (s ++ rest) = some (t, rest))
    (hs : ∃ c r, s = c :: r ∧ isBlank c = false) : Scans s [t] := by
  obtain ⟨c, r, rfl, hc⟩ := hs
  intro before rest hrest
  refine tokensAfter_token before (h rest hrest) ?_
  intro d hd
  obtain rfl : c = d := Option.some.inj hd
  exact hc

theorem tokensAfter_newline (before : List Token) (indent : Nat) (s : List Char) :
    tokensAfter before (newline indent ++ s) = tokensAfter before s := by
  have hspaces : tokensAfter before (List.replicate indent ' ' ++ s) = tokensAfter before s := by
    induction indent with
    | zero => rfl
    | succ n ih => rw [List.replicate_succ, List.cons_append, tokensAfter_blank before rfl, ih]
  rw [newline, List.cons_append, tokensAfter_blank before rfl, hspaces]

theorem endsValue_newline_append (indent : Nat) (s : List Char) :
    EndsValue (newline indent ++ s) := endsValue_newline _

theorem tokensAfter_comma (before : List Token) (s : List Char) :
    tokensAfter before (',' :: s) = tokensAfter (.comma :: before) s :=
  tokensAfter_token before rfl fun _ hc => Option.some.inj hc ▸ rfl

/-- Lines that each fall into tokens do so with commas between them. -/
theorem scans_intercalate (indent : Nat) {ls : List (List Char)} {tss : List (List Token)}
    (h : List.Forall₂ Scans ls tss) (hne : ls ≠ []) :
    Scans (List.intercalate (',' :: newline indent) ls) (List.intercalate [.comma] tss) := by
  induction h with
  | nil => exact absurd rfl hne
  | cons hl htail ih =>
    cases htail with
    | nil => simpa [List.intercalate_singleton] using hl
    | cons hk hrest =>
      intro before rest hend
      rw [List.intercalate_cons_cons, List.intercalate_cons_cons, List.append_assoc,
        List.append_assoc, List.cons_append, hl _ _ (endsValue_comma _), tokensAfter_comma,
        tokensAfter_newline, ih (by simp) _ _ hend]
      simp

theorem scans_block (indent : Nat) {opening closing : Char} {t u : Token}
    (hopen : ∀ rest, token? (opening :: rest) = some (t, rest)) (ho : isBlank opening = false)
    (hclose : ∀ rest, token? (closing :: rest) = some (u, rest)) (hc : isBlank closing = false)
    {ls : List (List Char)} {tss : List (List Token)} (h : List.Forall₂ Scans ls tss) :
    Scans (block indent opening closing ls) (t :: List.intercalate [.comma] tss ++ [u]) := by
  intro before rest _
  have hbegin : ∀ before s, tokensAfter before (opening :: s) = tokensAfter (t :: before) s :=
    fun before s => tokensAfter_token before (hopen s) fun _ hd => Option.some.inj hd ▸ ho
  have hend : ∀ before s, tokensAfter before (closing :: s) = tokensAfter (u :: before) s :=
    fun before s => tokensAfter_token before (hclose s) fun _ hd => Option.some.inj hd ▸ hc
  cases h with
  | nil =>
    rw [block, if_pos List.isEmpty_nil, List.cons_append, List.cons_append, List.nil_append, hbegin,
      hend]
    rfl
  | cons hl htail =>
    have hlines := scans_intercalate (indent + 2) (List.Forall₂.cons hl htail) (by simp)
    rw [block, if_neg (by simp)]
    simp only [List.append_assoc, List.cons_append, List.nil_append]
    rw [hbegin, tokensAfter_newline, hlines _ _ (endsValue_newline_append _ _), tokensAfter_newline,
      hend]
    simp

theorem prettyItems_eq_map (indent : Nat) (items : List Json) :
    prettyItems indent items = items.map (pretty indent) := by
  induction items with
  | nil => rw [prettyItems, List.map_nil]
  | cons j js ih => rw [prettyItems, ih, List.map_cons]

theorem prettyMembers_eq_map (indent : Nat) (members : List (Option String × Json)) :
    prettyMembers indent members =
      members.map fun m => quotedText m.1 ++ [':', ' '] ++ pretty indent m.2 := by
  induction members with
  | nil => rw [prettyMembers, List.map_nil]
  | cons m ms ih => rw [prettyMembers, ih, List.map_cons]

theorem itemTokens_eq_map (items : List Json) : itemTokens items = items.map tokens := by
  induction items with
  | nil => rw [itemTokens, List.map_nil]
  | cons j js ih => rw [itemTokens, ih, List.map_cons]

theorem memberTokens_eq_map (members : List (Option String × Json)) :
    memberTokens members = members.map fun m => .string m.1 :: .colon :: tokens m.2 := by
  induction members with
  | nil => rw [memberTokens, List.map_nil]
  | cons m ms ih => rw [memberTokens, ih, List.map_cons]

theorem tokensAfter_quotedText (before : List Token) (s : String) (rest : List Char) :
    tokensAfter before (quotedText (some s) ++ rest) =
      tokensAfter (.string (some s) :: before) rest :=
  tokensAfter_token before (token?_quotedText s rest) fun _ hc => Option.some.inj hc ▸ rfl

theorem scans_member (key : String) {s : List Char} {ts : List Token} (h : Scans s ts) :
    Scans (quotedText (some key) ++ [':', ' '] ++ s) (.string (some key) :: .colon :: ts) := by
  intro before rest hend
  have hcolon : ∀ before s, tokensAfter before (':' :: s) = tokensAfter (.colon :: before) s :=
    fun before s => tokensAfter_token before rfl fun _ hc => Option.some.inj hc ▸ rfl
  rw [List.append_assoc, List.append_assoc, tokensAfter_quotedText, List.cons_append, hcolon,
    List.cons_append, tokensAfter_blank _ rfl, List.nil_append, h _ _ hend]
  simp

theorem forall₂_map {α β γ : Type} {R : β → γ → Prop} {f : α → β} {g : α → γ} {xs : List α}
    (h : ∀ x ∈ xs, R (f x) (g x)) : List.Forall₂ R (xs.map f) (xs.map g) := by
  rw [List.forall₂_map_left_iff, List.forall₂_map_right_iff, List.forall₂_same]
  exact h

/-- Digits are no blanks. -/
theorem exists_cons_decimal (n : Nat) : ∃ c r, Text.decimal n = c :: r ∧ isBlank c = false := by
  obtain ⟨c, r, hcons⟩ := List.exists_cons_of_ne_nil (Nat.toDigits_ne_nil (b := 10) (n := n))
  refine ⟨c, r, hcons, ?_⟩
  have hdigit : c.isDigit = true :=
    Text.isDigit_of_mem_decimal (n := n) (by rw [Text.decimal, hcons]; exact List.mem_cons_self)
  rw [isBlank]
  simp only [Bool.or_eq_false_iff, decide_eq_false_iff_not]
  refine ⟨⟨⟨?_, ?_⟩, ?_⟩, ?_⟩ <;> rintro rfl <;> cases hdigit

theorem scans_pretty {j : Json} (h : Plain j) (indent : Nat) :
    Scans (pretty indent j) (tokens j) := by
  induction h generalizing indent with
  | null => exact scans_token (fun _ _ => rfl) ⟨_, _, rfl, rfl⟩
  | bool b =>
    cases b
    · exact scans_token (fun _ _ => rfl) ⟨_, _, rfl, rfl⟩
    · exact scans_token (fun _ _ => rfl) ⟨_, _, rfl, rfl⟩
  | nat n => exact scans_token (fun _ hend => token?_decimal n hend) (exists_cons_decimal n)
  | string s =>
    intro before rest _
    exact tokensAfter_quotedText before s rest
  | array _ ih =>
    rw [pretty, tokens, prettyItems_eq_map, itemTokens_eq_map]
    exact scans_block indent (fun _ => rfl) rfl (fun _ => rfl) rfl
      (forall₂_map fun j hj => ih j hj _)
  | object hkeys _ ih =>
    rw [pretty, tokens, prettyMembers_eq_map, memberTokens_eq_map]
    refine scans_block indent (fun _ => rfl) rfl (fun _ => rfl) rfl (forall₂_map fun m hm => ?_)
    obtain ⟨key, hkey⟩ := Option.isSome_iff_exists.mp (hkeys m hm)
    rw [hkey]
    exact scans_member key (ih m hm _)

theorem tokens?_pretty {j : Json} (h : Plain j) (indent : Nat) :
    tokens? (pretty indent j) = some (tokens j) := by
  have hscan := scans_pretty h indent [] [] (by simp [EndsValue])
  rw [List.append_nil] at hscan
  rw [tokens?, hscan, tokensAfter_nil]
  simp

/-! ## From the tokens to the value -/

/-- Where a value may begin, its tokens complete it. -/
def Completes (j : Json) : Prop :=
  ∀ frames, (tokens j).foldlM step (.value frames) = some (.complete j frames)

/-- No value begins with the bracket that closes an array. -/
theorem foldlM_firstItem {j : Json} (h : Completes j) (frames : List Frame) :
    (tokens j).foldlM step (.firstItem frames) = some (.complete j (.array [] :: frames)) := by
  have hvalue := h (.array [] :: frames)
  have hhead : ∃ t ts, tokens j = t :: ts ∧ t ≠ .closeBracket := by
    cases j <;> rw [tokens] <;> exact ⟨_, _, rfl, by simp⟩
  obtain ⟨t, ts, htokens, ht⟩ := hhead
  have hstep : step (.firstItem frames) t = step (.value (.array [] :: frames)) t := by
    cases t <;> first | exact absurd rfl ht | rfl
  rw [htokens, List.foldlM_cons, hstep, ← List.foldlM_cons, ← htokens, hvalue]

theorem intercalate_cons {α : Type} (sep x : List α) (xs : List (List α)) :
    List.intercalate sep (x :: xs) = x ++ xs.flatMap (sep ++ ·) := by
  induction xs generalizing x with
  | nil => simp [List.intercalate_singleton]
  | cons y ys ih => rw [List.intercalate_cons_cons, ih, List.flatMap_cons]; simp

theorem foldlM_items {items : List Json} (h : ∀ j ∈ items, Completes j) (before : List Json)
    (value : Json) (frames : List Frame) :
    (((items.map tokens).flatMap ([Token.comma] ++ ·)) ++ [Token.closeBracket]).foldlM step
        (.complete value (.array before :: frames)) =
      some (.complete (.array (before.reverse ++ value :: items)) frames) := by
  induction items generalizing before value with
  | nil => simp [step, endValue]
  | cons j js ih =>
    have hj := h j List.mem_cons_self (.array (value :: before) :: frames)
    have hcomma : step (.complete value (.array before :: frames)) .comma =
        some (.value (.array (value :: before) :: frames)) := rfl
    rw [List.map_cons, List.flatMap_cons, List.append_assoc, List.append_assoc, List.cons_append,
      List.nil_append, List.foldlM_cons, hcomma, Option.bind_eq_bind, Option.bind_some,
      List.foldlM_append, hj, Option.bind_eq_bind, Option.bind_some,
      ih fun k hk => h k (List.mem_cons_of_mem _ hk)]
    simp

theorem foldlM_members {members : List (Option String × Json)}
    (h : ∀ m ∈ members, Completes m.2) (before : List (Option String × Json))
    (key : Option String) (value : Json) (frames : List Frame) :
    (((members.map fun m => .string m.1 :: .colon :: tokens m.2).flatMap ([Token.comma] ++ ·)) ++
        [Token.closeBrace]).foldlM step (.complete value (.object before key :: frames)) =
      some (.complete (.object (before.reverse ++ (key, value) :: members)) frames) := by
  induction members generalizing before key value with
  | nil => simp [step, endValue]
  | cons m ms ih =>
    have hm := h m List.mem_cons_self (.object ((key, value) :: before) m.1 :: frames)
    have hnext : ([.comma, .string m.1, .colon] : List Token).foldlM step
        (.complete value (.object before key :: frames)) =
        some (.value (.object ((key, value) :: before) m.1 :: frames)) := rfl
    have hsplit : ∀ ts : List Token, ([.comma] ++ .string m.1 :: .colon :: tokens m.2) ++ ts =
        [.comma, .string m.1, .colon] ++ (tokens m.2 ++ ts) := fun _ => rfl
    rw [List.map_cons, List.flatMap_cons, List.append_assoc, hsplit, List.foldlM_append, hnext,
      Option.bind_eq_bind, Option.bind_some, List.foldlM_append, hm, Option.bind_eq_bind,
      Option.bind_some, ih fun k hk => h k (List.mem_cons_of_mem _ hk)]
    simp

theorem completes_array {items : List Json} (h : ∀ j ∈ items, Completes j) :
    Completes (.array items) := by
  intro frames
  rw [tokens, itemTokens_eq_map]
  cases items with
  | nil => rfl
  | cons j js =>
    have hopen : step (.value frames) .openBracket = some (.firstItem frames) := rfl
    rw [List.map_cons, intercalate_cons, List.cons_append, List.foldlM_cons, hopen,
      Option.bind_eq_bind, Option.bind_some, List.append_assoc, List.foldlM_append,
      foldlM_firstItem (h j List.mem_cons_self), Option.bind_eq_bind, Option.bind_some,
      foldlM_items fun k hk => h k (List.mem_cons_of_mem _ hk)]
    rfl

theorem completes_object {members : List (Option String × Json)}
    (h : ∀ m ∈ members, Completes m.2) : Completes (.object members) := by
  intro frames
  rw [tokens, memberTokens_eq_map]
  cases members with
  | nil => rfl
  | cons m ms =>
    have hm := h m List.mem_cons_self (.object [] m.1 :: frames)
    have hopen : ([.openBrace, .string m.1, .colon] : List Token).foldlM step (.value frames) =
        some (.value (.object [] m.1 :: frames)) := rfl
    have hsplit : ∀ ts : List Token,
        .openBrace :: ((.string m.1 :: .colon :: tokens m.2) ++ ts) ++ [.closeBrace] =
        [.openBrace, .string m.1, .colon] ++ (tokens m.2 ++ (ts ++ [.closeBrace])) := by
      intro ts
      simp
    rw [List.map_cons, intercalate_cons, hsplit, List.foldlM_append, hopen, Option.bind_eq_bind,
      Option.bind_some, List.foldlM_append, hm, Option.bind_eq_bind, Option.bind_some,
      foldlM_members fun k hk => h k (List.mem_cons_of_mem _ hk)]
    rfl

theorem completes_of_plain {j : Json} (h : Plain j) : Completes j := by
  induction h with
  | null => exact fun _ => rfl
  | bool b => exact fun _ => rfl
  | nat n => exact fun _ => rfl
  | string s => exact fun _ => rfl
  | array _ ih => exact completes_array ih
  | object _ _ ih => exact completes_object ih

theorem parse?_pretty {j : Json} (h : Plain j) (indent : Nat) :
    parse? (pretty indent j) = some j := by
  rw [parse?, tokens?_pretty h, Option.bind_some, ofTokens?, completes_of_plain h []]

end Datagram.Json
