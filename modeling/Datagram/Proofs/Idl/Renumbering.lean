import Datagram.Proofs.Idl.Declared
import Datagram.Proofs.Idl.Segment
import Datagram.Proofs.Idl.Stability
import Datagram.Proofs.Text.Utf8

/-! # Numbers that messages keep

An export numbers messages in the order of their keys. So a catalogue that came back of an export
keeps the numbers of its messages in the next one while all of them have as many digits. From
message 10000 on they do not, and that message is written in front of others. -/

namespace Datagram.Idl

open Datagram.Text

/-- The keys that belong to the numbers and names of a document, in its order. -/
def declaredKeys (d : Document) : List String :=
  (declaredMessages d).map fun p => messageKey p.1 p.2

/-- The key that a message comes back under, by the message and its index. -/
def keyOf (x : (String × Message) × Nat) : String :=
  messageKey (x.2 + 1) (identifier (messageName x.1.1))

theorem declaredKeys_exported (c : Catalog) : declaredKeys (exportedDocument c) =
    (c.messages.entries.zipIdx.filter (fun x => x.2 + 1 < UInt32.size)).map keyOf := by
  rw [declaredKeys, declaredMessages, messageStructs_exported, List.map_map, List.map_map]
  rfl

theorem keyOf_messageEntry (e : Endian) (x : (String × Message) × Nat) :
    keyOf (messageEntry e x, x.2) = keyOf x := by
  have hname := identifier_ne_empty (messageName x.1.1)
  simp only [keyOf, messageEntry, messageName_messageKey _ hname, identifier_identifier]

variable {c : Catalog}

theorem declaredKeys_roundTrip (hsize : c.messages.size ≤ 9999) (source : String) :
    declaredKeys (exportedDocument (roundTrip c source)) = (roundTrip c source).messages.keys := by
  have hentries : (roundTrip c source).messages.entries =
      c.messages.entries.zipIdx.map (messageEntry (exportEndian c)) := entries_messages hsize
  have hindexed : (roundTrip c source).messages.entries.zipIdx =
      c.messages.entries.zipIdx.map fun x => (messageEntry (exportEndian c) x, x.2) := by
    rw [hentries, List.zipIdx_map, zipIdx_zipIdx, List.map_map]
    rfl
  have hall : (roundTrip c source).messages.entries.zipIdx.filter
      (fun x => x.2 + 1 < UInt32.size) = (roundTrip c source).messages.entries.zipIdx :=
    filter_numbered (Nat.le_trans (Nat.le_of_eq (size_roundTrip hsize source)) hsize)
  rw [declaredKeys_exported, hall, hindexed, Dict.keys, hentries, List.map_map, List.map_map]
  exact List.map_congr_left fun x _ => keyOf_messageEntry _ x

/-- Keys that stand in their order have numbers in the order of the indices. -/
theorem keyOf_lt_of_pairwise {xs : List (String × Message)} {p : (String × Message) × Nat → Bool}
    (h : ((xs.zipIdx.filter p).map keyOf).Pairwise (· < ·)) {x y : (String × Message) × Nat}
    (hx : x ∈ xs.zipIdx.filter p) (hy : y ∈ xs.zipIdx.filter p) (hlt : x.2 < y.2) :
    keyOf x < keyOf y := by
  have hforward : (xs.zipIdx.filter p).Pairwise fun a b => a.2 < b.2 → keyOf a < keyOf b := by
    refine (List.pairwise_map.mp h).imp ?_
    intro a b hkey _
    exact hkey
  -- The other way round an index would have to be smaller than itself.
  have hback : (xs.zipIdx.filter p).Pairwise
      (flip fun a b => a.2 < b.2 → keyOf a < keyOf b) :=
    ((pairwise_zipIdx xs 0).filter p).imp fun hindex hlt => absurd hlt (Nat.lt_asymm hindex)
  exact List.Pairwise.forall_of_forall_of_flip (fun _ _ hlt => absurd hlt (Nat.lt_irrefl _))
    hforward hback hx hy hlt

/-- Keys in the order of the numbers have a number for each message. -/
theorem exists_keyOf {source : String} {i : Nat} (hi : i < c.messages.size)
    (hnumber : i + 1 < UInt32.size)
    (h : declaredKeys (exportedDocument (roundTrip c source)) =
      (roundTrip c source).messages.keys) :
    ∃ x ∈ (roundTrip c source).messages.entries.zipIdx.filter (fun x => x.2 + 1 < UInt32.size),
      x.2 = i := by
  obtain ⟨entry, hentry⟩ : ∃ entry, c.messages.entries[i]? = some entry :=
    ⟨_, List.getElem?_eq_getElem hi⟩
  have hget := (get?_messages_exported c _ _).mpr ⟨i, entry, hentry, hnumber, rfl, rfl⟩
  have hkey : messageKey (i + 1) (identifier (messageName entry.1)) ∈
      (roundTrip c source).messages.keys :=
    List.mem_map.mpr ⟨_, Dict.get?_eq_some_iff.mp hget, rfl⟩
  rw [← h, declaredKeys_exported] at hkey
  obtain ⟨x, hx, heq⟩ := List.mem_map.mp hkey
  exact ⟨x, hx, Nat.succ.inj (id_of_messageKey heq)⟩

theorem size_le_of_declaredKeys {source : String}
    (h : declaredKeys (exportedDocument (roundTrip c source)) =
      (roundTrip c source).messages.keys) : c.messages.size ≤ 9999 := by
  by_contra hsize
  obtain ⟨x, hx, hxi⟩ := exists_keyOf (i := 9998) (by omega) (by decide) h
  obtain ⟨y, hy, hyi⟩ := exists_keyOf (i := 9999) (by omega) (by decide) h
  have hsorted : (declaredKeys (exportedDocument (roundTrip c source))).Pairwise (· < ·) := by
    rw [h]
    exact List.pairwise_map.mpr (roundTrip c source).messages.sorted
  rw [declaredKeys_exported] at hsorted
  have hlt : keyOf x < keyOf y := keyOf_lt_of_pairwise hsorted hx hy (by omega)
  rw [keyOf, keyOf, hxi, hyi, messageKey_lt_iff (by decide)] at hlt
  revert hlt
  decide +kernel

/-- A catalogue of messages with the numbers up to a last one. -/
def numbered (last : Nat) : Catalog :=
  { messages := Dict.ofList ((List.range last).map fun i => (messageKey (i + 1) "M", {})) }

theorem size_numbered (last : Nat) : (numbered last).messages.size = last := by
  have hnodup : (((List.range last).map fun i => (messageKey (i + 1) "M", ({} : Message))).map
      Prod.fst).Nodup := by
    rw [List.map_map]
    exact List.nodup_range.map fun _ _ h => Nat.succ.inj (id_of_messageKey h)
  have hlen := (Dict.keys_ofList_perm
    ((List.range last).map fun i => (messageKey (i + 1) "M", ({} : Message)))).length_eq
  rw [hnodup.dedup, List.length_map, List.length_map, List.length_range, Dict.keys,
    List.length_map] at hlen
  exact hlen

/-- Of two keys with different numbers, the larger number stands behind exactly if its first digits,
as many as the other number has, make a larger number already. The messages of a catalogue that came
back of an export keep their numbers in the next export exactly if there are at most 9999. -/
theorem keys_in_order_iff {i j : Nat} (h : i < j) (a b : String) (c : Catalog) (source : String) :
    (messageKey i a < messageKey j b ↔ i < j / 10 ^ (keyWidth j - keyWidth i)) ∧
    ((messageKey i a).toUTF8.data.toList < (messageKey j b).toUTF8.data.toList ↔
      i < j / 10 ^ (keyWidth j - keyWidth i)) ∧
    ∃ d d', Document.parse {} c.toIdl = .ok d ∧
      Document.parse {} (d.toCatalog source).toIdl = .ok d' ∧
      (declaredKeys d' = (d.toCatalog source).messages.keys ↔ c.messages.size ≤ 9999) := by
  refine ⟨messageKey_lt_iff h a b, ?_, exportedDocument c, exportedDocument (roundTrip c source),
    parse_toIdl c, parse_toIdl (roundTrip c source), size_le_of_declaredKeys, fun hsize => ?_⟩
  · rw [bytes_lt_iff]
    exact messageKey_lt_iff h a b
  · exact declaredKeys_roundTrip hsize source

/-- Number 10999 stands between the numbers 1098 and 1099. -/
theorem keys_in_order_five_digits :
    messageKey 1098 "B" < messageKey 10999 "A" ∧ ¬ messageKey 1099 "B" < messageKey 10999 "A" ∧
      ∃ d d', Document.parse {} (numbered 9999).toIdl = .ok d ∧
        Document.parse {} (d.toCatalog "").toIdl = .ok d' ∧
        declaredKeys d' = (d.toCatalog "").messages.keys := by
  obtain ⟨hfront, _⟩ := keys_in_order_iff (i := 1098) (j := 10999) (by decide) "B" "A" {} ""
  obtain ⟨hback, _, d, d', hd, hd', hkeys⟩ :=
    keys_in_order_iff (i := 1099) (j := 10999) (by decide) "B" "A" (numbered 9999) ""
  refine ⟨hfront.mpr (by decide +kernel), ?_, d, d', hd, hd', hkeys.mpr ?_⟩
  · rw [hback]
    decide +kernel
  · rw [size_numbered]

/-- Message 10000 stands in front of message 9999 and is given the first number. Among ten thousand
messages that were exported before, some change theirs. -/
theorem keys_not_in_order :
    let text := "struct A //$(9999)$\n\x7b\n\x7d;\nstruct B //$(10000)$\n\x7b\n\x7d;\n"
    messageKey 10000 "B" < messageKey 9999 "A" ∧
      (∃ d d', Document.parse {} text = .ok d ∧ declaredMessages d = [(9999, "A"), (10000, "B")] ∧
        Document.parse {} (d.toCatalog "").toIdl = .ok d' ∧
        declaredMessages d' = [(1, "B"), (2, "A")]) ∧
      ∃ d d', Document.parse {} (numbered 10000).toIdl = .ok d ∧
        Document.parse {} (d.toCatalog "").toIdl = .ok d' ∧
        declaredKeys d' ≠ (d.toCatalog "").messages.keys := by
  intro text
  let a : Struct := ⟨"A", .message 9999 "9999", [], ""⟩
  let b : Struct := ⟨"B", .message 10000 "10000", [], ""⟩
  let d : Document := ⟨{}, [a, b]⟩
  have hblank : text.toList.all isBlank = false := by decide +kernel
  have hdocument : documentOf {} text = d := by decide +kernel
  have hnumbers : declaredMessages (exportedDocument (d.toCatalog "")) = [(1, "B"), (2, "A")] := by
    decide +kernel
  refine ⟨by decide +kernel, ⟨d, exportedDocument (d.toCatalog ""),
    hdocument ▸ parse_eq_documentOf {} hblank, rfl, parse_toIdl _, hnumbers⟩, ?_⟩
  refine ⟨exportedDocument (numbered 10000), exportedDocument (roundTrip (numbered 10000) ""),
    parse_toIdl _, parse_toIdl _, fun h => ?_⟩
  have hsize := size_le_of_declaredKeys h
  rw [size_numbered] at hsize
  omega

end Datagram.Idl
