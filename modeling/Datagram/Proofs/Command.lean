import Datagram.Command
import Datagram.Proofs.Octets.Input

/-! # Messages printed and typed in again

The line that is printed for a message spells its bytes, and what spells bytes is decoded as these. -/

namespace Datagram

namespace Command

open Octets (Spelled)

variable {c : Catalog} {message : String} {layout : Layout}

/-- Arguments that spell bytes between them are decoded as these. -/
theorem decode_of_spelled (hlayout : c.requestLayout message = .ok layout)
    {parts : List (List UInt8)} {arguments : List String}
    (h : List.Forall₂ (fun part argument => Spelled part argument.toList) parts arguments) :
    decode c message arguments =
      .ok (done (dump (layout.decode parts.flatten) ++ "\n") "") := by
  have htext : (" ".intercalate arguments).toList =
      List.intercalate [' '] (arguments.map String.toList) := by
    rw [String.toList_intercalate]
    rfl
  have hspelled := Octets.spelled_intercalate (List.forall₂_map_right_iff.mpr h)
  rw [decode, htext, Octets.ofInput_of_spelled hspelled, hlayout]
  rfl

theorem encode_of_layout (hlayout : c.requestLayout message = .ok layout)
    {arguments : List String} {values : Values} (hvalues : assignments arguments = .ok values) :
    ∃ warnings, encode c message arguments =
      .ok (done (String.ofList (Octets.dump (layout.encode values)) ++ "\n") warnings) := by
  rw [encode, hvalues, hlayout]
  exact ⟨_, rfl⟩

/-- What bytes are written as is a text for them, and every text for bytes is read as these by both
readers. So the line that is printed for a message is decoded as the bytes of the message, as it
stands or in any other text for these, and in one argument or in several. -/
theorem printed_read_back :
    (∀ bytes, Spelled bytes (Octets.dump bytes)) ∧
    (∀ bytes text, Spelled bytes text →
      Octets.ofInput text = .ok bytes ∧ Literal.octets text = .ok bytes) ∧
    ∀ (c : Catalog) message arguments values layout, assignments arguments = .ok values →
      c.requestLayout message = .ok layout →
      ∃ line warnings, encode c message arguments = .ok (done line warnings) ∧
        Spelled (layout.encode values) line.toList ∧
        ∀ parts hex, parts.flatten = layout.encode values →
          List.Forall₂ (fun part argument => Spelled part argument.toList) parts hex →
          decode c message hex =
            .ok (done (dump (layout.decode (layout.encode values)) ++ "\n") "") := by
  refine ⟨?_, ?_, ?_⟩
  · intro bytes
    have hdump := Octets.spelled_dump bytes (List.forall_mem_nil _)
    rwa [List.append_nil] at hdump
  · intro bytes text h
    exact ⟨Octets.ofInput_of_spelled h, Octets.octets_of_spelled h⟩
  · intro c message arguments values layout hvalues hlayout
    obtain ⟨warnings, hencode⟩ := encode_of_layout hlayout hvalues
    refine ⟨_, warnings, hencode, ?_, ?_⟩
    · rw [String.toList_append, String.toList_ofList]
      exact Octets.spelled_dump _ (List.forall_mem_singleton.mpr rfl)
    · intro parts hex hparts hhex
      rw [← hparts]
      exact decode_of_spelled hlayout hhex

/-- The line for a message is typed in again in two arguments, the first one with marks and in lower
case. -/
theorem printed_read_back_ping :
    let line := "00 0B 00 02 00 00 00 00\n"
    let hex := ["0x00\t0X0b", "00 02 00 00 00 00"]
    (encode .sample "ping" ["header.MsgID=b", "header.Length=2"]).map Outcome.out = .ok line ∧
      ∃ shown, decode .sample "ping" [line] = .ok (done shown "") ∧
        decode .sample "ping" hex = .ok (done shown "") := by
  intro line hex
  obtain ⟨hdump, _, hcommand⟩ := printed_read_back
  let values : Values := (Dict.empty.insert "header.MsgID" "b").insert "header.Length" "2"
  obtain ⟨layout, hlayout⟩ : ∃ layout, Catalog.sample.requestLayout "ping" = .ok layout := ⟨_, rfl⟩
  have hbytes : layout.encode values = [0, 11, 0, 2, 0, 0, 0, 0] := by
    cases hlayout
    decide +kernel
  have hvalues : assignments ["header.MsgID=b", "header.Length=2"] = .ok values := by
    decide +kernel
  have hprinted : (encode .sample "ping" ["header.MsgID=b", "header.Length=2"]).map Outcome.out =
      .ok line := by decide +kernel
  obtain ⟨printed, warnings, hencode, hspelled, hdecode⟩ := hcommand _ _ _ _ _ hvalues hlayout
  have hline : printed = line := by
    rw [hencode] at hprinted
    exact Except.ok.inj hprinted
  subst hline
  rw [hbytes] at hspelled hdecode
  have hzero : Octets.Word 0 "0x00".toList := .marked .hex rfl
  have heleven : Octets.Word 11 "0X0b".toList := .marked .upperHex rfl
  have hnone : ∀ c ∈ ([] : List Char), Text.isBlank c = true := List.forall_mem_nil _
  have htab : ∀ c ∈ ['\t'], Text.isBlank c = true := List.forall_mem_singleton.mpr rfl
  have hfirst : Spelled [0, 11] "0x00\t0X0b".toList :=
    .cons hnone hzero (.cons htab heleven (.nil hnone) (by simp)) (by simp; decide)
  have hwhole := hdecode [[0, 11, 0, 2, 0, 0, 0, 0]] [line] rfl (.cons hspelled .nil)
  have hsplit := hdecode [[0, 11], [0, 2, 0, 0, 0, 0]] hex rfl
    (.cons hfirst (.cons (hdump [0, 2, 0, 0, 0, 0]) .nil))
  exact ⟨hprinted, _, hwhole, hsplit⟩

end Command

end Datagram
