import Datagram.Proofs.Idl.Export

/-! # Descriptions read back

The description of a field is the comment of its line. The words of the description are read back one
space apart, unless the marker of a message number is in one of them: the line then has a marker too,
and its comment has not. -/

namespace Datagram.Idl

open Datagram.Text

theorem exportedBits_of_no_members {f : Datagram.Field} (hb : f.members = []) :
    exportedBits f = [] :=
  List.eq_nil_iff_forall_not_mem.mpr fun _ h => List.not_mem_nil (hb ▸ mem_exportedBits h)

/-- The line of a field without bit members is read as a plain member of its type. -/
theorem member?_fieldLines {f : Datagram.Field} (hr : f.isReference = false)
    (hf : f.type.fixedSize?.isSome = true) (hb : f.members = []) :
    ∃ s line, f.type = .scalar s ∧ fieldLines f = [line] ∧ member? .standard line.toList =
      some (writtenMember s (identifier f.name) none f.description) := by
  cases ht : f.type with
  | scalar s =>
    have hlines := fieldLines_plain hr ht (exportedBits_of_no_members hb)
    exact ⟨s, _, rfl, hlines, member?_memberLine (word_identifier f.name) (fits_none s) _⟩
  | padding | string | bytes =>
    rw [ht] at hf
    cases hf

/-- The comment of a field's line has the words of the description, one space apart, without the
markers among them. It is the description and the field is not marked just if there is no marker. -/
theorem fieldLines_described {f : Datagram.Field} (hr : f.isReference = false)
    (hf : f.type.fixedSize?.isSome = true) (hb : f.members = []) :
    ∃ line m ws said, fieldLines f = [line] ∧ member? .standard line.toList = some m ∧
      m.name = identifier f.name ∧ m.typeName = typeName f.type ∧
      m.arraySize = none ∧ m.bitWidth = none ∧
      Spread ws f.description.toList ∧ Unmarks (List.intercalate [' '] ws) said ∧
      m.comment = String.ofList (trim said) ∧
      (m.isMessageId = true ↔ idMarker <:+: f.description.toList) ∧
      (m.comment = String.ofList (List.intercalate [' '] ws) ↔
        ¬ idMarker <:+: f.description.toList) := by
  obtain ⟨s, line, ht, hline, hread⟩ := member?_fieldLines hr hf hb
  refine ⟨line, _, words f.description.toList, _, hline, hread, rfl, by rw [ht]; rfl, rfl, rfl,
    words_eq_iff.mp rfl, unmarks_dropMarkers _, rfl, hasMarker_note f.description, ?_⟩
  have hwhole := noteText_eq_iff f.description
  rwa [collapse, ← String.ofList_inj, String.ofList_toList] at hwhole

/-- Slashes, blanks and the signs of statements and bodies are part of a comment. -/
theorem fieldLines_described_signs :
    let f : Datagram.Field :=
      { name := "rotor speed"
        type := .scalar (.int true .w32)
        description := "\t// a;  \x7d\n $()$ " }
    f.isReference = false ∧ f.type.fixedSize?.isSome = true ∧ f.members = [] ∧
      fieldLines f = ["    int rotor_speed; // // a; \x7d $()$"] ∧
      ∃ m, member? .standard "    int rotor_speed; // // a; \x7d $()$".toList = some m ∧
        m.isMessageId = false ∧ m.comment = "// a; \x7d $()$" := by
  intro f
  obtain ⟨line, m, ws, _, hline, hread, _, _, _, _, hwords, _, _, hmarked, hwhole⟩ :=
    fieldLines_described (f := f) rfl rfl rfl
  have hwritten : fieldLines f = ["    int rotor_speed; // // a; \x7d $()$"] := by decide +kernel
  obtain rfl : line = "    int rotor_speed; // // a; \x7d $()$" := by
    rw [hwritten] at hline
    exact (List.cons.inj hline).1.symm
  have hunmarked : ¬ idMarker <:+: f.description.toList := by decide
  have hcollapse : List.intercalate [' '] ws = "// a; \x7d $()$".toList := by
    rw [← words_of_spread hwords]
    decide +kernel
  have hcomment := hwhole.mpr hunmarked
  rw [hcollapse, String.ofList_toList] at hcomment
  have hplain : m.isMessageId = false := Bool.eq_false_iff.mpr (mt hmarked.mp hunmarked)
  exact ⟨rfl, rfl, rfl, hwritten, m, hread, hplain, hcomment⟩

/-- A description with a marker makes its field the one with the message number, and is lost. -/
theorem marked_description_dropped :
    let f : Datagram.Field :=
      { name := "a", type := .scalar (.int true .w32), description := "//$()$" }
    fieldLines f = ["    int a; // //$()$"] ∧
      (member? .standard "    int a; // //$()$".toList).map (fun m => (m.isMessageId, m.comment)) =
        some (true, "") := by
  intro f
  exact ⟨by decide +kernel, by decide +kernel⟩

end Datagram.Idl
