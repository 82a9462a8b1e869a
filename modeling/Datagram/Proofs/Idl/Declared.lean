import Datagram.Proofs.Idl.Lookup

/-! # One message for each number and name

The key of a message says its number and its name, so no message takes the key of another one. Of
declarations with one number and name the last is kept, and every message has one. -/

namespace Datagram.Idl

theorem messageKey_injective :
    Function.Injective fun p : Nat × String => messageKey p.1 p.2 := fun _ _ h =>
  Prod.ext (id_of_messageKey h) (name_of_messageKey h)

theorem exists_last {α : Type} {p : α → Bool} {l : List α} (h : ∃ a ∈ l, p a = true) :
    ∃ before a after, l = before ++ a :: after ∧ p a = true ∧ ∀ b ∈ after, p b = false := by
  obtain ⟨c, hc, hpc⟩ := h
  have hsome : (l.reverse.find? p).isSome = true := by
    rw [List.find?_isSome]
    exact ⟨c, List.mem_reverse.mpr hc, hpc⟩
  obtain ⟨a, ha⟩ := Option.isSome_iff_exists.mp hsome
  obtain ⟨hpa, after, before, hsplit, hafter⟩ := List.find?_eq_some_iff_append.mp ha
  refine ⟨before.reverse, a, after.reverse, ?_, hpa, fun b hb => ?_⟩
  · rw [← List.reverse_reverse l, hsplit]
    simp
  · simpa using hafter b (List.mem_reverse.mp hb)

/-- What a struct says of a message: its number and its name. -/
def declared? (s : Struct) : Option (Nat × String) :=
  (messageOf? s).map fun x => (x.2.1, x.1.name)

theorem declared?_eq_some_iff {s : Struct} {id : Nat} {name : String} :
    declared? s = some (id, name) ↔ s.name = name ∧ ∃ idText, s.role = .message id idText := by
  rw [declared?, messageOf?]
  cases s.role with
  | message i idText => simp [and_comm]
  | user | header => simp

variable {d : Document}

/-- The numbers and names that structs declare messages with. -/
def declaredMessages (d : Document) : List (Nat × String) :=
  d.messageStructs.map fun x => (x.2.1, x.1.name)

/-- Whatever is declared is declared a last time. -/
theorem exists_lastDeclaration {s : Struct} (hs : s ∈ d.structs) {id : Nat} {idText : String}
    (hr : s.role = .message id idText) :
    ∃ t text, LastDeclaration d t id text ∧ t.name = s.name := by
  have hdeclared : decide (declared? s = some (id, s.name)) = true :=
    decide_eq_true (declared?_eq_some_iff.mpr ⟨rfl, idText, hr⟩)
  obtain ⟨before, t, after, hsplit, ht, hafter⟩ :=
    exists_last (p := fun t => declared? t = some (id, s.name)) ⟨s, hs, hdeclared⟩
  obtain ⟨hname, text, hrole⟩ := declared?_eq_some_iff.mp (of_decide_eq_true ht)
  refine ⟨t, text, ⟨hrole, before, after, hsplit, fun u hu hun other hur => ?_⟩, hname⟩
  exact of_decide_eq_false (hafter u hu) (declared?_eq_some_iff.mpr ⟨hun.trans hname, other, hur⟩)

/-- The message of a struct with the text of its number. -/
def messageFor (d : Document) (s : Struct) (idText : String) : Message :=
  { Message.ofRequest (d.requestLayout s idText) with description := s.comment }

theorem get?_messages_iff {key : String} {m : Message} : d.messages.get? key = some m ↔
    ∃ s id idText, LastDeclaration d s id idText ∧ key = messageKey id s.name ∧
      m = messageFor d s idText := by
  constructor
  · intro h
    obtain ⟨⟨s, id, idText⟩, hx, heq⟩ := List.mem_map.mp (Dict.mem_of_get?_ofList h)
    obtain ⟨rfl, -⟩ := Prod.mk.inj heq
    obtain ⟨u, hu, hux⟩ := List.mem_filterMap.mp hx
    obtain ⟨rfl, text, hrole⟩ := role_of_messageOf? hux
    obtain ⟨t, last, hlast, hname⟩ := exists_lastDeclaration hu hrole
    have hfound := hlast.get?_messages
    rw [hname] at hfound
    exact ⟨t, id, last, hlast, by rw [hname], Option.some.inj (h.symm.trans hfound)⟩
  · rintro ⟨s, id, idText, hlast, rfl, rfl⟩
    exact hlast.get?_messages

theorem keys_messages_perm (d : Document) : d.messages.keys.Perm
    ((declaredMessages d).dedup.map fun p => messageKey p.1 p.2) := by
  rw [← List.dedup_map_of_injective messageKey_injective, declaredMessages, List.map_map]
  refine (Dict.keys_ofList_perm _).trans (List.Perm.of_eq ?_)
  rw [List.map_map]
  rfl

/-- A key has the number and the name of one message only, and the name is read back from it. So a
document has one message for each number and name that it declares, as they are declared last. -/
theorem messages_declared :
    (∀ i j a b, messageKey i a = messageKey j b → i = j ∧ a = b) ∧
    (∀ id name, name ≠ "" → messageName (messageKey id name) = name) ∧
    ∀ (d : Document) (source : String),
      (d.toCatalog source).messages.keys.Perm
        ((declaredMessages d).dedup.map fun p => messageKey p.1 p.2) ∧
      ∀ key m, (d.toCatalog source).message? key = some m ↔
        ∃ s id idText, LastDeclaration d s id idText ∧ key = messageKey id s.name ∧
          m = messageFor d s idText := by
  refine ⟨fun i j a b h => ?_, fun id name hn => messageName_messageKey id hn, fun d source => ?_⟩
  · exact ⟨id_of_messageKey h, name_of_messageKey h⟩
  · exact ⟨keys_messages_perm d, fun key m => get?_messages_iff⟩

/-- A name that looks like a key, and a message that is declared twice with other digits. -/
theorem messages_declared_twice :
    let first : Struct := ⟨"Msg_0001_X", .message 12 "12", [], "first"⟩
    let last : Struct := ⟨"Msg_0001_X", .message 12 "0x0C", [], "last"⟩
    let d : Document := ⟨{}, [first, last]⟩
    messageName (messageKey 12 first.name) = first.name ∧
      (d.toCatalog "").messages.keys = ["Msg_0012_Msg_0001_X"] ∧
      (d.toCatalog "").message? "Msg_0012_Msg_0001_X" = some (messageFor d last "0x0C") := by
  intro first last d
  obtain ⟨_, hname, hdocument⟩ := messages_declared
  obtain ⟨hkeys, hmessages⟩ := hdocument d ""
  have hkey : messageKey 12 last.name = "Msg_0012_Msg_0001_X" := by decide +kernel
  refine ⟨hname 12 first.name (by decide), ?_, ?_⟩
  · have hdeclared : (declaredMessages d).dedup = [(12, "Msg_0001_X")] := by decide
    rw [hdeclared, List.map_singleton] at hkeys
    rw [List.perm_singleton.mp hkeys]
    exact congrArg (fun key => [key]) hkey
  · refine (hmessages _ _).mpr ⟨last, 12, "0x0C", ⟨rfl, [first], [], rfl, ?_⟩, hkey.symm, rfl⟩
    intro t ht
    cases ht

end Datagram.Idl
