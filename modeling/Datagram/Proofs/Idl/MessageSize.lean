import Datagram.Proofs.Idl.Size

/-! # The size of a message

A message has its header apart from its payload: each member of the header's type stands for one
header, and every other group is flattened with all structs still to expand, the message's own among
them. So the size of a request is that of the message's struct where no such member is an array and
the struct does not refer back to itself. -/

namespace Datagram

theorem wireSize_withFirstValue (value : String) (fs : List Field) :
    wireSize (Idl.withFirstValue value fs) = wireSize fs := by
  cases fs with
  | nil => rfl
  | cons f fs => rfl

/-- Fields of one kind in front of those of the other take the bytes of all of them. -/
theorem wireSize_flatMap_filter {α : Type} (p : α → Bool) (f g : α → List Field) (xs : List α) :
    wireSize ((xs.filter p).flatMap f) + wireSize ((xs.filter (!p ·)).flatMap g) =
      (xs.map fun x => if p x then wireSize (f x) else wireSize (g x)).sum := by
  induction xs with
  | nil => rfl
  | cons x xs ih =>
    rw [List.map_cons, List.sum_cons, ← ih]
    by_cases h : p x = true
    · simp [h, wireSize_append, Nat.add_assoc]
    · simp [h, wireSize_append, Nat.add_left_comm]

namespace Idl

/-! ## Requests -/

/-- The bytes that a message has for a group of its struct. A member for the header has them for one
header, whatever its array size. -/
def Document.requestSize (d : Document) (g : Group) : Nat :=
  match d.header? with
  | none => g.size d.structSize
  | some h => if Document.isHeaderGroup h g then d.structSize h.name else g.size d.structSize

/-- A member for the header is no array, or one of a single element. -/
def SingleHeaders (d : Document) (s : Struct) : Prop :=
  ∀ h, d.header? = some h → ∀ m ∈ s.members, Document.isHeaderGroup h (.single m) = true →
    m.count = 1

theorem wireSize_headerFields {d : Document} {h : Struct} (hh : d.struct? h.name = some h)
    (idText : String) : wireSize (d.headerFields h idText) = d.structSize h.name := by
  rw [Document.headerFields, Document.structSize, sizeIn_of_some hh]
  refine wireSize_flatMap_groups fun g hg => ?_
  have hsize := wireSize_flatten (e := d.directives.endian) (without d.structs h.name) ""
    (sound_of_mem_groups hg)
  cases g with
  | bits first rest => exact hsize
  | single m =>
    dsimp only
    split
    · rw [wireSize_withFirstValue, hsize]
    · exact hsize

theorem wireSize_requestLayout {d : Document}
    (hd : ∀ h, d.header? = some h → d.struct? h.name = some h) (s : Struct) (idText : String) :
    (d.requestLayout s idText).wireSize = ((groups s.members).map d.requestSize).sum := by
  have hpayload : ∀ g ∈ groups s.members,
      wireSize (flatten d.structs d.directives.endian "" g) = g.size d.structSize :=
    fun g hg => wireSize_flatten _ _ (sound_of_mem_groups hg)
  unfold Document.requestLayout Document.requestSize Layout.wireSize
  cases hh : d.header? with
  | none =>
    dsimp only
    rw [wireSize, Nat.zero_add, wireSize_flatMap_groups hpayload, Group.totalSize_eq_sum]
  | some h =>
    dsimp only
    rw [List.partition_eq_filter_filter]
    refine (wireSize_flatMap_filter (Document.isHeaderGroup h) _ _ _).trans ?_
    congr 1
    refine List.map_congr_left fun g hg => ?_
    rw [wireSize_headerFields (hd h hh), hpayload g hg]

theorem sum_requestSize {d : Document} {s : Struct} (hs : d.struct? s.name = some s)
    (hsingle : SingleHeaders d s) (hself : ¬ Relation.TransGen (Refers d.structs) s.name s.name) :
    ((groups s.members).map d.requestSize).sum = d.structSize s.name := by
  rw [Document.structSize, sizeIn_of_some hs, Group.totalSize_eq_sum]
  congr 1
  refine List.map_congr_left fun g hg => ?_
  -- Nothing that a member refers to leads back, so the struct itself may be expanded or not.
  have hbelow : g.size d.structSize = g.size (sizeIn (without d.structs s.name)) := by
    refine size_congr fun m hm hstruct => ?_
    subst hm
    have hedge : Refers d.structs s.name m.typeName :=
      ⟨s, hs, m, (plain_of_single_mem_groups hg).1, hstruct, rfl⟩
    exact (sizeIn_without fun hpath => hself (.head' hedge hpath)).symm
  rw [← hbelow, Document.requestSize]
  cases hh : d.header? with
  | none => rfl
  | some h =>
    dsimp only
    split
    · rename_i hheader
      cases g with
      | bits first rest => cases hheader
      | single m =>
        obtain ⟨hm, hbit⟩ := plain_of_single_mem_groups hg
        obtain ⟨hstruct, hname⟩ : m.isStruct = true ∧ m.typeName = h.name := by
          simpa [Document.isHeaderGroup] using hheader
        rw [size_single hbit, hsingle h hh m hm hheader, Nat.mul_one, Member.elementSize,
          if_pos hstruct, hname]
    · rfl

/-- The size of a message's request, group by group, and as it is counted; and where it is the size of
the struct. -/
theorem request_totalSize {d : Document} (hn : (d.structs.map Struct.name).Nodup) (source : String)
    {s : Struct} (hs : s ∈ d.structs) {id : Nat} {idText : String}
    (hr : s.role = .message id idText) :
    ∃ message layout, (d.toCatalog source).message? (messageKey id s.name) = some message ∧
      message.request = some layout ∧
      layout.wireSize = ((groups s.members).map d.requestSize).sum ∧
      layout.totalSize = layout.wireSize % UInt64.size ∧
      (SingleHeaders d s → ¬ Relation.TransGen (Refers d.structs) s.name s.name →
        layout.wireSize = d.structSize s.name) := by
  have hheader : ∀ h, d.header? = some h → d.struct? h.name = some h :=
    fun h hh => findStruct?_of_mem hn (List.mem_of_find?_eq_some hh)
  have hsize := wireSize_requestLayout hheader s idText
  refine ⟨_, d.requestLayout s idText, get?_messages hn hs hr, rfl, hsize, Layout.totalSize_eq_mod _,
    fun hsingle hself => ?_⟩
  rw [hsize, sum_requestSize (findStruct?_of_mem hn hs) hsingle hself]

/-- A header inside a nested array, beside the one that stands for the message's own. -/
theorem request_totalSize_nested :
    let header : Struct := ⟨"H", .header, [⟨"n", "short", .int true .w16, none, none, false, ""⟩], ""⟩
    let point : Struct := ⟨"P", .user, [
      ⟨"x", "int", .int true .w32, none, none, false, ""⟩,
      ⟨"h", "H", .struct, some 2, none, false, ""⟩], ""⟩
    let message : Struct := ⟨"M", .message 16 "0x10", [
      ⟨"h", "H", .struct, none, none, false, ""⟩,
      ⟨"p", "P", .struct, some 3, none, false, ""⟩,
      ⟨"a", "byte", .int false .w8, none, some 3, false, ""⟩], ""⟩
    let d : Document := ⟨{}, [message, point, header]⟩
    (d.structs.map Struct.name).Nodup ∧ message ∈ d.structs ∧ SingleHeaders d message ∧
      ¬ Relation.TransGen (Refers d.structs) "M" "M" ∧ d.structSize "M" = 27 ∧
      ∃ m layout, (d.toCatalog "").message? "Msg_0016_M" = some m ∧ m.request = some layout ∧
        layout.wireSize = 27 ∧ layout.totalSize = 27 := by
  intro header point message d
  have hnames : (d.structs.map Struct.name).Nodup := by decide
  have hmem : message ∈ d.structs := List.mem_cons_self
  have hsingle : SingleHeaders d message := by
    intro h hh
    cases Option.some.inj hh
    decide
  have hunreferred : ∀ s ∈ d.structs, ∀ m ∈ s.members, m.typeName ≠ "M" := by decide
  have hself : ¬ Relation.TransGen (Refers d.structs) "M" "M" := by
    intro hpath
    obtain ⟨_, _, s, hs, m, hm, _, hname⟩ := Relation.TransGen.tail'_iff.mp hpath
    exact hunreferred s (List.mem_of_find?_eq_some hs) m hm hname
  have hsize : d.structSize "M" = 27 := by cbv
  have hkey : messageKey 16 message.name = "Msg_0016_M" := by decide +kernel
  obtain ⟨m, layout, hfound, hrequest, _, hcounted, hwire⟩ := request_totalSize hnames "" hmem rfl
  have hwire : layout.wireSize = 27 := (hwire hsingle hself).trans hsize
  rw [hkey] at hfound
  rw [hwire] at hcounted
  exact ⟨hnames, hmem, hsingle, hself, hsize, m, layout, hfound, hrequest, hwire, hcounted⟩

/-- An array of headers stands for one header, and a struct is expanded once within itself: both
messages have another size than their structs. -/
theorem request_totalSize_ne_structSize :
    let text := "struct H //$()$\n\x7b short n; \x7d;\nstruct A //$(1)$\n\x7b H h[2]; \x7d;\nstruct B //$(2)$\n\x7b int a; B self; \x7d;\n"
    ∃ d, Document.parse {} text = .ok d ∧ (d.structs.map Struct.name).Nodup ∧
      (∃ a layout, (d.toCatalog "").message? "Msg_0001_A" = some a ∧ a.request = some layout ∧
        layout.totalSize = 2 ∧ d.structSize "A" = 4) ∧
      ∃ b layout, (d.toCatalog "").message? "Msg_0002_B" = some b ∧ b.request = some layout ∧
        layout.totalSize = 8 ∧ d.structSize "B" = 4 := by
  intro text
  let header : Struct := ⟨"H", .header, [⟨"n", "short", .int true .w16, none, none, false, ""⟩], ""⟩
  let a : Struct := ⟨"A", .message 1 "1", [⟨"h", "H", .struct, some 2, none, false, ""⟩], ""⟩
  let b : Struct := ⟨"B", .message 2 "2", [
    ⟨"a", "int", .int true .w32, none, none, false, ""⟩,
    ⟨"self", "B", .struct, none, none, false, ""⟩], ""⟩
  let d : Document := ⟨{}, [header, a, b]⟩
  have hblank : text.toList.all Text.isBlank = false := by decide +kernel
  have hdocument : documentOf {} text = d := by decide +kernel
  have hnames : (d.structs.map Struct.name).Nodup := by decide
  have hkeys : messageKey 1 a.name = "Msg_0001_A" ∧ messageKey 2 b.name = "Msg_0002_B" := by
    decide +kernel
  have ha := get?_messages hnames (s := a) (by decide) rfl
  have hb := get?_messages hnames (s := b) (by decide) rfl
  rw [hkeys.1] at ha
  rw [hkeys.2] at hb
  refine ⟨d, hdocument ▸ parse_eq_documentOf {} hblank, hnames, ?_, ?_⟩
  · exact ⟨_, d.requestLayout a "1", ha, rfl, by cbv, by cbv⟩
  · exact ⟨_, d.requestLayout b "2", hb, rfl, by cbv, by cbv⟩

end Idl

end Datagram
