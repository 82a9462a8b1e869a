import Datagram.Proofs.Idl.Expansion
import Datagram.Idl.Import
import Mathlib.Data.Finset.Card

/-! # Expansion with visited names

Sizes and fields can also be found with one set of names that every call reads and changes: a struct is
looked up in the whole document, is cut where its name has been visited, and is expanded between entering
its name and leaving it. However the structs refer to each other, this ends with the same sizes and
fields. The structs that are being expanded at any time have different names, so calls lie no deeper than
there are names, and each call leaves the set as it found it. -/

namespace Datagram.Idl

/-! ## Calls -/

/-- A call for a struct: the names of the structs that are being expanded in it, the innermost first, and
the visited names before and after it. -/
structure Call where
  path : List String
  before : Finset String
  after : Finset String

/-- The visited names, and the calls that have ended. -/
structure Trail where
  visited : Finset String
  calls : List Call

/-- A computation with visited names. It has no result where calls lie too deep. -/
abbrev Visit := StateT Trail Option

namespace Visit

def enter (name : String) : Visit Unit :=
  modify fun t => { t with visited := insert name t.visited }

def leave (name : String) : Visit Unit :=
  modify fun t => { t with visited := t.visited.erase name }

/-- The end of a call that began with the given names. -/
def record (path : List String) (before : Finset String) : Visit Unit :=
  modify fun t => { t with calls := ⟨path, before, t.visited⟩ :: t.calls }

@[simp] theorem run_enter (name : String) (t : Trail) :
    (enter name).run t = some ((), { t with visited := insert name t.visited }) := rfl

@[simp] theorem run_leave (name : String) (t : Trail) :
    (leave name).run t = some ((), { t with visited := t.visited.erase name }) := rfl

@[simp] theorem run_record (path : List String) (before : Finset String) (t : Trail) :
    (record path before).run t =
      some ((), { t with calls := ⟨path, before, t.visited⟩ :: t.calls }) := rfl

/-- A call for a struct by its name. It is cut where there is no such struct and where the name of the
struct has been visited. -/
def expand {α : Type} (structs : List Struct) (path : List String) (name : String) (cut : α)
    (body : List String → Struct → Visit α) : Visit α := do
  let t ← get
  match findStruct? structs name with
  | none =>
    record path t.visited
    return cut
  | some s =>
    if s.name ∈ t.visited then
      record path t.visited
      return cut
    else
      enter s.name
      let result ← body (s.name :: path) s
      leave s.name
      record (s.name :: path) t.visited
      return result

section Expand

variable {α : Type} {structs : List Struct} {path : List String} {name : String} {cut : α}
  {body : List String → Struct → Visit α} {t : Trail}

theorem run_expand_cut (h : ∀ s, findStruct? structs name = some s → s.name ∈ t.visited) :
    (expand structs path name cut body).run t =
      some (cut, { t with calls := ⟨path, t.visited, t.visited⟩ :: t.calls }) := by
  cases hs : findStruct? structs name with
  | none => simp [expand, hs]
  | some s => simp [expand, hs, h s hs]

theorem run_expand {s : Struct} (hs : findStruct? structs name = some s) (hnew : s.name ∉ t.visited)
    {a : α} {t' : Trail}
    (h : (body (s.name :: path) s).run { t with visited := insert s.name t.visited } = some (a, t')) :
    (expand structs path name cut body).run t =
      some (a, ⟨t'.visited.erase s.name,
        ⟨s.name :: path, t.visited, t'.visited.erase s.name⟩ :: t'.calls⟩) := by
  simp [expand, hs, hnew, h]

end Expand

end Visit

open Visit (expand)

def Member.visitSize (sizeOf : String → Visit Nat) (m : Member) : Visit Nat :=
  if m.bitWidth.isSome then return 0
  else do
    let size ← if m.isStruct then sizeOf m.typeName else pure m.primitive.size
    return size * m.count

def Group.visitSize (sizeOf : String → Visit Nat) : Group → Visit Nat
  | .single m => m.visitSize sizeOf
  | .bits first _ => return first.primitive.size

/-- The size of a struct, where `inner` gives the sizes of structs in it. -/
def sizeCall (structs : List Struct) (inner : List String → String → Visit Nat) (path : List String)
    (name : String) : Visit Nat :=
  expand structs path name 0 fun path s => do
    let sizes ← (groups s.members).mapM (Group.visitSize (inner path))
    return sizes.sum

/-- The size of a struct, with so many calls within each other below the first one. -/
def visitSize (structs : List Struct) : Nat → List String → String → Visit Nat
  | 0 => sizeCall structs fun _ _ => failure
  | depth + 1 => sizeCall structs (visitSize structs depth)

/-- The fields of groups one after the other, with the names that each one leaves. -/
def visitGroups (fieldsOf : Group → Visit (List Datagram.Field)) (gs : List Group) :
    Visit (List Datagram.Field) := do
  let fields ← gs.mapM fieldsOf
  return fields.flatten

/-- The fields of a group, where `inner` gives the fields of groups in a struct in it. -/
def fieldsCall (structs : List Struct) (e : Endian)
    (inner : List String → String → Group → Visit (List Datagram.Field)) (path : List String)
    (pre : String) : Group → Visit (List Datagram.Field)
  | .bits first rest =>
    match first.primitive.scalar? with
    | some scalar => return [storageField e pre scalar (first :: rest)]
    | none => return []
  | .single m =>
    match m.primitive.scalar? with
    | some scalar => return scalarFields e pre scalar m
    | none => expand structs path m.typeName [] fun path s => do
      let elements ← (List.range m.count).mapM fun i =>
        visitGroups (inner path (innerPrefix pre m i)) (groups s.members)
      return elements.flatten

/-- The fields of a group, with so many calls within each other below the first one. -/
def visitFields (structs : List Struct) (e : Endian) :
    Nat → List String → String → Group → Visit (List Datagram.Field)
  | 0 => fieldsCall structs e fun _ _ _ => failure
  | depth + 1 => fieldsCall structs e (visitFields structs e depth)

/-! ## Computations that restore the names -/

/-- A computation gives a result and leaves the visited names as they were, and all calls in it have a
property. -/
def Restores {α : Type} (P : Call → Prop) (visited : Finset String) (x : Visit α) (a : α) : Prop :=
  ∀ calls, ∃ made,
    x.run ⟨visited, calls⟩ = some (a, ⟨visited, made ++ calls⟩) ∧ ∀ c ∈ made, P c

section Restores

variable {α β : Type} {P : Call → Prop} {visited : Finset String}

theorem Restores.pure (a : α) : Restores P visited (pure a) a :=
  fun _ => ⟨[], rfl, List.forall_mem_nil _⟩

theorem Restores.bind {x : Visit α} {f : α → Visit β} {a : α} {b : β} (hx : Restores P visited x a)
    (hf : Restores P visited (f a) b) : Restores P visited (x >>= f) b := by
  intro calls
  obtain ⟨first, hfirst, hP⟩ := hx calls
  obtain ⟨second, hsecond, hP'⟩ := hf (first ++ calls)
  refine ⟨second ++ first, ?_, List.forall_mem_append.mpr ⟨hP', hP⟩⟩
  rw [StateT.run_bind, hfirst, List.append_assoc]
  exact hsecond

theorem Restores.mapM {f : α → Visit β} {g : α → β} {xs : List α}
    (h : ∀ x ∈ xs, Restores P visited (f x) (g x)) :
    Restores P visited (xs.mapM f) (xs.map g) := by
  induction xs with
  | nil => exact .pure []
  | cons x xs ih =>
    rw [List.forall_mem_cons] at h
    rw [List.mapM_cons]
    exact h.1.bind ((ih h.2).bind (.pure _))

variable {structs : List Struct} {path : List String} {name : String} {cut : α}
  {body : List String → Struct → Visit α}

theorem Restores.expand_cut (h : ∀ s, findStruct? structs name = some s → s.name ∈ visited)
    (hP : P ⟨path, visited, visited⟩) : Restores P visited (expand structs path name cut body) cut :=
  fun _ => ⟨[⟨path, visited, visited⟩], Visit.run_expand_cut h, List.forall_mem_singleton.mpr hP⟩

/-- What is entered in front of the body is left behind it. -/
theorem Restores.expand {s : Struct} {a : α} (hs : findStruct? structs name = some s)
    (hnew : s.name ∉ visited) (hbody : Restores P (insert s.name visited) (body (s.name :: path) s) a)
    (hP : P ⟨s.name :: path, visited, visited⟩) :
    Restores P visited (expand structs path name cut body) a := by
  intro calls
  obtain ⟨made, hrun, hmade⟩ := hbody calls
  refine ⟨⟨s.name :: path, visited, visited⟩ :: made, ?_, List.forall_mem_cons.mpr ⟨hP, hmade⟩⟩
  rw [Visit.run_expand hs hnew hrun, Finset.erase_insert hnew, List.cons_append]

end Restores

/-! ## Names that are left -/

/-- The structs whose names have not been visited. -/
def unvisited (structs : List Struct) (visited : Finset String) : List Struct :=
  structs.filter (·.name ∉ visited)

def structNames (structs : List Struct) : Finset String := (structs.map Struct.name).toFinset

section Names

variable {structs : List Struct} {start visited : Finset String} {path : List String} {name : String}

theorem findStruct?_unvisited (h : name ∉ visited) :
    findStruct? (unvisited structs visited) name = findStruct? structs name :=
  (findStruct?_filter (· ∉ visited) structs name).trans (if_pos (decide_eq_true h))

theorem findStruct?_unvisited_of_mem (h : name ∈ visited) :
    findStruct? (unvisited structs visited) name = none :=
  (findStruct?_filter (· ∉ visited) structs name).trans (if_neg (by simpa using h))

theorem without_unvisited (structs : List Struct) (visited : Finset String) (name : String) :
    without (unvisited structs visited) name = unvisited structs (insert name visited) := by
  rw [without, unvisited, unvisited, List.filter_filter]
  congr 1
  funext s
  simp [not_or]

theorem unvisited_empty (structs : List Struct) : unvisited structs ∅ = structs := by
  simp [unvisited]

theorem unvisited_singleton (structs : List Struct) (name : String) :
    unvisited structs {name} = without structs name := by
  rw [← insert_empty_eq, ← without_unvisited, unvisited_empty]

theorem mem_structNames {s : Struct} (h : findStruct? structs name = some s) :
    name ∈ structNames structs := by
  rw [structNames, List.mem_toFinset, ← name_of_findStruct? h]
  exact List.mem_map_of_mem (List.mem_of_find?_eq_some h)

/-- The names on a path are names of structs, pairwise distinct, and not visited when the path began. -/
structure Fresh (structs : List Struct) (start : Finset String) (path : List String) : Prop where
  nodup : path.Nodup
  named : ∀ name ∈ path, name ∈ structNames structs
  unvisited : ∀ name ∈ path, name ∉ start

/-- The visited names at the end of a path. -/
def visitedOn (start : Finset String) (path : List String) : Finset String := start ∪ path.toFinset

/-- How many names can still be entered at the end of a path. -/
def remaining (structs : List Struct) (start : Finset String) (path : List String) : Nat :=
  (structNames structs \ visitedOn start path).card

@[simp] theorem visitedOn_nil (start : Finset String) : visitedOn start [] = start :=
  Finset.union_empty start

theorem visitedOn_cons (start : Finset String) (path : List String) (name : String) :
    visitedOn start (name :: path) = insert name (visitedOn start path) := by
  rw [visitedOn, List.toFinset_cons, Finset.union_insert, visitedOn]

theorem Fresh.nil : Fresh structs start [] :=
  ⟨List.nodup_nil, List.forall_mem_nil _, List.forall_mem_nil _⟩

theorem Fresh.cons (h : Fresh structs start path) (hname : name ∈ structNames structs)
    (hnew : name ∉ visitedOn start path) : Fresh structs start (name :: path) := by
  rw [visitedOn, Finset.mem_union, List.mem_toFinset, not_or] at hnew
  exact ⟨List.nodup_cons.mpr ⟨hnew.2, h.nodup⟩, List.forall_mem_cons.mpr ⟨hname, h.named⟩,
    List.forall_mem_cons.mpr ⟨hnew.1, h.unvisited⟩⟩

theorem Fresh.length_le (h : Fresh structs start path) : path.length ≤ (structNames structs).card := by
  rw [← List.toFinset_card_of_nodup h.nodup]
  exact Finset.card_le_card fun name hname => h.named name (List.mem_toFinset.mp hname)

theorem remaining_cons_lt (hname : name ∈ structNames structs) (hnew : name ∉ visitedOn start path) :
    remaining structs start (name :: path) < remaining structs start path := by
  have hmem : name ∈ structNames structs \ visitedOn start path :=
    Finset.mem_sdiff.mpr ⟨hname, hnew⟩
  rw [remaining, visitedOn_cons, Finset.sdiff_insert]
  exact Finset.card_erase_lt_of_mem hmem

theorem remaining_le (structs : List Struct) (start : Finset String) (path : List String) :
    remaining structs start path ≤ (structNames structs).card :=
  Finset.card_le_card Finset.sdiff_subset

end Names

/-! ## What a call does -/

/-- A call on a path with fresh names that leaves the visited names as it found them. -/
def Call.Sound (structs : List Struct) (start : Finset String) (c : Call) : Prop :=
  Fresh structs start c.path ∧ c.after = c.before

/-- At the end of a path a computation gives a result and restores the visited names, and so do the
calls in it. -/
abbrev GivesOn {α : Type} (structs : List Struct) (start : Finset String) (path : List String)
    (x : Visit α) (a : α) : Prop :=
  Restores (Call.Sound structs start) (visitedOn start path) x a

section Steps

variable {structs : List Struct} {start : Finset String} {path : List String} {e : Endian}

/-- A call gives what it gives for the structs whose names are not visited, if its body does, a name
further on the path. -/
theorem givesOn_expand {α : Type} (hpath : Fresh structs start path) {name : String} {cut a : α}
    {body : List String → Struct → Visit α}
    (hcut : findStruct? (unvisited structs (visitedOn start path)) name = none → a = cut)
    (hbody : ∀ s, findStruct? (unvisited structs (visitedOn start path)) name = some s →
      Fresh structs start (name :: path) →
      remaining structs start (name :: path) < remaining structs start path →
      GivesOn structs start (name :: path) (body (name :: path) s) a) :
    GivesOn structs start path (expand structs path name cut body) a := by
  cases hs : findStruct? (unvisited structs (visitedOn start path)) name with
  | none =>
    rw [hcut hs]
    refine .expand_cut (fun s hfind => ?_) ⟨hpath, rfl⟩
    by_contra hnew
    rw [name_of_findStruct? hfind] at hnew
    rw [findStruct?_unvisited hnew, hfind] at hs
    cases hs
  | some s =>
    have hnew : name ∉ visitedOn start path := fun hmem => by
      rw [findStruct?_unvisited_of_mem hmem] at hs
      cases hs
    have hfind : findStruct? structs name = some s := findStruct?_unvisited hnew ▸ hs
    -- The name that is entered is that of the struct, and it is the one that was asked for.
    obtain rfl := name_of_findStruct? hfind
    have hfresh := hpath.cons (mem_structNames hfind) hnew
    have hrun := hbody s hs hfresh (remaining_cons_lt (mem_structNames hfind) hnew)
    rw [GivesOn, visitedOn_cons] at hrun
    exact .expand hfind hnew hrun ⟨hfresh, rfl⟩

/-! ## Sizes -/

theorem givesOn_memberSize {sizeOf : String → Visit Nat} {size : String → Nat} {m : Member}
    (h : GivesOn structs start path (sizeOf m.typeName) (size m.typeName)) :
    GivesOn structs start path (m.visitSize sizeOf) (m.totalSize size) := by
  rw [Member.visitSize, Member.totalSize, Member.elementSize]
  by_cases hbits : m.bitWidth.isSome = true
  · rw [if_pos hbits, if_pos hbits]
    exact .pure 0
  · rw [if_neg hbits, if_neg hbits]
    by_cases hstruct : m.isStruct = true
    · rw [if_pos hstruct, if_pos hstruct]
      exact h.bind (.pure _)
    · rw [if_neg hstruct, if_neg hstruct]
      exact Restores.bind (.pure _) (.pure _)

theorem givesOn_groupSize {sizeOf : String → Visit Nat} {size : String → Nat}
    (h : ∀ name, GivesOn structs start path (sizeOf name) (size name)) (g : Group) :
    GivesOn structs start path (g.visitSize sizeOf) (g.size size) := by
  cases g with
  | single m => exact givesOn_memberSize (h m.typeName)
  | bits first rest => exact .pure _

theorem givesOn_sizeCall (hpath : Fresh structs start path)
    {inner : List String → String → Visit Nat}
    (hinner : ∀ path', Fresh structs start path' →
      remaining structs start path' < remaining structs start path → ∀ name,
        GivesOn structs start path' (inner path' name)
          (sizeIn (unvisited structs (visitedOn start path')) name)) (name : String) :
    GivesOn structs start path (sizeCall structs inner path name)
      (sizeIn (unvisited structs (visitedOn start path)) name) := by
  refine givesOn_expand hpath sizeIn_of_none fun s hs hfresh hless => ?_
  rw [sizeIn_of_some hs, without_unvisited, ← visitedOn_cons, Group.totalSize_eq_sum]
  exact (Restores.mapM fun g _ => givesOn_groupSize (hinner _ hfresh hless) g).bind (.pure _)

/-- The names that remain bound how deep calls lie. -/
theorem givesOn_visitSize {depth : Nat} (hpath : Fresh structs start path)
    (hdepth : remaining structs start path ≤ depth) (name : String) :
    GivesOn structs start path (visitSize structs depth path name)
      (sizeIn (unvisited structs (visitedOn start path)) name) := by
  induction depth generalizing path name with
  | zero => exact givesOn_sizeCall hpath (fun _ _ hless => by omega) name
  | succ depth ih =>
    exact givesOn_sizeCall hpath (fun _ hfresh hless => ih hfresh (by omega)) name

/-! ## Fields -/

theorem givesOn_visitGroups {fieldsOf : Group → Visit (List Datagram.Field)}
    {fields : Group → List Datagram.Field} {gs : List Group}
    (h : ∀ g ∈ gs, GivesOn structs start path (fieldsOf g) (fields g)) :
    GivesOn structs start path (visitGroups fieldsOf gs) (gs.flatMap fields) :=
  (Restores.mapM h).bind (.pure _)

theorem givesOn_fieldsCall (hpath : Fresh structs start path)
    {inner : List String → String → Group → Visit (List Datagram.Field)}
    (hinner : ∀ path', Fresh structs start path' →
      remaining structs start path' < remaining structs start path → ∀ pre g,
        GivesOn structs start path' (inner path' pre g)
          (flatten (unvisited structs (visitedOn start path')) e pre g)) (pre : String) (g : Group) :
    GivesOn structs start path (fieldsCall structs e inner path pre g)
      (flatten (unvisited structs (visitedOn start path)) e pre g) := by
  cases g with
  | bits first rest =>
    rw [fieldsCall, flatten]
    cases first.primitive.scalar? with
    | none => exact .pure _
    | some scalar => exact .pure _
  | single m =>
    rw [fieldsCall]
    cases hp : m.primitive.scalar? with
    | some scalar =>
      rw [flatten_of_scalar hp]
      exact .pure _
    | none =>
      refine givesOn_expand hpath (fun hnone => flatten_of_none hp hnone pre)
        fun s hs hfresh hless => ?_
      rw [flatten_of_some hp hs, without_unvisited, ← visitedOn_cons]
      exact (Restores.mapM fun i _ =>
        givesOn_visitGroups fun g _ => hinner _ hfresh hless _ g).bind (.pure _)

theorem givesOn_visitFields {depth : Nat} (hpath : Fresh structs start path)
    (hdepth : remaining structs start path ≤ depth) (pre : String) (g : Group) :
    GivesOn structs start path (visitFields structs e depth path pre g)
      (flatten (unvisited structs (visitedOn start path)) e pre g) := by
  induction depth generalizing path pre g with
  | zero => exact givesOn_fieldsCall hpath (fun _ _ hless => by omega) pre g
  | succ depth ih =>
    exact givesOn_fieldsCall hpath (fun _ hfresh hless => ih hfresh (by omega)) pre g

end Steps

/-! ## Documents -/

/-- A computation ends with a result and with the names that had been visited when it began. On the path
of each call in it the structs that are being expanded have different names, of which none had been
visited, so there are no more of them than names of structs; and each call too leaves the visited names
as it found them. -/
def Ends {α : Type} (structs : List Struct) (visited : Finset String) (x : Visit α) (a : α) : Prop :=
  ∃ calls, x.run ⟨visited, []⟩ = some (a, ⟨visited, calls⟩) ∧
    ∀ c ∈ calls, c.path.Nodup ∧ c.path.length ≤ (structNames structs).card ∧
      (∀ name ∈ c.path, name ∉ visited) ∧ c.after = c.before

theorem ends_of_givesOn {α : Type} {structs : List Struct} {visited : Finset String} {x : Visit α}
    {a : α} (h : GivesOn structs visited [] x a) : Ends structs visited x a := by
  rw [GivesOn, visitedOn_nil] at h
  obtain ⟨calls, hrun, hcalls⟩ := h []
  rw [List.append_nil] at hrun
  exact ⟨calls, hrun, fun c hc =>
    ⟨(hcalls c hc).1.nodup, (hcalls c hc).1.length_le, (hcalls c hc).1.unvisited, (hcalls c hc).2⟩⟩

/-- However the structs of a document refer to each other, and whichever names have been visited, a depth
of as many calls as there are names of structs is enough for all sizes and fields. -/
theorem expansion_ends (d : Document) (visited : Finset String) (extra : Nat) :
    let depth := (structNames d.structs).card + extra
    let left := unvisited d.structs visited
    let sizeOf := visitSize d.structs depth []
    let fieldsOf := visitFields d.structs d.directives.endian depth [] ""
    (∀ name, Ends d.structs visited (sizeOf name) (sizeIn left name)) ∧
    (∀ m : Member, Ends d.structs visited (m.visitSize sizeOf) (m.totalSize (sizeIn left))) ∧
    (∀ e pre g, Ends d.structs visited (visitFields d.structs e depth [] pre g)
      (flatten left e pre g)) ∧
    (∀ name, Ends d.structs ∅ (sizeOf name) (d.structSize name)) ∧
    (∀ g, Ends d.structs ∅ (fieldsOf g) (flatten d.structs d.directives.endian "" g)) ∧
    ∀ s, Ends d.structs {s.name} (visitGroups fieldsOf (groups s.members)) (d.structFields s) := by
  intro depth left sizeOf fieldsOf
  have hdepth : ∀ start, remaining d.structs start [] ≤ depth := fun start =>
    (remaining_le d.structs start []).trans (Nat.le_add_right _ _)
  have hsize : ∀ start name, GivesOn d.structs start [] (sizeOf name)
      (sizeIn (unvisited d.structs start) name) := fun start name => by
    simpa using givesOn_visitSize Fresh.nil (hdepth start) name
  have hfields : ∀ start e pre g, GivesOn d.structs start [] (visitFields d.structs e depth [] pre g)
      (flatten (unvisited d.structs start) e pre g) := fun start e pre g => by
    simpa using givesOn_visitFields Fresh.nil (hdepth start) pre g
  refine ⟨fun name => ends_of_givesOn (hsize visited name), fun m => ?_,
    fun e pre g => ends_of_givesOn (hfields visited e pre g), fun name => ?_, fun g => ?_, fun s => ?_⟩
  · exact ends_of_givesOn (givesOn_memberSize (hsize visited m.typeName))
  · exact ends_of_givesOn (by
      simpa only [Document.structSize, unvisited_empty] using hsize ∅ name)
  · exact ends_of_givesOn (by
      simpa only [unvisited_empty] using hfields ∅ d.directives.endian "" g)
  · rw [Document.structFields, ← unvisited_singleton]
    exact ends_of_givesOn (givesOn_visitGroups fun g _ => hfields {s.name} d.directives.endian "" g)

/-- Two structs within each other, and one more with the name of the first. Two calls in the inner struct
are cut, and they lie as deep as there are names. -/
theorem expansion_ends_circle :
    let number : Member := ⟨"n", "int", .int true .w32, none, none, false, ""⟩
    let inner := fun name type size => (⟨name, type, .struct, size, none, false, ""⟩ : Member)
    let outer : Struct := ⟨"A", .user, [inner "b" "B" (some 2), number], ""⟩
    let middle : Struct := ⟨"B", .user, [inner "a" "A" none, inner "c" "C" none, number], ""⟩
    let second : Struct := ⟨"A", .user, [inner "a" "A" none], ""⟩
    let d : Document := ⟨{}, [outer, middle, second]⟩
    Ends d.structs ∅ (visitSize d.structs 2 [] "A") 12 ∧
      ((visitSize d.structs 2 [] "A").run ⟨∅, []⟩).map (fun r => r.2.calls.map Call.path) =
        some [["A"], ["B", "A"], ["B", "A"], ["B", "A"]] ∧
      (visitSize d.structs 1 [] "A").run ⟨∅, []⟩ = none := by
  intro number inner outer middle second d
  have hnames : (structNames d.structs).card + 0 = 2 := by decide
  have hsize : d.structSize "A" = 12 := by decide +kernel
  obtain ⟨-, -, -, hends, -⟩ := expansion_ends d ∅ 0
  refine ⟨?_, ?_, ?_⟩
  · simpa only [hnames, hsize] using hends "A"
  · decide
  · decide

end Datagram.Idl
