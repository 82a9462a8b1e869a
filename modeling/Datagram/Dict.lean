/-!
Finite maps from texts, kept as the list of their entries in strictly ascending order of the keys.
Two maps with the same entries are equal. Texts are ordered by code points.
-/

namespace Datagram

structure Dict (α : Type) where
  entries : List (String × α)
  sorted : entries.Pairwise (fun a b => a.1 < b.1) := by simp

namespace Dict

variable {α β : Type}

instance [DecidableEq α] : DecidableEq (Dict α) := fun a b =>
  decidable_of_iff (a.entries = b.entries)
    ⟨fun h => by cases a; cases b; cases h; rfl, fun h => h ▸ rfl⟩

def empty : Dict α := ⟨[], .nil⟩

instance : EmptyCollection (Dict α) := ⟨empty⟩
instance : Inhabited (Dict α) := ⟨empty⟩

def insertEntry (k : String) (v : α) : List (String × α) → List (String × α)
  | [] => [(k, v)]
  | e :: es =>
    if e.1 < k then e :: insertEntry k v es
    else if e.1 = k then (k, v) :: es
    else (k, v) :: e :: es

theorem mem_insertEntry {k : String} {v : α} {es : List (String × α)} {e : String × α}
    (h : e ∈ insertEntry k v es) : e = (k, v) ∨ e ∈ es := by
  induction es with
  | nil => exact .inl (by simpa [insertEntry] using h)
  | cons d ds ih =>
    simp only [insertEntry] at h
    split at h
    · rcases List.mem_cons.1 h with rfl | h
      · exact .inr List.mem_cons_self
      · exact (ih h).imp_right (List.mem_cons_of_mem _)
    · split at h
      · exact (List.mem_cons.1 h).imp_right (List.mem_cons_of_mem _)
      · exact List.mem_cons.1 h

theorem pairwise_insertEntry (k : String) (v : α) {es : List (String × α)}
    (h : es.Pairwise (fun a b => a.1 < b.1)) :
    (insertEntry k v es).Pairwise (fun a b => a.1 < b.1) := by
  induction es with
  | nil => simp [insertEntry]
  | cons d ds ih =>
    obtain ⟨hd, hs⟩ := List.pairwise_cons.1 h
    simp only [insertEntry]
    split
    · rename_i hlt
      refine List.pairwise_cons.2 ⟨fun e he => ?_, ih hs⟩
      rcases mem_insertEntry he with rfl | he
      · exact hlt
      · exact hd e he
    · split
      · rename_i heq
        exact List.pairwise_cons.2 ⟨fun e he => heq ▸ hd e he, hs⟩
      · rename_i hnlt hne
        have hkd : k < d.1 := by
          rcases Std.lt_trichotomy k d.1 with hlt | heq | hgt
          · exact hlt
          · exact absurd heq.symm hne
          · exact absurd hgt hnlt
        refine List.pairwise_cons.2 ⟨fun e he => ?_, h⟩
        rcases List.mem_cons.1 he with rfl | he
        · exact hkd
        · exact String.lt_trans hkd (hd e he)

def insert (d : Dict α) (k : String) (v : α) : Dict α :=
  ⟨insertEntry k v d.entries, pairwise_insertEntry k v d.sorted⟩

/-- Of entries with one key the last counts. -/
def ofList (es : List (String × α)) : Dict α := es.foldl (fun d e => d.insert e.1 e.2) empty

def get? (d : Dict α) (k : String) : Option α := d.entries.lookup k

def contains (d : Dict α) (k : String) : Bool := (d.get? k).isSome

def keys (d : Dict α) : List String := d.entries.map (·.1)

def values (d : Dict α) : List α := d.entries.map (·.2)

def isEmpty (d : Dict α) : Bool := d.entries.isEmpty

def size (d : Dict α) : Nat := d.entries.length

def erase (d : Dict α) (k : String) : Dict α :=
  ⟨d.entries.filter (·.1 ≠ k), d.sorted.filter _⟩

def map (f : α → β) (d : Dict α) : Dict β :=
  ⟨d.entries.map fun e => (e.1, f e.2), List.pairwise_map.2 d.sorted⟩

end Dict

end Datagram
