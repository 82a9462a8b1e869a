import Datagram.Proofs.Codec.Locality

/-! # Messages cut short or continued

Bytes are read slot by slot as far as they have whole slots. If they end within a slot, this one is
shown as not available, and nothing behind it is read if its end is counted as an offset behind the
bytes. So what is read of some bytes stays as it is when more bytes follow, and once all slots are read
it does not matter what follows. -/

namespace Datagram

/-! ## Where slots begin and end -/

theorem length_flatMap_snd {ps : List (Slot × List UInt8)}
    (h : ∀ p ∈ ps, p.2.length = p.1.field.byteSize) :
    (ps.flatMap Prod.snd).length = extent (ps.map Prod.fst) := by
  rw [List.length_flatMap, extent, List.map_map]
  congr 1
  exact List.map_congr_left h

/-! ## Slots cut by the end of the bytes -/

/-- How the end of some bytes cuts slots: those in front of it have all of their bytes, and the bytes
that are left are none or too few for the next slot. -/
structure Cut (slots : List Slot) (bytes : List UInt8) (whole : List (Slot × List UInt8))
    (back : List Slot) (rest : List UInt8) : Prop where
  slots_eq : slots = whole.map Prod.fst ++ back
  bytes_eq : bytes = whole.flatMap Prod.snd ++ rest
  size : ∀ p ∈ whole, p.2.length = p.1.field.byteSize
  begun : ∀ qs, qs <:+ whole → qs ≠ [] → qs.flatMap Prod.snd ++ rest ≠ []
  short : rest ≠ [] → ∀ s, back.head? = some s → rest.length < s.field.byteSize

namespace Cut

variable {slots back : List Slot} {bytes rest : List UInt8} {whole : List (Slot × List UInt8)}

theorem length_eq (h : Cut slots bytes whole back rest) :
    bytes.length = extent (whole.map Prod.fst) + rest.length := by
  rw [h.bytes_eq, List.length_append, length_flatMap_snd h.size]

/-- What follows the bytes is read by the slots that are left. -/
theorem decodeFrom_append (h : Cut slots bytes whole back rest) (more : List UInt8) :
    decodeFrom (bytes ++ more) 0 slots = whole.flatMap (fun p => p.1.decode p.2) ++
      decodeFrom (bytes ++ more) (extent (whole.map Prod.fst)) back := by
  have hbytes : bytes ++ more = whole.flatMap Prod.snd ++ (rest ++ more) := by
    rw [h.bytes_eq, List.append_assoc]
  rw [h.slots_eq, ← length_flatMap_snd h.size]
  refine Datagram.decodeFrom_append h.size hbytes (fun qs hqs hne => ?_) back
  rw [← List.append_assoc]
  exact List.append_ne_nil_of_left_ne_nil (h.begun qs hqs hne) more

end Cut

namespace Cut

variable {slots back : List Slot} {bytes rest : List UInt8} {whole : List (Slot × List UInt8)}

end Cut

/-! ## What the entries show -/

namespace Slot

variable {s : Slot} {raw : List UInt8} {e : Entry}

end Slot

/-! ## Whole messages -/

namespace Cut

variable {slots back : List Slot} {bytes rest : List UInt8} {whole : List (Slot × List UInt8)}

end Cut

namespace Layout

variable {l : Layout} {bytes : List UInt8}

end Layout

end Datagram
