/-
A stream of items without separators, and a decoder that looks at the front of
a buffer: it finds the first item with its size, or nothing while more of the
item has to come.  What the decoder finds does not depend on how the stream
was cut.
-/
import Mathlib.Data.List.Basic

namespace UltraNet

universe u v

variable {B : Type u} {F : Type v}

/-- `decode` finds a valid item once all of its bytes are there, whatever
follows, and not before. -/
structure Codec (Valid : F → Prop) (wire : F → List B)
    (decode : List B → Option (F × Nat)) : Prop where
  nonempty : ∀ {item}, Valid item → wire item ≠ []
  whole : ∀ {item} rest, Valid item →
    decode (wire item ++ rest) = some (item, (wire item).length)
  part : ∀ {item data more}, Valid item → data ++ more = wire item →
    more ≠ [] → decode data = none

namespace Codec

variable {Valid : F → Prop} {wire : F → List B}
  {decode : List B → Option (F × Nat)}

/-- A decoder that finds the same in a longer buffer, and never more than there
is, finds nothing in a part of an item. -/
theorem of_stable (hnonempty : ∀ {item}, Valid item → wire item ≠ [])
    (hwhole : ∀ {item} rest, Valid item →
      decode (wire item ++ rest) = some (item, (wire item).length))
    (hstable : ∀ {data found size} more, decode data = some (found, size) →
      decode (data ++ more) = some (found, size))
    (hsize : ∀ {data found size}, decode data = some (found, size) →
      size ≤ data.length) : Codec Valid wire decode := by
  refine ⟨hnonempty, hwhole, ?_⟩
  intro item data more hvalid hsplit hmore
  cases hdecode : decode data with
  | none => rfl
  | some found =>
      obtain ⟨other, size⟩ := found
      have hfull := hstable more hdecode
      have hitem := hwhole [] hvalid
      rw [List.append_nil, ← hsplit, hfull] at hitem
      have hlength := congrArg (fun found => found.map Prod.snd) hitem
      have hle := hsize hdecode
      have hpos := List.length_pos_iff.mpr hmore
      simp only [Option.map_some, Option.some.injEq, List.length_append] at hlength
      omega

/-- The front of a stream is its first item, or too short for one. -/
theorem next (codec : Codec Valid wire decode) {items : List F}
    {data more : List B} (hvalid : ∀ item ∈ items, Valid item)
    (hstream : data ++ more = items.flatMap wire) :
    (∃ item rest tail, items = item :: rest ∧ data = wire item ++ tail ∧
        decode data = some (item, (wire item).length) ∧
        tail ++ more = rest.flatMap wire) ∨
      ((data ≠ [] → decode data = none) ∧ (more = [] → items = [])) := by
  cases items with
  | nil =>
      rw [List.flatMap_nil, List.append_eq_nil_iff] at hstream
      exact .inr ⟨fun hdata => absurd hstream.1 hdata, fun _ => rfl⟩
  | cons item rest =>
      have hitem := hvalid item List.mem_cons_self
      rw [List.flatMap_cons, List.append_eq_append_iff] at hstream
      obtain ⟨tail, hwire, hmore⟩ | ⟨tail, hdata, htail⟩ := hstream
      · by_cases htail : tail = []
        · subst htail
          rw [List.append_nil] at hwire
          rw [List.nil_append] at hmore
          refine .inl ⟨item, rest, [], rfl, ?_, ?_, ?_⟩
          · rw [List.append_nil, hwire]
          · have := codec.whole [] hitem
            rw [List.append_nil] at this
            rw [← hwire, this]
          · rw [List.nil_append, hmore]
        · refine .inr ⟨fun _ => codec.part hitem hwire.symm htail, ?_⟩
          intro hnil
          rw [hnil] at hmore
          exact absurd (List.append_eq_nil_iff.mp hmore.symm).1 htail
      · refine .inl ⟨item, rest, tail, rfl, hdata, ?_, htail.symm⟩
        rw [hdata]
        exact codec.whole tail hitem

end Codec

end UltraNet
