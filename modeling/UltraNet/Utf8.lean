/-
Rows of bytes that are UTF-8.  A byte below 128 is a character of its own, wherever
it stands.
-/
import Mathlib.Data.List.Basic

namespace UltraNet

/-- The bytes of some row of characters. -/
def Utf8 (bytes : List UInt8) : Prop := bytes.toByteArray.IsValidUTF8

instance (bytes : List UInt8) : Decidable (Utf8 bytes) :=
  inferInstanceAs (Decidable bytes.toByteArray.IsValidUTF8)

namespace Utf8

theorem iff_exists {bytes : List UInt8} :
    Utf8 bytes ↔ ∃ m : List Char, bytes = m.flatMap String.utf8EncodeChar := by
  constructor
  · rintro ⟨m, hm⟩
    refine ⟨m, ?_⟩
    have hdata := congrArg (fun array => array.data.toList) hm
    simpa [List.utf8Encode, List.data_toByteArray] using hdata
  · rintro ⟨m, rfl⟩
    exact ⟨m, rfl⟩

/-- Texts can be joined. -/
theorem append {front rest : List UInt8} (hfront : Utf8 front) (hrest : Utf8 rest) :
    Utf8 (front ++ rest) := by
  unfold Utf8 at hfront hrest ⊢
  rw [List.toByteArray_append]
  exact hfront.append hrest

theorem nil : Utf8 [] := iff_exists.mpr ⟨[], rfl⟩

theorem of_char (c : Char) : Utf8 (String.utf8EncodeChar c) :=
  iff_exists.mpr ⟨[c], by rw [List.flatMap_singleton]⟩

/-- ASCII is UTF-8. -/
theorem of_lt {byte : UInt8} (hbyte : byte < 128) : Utf8 [byte] := by
  have hlt : byte.toNat < 128 := hbyte
  have hvalue : (Char.ofNat byte.toNat).val.toNat = byte.toNat := by
    rw [Char.ofNat, dif_pos (.inl (by omega))]
    rfl
  have hrow : String.utf8EncodeChar (Char.ofNat byte.toNat) = [byte] := by
    rw [String.utf8EncodeChar, hvalue, if_pos (by omega), UInt8.ofNat_toNat]
  rw [← hrow]
  exact of_char _

theorem of_forall_lt {bytes : List UInt8} (hbytes : ∀ byte ∈ bytes, byte < 128) :
    Utf8 bytes := by
  induction bytes with
  | nil => exact nil
  | cons byte bytes ih =>
      exact (of_lt (hbytes byte List.mem_cons_self)).append
        (ih fun other hother => hbytes other (List.mem_cons_of_mem _ hother))

theorem isFirst_of_lt {byte : UInt8} (hbyte : byte < 128) : byte.IsUTF8FirstByte := by
  have hall : ∀ bits : BitVec 8, bits < 128 → bits &&& 128 = 0 := by decide
  exact .inl (UInt8.toBitVec_inj.mp (hall byte.toBitVec hbyte))

/-- In the bytes of a character only the first can be below 128. -/
theorem eq_nil_of_append {c : Char} {front rest : List UInt8} {byte : UInt8}
    (hchar : String.utf8EncodeChar c = front ++ byte :: rest) (hbyte : byte < 128) :
    front = [] := by
  have hindex : front.length < (String.utf8EncodeChar c).length := by
    rw [hchar, List.length_append, List.length_cons]
    omega
  have hget : (String.utf8EncodeChar c)[front.length] = byte := by
    simp [hchar]
  have hfirst := isFirst_of_lt hbyte
  rw [← hget, UInt8.isUTF8FirstByte_getElem_utf8EncodeChar] at hfirst
  exact List.length_eq_zero_iff.mp hfirst

/-- What stands before bytes below 128 is UTF-8 by itself. -/
theorem of_append {front rest : List UInt8} (hall : Utf8 (front ++ rest))
    (hrest : ∀ byte ∈ rest, byte < 128) : Utf8 front := by
  obtain ⟨m, hm⟩ := iff_exists.mp hall
  induction m generalizing front with
  | nil =>
      obtain ⟨rfl, -⟩ := List.append_eq_nil_iff.mp hm
      exact nil
  | cons c m ih =>
      rw [List.flatMap_cons] at hm
      rcases List.append_eq_append_iff.mp hm with ⟨more, hchar, hmore⟩ | ⟨more, rfl, hmore⟩
      · cases more with
        | nil =>
            rw [List.append_nil] at hchar
            rw [← hchar]
            exact of_char c
        | cons byte more =>
            rw [eq_nil_of_append hchar (hrest byte (by rw [hmore]; exact List.mem_cons_self))]
            exact nil
      · have hlater : Utf8 (more ++ rest) := hmore ▸ iff_exists.mpr ⟨m, rfl⟩
        exact (of_char c).append (ih hlater hmore.symm)

end Utf8

end UltraNet
