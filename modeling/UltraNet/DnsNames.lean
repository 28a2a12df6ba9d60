/-
Names in a DNS response: when decoding one ends, and that it gives back what
`encode_name` wrote, also through a compression pointer.
-/
import UltraNet.Dns

namespace UltraNet

namespace Dns

section Termination

variable {buf : List UInt8} {offset : Nat}

/-- The offset that `decode_name` looks at after this one, if it goes on: behind
a label, or where a pointer leads. -/
def nextOffset (buf : List UInt8) (offset : Nat) : Option Nat :=
  match buf[offset]? with
  | none => none
  | some len =>
      if len = 0 then none
      else if len &&& 0xC0 = 0xC0 then
        (buf[offset + 1]?).map (pointerTarget len)
      else if offset + 1 + len.toNat > buf.length then none
      else some (offset + 1 + len.toNat)

/-- A name whose labels and pointers lead back to an offset they came from. -/
def Circular (buf : List UInt8) (offset : Nat) : Prop :=
  Loop.Revisits (nextOffset buf) offset

theorem nextOffset_eq (buf : List UInt8) (scan : NameScan) :
    nextOffset buf scan.offset =
      (nameStep buf scan).elim (some ∘ NameScan.offset) fun _ => none := by
  unfold nextOffset nameStep
  cases buf[scan.offset]? with
  | none => rfl
  | some len =>
      simp only
      split
      · rfl
      · split
        · cases buf[scan.offset + 1]? with
          | none => rfl
          | some low => rfl
        · split
          · rfl
          · rfl

theorem nextOffset_lt (hnext : nextOffset buf offset ≠ none) : offset < buf.length := by
  by_contra hend
  exact hnext (by rw [nextOffset, List.getElem?_eq_none (Nat.not_lt.mp hend)])

theorem decodeName_isSome_iff (fuel : Nat) (buf : List UInt8) (offset : Nat) :
    (decodeName fuel buf offset).isSome = true ↔
      Loop.follow (nextOffset buf) fuel offset = none := by
  rw [decodeName, Option.isSome_map]
  exact Loop.run_isSome_iff NameScan.offset (nextOffset_eq buf) fuel (.start offset)

/-- `decode_name` returns just when the name is not circular. -/
theorem decodeName_halts_iff (buf : List UInt8) (offset : Nat) :
    (∃ fuel, (decodeName fuel buf offset).isSome = true) ↔ ¬ Circular buf offset := by
  simp only [decodeName_isSome_iff]
  refine ⟨?_, ?_⟩
  · rintro ⟨fuel, hnone⟩
    exact Loop.not_revisits_of_none hnone
  · exact Loop.none_of_not_revisits id (fun _ _ heq => heq) fun _ hnext =>
      nextOffset_lt hnext

/-- The offset behind a name: behind its end or its first pointer. -/
def nameEnd (buf : List UInt8) (offset : Nat) : Nat :=
  match _hbyte : buf[offset]? with
  | none => offset
  | some len =>
      if len = 0 then offset + 1
      else if len &&& 0xC0 = 0xC0 then
        if offset + 1 < buf.length then offset + 2 else offset
      else if offset + 1 + len.toNat > buf.length then offset
      else nameEnd buf (offset + 1 + len.toNat)
termination_by buf.length - offset
decreasing_by
  have := (List.getElem?_eq_some_iff.mp _hbyte).1
  omega

/-- Where `decode_name` will leave its offset. -/
def NameScan.behind (buf : List UInt8) (scan : NameScan) : Nat :=
  if scan.jumped then scan.origOffset else nameEnd buf scan.offset

theorem behind_last {scan last : NameScan} (hstep : nameStep buf scan = .inr last) :
    last.result.2 = scan.behind buf := by
  obtain ⟨offset, name, jumped, origOffset⟩ := scan
  unfold nameStep at hstep
  cases jumped with
  | true =>
      repeat' split at hstep
      all_goals cases hstep
      all_goals rfl
  | false =>
      simp only [NameScan.behind, Bool.false_eq_true, if_false]
      rw [nameEnd]
      split
      · rename_i hbyte
        simp only [hbyte, Sum.inr.injEq] at hstep
        subst hstep
        rfl
      · rename_i len hbyte
        simp only [hbyte] at hstep
        split at hstep
        · rename_i hzero
          rw [if_pos hzero]
          cases hstep
          rfl
        · rename_i hzero
          rw [if_neg hzero]
          split at hstep
          · rename_i hpointer
            rw [if_pos hpointer]
            split at hstep
            · rename_i hlow
              cases hstep
              rw [if_neg (Nat.not_lt.mpr (List.getElem?_eq_none_iff.mp hlow))]
              rfl
            · cases hstep
          · rename_i hlabel
            rw [if_neg hlabel]
            split at hstep
            · rename_i hlong
              cases hstep
              rw [if_pos hlong]
              rfl
            · cases hstep

theorem behind_next {scan next : NameScan} (hstep : nameStep buf scan = .inl next) :
    next.behind buf = scan.behind buf := by
  obtain ⟨offset, name, jumped, origOffset⟩ := scan
  unfold nameStep at hstep
  split at hstep
  · cases hstep
  · rename_i len hbyte
    split at hstep
    · cases hstep
    · rename_i hzero
      split at hstep
      · rename_i hpointer
        split at hstep
        · cases hstep
        · rename_i low hlow
          cases hstep
          cases jumped with
          | true => rfl
          | false =>
              have hinside := (List.getElem?_eq_some_iff.mp hlow).1
              simp only [NameScan.behind, Bool.false_eq_true, if_false, if_true]
              rw [nameEnd]
              split
              · rename_i hnone
                rw [hnone] at hbyte
                cases hbyte
              · rename_i found hsome
                rw [hsome, Option.some.injEq] at hbyte
                subst hbyte
                rw [if_neg hzero, if_pos hpointer, if_pos hinside]
      · rename_i hlabel
        split at hstep
        · cases hstep
        · rename_i hfits
          cases hstep
          cases jumped with
          | true => rfl
          | false =>
              simp only [NameScan.behind, Bool.false_eq_true, if_false]
              conv_rhs => rw [nameEnd]
              split
              · rename_i hnone
                rw [hnone] at hbyte
                cases hbyte
              · rename_i found hsome
                rw [hsome, Option.some.injEq] at hbyte
                subst hbyte
                rw [if_neg hzero, if_neg hlabel, if_neg hfits]

theorem run_snd {fuel : Nat} {scan last : NameScan}
    (hrun : Loop.run (nameStep buf) fuel scan = some last) :
    last.result.2 = scan.behind buf := by
  induction fuel generalizing scan with
  | zero => cases hrun
  | succ fuel ih =>
      rw [Loop.run] at hrun
      cases hstep : nameStep buf scan with
      | inr result =>
          rw [hstep, Option.some.injEq] at hrun
          subst hrun
          exact behind_last hstep
      | inl next =>
          rw [hstep] at hrun
          rw [ih hrun, behind_next hstep]

/-- A name that is decoded leaves the offset behind it. -/
theorem decodeName_snd {fuel : Nat} {name : List UInt8} {behind : Nat}
    (hdecode : decodeName fuel buf offset = some (name, behind)) :
    behind = nameEnd buf offset := by
  obtain ⟨last, hrun, heq⟩ := Option.map_eq_some_iff.mp hdecode
  have hbehind := run_snd hrun
  rw [heq] at hbehind
  exact hbehind

end Termination

section Responses

variable {α : Type} {response : List UInt8}

/-- The offsets at which the answer loop decodes names: those of the answers,
and what `targets` has for an answer that is read. -/
def answerNames (least : Nat) (targets : Nat → Nat → Nat → List Nat)
    (response : List UInt8) : Nat → Nat → List Nat
  | 0, _ => []
  | count + 1, off =>
      if off + least ≤ response.length then
        let behind := nameEnd response off
        let rdlen := readU16 response (behind + 8)
        off ::
          if behind + 10 > response.length ∨ behind + 10 + rdlen > response.length then []
          else
            targets (readU16 response behind) rdlen (behind + 10) ++
              answerNames least targets response count (behind + 10 + rdlen)
      else []

/-- The offsets at which names are decoded in a response. -/
def responseNames (least : Nat) (targets : Nat → Nat → Nat → List Nat)
    (response : List UInt8) : List Nat :=
  if response.length < 12 ∨ readU16 response 6 = 0 then []
  else
    12 :: answerNames least targets response (readU16 response 6)
      (nameEnd response 12 + 4)

/-- Every name of the list ends within `fuel` rounds. -/
def EndWithin (response : List UInt8) (fuel : Nat) (names : List Nat) : Prop :=
  ∀ offset ∈ names, Loop.follow (nextOffset response) fuel offset = none

theorem endWithin_nil (response : List UInt8) (fuel : Nat) : EndWithin response fuel [] := by
  intro offset hmem
  cases hmem

theorem endWithin_cons {fuel offset : Nat} {names : List Nat} :
    EndWithin response fuel (offset :: names) ↔
      (decodeName fuel response offset).isSome = true ∧
        EndWithin response fuel names := by
  rw [EndWithin, List.forall_mem_cons, decodeName_isSome_iff]
  exact Iff.rfl

theorem endWithin_append {fuel : Nat} {names others : List Nat} :
    EndWithin response fuel (names ++ others) ↔
      EndWithin response fuel names ∧ EndWithin response fuel others := by
  rw [EndWithin, List.forall_mem_append]
  exact Iff.rfl

/-- Finitely many names end within a common number of rounds. -/
theorem exists_endWithin_iff (names : List Nat) :
    (∃ fuel, EndWithin response fuel names) ↔
      ∀ offset ∈ names, ¬ Circular response offset := by
  refine ⟨?_, fun hnames => ?_⟩
  · rintro ⟨fuel, hend⟩ offset hmem
    exact Loop.not_revisits_of_none (hend offset hmem)
  · induction names with
    | nil => exact ⟨0, endWithin_nil response 0⟩
    | cons offset names ih =>
        obtain ⟨hfirst, hothers⟩ := List.forall_mem_cons.mp hnames
        obtain ⟨fuel, hend⟩ := ih hothers
        obtain ⟨rounds, hrounds⟩ := (decodeName_halts_iff response offset).mpr hfirst
        rw [decodeName_isSome_iff] at hrounds
        refine ⟨fuel + rounds, List.forall_mem_cons.mpr ⟨?_, ?_⟩⟩
        · exact Loop.follow_none hrounds (Nat.le_add_left ..)
        · exact fun other hother =>
            Loop.follow_none (hend other hother) (Nat.le_add_right ..)

variable {least : Nat} {record : Nat → Nat → Nat → Option (List α)}
  {targets : Nat → Nat → Nat → List Nat} {fuel : Nat}

theorem answers_isSome_iff
    (hrecord : ∀ rtype rdlen off, (record rtype rdlen off).isSome = true ↔
      EndWithin response fuel (targets rtype rdlen off)) (count off : Nat) :
    (answers least record fuel response count off).isSome = true ↔
      EndWithin response fuel (answerNames least targets response count off) := by
  induction count generalizing off with
  | zero => simp [answers, answerNames, EndWithin]
  | succ count ih =>
      rw [answers, answerNames]
      by_cases hleast : off + least ≤ response.length
      · rw [if_pos hleast, if_pos hleast, endWithin_cons]
        cases hdecode : decodeName fuel response off with
        | none => simp
        | some found =>
            obtain ⟨name, behind⟩ := found
            obtain rfl := decodeName_snd hdecode
            simp only [Option.isSome_some, true_and]
            by_cases hshort : nameEnd response off + 10 > response.length
            · rw [if_pos hshort, if_pos (.inl hshort)]
              simp [endWithin_nil]
            · rw [if_neg hshort]
              by_cases hlong : nameEnd response off + 10 +
                  readU16 response (nameEnd response off + 8) > response.length
              · rw [if_pos hlong, if_pos (.inr hlong)]
                simp [endWithin_nil]
              · rw [if_neg hlong, if_neg (not_or.mpr ⟨hshort, hlong⟩), endWithin_append,
                  ← hrecord, ← ih]
                cases record (readU16 response (nameEnd response off))
                    (readU16 response (nameEnd response off + 8))
                    (nameEnd response off + 10) with
                | none => simp
                | some kept => simp
      · rw [if_neg hleast, if_neg hleast]
        simp [endWithin_nil]

theorem readResponse_isSome_iff
    (hrecord : ∀ rtype rdlen off, (record rtype rdlen off).isSome = true ↔
      EndWithin response fuel (targets rtype rdlen off)) :
    (readResponse least record fuel response).isSome = true ↔
      EndWithin response fuel (responseNames least targets response) := by
  rw [readResponse, responseNames]
  by_cases hshort : response.length < 12
  · rw [if_pos hshort, if_pos (.inl hshort)]
    simp [endWithin_nil]
  · by_cases hzero : readU16 response 6 = 0
    · rw [if_neg hshort, if_pos hzero, if_pos (.inr hzero)]
      simp [endWithin_nil]
    · rw [if_neg hshort, if_neg hzero, if_neg (not_or.mpr ⟨hshort, hzero⟩),
        endWithin_cons]
      cases hdecode : decodeName fuel response 12 with
      | none => simp
      | some found =>
          obtain ⟨name, behind⟩ := found
          obtain rfl := decodeName_snd hdecode
          simp only [Option.isSome_some, true_and]
          exact answers_isSome_iff hrecord _ _

/-- `resolve_host` decodes no name but those of the question and the answers. -/
def hostNames (response : List UInt8) : List Nat :=
  responseNames 12 (fun _ _ _ => []) response

/-- `resolve_srv` decodes the target of a service record, too. -/
def srvNames (response : List UInt8) : List Nat :=
  responseNames 10 (fun rtype rdlen off => if rtype = 33 ∧ 6 ≤ rdlen then [off + 6] else [])
    response

theorem resolveHost_isSome_iff (fuel : Nat) (response : List UInt8) :
    (resolveHost fuel response).isSome = true ↔
      EndWithin response fuel (hostNames response) := by
  refine readResponse_isSome_iff fun rtype rdlen off => ?_
  unfold hostRecord
  split
  · simp [endWithin_nil]
  · simp [endWithin_nil]

theorem resolveSrv_isSome_iff (fuel : Nat) (response : List UInt8) :
    (resolveSrv fuel response).isSome = true ↔
      EndWithin response fuel (srvNames response) := by
  refine readResponse_isSome_iff fun rtype rdlen off => ?_
  unfold srvRecord
  split
  · rw [endWithin_cons, Option.isSome_map]
    simp [endWithin_nil]
  · simp [endWithin_nil]

/-- Decoding a name returns just when it is not circular, and a response is read
to its end just when none of the names decoded on the way is. -/
theorem name_decoding_halts_iff (buf : List UInt8) :
    (∀ offset, (∃ fuel, (decodeName fuel buf offset).isSome = true) ↔
      ¬ Circular buf offset) ∧
    ((∃ fuel, (resolveHost fuel buf).isSome = true) ↔
      ∀ offset ∈ hostNames buf, ¬ Circular buf offset) ∧
    ((∃ fuel, (resolveSrv fuel buf).isSome = true) ↔
      ∀ offset ∈ srvNames buf, ¬ Circular buf offset) := by
  refine ⟨decodeName_halts_iff buf, ?_, ?_⟩
  · simp only [resolveHost_isSome_iff]
    exact exists_endWithin_iff _
  · simp only [resolveSrv_isSome_iff]
    exact exists_endWithin_iff _

/-- A response with one answer whose question is a pointer to itself. -/
def selfPointer : List UInt8 :=
  [0x1A, 0x2B, 0x81, 0x80, 0, 1, 0, 1, 0, 0, 0, 0, 0xC0, 0x0C, 0, 1, 0, 1]

theorem name_decoding_loops :
    ¬ (∃ fuel, (decodeName fuel selfPointer 12).isSome = true) ∧
    ¬ (∃ fuel, (resolveHost fuel selfPointer).isSome = true) ∧
    ¬ (∃ fuel, (resolveSrv fuel selfPointer).isSome = true) := by
  have hcircular : Circular selfPointer 12 := ⟨0, 1, 12, by decide, rfl, by decide⟩
  simp only [decodeName_isSome_iff, resolveHost_isSome_iff, resolveSrv_isSome_iff]
  refine ⟨?_, ?_, ?_⟩
  · rintro ⟨fuel, hnone⟩
    exact Loop.not_revisits_of_none hnone hcircular
  · rintro ⟨fuel, hend⟩
    exact Loop.not_revisits_of_none (hend 12 List.mem_cons_self) hcircular
  · rintro ⟨fuel, hend⟩
    exact Loop.not_revisits_of_none (hend 12 List.mem_cons_self) hcircular

end Responses

section RoundTrip

variable {buf label rest : List UInt8} {labels : List (List UInt8)}

/-- A label as the protocol has it, without a dot. -/
structure IsLabel (label : List UInt8) : Prop where
  nonempty : label ≠ []
  short : label.length ≤ 63
  no_dot : 46 ∉ label

/-- The labels of a name on the wire. -/
def labelsText (labels : List (List UInt8)) : List UInt8 :=
  labels.flatMap fun label => UInt8.ofNat label.length :: label

theorem encodeLabels_cons (hrest : rest ≠ []) :
    encodeLabels rest =
      UInt8.ofNat (min (rest.takeWhile (· ≠ 46)).length 63) ::
        ((rest.takeWhile (· ≠ 46)).take (min (rest.takeWhile (· ≠ 46)).length 63) ++
          encodeLabels (rest.drop ((rest.takeWhile (· ≠ 46)).length + 1))) := by
  obtain ⟨byte, tail, rfl⟩ := List.exists_cons_of_ne_nil hrest
  rw [encodeLabels]

theorem encodeLabels_label (hlabel : IsLabel label)
    (hrest : rest = [] ∨ ∃ more, rest = 46 :: more) :
    encodeLabels (label ++ rest) =
      UInt8.ofNat label.length :: (label ++ encodeLabels (rest.drop 1)) := by
  have hbytes : ∀ byte ∈ label, (decide (byte ≠ 46)) = true := fun byte hbyte =>
    decide_eq_true fun heq => hlabel.no_dot (heq ▸ hbyte)
  have htake : (label ++ rest).takeWhile (· ≠ 46) = label := by
    rw [List.takeWhile_append_of_pos hbytes]
    obtain rfl | ⟨more, rfl⟩ := hrest
    · simp
    · simp
  rw [encodeLabels_cons (by simp [hlabel.nonempty]), htake,
    Nat.min_eq_left hlabel.short, List.take_length, ← List.drop_drop, List.drop_left]

/-- The name of some labels with dots between them. -/
def joined (labels : List (List UInt8)) : List UInt8 :=
  [46].intercalate labels

theorem joined_cons (label : List UInt8) (hlabels : labels ≠ []) :
    joined (label :: labels) = label ++ 46 :: joined labels := by
  obtain ⟨second, others, rfl⟩ := List.exists_cons_of_ne_nil hlabels
  simp [joined, List.intercalate, List.intersperse]

theorem encodeName_joined (hlabels : ∀ label ∈ labels, IsLabel label) :
    encodeName (joined labels) = labelsText labels ++ [0] := by
  rw [encodeName]
  induction labels with
  | nil =>
      rw [show joined [] = [] from rfl, encodeLabels]
      rfl
  | cons label labels ih =>
      obtain ⟨hlabel, hothers⟩ := List.forall_mem_cons.mp hlabels
      have htext : labelsText (label :: labels) ++ [0] =
          UInt8.ofNat label.length :: (label ++ (labelsText labels ++ [0])) := by
        simp [labelsText]
      rw [htext, ← ih hothers]
      by_cases hlast : labels = []
      · subst hlast
        have hone : joined [label] = label ++ [] := by simp [joined, List.intercalate]
        rw [hone, encodeLabels_label hlabel (.inl rfl)]
        rfl
      · rw [joined_cons label hlast, encodeLabels_label hlabel (.inr ⟨_, rfl⟩)]
        rfl

/-- The labels of a name after what is there already. -/
theorem foldl_appendLabel {name : List UInt8} (hname : name ≠ []) (labels : List (List UInt8)) :
    labels.foldl appendLabel name = name ++ labels.flatMap (46 :: ·) := by
  induction labels generalizing name with
  | nil => simp
  | cons label labels ih =>
      have hnext : appendLabel name label = name ++ 46 :: label := by
        rw [appendLabel, if_neg hname]
        simp
      rw [List.foldl_cons, hnext, ih (by simp)]
      simp

theorem joined_eq_foldl (hlabels : ∀ label ∈ labels, IsLabel label) :
    joined labels = labels.foldl appendLabel [] := by
  cases labels with
  | nil => rfl
  | cons label labels =>
      have hlabel := (hlabels label List.mem_cons_self).nonempty
      have hfirst : appendLabel [] label = label := by simp [appendLabel]
      rw [List.foldl_cons, hfirst, foldl_appendLabel hlabel]
      clear hlabels hfirst hlabel
      induction labels generalizing label with
      | nil => simp [joined, List.intercalate]
      | cons second labels ih =>
          rw [joined_cons label (by simp), ih second]
          simp

theorem label_length_byte {n : Nat} (hpos : 0 < n) (hn : n ≤ 63) :
    UInt8.ofNat n ≠ 0 ∧ UInt8.ofNat n &&& 0xC0 ≠ 0xC0 ∧ (UInt8.ofNat n).toNat = n := by
  have hall : ∀ m : Fin 64, UInt8.ofNat m &&& 0xC0 ≠ 0xC0 := by decide
  have hvalue : (UInt8.ofNat n).toNat = n := by
    rw [UInt8.toNat_ofNat']
    exact Nat.mod_eq_of_lt (by omega)
  refine ⟨fun hzero => ?_, hall ⟨n, by omega⟩, hvalue⟩
  rw [hzero] at hvalue
  exact absurd hvalue (by simp; omega)

/-- The loop over the labels of a name, from wherever it comes there. -/
theorem returns_labels (hlabels : ∀ label ∈ labels, IsLabel label) {offset : Nat}
    (hbuf : buf.drop offset = labelsText labels ++ 0 :: rest) (name : List UInt8)
    (jumped : Bool) (origOffset : Nat) :
    Loop.Returns (nameStep buf) ⟨offset, name, jumped, origOffset⟩
      ⟨offset + (labelsText labels).length + if jumped then 0 else 1,
        labels.foldl appendLabel name, jumped, origOffset⟩ := by
  induction labels generalizing offset name with
  | nil =>
      have hbyte : buf[offset]? = some 0 := by
        rw [← List.head?_drop, hbuf]
        rfl
      refine Loop.returns_last ?_
      rw [nameStep]
      simp only [hbyte, if_true]
      cases jumped with
      | true => rfl
      | false => rfl
  | cons label labels ih =>
      obtain ⟨hlabel, hothers⟩ := List.forall_mem_cons.mp hlabels
      have hdrop : buf.drop offset = UInt8.ofNat label.length ::
          (label ++ (labelsText labels ++ 0 :: rest)) := by
        rw [hbuf]
        simp [labelsText]
      have hbyte : buf[offset]? = some (UInt8.ofNat label.length) := by
        rw [← List.head?_drop, hdrop]
        rfl
      have hbehind : buf.drop (offset + 1) = label ++ (labelsText labels ++ 0 :: rest) := by
        rw [← List.drop_drop, hdrop]
        rfl
      have hnext : buf.drop (offset + 1 + label.length) =
          labelsText labels ++ 0 :: rest := by
        rw [← List.drop_drop, hbehind, List.drop_left]
      have hsize := congrArg List.length hbehind
      simp only [List.length_drop, List.length_append, List.length_cons] at hsize
      obtain ⟨hzero, hpointer, hvalue⟩ := label_length_byte
        (List.length_pos_iff.mpr hlabel.nonempty) hlabel.short
      have hstep : nameStep buf ⟨offset, name, jumped, origOffset⟩ =
          .inl ⟨offset + 1 + label.length, appendLabel name label, jumped,
            origOffset⟩ := by
        rw [nameStep]
        simp only [hbyte]
        rw [if_neg hzero, if_neg hpointer, hvalue, if_neg (by omega), hbehind,
          List.take_left]
      rw [Loop.returns_next hstep]
      have hrest := ih hothers hnext (appendLabel name label)
      have hlength : offset + (labelsText (label :: labels)).length =
          offset + 1 + label.length + (labelsText labels).length := by
        simp only [labelsText, List.flatMap_cons, List.length_append, List.length_cons]
        omega
      rw [hlength]
      exact hrest

/-- `decode_name` returns this name and leaves this offset. -/
def DecodesTo (buf : List UInt8) (offset : Nat) (result : List UInt8 × Nat) : Prop :=
  ∃ fuel, decodeName fuel buf offset = some result

theorem decodesTo_of_returns {offset : Nat} {last : NameScan}
    (hreturns : Loop.Returns (nameStep buf) (.start offset) last) :
    DecodesTo buf offset last.result := by
  obtain ⟨fuel, hrun⟩ := hreturns
  exact ⟨fuel, by rw [decodeName, hrun]; rfl⟩

/-- A compression pointer to an offset below 2^14. -/
def pointerTo (offset : Nat) : List UInt8 :=
  [UInt8.ofNat (192 + offset / 256), UInt8.ofNat (offset % 256)]

theorem pointerTarget_pointerTo {offset : Nat} (hoffset : offset < 2 ^ 14) :
    UInt8.ofNat (192 + offset / 256) ≠ 0 ∧
      UInt8.ofNat (192 + offset / 256) &&& 0xC0 = 0xC0 ∧
      pointerTarget (UInt8.ofNat (192 + offset / 256)) (UInt8.ofNat (offset % 256)) =
        offset := by
  have hall : ∀ m : Fin 64, UInt8.ofNat (192 + m) ≠ 0 ∧
      UInt8.ofNat (192 + m) &&& 0xC0 = 0xC0 ∧
      (UInt8.ofNat (192 + m) &&& 0x3F).toNat = m := by
    decide
  obtain ⟨hzero, hpointer, hhigh⟩ := hall ⟨offset / 256, by omega⟩
  refine ⟨hzero, hpointer, ?_⟩
  have hlow : (UInt8.ofNat (offset % 256)).toNat = offset % 256 := by
    rw [UInt8.toNat_ofNat']
    exact Nat.mod_eq_of_lt (by omega)
  rw [pointerTarget, hlow]
  simp only at hhigh
  rw [hhigh]
  omega

/-- A name is decoded where it was encoded, and through a pointer to it from
anywhere behind. -/
theorem name_round_trip {labels : List (List UInt8)}
    (hlabels : ∀ label ∈ labels, IsLabel label) (front behind : List UInt8) :
    DecodesTo (front ++ encodeName (joined labels) ++ behind) front.length
        (joined labels, front.length + (encodeName (joined labels)).length) ∧
      ∀ before after, behind = before ++ pointerTo front.length ++ after →
        front.length < 2 ^ 14 →
          DecodesTo (front ++ encodeName (joined labels) ++ behind)
            (front.length + (encodeName (joined labels)).length + before.length)
            (joined labels,
              front.length + (encodeName (joined labels)).length + before.length + 2) := by
  have hdrop : (front ++ encodeName (joined labels) ++ behind).drop front.length =
      labelsText labels ++ 0 :: behind := by
    rw [List.append_assoc, List.drop_left, encodeName_joined hlabels]
    simp
  have hlength : (encodeName (joined labels)).length = (labelsText labels).length + 1 := by
    rw [encodeName_joined hlabels, List.length_append]
    rfl
  refine ⟨?_, ?_⟩
  · have hdecodes := decodesTo_of_returns (returns_labels hlabels hdrop [] false _)
    rw [NameScan.result, ← joined_eq_foldl hlabels] at hdecodes
    rw [hlength, ← Nat.add_assoc]
    exact hdecodes
  · rintro before after rfl hfront
    generalize hbuf : front ++ encodeName (joined labels) ++
      (before ++ pointerTo front.length ++ after) = buf at hdrop ⊢
    generalize hpos : front.length + (encodeName (joined labels)).length + before.length =
      position
    have hpointer : buf.drop position = UInt8.ofNat (192 + front.length / 256) ::
        UInt8.ofNat (front.length % 256) :: after := by
      have hsplit : buf = (front ++ encodeName (joined labels) ++ before) ++
          (pointerTo front.length ++ after) := by
        rw [← hbuf]
        simp
      rw [hsplit, ← hpos, ← List.length_append, ← List.length_append, List.drop_left]
      rfl
    have hfirst : buf[position]? = some (UInt8.ofNat (192 + front.length / 256)) := by
      rw [← List.head?_drop, hpointer]
      rfl
    have hsecond : buf[position + 1]? = some (UInt8.ofNat (front.length % 256)) := by
      rw [← List.head?_drop, ← List.drop_drop, hpointer]
      rfl
    obtain ⟨hzero, hmask, htarget⟩ := pointerTarget_pointerTo hfront
    have hstep : nameStep buf (.start position) =
        .inl ⟨front.length, [], true, position + 2⟩ := by
      rw [nameStep, NameScan.start]
      simp only [hfirst, hsecond]
      rw [if_neg hzero, if_pos hmask, htarget]
      rfl
    have hreturns := (Loop.returns_next hstep).mpr
      (returns_labels hlabels hdrop [] true (position + 2))
    have hdecodes := decodesTo_of_returns hreturns
    rw [NameScan.result, ← joined_eq_foldl hlabels] at hdecodes
    exact hdecodes

/-- `www.ab` behind two bytes, and a pointer to it. -/
theorem name_round_trip_www :
    DecodesTo ([7, 7] ++ encodeName (joined [ascii "www", ascii "ab"]) ++ [9, 0xC0, 2])
      11 (ascii "www.ab", 13) := by
  have hlabels : ∀ label ∈ [ascii "www", ascii "ab"], IsLabel label := by
    rw [List.forall_mem_cons, List.forall_mem_singleton]
    exact ⟨⟨by decide, by decide, by decide⟩, by decide, by decide, by decide⟩
  have hpointer := (name_round_trip hlabels [7, 7] [9, 0xC0, 2]).2 [9] [] rfl (by decide)
  rw [encodeName_joined hlabels] at hpointer ⊢
  exact hpointer

end RoundTrip

end Dns

end UltraNet
