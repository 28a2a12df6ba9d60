/-
Arrays of records that are written without escapes: which of them are JSON, and say
what they should.
-/
import UltraNet.StreamNumbers
import Mathlib.Data.List.Forall2

namespace UltraNet

universe u

namespace Json

/-- What a record shows of a field. -/
inductive Shown where
  | string (text : List UInt8)
  | number (n : Written)

namespace Shown

def text : Shown → List UInt8
  | string text => 34 :: (text ++ [34])
  | number n => n.text

def json : Shown → Json
  | string text => .string text
  | number n => .number n.text

def Readable : Shown → Prop
  | string text => PlainText text
  | number n => n.isDecimal = true

variable {shown : Shown} {after left : List UInt8} {fuel : Nat} {json : Json}

theorem starts (shown : Shown) :
    ∃ byte tail, shown.text = byte :: tail ∧ isBlank byte = false := by
  cases shown with
  | string text => exact ⟨34, text ++ [34], rfl, rfl⟩
  | number n =>
      cases n with
      | decimal n =>
          show ∃ byte tail, n.text = byte :: tail ∧ isBlank byte = false
          cases htext : n.text with
          | nil =>
              have hnumber := n.isNumber_text
              rw [htext] at hnumber
              cases hnumber
          | cons byte tail =>
              have hbyte : isNumberByte byte = true :=
                Decimal.isNumberByte_text (n := n) (by rw [htext]; exact List.mem_cons_self)
              refine ⟨byte, tail, rfl, ?_⟩
              rw [Bool.eq_false_iff]
              intro hblank
              simp only [isBlank, Bool.or_eq_true, decide_eq_true_eq] at hblank
              rcases hblank with ((rfl | rfl) | rfl) | rfl
              · cases hbyte
              · cases hbyte
              · cases hbyte
              · cases hbyte
      | infinite negative =>
          cases negative with
          | true => exact ⟨45, ascii "inf", rfl, rfl⟩
          | false => exact ⟨105, ascii "nf", rfl, rfl⟩
      | nan negative =>
          cases negative with
          | true => exact ⟨45, ascii "nan", rfl, rfl⟩
          | false => exact ⟨110, ascii "an", rfl, rfl⟩

theorem text_string (text after : List UInt8) :
    (string text).text ++ after = 34 :: (text ++ 34 :: after) := by
  rw [Shown.text, List.cons_append, List.append_assoc, List.singleton_append]

theorem value_of_readable (hreadable : shown.Readable) (hafter : Ends after)
    (hfuel : (shown.text ++ after).length < fuel) :
    value fuel (shown.text ++ after) = some (shown.json, after) := by
  obtain ⟨fuel, rfl⟩ := Nat.exists_eq_succ_of_ne_zero (Nat.ne_zero_of_lt hfuel)
  cases shown with
  | string text =>
      rw [text_string, List.length_cons, List.length_append] at hfuel
      have hread : quoted fuel (text ++ 34 :: after) = some (text, after) :=
        (quoted_iff (by omega)).mpr ⟨hreadable, rfl⟩
      rw [text_string, value, if_pos rfl, hread]
      rfl
  | number n =>
      cases n with
      | decimal n => exact value_decimal n hafter fuel
      | infinite negative => cases hreadable
      | nan negative => cases hreadable

/-- A string that is read as itself, and a number that is read, are readable. -/
theorem readable_of_value (hafter : Ends after)
    (hfuel : (shown.text ++ after).length < fuel)
    (hread : value fuel (shown.text ++ after) = some (json, left))
    (hstring : ∀ text, shown = string text → json = .string text) :
    shown.Readable ∧ left = after := by
  obtain ⟨fuel, rfl⟩ := Nat.exists_eq_succ_of_ne_zero (Nat.ne_zero_of_lt hfuel)
  cases shown with
  | string text =>
      rw [text_string, List.length_cons, List.length_append] at hfuel
      rw [text_string, value, if_pos rfl] at hread
      obtain ⟨read, hquoted, hpair⟩ := Option.map_eq_some_iff.mp hread
      obtain ⟨hjson, rfl⟩ := Prod.mk.inj hpair
      have hsame : read.1 = text := by
        have heq := hjson.trans (hstring text rfl)
        cases heq
        rfl
      have hown : quoted fuel (text ++ 34 :: after) = some (text, read.2) := by
        rw [hquoted, ← hsame]
      exact (quoted_iff (by omega)).mp hown
  | number n =>
      cases hdecimal : n.isDecimal with
      | false =>
          rw [Shown.text, value_word hdecimal] at hread
          cases hread
      | true =>
          cases n with
          | decimal n =>
              rw [Shown.text, Written.text, value_decimal n hafter] at hread
              cases hread
              exact ⟨rfl, rfl⟩
          | infinite negative => cases hdecimal
          | nan negative => cases hdecimal

end Shown

structure Field where
  name : List UInt8
  shown : Shown

namespace Field

/-- The gap stands behind the colon. -/
def text (gap : List UInt8) (field : Field) : List UInt8 :=
  34 :: (field.name ++ 34 :: 58 :: (gap ++ field.shown.text))

def json (field : Field) : List UInt8 × Json := (field.name, field.shown.json)

theorem starts (gap : List UInt8) : Starts (text gap) :=
  fun _ => ⟨34, _, rfl, rfl⟩

variable {gap after : List UInt8} {field : Field} {fuel : Nat}

theorem text_append (gap : List UInt8) (field : Field) (after : List UInt8) :
    field.text gap ++ after =
      34 :: (field.name ++ 34 :: 58 :: (gap ++ (field.shown.text ++ after))) := by
  simp [text]

theorem member_text (hgap : Gap gap) (hname : PlainText field.name)
    (hfuel : (field.text gap ++ after).length < fuel) :
    member (value fuel) fuel (field.text gap ++ after) =
      (value fuel (field.shown.text ++ after)).map fun read =>
        ((field.name, read.1), read.2) := by
  obtain ⟨byte, tail, htext, hbyte⟩ := field.shown.starts
  rw [text_append] at hfuel ⊢
  rw [List.length_cons, List.length_append] at hfuel
  have hread : quoted fuel (field.name ++ 34 :: 58 ::
      (gap ++ (field.shown.text ++ after))) =
      some (field.name, 58 :: (gap ++ (field.shown.text ++ after))) :=
    (quoted_iff (by omega)).mpr ⟨hname, rfl⟩
  have hskip : skipBlank (gap ++ (field.shown.text ++ after)) = field.shown.text ++ after := by
    rw [htext, List.cons_append, skipBlank_gap_cons hgap hbyte]
  rw [member, if_pos rfl]
  simp only [hread, skipBlank_cons (show isBlank 58 = false from rfl), if_true, hskip]

end Field

/-- An object with each name once that has these strings. -/
def Shows (json : Json) (strings : List (List UInt8 × List UInt8)) : Prop :=
  ∃ members, json = .object members ∧ (members.map Prod.fst).Nodup ∧
    ∀ pair ∈ strings, (pair.1, .string pair.2) ∈ members

/-- The strings of a record. -/
def strings (fields : List Field) : List (List UInt8 × List UInt8) :=
  fields.filterMap fun field =>
    match field.shown with
    | .string text => some (field.name, text)
    | .number _ => none

theorem mem_strings {fields : List Field} {field : Field} (hfield : field ∈ fields)
    {text : List UInt8} (hshown : field.shown = .string text) :
    (field.name, text) ∈ strings fields := by
  refine List.mem_filterMap.mpr ⟨field, hfield, ?_⟩
  rw [hshown]

theorem of_mem_strings {fields : List Field} {pair : List UInt8 × List UInt8}
    (hpair : pair ∈ strings fields) :
    ∃ field ∈ fields, field.name = pair.1 ∧ field.shown = .string pair.2 := by
  obtain ⟨field, hfield, hsome⟩ := List.mem_filterMap.mp hpair
  refine ⟨field, hfield, ?_⟩
  cases hshown : field.shown with
  | string text =>
      rw [hshown] at hsome
      cases hsome
      exact ⟨rfl, rfl⟩
  | number n =>
      rw [hshown] at hsome
      cases hsome

/-- At least one field, with names of its own that need no escape. -/
structure Fields (fields : List Field) : Prop where
  some : fields ≠ []
  plain : ∀ field ∈ fields, PlainText field.name
  nodup : (fields.map Field.name).Nodup

theorem fields_of_names {fields : List Field} (names : List (List UInt8))
    (hnames : fields.map Field.name = names) (hsome : names ≠ [])
    (hplain : ∀ name ∈ names, PlainText name) (hnodup : names.Nodup) : Fields fields where
  some := by
    rintro rfl
    exact hsome hnames.symm
  plain field hfield := hplain _ (hnames ▸ List.mem_map_of_mem hfield)
  nodup := hnames.symm ▸ hnodup

def recordText (gap : List UInt8) (fields : List Field) : List UInt8 :=
  123 :: (joined (Field.text gap) gap fields ++ [125])

/-- Members in which the strings of some fields are. -/
structure Told (fields : List Field) (members : List (List UInt8 × Json)) : Prop where
  plain : ∀ field ∈ fields, PlainText field.name
  names : (fields.map Field.name).Nodup
  nodup : (members.map Prod.fst).Nodup
  strings : ∀ field ∈ fields, ∀ text, field.shown = .string text →
    (field.name, .string text) ∈ members

/-- The member of the first field has its string, and the others have those of the
other fields. -/
theorem Told.next {field : Field} {fields : List Field} {json : Json}
    {members : List (List UInt8 × Json)}
    (htold : Told (field :: fields) ((field.name, json) :: members)) :
    (∀ text, field.shown = .string text → json = .string text) ∧ Told fields members := by
  obtain ⟨hfirst, hnodup⟩ := List.nodup_cons.mp htold.nodup
  obtain ⟨hname, hnames⟩ := List.nodup_cons.mp htold.names
  refine ⟨fun text hshown => ?_,
    fun other hother => htold.plain other (List.mem_cons_of_mem _ hother), hnames, hnodup,
    fun other hother text hshown => ?_⟩
  · rcases List.mem_cons.mp (htold.strings field List.mem_cons_self text hshown) with
      heq | hmem
    · exact (Prod.mk.inj heq).2.symm
    · exact absurd (List.mem_map_of_mem (f := Prod.fst) hmem) hfirst
  · rcases List.mem_cons.mp (htold.strings other (List.mem_cons_of_mem _ hother) text hshown)
      with heq | hmem
    · have hsame : other.name = field.name := (Prod.mk.inj heq).1
      exact absurd (hsame ▸ List.mem_map_of_mem (f := Field.name) hother) hname
    · exact hmem

section Record

variable {gap after left : List UInt8} {fields : List Field} {fuel : Nat} {json : Json}

theorem recordText_append (gap : List UInt8) (fields : List Field) (after : List UInt8) :
    recordText gap fields ++ after =
      123 :: (joined (Field.text gap) gap fields ++ ([] ++ 125 :: after)) := by
  simp [recordText]

theorem joined_eq_cons (hsome : fields ≠ []) (gap after : List UInt8) :
    ∃ tail, joined (Field.text gap) gap fields ++ after = 34 :: tail := by
  cases fields with
  | nil => exact absurd rfl hsome
  | cons field fields =>
      cases fields with
      | nil => exact ⟨_, rfl⟩
      | cons next fields => exact ⟨_, rfl⟩

theorem value_record (hsome : fields ≠ []) (gap after : List UInt8) (fuel : Nat) :
    value (fuel + 1) (recordText gap fields ++ after) =
      (items (member (value fuel) fuel) 125 fuel
        (joined (Field.text gap) gap fields ++ ([] ++ 125 :: after))).map fun read =>
          (.object read.1, read.2) := by
  obtain ⟨tail, htail⟩ := joined_eq_cons hsome gap ([] ++ 125 :: after)
  rw [recordText_append, htail]
  rfl

/-- A record whose fields are readable. -/
theorem value_of_readable (hfields : Fields fields) (hgap : Gap gap)
    (hreadable : ∀ field ∈ fields, field.shown.Readable)
    (hfuel : (recordText gap fields ++ after).length < fuel) :
    value fuel (recordText gap fields ++ after) =
      some (.object (fields.map Field.json), after) := by
  obtain ⟨fuel, rfl⟩ := Nat.exists_eq_succ_of_ne_zero (Nat.ne_zero_of_lt hfuel)
  rw [recordText_append, List.length_cons] at hfuel
  have hbound := Nat.lt_of_succ_lt_succ hfuel
  have hcount := (Field.starts gap).length_le gap fields
  rw [value_record hfields.some, items_joined (Field.starts gap) (.inr rfl) hgap
    (fun byte hbyte => (by cases hbyte)) hfields.some ?_ ?_ hbound]
  · rfl
  · rw [List.length_append] at hbound
    omega
  · intro field hfield rest hrest hlength
    rw [Field.member_text hgap (hfields.plain field hfield) hlength,
      Shown.value_of_readable (hreadable field hfield) hrest ?_]
    · rfl
    · rw [Field.text_append] at hlength
      simp only [List.length_cons, List.length_append] at hlength ⊢
      omega

/-- A record that is read with its strings. -/
theorem readable_of_value (hfields : Fields fields) (hgap : Gap gap)
    (hfuel : (recordText gap fields ++ after).length < fuel)
    (hread : value fuel (recordText gap fields ++ after) = some (json, left))
    (hshows : json.Shows (strings fields)) :
    (∀ field ∈ fields, field.shown.Readable) ∧ left = after := by
  obtain ⟨fuel, rfl⟩ := Nat.exists_eq_succ_of_ne_zero (Nat.ne_zero_of_lt hfuel)
  rw [recordText_append, List.length_cons] at hfuel
  have hbound := Nat.lt_of_succ_lt_succ hfuel
  rw [value_record hfields.some] at hread
  obtain ⟨read, hitems, hpair⟩ := Option.map_eq_some_iff.mp hread
  obtain ⟨rfl, rfl⟩ := Prod.mk.inj hpair
  obtain ⟨members, hmembers, hnodup, hstrings⟩ := hshows
  cases hmembers
  refine items_own (Q := Told) (Field.starts gap) (.inr rfl) hgap
    (fun byte hbyte => (by cases hbyte)) hfields.some ?_ hbound hitems
    ⟨hfields.plain, hfields.nodup, hnodup,
      fun field hfield text hshown => hstrings _ (mem_strings hfield hshown)⟩
  intro field fields first others rest left hrest hlength hmember htold
  rw [Field.member_text hgap (htold.plain field List.mem_cons_self) hlength] at hmember
  obtain ⟨read, hvalue, hpair⟩ := Option.map_eq_some_iff.mp hmember
  obtain ⟨rfl, rfl⟩ := Prod.mk.inj hpair
  obtain ⟨hstring, hothers⟩ := htold.next
  have hshort : (field.shown.text ++ rest).length < fuel := by
    rw [Field.text_append] at hlength
    simp only [List.length_cons, List.length_append] at hlength ⊢
    omega
  obtain ⟨hreadable, hleft⟩ := Shown.readable_of_value hrest hshort hvalue hstring
  exact ⟨hreadable, hleft, hothers⟩

end Record

/-- A text that is an array of objects with these strings. -/
def ArrayOf (text : List UInt8) (rows : List (List (List UInt8 × List UInt8))) : Prop :=
  ∃ objects, parse text = some (.array objects) ∧
    List.Forall₂ (fun row json => json.Shows row) rows objects

section Rows

variable {gap sep : List UInt8} {rows : List (List Field)}

theorem recordText_starts (gap : List UInt8) : Starts (recordText gap) :=
  fun _ => ⟨123, _, rfl, rfl⟩

/-- Rows in brackets, with something behind the last of them. -/
def arrayText (gap sep : List UInt8) (rows : List (List Field)) (behind : List UInt8) :
    List UInt8 :=
  91 :: (sep ++ (joined (recordText gap) sep rows ++ behind))

theorem joined_rows_eq_cons (hrows : rows ≠ []) (gap sep behind : List UInt8) :
    ∃ tail, joined (recordText gap) sep rows ++ behind = 123 :: tail := by
  cases rows with
  | nil => exact absurd rfl hrows
  | cons row rows =>
      cases rows with
      | nil => exact ⟨_, rfl⟩
      | cons next rows => exact ⟨_, rfl⟩

theorem value_array (hrows : rows ≠ []) (hsep : Gap sep) (gap behind : List UInt8)
    (fuel : Nat) :
    value (fuel + 1) (arrayText gap sep rows behind) =
      (items (value fuel) 93 fuel (joined (recordText gap) sep rows ++ behind)).map
        fun read => (.array read.1, read.2) := by
  obtain ⟨tail, htail⟩ := joined_rows_eq_cons hrows gap sep behind
  rw [arrayText, htail]
  have hbracketed : bracketed (value fuel) 93 fuel (sep ++ 123 :: tail) =
      items (value fuel) 93 fuel (123 :: tail) := by
    rw [bracketed, skipBlank_gap_cons hsep (show isBlank 123 = false from rfl)]
    rfl
  rw [← hbracketed]
  rfl

/-- The rest of a text is blank behind its array. -/
theorem parse_array (hrows : rows ≠ []) (hsep : Gap sep) (gap behind : List UInt8)
    (objects : List Json) :
    parse (arrayText gap sep rows behind) = some (.array objects) ↔
      ∃ left, items (value (arrayText gap sep rows behind).length) 93
          (arrayText gap sep rows behind).length
          (joined (recordText gap) sep rows ++ behind) = some (objects, left) ∧
        skipBlank left = [] := by
  have hskip : skipBlank (arrayText gap sep rows behind) = arrayText gap sep rows behind :=
    skipBlank_cons rfl _
  rw [parse, hskip, value_array hrows hsep]
  constructor
  · intro hparse
    split at hparse
    · cases hparse
    rename_i json left hread
    obtain ⟨read, hitems, hpair⟩ := Option.map_eq_some_iff.mp hread
    obtain ⟨rfl, rfl⟩ := Prod.mk.inj hpair
    split at hparse
    · rename_i hleft
      cases hparse
      exact ⟨_, hitems, hleft⟩
    · cases hparse
  · rintro ⟨left, hitems, hleft⟩
    rw [hitems]
    simp only [Option.map_some, hleft, if_true]

theorem length_lt_arrayText (gap sep behind : List UInt8) (rows : List (List Field)) :
    (joined (recordText gap) sep rows ++ behind).length <
      (arrayText gap sep rows behind).length := by
  simp only [arrayText, List.length_cons, List.length_append]
  omega

/-- Rows with their strings, whose fields are named as they should be. -/
structure RowsTold (rows : List (List Field)) (objects : List Json) : Prop where
  fields : ∀ row ∈ rows, Fields row
  shows : List.Forall₂ (fun row json => json.Shows row) (rows.map strings) objects

theorem RowsTold.next {row : List Field} {object : Json} {objects : List Json}
    (htold : RowsTold (row :: rows) (object :: objects)) :
    object.Shows (strings row) ∧ RowsTold rows objects := by
  obtain ⟨hfirst, hothers⟩ := List.forall₂_cons.mp htold.shows
  exact ⟨hfirst, fun other hother => htold.fields other (List.mem_cons_of_mem _ hother),
    hothers⟩

/-- Rows are the array they should be just if all their fields are readable. -/
theorem arrayOf_iff (hrows : rows ≠ []) (hsep : Gap sep) (hgap : Gap gap)
    (hfields : ∀ row ∈ rows, Fields row) :
    ArrayOf (arrayText gap sep rows ([10] ++ 93 :: [10])) (rows.map strings) ↔
      ∀ row ∈ rows, ∀ field ∈ row, field.shown.Readable := by
  have hlast : Gap [10] := by
    intro byte hbyte
    rw [List.mem_singleton.mp hbyte]
    rfl
  have hbound := length_lt_arrayText gap sep ([10] ++ 93 :: [10]) rows
  constructor
  · rintro ⟨objects, hparse, hshows⟩
    obtain ⟨left, hitems, -⟩ := (parse_array hrows hsep gap _ objects).mp hparse
    refine (items_own (Q := RowsTold) (recordText_starts gap) (.inl rfl) hsep hlast hrows
      ?_ hbound hitems ⟨hfields, hshows⟩).1
    intro row rows first others after left hafter hlength hvalue htold
    obtain ⟨hfirst, hothers⟩ := htold.next
    obtain ⟨hreadable, hleft⟩ := readable_of_value (htold.fields row List.mem_cons_self)
      hgap hlength hvalue hfirst
    exact ⟨hreadable, hleft, hothers⟩
  · intro hreadable
    refine ⟨rows.map fun row => .object (row.map Field.json), ?_, ?_⟩
    · refine (parse_array hrows hsep gap _ _).mpr ⟨[10], ?_, rfl⟩
      refine items_joined (recordText_starts gap) (.inl rfl) hsep hlast hrows ?_ ?_ hbound
      · have hcount := (recordText_starts gap).length_le sep rows
        rw [List.length_append] at hbound
        omega
      · intro row hrow after hafter hlength
        exact value_of_readable (hfields row hrow) hgap (hreadable row hrow) hlength
    · rw [List.forall₂_map_left_iff, List.forall₂_map_right_iff, List.forall₂_same]
      intro row hrow
      refine ⟨row.map Field.json, rfl, ?_, fun pair hpair => ?_⟩
      · rw [List.map_map]
        exact (hfields row hrow).nodup
      · obtain ⟨field, hfield, hname, hshown⟩ := of_mem_strings hpair
        refine List.mem_map.mpr ⟨field, hfield, ?_⟩
        rw [Field.json, hname, hshown]
        rfl

/-- With a comma behind the last row a text is no array of the rows. -/
theorem not_arrayOf_comma {row : List Field} (hfields : Fields row) (hgap : Gap gap)
    (hsep : Gap sep) :
    ¬ ArrayOf (arrayText gap sep [row] (44 :: 10 :: 93 :: [10])) [strings row] := by
  rintro ⟨objects, hparse, hshows⟩
  obtain ⟨left, hitems, -⟩ := (parse_array (List.cons_ne_nil _ _) hsep gap _ objects).mp hparse
  have hbound := length_lt_arrayText gap sep (44 :: 10 :: 93 :: [10]) [row]
  generalize (arrayText gap sep [row] (44 :: 10 :: 93 :: [10])).length = fuel at hitems hbound
  obtain ⟨fuel, rfl⟩ := Nat.exists_eq_succ_of_ne_zero (Nat.ne_zero_of_lt hbound)
  obtain ⟨first, after, others, hfirst, rfl⟩ := items_first hitems
  rw [joined] at hitems hfirst hbound
  have hvalue := hfirst
  rw [(recordText_starts gap).skip] at hvalue
  obtain ⟨hshown, -⟩ := List.forall₂_cons.mp hshows
  obtain ⟨-, rfl⟩ := readable_of_value hfields hgap hbound hvalue hshown
  rw [items_step hfirst (skipBlank_cons rfl _), if_neg (by decide), if_pos rfl] at hitems
  obtain ⟨read, hrest, -⟩ := Option.map_eq_some_iff.mp hitems
  cases fuel with
  | zero => cases hrest
  | succ fuel => cases hrest

end Rows

end Json

end UltraNet
