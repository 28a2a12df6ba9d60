/-
JSON texts as bytes.  The reader takes what the grammar derives and nothing else; the
fuel is more than the bytes that are left.
-/
import UltraNet.Digits
import UltraNet.Lines
import UltraNet.Utf8
import Mathlib.Data.List.TakeWhile

namespace UltraNet

universe u

/-- A number is its text, and a string the bytes of its characters. -/
inductive Json where
  | null
  | bool (value : Bool)
  | number (text : List UInt8)
  | string (text : List UInt8)
  | array (elements : List Json)
  | object (members : List (List UInt8 × Json))

namespace Json

def isBlank (byte : UInt8) : Bool := byte = 32 || byte = 9 || byte = 10 || byte = 13

def skipBlank (text : List UInt8) : List UInt8 := text.dropWhile isBlank

/-- The bytes that stand for themselves in a string. -/
def isPlain (byte : UInt8) : Bool := 32 ≤ byte && byte ≠ 34 && byte ≠ 92

def simpleEscape (byte : UInt8) : Option UInt8 :=
  if byte = 34 ∨ byte = 92 ∨ byte = 47 then some byte
  else if byte = 98 then some 8
  else if byte = 102 then some 12
  else if byte = 110 then some 10
  else if byte = 114 then some 13
  else if byte = 116 then some 9
  else none

def hexDigit (byte : UInt8) : Option Nat :=
  if 48 ≤ byte ∧ byte ≤ 57 then some (byte.toNat - 48)
  else if 65 ≤ byte ∧ byte ≤ 70 then some (byte.toNat - 55)
  else if 97 ≤ byte ∧ byte ≤ 102 then some (byte.toNat - 87)
  else none

/-- Four hexadecimal digits. -/
def hexUnit : List UInt8 → Option (Nat × List UInt8)
  | a :: b :: c :: d :: rest =>
      match hexDigit a, hexDigit b, hexDigit c, hexDigit d with
      | some a, some b, some c, some d => some (((a * 16 + b) * 16 + c) * 16 + d, rest)
      | _, _, _, _ => none
  | _ => none

/-- The second half of a surrogate pair. -/
def lowSurrogate : List UInt8 → Option (Nat × List UInt8)
  | 92 :: 117 :: rest =>
      (hexUnit rest).filter fun read => 0xDC00 ≤ read.1 && read.1 < 0xE000
  | _ => none

/-- What `\u` stands for; half of a pair alone stands for U+FFFD. -/
def unicodeEscape (text : List UInt8) : Option (List UInt8 × List UInt8) :=
  match hexUnit text with
  | none => none
  | some (unit, rest) =>
      if unit < 0xD800 ∨ 0xE000 ≤ unit then
        some (String.utf8EncodeChar (Char.ofNat unit), rest)
      else
        match if unit < 0xDC00 then lowSurrogate rest else none with
        | some (low, rest) =>
            some (String.utf8EncodeChar
              (Char.ofNat (0x10000 + (unit - 0xD800) * 0x400 + (low - 0xDC00))), rest)
        | none => some (String.utf8EncodeChar (Char.ofNat 0xFFFD), rest)

/-- What comes behind a backslash. -/
def escape : List UInt8 → Option (List UInt8 × List UInt8)
  | [] => none
  | byte :: rest =>
      if byte = 117 then unicodeEscape rest
      else (simpleEscape byte).map fun byte => ([byte], rest)

/-- The bytes of a string up to its closing quote. -/
def stringTail : Nat → List UInt8 → Option (List UInt8 × List UInt8)
  | 0, _ => none
  | _ + 1, [] => none
  | fuel + 1, byte :: rest =>
      if byte = 34 then some ([], rest)
      else if byte = 92 then
        match escape rest with
        | none => none
        | some (bytes, rest) =>
            (stringTail fuel rest).map fun read => (bytes ++ read.1, read.2)
      else if isPlain byte then
        (stringTail fuel rest).map fun read => (byte :: read.1, read.2)
      else none

/-- A string behind its opening quote.  Outside of strings a text has bytes below 128
only, so that it is UTF-8 if its strings are. -/
def quoted (fuel : Nat) (text : List UInt8) : Option (List UInt8 × List UInt8) :=
  (stringTail fuel text).filter fun read => decide (Utf8 read.1)

/-- What is behind a row of at least one digit. -/
def afterDigits : List UInt8 → Option (List UInt8)
  | [] => none
  | byte :: rest => if isDigit byte then some (rest.dropWhile isDigit) else none

def isExponent : List UInt8 → Bool
  | [] => true
  | [_] => false
  | byte :: sign :: rest =>
      (byte = 101 || byte = 69) &&
        afterDigits (if sign = 43 ∨ sign = 45 then rest else sign :: rest) = some []

def isFraction : List UInt8 → Bool
  | [] => true
  | byte :: rest =>
      if byte = 46 then (afterDigits rest).any isExponent else isExponent (byte :: rest)

def isUnsigned : List UInt8 → Bool
  | [] => false
  | byte :: rest =>
      if byte = 48 then isFraction rest else (afterDigits (byte :: rest)).any isFraction

def isNumber : List UInt8 → Bool
  | [] => false
  | byte :: rest => if byte = 45 then isUnsigned rest else isUnsigned (byte :: rest)

/-- The bytes of which numbers consist. -/
def isNumberByte (byte : UInt8) : Bool :=
  isDigit byte || byte = 43 || byte = 45 || byte = 46 || byte = 69 || byte = 101

def numeral (text : List UInt8) : Option (Json × List UInt8) :=
  if isNumber (text.takeWhile isNumberByte) then
    some (.number (text.takeWhile isNumberByte), text.dropWhile isNumberByte)
  else none

def literal (word : List UInt8) (json : Json) (text : List UInt8) :
    Option (Json × List UInt8) :=
  (text.dropPrefix? word).map fun rest => (json, rest)

section Items

variable {A : Type u}

/-- At least one item, each but the last with a comma behind it. -/
def items (item : List UInt8 → Option (A × List UInt8)) (close : UInt8) :
    Nat → List UInt8 → Option (List A × List UInt8)
  | 0, _ => none
  | fuel + 1, text =>
      match item (skipBlank text) with
      | none => none
      | some (first, rest) =>
          match skipBlank rest with
          | [] => none
          | byte :: rest =>
              if byte = close then some ([first], rest)
              else if byte = 44 then
                (items item close fuel rest).map fun read => (first :: read.1, read.2)
              else none

def bracketed (item : List UInt8 → Option (A × List UInt8)) (close : UInt8) (fuel : Nat)
    (text : List UInt8) : Option (List A × List UInt8) :=
  match skipBlank text with
  | [] => none
  | byte :: rest =>
      if byte = close then some ([], rest) else items item close fuel (byte :: rest)

end Items

/-- A name, a colon and a value. -/
def member (value : List UInt8 → Option (Json × List UInt8)) (fuel : Nat) :
    List UInt8 → Option ((List UInt8 × Json) × List UInt8)
  | [] => none
  | byte :: rest =>
      if byte = 34 then
        match quoted fuel rest with
        | none => none
        | some (name, rest) =>
            match skipBlank rest with
            | [] => none
            | byte :: rest =>
                if byte = 58 then
                  (value (skipBlank rest)).map fun read => ((name, read.1), read.2)
                else none
      else none

def value : Nat → List UInt8 → Option (Json × List UInt8)
  | 0, _ => none
  | _ + 1, [] => none
  | fuel + 1, byte :: rest =>
      if byte = 34 then (quoted fuel rest).map fun read => (.string read.1, read.2)
      else if byte = 91 then
        (bracketed (value fuel) 93 fuel rest).map fun read => (.array read.1, read.2)
      else if byte = 123 then
        (bracketed (member (value fuel) fuel) 125 fuel rest).map fun read =>
          (.object read.1, read.2)
      else if byte = 116 then literal (ascii "true") (.bool true) (byte :: rest)
      else if byte = 102 then literal (ascii "false") (.bool false) (byte :: rest)
      else if byte = 110 then literal (ascii "null") .null (byte :: rest)
      else numeral (byte :: rest)

/-- The value of a whole text. -/
def parse (text : List UInt8) : Option Json :=
  match value (text.length + 1) (skipBlank text) with
  | none => none
  | some (json, rest) => if skipBlank rest = [] then some json else none

theorem hexUnit_eq_some {text rest : List UInt8} {unit : Nat}
    (hread : hexUnit text = some (unit, rest)) :
    ∃ digits, text = digits ++ rest ∧ digits.length = 4 ∧ 34 ∉ digits := by
  have hdigit : ∀ {byte : UInt8} {n : Nat}, hexDigit byte = some n → byte ≠ 34 := by
    rintro byte n hbyte rfl
    cases hbyte
  unfold hexUnit at hread
  split at hread
  · rename_i a b c d more
    split at hread
    · rename_i ha hb hc hd
      obtain rfl := congrArg Prod.snd (Option.some.inj hread)
      refine ⟨[a, b, c, d], rfl, rfl, ?_⟩
      simp [(hdigit ha).symm, (hdigit hb).symm, (hdigit hc).symm, (hdigit hd).symm]
    · cases hread
  · cases hread

theorem lowSurrogate_eq_some {text rest : List UInt8} {unit : Nat}
    (hread : lowSurrogate text = some (unit, rest)) :
    ∃ digits, text = digits ++ rest ∧ digits.length = 6 ∧ 34 ∉ digits := by
  unfold lowSurrogate at hread
  split at hread
  · obtain ⟨hunit, -⟩ := Option.filter_eq_some_iff.mp hread
    obtain ⟨digits, rfl, hlength, hquote⟩ := hexUnit_eq_some hunit
    refine ⟨92 :: 117 :: digits, rfl, by rw [List.length_cons, List.length_cons, hlength], ?_⟩
    simp [hquote]
  · cases hread

/-- An escape has at least as many bytes as it stands for, and only one has a quote. -/
theorem escape_eq_some {text bytes rest : List UInt8}
    (hread : escape text = some (bytes, rest)) :
    ∃ written, text = written ++ rest ∧ bytes.length ≤ written.length ∧
      (34 ∈ written → bytes = [34]) := by
  have hsize : ∀ c : Char, (String.utf8EncodeChar c).length ≤ 4 := by
    intro c
    rw [String.length_utf8EncodeChar]
    exact c.utf8Size_le_four
  cases text with
  | nil => cases hread
  | cons byte text =>
      rw [escape] at hread
      split at hread
      · rename_i hbyte
        subst hbyte
        unfold unicodeEscape at hread
        split at hread
        · cases hread
        · rename_i unit more hunit
          obtain ⟨digits, rfl, hlength, hquote⟩ := hexUnit_eq_some hunit
          have halone : ∀ c : Char, some (String.utf8EncodeChar c, more) = some (bytes, rest) →
              ∃ written, 117 :: (digits ++ more) = written ++ rest ∧
                bytes.length ≤ written.length ∧ (34 ∈ written → bytes = [34]) := by
            intro c hsome
            cases hsome
            have hle := hsize c
            refine ⟨117 :: digits, rfl, by rw [List.length_cons]; omega, fun hmem => ?_⟩
            simp [hquote] at hmem
          split at hread
          · exact halone _ hread
          · split at hread
            · rename_i low after hlow
              obtain ⟨rfl, rfl⟩ := Prod.mk.inj (Option.some.inj hread)
              split at hlow
              · obtain ⟨pair, rfl, hpair, hpairQuote⟩ := lowSurrogate_eq_some hlow
                refine ⟨117 :: (digits ++ pair), by simp, ?_, fun hmem => ?_⟩
                · have hle := hsize (Char.ofNat
                    (0x10000 + (unit - 0xD800) * 0x400 + (low - 0xDC00)))
                  rw [List.length_cons, List.length_append]
                  omega
                · simp [hquote, hpairQuote] at hmem
              · cases hlow
            · exact halone _ hread
      · obtain ⟨other, hother, hpair⟩ := Option.map_eq_some_iff.mp hread
        cases hpair
        refine ⟨[byte], rfl, Nat.le_refl 1, fun hmem => ?_⟩
        obtain rfl := List.mem_singleton.mp hmem
        cases hother
        rfl

/-- An escape before a closing quote is that of a quote, or ends before it. -/
theorem escape_inside {own rest bytes after : List UInt8}
    (hread : escape (own ++ 34 :: rest) = some (bytes, after)) :
    bytes = [34] ∨ ∃ written own', own = written ++ own' ∧ after = own' ++ 34 :: rest ∧
      bytes.length ≤ written.length ∧ 34 ∉ written := by
  obtain ⟨written, hwritten, hlength, hquoted⟩ := escape_eq_some hread
  by_cases hquote : 34 ∈ written
  · exact .inl (hquoted hquote)
  · right
    rcases List.append_eq_append_iff.mp hwritten with
      ⟨beyond, rfl, hbeyond⟩ | ⟨own', rfl, hafter⟩
    · cases beyond with
      | nil => exact ⟨own, [], by simp, by simpa using hbeyond.symm, by simpa using hlength,
          by simpa using hquote⟩
      | cons first beyond =>
          obtain rfl : 34 = first := (List.cons.inj hbeyond).1
          exact absurd (List.mem_append_right _ List.mem_cons_self) hquote
    · exact ⟨written, own', rfl, hafter, hlength, hquote⟩

/-- What is read as itself, with bytes in front that the reader is ahead by, has
nothing in front and nothing to escape. -/
def ReadsOwn (fuel : Nat) (rest more : List UInt8) : Prop :=
  ∀ {shift own : List UInt8},
    stringTail fuel (own ++ 34 :: rest) = some (shift ++ own, more) → 34 ∉ shift →
    shift = [] ∧ (∀ byte ∈ own, isPlain byte = true) ∧ more = rest

variable {fuel : Nat} {rest more : List UInt8}

/-- The reader does not get ahead. -/
theorem ReadsOwn.not_ahead (hreads : ReadsOwn fuel rest more)
    {front own bytes read : List UInt8}
    (htail : stringTail fuel (own ++ 34 :: rest) = some (read, more))
    (hsame : front ++ own = bytes ++ read) (hshorter : bytes.length < front.length)
    (hfront : 34 ∉ front) : False := by
  have hread : read = front.drop bytes.length ++ own := by
    have hdrop := congrArg (List.drop bytes.length) hsame
    rw [List.drop_left, List.drop_append_of_le_length hshorter.le] at hdrop
    exact hdrop.symm
  rw [hread] at htail
  obtain ⟨hnil, -⟩ := hreads htail fun hmem => hfront (List.mem_of_mem_drop hmem)
  exact absurd (List.drop_eq_nil_iff.mp hnil) (Nat.not_le.mpr hshorter)

/-- A backslash puts the reader ahead. -/
theorem ReadsOwn.not_escape (hreads : ReadsOwn fuel rest more)
    {shift own bytes after read : List UInt8}
    (hescape : escape (own ++ 34 :: rest) = some (bytes, after))
    (htail : stringTail fuel after = some (read, more))
    (hall : bytes ++ read = shift ++ 92 :: own) (hshift : 34 ∉ shift) : False := by
  rcases escape_inside hescape with rfl | ⟨written, own', rfl, rfl, hlength, hwritten⟩
  · -- an escaped quote is not what stands there
    cases shift with
    | nil => cases hall
    | cons first shift =>
        obtain rfl : 34 = first := (List.cons.inj hall).1
        exact hshift List.mem_cons_self
  · have hsame : (shift ++ 92 :: written) ++ own' = bytes ++ read := by
      rw [hall, List.append_assoc, List.cons_append]
    refine hreads.not_ahead htail hsame ?_ ?_
    · rw [List.length_append, List.length_cons]
      omega
    · intro hmem
      rcases List.mem_append.mp hmem with hold | hnew
      · exact hshift hold
      · rcases List.mem_cons.mp hnew with heq | hnew
        · cases heq
        · exact hwritten hnew

/-- If a string that stands between quotes as it is is read as itself, then it has
nothing to escape. -/
theorem readsOwn (fuel : Nat) (rest more : List UInt8) : ReadsOwn fuel rest more := by
  induction fuel with
  | zero =>
      intro shift own hread
      cases hread
  | succ fuel ih =>
      intro shift own hread hshift
      cases own with
      | nil =>
          rw [List.nil_append, List.append_nil, stringTail, if_pos rfl] at hread
          cases hread
          exact ⟨rfl, fun byte hbyte => (by cases hbyte), rfl⟩
      | cons byte own =>
          rw [List.cons_append, stringTail] at hread
          split at hread
          · have hempty := congrArg (fun read => read.1.length) (Option.some.inj hread)
            simp at hempty
          split at hread
          · rename_i hquote hslash
            subst hslash
            split at hread
            · cases hread
            rename_i bytes after hescape
            obtain ⟨read, htail, hpair⟩ := Option.map_eq_some_iff.mp hread
            obtain ⟨hall, rfl⟩ := Prod.mk.inj hpair
            exact (ih.not_escape hescape htail hall hshift).elim
          split at hread
          · rename_i hquote hslash hplain
            obtain ⟨read, htail, hpair⟩ := Option.map_eq_some_iff.mp hread
            obtain ⟨hall, rfl⟩ := Prod.mk.inj hpair
            cases shift with
            | nil =>
                obtain ⟨-, hown⟩ := List.cons.inj hall
                have hagain : stringTail fuel (own ++ 34 :: rest) = some ([] ++ own, read.2) := by
                  rw [htail, List.nil_append, ← hown]
                obtain ⟨-, hrest, hmore⟩ := ih hagain hshift
                exact ⟨rfl, List.forall_mem_cons.mpr ⟨hplain, hrest⟩, hmore⟩
            | cons first shift =>
                have hsame : ((first :: shift) ++ [byte]) ++ own = [byte] ++ read.1 := by
                  rw [List.append_assoc]
                  exact hall.symm
                refine (ih.not_ahead htail hsame (by simp) fun hmem => ?_).elim
                rcases List.mem_append.mp hmem with hold | hnew
                · exact hshift hold
                · exact hquote (List.mem_singleton.mp hnew).symm
          · cases hread

/-- Nothing in the text needs an escape. -/
structure PlainText (text : List UInt8) : Prop where
  utf8 : Utf8 text
  plain : ∀ byte ∈ text, isPlain byte = true

instance (text : List UInt8) : Decidable (PlainText text) :=
  decidable_of_iff (Utf8 text ∧ text.all isPlain = true)
    ⟨fun hplain => ⟨hplain.1, List.all_eq_true.mp hplain.2⟩,
      fun hplain => ⟨hplain.utf8, List.all_eq_true.mpr hplain.plain⟩⟩

/-- Bytes below 128 behind a text do not make it less plain. -/
theorem plainText_append {front rest : List UInt8}
    (hrest : ∀ byte ∈ rest, byte < 128 ∧ isPlain byte = true) :
    PlainText (front ++ rest) ↔ PlainText front := by
  constructor
  · rintro ⟨hutf8, hplain⟩
    exact ⟨hutf8.of_append fun byte hbyte => (hrest byte hbyte).1,
      fun byte hbyte => hplain byte (List.mem_append_left _ hbyte)⟩
  · rintro ⟨hutf8, hplain⟩
    refine ⟨hutf8.append (Utf8.of_forall_lt fun byte hbyte => (hrest byte hbyte).1),
      fun byte hbyte => ?_⟩
    rcases List.mem_append.mp hbyte with hfront | hbehind
    · exact hplain byte hfront
    · exact (hrest byte hbehind).2

theorem stringTail_plain {fuel : Nat} {own rest : List UInt8}
    (hplain : ∀ byte ∈ own, isPlain byte = true) (hfuel : own.length < fuel) :
    stringTail fuel (own ++ 34 :: rest) = some (own, rest) := by
  induction own generalizing fuel with
  | nil =>
      obtain ⟨fuel, rfl⟩ := Nat.exists_eq_succ_of_ne_zero (Nat.ne_of_gt hfuel)
      rw [List.nil_append, stringTail, if_pos rfl]
  | cons byte own ih =>
      obtain ⟨fuel, rfl⟩ := Nat.exists_eq_succ_of_ne_zero (Nat.ne_zero_of_lt hfuel)
      have hbyte := hplain byte List.mem_cons_self
      have hother : byte ≠ 34 ∧ byte ≠ 92 := by
        simp only [isPlain, Bool.and_eq_true, decide_eq_true_eq] at hbyte
        exact ⟨hbyte.1.2, hbyte.2⟩
      rw [List.cons_append, stringTail, if_neg hother.1, if_neg hother.2, if_pos hbyte,
        ih (fun other hmem => hplain other (List.mem_cons_of_mem _ hmem))
          (Nat.lt_of_succ_lt_succ hfuel)]
      rfl

theorem quoted_iff {fuel : Nat} {own rest more : List UInt8} (hfuel : own.length < fuel) :
    quoted fuel (own ++ 34 :: rest) = some (own, more) ↔ PlainText own ∧ more = rest := by
  rw [quoted, Option.filter_eq_some_iff, decide_eq_true_eq]
  constructor
  · rintro ⟨hread, hutf8⟩
    have hown : stringTail fuel (own ++ 34 :: rest) = some ([] ++ own, more) := hread
    obtain ⟨-, hplain, hmore⟩ := readsOwn fuel rest more hown List.not_mem_nil
    exact ⟨⟨hutf8, hplain⟩, hmore⟩
  · rintro ⟨⟨hutf8, hplain⟩, rfl⟩
    exact ⟨stringTail_plain hplain hfuel, hutf8⟩

theorem skipBlank_cons {byte : UInt8} (hbyte : isBlank byte = false) (rest : List UInt8) :
    skipBlank (byte :: rest) = byte :: rest := by
  rw [skipBlank, List.dropWhile_cons, hbyte]
  rfl

/-- Spaces and line feeds. -/
def Gap (gap : List UInt8) : Prop := ∀ byte ∈ gap, isBlank byte = true

instance (gap : List UInt8) : Decidable (Gap gap) :=
  decidable_of_iff (gap.all isBlank = true) List.all_eq_true

theorem skipBlank_append {gap : List UInt8} (hgap : Gap gap) (rest : List UInt8) :
    skipBlank (gap ++ rest) = skipBlank rest :=
  List.dropWhile_append_of_pos hgap

theorem skipBlank_gap_cons {gap : List UInt8} (hgap : Gap gap) {byte : UInt8}
    (hbyte : isBlank byte = false) (rest : List UInt8) :
    skipBlank (gap ++ byte :: rest) = byte :: rest := by
  rw [skipBlank_append hgap, skipBlank_cons hbyte]

section Items

variable {A T : Type u} {item : List UInt8 → Option (A × List UInt8)} {close : UInt8}
  {fuel : Nat} {write : T → List UInt8} {gap last rest more : List UInt8}

/-- Texts with a comma behind each but the last. -/
def joined (write : T → List UInt8) (gap : List UInt8) : List T → List UInt8
  | [] => []
  | [t] => write t
  | t :: next :: ts => write t ++ 44 :: (gap ++ joined write gap (next :: ts))

theorem items_gap (hgap : Gap gap) (fuel : Nat) (text : List UInt8) :
    items item close fuel (gap ++ text) = items item close fuel text := by
  cases fuel with
  | zero => rfl
  | succ fuel => rw [items, items, skipBlank_append hgap]

/-- An item and what decides how it goes on. -/
theorem items_step {first : A} {text after : List UInt8} {byte : UInt8}
    (hitem : item (skipBlank text) = some (first, after))
    (hafter : skipBlank after = byte :: more) :
    items item close (fuel + 1) text =
      if byte = close then some ([first], more)
      else if byte = 44 then
        (items item close fuel more).map fun read => (first :: read.1, read.2)
      else none := by
  rw [items]
  simp only [hitem, hafter]

/-- What is read in an item, if anything is. -/
theorem items_first {text : List UInt8} {all : List A}
    (hread : items item close (fuel + 1) text = some (all, more)) :
    ∃ first after others, item (skipBlank text) = some (first, after) ∧
      all = first :: others := by
  rw [items] at hread
  split at hread
  · cases hread
  rename_i first after hitem
  refine ⟨first, after, ?_⟩
  split at hread
  · cases hread
  split at hread
  · cases hread
    exact ⟨[], hitem, rfl⟩
  split at hread
  · obtain ⟨read, -, hpair⟩ := Option.map_eq_some_iff.mp hread
    cases hpair
    exact ⟨read.1, hitem, rfl⟩
  · cases hread

/-- What stands behind an item does not go on with a number. -/
def Ends (text : List UInt8) : Prop :=
  ∃ byte rest, text = byte :: rest ∧ isNumberByte byte = false

theorem ends_gap_cons (hlast : Gap last) {byte : UInt8} (hbyte : isNumberByte byte = false)
    (rest : List UInt8) : Ends (last ++ byte :: rest) := by
  cases last with
  | nil => exact ⟨byte, rest, rfl, hbyte⟩
  | cons first last =>
      refine ⟨first, last ++ byte :: rest, rfl, ?_⟩
      have hblank := hlast first List.mem_cons_self
      simp only [isBlank, Bool.or_eq_true, decide_eq_true_eq] at hblank
      rcases hblank with ((rfl | rfl) | rfl) | rfl
      · rfl
      · rfl
      · rfl
      · rfl

def Starts (write : T → List UInt8) : Prop :=
  ∀ t, ∃ byte tail, write t = byte :: tail ∧ isBlank byte = false

theorem Starts.skip (hstarts : Starts write) (t : T) (after : List UInt8) :
    skipBlank (write t ++ after) = write t ++ after := by
  obtain ⟨byte, tail, hwrite, hbyte⟩ := hstarts t
  rw [hwrite, List.cons_append, skipBlank_cons hbyte]

theorem Starts.length_le (hstarts : Starts write) (gap : List UInt8) (ts : List T) :
    ts.length ≤ (joined write gap ts).length := by
  have hpos : ∀ t, 1 ≤ (write t).length := by
    intro t
    obtain ⟨byte, tail, hwrite, -⟩ := hstarts t
    rw [hwrite]
    exact Nat.succ_pos _
  induction ts with
  | nil => exact Nat.le_refl 0
  | cons t ts ih =>
      cases ts with
      | nil => exact hpos t
      | cons next ts =>
          have hfirst := hpos t
          rw [joined, List.length_append, List.length_cons (a := t), List.length_cons (a := 44),
            List.length_append]
          omega

variable {bound : Nat} {value : T → A} {ts : List T}

theorem blank_close (hclose : close = 93 ∨ close = 125) :
    isBlank close = false ∧ isNumberByte close = false ∧ (44 : UInt8) ≠ close := by
  rcases hclose with rfl | rfl
  · decide
  · decide

theorem length_behind {front text : List UInt8} {byte : UInt8}
    (hbound : (front ++ byte :: (gap ++ text)).length < bound) : text.length < bound := by
  simp only [List.length_append, List.length_cons] at hbound
  omega

/-- Items that are all read as they should. -/
theorem items_joined (hstarts : Starts write) (hclose : close = 93 ∨ close = 125)
    (hgap : Gap gap) (hlast : Gap last) (hts : ts ≠ []) (hcount : ts.length ≤ fuel)
    (hread : ∀ t ∈ ts, ∀ after, Ends after → (write t ++ after).length < bound →
      item (write t ++ after) = some (value t, after))
    (hbound : (joined write gap ts ++ (last ++ close :: rest)).length < bound) :
    items item close fuel (joined write gap ts ++ (last ++ close :: rest)) =
      some (ts.map value, rest) := by
  obtain ⟨hblank, hnumber, hcomma⟩ := blank_close hclose
  induction ts generalizing fuel with
  | nil => exact absurd rfl hts
  | cons t ts ih =>
      obtain ⟨fuel, rfl⟩ := Nat.exists_eq_add_of_le' (Nat.le_of_add_left_le hcount)
      have hitem := hread t List.mem_cons_self
      cases ts with
      | nil =>
          rw [joined] at hbound ⊢
          rw [items_step (by rw [hstarts.skip, hitem _ (ends_gap_cons hlast hnumber rest) hbound])
            (skipBlank_gap_cons hlast hblank rest), if_pos rfl]
          rfl
      | cons next ts =>
          rw [joined, List.append_assoc, List.cons_append, List.append_assoc] at hbound ⊢
          have hshort := length_behind hbound
          rw [items_step (by rw [hstarts.skip, hitem _ ⟨44, _, rfl, by decide⟩ hbound])
            (skipBlank_cons (by decide) _), if_neg hcomma, if_pos rfl, items_gap hgap,
            ih (List.cons_ne_nil _ _) (Nat.le_of_succ_le_succ hcount)
              (fun other hmem => hread other (List.mem_cons_of_mem _ hmem)) hshort]
          rfl

/-- Items that are read as `Q` says: each is as it should be, and nothing is left
of them.  Of the first item `Q` says what it should be, and of the others itself. -/
theorem items_own {Q : List T → List A → Prop} {ok : T → Prop} {all : List A}
    (hstarts : Starts write) (hclose : close = 93 ∨ close = 125) (hgap : Gap gap)
    (hlast : Gap last) (hts : ts ≠ [])
    (hnext : ∀ t ts first others after left, Ends after →
      (write t ++ after).length < bound → item (write t ++ after) = some (first, left) →
      Q (t :: ts) (first :: others) → ok t ∧ left = after ∧ Q ts others)
    (hbound : (joined write gap ts ++ (last ++ close :: rest)).length < bound)
    (hread : items item close fuel (joined write gap ts ++ (last ++ close :: rest)) =
      some (all, more)) (hall : Q ts all) : (∀ t ∈ ts, ok t) ∧ more = rest := by
  obtain ⟨hblank, hnumber, hcomma⟩ := blank_close hclose
  induction ts generalizing fuel all with
  | nil => exact absurd rfl hts
  | cons t ts ih =>
      cases fuel with
      | zero => cases hread
      | succ fuel =>
          obtain ⟨first, left, others, hitem, rfl⟩ := items_first hread
          cases ts with
          | nil =>
              rw [joined] at hbound hread hitem
              have hskip := hitem
              rw [hstarts.skip] at hskip
              obtain ⟨hok, rfl, -⟩ := hnext t [] first others _ left
                (ends_gap_cons hlast hnumber rest) hbound hskip hall
              rw [items_step hitem (skipBlank_gap_cons hlast hblank rest), if_pos rfl] at hread
              cases hread
              refine ⟨fun other hother => ?_, rfl⟩
              rw [List.mem_singleton.mp hother]
              exact hok
          | cons next ts =>
              rw [joined, List.append_assoc, List.cons_append, List.append_assoc]
                at hbound hread hitem
              have hskip := hitem
              rw [hstarts.skip] at hskip
              obtain ⟨hok, rfl, hothers⟩ := hnext t (next :: ts) first others _ left
                ⟨44, _, rfl, by decide⟩ hbound hskip hall
              have hshort := length_behind hbound
              rw [items_step hitem (skipBlank_cons (by decide) _), if_neg hcomma, if_pos rfl,
                items_gap hgap] at hread
              obtain ⟨read, hrest, hpair⟩ := Option.map_eq_some_iff.mp hread
              obtain ⟨hsame, rfl⟩ := Prod.mk.inj hpair
              obtain rfl := (List.cons.inj hsame).2
              obtain ⟨hall, hmore⟩ := ih (List.cons_ne_nil _ _) hshort hrest hothers
              refine ⟨fun other hother => ?_, hmore⟩
              rcases List.mem_cons.mp hother with rfl | hlater
              · exact hok
              · exact hall other hlater

end Items

end Json

end UltraNet
