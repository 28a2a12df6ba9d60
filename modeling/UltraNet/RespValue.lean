/-
RESP values as a backend sends them, and `detect_response` on them: it finds
the end of a value once all of it is there, however deep its arrays are.
-/
import UltraNet.RespGrammar

namespace UltraNet

/-- The values that are one line of text. -/
inductive TextType where
  | simple
  | error
  | integer

/-- The first byte of such a line. -/
def TextType.byte : TextType → UInt8
  | .simple => 43
  | .error => 45
  | .integer => 58

/-- Lengths and counts are given by their digits. -/
inductive RespValue where
  | text (type : TextType) (content : List UInt8)
  | nullBulk
  | bulk (length content : List UInt8)
  | nullArray
  | array (count : List UInt8) (elements : List RespValue)

namespace RespValue

mutual

/-- The bytes of a value, with those of its elements in order. -/
def wire : RespValue → List UInt8
  | .text type content => type.byte :: (content ++ crlf)
  | .nullBulk => [36, 45, 49, 13, 10]
  | .bulk length content => bulkText length content
  | .nullArray => [42, 45, 49, 13, 10]
  | .array count elements => 42 :: (count ++ crlf ++ wires elements)

def wires : List RespValue → List UInt8
  | [] => []
  | value :: values => wire value ++ wires values

end

mutual

/-- Text holds no line break, and each length and count is the right one. -/
def WellFormed : RespValue → Prop
  | .text _ content => 13 ∉ content ∧ 10 ∉ content
  | .nullBulk | .nullArray => True
  | .bulk length content => IsCount length content.length
  | .array count elements => IsCount count elements.length ∧ AllWellFormed elements

def AllWellFormed : List RespValue → Prop
  | [] => True
  | value :: values => WellFormed value ∧ AllWellFormed values

end

theorem wire_length_pos (value : RespValue) : 0 < value.wire.length := by
  cases value with
  | text type content => simp [wire]
  | nullBulk => simp [wire]
  | bulk length content => simp [wire, bulkText]
  | nullArray => simp [wire]
  | array count elements => simp [wire]

theorem byte_textType (type : TextType) :
    type.byte = 43 ∨ type.byte = 45 ∨ type.byte = 58 := by
  cases type with
  | simple => exact .inl rfl
  | error => exact .inr (.inl rfl)
  | integer => exact .inr (.inr rfl)

mutual

/-- A value as the protocol has it: no line break in a text. -/
def Legal : RespValue → Prop
  | .text _ content => ¬ crlf <:+: content
  | .nullBulk | .nullArray => True
  | .bulk length content => IsCount length content.length
  | .array count elements => IsCount count elements.length ∧ AllLegal elements

def AllLegal : List RespValue → Prop
  | [] => True
  | value :: values => Legal value ∧ AllLegal values

end

mutual

theorem WellFormed.legal : {value : RespValue} → value.WellFormed → value.Legal
  | .text _ _, hvalid => fun hinside => hvalid.1 (hinside.subset List.mem_cons_self)
  | .nullBulk, _ => trivial
  | .bulk _ _, hvalid => hvalid
  | .nullArray, _ => trivial
  | .array _ _, hvalid => ⟨hvalid.1, AllWellFormed.legal hvalid.2⟩

theorem AllWellFormed.legal : {values : List RespValue} → AllWellFormed values →
    AllLegal values
  | [], _ => trivial
  | _ :: _, hvalid => ⟨hvalid.1.legal, AllWellFormed.legal hvalid.2⟩

end

theorem wires_eq (values : List RespValue) : wires values = (values.map wire).flatten := by
  induction values with
  | nil => rfl
  | cons value values ih => rw [wires, ih, List.map_cons, List.flatten_cons]

mutual

/-- By induction on the value, together with the elements of an array. -/
theorem whole_wire : (value : RespValue) → value.Legal → WholeValue value.wire
  | .text type content, hlegal => .text type.byte content (byte_textType type) hlegal
  | .nullBulk, _ => .null 36 [49] 1 (.inl rfl) ⟨rfl, rfl⟩
  | .bulk length content, hlegal =>
      .bulk ⟨length, content, crlf⟩ ⟨hlegal.run, rfl⟩
  | .nullArray, _ => .null 42 [49] 1 (.inr rfl) ⟨rfl, rfl⟩
  | .array count elements, hlegal => by
      have hcount := hlegal.1.run
      rw [← List.length_map wire] at hcount
      rw [wire, wires_eq]
      exact .array count _ hcount (whole_wires elements hlegal.2)

theorem whole_wires : (values : List RespValue) → AllLegal values →
    ∀ text ∈ values.map wire, WholeValue text
  | [], _ => by simp
  | value :: values, hlegal => by
      rw [List.map_cons, List.forall_mem_cons]
      exact ⟨whole_wire value hlegal.1, whole_wires values hlegal.2⟩

end

/-- A value that is there as a whole is found. -/
theorem detect_wire {value : RespValue} (hlegal : value.Legal) (rest : List UInt8) :
    detectResponse (value.wire ++ rest) = value.wire.length :=
  detectResponse_whole (whole_wire value hlegal) rest

/-- The beginning of a value is not taken for a whole one. -/
theorem detect_part {value : RespValue} {data more : List UInt8} (hlegal : value.Legal)
    (hsplit : data ++ more = value.wire) (hmore : more ≠ []) : detectResponse data = 0 :=
  detectResponse_part (whole_wire value hlegal) hsplit hmore

end RespValue

end UltraNet
