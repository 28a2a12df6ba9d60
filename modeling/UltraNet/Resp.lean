/-
The RESP parser of the Redis proxy: where a request and a response end in a
buffer, and the arguments of a request.  Sizes are numbers without bound; the
code's are 64 bits wide, which no buffer exceeds.
-/
import UltraNet.Codec
import UltraNet.Digits
import UltraNet.Lines

namespace UltraNet

/-- Digits and a line break. -/
def takeCount (data : List UInt8) : Option (Nat × List UInt8) :=
  match data.dropWhile isDigit with
  | 13 :: 10 :: rest => some (digitsValue (data.takeWhile isDigit), rest)
  | _ => none

/-- One bulk string of `parse_request`. -/
def takeBulk (data : List UInt8) : Option (List UInt8 × List UInt8) :=
  match data with
  | 36 :: rest =>
      match takeCount rest with
      | none => none
      | some (slen, rest) =>
          if rest.length < slen + 2 then none
          else
            match rest.drop slen with
            | 13 :: 10 :: tail => some (rest.take slen, tail)
            | _ => none
  | _ => none

def takeBulks : Nat → List UInt8 → Option (List (List UInt8) × List UInt8)
  | 0, data => some ([], data)
  | argc + 1, data =>
      match takeBulk data with
      | none => none
      | some (arg, rest) =>
          (takeBulks argc rest).map fun (args, rest) => (arg :: args, rest)

/-- The arguments of an inline command. -/
def words (line : List UInt8) : List (List UInt8) :=
  (line.splitOn 32).filter (· ≠ [])

/-- The arguments and the bytes consumed; `none` is the return value 0. -/
def parseRequest (data : List UInt8) : Option (List (List UInt8) × Nat) :=
  match data with
  | [] => none
  | 42 :: rest =>
      match takeCount rest with
      | none => none
      | some (argc, rest) =>
          (takeBulks argc rest).map fun (args, rest) =>
            (args, data.length - rest.length)
  | _ =>
      (takeLine data).map fun (line, rest) =>
        (words line, data.length - rest.length)

/-- One bulk string of `detect_request_boundary`, which does not look at the
line break behind it. -/
def skipBulk (data : List UInt8) : Option (List UInt8) :=
  match data with
  | 36 :: rest =>
      match takeCount rest with
      | none => none
      | some (slen, rest) =>
          if rest.length < slen + 2 then none else some (rest.drop (slen + 2))
  | _ => none

def skipBulks : Nat → List UInt8 → Option (List UInt8)
  | 0, data => some data
  | argc + 1, data =>
      match skipBulk data with
      | none => none
      | some rest => skipBulks argc rest

def detectRequestBoundary (data : List UInt8) : Option Nat :=
  if data.length < 4 then none
  else
    match data with
    | 42 :: rest =>
        match takeCount rest with
        | none => none
        | some (argc, rest) =>
            (skipBulks argc rest).map fun rest => data.length - rest.length
    | _ => (takeLine data).map fun (_, rest) => data.length - rest.length

def encodeRequest (args : List (List UInt8)) : List UInt8 :=
  42 :: decimalText args.length ++ crlf ++
    args.flatMap fun arg => 36 :: decimalText arg.length ++ crlf ++ arg ++ crlf

/-- The bytes up to and with the first line break. -/
def findCrlf : List UInt8 → Option Nat
  | 13 :: 10 :: _ => some 2
  | _ :: rest => (findCrlf rest).map (· + 1)
  | [] => none

/-- A length that may have a minus sign. -/
def takeLength (data : List UInt8) : Option (Bool × Nat × List UInt8) :=
  match data with
  | 45 :: rest => (takeCount rest).map fun (n, rest) => (true, n, rest)
  | _ => (takeCount data).map fun (n, rest) => (false, n, rest)

theorem takeCount_length {data rest : List UInt8} {n : Nat}
    (hcount : takeCount data = some (n, rest)) : rest.length < data.length := by
  unfold takeCount at hcount
  split at hcount
  · rename_i tail hdrop
    cases hcount
    have hsuffix := (List.dropWhile_suffix isDigit (l := data)).length_le
    rw [hdrop] at hsuffix
    simp only [List.length_cons] at hsuffix
    omega
  · cases hcount

theorem takeLength_length {data rest : List UInt8} {negative : Bool} {n : Nat}
    (hlength : takeLength data = some (negative, n, rest)) :
    rest.length < data.length := by
  unfold takeLength at hlength
  split at hlength
  all_goals
    obtain ⟨⟨count, tail⟩, hcount, heq⟩ := Option.map_eq_some_iff.mp hlength
    cases heq
    have := takeCount_length hcount
    simp only [List.length_cons] at *
    omega

mutual

/-- The size of the value at the front of a buffer; 0 when it is not whole. -/
def detectResponse (data : List UInt8) : Nat :=
  match data with
  | [] => 0
  | type :: rest =>
      if type = 43 ∨ type = 45 ∨ type = 58 then
        match findCrlf rest with
        | some size => size + 1
        | none => 0
      else if type = 36 then
        match takeLength rest with
        | none => 0
        | some (true, _, tail) => data.length - tail.length
        | some (false, slen, tail) =>
            if tail.length < slen + 2 then 0
            else data.length - tail.length + slen + 2
      else if type = 42 then
        match _hlength : takeLength rest with
        | none => 0
        | some (true, _, tail) => data.length - tail.length
        | some (false, count, tail) =>
            match detectElements count tail with
            | some size => data.length - tail.length + size
            | none => 0
      else 0
termination_by 2 * data.length
decreasing_by
  have := takeLength_length ‹takeLength rest = _›
  rw [List.length_cons]
  omega

/-- The elements of an array. -/
def detectElements (count : Nat) (data : List UInt8) : Option Nat :=
  match count with
  | 0 => some 0
  | count + 1 =>
      match data with
      | [] => none
      | byte :: rest =>
          match detectResponse (byte :: rest) with
          | 0 => none
          | consumed + 1 =>
              (detectElements count ((byte :: rest).drop (consumed + 1))).map
                (consumed + 1 + ·)
termination_by 2 * data.length + 1
decreasing_by
  · exact Nat.lt_succ_self _
  · rw [List.length_drop, List.length_cons]
    omega

end

/-- The digits of a number. -/
def IsCount (text : List UInt8) (n : Nat) : Prop :=
  text ≠ [] ∧ text.all isDigit = true ∧ digitsValue text = n

theorem isCount_decimalText (n : Nat) : IsCount (decimalText n) n :=
  ⟨decimalText_ne_nil n,
    List.all_eq_true.mpr fun _ hbyte => isDigit_of_mem_decimalText hbyte,
    digitsValue_decimalText n⟩

section Count

variable {text : List UInt8} {n : Nat}

theorem takeCount_text (hcount : IsCount text n) (rest : List UInt8) :
    takeCount (text ++ crlf ++ rest) = some (n, rest) := by
  have hdigits := List.all_eq_true.mp hcount.2.1
  have hdrop : (text ++ crlf ++ rest).dropWhile isDigit = 13 :: 10 :: rest := by
    rw [List.append_assoc, List.dropWhile_append_of_pos hdigits]
    rfl
  have htake : (text ++ crlf ++ rest).takeWhile isDigit = text := by
    rw [List.append_assoc, List.takeWhile_append_of_pos hdigits]
    simp [crlf, isDigit]
  rw [takeCount, hdrop]
  simp only [htake, hcount.2.2]

theorem takeCount_part {data : List UInt8} (hcount : IsCount text n)
    (hdata : data <+: text ++ [13]) : takeCount data = none := by
  have hdigits := List.all_eq_true.mp hcount.2.1
  cases hfound : takeCount data with
  | none => rfl
  | some found =>
      -- a line break would have to stand among the digits
      unfold takeCount at hfound
      split at hfound
      · rename_i rest hdrop
        have hten : 10 ∈ data := by
          have hmem : 10 ∈ data.dropWhile isDigit := by simp [hdrop]
          exact (List.dropWhile_suffix isDigit).subset hmem
        have hmem := hdata.subset hten
        rw [List.mem_append, List.mem_singleton] at hmem
        rcases hmem with hmem | hmem
        · exact absurd (hdigits 10 hmem) (by decide)
        · cases hmem
      · cases hfound

end Count

/-- A bulk string on the wire, with the digits of its length. -/
def bulkText (length arg : List UInt8) : List UInt8 :=
  36 :: (length ++ crlf ++ (arg ++ crlf))

section Bulk

variable {length arg : List UInt8}

theorem skipBulk_text (hcount : IsCount length arg.length) (rest : List UInt8) :
    skipBulk (bulkText length arg ++ rest) = some rest := by
  have htext : bulkText length arg ++ rest =
      36 :: (length ++ crlf ++ (arg ++ crlf ++ rest)) := by
    simp [bulkText]
  rw [htext, skipBulk]
  simp only [takeCount_text hcount]
  rw [if_neg (by simp [crlf])]
  simp [crlf]

theorem skipBulk_part {data more : List UInt8} (hcount : IsCount length arg.length)
    (hsplit : data ++ more = bulkText length arg) (hmore : more ≠ []) :
    skipBulk data = none := by
  cases data with
  | nil => rfl
  | cons byte data =>
      obtain ⟨rfl, hrest⟩ := List.cons.inj hsplit
      rw [skipBulk]
      obtain hline | ⟨tail, rfl, htail⟩ := cut_line hrest
      · simp only [takeCount_part hcount hline]
      · simp only [takeCount_text hcount]
        rw [if_pos]
        have hlength := congrArg List.length htail
        simp only [List.length_append, crlf, List.length_cons,
          List.length_nil] at hlength
        have := List.length_pos_iff.mpr hmore
        omega

theorem takeBulk_text (hcount : IsCount length arg.length) (rest : List UInt8) :
    takeBulk (bulkText length arg ++ rest) = some (arg, rest) := by
  have htext : bulkText length arg ++ rest =
      36 :: (length ++ crlf ++ (arg ++ crlf ++ rest)) := by
    simp [bulkText]
  have hdrop : (arg ++ crlf ++ rest).drop arg.length = 13 :: 10 :: rest := by
    rw [List.append_assoc, List.drop_left]
    rfl
  have htake : (arg ++ crlf ++ rest).take arg.length = arg := by
    rw [List.append_assoc, List.take_left]
  rw [htext, takeBulk]
  simp only [takeCount_text hcount, hdrop, htake]
  rw [if_neg (by simp [crlf])]

/-- `parse_request` finds a bulk string only where `detect_request_boundary`
does. -/
theorem skipBulk_of_takeBulk {data arg rest : List UInt8}
    (htake : takeBulk data = some (arg, rest)) : skipBulk data = some rest := by
  unfold takeBulk at htake
  unfold skipBulk
  split at htake
  · split at htake
    · cases htake
    · rename_i slen tail hcount
      split at htake
      · cases htake
      · rename_i hlong
        rw [if_neg hlong]
        split at htake
        · rename_i behind hdrop
          cases htake
          rw [← List.drop_drop, hdrop]
          rfl
        · cases htake
  · cases htake

theorem skipBulks_of_takeBulks {argc : Nat} {data rest : List UInt8}
    {args : List (List UInt8)} (htake : takeBulks argc data = some (args, rest)) :
    skipBulks argc data = some rest := by
  induction argc generalizing data args with
  | zero =>
      cases htake
      rfl
  | succ argc ih =>
      rw [takeBulks] at htake
      split at htake
      · cases htake
      · rename_i arg tail hbulk
        obtain ⟨⟨others, behind⟩, hothers, heq⟩ := Option.map_eq_some_iff.mp htake
        cases heq
        rw [skipBulks, skipBulk_of_takeBulk hbulk]
        exact ih hothers

end Bulk

/-- The arguments of a command, each with the digits of its length. -/
def bulksText (args : List (List UInt8 × List UInt8)) : List UInt8 :=
  args.flatMap fun (length, arg) => bulkText length arg

theorem skipBulks_text {args : List (List UInt8 × List UInt8)}
    (hargs : ∀ arg ∈ args, IsCount arg.1 arg.2.length) (rest : List UInt8) :
    skipBulks args.length (bulksText args ++ rest) = some rest := by
  induction args with
  | nil => rfl
  | cons arg args ih =>
      have htext : bulksText (arg :: args) ++ rest =
          bulkText arg.1 arg.2 ++ (bulksText args ++ rest) := by
        simp [bulksText]
      rw [htext, List.length_cons, skipBulks,
        skipBulk_text (hargs arg List.mem_cons_self)]
      exact ih fun other hother => hargs other (List.mem_cons_of_mem _ hother)

theorem takeBulks_text {args : List (List UInt8 × List UInt8)}
    (hargs : ∀ arg ∈ args, IsCount arg.1 arg.2.length) (rest : List UInt8) :
    takeBulks args.length (bulksText args ++ rest) =
      some (args.map Prod.snd, rest) := by
  induction args with
  | nil => rfl
  | cons arg args ih =>
      have htext : bulksText (arg :: args) ++ rest =
          bulkText arg.1 arg.2 ++ (bulksText args ++ rest) := by
        simp [bulksText]
      rw [htext, List.length_cons, takeBulks,
        takeBulk_text (hargs arg List.mem_cons_self)]
      simp only [ih fun other hother => hargs other (List.mem_cons_of_mem _ hother),
        Option.map_some, List.map_cons]

theorem skipBulks_part {args : List (List UInt8 × List UInt8)}
    {data more : List UInt8} (hargs : ∀ arg ∈ args, IsCount arg.1 arg.2.length)
    (hsplit : data ++ more = bulksText args) (hmore : more ≠ []) :
    skipBulks args.length data = none := by
  induction args generalizing data with
  | nil =>
      have hnil : data ++ more = [] := hsplit
      exact absurd (List.append_eq_nil_iff.mp hnil).2 hmore
  | cons arg args ih =>
      have harg := hargs arg List.mem_cons_self
      have htext : data ++ more = bulkText arg.1 arg.2 ++ bulksText args := by
        rw [hsplit]
        simp [bulksText]
      rw [List.length_cons, skipBulks]
      obtain ⟨tail, hnonempty, htail⟩ | ⟨tail, rfl, htail⟩ := cut_front htext
      · rw [skipBulk_part harg htail hnonempty]
      · rw [skipBulk_text harg]
        exact ih (fun other hother => hargs other
          (List.mem_cons_of_mem _ hother)) htail

/-- What a client may send. -/
inductive RespCommand where
  | array (count : List UInt8) (args : List (List UInt8 × List UInt8))
  | inline (line : List UInt8)

namespace RespCommand

def wire : RespCommand → List UInt8
  | .array count args => 42 :: (count ++ crlf ++ bulksText args)
  | .inline line => line ++ crlf

def WellFormed : RespCommand → Prop
  | .array count args =>
      IsCount count args.length ∧ ∀ arg ∈ args, IsCount arg.1 arg.2.length
  | .inline line => words line ≠ [] ∧ line.head? ≠ some 42 ∧ 13 ∉ line

/-- What the backend gets for it. -/
def forwarded : RespCommand → List UInt8
  | command@(.array ..) => command.wire
  | .inline line => encodeRequest (words line)

end RespCommand

/-- The next command in `client_buf`: what is forwarded for it, and the bytes
that it takes. -/
def nextCommand (data : List UInt8) : Option (List UInt8 × Nat) :=
  match data with
  | [] => none
  | 42 :: _ =>
      match detectRequestBoundary data with
      | some consumed => some (data.take consumed, consumed)
      | none =>
          (parseRequest data).map fun (_, consumed) =>
            (data.take consumed, consumed)
  | _ =>
      (parseRequest data).map fun (args, consumed) =>
        (encodeRequest args, consumed)

namespace RespCommand

theorem wire_nonempty {command : RespCommand} (hvalid : command.WellFormed) :
    command.wire ≠ [] := by
  cases command with
  | array count args => simp [wire]
  | inline line => simp [wire, crlf]

theorem boundary_wire {count : List UInt8} {args : List (List UInt8 × List UInt8)}
    (hvalid : (array count args).WellFormed) (rest : List UInt8) :
    detectRequestBoundary ((array count args).wire ++ rest) =
      some (array count args).wire.length := by
  obtain ⟨hcount, hargs⟩ := hvalid
  have htext : (array count args).wire ++ rest =
      42 :: (count ++ crlf ++ (bulksText args ++ rest)) := by
    simp [wire]
  have hlong : ¬ ((array count args).wire ++ rest).length < 4 := by
    have := List.length_pos_iff.mpr hcount.1
    simp only [wire, List.length_append, List.length_cons, crlf, List.length_nil]
    omega
  rw [htext] at hlong ⊢
  rw [detectRequestBoundary, if_neg hlong]
  simp only [takeCount_text hcount, skipBulks_text hargs, Option.map_some]
  simp only [wire, List.length_append, List.length_cons, Option.some.injEq]
  omega

/-- A line with a word that is not an array starts with its own first byte. -/
theorem inline_cons {line : List UInt8} (hvalid : (inline line).WellFormed) :
    ∃ byte rest, line = byte :: rest ∧ byte ≠ 42 := by
  obtain ⟨hwords, hstar, -⟩ := hvalid
  cases line with
  | nil => simp [words] at hwords
  | cons byte rest => exact ⟨byte, rest, rfl, by simpa using hstar⟩

theorem nextCommand_wire {command : RespCommand} (hvalid : command.WellFormed)
    (rest : List UInt8) :
    nextCommand (command.wire ++ rest) =
      some (command.forwarded, command.wire.length) := by
  cases command with
  | array count args =>
      have hboundary := boundary_wire hvalid rest
      have htake : ((array count args).wire ++ rest).take
          (array count args).wire.length = (array count args).wire := List.take_left
      rw [wire, List.cons_append] at hboundary htake ⊢
      rw [nextCommand]
      simp only [hboundary, htake]
      rfl
  | inline line =>
      obtain ⟨byte, tail, hline, hbyte⟩ := inline_cons hvalid
      have htake := takeLine_line hvalid.2.2 rest
      have hparse : parseRequest (line ++ crlf ++ rest) =
          some (words line, (line ++ crlf).length) := by
        rw [parseRequest]
        · rw [htake, Option.map_some]
          simp only [List.length_append, Option.some.injEq, Prod.mk.injEq, true_and]
          omega
        · rw [hline]
          simp
        · intro other hother
          rw [hline] at hother
          exact hbyte (List.cons.inj hother).1
      rw [wire, nextCommand]
      · rw [hparse]
        rfl
      · rw [hline]
        simp
      · intro other hother
        rw [hline] at hother
        exact hbyte (List.cons.inj hother).1

theorem nextCommand_part {command : RespCommand} {data more : List UInt8}
    (hvalid : command.WellFormed) (hsplit : data ++ more = command.wire)
    (hmore : more ≠ []) : nextCommand data = none := by
  cases command with
  | array count args =>
      cases data with
      | nil => rfl
      | cons byte data =>
          obtain ⟨rfl, hrest⟩ := List.cons.inj hsplit
          rw [nextCommand]
          obtain hline | ⟨tail, rfl, htail⟩ := cut_line hrest
          · have hnone := takeCount_part hvalid.1 hline
            simp only [detectRequestBoundary, parseRequest, hnone, ite_self,
              Option.map_none]
          · have hskip := skipBulks_part hvalid.2 htail hmore
            have htake : takeBulks args.length tail = none := by
              cases hfound : takeBulks args.length tail with
              | none => rfl
              | some found =>
                  rw [skipBulks_of_takeBulks hfound] at hskip
                  cases hskip
            simp only [detectRequestBoundary, parseRequest, takeCount_text hvalid.1,
              hskip, htake, ite_self, Option.map_none]
  | inline line =>
      obtain ⟨first, others, hline, hfirst⟩ := inline_cons hvalid
      have hpart : data <+: line ++ [13] := by
        have htext : data ++ more = line ++ crlf ++ [] := by
          simpa [wire] using hsplit
        obtain hpart | ⟨tail, -, htail⟩ := cut_line htext
        · exact hpart
        · exact absurd (List.append_eq_nil_iff.mp htail).2 hmore
      have hnone := takeLine_part hvalid.2.2 hpart
      cases data with
      | nil => rfl
      | cons byte data =>
          have hbyte : byte = first := by
            rw [hline] at hsplit
            exact (List.cons.inj hsplit).1
          have hstar : ∀ rest, byte :: data = 42 :: rest → False := by
            intro rest heq
            exact hfirst (hbyte ▸ (List.cons.inj heq).1)
          rw [nextCommand, parseRequest, hnone]
          · rfl
          · simp
          · exact hstar
          · simp
          · exact hstar

end RespCommand

/-- The encoding of arguments is an array command. -/
theorem encodeRequest_eq (args : List (List UInt8)) :
    ∃ command : RespCommand, command.WellFormed ∧
      command = .array (decimalText args.length)
        (args.map fun arg => (decimalText arg.length, arg)) ∧
      encodeRequest args = command.wire := by
  refine ⟨_, ?_, rfl, ?_⟩
  · rw [RespCommand.WellFormed, List.length_map]
    refine ⟨isCount_decimalText _, ?_⟩
    intro pair hpair
    obtain ⟨arg, -, rfl⟩ := List.mem_map.mp hpair
    exact isCount_decimalText _
  · simp [encodeRequest, RespCommand.wire, bulksText, bulkText, List.flatMap_map]

/-- `parse_request` reads back what `encode_request` writes. -/
theorem requestCodec :
    Codec (fun _ : List (List UInt8) => True) encodeRequest parseRequest := by
  refine ⟨fun {args} _ => by simp [encodeRequest], fun {args} rest _ => ?_,
    fun {args data more} _ hsplit hmore => ?_⟩
  · obtain ⟨command, hvalid, rfl, hwire⟩ := encodeRequest_eq args
    have htext : encodeRequest args ++ rest =
        42 :: (decimalText args.length ++ crlf ++
        (bulksText (args.map fun arg => (decimalText arg.length,
          arg)) ++ rest)) := by
      rw [hwire, RespCommand.wire]
      simp
    have hargs : (args.map fun arg => (decimalText arg.length, arg)).map Prod.snd =
        args := by
      rw [List.map_map]
      exact List.map_id args
    have htake := takeBulks_text hvalid.2 rest
    rw [List.length_map, hargs] at htake
    have hsize : (encodeRequest args ++ rest).length - rest.length =
        (encodeRequest args).length := by
      rw [List.length_append, Nat.add_sub_cancel]
    rw [htext] at hsize ⊢
    rw [parseRequest]
    simp only [takeCount_text (isCount_decimalText _), htake, Option.map_some, hsize]
  · obtain ⟨command, hvalid, rfl, hwire⟩ := encodeRequest_eq args
    rw [hwire] at hsplit
    have hnone := RespCommand.nextCommand_part hvalid hsplit hmore
    cases data with
    | nil => rfl
    | cons byte data =>
        obtain ⟨rfl, -⟩ := List.cons.inj hsplit
        rw [nextCommand] at hnone
        split at hnone
        · cases hnone
        · exact Option.map_eq_none_iff.mp hnone

/-- The commands of a stream, each with what is forwarded for it. -/
theorem commandCodec :
    Codec (fun item : List UInt8 × List UInt8 => ∃ command : RespCommand,
        command.WellFormed ∧ item = (command.wire, command.forwarded))
      Prod.fst
      fun data => (nextCommand data).map fun (forwarded, consumed) =>
        ((data.take consumed, forwarded), consumed) := by
  refine ⟨?_, ?_, ?_⟩
  · rintro _ ⟨command, hvalid, rfl⟩
    exact RespCommand.wire_nonempty hvalid
  · rintro _ rest ⟨command, hvalid, rfl⟩
    simp only [RespCommand.nextCommand_wire hvalid, Option.map_some, List.take_left]
  · rintro _ data more ⟨command, hvalid, rfl⟩ hsplit hmore
    rw [RespCommand.nextCommand_part hvalid hsplit hmore]
    rfl

/-- The front of a stream of commands is its first command, or too short for
one. -/
theorem nextCommand_stream {commands : List RespCommand}
    (hvalid : ∀ command ∈ commands, command.WellFormed) {data more : List UInt8}
    (hstream : data ++ more = commands.flatMap RespCommand.wire) :
    (∃ command rest tail, commands = command :: rest ∧
        data = command.wire ++ tail ∧
        nextCommand data = some (command.forwarded, command.wire.length) ∧
        tail ++ more = rest.flatMap RespCommand.wire) ∨
      ((data ≠ [] → nextCommand data = none) ∧ (more = [] → commands = [])) := by
  have hitems : ∀ item ∈ commands.map fun command : RespCommand =>
      (command.wire, command.forwarded), ∃ command : RespCommand,
        command.WellFormed ∧ item = (command.wire, command.forwarded) := by
    intro item hitem
    obtain ⟨command, hcommand, rfl⟩ := List.mem_map.mp hitem
    exact ⟨command, hvalid command hcommand, rfl⟩
  have hwires : data ++ more = (commands.map fun command : RespCommand =>
      (command.wire, command.forwarded)).flatMap Prod.fst := by
    rw [List.flatMap_map]
    exact hstream
  obtain ⟨item, others, tail, hcons, hdata, hdecode, htail⟩ | ⟨hnone, hend⟩ :=
    commandCodec.next hitems hwires
  · obtain ⟨command, rest, rfl, rfl, rfl⟩ := List.map_eq_cons_iff.mp hcons
    obtain ⟨⟨forwarded, size⟩, hfound, heq⟩ := Option.map_eq_some_iff.mp hdecode
    obtain ⟨hitem, rfl⟩ := Prod.mk.inj heq
    obtain ⟨-, rfl⟩ := Prod.mk.inj hitem
    rw [List.flatMap_map] at htail
    exact .inl ⟨command, rest, tail, rfl, hdata, hfound, htail⟩
  · exact .inr ⟨fun hdata => Option.map_eq_none_iff.mp (hnone hdata),
      fun hmore => List.map_eq_nil_iff.mp (hend hmore)⟩

/-- Both readers of requests consume just the encoding of the arguments, and
nothing of a strict prefix. -/
theorem encodeRequest_round_trip (args : List (List UInt8)) :
    (∀ rest, parseRequest (encodeRequest args ++ rest) =
        some (args, (encodeRequest args).length) ∧
      detectRequestBoundary (encodeRequest args ++ rest) =
        some (encodeRequest args).length) ∧
    ∀ data, data <+: encodeRequest args → data ≠ encodeRequest args →
      parseRequest data = none ∧ detectRequestBoundary data = none := by
  obtain ⟨command, hvalid, rfl, hwire⟩ := encodeRequest_eq args
  refine ⟨fun rest => ⟨requestCodec.whole rest trivial, ?_⟩,
    fun data hpart hstrict => ?_⟩
  · rw [hwire]
    exact RespCommand.boundary_wire hvalid rest
  · obtain ⟨more, hsplit⟩ := hpart
    have hmore : more ≠ [] := by
      rintro rfl
      exact hstrict (by simpa using hsplit)
    refine ⟨requestCodec.part trivial hsplit hmore, ?_⟩
    rw [hwire] at hsplit
    have hnone := RespCommand.nextCommand_part hvalid hsplit hmore
    cases data with
    | nil => rfl
    | cons byte data =>
        obtain ⟨rfl, -⟩ := List.cons.inj hsplit
        rw [nextCommand] at hnone
        split at hnone
        · cases hnone
        · assumption

theorem encodeRequest_round_trip_get :
    parseRequest (ascii "*2\r\n$3\r\nGET\r\n$2\r\n\r\n\r") = none :=
  ((encodeRequest_round_trip [ascii "GET", crlf]).2 _ ⟨ascii "\n", by decide⟩
    (by decide)).1

end UltraNet
