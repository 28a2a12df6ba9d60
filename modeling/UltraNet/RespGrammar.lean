/-
What the scanners of the Redis proxy take for whole: a count, a bulk string, a
request and a value, each told by the text that it stands in.
-/
import UltraNet.Resp

namespace UltraNet

/-- Digits as the scanners read them, of which there may be none. -/
structure DigitRun (text : List UInt8) (n : Nat) : Prop where
  digits : text.all isDigit = true
  value : digitsValue text = n

theorem IsCount.run {text : List UInt8} {n : Nat} (hcount : IsCount text n) :
    DigitRun text n :=
  ⟨hcount.2.1, hcount.2.2⟩

section Count

variable {data rest text : List UInt8} {n : Nat}

theorem dropWhile_run (hrun : DigitRun text n) (rest : List UInt8) :
    (text ++ crlf ++ rest).dropWhile isDigit = 13 :: 10 :: rest := by
  rw [List.append_assoc,
    List.dropWhile_append_of_pos (List.all_eq_true.mp hrun.digits)]
  rfl

theorem takeWhile_run (hrun : DigitRun text n) (rest : List UInt8) :
    (text ++ crlf ++ rest).takeWhile isDigit = text := by
  rw [List.append_assoc,
    List.takeWhile_append_of_pos (List.all_eq_true.mp hrun.digits)]
  simp [crlf, isDigit]

/-- A run and its line break are read, whatever comes behind. -/
theorem takeCount_run (hrun : DigitRun text n) (rest : List UInt8) :
    takeCount (text ++ crlf ++ rest) = some (n, rest) := by
  rw [takeCount, dropWhile_run hrun]
  simp only [takeWhile_run hrun, hrun.value]

/-- `takeCount` finds just the runs that end with a line break. -/
theorem takeCount_eq_some :
    takeCount data = some (n, rest) ↔
      ∃ text, DigitRun text n ∧ data = text ++ crlf ++ rest := by
  refine ⟨fun hcount => ?_, ?_⟩
  · unfold takeCount at hcount
    split at hcount
    · rename_i tail hdrop
      cases hcount
      refine ⟨data.takeWhile isDigit, ⟨List.all_takeWhile, rfl⟩, ?_⟩
      have hsplit := List.takeWhile_append_dropWhile (p := isDigit) (l := data)
      rw [hdrop] at hsplit
      rw [List.append_assoc]
      exact hsplit.symm
    · cases hcount
  · rintro ⟨text, hrun, rfl⟩
    exact takeCount_run hrun rest

/-- The sign of a length, which only a minus may be. -/
def signText (negative : Bool) : List UInt8 :=
  if negative then [45] else []

theorem takeLength_run {negative : Bool} (hrun : DigitRun text n)
    (rest : List UInt8) :
    takeLength (signText negative ++ (text ++ crlf ++ rest)) =
      some (negative, n, rest) := by
  have hcount := takeCount_run hrun rest
  cases negative with
  | true =>
      exact congrArg (Option.map fun read : Nat × List UInt8 => (true, read.1, read.2)) hcount
  | false =>
      change takeLength (text ++ crlf ++ rest) = _
      rw [takeLength]
      · rw [hcount]
        rfl
      · intro tail heq
        -- a minus is neither a digit nor the beginning of a line break
        cases text with
        | nil => cases heq
        | cons byte text =>
            obtain ⟨rfl, -⟩ := List.cons.inj heq
            have hdigit := List.all_eq_true.mp hrun.digits 45 List.mem_cons_self
            exact absurd hdigit (by decide)

/-- A length is a count that may have a minus before it. -/
theorem takeLength_eq_some {negative : Bool} :
    takeLength data = some (negative, n, rest) ↔
      ∃ text, DigitRun text n ∧
        data = signText negative ++ (text ++ crlf ++ rest) := by
  refine ⟨fun hlength => ?_, ?_⟩
  · unfold takeLength at hlength
    split at hlength
    all_goals
      obtain ⟨⟨count, tail⟩, hcount, heq⟩ := Option.map_eq_some_iff.mp hlength
      cases heq
      obtain ⟨text, hrun, rfl⟩ := takeCount_eq_some.mp hcount
      exact ⟨text, hrun, rfl⟩
  · rintro ⟨text, hrun, rfl⟩
    exact takeLength_run hrun rest

end Count

section Bulk

/-- A bulk string of a request, with whatever two bytes behind it. -/
structure SkippedBulk where
  length : List UInt8
  content : List UInt8
  ending : List UInt8

namespace SkippedBulk

def wire (bulk : SkippedBulk) : List UInt8 :=
  36 :: (bulk.length ++ crlf ++ (bulk.content ++ bulk.ending))

structure Accepted (bulk : SkippedBulk) : Prop where
  length : DigitRun bulk.length bulk.content.length
  ending : bulk.ending.length = 2

end SkippedBulk

variable {data rest arg : List UInt8} {bulk : SkippedBulk}

theorem skipBulk_accepted (hbulk : bulk.Accepted) (rest : List UInt8) :
    skipBulk (bulk.wire ++ rest) = some rest := by
  have htext : bulk.wire ++ rest =
      36 :: (bulk.length ++ crlf ++ (bulk.content ++ bulk.ending ++ rest)) := by
    simp [SkippedBulk.wire]
  have hsize : (bulk.content ++ bulk.ending).length = bulk.content.length + 2 := by
    rw [List.length_append, hbulk.ending]
  rw [htext, skipBulk]
  simp only [takeCount_run hbulk.length]
  rw [if_neg (by rw [List.length_append, hsize]; omega), ← hsize, List.drop_left]

/-- The parser asks for the line break behind the content. -/
theorem takeBulk_accepted (hbulk : bulk.Accepted) (hending : bulk.ending = crlf)
    (rest : List UInt8) :
    takeBulk (bulk.wire ++ rest) = some (bulk.content, rest) := by
  have htext : bulk.wire ++ rest =
      36 :: (bulk.length ++ crlf ++ (bulk.content ++ (crlf ++ rest))) := by
    simp [SkippedBulk.wire, hending]
  rw [htext, takeBulk]
  simp only [takeCount_run hbulk.length, List.drop_left, List.take_left]
  rw [if_neg (by simp [crlf])]
  rfl

/-- The boundary scanner takes just these. -/
theorem skipBulk_eq_some :
    skipBulk data = some rest ↔
      ∃ bulk : SkippedBulk, bulk.Accepted ∧ data = bulk.wire ++ rest := by
  refine ⟨fun hskip => ?_, ?_⟩
  · unfold skipBulk at hskip
    split at hskip
    · split at hskip
      · cases hskip
      · rename_i slen tail hcount
        split at hskip
        · cases hskip
        · rename_i hlong
          cases hskip
          obtain ⟨text, hrun, rfl⟩ := takeCount_eq_some.mp hcount
          have hcontent : (tail.take slen).length = slen :=
            List.length_take_of_le (by omega)
          refine ⟨⟨text, tail.take slen, (tail.drop slen).take 2⟩, ⟨?_, ?_⟩, ?_⟩
          · exact ⟨hrun.digits, by rw [hrun.value, hcontent]⟩
          · rw [List.length_take_of_le]
            rw [List.length_drop]
            omega
          · have hsplit : tail.take slen ++ ((tail.drop slen).take 2 ++
                tail.drop (slen + 2)) = tail := by
              rw [← List.drop_drop, List.take_append_drop, List.take_append_drop]
            simp only [SkippedBulk.wire, List.cons_append, List.append_assoc,
              hsplit]
    · cases hskip
  · rintro ⟨bulk, hbulk, rfl⟩
    exact skipBulk_accepted hbulk rest

/-- The parser takes those of them that end with a line break. -/
theorem takeBulk_eq_some :
    takeBulk data = some (arg, rest) ↔
      ∃ bulk : SkippedBulk, bulk.Accepted ∧ bulk.ending = crlf ∧
        arg = bulk.content ∧ data = bulk.wire ++ rest := by
  refine ⟨fun htake => ?_, ?_⟩
  · obtain ⟨bulk, hbulk, rfl⟩ := skipBulk_eq_some.mp (skipBulk_of_takeBulk htake)
    have htext : bulk.wire ++ rest =
        36 :: (bulk.length ++ crlf ++ (bulk.content ++ (bulk.ending ++ rest))) := by
      simp [SkippedBulk.wire]
    rw [htext, takeBulk] at htake
    simp only [takeCount_run hbulk.length, List.drop_left, List.take_left] at htake
    split at htake
    · cases htake
    · split at htake
      · rename_i tail hbehind
        cases htake
        have hending : bulk.ending = crlf := by
          have htwo := congrArg (List.take 2) hbehind
          rw [List.take_append_of_le_length (by rw [hbulk.ending]),
            List.take_of_length_le (by rw [hbulk.ending])] at htwo
          exact htwo
        exact ⟨bulk, hbulk, hending, rfl, rfl⟩
      · cases htake
  · rintro ⟨bulk, hbulk, hending, rfl, rfl⟩
    exact takeBulk_accepted hbulk hending rest

end Bulk

/-- The bulk strings of a request one behind the other. -/
def skippedText (bulks : List SkippedBulk) : List UInt8 :=
  bulks.flatMap SkippedBulk.wire

section Bulks

variable {argc : Nat} {data rest : List UInt8} {args : List (List UInt8)}

/-- A whole request, as the boundary scanner sees it. -/
theorem skipBulks_eq_some :
    skipBulks argc data = some rest ↔
      ∃ bulks : List SkippedBulk, bulks.length = argc ∧
        (∀ bulk ∈ bulks, bulk.Accepted) ∧ data = skippedText bulks ++ rest := by
  induction argc generalizing data with
  | zero =>
      rw [skipBulks]
      refine ⟨fun heq => ⟨[], rfl, by simp, by simpa [skippedText] using heq⟩, ?_⟩
      rintro ⟨bulks, hnil, -, rfl⟩
      rw [List.eq_nil_of_length_eq_zero hnil]
      rfl
  | succ argc ih =>
      rw [skipBulks]
      refine ⟨fun hskip => ?_, ?_⟩
      · split at hskip
        · cases hskip
        · rename_i tail hbulk
          obtain ⟨bulk, haccepted, rfl⟩ := skipBulk_eq_some.mp hbulk
          obtain ⟨bulks, rfl, hbulks, rfl⟩ := ih.mp hskip
          exact ⟨bulk :: bulks, rfl, List.forall_mem_cons.mpr ⟨haccepted, hbulks⟩,
            by simp [skippedText]⟩
      · rintro ⟨bulks, hlength, hbulks, rfl⟩
        cases bulks with
        | nil => cases hlength
        | cons bulk bulks =>
            obtain ⟨haccepted, hbulks⟩ := List.forall_mem_cons.mp hbulks
            have htext : skippedText (bulk :: bulks) ++ rest =
                bulk.wire ++ (skippedText bulks ++ rest) := by
              simp [skippedText]
            rw [htext, skipBulk_accepted haccepted]
            exact ih.mpr ⟨bulks, Nat.succ.inj hlength, hbulks, rfl⟩

/-- A whole request, as the parser sees it. -/
theorem takeBulks_eq_some :
    takeBulks argc data = some (args, rest) ↔
      ∃ bulks : List SkippedBulk, bulks.length = argc ∧
        (∀ bulk ∈ bulks, bulk.Accepted ∧ bulk.ending = crlf) ∧
        args = bulks.map SkippedBulk.content ∧ data = skippedText bulks ++ rest := by
  induction argc generalizing data args with
  | zero =>
      rw [takeBulks]
      refine ⟨fun heq => ?_, ?_⟩
      · cases heq
        exact ⟨[], rfl, by simp, rfl, rfl⟩
      · rintro ⟨bulks, hnil, -, rfl, rfl⟩
        rw [List.eq_nil_of_length_eq_zero hnil]
        rfl
  | succ argc ih =>
      rw [takeBulks]
      refine ⟨fun htake => ?_, ?_⟩
      · split at htake
        · cases htake
        · rename_i arg tail hbulk
          obtain ⟨⟨others, behind⟩, hothers, heq⟩ := Option.map_eq_some_iff.mp htake
          cases heq
          obtain ⟨bulk, haccepted, hending, rfl, rfl⟩ := takeBulk_eq_some.mp hbulk
          obtain ⟨bulks, rfl, hbulks, rfl, rfl⟩ := ih.mp hothers
          exact ⟨bulk :: bulks, rfl,
            List.forall_mem_cons.mpr ⟨⟨haccepted, hending⟩, hbulks⟩, rfl,
            by simp [skippedText]⟩
      · rintro ⟨bulks, hlength, hbulks, rfl, rfl⟩
        cases bulks with
        | nil => cases hlength
        | cons bulk bulks =>
            obtain ⟨⟨haccepted, hending⟩, hbulks⟩ := List.forall_mem_cons.mp hbulks
            have htext : skippedText (bulk :: bulks) ++ rest =
                bulk.wire ++ (skippedText bulks ++ rest) := by
              simp [skippedText]
            rw [htext, takeBulk_accepted haccepted hending]
            simp only [ih.mpr ⟨bulks, Nat.succ.inj hlength, hbulks, rfl, rfl⟩,
              Option.map_some, List.map_cons]

end Bulks

section Line

variable {content data : List UInt8} {size : Nat}

theorem findCrlf_line (hcontent : ¬ crlf <:+: content) (rest : List UInt8) :
    findCrlf (content ++ crlf ++ rest) = some (content.length + 2) := by
  induction content with
  | nil => rfl
  | cons byte content ih =>
      have htail : ¬ crlf <:+: content := fun hinside =>
        hcontent (hinside.trans (List.suffix_cons byte content).isInfix)
      rw [List.cons_append, List.cons_append, findCrlf]
      · rw [ih htail]
        rfl
      · -- a line break at the front would be one within the content
        intro tail hbyte heq
        subst hbyte
        cases content with
        | nil => simp [crlf] at heq
        | cons second content =>
            obtain ⟨rfl, -⟩ := List.cons.inj heq
            exact hcontent (List.IsPrefix.isInfix ⟨content, rfl⟩)

/-- The first line break is found. -/
theorem findCrlf_eq_some :
    findCrlf data = some size ↔
      ∃ content rest, ¬ crlf <:+: content ∧ data = content ++ crlf ++ rest ∧
        size = content.length + 2 := by
  refine ⟨fun hfind => ?_, ?_⟩
  · fun_induction findCrlf data generalizing size with
    | case1 rest =>
        cases hfind
        exact ⟨[], rest, by simp [crlf], rfl, rfl⟩
    | case2 byte data hbreak ih =>
        obtain ⟨size, hsize, rfl⟩ := Option.map_eq_some_iff.mp hfind
        obtain ⟨content, rest, hcontent, rfl, rfl⟩ := ih hsize
        refine ⟨byte :: content, rest, ?_, rfl, rfl⟩
        rw [List.infix_cons_iff]
        rintro (⟨more, hmore⟩ | hinside)
        · obtain ⟨rfl, hrest⟩ := List.cons.inj hmore
          refine hbreak (more ++ crlf ++ rest) rfl ?_
          rw [← hrest]
          rfl
        · exact hcontent hinside
    | case3 => cases hfind
  · rintro ⟨content, rest, hcontent, rfl, rfl⟩
    exact findCrlf_line hcontent rest

end Line

/-- The texts that `detect_response` takes for one value. -/
inductive WholeValue : List UInt8 → Prop
  | text (type : UInt8) (content : List UInt8)
      (htype : type = 43 ∨ type = 45 ∨ type = 58) (hcontent : ¬ crlf <:+: content) :
      WholeValue (type :: (content ++ crlf))
  | null (type : UInt8) (digits : List UInt8) (n : Nat) (htype : type = 36 ∨ type = 42)
      (hdigits : DigitRun digits n) :
      WholeValue (type :: (signText true ++ (digits ++ crlf)))
  | bulk (bulk : SkippedBulk) (hbulk : bulk.Accepted) : WholeValue bulk.wire
  | array (count : List UInt8) (values : List (List UInt8))
      (hcount : DigitRun count values.length)
      (hvalues : ∀ value ∈ values, WholeValue value) :
      WholeValue (42 :: (count ++ crlf ++ values.flatten))

section Detect

variable {rest tail data value : List UInt8} {values : List (List UInt8)} {n : Nat}

theorem detectResponse_text {type : UInt8} (htype : type = 43 ∨ type = 45 ∨ type = 58)
    (rest : List UInt8) :
    detectResponse (type :: rest) = ((findCrlf rest).map (· + 1)).getD 0 := by
  rw [detectResponse, if_pos htype]
  cases findCrlf rest with
  | none => rfl
  | some size => rfl

/-- The negative length stands for a value of its own, without content. -/
theorem detectResponse_null {type : UInt8} (htype : type = 36 ∨ type = 42)
    (hlength : takeLength rest = some (true, n, tail)) :
    detectResponse (type :: rest) = (type :: rest).length - tail.length := by
  rcases htype with rfl | rfl
  · rw [detectResponse, if_neg (by decide), if_pos rfl, hlength]
  · rw [detectResponse, if_neg (by decide), if_neg (by decide), if_pos rfl]
    split
    · rename_i hnone
      rw [hlength] at hnone
      cases hnone
    · rename_i hsome
      rw [hlength] at hsome
      cases hsome
      rfl
    · rename_i hsome
      rw [hlength] at hsome
      cases hsome

theorem detectResponse_bulk (hlength : takeLength rest = some (false, n, tail)) :
    detectResponse (36 :: rest) =
      if tail.length < n + 2 then 0 else (36 :: rest).length - tail.length + n + 2 := by
  rw [detectResponse, if_neg (by decide), if_pos rfl, hlength]

theorem detectResponse_array (hlength : takeLength rest = some (false, n, tail)) :
    detectResponse (42 :: rest) =
      ((detectElements n tail).map ((42 :: rest).length - tail.length + ·)).getD 0 := by
  rw [detectResponse, if_neg (by decide), if_neg (by decide), if_pos rfl]
  split
  · rename_i hnone
    rw [hlength] at hnone
    cases hnone
  · rename_i hsome
    rw [hlength] at hsome
    cases hsome
  · rename_i hsome
    rw [hlength] at hsome
    cases hsome
    cases detectElements n tail with
    | none => rfl
    | some size => rfl

/-- A length that is cut or malformed is waited for. -/
theorem detectResponse_no_length {type : UInt8} (htype : type = 36 ∨ type = 42)
    (hlength : takeLength rest = none) : detectResponse (type :: rest) = 0 := by
  rcases htype with rfl | rfl
  · rw [detectResponse, if_neg (by decide), if_pos rfl, hlength]
  · rw [detectResponse, if_neg (by decide), if_neg (by decide), if_pos rfl]
    split
    · rfl
    · rename_i hsome
      rw [hlength] at hsome
      cases hsome
    · rename_i hsome
      rw [hlength] at hsome
      cases hsome

theorem detectResponse_other {type : UInt8}
    (htext : ¬ (type = 43 ∨ type = 45 ∨ type = 58)) (hcount : ¬ (type = 36 ∨ type = 42)) :
    detectResponse (type :: rest) = 0 := by
  obtain ⟨hbulk, harray⟩ := not_or.mp hcount
  rw [detectResponse, if_neg htext, if_neg hbulk, if_neg harray]

/-- The elements behind one that is found. -/
theorem detectElements_succ (hpos : 0 < detectResponse rest) :
    detectElements (n + 1) rest =
      (detectElements n (rest.drop (detectResponse rest))).map
        (detectResponse rest + ·) := by
  cases rest with
  | nil =>
      rw [detectResponse] at hpos
      cases hpos
  | cons byte rest =>
      rw [detectElements]
      split
      · omega
      · rename_i consumed hconsumed
        rw [hconsumed]

theorem detectElements_none (hzero : detectResponse rest = 0) :
    detectElements (n + 1) rest = none := by
  cases rest with
  | nil => rw [detectElements]
  | cons byte rest =>
      rw [detectElements]
      split
      · rfl
      · omega

theorem WholeValue.length_pos (hvalue : WholeValue value) : 0 < value.length := by
  cases hvalue with
  | text type content htype hcontent => simp
  | null type digits n htype hdigits => simp
  | bulk bulk hbulk => simp [SkippedBulk.wire]
  | array count values hcount hvalues => simp

/-- Values one behind the other, when each of them is found. -/
theorem detectElements_flatten
    (hvalues : ∀ value ∈ values, 0 < value.length ∧
      ∀ rest, detectResponse (value ++ rest) = value.length) (rest : List UInt8) :
    detectElements values.length (values.flatten ++ rest) =
      some values.flatten.length := by
  induction values with
  | nil =>
      rw [List.length_nil, detectElements]
      rfl
  | cons value values ih =>
      obtain ⟨⟨hpos, hvalue⟩, hvalues⟩ := List.forall_mem_cons.mp hvalues
      have hfirst := hvalue (values.flatten ++ rest)
      rw [List.flatten_cons, List.append_assoc, List.length_cons,
        detectElements_succ (by rw [hfirst]; exact hpos), hfirst, List.drop_left,
        ih hvalues, List.length_append]
      rfl

/-- Whole values are found, by induction on their structure. -/
theorem detectResponse_whole (hvalue : WholeValue value) (rest : List UInt8) :
    detectResponse (value ++ rest) = value.length := by
  induction hvalue generalizing rest with
  | text type content htype hcontent =>
      have htext : type :: (content ++ crlf) ++ rest =
          type :: (content ++ crlf ++ rest) := by simp
      rw [htext, detectResponse_text htype, findCrlf_line hcontent]
      simp [crlf]
  | null type digits n htype hdigits =>
      have htext : type :: (signText true ++ (digits ++ crlf)) ++ rest =
          type :: (signText true ++ (digits ++ crlf ++ rest)) := by simp
      rw [htext, detectResponse_null htype (takeLength_run hdigits rest)]
      simp only [List.length_cons, List.length_append]
      omega
  | bulk bulk hbulk =>
      have htext : bulk.wire ++ rest = 36 :: (signText false ++ (bulk.length ++ crlf ++
          (bulk.content ++ bulk.ending ++ rest))) := by
        simp [SkippedBulk.wire, signText]
      have hending := hbulk.ending
      rw [htext, detectResponse_bulk (takeLength_run hbulk.length _), if_neg (by
        simp only [List.length_append]
        omega)]
      simp only [SkippedBulk.wire, signText, List.length_cons, List.length_append,
        Bool.false_eq_true, if_false, List.length_nil]
      omega
  | array count values hcount hvalues ih =>
      have htext : 42 :: (count ++ crlf ++ values.flatten) ++ rest =
          42 :: (signText false ++ (count ++ crlf ++ (values.flatten ++ rest))) := by
        simp [signText]
      rw [htext, detectResponse_array (takeLength_run hcount _),
        detectElements_flatten (fun value hvalue => ⟨(hvalues value hvalue).length_pos,
          ih value hvalue⟩)]
      simp only [signText, List.length_cons, List.length_append, Option.map_some,
        Option.getD_some, Bool.false_eq_true, if_false, List.length_nil]
      omega

/-- Elements that are found are values one behind the other, when each value
that is found is. -/
theorem exists_values {size : Nat}
    (hvalue : ∀ rest : List UInt8, rest.length ≤ data.length →
      0 < detectResponse rest → ∃ value tail, WholeValue value ∧ rest = value ++ tail)
    (helements : detectElements n data = some size) :
    ∃ (values : List (List UInt8)) (tail : List UInt8), values.length = n ∧
      (∀ value ∈ values, WholeValue value) ∧ data = values.flatten ++ tail := by
  induction n generalizing data size with
  | zero => exact ⟨[], data, rfl, by simp, rfl⟩
  | succ n ih =>
      rcases Nat.eq_zero_or_pos (detectResponse data) with hzero | hpos
      · rw [detectElements_none hzero] at helements
        cases helements
      · rw [detectElements_succ hpos] at helements
        obtain ⟨others, hothers, -⟩ := Option.map_eq_some_iff.mp helements
        obtain ⟨value, behind, hwhole, rfl⟩ := hvalue data (Nat.le_refl _) hpos
        rw [detectResponse_whole hwhole, List.drop_left] at hothers
        obtain ⟨values, tail, rfl, hvalues, rfl⟩ := ih (fun rest hrest =>
          hvalue rest (by rw [List.length_append]; omega)) hothers
        exact ⟨value :: values, tail, rfl, List.forall_mem_cons.mpr ⟨hwhole, hvalues⟩,
          by simp⟩

/-- What is found is a whole value. -/
theorem exists_whole (data : List UInt8) (hpos : 0 < detectResponse data) :
    ∃ value tail, WholeValue value ∧ data = value ++ tail := by
  induction hsize : data.length using Nat.strong_induction_on generalizing data with
  | _ size ih =>
      subst hsize
      cases data with
      | nil =>
          rw [detectResponse] at hpos
          cases hpos
      | cons type rest =>
          by_cases htext : type = 43 ∨ type = 45 ∨ type = 58
          · rw [detectResponse_text htext] at hpos
            cases hfind : findCrlf rest with
            | none => simp [hfind] at hpos
            | some size =>
                obtain ⟨content, tail, hcontent, rfl, -⟩ := findCrlf_eq_some.mp hfind
                exact ⟨_, tail, .text type content htext hcontent, by simp⟩
          by_cases hcount : type = 36 ∨ type = 42
          · cases hlength : takeLength rest with
            | none =>
                rw [detectResponse_no_length hcount hlength] at hpos
                cases hpos
            | some found =>
                obtain ⟨negative, n, tail⟩ := found
                obtain ⟨digits, hrun, rfl⟩ := takeLength_eq_some.mp hlength
                cases negative with
                | true => exact ⟨_, tail, .null type digits n hcount hrun, by simp⟩
                | false =>
                    rcases hcount with rfl | rfl
                    · have hskip : skipBulk (36 :: (digits ++ crlf ++ tail)) =
                          some (tail.drop (n + 2)) := by
                        rw [detectResponse_bulk hlength] at hpos
                        rw [skipBulk]
                        simp only [takeCount_run hrun]
                        split at hpos
                        · cases hpos
                        · rename_i hlong
                          rw [if_neg hlong]
                      obtain ⟨bulk, hbulk, htail⟩ := skipBulk_eq_some.mp hskip
                      exact ⟨bulk.wire, _, .bulk bulk hbulk, htail⟩
                    · rw [detectResponse_array hlength] at hpos
                      cases helements : detectElements n tail with
                      | none => simp [helements] at hpos
                      | some size =>
                          obtain ⟨values, behind, rfl, hvalues, rfl⟩ :=
                            exists_values (fun rest hrest hfirst =>
                              ih rest.length (by
                                simp only [List.length_cons, List.length_append]
                                omega) rest hfirst rfl) helements
                          exact ⟨_, behind, .array digits values hrun hvalues,
                            by simp [signText]⟩
          · rw [detectResponse_other htext hcount] at hpos
            cases hpos

/-- The beginning of a whole value is not one itself. -/
theorem detectResponse_part {more : List UInt8} (hvalue : WholeValue value)
    (hsplit : data ++ more = value) (hmore : more ≠ []) : detectResponse data = 0 := by
  rcases Nat.eq_zero_or_pos (detectResponse data) with hzero | hpos
  · exact hzero
  · obtain ⟨front, tail, hfront, rfl⟩ := exists_whole data hpos
    -- the value would be found at two lengths
    have hwhole := detectResponse_whole hvalue []
    rw [List.append_nil, ← hsplit, List.append_assoc, detectResponse_whole hfront]
      at hwhole
    have hlong := List.length_pos_iff.mpr hmore
    simp only [List.length_append] at hwhole
    omega

end Detect

end UltraNet
