/-
`HttpClient::send` of `http.hpp`: the request is written whole, then each read
goes to the last 4096 bytes of a buffer that grows by 4096 bytes after every read.
What a short read leaves free stays in front of the next one, as zero bytes.
-/
import UltraNet.HttpHeads

namespace UltraNet

/-- The loop over the header lines: the headers pushed, and the data behind the
loop unless it returns 0. -/
def pushHeaders (data : List UInt8) : List Header × Option (List UInt8) :=
  if data = [] then ([], some [])
  else if data.take 2 = [13, 10] then ([], some (data.drop 2))
  else
    match _hline : takeLine data with
    | none => ([], none)
    | some (line, rest) =>
        let (headers, rest) := pushHeaders rest
        ((parseHeader line).toList ++ headers, rest)
termination_by data.length
decreasing_by
  obtain ⟨hdata, -⟩ := takeLine_eq ‹takeLine data = _›
  have := congrArg List.length hdata
  simp only [List.length_append, List.length_cons] at this
  omega

/-- The end of `parse`: the body by the content length, from `rest` on. -/
def HttpResponse.parseBody (resp : HttpResponse) (size : Nat)
    (rest : Option (List UInt8)) : HttpResponse × Nat :=
  match rest with
  | none => (resp, 0)
  | some rest =>
      let length := HttpResponse.contentLength resp.headers
      if rest.length < length.toNat then (resp, 0)
      else
        ({ resp with body := rest.take length.toNat },
          size - rest.length + length.toNat)

/-- `parse` on an object that is already filled: what it assigns before it
returns 0 stays. -/
def HttpResponse.parseInto (resp : HttpResponse) (data : List UInt8) :
    HttpResponse × Nat :=
  match takeLine data with
  | none => (resp, 0)
  | some (line, rest) =>
      match cutAtSpace line with
      | none => (resp, 0)
      | some (version, status) =>
          -- a status line without a message leaves the message as it is
          let (code, message) := (cutAtSpace status).getD (status,
            resp.statusMessage)
          let (headers, rest) := pushHeaders rest
          { resp with
            statusCode := statusCodeOf code, statusMessage := message,
            httpVersion := version, headers := headers }.parseBody data.length rest

/-- The members as they are initialised. -/
def HttpResponse.fresh : HttpResponse := ⟨200, ascii "OK", ascii "HTTP/1.1", [], []⟩

/-- `waiting` is a run that has not come to its end. -/
inductive SendOutcome (E : Type) where
  | returned (response : HttpResponse)
  | thrown (code : E) (what : String)
  | waiting

namespace HttpClient

variable {E : Type}

/-- The headers that `send` adds. -/
def addHeaders (hostHeader : List UInt8) (request : HttpRequest) : HttpRequest :=
  let request :=
    if hostHeader ≠ [] ∧ findHeader request.headers (ascii "host") = [] then
      { request with headers := request.headers ++ [⟨ascii "Host", hostHeader⟩] }
    else request
  if findHeader request.headers (ascii "connection") = [] then
    { request with
      headers := request.headers ++ [⟨ascii "Connection", ascii "close"⟩] }
  else request

/-- The loop that writes the request, over the results of `write`. -/
def writeLoop (data : List UInt8) (total : Nat) (writes : List (Except E Nat)) :
    Option (Except E Unit) :=
  if total < data.length then
    match writes with
    | [] => none
    | .error code :: _ => some (.error code)
    | .ok size :: writes => writeLoop data (total + size) writes
  else some (.ok ())

/-- The bytes of one `resize`. -/
def zeros (n : Nat) : List UInt8 := List.replicate n 0

/-- The bytes of a read, from `pos` on. -/
def store (buf : List UInt8) (pos : Nat) (bytes : List UInt8) : List UInt8 :=
  buf.take pos ++ bytes ++ buf.drop (pos + bytes.length)

/-- The loop that reads the response, over the results of `read`; no bytes are
the end of the stream. -/
def readLoop (buf : List UInt8) (resp : HttpResponse) :
    List (Except E (List UInt8)) → SendOutcome E
  | [] => .waiting
  | .error code :: _ => .thrown code "HTTP read failed"
  | .ok [] :: _ => .returned resp
  | .ok bytes :: reads =>
      let pos := buf.length - 4096
      let buf := store buf pos bytes
      let (resp, consumed) := resp.parseInto (buf.take (pos + bytes.length))
      if 0 < consumed then .returned resp
      else readLoop (buf ++ zeros 4096) resp reads

def send (hostHeader : List UInt8) (request : HttpRequest)
    (writes : List (Except E Nat)) (reads : List (Except E (List UInt8))) :
    SendOutcome E :=
  match writeLoop (addHeaders hostHeader request).serialize 0 writes with
  | none => .waiting
  | some (.error code) => .thrown code "HTTP write failed"
  | some (.ok ()) => readLoop (zeros 4096) .fresh reads

end HttpClient

theorem parseHeaders_eq_push (data : List UInt8) :
    parseHeaders data =
      (pushHeaders data).2.map fun rest => ((pushHeaders data).1, rest) := by
  fun_induction pushHeaders data with
  | case1 => rw [parseHeaders_nil]; rfl
  | case2 data hdata hblank => rw [parseHeaders, if_neg hdata, if_pos hblank]; rfl
  | case3 data hdata hblank hline =>
      rw [parseHeaders, if_neg hdata, if_neg hblank]
      split
      · rfl
      · rename_i hsome
        rw [hline] at hsome
        cases hsome
  | case4 data hdata hblank line rest hline headers tail hpush ih =>
      obtain ⟨hsplit, hcr⟩ := takeLine_eq hline
      have hnonempty : line ≠ [] := by
        rintro rfl
        exact hblank (by simp [hsplit])
      have htext : data = line ++ crlf ++ rest := by simp [hsplit, crlf]
      rw [htext, parseHeaders_line hnonempty hcr, ih, hpush]
      cases tail with
      | none => rfl
      | some tail => rfl

/-- The lines that the loop has read, and what stands behind them. -/
theorem pushHeaders_eq (data : List UInt8) :
    ∃ lines rest, (∀ line ∈ lines, IsLine line) ∧
      data = linesText lines ++ rest ∧
      (pushHeaders data).1 = lines.filterMap parseHeader ∧
      ∀ behind, (pushHeaders data).2 = some behind →
        rest = crlf ++ behind ∨ behind = [] := by
  fun_induction pushHeaders data with
  | case1 => exact ⟨[], [], by simp, rfl, rfl, by simp⟩
  | case2 data hdata hblank =>
      refine ⟨[], data, by simp, rfl, rfl, ?_⟩
      rintro behind ⟨⟩
      refine .inl ?_
      rw [crlf, ← hblank, List.take_append_drop]
  | case3 data => exact ⟨[], data, by simp, rfl, rfl, by simp⟩
  | case4 data hdata hblank line rest hline headers tail hpush ih =>
      obtain ⟨lines, behind, hlines, hrest, hheaders, htail⟩ := ih
      obtain ⟨hsplit, hcr⟩ := takeLine_eq hline
      have hnonempty : line ≠ [] := by
        rintro rfl
        exact hblank (by simp [hsplit])
      refine ⟨line :: lines, behind, ?_, ?_, ?_, ?_⟩
      · rw [List.forall_mem_cons]
        exact ⟨⟨hnonempty, hcr⟩, hlines⟩
      · simp [hsplit, hrest, linesText, crlf]
      · rw [hpush] at hheaders
        cases hheader : parseHeader line with
        | none => simpa [hheader] using hheaders
        | some header => simpa [hheader] using hheaders
      · rwa [hpush] at htail

theorem pushHeaders_line {line : List UInt8} (hline : IsLine line)
    (rest : List UInt8) :
    pushHeaders (line ++ crlf ++ rest) =
      ((parseHeader line).toList ++ (pushHeaders rest).1, (pushHeaders rest).2) := by
  obtain ⟨hnonempty, hcr⟩ := hline
  have htake := takeLine_line hcr rest
  have hne : line ++ crlf ++ rest ≠ [] := by simp [hnonempty]
  rw [pushHeaders, if_neg hne, if_neg (take_two_ne_crlf hnonempty hcr hne
    (.inr ⟨crlf ++ rest, by rw [List.append_assoc]⟩))]
  split
  · rename_i hnone
    rw [htake] at hnone
    cases hnone
  · rename_i found tail hsome
    rw [htake] at hsome
    obtain ⟨rfl, rfl⟩ := Prod.mk.inj (Option.some.inj hsome)
    rfl

theorem pushHeaders_fieldsText (fields : List HeaderField) (rest : List UInt8) :
    pushHeaders (fieldsText fields ++ rest) =
      (fields.map HeaderField.header ++ (pushHeaders rest).1,
        (pushHeaders rest).2) := by
  induction fields with
  | nil => rfl
  | cons field fields ih =>
      have htext : fieldsText (field :: fields) ++ rest =
          field.line ++ crlf ++ (fieldsText fields ++ rest) := by
        simp [fieldsText]
      rw [htext, pushHeaders_line ⟨field.line_nonempty, field.line_cr⟩, ih,
        field.parseHeader_line]
      rfl

theorem takeLine_append {data line rest : List UInt8}
    (hline : takeLine data = some (line, rest)) (more : List UInt8) :
    takeLine (data ++ more) = some (line, rest ++ more) := by
  obtain ⟨rfl, hcr⟩ := takeLine_eq hline
  have hmore := takeLine_line hcr (rest ++ more)
  simpa [crlf] using hmore

namespace HttpResponse

section

variable {data line rest version status : List UInt8}

theorem parseInto_start (hline : takeLine data = some (line, rest))
    (hcut : cutAtSpace line = some (version, status)) (resp : HttpResponse) :
    resp.parseInto data =
      parseBody ⟨statusCodeOf ((cutAtSpace status).getD (status,
        resp.statusMessage)).1,
        ((cutAtSpace status).getD (status, resp.statusMessage)).2, version,
        (pushHeaders rest).1, resp.body⟩ data.length (pushHeaders rest).2 := by
  simp only [parseInto, hline, hcut]

theorem parseBody_headers (resp : HttpResponse) (size : Nat)
    (rest : Option (List UInt8)) :
    (resp.parseBody size rest).1 =
      { resp with body := (resp.parseBody size rest).1.body } := by
  unfold parseBody
  split
  · rfl
  · dsimp only
    split
    · rfl
    · rfl

end

/-- On the object as it is initialised this is `parse`. -/
theorem parse_eq_parseInto (data : List UInt8) :
    parse data = none ∧ (fresh.parseInto data).2 = 0 ∨
      parse data = some (fresh.parseInto data) := by
  cases hline : takeLine data with
  | none => exact .inl ⟨by simp [parse, hline], by simp [parseInto, hline]⟩
  | some found =>
      obtain ⟨line, rest⟩ := found
      cases hcut : cutAtSpace line with
      | none =>
          exact .inl ⟨by simp [parse, hline, hcut], by simp [parseInto, hline, hcut]⟩
      | some words =>
          obtain ⟨version, status⟩ := words
          rw [parseInto_start hline hcut]
          simp only [parse, hline, hcut, parseHeaders_eq_push, parseBody]
          cases hpush : (pushHeaders rest).2 with
          | none => exact .inl ⟨rfl, rfl⟩
          | some tail =>
              simp only [Option.map_some]
              split
              · exact .inl ⟨rfl, rfl⟩
              · exact .inr rfl

theorem parse_pos {data : List UInt8} {parsed : HttpResponse × Nat}
    (hparse : parse data = some parsed) : 0 < parsed.2 := by
  have hreturn : parseReturn data ≠ 0 := by
    rw [parseReturn_ne_zero, hparse]
    exact Option.some_ne_none _
  rw [parseReturn, hparse] at hreturn
  exact Nat.pos_of_ne_zero hreturn

theorem parseInto_pos_iff (data : List UInt8) :
    0 < (fresh.parseInto data).2 ↔ parse data ≠ none := by
  obtain ⟨hnone, hzero⟩ | hsome := parse_eq_parseInto data
  · simp [hnone, hzero]
  · simp [hsome, parse_pos hsome]

theorem parseBody_zero {resp : HttpResponse} {size : Nat}
    {rest : Option (List UInt8)} (hrest : ∀ behind, rest = some behind →
      behind.length < size) (hzero : (resp.parseBody size rest).2 = 0) :
    (resp.parseBody size rest).1 = resp := by
  unfold parseBody at hzero ⊢
  cases rest with
  | none => rfl
  | some behind =>
      have hlength := hrest behind rfl
      dsimp only at hzero ⊢
      split at hzero
      · rename_i hshort
        rw [if_pos hshort]
      · dsimp only at hzero
        omega

/-- A body comes from the data behind the header lines. -/
theorem parseBody_body {resp : HttpResponse} (hnone : resp.body = []) {size : Nat}
    {rest : Option (List UInt8)} (hbody : (resp.parseBody size rest).1.body ≠ []) :
    ∃ behind, rest = some behind ∧ (resp.parseBody size rest).1.body <+: behind := by
  unfold parseBody at hbody ⊢
  cases rest with
  | none => exact absurd hnone hbody
  | some behind =>
      refine ⟨behind, rfl, ?_⟩
      dsimp only at hbody ⊢
      split
      · rw [hnone]
        exact List.nil_prefix
      · exact List.take_prefix _ _

theorem parseBody_fields (resp : HttpResponse) (size : Nat)
    (rest : Option (List UInt8)) :
    (resp.parseBody size rest).1.statusCode = resp.statusCode ∧
      (resp.parseBody size rest).1.headers = resp.headers := by
  rw [parseBody_headers]
  exact ⟨rfl, rfl⟩

theorem parseBody_snd {resp other : HttpResponse} (hheaders : resp.headers =
    other.headers)
    (size : Nat) (rest : Option (List UInt8)) :
    (resp.parseBody size rest).2 = (other.parseBody size rest).2 := by
  unfold parseBody
  rw [hheaders]
  split
  · rfl
  · dsimp only
    split
    · rfl
    · rfl

/-- On any object `parse` finds the same status code and headers. -/
theorem parseInto_any (resp : HttpResponse) (data : List UInt8) :
    (resp.parseInto data).2 = (fresh.parseInto data).2 ∧
      (0 < (fresh.parseInto data).2 →
        (resp.parseInto data).1.statusCode = (fresh.parseInto data).1.statusCode ∧
        (resp.parseInto data).1.headers = (fresh.parseInto data).1.headers) := by
  cases hline : takeLine data with
  | none => simp [parseInto, hline]
  | some found =>
      obtain ⟨line, rest⟩ := found
      cases hcut : cutAtSpace line with
      | none => simp [parseInto, hline, hcut]
      | some words =>
          obtain ⟨version, status⟩ := words
          rw [parseInto_start hline hcut, parseInto_start hline hcut]
          refine ⟨parseBody_snd (by rfl) _ _, fun _ => ?_⟩
          rw [(parseBody_fields _ _ _).1, (parseBody_fields _ _ _).2,
            (parseBody_fields _ _ _).1, (parseBody_fields _ _ _).2]
          refine ⟨?_, rfl⟩
          cases hwords : cutAtSpace status with
          | none => rfl
          | some words => rfl

/-- Parsing on, when more data are there, is parsing from the start. -/
theorem parseInto_again {resp : HttpResponse} {data : List UInt8}
    (hzero : (resp.parseInto data).2 = 0) (more : List UInt8) :
    (resp.parseInto data).1.parseInto (data ++ more) =
      resp.parseInto (data ++ more) := by
  cases hline : takeLine data with
  | none => simp [parseInto, hline]
  | some found =>
      obtain ⟨line, rest⟩ := found
      cases hcut : cutAtSpace line with
      | none => simp [parseInto, hline, hcut]
      | some words =>
          obtain ⟨version, status⟩ := words
          have hbehind : ∀ behind, (pushHeaders rest).2 = some behind →
              behind.length < data.length := by
            intro behind hpush
            obtain ⟨lines, tail, -, hrest, -, htail⟩ := pushHeaders_eq rest
            obtain ⟨hdata, -⟩ := takeLine_eq hline
            have hlength := congrArg List.length hdata
            obtain rfl | rfl := htail behind hpush
            · simp [hrest, crlf] at hlength ⊢
              omega
            · simp at hlength ⊢
              omega
          have hmore := takeLine_append hline more
          rw [parseInto_start hline hcut] at hzero ⊢
          rw [parseBody_zero hbehind hzero, parseInto_start hmore hcut,
            parseInto_start hmore hcut]
          cases hwords : cutAtSpace status with
          | none => rfl
          | some words => rfl

end HttpResponse

namespace HttpClient

variable {E : Type}

theorem writeLoop_whole (data : List UInt8) :
    writeLoop (E := E) data 0 [.ok data.length] = some (.ok ()) := by
  rw [writeLoop]
  split
  · simp [writeLoop]
  · rfl

@[simp] theorem zeros_length (n : Nat) : (zeros n).length = n := by simp [zeros]

@[simp] theorem drop_zeros (n k : Nat) : (zeros n).drop k = zeros (n - k) := by
  simp [zeros]

/-- A read with the zero bytes that the next read leaves behind it. -/
def padded (read : List UInt8) : List UInt8 := read ++ zeros (4096 - read.length)

/-- The bytes of the buffer that are parsed after the last read: the reads before
it stand 4096 bytes apart. -/
def gapped (before : List (List UInt8)) (last : List UInt8) : List UInt8 :=
  before.flatMap padded ++ last

theorem gapped_cons (read : List UInt8) (before : List (List UInt8))
    (last : List UInt8) :
    gapped (read :: before) last = padded read ++ gapped before last := by
  simp [gapped]

theorem split_reads {before front behind : List (List UInt8)}
    {last read : List UInt8} (hreads : before ++ [last] = front ++ read :: behind) :
    before = front ∧ last = read ∧ behind = [] ∨
      ∃ others, before = front ++ read :: others := by
  obtain rfl | ⟨others, other, rfl⟩ := List.eq_nil_or_concat behind
  · obtain ⟨rfl, hlast⟩ := List.append_inj' hreads rfl
    cases hlast
    exact .inl ⟨rfl, rfl, rfl⟩
  · have hsplit : before ++ [last] = (front ++ read :: others) ++ [other] := by
      simpa using hreads
    obtain ⟨rfl, -⟩ := List.append_inj' hsplit rfl
    exact .inr ⟨others, rfl⟩

theorem gapped_begins {before front behind : List (List UInt8)}
    {last read : List UInt8} (hreads : before ++ [last] = front ++ read :: behind) :
    gapped front read <+: gapped before last := by
  obtain ⟨rfl, rfl, -⟩ | ⟨others, rfl⟩ := split_reads hreads
  · exact List.prefix_refl _
  · refine ⟨zeros (4096 - read.length) ++ gapped others last, ?_⟩
    simp [gapped, padded]

/-- Where the run of the loop ends: at the first read behind which `parse`
accepts, or at the last one. -/
structure EndsAt (before reads front : List (List UInt8)) (read : List UInt8)
    (behind : List (List UInt8)) : Prop where
  split : reads = front ++ read :: behind
  waits : ∀ others piece tail, front = others ++ piece :: tail →
    HttpResponse.parse (gapped (before ++ others) piece) = none
  stops : HttpResponse.parse (gapped (before ++ front) read) ≠ none ∨ behind = []

theorem EndsAt.cons {before reads front behind : List (List UInt8)}
    {first read : List UInt8} (hends : EndsAt (before ++ [first]) reads
      front read behind)
    (hnone : HttpResponse.parse (gapped before first) = none) :
    EndsAt before (first :: reads) (first :: front) read behind := by
  refine ⟨by rw [hends.split]; rfl, ?_, by simpa using hends.stops⟩
  intro others piece tail hfront
  cases others with
  | nil =>
      obtain ⟨rfl, -⟩ := List.cons.inj hfront
      simpa using hnone
  | cons other others =>
      obtain ⟨rfl, hothers⟩ := List.cons.inj hfront
      simpa using hends.waits others piece tail hothers

theorem store_read (before : List (List UInt8)) (read : List UInt8) :
    store (before.flatMap padded ++ zeros 4096) (before.flatMap padded).length read =
      gapped before read ++ zeros (4096 - read.length) := by
  rw [store, List.take_left, ← List.drop_drop, List.drop_left, drop_zeros, gapped]

/-- One read, into the buffer that the reads before have left. -/
theorem readLoop_read {before : List (List UInt8)} {resp : HttpResponse}
    {read : List UInt8} (hread : read ≠ [])
    (hresp : resp.parseInto (gapped before read) =
      HttpResponse.fresh.parseInto (gapped before read))
    (reads : List (Except E (List UInt8))) :
    readLoop (before.flatMap padded ++ zeros 4096) resp (.ok read :: reads) =
      if 0 < (HttpResponse.fresh.parseInto (gapped before read)).2 then
        .returned (HttpResponse.fresh.parseInto (gapped before read)).1
      else
        readLoop ((before ++ [read]).flatMap padded ++ zeros 4096)
          (HttpResponse.fresh.parseInto (gapped before read)).1 reads := by
  have hpos : (before.flatMap padded ++ zeros 4096).length - 4096 =
      (before.flatMap padded).length := by
    rw [List.length_append, zeros_length, Nat.add_sub_cancel]
  have hdata : (gapped before read ++ zeros (4096 - read.length)).take
      ((before.flatMap padded).length + read.length) = gapped before read :=
    List.take_left' (by rw [gapped, List.length_append])
  have hbuf : gapped before read ++ zeros (4096 - read.length) =
      (before ++ [read]).flatMap padded := by
    rw [List.flatMap_append, List.flatMap_singleton, gapped, padded,
      List.append_assoc]
  rw [readLoop.eq_4 _ _ _ _ hread, hpos, store_read, hdata, hresp, hbuf]

/-- The run of the loop over all reads and the end of the stream. -/
theorem readLoop_eq {reads : List (List UInt8)} (hreads : reads ≠ [])
    (hsome : ∀ read ∈ reads, read ≠ []) {before : List (List UInt8)}
    {resp : HttpResponse} (hresp : ∀ more,
      resp.parseInto (before.flatMap padded ++ more) =
        HttpResponse.fresh.parseInto (before.flatMap padded ++ more)) :
    ∃ front read behind, EndsAt before reads front read behind ∧
      readLoop (before.flatMap padded ++ zeros 4096) resp
          (reads.map .ok ++ [.ok []] : List (Except E (List UInt8))) =
        .returned (HttpResponse.fresh.parseInto
          (gapped (before ++ front) read)).1 := by
  induction reads generalizing before resp with
  | nil => exact absurd rfl hreads
  | cons read reads ih =>
      obtain ⟨hread, hothers⟩ := List.forall_mem_cons.mp hsome
      rw [List.map_cons, List.cons_append, readLoop_read hread (hresp read)]
      by_cases hconsumed :
          0 < (HttpResponse.fresh.parseInto (gapped before read)).2
      · refine ⟨[], read, reads, ⟨rfl, by simp, .inl ?_⟩, ?_⟩
        · simpa using (HttpResponse.parseInto_pos_iff _).mp hconsumed
        · rw [if_pos hconsumed, List.append_nil]
      · rw [if_neg hconsumed]
        have hnone : HttpResponse.parse (gapped before read) = none := by
          rw [HttpResponse.parseInto_pos_iff] at hconsumed
          exact not_not.mp hconsumed
        by_cases hlast : reads = []
        · subst hlast
          refine ⟨[], read, [], ⟨rfl, by simp, .inr rfl⟩, ?_⟩
          rw [List.map_nil, List.nil_append, readLoop, List.append_nil]
        · have hagain : ∀ more,
              (HttpResponse.fresh.parseInto (gapped before read)).1.parseInto
                ((before ++ [read]).flatMap padded ++ more) =
              HttpResponse.fresh.parseInto
                ((before ++ [read]).flatMap padded ++ more) := by
            intro more
            have hdata : (before ++ [read]).flatMap padded ++ more =
                gapped before read ++ (zeros (4096 - read.length) ++ more) := by
              simp [gapped, padded]
            rw [hdata]
            exact HttpResponse.parseInto_again (Nat.eq_zero_of_not_pos hconsumed) _
          obtain ⟨front, last, behind, hends, hrun⟩ := ih hlast hothers hagain
          refine ⟨read :: front, last, behind, hends.cons hnone, ?_⟩
          rw [hrun, List.append_assoc, List.singleton_append]

end HttpClient

end UltraNet
