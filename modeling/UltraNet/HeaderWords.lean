/-
The header matchers of `http.hpp` and of the HTTP proxy, which compare eight
bytes at a time with bit 5 set in every byte.  Against a reference of lower case
letters and hyphens that is the comparison without regard to case, but for the
CR, which turns into a hyphen and which the parsers keep out.
-/
import UltraNet.ByteOrder
import UltraNet.HttpRoundTrips

namespace UltraNet

/-- `kCM`: bit 5 of every byte. -/
def caseMask : UInt64 := 0x2020202020202020

def wordMatches (word reference : UInt64) : Bool :=
  word ||| caseMask = reference ||| caseMask

/-- The first content length of a request, -1 without one. -/
def getContentLength (headers : List Header) : Int :=
  match headers.find? fun header =>
      matchesLower header.name (ascii "content-length") with
  | some header => (safeStoll header.value).getD (-1)
  | none => -1

/-- Eight bytes of the `Connection` value at a time are compared with `close`
and three zero bytes, without regard to bit 5. -/
def requestKeepalive (request : HttpRequest) : Bool :=
  let value := findHeader request.headers (ascii "connection")
  let closing := (List.range (value.length - 4)).any fun i =>
    let word := (value.drop i).take 8
    matchesLower (word ++ List.replicate (8 - word.length) 0)
      (ascii "close" ++ [0, 0, 0])
  if closing then false
  else request.httpVersion = ascii "HTTP/1.1"

/-- `get_content_length`, with its two overlapping words of the name. -/
def getContentLengthWords : List Header → Int
  | [] => -1
  | header :: headers =>
      if header.name.length = 14 ∧
          wordMatches (readLeU64 header.name) (readLeU64 (ascii "content-")) ∧
          wordMatches (readLeU64 (header.name.drop 6))
            (readLeU64 (ascii "t-length")) then
        (safeStoll header.value).getD (-1)
      else getContentLengthWords headers

/-- `is_keepalive`, with the words of "keep-ali" and "ep-alive". -/
def isKeepaliveWords (response : HttpResponse) : Bool :=
  let v := findHeader response.headers (ascii "connection")
  (List.range (v.length - 9)).any fun i =>
    wordMatches (readLeU64 (v.drop i)) 0x696C612D7065656B &&
      wordMatches (readLeU64 (v.drop (i + 2))) 0x6576696C612D7065

/-- `request_keepalive`: the word holds up to eight bytes of the value, and zero
bytes behind them. -/
def requestKeepaliveWords (request : HttpRequest) : Bool :=
  let conn := findHeader request.headers (ascii "connection")
  if conn = [] then request.httpVersion = ascii "HTTP/1.1"
  else if (List.range (conn.length - 4)).any fun i =>
      wordMatches (readLeU64 (conn.drop i)) 0x00000065736F6C63 then false
  else request.httpVersion = ascii "HTTP/1.1"

def maskBytes (bytes : List UInt8) : List UInt8 := bytes.map (· ||| 0x20)

/-- The eight bytes that a word is read from. -/
def wordBytes (bytes : List UInt8) : List UInt8 :=
  bytes.take 8 ++ List.replicate (8 - bytes.length) 0

theorem length_wordBytes (bytes : List UInt8) : (wordBytes bytes).length = 8 := by
  rw [wordBytes, List.length_append, List.length_take, List.length_replicate]
  omega

theorem leNat_append_zeros (bytes : List UInt8) (k : Nat) :
    leNat (bytes ++ List.replicate k 0) = leNat bytes := by
  induction bytes with
  | nil =>
      induction k with
      | zero => rfl
      | succ k ih => simpa [List.replicate_succ, leNat] using ih
  | cons byte rest ih => rw [List.cons_append, leNat, leNat, ih]

theorem toNat_readLeU64_eq (bytes : List UInt8) :
    (readLeU64 bytes).toNat = leNat (wordBytes bytes) := by
  rw [toNat_readLeU64, wordBytes, leNat_append_zeros]

theorem leNat_or_mask (bytes : List UInt8) :
    leNat bytes ||| leNat (List.replicate bytes.length 0x20) =
      leNat (maskBytes bytes) := by
  induction bytes with
  | nil => rfl
  | cons byte rest ih =>
      have hor : ∀ high low mask : Nat, low < 2 ^ 8 →
          (low + 2 ^ 8 * high) ||| (0x20 + 2 ^ 8 * mask) =
            (low ||| 0x20) + 2 ^ 8 * (high ||| mask) := by
        intro high low mask hlow
        have hdiv := Nat.or_div_two_pow (a := low + 2 ^ 8 * high)
          (b := 0x20 + 2 ^ 8 * mask) (n := 8)
        have hmod := Nat.or_mod_two_pow (a := low + 2 ^ 8 * high)
          (b := 0x20 + 2 ^ 8 * mask) (n := 8)
        have hhigh : (low + 2 ^ 8 * high) / 2 ^ 8 = high := by omega
        have hmask : (0x20 + 2 ^ 8 * mask) / 2 ^ 8 = mask := by omega
        have hlow' : (low + 2 ^ 8 * high) % 2 ^ 8 = low := by omega
        have htwenty : (0x20 + 2 ^ 8 * mask) % 2 ^ 8 = 0x20 := by omega
        rw [hhigh, hmask] at hdiv
        rw [hlow', htwenty] at hmod
        omega
      have hbyte := hor (leNat rest) byte.toNat
        (leNat (List.replicate rest.length 0x20)) byte.toNat_lt
      rw [ih] at hbyte
      simpa [maskBytes, leNat, List.replicate_succ] using hbyte

theorem leNat_inj {left right : List UInt8} (hlength : left.length = right.length) :
    leNat left = leNat right ↔ left = right := by
  refine ⟨fun heq => ?_, congrArg leNat⟩
  rw [← leBytes_leNat left, ← leBytes_leNat right, heq, hlength]

/-- The words match when their bytes do. -/
theorem wordMatches_iff (bytes reference : List UInt8) :
    wordMatches (readLeU64 bytes) (readLeU64 reference) = true ↔
      maskBytes (wordBytes bytes) = maskBytes (wordBytes reference) := by
  have hmask : caseMask.toNat = leNat (List.replicate 8 0x20) := by decide
  have hvalue : ∀ text : List UInt8, (readLeU64 text ||| caseMask).toNat =
      leNat (maskBytes (wordBytes text)) := by
    intro text
    rw [UInt64.toNat_or, toNat_readLeU64_eq, hmask, ← length_wordBytes text,
      leNat_or_mask]
  rw [wordMatches, decide_eq_true_eq, ← UInt64.toNat_inj, hvalue, hvalue, leNat_inj]
  simp [maskBytes, length_wordBytes]

theorem wordBytes_eq {bytes : List UInt8} (hlength : 8 ≤ bytes.length) :
    wordBytes bytes = bytes.take 8 := by
  have hnone : 8 - bytes.length = 0 := by omega
  rw [wordBytes, hnone, List.replicate_zero, List.append_nil]

theorem matchesLower_iff (text reference : List UInt8) :
    matchesLower text reference = true ↔ maskBytes text = maskBytes reference := by
  induction text generalizing reference with
  | nil =>
      cases reference with
      | nil => simp [matchesLower, maskBytes]
      | cons r reference => simp [matchesLower, maskBytes]
  | cons c text ih =>
      cases reference with
      | nil => simp [matchesLower, maskBytes]
      | cons r reference =>
          have hrest := ih reference
          simp only [matchesLower, maskBytes, List.length_cons, List.zip_cons_cons,
            List.all_cons, List.map_cons, List.cons.injEq, Bool.and_eq_true,
            decide_eq_true_eq, Nat.add_right_cancel_iff] at hrest ⊢
          rw [← hrest]
          tauto

/-- A lower case letter or a hyphen. -/
def isReference (r : UInt8) : Bool := r = 45 || 97 ≤ r && r ≤ 122

theorem mask_reference {r : UInt8} (hr : isReference r = true) :
    r ||| 0x20 = r := by
  have hall : ∀ n < 256, isReference (UInt8.ofNat n) = true →
      UInt8.ofNat n ||| 0x20 = UInt8.ofNat n := by
    decide +kernel
  have hbyte := hall r.toNat r.toNat_lt
  rw [UInt8.ofNat_toNat] at hbyte
  exact hbyte hr

/-- Setting bit 5 folds no byte onto a lower case letter but the capital one, and
onto the hyphen none but the CR. -/
theorem mask_eq_iff {c r : UInt8} (hr : isReference r = true)
    (hcr : c = 13 → r ≠ 45) : c ||| 0x20 = r ||| 0x20 ↔ toLower c = r := by
  have hall : ∀ n < 256, UInt8.ofNat n ≠ 13 →
      isReference (UInt8.ofNat n ||| 0x20) = true ∨
        isReference (toLower (UInt8.ofNat n)) = true →
      toLower (UInt8.ofNat n) = UInt8.ofNat n ||| 0x20 := by
    decide +kernel
  have hfold := hall c.toNat c.toNat_lt
  rw [UInt8.ofNat_toNat] at hfold
  rw [mask_reference hr]
  by_cases hc : c = 13
  · subst hc
    have hmask : (13 : UInt8) ||| 0x20 = 45 := by decide
    have hlower : toLower 13 = 13 := by decide
    rw [hmask, hlower]
    refine ⟨fun heq => absurd heq.symm (hcr rfl), ?_⟩
    rintro rfl
    cases hr
  · refine ⟨fun heq => ?_, fun heq => ?_⟩
    · rw [hfold hc (.inl (by rwa [heq])), heq]
    · rw [← hfold hc (.inr (by rwa [heq])), heq]

theorem maskBytes_eq_iff {text reference : List UInt8}
    (hreference : ∀ r ∈ reference, isReference r = true)
    (hcr : 13 ∉ text ∨ 45 ∉ reference) :
    maskBytes text = maskBytes reference ↔ text.map toLower = reference := by
  induction text generalizing reference with
  | nil =>
      cases reference with
      | nil => simp [maskBytes]
      | cons r reference => simp [maskBytes]
  | cons c text ih =>
      cases reference with
      | nil => simp [maskBytes]
      | cons r reference =>
          have hrest := ih (fun r hr => hreference r (List.mem_cons_of_mem _ hr))
            (hcr.imp (fun hcr hmem => hcr (List.mem_cons_of_mem _ hmem))
              fun hhyphen hmem => hhyphen (List.mem_cons_of_mem _ hmem))
          have hfirst : c ||| 0x20 = r ||| 0x20 ↔ toLower c = r := by
            refine mask_eq_iff (hreference r List.mem_cons_self) ?_
            rintro rfl rfl
            simp at hcr
          rw [maskBytes, maskBytes] at hrest ⊢
          rw [List.map_cons, List.map_cons, List.map_cons, List.cons.injEq,
            List.cons.injEq, hfirst, hrest]

/-- The comparison with bit 5 set is the one without regard to case. -/
theorem matchesLower_eq {text reference : List UInt8} (hcr : 13 ∉ text)
    (hreference : reference.all isReference = true) :
    matchesLower text reference = decide (text.map toLower = reference) := by
  rw [Bool.eq_iff_iff, matchesLower_iff,
    maskBytes_eq_iff (List.all_eq_true.mp hreference) (.inl hcr), decide_eq_true_eq]

theorem eq_of_overlap {left right : List UInt8} {n k : Nat} (hkn : k ≤ n)
    (htake : left.take n = right.take n) (hdrop : left.drop k = right.drop k) :
    left = right := by
  have hfront : left.take k = right.take k := by
    have hboth := congrArg (List.take k) htake
    rwa [List.take_take, List.take_take, Nat.min_eq_left hkn] at hboth
  rw [← List.take_append_drop k left, hfront, hdrop, List.take_append_drop]

/-- Two overlapping words hold the whole of a text. -/
theorem wordMatches_overlap {text reference : List UInt8} {k : Nat} (hk : k ≤ 8)
    (htext : text.length = k + 8) (hreference : reference.length = k + 8) :
    (wordMatches (readLeU64 text) (readLeU64 reference) = true ∧
      wordMatches (readLeU64 (text.drop k)) (readLeU64 (reference.drop k)) = true) ↔
      matchesLower text reference = true := by
  have hword : ∀ bytes : List UInt8, bytes.length = k + 8 →
      wordBytes bytes = bytes.take 8 ∧ wordBytes (bytes.drop k) = bytes.drop k := by
    intro bytes hlength
    have hdrop : (bytes.drop k).length = 8 := by
      rw [List.length_drop]
      omega
    rw [wordBytes_eq (by omega), wordBytes_eq (by omega),
      List.take_of_length_le (Nat.le_of_eq hdrop)]
    exact ⟨rfl, rfl⟩
  rw [wordMatches_iff, wordMatches_iff, matchesLower_iff, (hword text htext).1,
    (hword text htext).2, (hword reference hreference).1,
    (hword reference hreference).2]
  simp only [maskBytes, List.map_take, List.map_drop]
  refine ⟨fun hboth => eq_of_overlap hk hboth.1 hboth.2, fun heq => ?_⟩
  rw [heq]
  exact ⟨rfl, rfl⟩

theorem infix_iff_window {part text : List UInt8} :
    part <:+: text ↔
      ∃ i, i + part.length ≤ text.length ∧
        (text.drop i).take part.length = part := by
  constructor
  · rintro ⟨before, behind, rfl⟩
    refine ⟨before.length, by simp, ?_⟩
    rw [List.append_assoc, List.drop_left, List.take_left]
  · rintro ⟨i, -, hwindow⟩
    refine ⟨text.take i, (text.drop i).drop part.length, ?_⟩
    have htail := List.take_append_drop part.length (text.drop i)
    rw [hwindow] at htail
    rw [List.append_assoc, htail, List.take_append_drop]

theorem readLeU64_take {bytes : List UInt8} {n : Nat} (hn : 8 ≤ n) :
    readLeU64 (bytes.take n) = readLeU64 bytes := by
  rw [readLeU64, readLeU64, List.take_take, Nat.min_eq_left hn]

theorem contentLength_words (name : List UInt8) :
    (name.length = 14 ∧
      wordMatches (readLeU64 name) (readLeU64 (ascii "content-")) ∧
      wordMatches (readLeU64 (name.drop 6)) (readLeU64 (ascii "t-length"))) ↔
    matchesLower name (ascii "content-length") = true := by
  by_cases hlength : name.length = 14
  · have hoverlap : _ ↔ matchesLower name (ascii "content-length") = true :=
      wordMatches_overlap (k := 6) (by decide) hlength (by decide)
    have hlow : readLeU64 (ascii "content-length") = readLeU64 (ascii "content-") := by
      decide
    have hhigh : (ascii "content-length").drop 6 = ascii "t-length" := by decide
    rw [hlow, hhigh] at hoverlap
    rw [← hoverlap]
    exact and_iff_right hlength
  · refine iff_of_false (fun hwords => hlength hwords.1) fun hmatch => ?_
    have hmask := congrArg List.length ((matchesLower_iff _ _).mp hmatch)
    simp only [maskBytes, List.length_map] at hmask
    exact hlength hmask

theorem getContentLengthWords_eq (headers : List Header) :
    getContentLengthWords headers = getContentLength headers := by
  induction headers with
  | nil => rfl
  | cons header headers ih =>
      rw [getContentLengthWords, getContentLength, List.find?_cons, ih]
      by_cases hmatch : matchesLower header.name (ascii "content-length") = true
      · rw [if_pos ((contentLength_words header.name).mpr hmatch), hmatch]
      · rw [if_neg (mt (contentLength_words header.name).mp hmatch),
          Bool.eq_false_iff.mpr hmatch]
        rfl

theorem isKeepaliveWords_eq (response : HttpResponse) :
    isKeepaliveWords response = response.isKeepalive := by
  have hwindow : ∀ v : List UInt8, ∀ i, i + 10 ≤ v.length →
      (wordMatches (readLeU64 (v.drop i)) 0x696C612D7065656B &&
        wordMatches (readLeU64 (v.drop (i + 2))) 0x6576696C612D7065) =
      matchesLower ((v.drop i).take 10) (ascii "keep-alive") := by
    intro v i hi
    have hlength : ((v.drop i).take 10).length = 2 + 8 := by
      rw [List.length_take, List.length_drop]
      omega
    have hoverlap : _ ↔
        matchesLower ((v.drop i).take 10) (ascii "keep-alive") = true :=
      wordMatches_overlap (k := 2) (by decide) hlength (by decide)
    have hlow : readLeU64 (ascii "keep-alive") = 0x696C612D7065656B := by decide
    have hhigh : readLeU64 ((ascii "keep-alive").drop 2) = 0x6576696C612D7065 := by
      decide
    have hdrop : ((v.drop i).take 10).drop 2 = (v.drop (i + 2)).take 8 := by
      rw [List.drop_take, List.drop_drop]
    rw [hdrop, readLeU64_take (by decide), readLeU64_take (by decide), hlow,
      hhigh] at hoverlap
    rw [Bool.eq_iff_iff, Bool.and_eq_true, hoverlap]
  rw [isKeepaliveWords, HttpResponse.isKeepalive, Bool.eq_iff_iff, List.any_eq_true,
    List.any_eq_true]
  constructor
  · rintro ⟨i, hi, hwords⟩
    rw [List.mem_range] at hi
    rw [hwindow _ _ (by omega)] at hwords
    exact ⟨i, List.mem_range.mpr (by omega), hwords⟩
  · rintro ⟨i, -, hmatch⟩
    have hlength := congrArg List.length ((matchesLower_iff _ _).mp hmatch)
    have hten : (ascii "keep-alive").length = 10 := by decide
    simp only [maskBytes, List.length_map, List.length_take, List.length_drop,
      hten] at hlength
    refine ⟨i, List.mem_range.mpr (by omega), ?_⟩
    rwa [hwindow _ _ (by omega)]

/-- The headers that one of the parsers has made. -/
def ParsedHeaders (headers : List Header) : Prop :=
  (∃ data request consumed, HttpRequest.parse data = some (request, consumed) ∧
    headers = request.headers) ∨
  ∃ data response consumed, HttpResponse.parse data = some (response, consumed) ∧
    headers = response.headers

theorem parseHeader_oneLine {line : List UInt8} {header : Header} (hcr : 13 ∉ line)
    (hheader : parseHeader line = some header) : header.OneLine := by
  unfold parseHeader at hheader
  split at hheader
  · rename_i colon value hdrop
    cases hheader
    refine ⟨fun hmem => hcr ((List.takeWhile_prefix _).subset hmem), fun hmem => ?_⟩
    have hvalue := (List.dropWhile_suffix _).subset hmem
    refine hcr ((List.dropWhile_suffix (· ≠ 58)).subset ?_)
    rw [hdrop]
    exact List.mem_cons_of_mem _ hvalue
  · cases hheader

/-- The parsers keep the CR out of the headers. -/
theorem ParsedHeaders.oneLine {headers : List Header}
    (hparsed : ParsedHeaders headers) :
    ∀ header ∈ headers, header.OneLine := by
  have hlines : ∃ lines : List (List UInt8), (∀ line ∈ lines, IsLine line) ∧
      headers = lines.filterMap parseHeader := by
    obtain ⟨data, request, consumed, hparse, rfl⟩ |
      ⟨data, response, consumed, hparse, rfl⟩ := hparsed
    · obtain ⟨-, lines, -, -, -, hlines, hheaders, -⟩ :=
        HttpRequest.parse_eq_some hparse
      exact ⟨lines, hlines, hheaders⟩
    · obtain ⟨-, lines, -, -, -, hlines, hheaders, -⟩ :=
        HttpResponse.parse_eq_some hparse
      exact ⟨lines, hlines, hheaders⟩
  obtain ⟨lines, hlines, rfl⟩ := hlines
  intro header hheader
  obtain ⟨line, hline, hparse⟩ := List.mem_filterMap.mp hheader
  exact parseHeader_oneLine (hlines line hline).2 hparse

/-- The value that `header` finds has no CR either. -/
theorem ParsedHeaders.findHeader {headers : List Header}
    (hparsed : ParsedHeaders headers)
    (name : List UInt8) : 13 ∉ findHeader headers name := by
  unfold UltraNet.findHeader
  split
  · rename_i header hfind
    exact (hparsed.oneLine header (List.mem_of_find?_eq_some hfind)).2
  · simp

theorem getContentLength_parsed {headers : List Header}
    (hparsed : ParsedHeaders headers) :
    getContentLength headers = HttpResponse.contentLength headers := by
  have hsame : ∀ header ∈ headers,
      matchesLower header.name (ascii "content-length") =
        decide (header.name.map toLower = ascii "content-length") :=
    fun header hheader => matchesLower_eq (hparsed.oneLine header hheader).1
      (by decide)
  have hfind : headers.find? (fun header =>
      matchesLower header.name (ascii "content-length")) =
      headers.find? fun header =>
        decide (header.name.map toLower = ascii "content-length") := by
    clear hparsed
    induction headers with
    | nil => rfl
    | cons header headers ih =>
        rw [List.find?_cons, List.find?_cons, hsame header List.mem_cons_self,
          ih fun other hother => hsame other (List.mem_cons_of_mem _ hother)]
  rw [getContentLength, hfind]
  rfl

theorem isKeepalive_iff {response : HttpResponse}
    (hcr : 13 ∉ findHeader response.headers (ascii "connection")) :
    response.isKeepalive = true ↔ ascii "keep-alive" <:+:
      (findHeader response.headers (ascii "connection")).map toLower := by
  have hten : (ascii "keep-alive").length = 10 := by decide
  rw [HttpResponse.isKeepalive, List.any_eq_true, infix_iff_window, hten]
  refine exists_congr fun i => ?_
  have hpart : 13 ∉ ((findHeader response.headers (ascii "connection")).drop i).take 10 :=
    fun hmem => hcr (List.mem_of_mem_drop (List.mem_of_mem_take hmem))
  rw [matchesLower_eq hpart (by decide), decide_eq_true_eq, List.mem_range,
    List.length_map, ← List.map_drop, ← List.map_take]
  refine and_congr_left fun hmatch => ?_
  have hlength := congrArg List.length hmatch
  simp only [List.length_map, List.length_take, List.length_drop, hten] at hlength
  omega

/-- On parsed headers the words find what the plain comparison finds. -/
theorem header_words_exact {headers : List Header}
    (hparsed : ParsedHeaders headers) :
    getContentLengthWords headers = HttpResponse.contentLength headers ∧
    ((∀ header ∈ headers, header.name.map toLower ≠ ascii "content-length") →
      getContentLengthWords headers = -1) ∧
    (∀ before header after, headers = before ++ header :: after →
      (∀ other ∈ before, other.name.map toLower ≠ ascii "content-length") →
      header.name.map toLower = ascii "content-length" →
      getContentLengthWords headers = (safeStoll header.value).getD (-1)) ∧
    ∀ response : HttpResponse, response.headers = headers →
      (isKeepaliveWords response = true ↔ ascii "keep-alive" <:+:
        (findHeader headers (ascii "connection")).map toLower) := by
  have hlookup : getContentLengthWords headers =
      HttpResponse.contentLength headers := by
    rw [getContentLengthWords_eq, getContentLength_parsed hparsed]
  refine ⟨hlookup, fun hnone => ?_, fun before header after hsplit
    hbefore hname => ?_,
    fun response hheaders => ?_⟩
  · have hfind : (headers.find? fun header =>
        decide (header.name.map toLower = ascii "content-length")) = none :=
      List.find?_eq_none.mpr fun header hheader => by simpa using hnone header hheader
    rw [hlookup, HttpResponse.contentLength, hfind]
  · have hfind : (headers.find? fun header =>
        decide (header.name.map toLower = ascii "content-length")) = some header := by
      rw [hsplit, List.find?_append, List.find?_eq_none.mpr fun other hother => by
        simpa using hbefore other hother, Option.none_or,
        List.find?_cons_of_pos (by simp [hname])]
    rw [hlookup, HttpResponse.contentLength, hfind]
  · subst hheaders
    rw [isKeepaliveWords_eq, isKeepalive_iff (hparsed.findHeader _)]

/-- A page whose sender writes the names of its headers in another case. -/
def keptPage : List UInt8 :=
  ascii "HTTP/1.1 200 OK\r\nServer: a\r\nContent-LENGTH: 5\r\nCONNECTION: Keep-Alive, x\r\n\r\nhello"

def keptHeaders : List Header :=
  [⟨ascii "Server", ascii "a"⟩, ⟨ascii "Content-LENGTH", ascii "5"⟩,
    ⟨ascii "CONNECTION", ascii "Keep-Alive, x"⟩]

theorem keptPage_parse :
    (HttpResponse.parse keptPage).map (·.1.headers) = some keptHeaders := by
  decide +kernel

theorem header_words_keptPage :
    getContentLengthWords keptHeaders = 5 ∧
      isKeepaliveWords ⟨200, [], [], keptHeaders, []⟩ = true := by
  obtain ⟨⟨response, consumed⟩, hparse, hheaders⟩ := Option.map_eq_some_iff.mp keptPage_parse
  have hparsed : ParsedHeaders keptHeaders :=
    .inr ⟨keptPage, response, consumed, hparse, hheaders.symm⟩
  obtain ⟨-, -, hlength, hkeepalive⟩ := header_words_exact hparsed
  refine ⟨?_, (hkeepalive _ rfl).mpr (by decide +kernel)⟩
  exact hlength [⟨ascii "Server", ascii "a"⟩] ⟨ascii "Content-LENGTH", ascii "5"⟩ _ rfl
    (by decide) (by decide)

/-- The value names the end of the connection where the words look for it: the
next three bytes are spaces or zero bytes. -/
def ClosesAt (value : List UInt8) : Prop :=
  ∃ before word behind, value = before ++ word ++ behind ∧
    word.map toLower = ascii "close" ∧
    ∀ byte ∈ behind.take 3, byte = 32 ∨ byte = 0

def trimSpaces (text : List UInt8) : List UInt8 :=
  ((text.dropWhile (· = 32)).reverse.dropWhile (· = 32)).reverse

/-- The comma-separated value has the token `close`. -/
def HasClose (value : List UInt8) : Prop :=
  ∃ token ∈ value.splitOn 44, (trimSpaces token).map toLower = ascii "close"

instance (value : List UInt8) : Decidable (HasClose value) :=
  inferInstanceAs (Decidable (∃ token ∈ value.splitOn 44, _))

theorem closeWord_iff {word behind : List UInt8} (hword : word.length = 5) :
    wordMatches (readLeU64 (word ++ behind)) 0x00000065736F6C63 = true ↔
      word.map toLower = ascii "close" ∧
        ∀ byte ∈ behind.take 3, byte = 32 ∨ byte = 0 := by
  have hclose : readLeU64 (ascii "close") = 0x00000065736F6C63 := by decide
  have hreference : maskBytes (wordBytes (ascii "close")) =
      maskBytes (ascii "close") ++ List.replicate 3 32 := by
    decide
  have htext : wordBytes (word ++ behind) =
      word ++ (behind.take 3 ++ List.replicate (3 - behind.length) 0) := by
    have hrest : 8 - (word ++ behind).length = 3 - behind.length := by
      rw [List.length_append]
      omega
    rw [wordBytes, hrest, List.take_append, hword,
      List.take_of_length_le (by omega), List.append_assoc]
  have hspace : ∀ byte : UInt8, byte ||| 0x20 = 32 ↔ byte = 32 ∨ byte = 0 := by
    have hall : ∀ n < 256, UInt8.ofNat n ||| 0x20 = 32 ↔
        UInt8.ofNat n = 32 ∨ UInt8.ofNat n = 0 := by
      decide +kernel
    intro byte
    have hbyte := hall byte.toNat byte.toNat_lt
    rwa [UInt8.ofNat_toNat] at hbyte
  have hlength : (maskBytes word).length = (maskBytes (ascii "close")).length := by
    rw [maskBytes, List.length_map, hword]
    decide
  have htail : maskBytes (behind.take 3 ++ List.replicate (3 - behind.length) 0) =
      List.replicate 3 32 ↔ ∀ byte ∈ behind.take 3, byte = 32 ∨ byte = 0 := by
    rw [maskBytes, List.eq_replicate_iff, List.length_map, List.length_append,
      List.length_take, List.length_replicate, and_iff_right (by omega)]
    refine ⟨fun hall byte hbyte => ?_, fun hall byte hbyte => ?_⟩
    · have hmem := List.mem_append_left (List.replicate (3 - behind.length) 0) hbyte
      exact (hspace byte).mp (hall _ (List.mem_map_of_mem hmem))
    · obtain ⟨other, hother, rfl⟩ := List.mem_map.mp hbyte
      rw [hspace]
      obtain hmem | hmem := List.mem_append.mp hother
      · exact hall other hmem
      · exact .inr (List.eq_of_mem_replicate hmem)
  have happend : ∀ left right : List UInt8,
      maskBytes (left ++ right) = maskBytes left ++ maskBytes right :=
    fun left right => List.map_append
  rw [← hclose, wordMatches_iff, hreference, htext, happend, ← htail,
    ← maskBytes_eq_iff (List.all_eq_true.mp (by decide)) (.inr (by decide))]
  refine ⟨fun heq => List.append_inj heq hlength, fun heq => ?_⟩
  rw [heq.1, heq.2]

theorem closesAt_iff (value : List UInt8) :
    ((List.range (value.length - 4)).any fun i =>
      wordMatches (readLeU64 (value.drop i)) 0x00000065736F6C63) = true ↔
    ClosesAt value := by
  rw [List.any_eq_true]
  constructor
  · rintro ⟨i, hi, hword⟩
    rw [List.mem_range] at hi
    have hlength : ((value.drop i).take 5).length = 5 := by
      rw [List.length_take, List.length_drop]
      omega
    rw [← List.take_append_drop 5 (value.drop i), closeWord_iff hlength] at hword
    refine ⟨value.take i, (value.drop i).take 5, (value.drop i).drop 5, ?_, hword⟩
    rw [List.append_assoc, List.take_append_drop, List.take_append_drop]
  · rintro ⟨before, word, behind, rfl, hclose, hbehind⟩
    have hlength : word.length = 5 := by
      have hsize := congrArg List.length hclose
      rwa [List.length_map] at hsize
    refine ⟨before.length, List.mem_range.mpr ?_, ?_⟩
    · simp only [List.length_append]
      omega
    · rw [List.append_assoc, List.drop_left, closeWord_iff hlength]
      exact ⟨hclose, hbehind⟩

theorem requestKeepaliveWords_iff (request : HttpRequest) :
    requestKeepaliveWords request = true ↔
      ¬ ClosesAt (findHeader request.headers (ascii "connection")) ∧
        request.httpVersion = ascii "HTTP/1.1" := by
  rw [requestKeepaliveWords]
  by_cases hempty : findHeader request.headers (ascii "connection") = []
  · have hnot : ¬ ClosesAt [] := by
      rintro ⟨before, word, behind, hvalue, hclose, -⟩
      obtain ⟨hfront, -⟩ := List.append_eq_nil_iff.mp hvalue.symm
      rw [(List.append_eq_nil_iff.mp hfront).2] at hclose
      cases hclose
    simp [hempty, hnot]
  · simp only [hempty, if_false]
    split
    · rename_i hword
      simp [(closesAt_iff _).mp hword]
    · rename_i hword
      simp [mt (closesAt_iff _).mpr hword]

theorem requestKeepaliveWords_eq (request : HttpRequest) :
    requestKeepaliveWords request = requestKeepalive request := by
  have hword : ∀ bytes : List UInt8,
      wordMatches (readLeU64 bytes) 0x00000065736F6C63 =
        matchesLower (bytes.take 8 ++ List.replicate (8 - (bytes.take 8).length) 0)
          (ascii "close" ++ [0, 0, 0]) := by
    intro bytes
    have hclose : readLeU64 (ascii "close") = 0x00000065736F6C63 := by decide
    have hreference : wordBytes (ascii "close") = ascii "close" ++ [0, 0, 0] := by
      decide
    have hzeros : 8 - (bytes.take 8).length = 8 - bytes.length := by
      rw [List.length_take]
      omega
    rw [← hclose, Bool.eq_iff_iff, wordMatches_iff, matchesLower_iff, hreference,
      hzeros]
    rfl
  rw [requestKeepaliveWords, requestKeepalive]
  simp only [← hword]
  split
  · rename_i hempty
    rw [hempty]
    rfl
  · rfl

/-- `request_keepalive` honours the token `close` just where its words find the
token. -/
theorem request_keepalive_iff (request : HttpRequest) :
    (requestKeepaliveWords request = true ↔
      ¬ HasClose (findHeader request.headers (ascii "connection")) ∧
        request.httpVersion = ascii "HTTP/1.1") ↔
    request.httpVersion ≠ ascii "HTTP/1.1" ∨
      (HasClose (findHeader request.headers (ascii "connection")) ↔
        ClosesAt (findHeader request.headers (ascii "connection"))) := by
  rw [requestKeepaliveWords_iff]
  tauto

/-- `Connection: close, upgrade`. -/
def upgradeRequest : HttpRequest :=
  ⟨.get, ascii "/", ascii "HTTP/1.1",
    [⟨ascii "Connection", ascii "close, upgrade"⟩], []⟩

theorem request_keepalive_misses_close :
    (HttpRequest.parse upgradeRequest.serialize).map Prod.fst =
        some upgradeRequest ∧
      HasClose (findHeader upgradeRequest.headers (ascii "connection")) ∧
      requestKeepaliveWords upgradeRequest = true := by
  have hwritten : upgradeRequest.Written := ⟨by decide, by decide, by decide, by
    unfold Header.Written
    decide⟩
  rw [HttpRequest.parse_serialize hwritten]
  exact ⟨rfl, by decide, by decide⟩

end UltraNet
