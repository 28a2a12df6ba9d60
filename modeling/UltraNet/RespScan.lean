/-
The scanners of the Redis proxy as they walk through a buffer: 64-bit counts and
lengths, every read of `*p`, every move of `p`.  `short` is the return value 0.
An address is far below 2^63, so `p + slen + 2` itself does not wrap.
-/
import UltraNet.ByteScan
import UltraNet.Resp

namespace UltraNet

namespace RespScan

open Scan

/-- `value * 10 + (byte - '0')` in an `int64_t` -/
def accumulate (value : Int) (byte : UInt8) : Scan Int :=
  if value * 10 + (byte.toNat - 48) < 2 ^ 63 then
    .found (value * 10 + (byte.toNat - 48))
  else .fault .overflow

/-- The loop over the digits of a count or a length. -/
def scanDigits (data : List UInt8) (p : Nat) (value : Int) : Scan (Int × Nat) :=
  if p < data.length then do
    let byte ← readAt data p
    if isDigit byte then do
      let value ← accumulate value byte
      scanDigits data (p + 1) value
    else .found (value, p)
  else .found (value, p)
termination_by data.length - p

/-- `if (p + 1 >= end || *p != '\r' || *(p + 1) != '\n') return 0; p += 2;` -/
def expectBreak (data : List UInt8) (p : Nat) : Scan Nat :=
  if p + 1 < data.length then do
    if (← readAt data p) = 13 then do
      if (← readAt data (p + 1)) = 10 then advance data p 2 else .short
    else .short
  else .short

section ParseRequest

/-- A count or a length of `parse_request`. -/
def parseCount (data : List UInt8) (p : Nat) : Scan (Int × Nat) :=
  if p < data.length then do
    let (value, p) ← scanDigits data p 0
    let p ← expect data p 13
    let p ← expect data p 10
    .found (value, p)
  else .short

def parseBulk (data : List UInt8) (p : Nat) : Scan (List UInt8 × Nat) := do
  let p ← expect data p 36
  let (slen, p) ← parseCount data p
  if p + slen + 2 > data.length then .short
  else do
    let arg := (data.drop p).take slen.toNat
    let p ← advance data p slen
    if (← readAt data p) = 13 then do
      let p ← advance data p 1
      let p ← expect data p 10
      .found (arg, p)
    else .short

def parseBulks (data : List UInt8) : Nat → Nat → Scan (List (List UInt8) × Nat)
  | 0, p => .found ([], p)
  | argc + 1, p => do
      let (arg, p) ← parseBulk data p
      let (args, p) ← parseBulks data argc p
      .found (arg :: args, p)

/-- The end of the line of an inline command, which `memchr` looks for. -/
def inlineEnd (data : List UInt8) : Scan Nat :=
  match data.idxOf? 13 with
  | none => .short
  | some cr =>
      if cr + 1 ≥ data.length then .short
      else do
        if (← readAt data (cr + 1)) = 10 then .found cr else .short

theorem scanWhile_found {data : List UInt8} {test : UInt8 → Bool} {limit p q : Nat}
    (hscan : scanWhile data test limit p = .found q) :
    p ≤ q ∧ (q < limit → ∃ byte, readAt data q = .found byte ∧ test byte = false) := by
  fun_induction scanWhile data test limit p with
  | case1 p hlimit ih =>
      cases hread : readAt data p with
      | short => simp [hread] at hscan
      | fault what => simp [hread] at hscan
      | found byte =>
          rw [hread, found_bind] at hscan
          cases htest : test byte with
          | true =>
              rw [if_pos htest] at hscan
              obtain ⟨hle, hend⟩ := ih hscan
              exact ⟨by omega, hend⟩
          | false =>
              rw [if_neg (by simp [htest])] at hscan
              cases hscan
              exact ⟨Nat.le_refl _, fun _ => ⟨byte, hread, htest⟩⟩
  | case2 p hlimit =>
      cases hscan
      exact ⟨Nat.le_refl _, fun hlt => absurd hlt hlimit⟩

theorem scanWhile_lt {data : List UInt8} {test : UInt8 → Bool} {limit p q : Nat}
    {byte : UInt8} (hlimit : p < limit) (hread : readAt data p = .found byte)
    (htest : test byte = true) (hscan : scanWhile data test limit p = .found q) :
    p < q := by
  rw [scanWhile, if_pos hlimit, hread, found_bind, if_pos htest] at hscan
  exact (scanWhile_found hscan).1

/-- The loop over the words of an inline command, whose line ends at `cr`. -/
def inlineArgs (data : List UInt8) (cr p : Nat) : Scan (List (List UInt8)) :=
  if _hp : p < cr then
    match _hstart : scanWhile data (· = 32) cr p with
    | .short => .short
    | .fault what => .fault what
    | .found start =>
        if _hlimit : cr ≤ start then .found []
        else
          match _hstop : scanWhile data (· ≠ 32) cr start with
          | .short => .short
          | .fault what => .fault what
          | .found stop => do
              let args ← inlineArgs data cr stop
              .found ((data.drop start).take (stop - start) :: args)
  else .found []
termination_by cr - p
decreasing_by
  obtain ⟨hle, hend⟩ := scanWhile_found _hstart
  obtain ⟨byte, hread, hspace⟩ := hend (by omega)
  have := scanWhile_lt (by omega) hread (by simpa using hspace) _hstop
  omega

/-- `none` of the source's two results is dropped: the arguments found before a
request turns out to be short are read by nobody. -/
def parseRequest (data : List UInt8) : Scan (List (List UInt8) × Nat) :=
  if data.length = 0 then .short
  else do
    if (← readAt data 0) = 42 then do
      let p ← advance data 0 1
      let (argc, p) ← parseCount data p
      parseBulks data argc.toNat p
    else do
      let cr ← inlineEnd data
      let args ← inlineArgs data cr 0
      .found (args, cr + 2)

end ParseRequest

section DetectRequestBoundary

/-- A count or a length of `detect_request_boundary`. -/
def boundaryCount (data : List UInt8) (p : Nat) : Scan (Int × Nat) := do
  let (value, p) ← scanDigits data p 0
  let p ← expectBreak data p
  .found (value, p)

def boundaryBulk (data : List UInt8) (p : Nat) : Scan Nat := do
  let p ← expect data p 36
  let (slen, p) ← boundaryCount data p
  if p + slen + 2 > data.length then .short else advance data p (slen + 2)

def boundaryBulks (data : List UInt8) : Nat → Nat → Scan Nat
  | 0, p => .found p
  | argc + 1, p => do
      let p ← boundaryBulk data p
      boundaryBulks data argc p

def detectRequestBoundary (data : List UInt8) : Scan Nat :=
  if data.length < 4 then .short
  else do
    if (← readAt data 0) = 42 then do
      let p ← advance data 0 1
      let (argc, p) ← boundaryCount data p
      boundaryBulks data argc.toNat p
    else do
      let cr ← inlineEnd data
      .found (cr + 2)

end DetectRequestBoundary

section DetectResponse

/-- The loop over a simple string, an error or an integer. -/
def responseText (data : List UInt8) (p : Nat) : Scan Nat :=
  if p < data.length then do
    if (← readAt data p) = 13 ∧ p + 1 < data.length then do
      if (← readAt data (p + 1)) = 10 then .found (p + 2)
      else responseText data (p + 1)
    else responseText data (p + 1)
  else .short
termination_by data.length - p

/-- `if (*p == '-') { negative = true; p++; }` -/
def skipSign (data : List UInt8) (p : Nat) (byte : UInt8) : Scan Nat :=
  if byte = 45 then advance data p 1 else .found p

/-- A length or a count of `detect_response` with its sign. -/
def responseLength (data : List UInt8) (p : Nat) : Scan (Bool × Int × Nat) :=
  if p < data.length then do
    let byte ← readAt data p
    let p ← skipSign data p byte
    let (value, p) ← boundaryCount data p
    .found (byte = 45, value, p)
  else .short

theorem scanDigits_le {data : List UInt8} {p q : Nat} {value last : Int}
    (hscan : scanDigits data p value = .found (last, q)) : p ≤ q := by
  fun_induction scanDigits data p value with
  | case1 p value hlimit ih =>
      obtain ⟨byte, -, hscan⟩ := bind_eq_found.mp hscan
      split at hscan
      · obtain ⟨next, -, hscan⟩ := bind_eq_found.mp hscan
        have := ih next hscan
        omega
      · cases hscan
        exact Nat.le_refl _
  | case2 p value hlimit =>
      cases hscan
      exact Nat.le_refl _

theorem expectBreak_lt {data : List UInt8} {p q : Nat}
    (hbreak : expectBreak data p = .found q) : p < q := by
  unfold expectBreak at hbreak
  split at hbreak
  · obtain ⟨first, -, hbreak⟩ := bind_eq_found.mp hbreak
    split at hbreak
    · obtain ⟨second, -, hbreak⟩ := bind_eq_found.mp hbreak
      split at hbreak
      · have := (advance_found hbreak).2.1
        omega
      · cases hbreak
    · cases hbreak
  · cases hbreak

theorem responseLength_lt {data : List UInt8} {p q : Nat} {negative : Bool}
    {value : Int} (hlength : responseLength data p = .found (negative, value, q)) :
    p < q := by
  unfold responseLength at hlength
  split at hlength
  · obtain ⟨byte, -, hlength⟩ := bind_eq_found.mp hlength
    obtain ⟨start, hsign, hlength⟩ := bind_eq_found.mp hlength
    obtain ⟨⟨count, after⟩, hcount, hlength⟩ := bind_eq_found.mp hlength
    cases hlength
    have hstart : p ≤ start := by
      unfold skipSign at hsign
      split at hsign
      · exact (advance_found hsign).1
      · cases hsign
        exact Nat.le_refl _
    unfold boundaryCount at hcount
    obtain ⟨⟨last, stop⟩, hdigits, hcount⟩ := bind_eq_found.mp hcount
    obtain ⟨behind, hbreak, hcount⟩ := bind_eq_found.mp hcount
    cases hcount
    have := scanDigits_le hdigits
    have := expectBreak_lt hbreak
    omega
  · cases hlength

mutual

def detectResponse (data : List UInt8) : Scan Nat :=
  match data with
  | [] => .short
  | type :: rest =>
      if type = 43 ∨ type = 45 ∨ type = 58 then responseText (type :: rest) 1
      else if type = 36 then do
        let (negative, slen, p) ← responseLength (type :: rest) 1
        if negative then .found p
        else if p + slen + 2 > (type :: rest).length then .short
        else .found (p + slen + 2).toNat
      else if type = 42 then
        match _hlength : responseLength (type :: rest) 1 with
        | .short => .short
        | .fault what => .fault what
        | .found (true, _, p) => .found p
        | .found (false, count, p) => do
            let size ← detectElements count.toNat ((type :: rest).drop p)
            .found (p + size)
      else .short
termination_by (data.length, 0, 0)
decreasing_by
  have := responseLength_lt _hlength
  refine Prod.Lex.left _ _ ?_
  rw [List.length_drop, List.length_cons]
  omega

/-- The loop over the elements of an array, on `data + offset`. -/
def detectElements (count : Nat) (data : List UInt8) : Scan Nat :=
  match count with
  | 0 => .found 0
  | count + 1 =>
      match detectResponse data with
      | .short => .short
      | .fault what => .fault what
      | .found consumed => do
          let offset ← advance data 0 consumed
          let size ← detectElements count (data.drop consumed)
          .found (offset + size)
termination_by (data.length, 1, count)
decreasing_by
  · exact Prod.Lex.right _ (Prod.Lex.left _ _ Nat.zero_lt_one)
  · rw [List.length_drop]
    rcases Nat.eq_zero_or_pos (min consumed data.length) with hzero | hpos
    · rw [show data.length - consumed = data.length by omega]
      exact Prod.Lex.right _ (Prod.Lex.right _ (Nat.lt_succ_self _))
    · exact Prod.Lex.left _ _ (by omega)

end

end DetectResponse

end RespScan

end UltraNet
