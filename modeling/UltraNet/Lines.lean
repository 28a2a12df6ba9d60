/-
Text as bytes: lines that end with CR LF, at the front of a buffer.
-/
import Mathlib.Data.List.TakeWhile

namespace UltraNet

def ascii (text : String) : List UInt8 :=
  text.toList.map fun c => UInt8.ofNat c.toNat

def crlf : List UInt8 := [13, 10]

/-- A text that is cut ends within its front or behind it. -/
theorem cut_front {front rest data more : List UInt8}
    (hsplit : data ++ more = front ++ rest) :
    (∃ tail, tail ≠ [] ∧ data ++ tail = front) ∨
      ∃ tail, data = front ++ tail ∧ tail ++ more = rest := by
  rw [List.append_eq_append_iff] at hsplit
  obtain ⟨tail, hfront, hmore⟩ | ⟨tail, hdata, hrest⟩ := hsplit
  · by_cases htail : tail = []
    · subst htail
      rw [List.append_nil] at hfront
      exact .inr ⟨[], by rw [hfront, List.append_nil], hmore⟩
    · exact .inl ⟨tail, htail, hfront.symm⟩
  · exact .inr ⟨tail, hdata, hrest.symm⟩

/-- The line before the first CR, which an LF has to follow. -/
def takeLine (data : List UInt8) : Option (List UInt8 × List UInt8) :=
  match data.dropWhile (· ≠ 13) with
  | 13 :: 10 :: rest => some (data.takeWhile (· ≠ 13), rest)
  | _ => none

theorem takeLine_eq {data line rest : List UInt8}
    (hline : takeLine data = some (line, rest)) :
    data = line ++ 13 :: 10 :: rest ∧ 13 ∉ line := by
  unfold takeLine at hline
  split at hline
  · rename_i tail hdrop
    cases hline
    refine ⟨?_, ?_⟩
    · rw [← hdrop, List.takeWhile_append_dropWhile]
    · intro hmem
      simpa using List.mem_takeWhile_imp hmem
  · cases hline

theorem takeLine_line {line : List UInt8} (hcr : 13 ∉ line) (rest : List UInt8) :
    takeLine (line ++ crlf ++ rest) = some (line, rest) := by
  have hline : ∀ byte ∈ line, (decide (byte ≠ 13)) = true := by
    intro byte hbyte
    exact decide_eq_true fun heq => hcr (heq ▸ hbyte)
  have hdrop : (line ++ crlf ++ rest).dropWhile (· ≠ 13) = 13 :: 10 :: rest := by
    rw [List.append_assoc, List.dropWhile_append_of_pos hline]
    simp [crlf]
  have htake : (line ++ crlf ++ rest).takeWhile (· ≠ 13) = line := by
    rw [List.append_assoc, List.takeWhile_append_of_pos hline]
    simp [crlf]
  rw [takeLine, hdrop]
  simp only [htake]

/-- A text that is cut ends within its first line or behind it. -/
theorem cut_line {line rest data more : List UInt8}
    (hsplit : data ++ more = line ++ crlf ++ rest) :
    data <+: line ++ [13] ∨
      ∃ tail, data = line ++ crlf ++ tail ∧ tail ++ more = rest := by
  rw [List.append_assoc, List.append_eq_append_iff] at hsplit
  obtain ⟨tail, hline, -⟩ | ⟨tail, hdata, hmore⟩ := hsplit
  · refine .inl ⟨tail ++ [13], ?_⟩
    rw [hline, List.append_assoc]
  · match tail, hmore with
    | [], _ => exact .inl ⟨[13], by rw [hdata, List.append_nil]⟩
    | [byte], hmore =>
        have hbyte : byte = 13 := (List.cons.inj hmore).1.symm
        exact .inl ⟨[], by rw [hdata, hbyte, List.append_nil]⟩
    | first :: second :: tail, hmore =>
        simp only [crlf, List.cons_append, List.nil_append, List.cons.injEq] at hmore
        obtain ⟨rfl, rfl, hrest⟩ := hmore
        refine .inr ⟨tail, ?_, hrest.symm⟩
        rw [hdata, crlf, List.append_assoc]
        rfl

theorem takeLine_part {line data : List UInt8} (hcr : 13 ∉ line)
    (hdata : data <+: line ++ [13]) : takeLine data = none := by
  obtain ⟨tail, htail⟩ := hdata
  cases hfound : takeLine data with
  | none => rfl
  | some found =>
      obtain ⟨first, rest⟩ := found
      obtain ⟨rfl, -⟩ := takeLine_eq hfound
      -- the CR of the line break would be followed by something in the line
      rw [List.append_assoc, List.append_eq_append_iff] at htail
      obtain ⟨middle, hline, hlast⟩ | ⟨middle, hfirst, hlast⟩ := htail
      · cases middle with
        | nil => simp at hlast
        | cons byte middle =>
            have hbyte : byte = 13 := (List.cons.inj hlast).1.symm
            exact absurd (by simp [hline, hbyte]) hcr
      · have hlength := congrArg List.length hlast
        simp at hlength
        omega

end UltraNet
