/-
The queries of the resolver in their 512 bytes: which names leave room for the
question behind them.
-/
import UltraNet.DnsNames

namespace UltraNet

namespace Dns

section Writes

variable {array : List UInt8} {pos : Nat}

theorem writeBytes_isSome_iff (array : List UInt8) (pos : Nat) (bytes : List UInt8) :
    (writeBytes array pos bytes).isSome = true ↔ pos + bytes.length ≤ array.length := by
  unfold writeBytes
  split
  · simp [*]
  · simp [*]

/-- Two writes one behind the other are one. -/
theorem writeBytes_append (array : List UInt8) (pos : Nat) (bytes more : List UInt8) :
    ((writeBytes array pos bytes).bind fun array =>
      writeBytes array (pos + bytes.length) more) =
        writeBytes array pos (bytes ++ more) := by
  have hsize : pos + (bytes ++ more).length = pos + bytes.length + more.length := by
    rw [List.length_append, Nat.add_assoc]
  by_cases hfits : pos + bytes.length ≤ array.length
  · have hfront : (array.take pos ++ bytes).length = pos + bytes.length := by
      rw [List.length_append, List.length_take_of_le (by omega)]
    have hlength : (array.take pos ++ bytes ++ array.drop (pos + bytes.length)).length =
        array.length := by
      rw [List.length_append, hfront, List.length_drop]
      omega
    rw [writeBytes, if_pos hfits, Option.bind_some, writeBytes, writeBytes, hlength, hsize]
    split
    · rw [← hfront, List.take_left, ← List.drop_drop, List.drop_left, List.drop_drop,
        hfront, List.append_assoc (array.take pos)]
    · rfl
  · rw [writeBytes, if_neg hfits, writeBytes, hsize, if_neg (by omega)]
    rfl

/-- `encode_name` writes what it has of the name at once. -/
theorem encodeInto_eq (array : List UInt8) (pos : Nat) (rest : List UInt8) :
    encodeInto array pos rest =
      (writeBytes array pos (encodeLabels rest)).map
        fun array => (array, pos + (encodeLabels rest).length) := by
  induction hsize : rest.length using Nat.strong_induction_on generalizing rest array pos with
  | _ size ih =>
      subst hsize
      by_cases hnil : rest = []
      · subst hnil
        rw [encodeInto, encodeLabels]
        rfl
      · obtain ⟨byte, tail, hrest⟩ := List.exists_cons_of_ne_nil hnil
        generalize hlabel : rest.takeWhile (· ≠ 46) = label
        have hcut : (label.take (min label.length 63)).length = min label.length 63 :=
          List.length_take_of_le (Nat.min_le_left ..)
        have hshorter : (rest.drop (label.length + 1)).length < rest.length := by
          rw [List.length_drop, hrest, List.length_cons]
          omega
        have hencode : encodeLabels rest =
            [UInt8.ofNat (min label.length 63)] ++
              (label.take (min label.length 63) ++
                encodeLabels (rest.drop (label.length + 1))) := by
          rw [encodeLabels_cons hnil, hlabel]
          rfl
        have hinto : encodeInto array pos rest =
            (writeBytes array pos [UInt8.ofNat (min label.length 63)]).bind fun array =>
              (writeBytes array (pos + 1) (label.take (min label.length 63))).bind
                fun array => encodeInto array (pos + 1 + min label.length 63)
                  (rest.drop (label.length + 1)) := by
          subst hrest
          rw [encodeInto, hlabel]
          cases writeBytes array pos [UInt8.ofNat (min label.length 63)] with
          | none => rfl
          | some array =>
              simp only [Option.bind_some]
              cases writeBytes array (pos + 1) (label.take (min label.length 63)) with
              | none => rfl
              | some array => rfl
        have hothers : ∀ array pos,
            encodeInto array pos (rest.drop (label.length + 1)) =
              (writeBytes array pos (encodeLabels (rest.drop (label.length + 1)))).map
                fun array =>
                  (array, pos + (encodeLabels (rest.drop (label.length + 1))).length) :=
          fun array pos => ih _ hshorter array pos _ rfl
        rw [hinto, hencode, ← writeBytes_append]
        cases hfirst : writeBytes array pos [UInt8.ofNat (min label.length 63)] with
        | none => rfl
        | some array =>
            simp only [Option.bind_some, List.length_singleton, hothers]
            rw [← writeBytes_append, hcut]
            cases writeBytes array (pos + 1) (label.take (min label.length 63)) with
            | none => rfl
            | some array =>
                simp only [Option.bind_some, List.length_append, List.length_singleton,
                  hcut, Nat.add_assoc]

end Writes

section Labels

variable {rest : List UInt8}

/-- The labels of a name: what stands between its dots, but for an empty one
at the end. -/
def nameLabels (name : List UInt8) : List (List UInt8) :=
  if (name.splitOn 46).getLast? = some [] then (name.splitOn 46).dropLast
  else name.splitOn 46

/-- The bytes of the labels in a query, each cut to 63 bytes. -/
def labelBytes (name : List UInt8) : Nat :=
  ((nameLabels name).map fun label => min label.length 63 + 1).sum

theorem nameLabels_nil : nameLabels [] = [] :=
  rfl

theorem nameLabels_cons (hrest : rest ≠ []) :
    nameLabels rest = rest.takeWhile (· ≠ 46) ::
      nameLabels (rest.drop ((rest.takeWhile (· ≠ 46)).length + 1)) := by
  have hsplit := List.takeWhile_append_dropWhile (p := (· ≠ (46 : UInt8))) (l := rest)
  generalize hlabel : rest.takeWhile (· ≠ (46 : UInt8)) = label at hsplit ⊢
  generalize hbehind : rest.dropWhile (· ≠ (46 : UInt8)) = behind at hsplit
  have hdots : ∀ byte ∈ label, (byte == 46) = false := by
    intro byte hbyte
    rw [← hlabel] at hbyte
    simpa using List.mem_takeWhile_imp hbyte
  cases behind with
  | nil =>
      rw [List.append_nil] at hsplit
      subst hsplit
      have hone : label.splitOn 46 = [label] :=
        List.splitOn_eq_singleton_of_beq_eq_false hdots
      rw [List.drop_eq_nil_of_le (Nat.le_succ _), nameLabels_nil, nameLabels, hone,
        if_neg (by simpa using hrest)]
  | cons byte tail =>
      have hbyte : byte = 46 := by
        have hhead := List.head?_dropWhile_not (· ≠ (46 : UInt8)) rest
        rw [hbehind] at hhead
        simpa using hhead
      subst hbyte
      have hparts : rest.splitOn 46 = label :: tail.splitOn 46 := by
        rw [← hsplit, List.splitOn_eq_splitOnP,
          List.splitOnP_append_cons_of_forall_mem hdots 46 rfl]
        rfl
      have hdrop : rest.drop (label.length + 1) = tail := by
        rw [← List.drop_drop, ← hsplit, List.drop_left]
        rfl
      obtain ⟨first, others, hcons⟩ :=
        List.exists_cons_of_ne_nil (List.splitOn_ne_nil 46 tail)
      rw [hdrop, nameLabels, nameLabels, hparts, hcons, List.getLast?_cons_cons]
      split
      · rfl
      · rfl

theorem length_encodeName (name : List UInt8) :
    (encodeName name).length = labelBytes name + 1 := by
  rw [encodeName]
  induction hsize : name.length using Nat.strong_induction_on generalizing name with
  | _ size ih =>
      subst hsize
      by_cases hnil : name = []
      · subst hnil
        rw [encodeLabels]
        rfl
      · have hpos := List.length_pos_iff.mpr hnil
        have hothers := ih _ (by rw [List.length_drop]; omega)
          (name.drop ((name.takeWhile (· ≠ 46)).length + 1)) rfl
        rw [encodeLabels_cons hnil, List.length_cons, List.length_append, hothers,
          List.length_take_of_le (Nat.min_le_left ..), labelBytes, labelBytes,
          nameLabels_cons hnil, List.map_cons, List.sum_cons]
        omega

end Labels

section Queries

/-- The query is written as a whole. -/
theorem buildQuery_eq (qtype : UInt8) (name : List UInt8) :
    buildQuery qtype name =
      (writeBytes (List.replicate 512 0) 0
        (queryHeader.encode ++ encodeName name ++ [0, qtype, 0, 1])).map
          fun query => (query, 12 + (encodeName name).length + 4) := by
  have htext : queryHeader.encode ++ encodeName name ++ [0, qtype, 0, 1] =
      queryHeader.encode ++ (encodeName name ++ ([0] ++ ([qtype] ++ ([0] ++ [1])))) := by
    simp
  rw [htext, ← writeBytes_append, buildQuery]
  cases writeBytes (List.replicate 512 0) 0 queryHeader.encode with
  | none => rfl
  | some query =>
      have hheader : 0 + queryHeader.encode.length = 12 := rfl
      simp only [Option.bind_eq_bind, Option.bind_some, encodeInto_eq, hheader]
      rw [← writeBytes_append, encodeName]
      cases writeBytes query 12 (encodeLabels name) with
      | none => rfl
      | some query =>
          simp only [Option.map_some, Option.bind_some]
          rw [← writeBytes_append]
          cases writeBytes query (12 + (encodeLabels name).length) [0] with
          | none => rfl
          | some query =>
              simp only [Option.bind_some, List.length_singleton]
              rw [← writeBytes_append]
              cases writeBytes query (12 + (encodeLabels name).length + 1) [qtype] with
              | none => rfl
              | some query =>
                  simp only [Option.bind_some, List.length_singleton]
                  rw [← writeBytes_append]
                  cases writeBytes query (12 + (encodeLabels name).length + 1 + 1) [0] with
                  | none => rfl
                  | some query =>
                      simp only [Option.bind_some, List.length_singleton]
                      cases writeBytes query
                          (12 + (encodeLabels name).length + 1 + 1 + 1) [1] with
                      | none => rfl
                      | some query => rfl

theorem buildQuery_isSome_iff (qtype : UInt8) (name : List UInt8) :
    (buildQuery qtype name).isSome = true ↔ labelBytes name ≤ 495 := by
  have hheader : queryHeader.encode.length = 12 := rfl
  rw [buildQuery_eq, Option.isSome_map, writeBytes_isSome_iff, List.length_replicate]
  simp only [List.length_append, hheader, length_encodeName, List.length_cons,
    List.length_nil]
  omega

/-- A query stays within its 512 bytes just when the labels of the name, each
cut to 63 bytes and with a length byte, take 495 at most. -/
theorem queries_inside_iff (hostname service protocol domain : List UInt8) :
    ((hostQuery hostname).isSome = true ↔ labelBytes hostname ≤ 495) ∧
      ((srvQuery service protocol domain).isSome = true ↔
        labelBytes (srvName service protocol domain) ≤ 495) :=
  ⟨buildQuery_isSome_iff 1 hostname, buildQuery_isSome_iff 33 _⟩

/-- Eight labels of 63 bytes leave no room for the question. -/
theorem queries_outside :
    (hostQuery (joined (List.replicate 8 (List.replicate 63 97)))).isSome = false := by
  have hlabels : ∀ label ∈ List.replicate 8 (List.replicate 63 (97 : UInt8)),
      IsLabel label := by
    intro label hlabel
    rw [List.eq_of_mem_replicate hlabel]
    refine ⟨List.replicate_succ_ne_nil, Nat.le_of_eq (List.length_replicate ..), fun hdot => ?_⟩
    cases List.eq_of_mem_replicate hdot
  have hlength := length_encodeName (joined (List.replicate 8 (List.replicate 63 97)))
  have htext : (labelsText (List.replicate 8 (List.replicate 63 97))).length = 512 := by
    rw [labelsText, List.length_flatMap]
    simp
  rw [encodeName_joined hlabels, List.length_append, htext] at hlength
  refine Bool.eq_false_iff.mpr fun hsome => ?_
  have hfits := (buildQuery_isSome_iff 1 _).mp hsome
  simp only [List.length_singleton] at hlength
  omega

end Queries

end Dns

end UltraNet
