/-
The node that a routed frame is meant for: `std::stoull` of the node part of
its URI, as the receiving end reads it from the wire.
-/
import UltraNet.Digits
import UltraNet.SenderNode

namespace UltraNet

/-- An optional sign, then digits; what follows them is ignored. -/
def signedDigits : List UInt8 → Option UInt64
  | 0x2D :: rest => (unsigned rest).map (- ·)
  | 0x2B :: rest => unsigned rest
  | text => unsigned text
where
  unsigned (text : List UInt8) : Option UInt64 :=
    let digits := text.takeWhile isDigit
    if digits = [] ∨ 2 ^ 64 ≤ digitsValue digits then none
    else some (UInt64.ofNat (digitsValue digits))

/-- `std::stoull`; `none` when it throws. -/
def stoull (text : List UInt8) : Option UInt64 :=
  signedDigits (text.dropWhile isSpace)

/-- The node that a frame is addressed to, if its URI names one. -/
def frameNode (frame : List UInt8) : Option UInt64 :=
  (unpackRouted frame).bind fun m => stoull m.uri.node

theorem unsigned_append_slash (text rest : List UInt8) :
    signedDigits.unsigned (text ++ slash :: rest) =
      signedDigits.unsigned text := by
  have htake : (text ++ slash :: rest).takeWhile isDigit =
      text.takeWhile isDigit := by
    rw [List.takeWhile_append]
    split
    · rename_i hall
      have hinitial := List.takeWhile_prefix isDigit (l := text)
      rw [hinitial.eq_of_length hall]
      simp [isDigit, slash]
    · rfl
  rw [signedDigits.unsigned, signedDigits.unsigned, htake]

theorem signedDigits_append_slash (text rest : List UInt8) :
    signedDigits (text ++ slash :: rest) = signedDigits text := by
  cases text with
  | nil => simp [signedDigits, signedDigits.unsigned, slash, isDigit]
  | cons byte text =>
      have hunsigned := unsigned_append_slash text rest
      have hwhole := unsigned_append_slash (byte :: text) rest
      by_cases hminus : byte = 0x2D
      · subst hminus
        simp [signedDigits, hunsigned]
      · by_cases hplus : byte = 0x2B
        · subst hplus
          simp [signedDigits, hunsigned]
        · simpa [signedDigits, hminus, hplus] using hwhole

/-- `std::stoull` does not look past a slash. -/
theorem stoull_append_slash (text rest : List UInt8) :
    stoull (text ++ slash :: rest) = stoull text := by
  rw [stoull, stoull, List.dropWhile_append]
  split
  · rename_i hempty
    have hnil := List.isEmpty_iff.mp hempty
    have hslash : (slash :: rest).dropWhile isSpace = [] ++ slash :: rest := by
      simp [isSpace, slash]
    rw [hslash, signedDigits_append_slash, hnil]
  · exact signedDigits_append_slash _ _

theorem take_findIdx {text : List UInt8} {c : UInt8} {i : Nat}
    (hfind : text.findIdx? (· = c) = some i) :
    ∃ rest, text = text.take i ++ c :: rest ∧ c ∉ text.take i := by
  obtain ⟨hlt, hat, hbefore⟩ := List.findIdx?_eq_some_iff_getElem.mp hfind
  refine ⟨text.drop (i + 1), ?_, ?_⟩
  · have hget : text[i] = c := by simpa using hat
    rw [← hget, ← List.drop_eq_getElem_cons hlt, List.take_append_drop]
  · intro hmem
    obtain ⟨j, hj, heq⟩ := List.mem_take_iff_getElem.mp hmem
    have := hbefore j (by omega)
    simp [heq] at this

/-- What stands before the first slash of a text is all of its first part, or
that part up to a slash of its own. -/
theorem first_part {first second rest tail : List UInt8}
    (heq : first ++ slash :: rest = second ++ slash :: tail)
    (hfirst : slash ∉ first) :
    second = first ∨ ∃ more, second = first ++ slash :: more := by
  rcases List.append_eq_append_iff.mp heq with
    ⟨more, hsecond, hrest⟩ | ⟨more, hsecond, hrest⟩
  · cases more with
    | nil => exact Or.inl (by simpa using hsecond)
    | cons byte last =>
        simp only [List.cons_append, List.cons.injEq] at hrest
        exact Or.inr ⟨last, by rw [hsecond, hrest.1]⟩
  · cases more with
    | nil => exact Or.inl (by simpa using hsecond.symm)
    | cons byte last =>
        simp only [List.cons_append, List.cons.injEq] at hrest
        refine absurd ?_ hfirst
        rw [hsecond, ← hrest.1]
        simp

/-- A node that is read from the wire is the one of the packed URI, even if
the text was cut. -/
theorem stoull_parseUri {uri : ActorUri} {k : Nat} {node : UInt64}
    (hnode : stoull (parseUriFromWire (uri.toBytes.take k)).node = some node) :
    stoull uri.node = some node := by
  have hdrop : uri.toBytes.drop 8 =
      uri.node ++ slash :: (uri.type ++ [slash] ++ uri.name) := by
    simp [ActorUri.toBytes, uriScheme]
  have hcut : (uri.toBytes.take k).drop 8 <+:
      uri.node ++ slash :: (uri.type ++ [slash] ++ uri.name) := by
    rw [List.drop_take, hdrop]
    exact List.take_prefix ..
  unfold parseUriFromWire at hnode
  split at hnode
  · simp [stoull, signedDigits, signedDigits.unsigned, isSpace, isDigit]
      at hnode
  · rename_i first hfirst
    split at hnode
    · simp [stoull, signedDigits, signedDigits.unsigned, isSpace, isDigit]
        at hnode
    · obtain ⟨i, hfind, rfl⟩ := Option.map_eq_some_iff.mp hfirst
      obtain ⟨rest, htext, hfree⟩ := take_findIdx hfind
      obtain ⟨more, hmore⟩ := hcut
      rw [Nat.add_sub_cancel] at hnode
      rw [htext, List.append_assoc, List.cons_append] at hmore
      rcases first_part hmore hfree with heq | ⟨last, heq⟩
      · rw [heq]
        exact hnode
      · rw [heq, stoull_append_slash]
        exact hnode

theorem unpackRouted_readString {data : List UInt8} {found : Routed}
    (hunpack : unpackRouted data = some found) :
    found.uri = parseUriFromWire (Reader.readString ⟨data, 18⟩).1 := by
  have hlength := unpackRouted_length hunpack
  have h1 : ¬ data.length ≤ 0 := by omega
  have h2 : ¬ data.length ≤ 1 := by omega
  have h3 : ¬ data.length < 10 := by omega
  have h4 : ¬ data.length < 18 := by omega
  simp only [unpackRouted, Reader.readU8, Reader.readU64, ge_iff_le, h1, h2,
    if_false, gt_iff_lt, Nat.reduceAdd, h3, h4] at hunpack
  repeat' split at hunpack
  all_goals first
    | (cases hunpack; done)
    | (obtain rfl := Option.some.inj hunpack; rfl)

theorem readString_take (text rest : List UInt8) (before : List UInt8) :
    ∃ k, (Reader.readString ⟨before ++ writeString text ++ rest,
      before.length⟩).1 = text.take k := by
  have hread : (Reader.readU32 ⟨before ++ writeString text ++ rest,
      before.length⟩) = (UInt32.ofNat text.length,
        ⟨before ++ writeString text ++ rest, before.length + 4⟩) := by
    have hvalue : (UInt32.ofNat text.length).toNat < 256 ^ 4 :=
      (UInt32.ofNat text.length).toNat_lt
    have htake : ((before ++ writeString text ++ rest).drop
        before.length).take 4 = writeU32 (UInt32.ofNat text.length) := by
      rw [List.append_assoc, List.drop_left, writeString, List.append_assoc]
      exact List.take_left' (by simp [writeU32])
    have hlength : ¬ (before ++ writeString text ++ rest).length <
        before.length + 4 := by
      simp [writeString, writeU32]
    rw [Reader.readU32, if_neg hlength, htake, writeU32, beNat_beBytes,
      Nat.mod_eq_of_lt hvalue, UInt32.ofNat_toNat]
  rw [Reader.readString, hread]
  dsimp only
  split
  · exact ⟨0, rfl⟩
  · refine ⟨(UInt32.ofNat text.length).toNat, ?_⟩
    have hle : (UInt32.ofNat text.length).toNat ≤ text.length := by
      rw [UInt32.toNat_ofNat']
      exact Nat.mod_le _ _
    have hdrop : (before ++ writeString text ++ rest).drop
        (before.length + 4) = text ++ rest := by
      simp [writeString, writeU32, List.drop_append, List.drop_of_length_le]
    rw [hdrop, List.take_append_of_le_length hle]

theorem unpackRouted_uri {m found : Routed}
    (hunpack : unpackRouted (packRouted m) = some found) :
    ∃ k, found.uri = parseUriFromWire (m.uri.toBytes.take k) := by
  have hpack : packRouted m =
      (routedType :: m.flags :: writeU64 m.msgId ++ writeU64 m.senderNodeId) ++
        writeString m.uri.toBytes ++ (writeU64 m.msgHash ++
          (writeU32 (UInt32.ofNat m.payload.length) ++ m.payload)) := by
    simp [packRouted]
  have hoffset : (routedType :: m.flags :: writeU64 m.msgId ++
      writeU64 m.senderNodeId).length = 18 := by
    simp [writeU64]
  obtain ⟨k, hk⟩ := readString_take m.uri.toBytes (writeU64 m.msgHash ++
    (writeU32 (UInt32.ofNat m.payload.length) ++ m.payload))
    (routedType :: m.flags :: writeU64 m.msgId ++ writeU64 m.senderNodeId)
  rw [hoffset, ← hpack] at hk
  exact ⟨k, by rw [unpackRouted_readString hunpack, hk]⟩

/-- A frame is addressed to the node that its proxy was made for. -/
theorem frameNode_packRouted {m : Routed} {node : UInt64}
    (hnode : frameNode (packRouted m) = some node) :
    stoull m.uri.node = some node := by
  obtain ⟨found, hunpack, hnode⟩ := Option.bind_eq_some_iff.mp hnode
  obtain ⟨k, huri⟩ := unpackRouted_uri hunpack
  rw [huri] at hnode
  exact stoull_parseUri hnode

theorem signedDigits_of_digit {byte : UInt8} (hbyte : isDigit byte = true)
    (rest : List UInt8) :
    signedDigits (byte :: rest) = signedDigits.unsigned (byte :: rest) := by
  have hminus : byte ≠ 0x2D := by
    rintro rfl
    simp [isDigit] at hbyte
  have hplus : byte ≠ 0x2B := by
    rintro rfl
    simp [isDigit] at hbyte
  simp [signedDigits, hminus, hplus]

theorem nodeText_eq (node : UInt64) : nodeText node = decimalText node.toNat := rfl

/-- `std::to_string` of a node id names that node. -/
theorem stoull_nodeText (node : UInt64) : stoull (nodeText node) = some node := by
  obtain ⟨byte, rest, htext⟩ : ∃ byte rest, nodeText node = byte :: rest :=
    List.exists_cons_of_ne_nil (decimalText_ne_nil node.toNat)
  have hbyte : isDigit byte = true :=
    isDigit_of_mem_decimalText
      (by rw [← nodeText_eq, htext]; exact List.mem_cons_self ..)
  have hspace : isSpace byte = false := by
    simp only [isDigit, Bool.and_eq_true, decide_eq_true_eq] at hbyte
    simp only [isSpace, Bool.or_eq_false_iff, Bool.and_eq_false_iff,
      decide_eq_false_iff_not]
    grind
  have hall : (nodeText node).takeWhile isDigit = nodeText node :=
    List.takeWhile_eq_self_iff.mpr fun _ => isDigit_of_mem_decimalText
  have hdrop : (nodeText node).dropWhile isSpace = nodeText node := by
    rw [htext, List.dropWhile_cons, hspace]
    rfl
  have hunsigned : signedDigits (nodeText node) =
      signedDigits.unsigned (nodeText node) := by
    rw [htext]
    exact signedDigits_of_digit hbyte rest
  rw [stoull, hdrop, hunsigned, signedDigits.unsigned, hall,
    nodeText_eq, digitsValue_decimalText]
  simpa [decimalText_ne_nil] using node.toNat_lt

end UltraNet
