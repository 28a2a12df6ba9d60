/-
Whole DNS responses as the protocol has them, with names that may end in
pointers, and that the resolver reads out of one just what its answers say.
-/
import UltraNet.DnsNames

namespace UltraNet

namespace Dns

section Format

/-- The labels of a name that stands at an offset of a message, and the offset
behind it.  A name ends in a root or goes on elsewhere. -/
inductive NameAt (buf : List UInt8) : Nat → List (List UInt8) → Nat → Prop
  | root {off : Nat} : [0] <+: buf.drop off → NameAt buf off [] (off + 1)
  | label {off next : Nat} {label : List UInt8} {labels : List (List UInt8)} :
      IsLabel label → UInt8.ofNat label.length :: label <+: buf.drop off →
      NameAt buf (off + 1 + label.length) labels next →
      NameAt buf off (label :: labels) next
  | pointer {off target next : Nat} {labels : List (List UInt8)} :
      target < 2 ^ 14 → pointerTo target <+: buf.drop off →
      NameAt buf target labels next → NameAt buf off labels (off + 2)

/-- What an answer says to a resolver. -/
inductive Answer
  | address (bytes : List UInt8)
  | service (priority weight port : UInt16) (target : List (List UInt8))
  | other (rtype : UInt16) (rdata : List UInt8)

def Answer.rtype : Answer → UInt16
  | .address _ => 1
  | .service .. => 33
  | .other rtype _ => rtype

/-- The data of an answer, at an offset for the sake of the name in it. -/
inductive DataAt (buf : List UInt8) (off : Nat) : Answer → List UInt8 → Prop
  | address {bytes : List UInt8} : bytes.length = 4 → DataAt buf off (.address bytes) bytes
  | service {priority weight port : UInt16} {target : List (List UInt8)}
      {name : List UInt8} {next : Nat} :
      NameAt buf (off + 6) target next →
      DataAt buf off (.service priority weight port target)
        (beBytes16 priority ++ beBytes16 weight ++ beBytes16 port ++ name)
  | other {rtype : UInt16} {rdata : List UInt8} :
      ¬ (rtype = 1 ∧ rdata.length = 4) → ¬ (rtype = 33 ∧ 6 ≤ rdata.length) →
      DataAt buf off (.other rtype rdata) rdata

/-- The bytes of an answer behind the name that it is about. -/
def answerBytes (rtype rclass : UInt16) (ttl rdata : List UInt8) : List UInt8 :=
  beBytes16 rtype ++ beBytes16 rclass ++ ttl ++
    beBytes16 (UInt16.ofNat rdata.length) ++ rdata

/-- The answers that stand one behind the other from an offset on. -/
inductive AnswersAt (buf : List UInt8) : Nat → List Answer → Prop
  | nil {off : Nat} : AnswersAt buf off []
  | cons {off behind : Nat} {owner : List (List UInt8)} {answer : Answer}
      {rclass : UInt16} {ttl rdata : List UInt8} {said : List Answer} :
      NameAt buf off owner behind → ttl.length = 4 → rdata.length < 2 ^ 16 →
      answerBytes answer.rtype rclass ttl rdata <+: buf.drop behind →
      DataAt buf (behind + 10) answer rdata →
      AnswersAt buf (behind + 10 + rdata.length) said →
      AnswersAt buf off (answer :: said)

/-- A response to one question. -/
inductive IsResponse (response : List UInt8) : List Answer → Prop
  | mk {header : DnsHeader} {question : List (List UInt8)} {behind : Nat}
      {qtype qclass : UInt16} {said : List Answer} :
      header.encode <+: response → header.qdcount = 1 →
      header.ancount.toNat = said.length → NameAt response 12 question behind →
      beBytes16 qtype ++ beBytes16 qclass <+: response.drop behind →
      AnswersAt response (behind + 4) said → IsResponse response said

end Format

section Names

variable {buf : List UInt8} {off next : Nat} {labels : List (List UInt8)}

theorem nameStep_root (hbytes : [0] <+: buf.drop off) (name : List UInt8) (jumped : Bool)
    (origOffset : Nat) :
    nameStep buf ⟨off, name, jumped, origOffset⟩ =
      .inr ⟨if jumped then off else off + 1, name, jumped, origOffset⟩ := by
  obtain ⟨rest, hrest⟩ := hbytes
  have hbyte : buf[off]? = some 0 := by
    rw [← List.head?_drop, ← hrest]
    rfl
  rw [nameStep]
  simp only [hbyte, if_true]
  cases jumped with
  | true => rfl
  | false => rfl

theorem nameStep_label {label : List UInt8} (hlabel : IsLabel label)
    (hbytes : UInt8.ofNat label.length :: label <+: buf.drop off) (name : List UInt8)
    (jumped : Bool) (origOffset : Nat) :
    nameStep buf ⟨off, name, jumped, origOffset⟩ =
      .inl ⟨off + 1 + label.length, appendLabel name label, jumped, origOffset⟩ := by
  obtain ⟨rest, hrest⟩ := hbytes
  have hbyte : buf[off]? = some (UInt8.ofNat label.length) := by
    rw [← List.head?_drop, ← hrest]
    rfl
  have hbehind : buf.drop (off + 1) = label ++ rest := by
    rw [← List.drop_drop, ← hrest]
    rfl
  have hsize := congrArg List.length hbehind
  simp only [List.length_drop, List.length_append] at hsize
  have hpos := List.length_pos_iff.mpr hlabel.nonempty
  obtain ⟨hzero, hpointer, hvalue⟩ := label_length_byte hpos hlabel.short
  rw [nameStep]
  simp only [hbyte]
  rw [if_neg hzero, if_neg hpointer, hvalue, if_neg (by omega), hbehind, List.take_left]

theorem nameStep_pointer {target : Nat} (htarget : target < 2 ^ 14)
    (hbytes : pointerTo target <+: buf.drop off) (name : List UInt8) (jumped : Bool)
    (origOffset : Nat) :
    nameStep buf ⟨off, name, jumped, origOffset⟩ =
      .inl ⟨target, name, true, if jumped then origOffset else off + 2⟩ := by
  obtain ⟨rest, hrest⟩ := hbytes
  have hfirst : buf[off]? = some (UInt8.ofNat (192 + target / 256)) := by
    rw [← List.head?_drop, ← hrest]
    rfl
  have hsecond : buf[off + 1]? = some (UInt8.ofNat (target % 256)) := by
    rw [← List.head?_drop, ← List.drop_drop, ← hrest]
    rfl
  obtain ⟨hzero, hmask, hvalue⟩ := pointerTarget_pointerTo htarget
  rw [nameStep]
  simp only [hfirst, hsecond]
  rw [if_neg hzero, if_pos hmask, hvalue]

/-- The loop over a name, wherever its pointers lead. -/
theorem returns_nameAt (hname : NameAt buf off labels next) (name : List UInt8)
    (jumped : Bool) (origOffset : Nat) :
    ∃ last, Loop.Returns (nameStep buf) ⟨off, name, jumped, origOffset⟩ last ∧
      last.result = (labels.foldl appendLabel name, if jumped then origOffset else next) := by
  induction hname generalizing name jumped origOffset with
  | root hbytes =>
      refine ⟨_, Loop.returns_last (nameStep_root hbytes name jumped origOffset), ?_⟩
      cases jumped with
      | true => rfl
      | false => rfl
  | label hlabel hbytes _ ih =>
      obtain ⟨last, hreturns, hresult⟩ := ih (appendLabel name _) jumped origOffset
      exact ⟨last, (Loop.returns_next (nameStep_label hlabel hbytes name jumped _)).mpr hreturns,
        hresult⟩
  | @pointer off target _ _ htarget hbytes _ ih =>
      obtain ⟨last, hreturns, hresult⟩ :=
        ih name true (if jumped then origOffset else off + 2)
      exact ⟨last,
        (Loop.returns_next (nameStep_pointer htarget hbytes name jumped origOffset)).mpr hreturns,
        hresult⟩

theorem NameAt.isLabel (hname : NameAt buf off labels next) :
    ∀ label ∈ labels, IsLabel label := by
  induction hname with
  | root _ =>
      intro label hmem
      cases hmem
  | label hlabel _ _ ih => exact List.forall_mem_cons.mpr ⟨hlabel, ih⟩
  | pointer _ _ _ ih => exact ih

/-- `decode_name` gives a name back, however often it goes on elsewhere. -/
theorem settles_decodeName (hname : NameAt buf off labels next) :
    Loop.Settles (fun fuel => decodeName fuel buf off) (joined labels, next) := by
  obtain ⟨last, hreturns, hresult⟩ := returns_nameAt hname [] false off
  have hjoined := joined_eq_foldl hname.isLabel
  rw [← hjoined] at hresult
  rw [← show last.result = (joined labels, next) from hresult]
  exact (Loop.settles_of_returns hreturns).map NameScan.result

theorem NameAt.lt_next (hname : NameAt buf off labels next) : off < next := by
  induction hname with
  | root _ => exact Nat.lt_succ_self _
  | label _ _ _ ih => omega
  | pointer _ _ _ _ => omega

end Names

section Fields

variable {buf front rest : List UInt8} {off behind : Nat}

theorem prefix_behind (hbytes : front ++ rest <+: buf.drop off) :
    rest <+: buf.drop (off + front.length) := by
  obtain ⟨more, hmore⟩ := hbytes
  rw [← List.drop_drop, ← hmore, List.append_assoc, List.drop_left]
  exact List.prefix_append rest more

theorem prefix_inside (hbytes : front <+: buf.drop off) (hfront : front ≠ []) :
    off + front.length ≤ buf.length := by
  have hlength := hbytes.length_le
  have hpos := List.length_pos_iff.mpr hfront
  rw [List.length_drop] at hlength
  omega

theorem readU16_beBytes16 {value : UInt16} (hbytes : beBytes16 value <+: buf.drop off) :
    readU16 buf off = value.toNat := by
  obtain ⟨more, hmore⟩ := hbytes
  have hfirst : buf[off]? = some (value >>> 8).toUInt8 := by
    rw [← List.head?_drop, ← hmore]
    rfl
  have hsecond : buf[off + 1]? = some (value &&& 0xFF).toUInt8 := by
    rw [← List.head?_drop, ← List.drop_drop, ← hmore]
    rfl
  rw [readU16, List.getD_eq_getElem?_getD, List.getD_eq_getElem?_getD, hfirst, hsecond]
  have hvalue := value.toNat_lt
  simp only [Option.getD_some, UInt16.toNat_toUInt8, UInt16.toNat_shiftRight,
    UInt16.toNat_and, UInt16.toNat_ofNat, Nat.shiftRight_eq_div_pow]
  rw [show (255 % 2 ^ 16 : Nat) = 2 ^ 8 - 1 from rfl, Nat.and_two_pow_sub_one_eq_mod,
    show (8 % 2 ^ 16 % 16 : Nat) = 8 from rfl]
  omega

theorem answer_fields {rtype rclass : UInt16} {ttl rdata : List UInt8}
    (hbytes : answerBytes rtype rclass ttl rdata <+: buf.drop behind)
    (httl : ttl.length = 4) (hsize : rdata.length < 2 ^ 16) :
    readU16 buf behind = rtype.toNat ∧ readU16 buf (behind + 8) = rdata.length ∧
      rdata <+: buf.drop (behind + 10) := by
  rw [answerBytes] at hbytes
  have hdata := prefix_behind hbytes
  have hrest := (List.prefix_append _ rdata).trans hbytes
  have hlength := readU16_beBytes16 (prefix_behind hrest)
  have htype := (List.prefix_append _ _).trans ((List.prefix_append _ _).trans
    ((List.prefix_append _ _).trans hrest))
  have hwidth : ∀ value, (beBytes16 value).length = 2 := fun _ => rfl
  simp only [List.length_append, hwidth, httl] at hdata hlength
  refine ⟨readU16_beBytes16 htype, ?_, hdata⟩
  rw [hlength, UInt16.toNat_ofNat']
  exact Nat.mod_eq_of_lt hsize

theorem answer_inside {rtype rclass : UInt16} {ttl rdata : List UInt8}
    (hbytes : answerBytes rtype rclass ttl rdata <+: buf.drop behind)
    (httl : ttl.length = 4) : behind + 10 + rdata.length ≤ buf.length := by
  have hend := prefix_inside hbytes (by rw [answerBytes]; simp [beBytes16])
  simp only [answerBytes, beBytes16, List.length_append, List.length_cons,
    List.length_nil] at hend
  omega

end Fields

section Readers

variable {α : Type} {buf response : List UInt8} {off least : Nat} {said : List Answer}
  {keep : Answer → List α}

theorem AnswersAt.inside {answer : Answer} (hanswers : AnswersAt buf off (answer :: said)) :
    off + 11 ≤ buf.length := by
  cases hanswers with
  | cons howner httl _ hbytes _ _ =>
      have hbefore := howner.lt_next
      have hend := answer_inside hbytes httl
      omega

/-- Answers too short for the loop to begin with say nothing that is kept. -/
theorem answers_short (hsmall : least ≤ 12)
    (hleast : ∀ off answer rdata, DataAt buf off answer rdata → keep answer ≠ [] →
      least ≤ 11 + rdata.length)
    (hanswers : AnswersAt buf off said) (hshort : ¬ off + least ≤ buf.length) :
    said.flatMap keep = [] := by
  cases hanswers with
  | nil => rfl
  | @cons _ behind owner answer rclass ttl rdata said howner httl _ hbytes hdata hrest =>
      have hbefore := howner.lt_next
      have hend := answer_inside hbytes httl
      have hkeep : keep answer = [] := by
        by_contra hkept
        have := hleast _ _ _ hdata hkept
        omega
      cases said with
      | nil => rw [List.flatMap_cons, hkeep]; rfl
      | cons second said =>
          have := hrest.inside
          omega

/-- The answer loop keeps what is to be kept of each answer, in their order. -/
theorem settles_answers (record : Nat → Nat → Nat → Nat → Option (List α))
    (hsmall : least ≤ 12)
    (hleast : ∀ off answer rdata, DataAt buf off answer rdata → keep answer ≠ [] →
      least ≤ 11 + rdata.length)
    (hrecord : ∀ off answer rdata, DataAt buf off answer rdata → rdata <+: buf.drop off →
      Loop.Settles (fun fuel => record fuel answer.rtype.toNat rdata.length off)
        (keep answer))
    (hanswers : AnswersAt buf off said) :
    Loop.Settles (fun fuel => answers least (record fuel) fuel buf said.length off)
      (said.flatMap keep) := by
  induction hanswers with
  | nil => exact Loop.settles_some []
  | @cons off behind owner answer rclass ttl rdata said howner httl hsize hbytes hdata hrest ih =>
      by_cases hfits : off + least ≤ buf.length
      · obtain ⟨htype, hlength, hat⟩ := answer_fields hbytes httl hsize
        have hend := answer_inside hbytes httl
        obtain ⟨rounds, hname⟩ := settles_decodeName howner
        obtain ⟨rounds', hkept⟩ := hrecord _ _ _ hdata hat
        obtain ⟨rounds'', hothers⟩ := ih
        refine ⟨max rounds (max rounds' rounds''), fun fuel hle => ?_⟩
        obtain ⟨hle, hle', hle''⟩ := by simpa only [max_le_iff] using hle
        simp only at hname hkept hothers ⊢
        rw [List.length_cons, answers, if_pos hfits, hname fuel hle]
        simp only [hlength, htype]
        rw [if_neg (by omega), if_neg (by omega), hkept fuel hle', hothers fuel hle'']
        rfl
      · rw [answers_short hsmall hleast (.cons howner httl hsize hbytes hdata hrest) hfits]
        refine ⟨0, fun fuel _ => ?_⟩
        simp only [List.length_cons]
        rw [answers, if_neg hfits]

/-- What is kept of a whole response. -/
theorem settles_readResponse (record : Nat → Nat → Nat → Nat → Option (List α))
    (hsmall : least ≤ 12)
    (hleast : ∀ off answer rdata, DataAt response off answer rdata → keep answer ≠ [] →
      least ≤ 11 + rdata.length)
    (hrecord : ∀ off answer rdata, DataAt response off answer rdata →
      rdata <+: response.drop off →
      Loop.Settles (fun fuel => record fuel answer.rtype.toNat rdata.length off)
        (keep answer))
    (hresponse : IsResponse response said) :
    Loop.Settles (fun fuel => readResponse least (record fuel) fuel response)
      (said.flatMap keep) := by
  cases hresponse with
  | @mk header question behind qtype qclass said hheader _ hcount hquestion _ hanswers =>
      have hlong : ¬ response.length < 12 := Nat.not_lt.mpr hheader.length_le
      have hancount : readU16 response 6 = said.length := by
        rw [← hcount]
        apply readU16_beBytes16
        rw [DnsHeader.encode] at hheader
        rw [← @List.drop_zero _ response] at hheader
        have hfront := (List.prefix_append _ _).trans ((List.prefix_append _ _).trans hheader)
        exact prefix_behind hfront
      by_cases hnone : said = []
      · subst hnone
        refine ⟨0, fun fuel _ => ?_⟩
        have hzero : readU16 response 6 = 0 := hancount
        simp only [readResponse]
        rw [if_neg hlong, if_pos hzero]
        rfl
      · obtain ⟨rounds, hname⟩ := settles_decodeName hquestion
        obtain ⟨rounds', hread⟩ := settles_answers record hsmall hleast hrecord hanswers
        refine ⟨max rounds rounds', fun fuel hle => ?_⟩
        obtain ⟨hle, hle'⟩ := by simpa only [max_le_iff] using hle
        have hsome : ¬ said.length = 0 := fun hzero => hnone (List.length_eq_zero_iff.mp hzero)
        simp only at hname hread ⊢
        rw [readResponse, if_neg hlong, hancount, if_neg hsome, hname fuel hle]
        exact hread fuel hle'

end Readers

section Lookups

variable {response : List UInt8} {said : List Answer}

/-- The addresses of an answer, as text. -/
def Answer.addresses : Answer → List (List UInt8)
  | .address bytes => [addressText bytes]
  | _ => []

/-- The service records of an answer. -/
def Answer.services : Answer → List SrvRecord
  | .service priority weight port target =>
      [⟨priority.toNat, weight.toNat, port.toNat, joined target⟩]
  | _ => []

/-- `resolve_host` reads the addresses of a response, and nothing else. -/
theorem settles_resolveHost (hresponse : IsResponse response said) :
    Loop.Settles (fun fuel => resolveHost fuel response) (said.flatMap Answer.addresses) := by
  apply settles_readResponse (fun _ => hostRecord response) (le_refl 12) _ _ hresponse
  · intro off answer rdata hdata hkeep
    cases hdata with
    | address hfour => omega
    | service _ => exact absurd rfl hkeep
    | other _ _ => exact absurd rfl hkeep
  · intro off answer rdata hdata hat
    cases hdata with
    | address hfour =>
        have htake := List.prefix_iff_eq_take.mp hat
        rw [hfour] at htake
        have hread : hostRecord response 1 4 off = some [addressText rdata] := by
          rw [hostRecord, if_pos ⟨rfl, rfl⟩, ← htake]
        rw [hfour]
        exact ⟨0, fun _ _ => hread⟩
    | service _ =>
        have htype : ¬ (33 : UInt16).toNat = 1 := by decide
        exact ⟨0, fun _ _ => if_neg fun hrecord => htype hrecord.1⟩
    | other hno _ =>
        refine ⟨0, fun _ _ => if_neg fun htype => hno ⟨?_, htype.2⟩⟩
        exact UInt16.toNat_inj.mp htype.1

/-- `resolve_srv` reads the service records of a response, and nothing else. -/
theorem settles_resolveSrv (hresponse : IsResponse response said) :
    Loop.Settles (fun fuel => resolveSrv fuel response) (said.flatMap Answer.services) := by
  apply settles_readResponse (fun fuel => srvRecord fuel response) (by decide) _ _
    hresponse
  · intro off answer rdata hdata hkeep
    exact Nat.le_trans (by decide) (Nat.le_add_right 11 _)
  · intro off answer rdata hdata hat
    cases hdata with
    | address hfour =>
        have htype : ¬ (1 : UInt16).toNat = 33 := by decide
        exact ⟨0, fun _ _ => if_neg fun hrecord => htype hrecord.1⟩
    | @service priority weight port target name next hname =>
        obtain ⟨rounds, htarget⟩ := settles_decodeName hname
        have hport := (List.prefix_append _ name).trans hat
        have hweight := (List.prefix_append _ _).trans hport
        have hpriority := (List.prefix_append _ _).trans hweight
        have hfirst := readU16_beBytes16 hpriority
        have hsecond := readU16_beBytes16 (prefix_behind hweight)
        have hthird := readU16_beBytes16 (prefix_behind hport)
        have hsix : 6 ≤ (beBytes16 priority ++ beBytes16 weight ++ beBytes16 port ++
            name).length := by
          simp [beBytes16]
        simp only [beBytes16, List.length_append, List.length_cons, List.length_nil]
          at hsecond hthird
        refine ⟨rounds, fun fuel hle => ?_⟩
        simp only at htarget ⊢
        rw [srvRecord, if_pos ⟨rfl, hsix⟩, htarget fuel hle, hfirst, hsecond, hthird]
        rfl
    | other _ hno =>
        refine ⟨0, fun _ _ => if_neg fun htype => hno ⟨?_, htype.2⟩⟩
        exact UInt16.toNat_inj.mp htype.1

end Lookups

end Dns

end UltraNet
