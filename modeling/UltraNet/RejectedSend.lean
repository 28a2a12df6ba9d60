/-
What a rejected send leaves behind.  `try_deliver` records the message in the
log and in `m_unacked` before it learns whether the proxy can take it, so only
a send that is refused before that has no effect.
-/
import UltraNet.LaterSends

namespace UltraNet

/-- How the log answers, and whether the connection dies between the check of
`is_valid` and `post_frame`. -/
structure SendAnswer where
  io : IoScript
  died : Bool
deriving DecidableEq

namespace SenderState

/-- `post_frame` finds the connection dead. -/
def failPost (s : SenderState) (conn : Nat) (msgId : UInt64) : SenderState :=
  { s with
    links := s.links.modify conn fun link => { link with valid := false }
    unacked := s.unacked.noteSendFailed msgId }

/-- `try_deliver` after the message was tracked. -/
def offer (s : SenderState) (i : Nat) (proxy : Proxy) (msg : BufferedMessage)
    (died : Bool) : Bool × SenderState :=
  match proxy.conn.filter s.validLink with
  | none =>
      if proxy.buffered.length ≥ Proxy.maxBuffered then (false, s)
      else
        (true, s.setProxy i { proxy with buffered := proxy.buffered ++ [msg] })
  | some conn =>
      if !proxy.hasPool then (false, s)
      else if died then (false, s.failPost conn msg.msgId)
      else (true, s.post conn (proxy.packRouted msg))

/-- `remote_proxy::try_deliver`; `none` when the process is killed in it. -/
def tryDeliver (s : SenderState) (i : Nat) (proxy : Proxy)
    (msg : BufferedMessage) (answer : SendAnswer) :
    Option (Bool × SenderState) :=
  if msg.data = [] then some (false, s)
  else
    (s.appendData msg.msgId (proxy.packRouted msg) (.wrote answer.io)).map
      fun (ok, s) =>
        if ok then
          (s.track proxy.node msg.msgId (proxy.packRouted msg)).offer i proxy msg
            answer.died
        else (false, s)

/-- The attempts of `remote_accept`, one after the other, until one is taken
or the time is up.  A rejected attempt leaves the proxy as it was. -/
def attempts (i : Nat) (proxy : Proxy) (msg : BufferedMessage) :
    SenderState → List SendAnswer → Option (Bool × SenderState)
  | s, [] => some (false, s)
  | s, answer :: rest =>
      match s.tryDeliver i proxy msg answer with
      | none => none
      | some (true, next) => some (true, next)
      | some (false, next) => attempts i proxy msg next rest

def remoteAccept (s : SenderState) (i : Nat) (proxy : Proxy)
    (msg : BufferedMessage) (waitForRoom : Bool) (first : SendAnswer)
    (more : List SendAnswer) : Option (Bool × SenderState) :=
  if msg.data = [] then some (false, s)
  else
    attempts i proxy msg s (if waitForRoom then first :: more else [first])

end SenderState

/-- The tables, the log and the buffer are as before, and the message is not
transmitted later. -/
structure NoEffect (s next : SenderState) (i : Nat) (frame : List UInt8) :
    Prop where
  unacked : ∀ msgId, next.unacked.lookup msgId = s.unacked.lookup msgId
  file : next.file = s.file
  log : next.log = s.log
  buffer : (next.proxies[i]?).map (·.buffered) =
    (s.proxies[i]?).map (·.buffered)
  posted : next.posted = s.posted
  never : NeverSent next frame

/-- The first write fails before the file has taken a byte. -/
def failsAtOnce : List WriteAnswer → Bool
  | .failed :: _ | .interrupted :: _ => true
  | .wrote 0 :: answers => failsAtOnce answers
  | _ => false

/-- The log refuses the message and writes nothing. -/
def Refuses (s : SenderState) (msgId : UInt64) (answer : SendAnswer) : Prop :=
  ∃ log, s.log = some log ∧ msgId ∉ log.dataIds ∧
    (log.opened = false ∨ failsAtOnce answer.io.writes = true)

theorem writeLoop_refused {data : List UInt8} (hdata : data ≠ [])
    (answers : List WriteAnswer) :
    writeLoop remoteWritePolicy data answers = ([], .returned false) ↔
      failsAtOnce answers = true := by
  obtain ⟨byte, rest, rfl⟩ := List.exists_cons_of_ne_nil hdata
  induction answers with
  | nil => simp [writeLoop, failsAtOnce]
  | cons answer answers ih =>
      cases answer with
      | wrote count =>
          cases count with
          | zero => simpa [writeLoop, failsAtOnce, remoteWritePolicy] using ih
          | succ count =>
              simp [writeLoop, failsAtOnce, remoteWritePolicy]
      | interrupted => simp [writeLoop, failsAtOnce, remoteWritePolicy]
      | failed => simp [writeLoop, failsAtOnce]
      | killed => simp [writeLoop, failsAtOnce]

theorem writeAndSync_refused {data : List UInt8} (hdata : data ≠ [])
    (io : IoScript) :
    writeAndSync remoteWritePolicy data io = ([], .returned false) ↔
      failsAtOnce io.writes = true := by
  rw [← writeLoop_refused hdata, writeAndSync]
  split
  · rename_i part hwrite
    have hpart : part = data := by
      simpa [hwrite] using
        writeLoop_complete remoteWritePolicy data io.writes (by rw [hwrite])
    cases io.sync <;> simp [hwrite, hpart, hdata]
  · rfl

namespace SenderState

variable {s next : SenderState} {i : Nat} {proxy : Proxy}
  {msg : BufferedMessage} {answer : SendAnswer} {frame : List UInt8}

/-- Everything that an append to the log changes. -/
theorem appendData_cases {msgId : UInt64} {io : IoScript} {ok : Bool}
    (happend : s.appendData msgId frame (.wrote io) = some (ok, next)) :
    next = { s with file := next.file, log := next.log } ∧
      (∃ bytes, next.file = s.file ++ bytes) ∧
      (ok = false → next.log = s.log) ∧
      ∀ log, next.log = some log → ∃ before, s.log = some before ∧
        before.dataIds ⊆ log.dataIds ∧ (ok = true → msgId ∈ log.dataIds) := by
  unfold appendData at happend
  dsimp only at happend
  split at happend
  · rename_i hlog
    simp only [Option.some.injEq, Prod.mk.injEq] at happend
    obtain ⟨rfl, rfl⟩ := happend
    exact ⟨rfl, ⟨[], by simp⟩, by simp, by simp [hlog]⟩
  · rename_i log hlog
    split at happend
    · cases happend
    · rename_i found houtcome
      simp only [Option.some.injEq, Prod.mk.injEq] at happend
      obtain ⟨rfl, rfl⟩ := happend
      refine ⟨rfl, ⟨_, rfl⟩, ?_, ?_⟩
      · rintro rfl
        unfold RemoteLog.appendData at houtcome ⊢
        grind
      · intro after hafter
        obtain rfl := Option.some.inj hafter
        refine ⟨log, hlog, ?_, ?_⟩
        · unfold RemoteLog.appendData
          grind
        · rintro rfl
          unfold RemoteLog.appendData at houtcome ⊢
          grind

/-- A refusal that writes nothing leaves the state as it is. -/
theorem eq_of_refused {msgId : UInt64} {io : IoScript}
    (happend : s.appendData msgId frame (.wrote io) = some (false, next))
    (hfile : next.file = s.file) : next = s := by
  obtain ⟨heq, -, hlog, -⟩ := appendData_cases happend
  rw [heq, hfile, hlog rfl]

theorem refused_iff (s : SenderState) (msgId : UInt64) (frame : List UInt8)
    (answer : SendAnswer) :
    (∃ next, s.appendData msgId frame (.wrote answer.io) =
        some (false, next) ∧ next.file = s.file) ↔
      Refuses s msgId answer := by
  unfold appendData Refuses
  cases hlog : s.log with
  | none => simp
  | some log =>
      by_cases hmem : msgId ∈ log.dataIds
      · simp [RemoteLog.appendData, hmem]
      · cases hopened : log.opened with
        | false =>
            simp [RemoteLog.appendData, appendRecordLocked, hmem, hopened]
        | true =>
            have hframe : remoteFormat.encode
                (appendedRecord 1 msgId frame).toFrame ≠ [] := by
              simp [FrameFormat.encode, remoteFormat]
            have hwrite := writeAndSync_refused hframe answer.io
            simp only [Option.some.injEq, exists_eq_left', hmem,
              not_false_eq_true, hopened, Bool.true_eq_false, false_or,
              true_and, ← hwrite, RemoteLog.appendData, appendRecordLocked,
              if_true, if_false]
            generalize writeAndSync _ _ _ = result
            obtain ⟨bytes, outcome⟩ := result
            rcases outcome with ok | - <;> try cases ok
            all_goals simp

/-- A message that the proxy does not take stays in `m_unacked`. -/
theorem offer_false {died : Bool} {item : UnackedItem}
    (hitem : s.unacked.lookup msg.msgId = some item)
    (hoffer : s.offer i proxy msg died = (false, next)) :
    next.proxies = s.proxies ∧ next.posted = s.posted ∧
      next.file = s.file ∧ next.log = s.log ∧
      ∃ after, next.unacked.lookup msg.msgId = some after ∧
        after.frame = item.frame := by
  unfold offer at hoffer
  split at hoffer
  · split at hoffer
    · obtain rfl := (Prod.mk.inj hoffer).2
      exact ⟨rfl, rfl, rfl, rfl, item, hitem, rfl⟩
    · cases (Prod.mk.inj hoffer).1
  · split at hoffer
    · obtain rfl := (Prod.mk.inj hoffer).2
      exact ⟨rfl, rfl, rfl, rfl, item, hitem, rfl⟩
    · split at hoffer
      · obtain rfl := (Prod.mk.inj hoffer).2
        refine ⟨rfl, rfl, rfl, rfl, { item with needsResend := true }, ?_, rfl⟩
        simp [failPost, Unacked.noteSendFailed, Table.lookup_modify, hitem]
      · cases (Prod.mk.inj hoffer).1

/-- What every rejected attempt leaves: the log has refused it, or it is
recorded in `m_unacked`. -/
theorem tryDeliver_false (hdata : msg.data ≠ [])
    (htry : s.tryDeliver i proxy msg answer = some (false, next)) :
    next.proxies = s.proxies ∧ next.posted = s.posted ∧
      (∃ bytes, next.file = s.file ++ bytes) ∧
      (∀ log, next.log = some log → ∃ before, s.log = some before ∧
        before.dataIds ⊆ log.dataIds) ∧
      (s.appendData msg.msgId (proxy.packRouted msg) (.wrote answer.io) =
          some (false, next) ∨
        ∃ item, next.unacked.lookup msg.msgId = some item ∧
          item.frame = proxy.packRouted msg) := by
  rw [tryDeliver, if_neg hdata] at htry
  obtain ⟨⟨ok, middle⟩, happend, htry⟩ := Option.map_eq_some_iff.mp htry
  obtain ⟨heq, hfile, -, hlog⟩ := appendData_cases happend
  have hproxies : middle.proxies = s.proxies := by rw [heq]
  have hposted : middle.posted = s.posted := by rw [heq]
  dsimp only at htry
  cases ok with
  | false =>
      obtain rfl := (Prod.mk.inj htry).2
      refine ⟨hproxies, hposted, hfile, ?_, Or.inl happend⟩
      intro log hsame
      obtain ⟨before, hbefore, hsubset, -⟩ := hlog log hsame
      exact ⟨before, hbefore, hsubset⟩
  | true =>
      have htracked : (middle.track proxy.node msg.msgId
          (proxy.packRouted msg)).unacked.lookup msg.msgId =
            some ⟨proxy.packRouted msg, proxy.node, false⟩ := by
        simp [track, Unacked.trackUnacked]
      obtain ⟨hsameProxies, hsamePosted, hsameFile, hsameLog, item, hitem,
        hframe⟩ := offer_false htracked htry
      refine ⟨hsameProxies.trans hproxies, hsamePosted.trans hposted, ?_, ?_,
        Or.inr ⟨item, hitem, hframe⟩⟩
      · rw [hsameFile]
        exact hfile
      · intro log hsame
        rw [hsameLog] at hsame
        obtain ⟨before, hbefore, hsubset, -⟩ := hlog log hsame
        exact ⟨before, hbefore, hsubset⟩

/-- Attempts that the log refuses without writing leave the state alone. -/
theorem attempts_refused (hdata : msg.data ≠ []) (answers : List SendAnswer)
    (hrefuses : ∀ answer ∈ answers, Refuses s msg.msgId answer) :
    attempts i proxy msg s answers = some (false, s) := by
  induction answers with
  | nil => rfl
  | cons answer rest ih =>
      obtain ⟨next, happend, hfile⟩ := (refused_iff s msg.msgId
        (proxy.packRouted msg) answer).mpr
          (hrefuses answer (List.mem_cons_self ..))
      obtain rfl := eq_of_refused happend hfile
      have htry : next.tryDeliver i proxy msg answer = some (false, next) := by
        rw [tryDeliver, if_neg hdata, happend]
        rfl
      rw [attempts, htry]
      exact ih fun other hother => hrefuses other (List.mem_cons_of_mem _ hother)

end SenderState

/-- Something is left of the message: bytes in the log file, or its frame in
`m_unacked`. -/
def Marked (s next : SenderState) (msgId : UInt64) (frame : List UInt8) : Prop :=
  s.file.length < next.file.length ∨
    ∃ item, next.unacked.lookup msgId = some item ∧ item.frame = frame

namespace SenderState

variable {s next last : SenderState} {i : Nat} {proxy : Proxy}
  {msg : BufferedMessage} {answer : SendAnswer}

theorem tryDeliver_marked (hdata : msg.data ≠ [])
    (htry : next.tryDeliver i proxy msg answer = some (false, last))
    (hmarked : Marked s next msg.msgId (proxy.packRouted msg)) :
    Marked s last msg.msgId (proxy.packRouted msg) := by
  obtain ⟨-, -, ⟨bytes, hfile⟩, -, hleft⟩ := tryDeliver_false hdata htry
  rcases hmarked with hlonger | ⟨item, hitem, hframe⟩
  · left
    rw [hfile, List.length_append]
    omega
  · rcases hleft with happend | hrecorded
    · obtain ⟨heq, -⟩ := appendData_cases happend
      exact Or.inr ⟨item, by rw [heq]; exact hitem, hframe⟩
    · exact Or.inr hrecorded

theorem attempts_marked (hdata : msg.data ≠ []) (answers : List SendAnswer)
    (hattempts : attempts i proxy msg next answers = some (false, last))
    (hmarked : Marked s next msg.msgId (proxy.packRouted msg)) :
    Marked s last msg.msgId (proxy.packRouted msg) := by
  induction answers generalizing next with
  | nil =>
      simp only [attempts, Option.some.injEq, Prod.mk.injEq, true_and]
        at hattempts
      exact hattempts ▸ hmarked
  | cons answer rest ih =>
      simp only [attempts] at hattempts
      split at hattempts
      · cases hattempts
      · cases hattempts
      · rename_i middle htry
        exact ih hattempts (tryDeliver_marked hdata htry hmarked)

/-- Rejected attempts were all refused by the log without a trace, or left a
mark. -/
theorem attempts_false (hdata : msg.data ≠ []) (answers : List SendAnswer)
    (hattempts : attempts i proxy msg s answers = some (false, last)) :
    (∀ answer ∈ answers, Refuses s msg.msgId answer) ∨
      Marked s last msg.msgId (proxy.packRouted msg) := by
  induction answers with
  | nil => simp
  | cons answer rest ih =>
      simp only [attempts] at hattempts
      split at hattempts
      · cases hattempts
      · cases hattempts
      · rename_i middle htry
        obtain ⟨-, -, ⟨bytes, hfile⟩, -, hleft⟩ := tryDeliver_false hdata htry
        rcases hleft with happend | hrecorded
        · by_cases hsame : middle.file = s.file
          · obtain rfl := eq_of_refused happend hsame
            rcases ih hattempts with hrefuses | hmarked
            · left
              intro other hother
              rcases List.mem_cons.mp hother with rfl | hmem
              · exact (refused_iff ..).mp ⟨middle, happend, rfl⟩
              · exact hrefuses other hmem
            · exact Or.inr hmarked
          · right
            apply attempts_marked hdata rest hattempts
            left
            rw [hfile, List.length_append]
            have hbytes : bytes ≠ [] := by
              rintro rfl
              simp [hfile] at hsame
            have := List.length_pos_of_ne_nil hbytes
            omega
        · exact Or.inr (attempts_marked hdata rest hattempts (Or.inr hrecorded))

end SenderState

/-- The log holds the message, if there is a log. -/
def SenderState.Holds (s : SenderState) (msg : BufferedMessage) : Prop :=
  ∀ log, s.log = some log → msg.msgId ∈ log.dataIds

/-- The message that a section of `try_deliver` has logged before. -/
def SenderSection.logged : SenderSection → Option BufferedMessage
  | .deliverTrack _ msg | .deliverProxy _ msg => some msg
  | _ => none

namespace SenderState

variable {s next : SenderState}

theorem appendData_holds {msg : BufferedMessage} {frame : List UInt8}
    {choice : SenderChoice} {ok : Bool}
    (happend : s.appendData msg.msgId frame choice = some (ok, next)) :
    next.proxies = s.proxies ∧ (∀ other, s.Holds other → next.Holds other) ∧
      (ok = true → next.Holds msg) := by
  cases choice with
  | wrote io =>
      obtain ⟨heq, -, -, hlog⟩ := appendData_cases happend
      refine ⟨by rw [heq], ?_, ?_⟩
      · intro other hholds log hsame
        obtain ⟨before, hbefore, hsubset, -⟩ := hlog log hsame
        exact hsubset (hholds before hbefore)
      · intro hok log hsame
        obtain ⟨-, -, -, hmem⟩ := hlog log hsame
        exact hmem hok
  | _ => cases happend

theorem appendAck_log {msgId : UInt64} {choice : SenderChoice} {ok : Bool}
    (happend : s.appendAck msgId choice = some (ok, next)) :
    next.log = s.log ∧ next.proxies = s.proxies := by
  rw [appendAck_eq happend]
  exact ⟨rfl, rfl⟩

end SenderState

/-- What the buffers and the pending sections owe to the log. -/
structure BufferInv (s : SenderState) (pending : Multiset SenderSection) :
    Prop where
  buffers : BuffersLogged s
  sections : ∀ sec ∈ pending, ∀ msg, sec.logged = some msg → s.Holds msg

namespace BufferInv

variable {s next : SenderState} {others work : Multiset SenderSection}
  {sec : SenderSection}

theorem kept (hinv : BufferInv s (sec ::ₘ others))
    (hlog : ∀ msg, s.Holds msg → next.Holds msg)
    (hbuffers : ∀ proxy ∈ next.proxies, ∀ msg ∈ proxy.buffered,
      (∃ before ∈ s.proxies, msg ∈ before.buffered) ∨ sec.logged = some msg)
    (hwork : ∀ after ∈ work, ∀ msg, after.logged = some msg →
      sec.logged = some msg ∨ next.Holds msg) :
    BufferInv next (work + others) := by
  constructor
  · intro proxy hproxy msg hmsg
    rcases hbuffers proxy hproxy msg hmsg with ⟨before, hbefore, hmem⟩ | hsec
    · exact hlog msg (hinv.buffers before hbefore msg hmem)
    · exact hlog msg (hinv.sections sec (Multiset.mem_cons_self _ _) msg hsec)
  · intro after hafter msg hmsg
    rcases Multiset.mem_add.mp hafter with hnew | hold
    · rcases hwork after hnew msg hmsg with hsec | hholds
      · exact hlog msg
          (hinv.sections sec (Multiset.mem_cons_self _ _) msg hsec)
      · exact hholds
    · exact hlog msg
        (hinv.sections after (Multiset.mem_cons_of_mem hold) msg hmsg)

/-- A section that touches neither the log nor the buffers. -/
theorem same (hinv : BufferInv s (sec ::ₘ others)) (hlog : next.log = s.log)
    (hproxies : next.proxies = s.proxies)
    (hwork : ∀ after ∈ work, after.logged = none) :
    BufferInv next (work + others) := by
  refine hinv.kept ?_ ?_ ?_
  · intro msg hholds log hsame
    exact hholds log (hlog ▸ hsame)
  · intro proxy hproxy msg hmsg
    exact Or.inl ⟨proxy, hproxies ▸ hproxy, hmsg⟩
  · intro after hafter msg hmsg
    simp [hwork after hafter] at hmsg

/-- A section that may have appended to the log. -/
theorem grown (hinv : BufferInv s (sec ::ₘ others))
    (hlog : ∀ msg, s.Holds msg → next.Holds msg)
    (hproxies : next.proxies = s.proxies)
    (hwork : ∀ after ∈ work, ∀ msg, after.logged = some msg →
      next.Holds msg) :
    BufferInv next (work + others) := by
  refine hinv.kept hlog ?_ ?_
  · intro proxy hproxy msg hmsg
    exact Or.inl ⟨proxy, hproxies ▸ hproxy, hmsg⟩
  · intro after hafter msg hmsg
    exact Or.inr (hwork after hafter msg hmsg)

/-- A section that changes one proxy, and buffers there what it has logged. -/
theorem setProxy (hinv : BufferInv s (sec ::ₘ others)) {i : Nat}
    {proxy after : Proxy} (hproxy : s.proxies[i]? = some proxy)
    (hbuffer : ∀ msg ∈ after.buffered,
      msg ∈ proxy.buffered ∨ sec.logged = some msg)
    (hwork : ∀ after ∈ work, after.logged = none) :
    BufferInv (s.setProxy i after) (work + others) := by
  refine hinv.kept (fun _ hholds => hholds) ?_ ?_
  · intro other hother msg hmsg
    rcases List.mem_or_eq_of_mem_set hother with hmem | rfl
    · exact Or.inl ⟨other, hmem, hmsg⟩
    · rcases hbuffer msg hmsg with hold | hnew
      · exact Or.inl ⟨proxy, List.mem_of_getElem? hproxy, hold⟩
      · exact Or.inr hnew
  · intro other hother msg hmsg
    simp [hwork other hother] at hmsg

/-- A section that changes nothing and goes on with sections of one kind. -/
theorem each {A : Type} (hinv : BufferInv s (sec ::ₘ others)) (items : List A)
    {f : A → SenderSection} (hplain : ∀ item, (f item).logged = none) :
    BufferInv s ((Effect.goto s (items.map f)).work + others) := by
  refine hinv.same rfl rfl ?_
  simp only [Effect.goto_work, Multiset.mem_coe, List.mem_map]
  rintro after ⟨item, -, rfl⟩
  exact hplain item

section Functions

variable {choice : SenderChoice} {effect : Effect SenderState SenderSection}

theorem deliver (hinv : BufferInv s (sec ::ₘ others))
    (hexec : s.deliver sec choice = some effect) :
    BufferInv effect.shared (effect.work + others) := by
  cases sec <;> simp only [SenderState.deliver, reduceCtorEq] at hexec
  case newProxy uri node selfNode conn =>
    obtain rfl := Option.some.inj hexec
    refine hinv.kept (fun _ hholds => hholds) ?_ (by simp)
    intro proxy hproxy msg hmsg
    rcases List.mem_append.mp hproxy with hold | hnew
    · exact Or.inl ⟨proxy, hold, hmsg⟩
    · obtain rfl := List.mem_singleton.mp hnew
      cases hmsg
  case deliverLog i msg =>
    obtain ⟨proxy, -, hexec⟩ := Option.bind_eq_some_iff.mp hexec
    obtain ⟨⟨ok, next⟩, happend, rfl⟩ := Option.map_eq_some_iff.mp hexec
    obtain ⟨hproxies, hgrows, hholds⟩ := SenderState.appendData_holds happend
    cases ok with
    | false => exact hinv.grown hgrows hproxies (by simp)
    | true =>
        refine hinv.grown hgrows hproxies ?_
        intro after hafter other hother
        simp only [if_true, Effect.goto_work, Multiset.mem_coe,
          List.mem_singleton] at hafter
        subst hafter
        cases hother
        exact hholds rfl
  case deliverTrack i msg =>
    obtain ⟨proxy, -, rfl⟩ := Option.map_eq_some_iff.mp hexec
    refine hinv.kept (fun _ hholds => hholds) ?_ ?_
    · intro other hother msg hmsg
      exact Or.inl ⟨other, hother, hmsg⟩
    · simp [SenderSection.logged]
  case deliverProxy i msg =>
    obtain ⟨proxy, hproxy, rfl⟩ := Option.map_eq_some_iff.mp hexec
    split
    · split
      · exact hinv.same rfl rfl (by simp)
      · refine hinv.setProxy hproxy ?_ (by simp)
        simp [SenderSection.logged, eq_comm]
    · split
      · exact hinv.same rfl rfl (by simp [SenderSection.logged])
      · exact hinv.same rfl rfl (by simp)
  all_goals
    repeat' split at hexec
    all_goals cases hexec
    all_goals exact hinv.same rfl rfl (by simp [SenderSection.logged])

theorem connect (hinv : BufferInv s (sec ::ₘ others))
    (hexec : s.connect sec choice = some effect) :
    BufferInv effect.shared (effect.work + others) := by
  cases sec <;> simp only [SenderState.connect, reduceCtorEq] at hexec
  case connectDial node =>
    cases choice <;> simp only [reduceCtorEq] at hexec
    split at hexec <;> cases hexec <;>
      exact hinv.same rfl rfl (by simp [SenderSection.logged])
  case connectProxies node conn =>
    obtain rfl := Option.some.inj hexec
    exact hinv.each _ fun _ => rfl
  case flushSwap i conn =>
    obtain ⟨proxy, hproxy, rfl⟩ := Option.map_eq_some_iff.mp hexec
    split
    · refine hinv.setProxy hproxy (by simp) ?_
      simp only [Effect.goto_work, Multiset.mem_coe, List.mem_map]
      rintro after ⟨msg, -, rfl⟩
      rfl
    · exact hinv.setProxy hproxy (by simp) (by simp)
  case flushLog i conn msg =>
    obtain ⟨proxy, -, hexec⟩ := Option.bind_eq_some_iff.mp hexec
    obtain ⟨⟨ok, next⟩, happend, rfl⟩ := Option.map_eq_some_iff.mp hexec
    obtain ⟨hproxies, hgrows, -⟩ := SenderState.appendData_holds happend
    cases ok <;> exact hinv.grown hgrows hproxies (by simp [SenderSection.logged])
  case flushTrack i conn msg =>
    obtain ⟨proxy, -, rfl⟩ := Option.map_eq_some_iff.mp hexec
    exact hinv.same rfl rfl (by simp [SenderSection.logged])
  case resendCollect node conn =>
    obtain rfl := Option.some.inj hexec
    exact hinv.each _ fun _ => rfl
  all_goals
    repeat' split at hexec
    all_goals cases hexec
    all_goals exact hinv.same rfl rfl (by simp [SenderSection.logged])

theorem linkDead (hinv : BufferInv s (sec ::ₘ others))
    (hexec : s.linkDead sec = some effect) :
    BufferInv effect.shared (effect.work + others) := by
  cases sec <;> simp only [SenderState.linkDead, reduceCtorEq] at hexec
  case notifyDead conn =>
    obtain ⟨link, -, rfl⟩ := Option.map_eq_some_iff.mp hexec
    split <;> exact hinv.same rfl rfl (by simp [SenderSection.logged])
  case linkProxies node haveAddr =>
    obtain rfl := Option.some.inj hexec
    refine hinv.same rfl rfl ?_
    simp only [Effect.goto_work, Multiset.mem_coe, List.mem_append,
      List.mem_map, List.mem_singleton]
    rintro after (⟨i, -, rfl⟩ | rfl) <;> rfl
  case dropConnection i =>
    obtain ⟨proxy, hproxy, rfl⟩ := Option.map_eq_some_iff.mp hexec
    exact hinv.setProxy hproxy (fun _ hmsg => Or.inl hmsg) (by simp)
  case linkRecover node haveAddr =>
    repeat' split at hexec
    all_goals cases hexec
    all_goals refine hinv.same rfl rfl ?_
    all_goals simp [SenderSection.logged, Effect.work, Effect.done]
  all_goals
    obtain rfl := Option.some.inj hexec
    exact hinv.same rfl rfl (by simp [SenderSection.logged])

theorem recover (hinv : BufferInv s (sec ::ₘ others))
    (hexec : s.recover sec choice = some effect) :
    BufferInv effect.shared (effect.work + others) := by
  cases sec <;> simp only [SenderState.recover, reduceCtorEq] at hexec
  case recoverSleep node =>
    cases choice <;> simp only [reduceCtorEq] at hexec
    split at hexec <;> cases hexec <;>
      exact hinv.same rfl rfl (by simp [SenderSection.logged])
  all_goals
    repeat' split at hexec
    all_goals cases hexec
    all_goals exact hinv.same rfl rfl (by simp [SenderSection.logged])

theorem ackTimeout (hinv : BufferInv s (sec ::ₘ others))
    (hexec : s.ackTimeout sec choice = some effect) :
    BufferInv effect.shared (effect.work + others) := by
  cases sec <;> simp only [SenderState.ackTimeout, reduceCtorEq] at hexec
  case timeoutCollect =>
    cases choice <;> simp only [reduceCtorEq] at hexec
    obtain rfl := Option.some.inj hexec
    exact hinv.each _ fun _ => rfl
  case noteAckLog msgId =>
    obtain ⟨⟨ok, next⟩, happend, rfl⟩ := Option.map_eq_some_iff.mp hexec
    obtain ⟨hlog, hproxies⟩ := SenderState.appendAck_log happend
    cases ok <;> exact hinv.same hlog hproxies (by simp [SenderSection.logged])
  all_goals
    repeat' split at hexec
    all_goals cases hexec
    all_goals exact hinv.same rfl rfl (by simp [SenderSection.logged])

/-- The step lemma for the buffers. -/
theorem exec (hinv : BufferInv s (sec ::ₘ others))
    (hexec : s.exec sec choice = some effect) :
    BufferInv effect.shared (effect.work + others) := by
  unfold SenderState.exec at hexec
  split at hexec
  all_goals first
    | exact hinv.deliver hexec
    | exact hinv.connect hexec
    | exact hinv.linkDead hexec
    | exact hinv.recover hexec
    | exact hinv.ackTimeout hexec

end Functions

end BufferInv

/-- In every reachable state the buffered messages are in the log. -/
theorem buffersLogged_run (log : Option RemoteLog) (file : List UInt8)
    (word : List (Move SenderSection SenderChoice))
    {last : Config SenderState SenderSection}
    (hrun : (senderProgram.machine (.init log file)).run word = some last) :
    BuffersLogged last.shared := by
  have hinv : BufferInv last.shared last.pending := by
    have hinit : BufferInv (.init log file) 0 := by
      constructor
      · intro proxy hproxy
        cases hproxy
      · simp
    refine senderProgram.invariant_of_run hinit ?_ ?_ word hrun
    · intro s pending sec hinv hentry
      refine ⟨hinv.buffers, ?_⟩
      intro after hafter msg hmsg
      rcases Multiset.mem_cons.mp hafter with rfl | hold
      · have hnone : after.logged = none := by
          cases after <;> first | rfl | cases hentry
        rw [hnone] at hmsg
        cases hmsg
      · exact hinv.sections after hold msg hmsg
    · intro s others sec choice effect hinv heffect
      exact hinv.exec heffect
  exact hinv.buffers

section Sections

variable (init : SenderState) {s next : SenderState} {i : Nat} {proxy : Proxy}
  {msg : BufferedMessage} {ok : Bool}

/-- One section of a thread that runs alone. -/
theorem runFrom_alone {sec : SenderSection} {choice : SenderChoice}
    {rest : List SenderSection}
    (hexec : s.exec sec choice = some (.goto next rest))
    (word : List (Move SenderSection SenderChoice)) :
    (senderProgram.machine init).runFrom ⟨s, [[sec]]⟩ (.run 0 choice :: word) =
      (senderProgram.machine init).runFrom ⟨next, [rest]⟩ word := by
  simp [Machine.runFrom, Program.machine, Program.stepConfig, senderProgram,
    hexec, Effect.goto]

theorem offer_sections (hproxy : s.proxies[i]? = some proxy)
    (hoffer : s.offer i proxy msg false = (ok, next)) :
    ∃ word, (senderProgram.machine init).runFrom ⟨s, [[.deliverProxy i msg]]⟩
      word = some ⟨next, [[]]⟩ := by
  have hdone : ∀ state, (Effect.done state : Effect SenderState
      SenderSection) = .goto state [] := fun _ => rfl
  cases hconn : proxy.conn.filter s.validLink with
  | none =>
      have hexec : s.exec (.deliverProxy i msg) .go =
          some (.goto next []) := by
        simp only [SenderState.offer, hconn] at hoffer
        simp only [SenderState.exec, SenderState.deliver, hproxy,
          Option.map_some, hconn]
        split at hoffer <;> simp_all
      exact ⟨[.run 0 .go], runFrom_alone init hexec []⟩
  | some conn =>
      have hvalid : s.validLink conn = true :=
        (Option.filter_eq_some_iff.mp hconn).2
      simp only [SenderState.offer, hconn] at hoffer
      cases hpool : proxy.hasPool with
      | false =>
          have hexec : s.exec (.deliverProxy i msg) .go =
              some (.goto next []) := by
            simp only [SenderState.exec, SenderState.deliver, hproxy,
              Option.map_some, hconn]
            simp_all
          exact ⟨[.run 0 .go], runFrom_alone init hexec []⟩
      | true =>
          have hexec : s.exec (.deliverProxy i msg) .go = some (.goto s
              [.deliverPost conn msg.msgId (proxy.packRouted msg)]) := by
            simp only [SenderState.exec, SenderState.deliver, hproxy,
              Option.map_some, hconn, hpool, if_true]
          have hpost : s.exec (.deliverPost conn msg.msgId
              (proxy.packRouted msg)) .go = some (.goto next []) := by
            simp_all [SenderState.exec, SenderState.deliver]
          refine ⟨[.run 0 .go, .run 0 .go], ?_⟩
          rw [runFrom_alone init hexec]
          exact runFrom_alone init hpost []

/-- Without other threads the sections of `try_deliver` do what the call
does. -/
theorem tryDeliver_sections {io : IoScript}
    (hproxy : s.proxies[i]? = some proxy)
    (htry : s.tryDeliver i proxy msg ⟨io, false⟩ = some (ok, next)) :
    ∃ word, (senderProgram.machine init).runFrom ⟨s, [[.tryDeliver i msg]]⟩
      word = some ⟨next, [[]]⟩ := by
  rw [SenderState.tryDeliver] at htry
  split at htry
  · rename_i hdata
    obtain rfl := (Prod.mk.inj (Option.some.inj htry)).2
    have hexec : s.exec (.tryDeliver i msg) .go = some (.goto s []) := by
      simp only [SenderState.exec, SenderState.deliver, if_pos hdata]
      rfl
    exact ⟨[.run 0 .go], runFrom_alone init hexec []⟩
  · rename_i hdata
    obtain ⟨⟨logged, middle⟩, happend, htry⟩ := Option.map_eq_some_iff.mp htry
    have hproxies := (SenderState.appendData_holds happend).1
    have hexec : s.exec (.tryDeliver i msg) .go =
        some (.goto s [.deliverLog i msg]) := by
      simp only [SenderState.exec, SenderState.deliver, if_neg hdata]
    have hlog : s.exec (.deliverLog i msg) (.wrote io) = some
        (if logged then .goto middle [.deliverTrack i msg]
        else .done middle) := by
      simp only [SenderState.exec, SenderState.deliver, hproxy,
        Option.bind_some, happend, Option.map_some]
    cases logged with
    | false =>
        obtain rfl := (Prod.mk.inj htry).2
        refine ⟨[.run 0 .go, .run 0 (.wrote io)], ?_⟩
        rw [runFrom_alone init hexec]
        exact runFrom_alone init hlog []
    | true =>
        have hnext : (middle.track proxy.node msg.msgId
            (proxy.packRouted msg)).proxies[i]? = some proxy := by
          rw [SenderState.track, hproxies, hproxy]
        have htrack : middle.exec (.deliverTrack i msg) .go = some (.goto
            (middle.track proxy.node msg.msgId (proxy.packRouted msg))
            [.deliverProxy i msg]) := by
          simp only [SenderState.exec, SenderState.deliver, hproxies, hproxy,
            Option.map_some]
        obtain ⟨word, hword⟩ := offer_sections init hnext htry
        refine ⟨.run 0 .go :: .run 0 (.wrote io) :: .run 0 .go :: word, ?_⟩
        rw [runFrom_alone init hexec, runFrom_alone init hlog,
          runFrom_alone init htrack, hword]

end Sections

theorem noEffect_self {s : SenderState} {frame : List UInt8} (i : Nat)
    (hlogged : BuffersLogged s) (hfree : Unrecorded s frame) :
    NoEffect s s i frame :=
  ⟨fun _ => rfl, rfl, rfl, rfl, rfl, hfree.neverSent hlogged⟩

/-- Rejected attempts had no effect exactly when the log refused all of them
without a trace and nothing held the message before. -/
theorem attempts_noEffect_iff {s next : SenderState}
    (hlogged : BuffersLogged s) {i : Nat} {proxy : Proxy}
    {msg : BufferedMessage} (hdata : msg.data ≠ [])
    (answers : List SendAnswer)
    (hfalse : SenderState.attempts i proxy msg s answers =
      some (false, next)) :
    NoEffect s next i (proxy.packRouted msg) ↔
      (∀ answer ∈ answers, Refuses s msg.msgId answer) ∧
        Unrecorded s (proxy.packRouted msg) := by
  constructor
  · intro heffect
    rcases SenderState.attempts_false hdata answers hfalse with
      hrefuses | hlonger | ⟨item, hitem, hframe⟩
    · have hself : SenderState.attempts i proxy msg s answers =
          some (false, s) :=
        SenderState.attempts_refused hdata answers hrefuses
      rw [hfalse, Option.some.injEq, Prod.mk.injEq] at hself
      obtain ⟨-, rfl⟩ := hself
      exact ⟨hrefuses, (neverSent_iff hlogged _).mp heffect.never⟩
    · rw [heffect.file] at hlonger
      exact absurd hlonger (Nat.lt_irrefl _)
    · exact absurd hframe (heffect.never.unacked hitem)
  · rintro ⟨hrefuses, hfree⟩
    rw [SenderState.attempts_refused hdata answers hrefuses,
      Option.some.injEq, Prod.mk.injEq] at hfalse
    obtain ⟨-, rfl⟩ := hfalse
    exact noEffect_self i hlogged hfree

/-- A send without data returns before anything else. -/
theorem empty_noEffect_iff {s next : SenderState} (hlogged : BuffersLogged s)
    (i : Nat) (frame : List UInt8)
    (hfalse : some (false, s) = some (false, next)) :
    NoEffect s next i frame ↔ Unrecorded s frame := by
  obtain rfl := (Prod.mk.inj (Option.some.inj hfalse)).2
  constructor
  · intro heffect
    exact (neverSent_iff hlogged frame).mp heffect.never
  · intro hfree
    exact noEffect_self i hlogged hfree

/-- A rejected `try_deliver` or `remote_accept` had no effect exactly if
nothing held the message before, and it had no data or every attempt was
refused by the log without a trace. -/
theorem rejected_send_iff (s : SenderState) (hlogged : BuffersLogged s)
    (i : Nat) (proxy : Proxy) (msg : BufferedMessage) (next : SenderState) :
    (∀ answer, s.tryDeliver i proxy msg answer = some (false, next) →
      (NoEffect s next i (proxy.packRouted msg) ↔
        (msg.data = [] ∨ Refuses s msg.msgId answer) ∧
          Unrecorded s (proxy.packRouted msg))) ∧
      ∀ waitForRoom first more,
        s.remoteAccept i proxy msg waitForRoom first more =
            some (false, next) →
          (NoEffect s next i (proxy.packRouted msg) ↔
            (msg.data = [] ∨
              ∀ answer ∈ first :: (if waitForRoom then more else []),
                Refuses s msg.msgId answer) ∧
              Unrecorded s (proxy.packRouted msg)) := by
  by_cases hdata : msg.data = []
  · constructor
    · intro answer hfalse
      rw [SenderState.tryDeliver, if_pos hdata] at hfalse
      simpa [hdata] using empty_noEffect_iff hlogged i _ hfalse
    · intro waitForRoom first more hfalse
      rw [SenderState.remoteAccept, if_pos hdata] at hfalse
      simpa [hdata] using empty_noEffect_iff hlogged i _ hfalse
  · constructor
    · intro answer hfalse
      -- A single attempt is `try_deliver` itself.
      have hone : SenderState.attempts i proxy msg s [answer] =
          some (false, next) := by
        simp [SenderState.attempts, hfalse]
      simpa [hdata] using attempts_noEffect_iff hlogged hdata [answer] hone
    · intro waitForRoom first more hfalse
      rw [SenderState.remoteAccept, if_neg hdata] at hfalse
      have hiff := attempts_noEffect_iff hlogged hdata _ hfalse
      cases waitForRoom <;> simpa [hdata] using hiff

/-- A proxy without a connection whose buffer is full. -/
def fullProxy : Proxy :=
  ⟨⟨[0x2A], [0x42], [0x62]⟩, 2, 1, true, none,
    (List.range 1024).map fun n => ⟨1, UInt64.ofNat (n + 1), 0, [7]⟩⟩

def fullSender : SenderState :=
  { SenderState.init none [] with proxies := [fullProxy] }

theorem buffersLogged_fullSender : BuffersLogged fullSender := by
  intro proxy _ msg _ log hlog
  cases hlog

theorem tryDeliver_fullSender :
    fullSender.tryDeliver 0 fullProxy ⟨1, 1025, 0, [7]⟩ ⟨⟨[], .ok⟩, false⟩ =
      some (false, fullSender.track fullProxy.node 1025
        (fullProxy.packRouted ⟨1, 1025, 0, [7]⟩)) := by
  have hfull : fullProxy.buffered.length ≥ Proxy.maxBuffered := by
    simp [fullProxy, Proxy.maxBuffered]
  have hlog : fullSender.log = none := rfl
  have hconn : fullProxy.conn = none := rfl
  rw [SenderState.tryDeliver, if_neg (by simp)]
  simp only [SenderState.appendData, hlog, Option.map_some, if_true,
    SenderState.offer, hconn, Option.filter_none, if_pos hfull]

/-- The buffer is full, the call returns false, and the message is in
`m_unacked`, from where the ack timeout transmits it. -/
theorem fullSender_rejects_uncleanly :
    fullSender.proxies[0]? = some fullProxy ∧
      ∃ next, fullSender.tryDeliver 0 fullProxy ⟨1, 1025, 0, [7]⟩
          ⟨⟨[], .ok⟩, false⟩ = some (false, next) ∧
        ¬ NoEffect fullSender next 0
          (fullProxy.packRouted ⟨1, 1025, 0, [7]⟩) := by
  refine ⟨rfl, _, tryDeliver_fullSender, fun heffect => ?_⟩
  have hsame := heffect.unacked 1025
  have hnone : fullSender.unacked.lookup 1025 = none := rfl
  rw [hnone] at hsame
  simp only [SenderState.track, Unacked.trackUnacked, Table.lookup_insert,
    if_true, reduceCtorEq] at hsame

theorem rejected_send_iff_fullSender :
    BuffersLogged fullSender ∧
      (NoEffect fullSender (fullSender.track fullProxy.node 1025
          (fullProxy.packRouted ⟨1, 1025, 0, [7]⟩)) 0
            (fullProxy.packRouted ⟨1, 1025, 0, [7]⟩) ↔
        ((BufferedMessage.mk 1 1025 0 [7]).data = [] ∨
            Refuses fullSender 1025 ⟨⟨[], .ok⟩, false⟩) ∧
          Unrecorded fullSender (fullProxy.packRouted ⟨1, 1025, 0, [7]⟩)) :=
  ⟨buffersLogged_fullSender, (rejected_send_iff fullSender
    buffersLogged_fullSender 0 fullProxy ⟨1, 1025, 0, [7]⟩ _).1
      ⟨⟨[], .ok⟩, false⟩ tryDeliver_fullSender⟩

end UltraNet
