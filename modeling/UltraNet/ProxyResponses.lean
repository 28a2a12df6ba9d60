/-
The answers that the clients of the HTTP proxy get.  Where the bytes of a
response are, from the backend to the client, is an invariant over the sessions,
their buffers, the connections and the pool.
-/
import UltraNet.HttpHeads
import UltraNet.HttpProxy

namespace UltraNet

namespace HttpProxy

/-- The buffer is held to `max_buf` by every read but the one that is linked to the
request. -/
def fits (maxBuf : Nat) (forward : Forwarding) (size : Nat) : Bool :=
  match forward.phase with
  | .linked => true
  | _ => forward.backendBuf.data.length + size ≤ maxBuf

/-- A read from the backend stays within the buffer; and a header block that is cut
right behind a line has already announced a body. -/
def wellCut (maxBuf : Nat) (p : HttpProxy) (session size : Nat) : Bool :=
  match (p.sessions session).phase with
  | .forwarding conn forward _ =>
      let data := forward.backendBuf.head ++ (p.conns conn).unread.take size
      fits maxBuf forward size &&
        (!crlf.isSuffixOf data || decide (blankLine <:+: data) ||
          HttpResponse.announcesBody data)
  | _ => true

/-- A response is framed by a content length that can be read, and the reads are
well cut. -/
def framedByLength (maxBuf : Nat) (p : HttpProxy) : ProxyEvent → Prop
  | .respond _ response => FramesBody response.fields response.payload.length ∧
      ReadableLength response.fields
  | .read session size => p.wellCut maxBuf session size = true
  | _ => True

instance (maxBuf : Nat) (p : HttpProxy) :
    (event : ProxyEvent) → Decidable (p.framedByLength maxBuf event)
  | .respond .. => inferInstanceAs (Decidable (_ ∧ _))
  | .read .. => inferInstanceAs (Decidable (_ = true))
  | .request .. | .acquire .. | .wrote .. => isTrue trivial

/-- The backend owes the answer to a request, or has given it and part of it is
still unread. -/
def Awaits (tag : Nat × Nat) (conn : BackendConn) (answer : Option (List UInt8))
    (buffered : List UInt8) : Prop :=
  (conn = ⟨[], some tag⟩ ∧ answer = none ∧ buffered = []) ∨
    ∃ response : ResponseText, response.Framed ∧ ReadableLength response.fields ∧
      conn.owes = none ∧ answer = some response.wire ∧
      buffered ++ conn.unread = response.wire ∧ conn.unread ≠ []

/-- Where the bytes of a response are, in each phase of `forward_one`. -/
def Forwards (maxBuf : Nat) (tag : Nat × Nat) (conn : BackendConn)
    (answer : Option (List UInt8)) (forward : Forwarding) : Prop :=
  forward.maxBuf = maxBuf ∧
  forward.backendBuf.offset ≤ forward.backendBuf.data.length ∧
  match forward.phase with
  | .linked => forward.sent = [] ∧ forward.backendBuf.head = [] ∧
      Awaits tag conn answer []
  | .writing _ => forward.sent = [] ∧ forward.backendBuf.head = [] ∧
      conn = .clear ∧ answer = none
  | .reading => forward.sent = [] ∧
      Awaits tag conn answer forward.backendBuf.head
  | .relaying _ bytes fwd => forward.sent = bytes.take fwd ∧
      forward.backendBuf.head = bytes ∧ conn = .clear ∧ answer = some bytes
  | _ => False

def holding (session : ProxySession) : Option Nat :=
  match session.phase with
  | .forwarding conn _ _ => some conn
  | _ => none

/-- A session has written the answers to its requests so far, and nothing of
another one is buffered. -/
def SessionSound (maxBuf : Nat) (conns : Nat → BackendConn)
    (answers : Nat → Option (List UInt8)) (id : Nat) (session : ProxySession) :
    Prop :=
  (∀ number bytes, session.log[number]? = some bytes →
    answers number = some bytes) ∧
  (∀ number, session.log.length < number → answers number = none) ∧
  match session.phase with
  | .waiting => session.backendBuf.head = [] ∧
      session.backendBuf.offset ≤ session.backendBuf.data.length ∧
      answers session.log.length = none
  | .acquiring totalReq _ => 0 < totalReq ∧ session.backendBuf.head = [] ∧
      session.backendBuf.offset ≤ session.backendBuf.data.length ∧
      answers session.log.length = none
  | .forwarding conn forward _ =>
      Forwards maxBuf (id, session.log.length) (conns conn)
        (answers session.log.length) forward
  | .closed => True

structure Sound (maxBuf : Nat) (p : HttpProxy) : Prop where
  held : ∀ i conn, holding (p.sessions i) = some conn →
    conn < p.made ∧ conn ∉ p.idle
  apart : ∀ i j conn, holding (p.sessions i) = some conn →
    holding (p.sessions j) = some conn → i = j
  nodup : p.idle.Nodup
  idle : ∀ conn ∈ p.idle, conn < p.made ∧ p.conns conn = .clear
  owed : ∀ conn i number, (p.conns conn).owes = some (i, number) →
    holding (p.sessions i) = some conn
  session : ∀ i, SessionSound maxBuf p.conns (p.answers i) i (p.sessions i)

variable {maxBuf : Nat} {p p' : HttpProxy}

attribute [local simp] Forwarding.step holding step

theorem SessionSound.congr {conns conns' : Nat → BackendConn}
    {answers : Nat → Option (List UInt8)} {id : Nat} {session : ProxySession}
    (hsound : SessionSound maxBuf conns answers id session)
    (hsame : ∀ conn, holding session = some conn → conns' conn = conns conn) :
    SessionSound maxBuf conns' answers id session := by
  refine ⟨hsound.1, hsound.2.1, ?_⟩
  have hphase := hsound.2.2
  split
  all_goals rename_i heq
  all_goals simp only [heq] at hphase
  · exact hphase
  · exact hphase
  · rw [hsame _ (by simp only [holding, heq])]
    exact hphase
  · trivial

/-- A step of one session: it changes its own state, one connection that no
other session holds, and the place of that connection in the pool. -/
theorem Sound.replace (hsound : p.Sound maxBuf) {i : Nat}
    {session : ProxySession} (conn : Nat) (state : BackendConn)
    (hsessions : p'.sessions = Function.update p.sessions i session)
    (hconns : p'.conns = Function.update p.conns conn state)
    (hanswers : ∀ j, j ≠ i → p'.answers j = p.answers j)
    (hmade : p.made ≤ p'.made)
    (hown : ∀ j, holding (p.sessions j) = some conn → j = i)
    (hbefore : ∀ other, holding (p.sessions i) = some other → other = conn)
    (hafter : ∀ other, holding session = some other →
      other = conn ∧ conn < p'.made ∧ conn ∉ p'.idle)
    (hnodup : p'.idle.Nodup)
    (hidle : ∀ other ∈ p'.idle, other = conn ∧ conn < p'.made ∧ state = .clear ∨
      other ≠ conn ∧ other ∈ p.idle)
    (howed : ∀ j number, state.owes = some (j, number) →
      j = i ∧ holding session = some conn)
    (hsession : SessionSound maxBuf p'.conns (p'.answers i) i session) :
    p'.Sound maxBuf := by
  have hself : p'.sessions i = session := by rw [hsessions, Function.update_self]
  have hother : ∀ j, j ≠ i → p'.sessions j = p.sessions j := fun j hj => by
    rw [hsessions, Function.update_of_ne hj]
  have hkept : ∀ other, other ≠ conn → p'.conns other = p.conns other :=
    fun other hne => by rw [hconns, Function.update_of_ne hne]
  have hstate : p'.conns conn = state := by rw [hconns, Function.update_self]
  refine ⟨?_, ?_, hnodup, ?_, ?_, ?_⟩
  · intro j other hheld
    by_cases hj : j = i
    · subst hj
      rw [hself] at hheld
      obtain ⟨rfl, hafter⟩ := hafter other hheld
      exact hafter
    · rw [hother j hj] at hheld
      obtain ⟨hlt, hnot⟩ := hsound.held j other hheld
      refine ⟨by omega, fun hmem => ?_⟩
      rcases hidle other hmem with ⟨rfl, -⟩ | ⟨-, hold⟩
      · exact hj (hown j hheld)
      · exact hnot hold
  · intro j k other hj hk
    by_cases hji : j = i
    · by_cases hki : k = i
      · rw [hji, hki]
      · subst hji
        rw [hself] at hj
        rw [hother k hki] at hk
        obtain ⟨rfl, -⟩ := hafter other hj
        exact (hown k hk).symm
    · by_cases hki : k = i
      · subst hki
        rw [hself] at hk
        rw [hother j hji] at hj
        obtain ⟨rfl, -⟩ := hafter other hk
        exact hown j hj
      · rw [hother j hji] at hj
        rw [hother k hki] at hk
        exact hsound.apart j k other hj hk
  · intro other hmem
    rcases hidle other hmem with ⟨rfl, hlt, hclear⟩ | ⟨hne, hold⟩
    · exact ⟨hlt, by rw [hstate, hclear]⟩
    · obtain ⟨hlt, hclear⟩ := hsound.idle other hold
      exact ⟨by omega, by rw [hkept other hne, hclear]⟩
  · intro other j number howes
    by_cases hne : other = conn
    · subst hne
      rw [hstate] at howes
      obtain ⟨rfl, hheld⟩ := howed j number howes
      rw [hself, hheld]
    · rw [hkept other hne] at howes
      have hheld := hsound.owed other j number howes
      by_cases hj : j = i
      · subst hj
        exact absurd (hbefore other hheld) hne
      · rw [hother j hj, hheld]
  · intro j
    by_cases hj : j = i
    · subst hj
      rw [hself]
      exact hsession
    · rw [hother j hj, hanswers j hj]
      refine (hsound.session j).congr fun other hheld => hkept other ?_
      rintro rfl
      exact hj (hown j hheld)

section Forward

variable {tag : Nat × Nat} {conn : BackendConn} {answer : Option (List UInt8)}
  {forward next : Forwarding}

theorem Awaits.owes {buffered : List UInt8} {other : Nat × Nat}
    (hawaits : Awaits tag conn answer buffered) (howes : conn.owes = some other) :
    conn = ⟨[], some tag⟩ ∧ answer = none ∧ buffered = [] ∧ other = tag := by
  rcases hawaits with ⟨rfl, hanswer, hbuffered⟩ | ⟨response, -, -, hnone, -⟩
  · exact ⟨rfl, hanswer, hbuffered, (Option.some.inj howes).symm⟩
  · rw [hnone] at howes
    cases howes

theorem Forwards.owes {other : Nat × Nat}
    (hforwards : Forwards maxBuf tag conn answer forward)
    (howes : conn.owes = some other) :
    other = tag ∧ conn.unread = [] ∧ answer = none ∧
      forward.backendBuf.head = [] ∧ forward.sent = [] ∧
      (forward.phase = .linked ∨ forward.phase = .reading) := by
  obtain ⟨-, -, hphase⟩ := hforwards
  split at hphase
  · rename_i heq
    obtain ⟨hsent, hhead, hawaits⟩ := hphase
    obtain ⟨rfl, hanswer, -, rfl⟩ := hawaits.owes howes
    exact ⟨rfl, rfl, hanswer, hhead, hsent, .inl heq⟩
  · rw [hphase.2.2.1] at howes
    cases howes
  · rename_i heq
    obtain ⟨hsent, hawaits⟩ := hphase
    obtain ⟨rfl, hanswer, hhead, rfl⟩ := hawaits.owes howes
    exact ⟨rfl, rfl, hanswer, hhead, hsent, .inr heq⟩
  · rw [hphase.2.2.1] at howes
    cases howes
  · exact absurd hphase id

theorem Forwards.phase (hforwards : Forwards maxBuf tag conn answer forward) :
    (forward.phase = .linked ∨ forward.phase = .reading) ∨
      (∃ total, forward.phase = .writing total) ∨
      ∃ response bytes fwd, forward.phase = .relaying response bytes fwd := by
  obtain ⟨-, -, hphase⟩ := hforwards
  split at hphase
  · exact .inl (.inl ‹_›)
  · exact .inr (.inl ⟨_, ‹_›⟩)
  · exact .inl (.inr ‹_›)
  · exact .inr (.inr ⟨_, _, _, ‹_›⟩)
  · exact absurd hphase id

/-- The connection after a step of `forward_one`. -/
def owing (tag : Nat × Nat) (conn : BackendConn) (sent : Bool) : BackendConn :=
  if sent then { conn with owes := some tag } else conn

theorem forwards_init {totalReq : Nat} {buf : SlidingBuffer}
    (hpositive : 0 < totalReq) (hhead : buf.head = [])
    (hoffset : buf.offset ≤ buf.data.length) :
    Forwards maxBuf tag
      (owing tag .clear
        (requestSent .reacquire (Forwarding.init totalReq maxBuf buf).phase))
      none (Forwarding.init totalReq maxBuf buf) := by
  unfold Forwarding.init Forwarding.start
  split
  · exact ⟨rfl, hoffset, rfl, hhead, .inl ⟨rfl, rfl, rfl⟩⟩
  · unfold Forwarding.written
    rw [if_pos hpositive]
    exact ⟨rfl, hoffset, rfl, hhead, rfl, rfl⟩

/-- Bytes of the response have come. -/
theorem forwards_tryParse {response : ResponseText} (hframed : response.Framed)
    (hreadable : ReadableLength response.fields) (hmax : forward.maxBuf = maxBuf)
    (hoffset : forward.backendBuf.offset ≤ forward.backendBuf.data.length)
    (hsent : forward.sent = []) (hnone : conn.owes = none)
    (hanswer : answer = some response.wire)
    (hsplit : forward.backendBuf.head ++ conn.unread = response.wire)
    (hcut : crlf <:+ forward.backendBuf.head →
      blankLine <:+: forward.backendBuf.head ∨
        HttpResponse.announcesBody forward.backendBuf.head = true) :
    Forwards maxBuf tag conn answer forward.tryParse := by
  by_cases hrest : conn.unread = []
  · rw [hrest, List.append_nil] at hsplit
    have hparse := ResponseText.parse_wire hframed hreadable
    rw [← hsplit] at hparse
    rw [Forwarding.tryParse, hparse]
    refine ⟨hmax, hoffset, ?_, ?_, ?_, ?_⟩
    · rw [hsent, List.take_zero]
    · rw [List.take_length]
    · rw [BackendConn.clear, ← hrest, ← hnone]
    · rw [hanswer, List.take_length, hsplit]
  · have hparse : HttpResponse.parse forward.backendBuf.head = none := by
      by_cases hblank : blankLine <:+: forward.backendBuf.head
      · exact ResponseText.parse_part hframed hreadable hsplit hrest fun _ => hblank
      · by_cases hend : crlf <:+ forward.backendBuf.head
        · exact HttpResponse.parse_announcesBody ((hcut hend).resolve_left hblank) hblank
        · exact ResponseText.parse_part hframed hreadable hsplit hrest fun h => absurd h hend
    rw [Forwarding.tryParse, hparse]
    exact ⟨hmax, hoffset, hsent,
      .inr ⟨response, hframed, hreadable, hnone, hanswer, hsplit, hrest⟩⟩

theorem requestSent_tryParse (before : ForwardPhase)
    (hbefore : before = .linked ∨ before = .reading) (forward : Forwarding) :
    requestSent before forward.tryParse.phase = false := by
  unfold Forwarding.tryParse
  split
  all_goals
    rcases hbefore with rfl | rfl
    all_goals rfl

theorem forwards_read {size : Nat}
    (hforwards : Forwards maxBuf tag conn answer forward)
    (hsize : 0 < size ∧ size ≤ conn.unread.length)
    (hfits : fits maxBuf forward size = true)
    (hcut : crlf <:+ forward.backendBuf.head ++ conn.unread.take size →
      blankLine <:+: forward.backendBuf.head ++ conn.unread.take size ∨
        HttpResponse.announcesBody (forward.backendBuf.head ++ conn.unread.take size) = true)
    (hstep : forward.step (.data (conn.unread.take size)) = some next) :
    Forwards maxBuf tag { conn with unread := conn.unread.drop size } answer next ∧
      requestSent forward.phase next.phase = false := by
  have ⟨hmax, hoffset, hphase⟩ := hforwards
  have hnonempty : conn.unread.take size ≠ [] := by
    have hlength : (conn.unread.take size).length = size := by
      rw [List.length_take]
      omega
    rw [← List.length_pos_iff, hlength]
    exact hsize.1
  -- the backend has answered, and the bytes are the next ones of its answer
  have hawaits : (forward.phase = .linked ∨ forward.phase = .reading) ∧
      forward.sent = [] ∧ Awaits tag conn answer forward.backendBuf.head := by
    obtain hwaits | ⟨total, heq⟩ | ⟨response, bytes, fwd, heq⟩ := hforwards.phase
    · rcases hwaits with heq | heq
      · simp only [heq] at hphase
        exact ⟨.inl heq, hphase.1, by rw [hphase.2.1]; exact hphase.2.2⟩
      · simp only [heq] at hphase
        exact ⟨.inr heq, hphase⟩
    · simp [Forwarding.step, heq] at hstep
    · simp [Forwarding.step, heq] at hstep
  obtain ⟨hwaits, hsent, ⟨rfl, -⟩ | ⟨response, hframed, hreadable, hnone, hanswer,
    hsplit, -⟩⟩ := hawaits
  · exact absurd hsize.2 (by simp; omega)
  set appended : Forwarding := { forward with
    backendBuf := forward.backendBuf.append (conn.unread.take size) } with hdef
  have hhead : appended.backendBuf.head =
      forward.backendBuf.head ++ conn.unread.take size :=
    SlidingBuffer.head_append hoffset _
  have hnext : next = appended.tryParse := by
    rcases hwaits with hlinked | hreading
    · simp only [Forwarding.step, hlinked, if_neg hnonempty] at hstep
      exact (Option.some.inj hstep).symm
    · simp only [fits, hreading, decide_eq_true_eq] at hfits
      have hshort : ¬ (forward.backendBuf.append
          (conn.unread.take size)).data.length > forward.maxBuf := by
        simp only [SlidingBuffer.append, List.length_append, List.length_take]
        omega
      simp only [Forwarding.step, hreading, Forwarding.received, if_neg hnonempty,
        if_neg hshort] at hstep
      exact (Option.some.inj hstep).symm
  subst hnext
  refine ⟨?_, requestSent_tryParse _ hwaits _⟩
  refine forwards_tryParse hframed hreadable hmax ?_ hsent hnone hanswer ?_ ?_
  · simp only [hdef, SlidingBuffer.append, List.length_append]
    omega
  · rw [hhead, List.append_assoc, List.take_append_drop, hsplit]
  · rw [hhead]
    exact hcut

/-- Part of the request has been sent. -/
theorem forwards_wrote_request {size total : Nat}
    (hforwards : Forwards maxBuf tag conn answer forward)
    (hphase : forward.phase = .writing total)
    (hstep : forward.step (.wrote size) = some next) :
    Forwards maxBuf tag (owing tag conn (requestSent forward.phase next.phase))
      answer next := by
  obtain ⟨hmax, hoffset, hhold⟩ := hforwards
  simp only [hphase] at hhold
  obtain ⟨hsent, hhead, rfl, rfl⟩ := hhold
  simp only [Forwarding.step, hphase] at hstep
  split at hstep
  · obtain rfl := Option.some.inj hstep
    rw [hphase]
    unfold Forwarding.written
    split
    · exact ⟨hmax, hoffset, hsent, hhead, rfl, rfl⟩
    · have hparse : HttpResponse.parse [] = none := by decide
      rw [Forwarding.tryParse, hhead, hparse]
      exact ⟨hmax, hoffset, hsent, .inl ⟨rfl, rfl, hhead⟩⟩
  · cases hstep

/-- Part of the response has been relayed. -/
theorem forwards_wrote_response {size fwd : Nat} {response : HttpResponse}
    {bytes : List UInt8} (hforwards : Forwards maxBuf tag conn answer forward)
    (hphase : forward.phase = .relaying response bytes fwd)
    (hstep : forward.step (.wrote size) = some next) :
    (Forwards maxBuf tag conn answer next ∧
        requestSent forward.phase next.phase = false) ∨
      (next.phase = .done ∧ answer = some next.sent ∧ conn = .clear ∧
        next.backendBuf.head = [] ∧
        next.backendBuf.offset ≤ next.backendBuf.data.length) := by
  obtain ⟨hmax, hoffset, hhold⟩ := hforwards
  simp only [hphase] at hhold
  obtain ⟨hsent, hhead, hclear, hanswer⟩ := hhold
  have hsends : (forward.sends bytes fwd size).sent = bytes.take (fwd + size) := by
    simp only [Forwarding.sends, hsent]
    rw [← List.take_add]
  simp only [Forwarding.step, hphase] at hstep
  split at hstep
  · obtain rfl := Option.some.inj hstep
    exact .inl ⟨⟨hmax, hoffset, hsends, hhead, hclear, hanswer⟩, by rw [hphase]; rfl⟩
  · split at hstep
    · rename_i hall
      obtain rfl := Option.some.inj hstep
      refine .inr ⟨rfl, ?_, hclear, ?_, ?_⟩
      · change answer = some (forward.sends bytes fwd size).sent
        rw [hsends, hall, List.take_length, hanswer]
      · refine (SlidingBuffer.head_reset _).trans ?_
        rw [SlidingBuffer.head_consume]
        change forward.backendBuf.head.drop bytes.length = []
        rw [hhead, List.drop_length]
      · exact SlidingBuffer.offset_reset (SlidingBuffer.offset_consume _ _)
    · cases hstep

end Forward

section Advance

variable {q : HttpProxy} {i conn : Nat} {before : ForwardPhase} {next : Forwarding}
  {keepalive : Bool}

theorem conns_owing (q : HttpProxy) (i conn : Nat) (sent : Bool) :
    (if sent then Function.update q.conns conn
        { q.conns conn with owes := some (i, (q.sessions i).log.length) }
      else q.conns) =
      Function.update q.conns conn
        (owing (i, (q.sessions i).log.length) (q.conns conn) sent) := by
  cases sent with
  | true => rfl
  | false => exact (Function.update_eq_self conn q.conns).symm

theorem advance_forwarding (hdone : next.phase ≠ .done)
    (hclosed : next.phase ≠ .closed) :
    q.advance i conn before next keepalive = { q with
      conns := Function.update q.conns conn
        (owing (i, (q.sessions i).log.length) (q.conns conn)
          (requestSent before next.phase))
      sessions := Function.update q.sessions i
        { q.sessions i with phase := .forwarding conn next keepalive } } := by
  unfold advance
  simp only [conns_owing]

theorem Forwards.open {tag : Nat × Nat} {state : BackendConn}
    {answer : Option (List UInt8)}
    (hforwards : Forwards maxBuf tag state answer next) :
    next.phase ≠ .done ∧ next.phase ≠ .closed := by
  obtain ⟨-, -, hphase⟩ := hforwards
  refine ⟨?_, ?_⟩
  all_goals
    intro heq
    simp only [heq] at hphase

/-- `forward_one` goes on: `q` is `p` with the connection in the session's
hands. -/
theorem Sound.advance_open (hsound : p.Sound maxBuf) {state : BackendConn}
    (hsessions : q.sessions = p.sessions) (hanswers : q.answers = p.answers)
    (hconns : q.conns = Function.update p.conns conn state)
    (hmade : p.made ≤ q.made) (hlt : conn < q.made) (hnot : conn ∉ q.idle)
    (hnodup : q.idle.Nodup) (hidle : ∀ other ∈ q.idle, other ∈ p.idle)
    (hown : ∀ j, holding (p.sessions j) = some conn → j = i)
    (hbefore : ∀ other, holding (p.sessions i) = some other → other = conn)
    (hlog : ∀ number bytes, (p.sessions i).log[number]? = some bytes →
      p.answers i number = some bytes)
    (hlater : ∀ number, (p.sessions i).log.length < number →
      p.answers i number = none)
    (hforwards : Forwards maxBuf (i, (p.sessions i).log.length)
      (owing (i, (p.sessions i).log.length) state (requestSent before next.phase))
      (p.answers i (p.sessions i).log.length) next) :
    (q.advance i conn before next keepalive).Sound maxBuf := by
  have hopen : q.advance i conn before next keepalive = { q with
      conns := Function.update p.conns conn
        (owing (i, (p.sessions i).log.length) state
          (requestSent before next.phase))
      sessions := Function.update p.sessions i
        { p.sessions i with phase := .forwarding conn next keepalive } } := by
    rw [advance_forwarding hforwards.open.1 hforwards.open.2, hconns, hsessions,
      Function.update_self, Function.update_idem]
  rw [hopen]
  refine hsound.replace conn _ rfl rfl (fun j _ => by rw [hanswers]) hmade hown
    hbefore ?_ hnodup ?_ ?_ ?_
  · intro other hother
    cases hother
    exact ⟨rfl, hlt, hnot⟩
  · intro other hother
    refine .inr ⟨?_, hidle other hother⟩
    rintro rfl
    exact hnot hother
  · intro j number howes
    obtain ⟨htag, -⟩ := hforwards.owes howes
    exact ⟨congrArg Prod.fst htag, rfl⟩
  · refine ⟨?_, ?_, ?_⟩
    · simpa only [hanswers] using hlog
    · simpa only [hanswers] using hlater
    · simp only [Function.update_self, hanswers]
      exact hforwards

/-- A session is done with a connection on which nothing is left. -/
theorem Sound.giveBack (hsound : p.Sound maxBuf)
    (hheld : holding (p.sessions i) = some conn)
    (hclear : p.conns conn = .clear) {session : ProxySession}
    (hfree : holding session = none)
    (hsession : SessionSound maxBuf p.conns (p.answers i) i session)
    (invalid : Bool) :
    (HttpProxy.giveBack { p with
      sessions := Function.update p.sessions i session } conn invalid).Sound
        maxBuf := by
  obtain ⟨hlt, hnot⟩ := hsound.held i conn hheld
  have hown : ∀ j, holding (p.sessions j) = some conn → j = i :=
    fun j hj => hsound.apart j i conn hj hheld
  have hbefore : ∀ other, holding (p.sessions i) = some other → other = conn :=
    fun other hother => (Option.some.inj (hheld.symm.trans hother)).symm
  have hafter : ∀ other (P : Prop), holding session = some other → P := by
    intro other P hother
    rw [hfree] at hother
    cases hother
  have hsame : p.conns = Function.update p.conns conn .clear := by
    rw [← hclear, Function.update_eq_self]
  have hold : ∀ other ∈ p.idle, other ≠ conn := fun other hmem heq =>
    hnot (heq ▸ hmem)
  unfold HttpProxy.giveBack
  split
  · refine hsound.replace conn .clear rfl hsame (fun _ _ => rfl) (Nat.le_refl _) hown
      hbefore (fun other hother => hafter other _ hother) hsound.nodup ?_ ?_ hsession
    · exact fun other hmem => .inr ⟨hold other hmem, hmem⟩
    · intro j number howes
      cases howes
  · refine hsound.replace conn .clear rfl hsame (fun _ _ => rfl) (Nat.le_refl _) hown
      hbefore (fun other hother => hafter other _ hother) ?_ ?_ ?_ hsession
    · exact hsound.nodup.append (List.nodup_singleton conn)
        (List.disjoint_singleton.mpr hnot)
    · intro other hmem
      rcases List.mem_append.mp hmem with hmem | hmem
      · exact .inr ⟨hold other hmem, hmem⟩
      · exact .inl ⟨List.mem_singleton.mp hmem, hlt, rfl⟩
    · intro j number howes
      cases howes

/-- `forward_one` has relayed the response, and the connection goes back. -/
theorem Sound.advance_done (hsound : p.Sound maxBuf)
    (hheld : holding (p.sessions i) = some conn)
    (hclear : p.conns conn = .clear) (hdone : next.phase = .done)
    (hanswer : p.answers i (p.sessions i).log.length = some next.sent)
    (hhead : next.backendBuf.head = [])
    (hoffset : next.backendBuf.offset ≤ next.backendBuf.data.length) :
    (p.advance i conn before next keepalive).Sound maxBuf := by
  obtain ⟨hlog, hlater, -⟩ := hsound.session i
  have hafter : p.advance i conn before next keepalive =
      HttpProxy.giveBack { p with
        sessions := Function.update p.sessions i
          ⟨if keepalive then .waiting else .closed, next.backendBuf,
            (p.sessions i).log ++ [next.sent]⟩ } conn next.invalid := by
    simp only [advance, hdone]
    rfl
  rw [hafter]
  refine hsound.giveBack hheld hclear ?_ ⟨?_, ?_, ?_⟩ next.invalid
  · cases keepalive with
    | true => rfl
    | false => rfl
  · intro number bytes hbytes
    rw [List.getElem?_append] at hbytes
    split at hbytes
    · exact hlog number bytes hbytes
    · rename_i hlast
      obtain ⟨hindex, hsent⟩ := List.getElem?_eq_some_iff.mp hbytes
      simp only [List.length_singleton] at hindex
      have hnumber : number = (p.sessions i).log.length := by omega
      rw [hnumber, hanswer, ← hsent]
      simp [hnumber]
  · intro number hnumber
    rw [List.length_append, List.length_singleton] at hnumber
    exact hlater number (by omega)
  · cases keepalive with
    | true =>
        refine ⟨hhead, hoffset, hlater _ ?_⟩
        simp
    | false => trivial

end Advance

/-- What the pool gives out is clear, and nobody else's. -/
theorem Sound.acquire (hsound : p.Sound maxBuf) {q : HttpProxy} {conn : Nat}
    {reused : Option Nat} (hacquire : p.acquire reused = some (q, conn)) :
    q.sessions = p.sessions ∧ q.answers = p.answers ∧
      q.conns = Function.update p.conns conn .clear ∧ p.made ≤ q.made ∧
      conn < q.made ∧ conn ∉ q.idle ∧ q.idle.Nodup ∧
      (∀ other ∈ q.idle, other ∈ p.idle) ∧
      ∀ j, holding (p.sessions j) ≠ some conn := by
  cases reused with
  | some index =>
      simp only [HttpProxy.acquire, Option.map_eq_some_iff,
        Prod.mk.injEq] at hacquire
      obtain ⟨found, hfound, rfl, rfl⟩ := hacquire
      have hmem : found ∈ p.idle := List.mem_of_getElem? hfound
      obtain ⟨hlt, hclear⟩ := hsound.idle found hmem
      refine ⟨rfl, rfl, ?_, Nat.le_refl _, hlt, ?_, hsound.nodup.eraseIdx index,
        fun other hother => List.mem_of_mem_eraseIdx hother, ?_⟩
      · rw [← hclear, Function.update_eq_self]
      · intro hagain
        obtain ⟨other, hother, hne, heq⟩ :=
          List.mem_eraseIdx_iff_getElem.mp hagain
        obtain ⟨hindex, hvalue⟩ := List.getElem?_eq_some_iff.mp hfound
        exact hne ((hsound.nodup.getElem_inj_iff).mp (heq.trans hvalue.symm))
      · exact fun j hheld => (hsound.held j found hheld).2 hmem
  | none =>
      simp only [HttpProxy.acquire, Option.some.injEq, Prod.mk.injEq] at hacquire
      obtain ⟨rfl, rfl⟩ := hacquire
      refine ⟨rfl, rfl, rfl, Nat.le_succ _, Nat.lt_succ_self _, ?_, hsound.nodup,
        fun other hother => hother, ?_⟩
      · exact fun hmem => Nat.lt_irrefl _ (hsound.idle _ hmem).1
      · exact fun j hheld => Nat.lt_irrefl _ (hsound.held j _ hheld).1

theorem Sound.request (hsound : p.Sound maxBuf) {i totalReq : Nat} (keepalive : Bool)
    (hphase : (p.sessions i).phase = .waiting) (hpositive : 0 < totalReq) :
    Sound maxBuf { p with
      sessions := Function.update p.sessions i
        { p.sessions i with phase := .acquiring totalReq keepalive } } := by
  obtain ⟨hlog, hlater, hwaiting⟩ := hsound.session i
  simp only [hphase] at hwaiting
  -- no connection changes; one that was never made stands for it
  refine hsound.replace p.made (p.conns p.made) rfl
    (Function.update_eq_self _ _).symm (fun _ _ => rfl) (Nat.le_refl _) ?_ ?_ ?_
    hsound.nodup ?_ ?_ ⟨hlog, hlater, hpositive, hwaiting⟩
  · exact fun j hheld => absurd (hsound.held j _ hheld).1 (Nat.lt_irrefl _)
  · intro other hheld
    simp only [holding, hphase] at hheld
    cases hheld
  · intro other hheld
    cases hheld
  · intro other hmem
    refine .inr ⟨?_, hmem⟩
    rintro rfl
    exact Nat.lt_irrefl _ (hsound.idle _ hmem).1
  · intro j number howes
    exact absurd (hsound.held j _ (hsound.owed _ j number howes)).1 (Nat.lt_irrefl _)

/-- `forward_one` goes on with the connection that it holds. -/
theorem Sound.advance_held (hsound : p.Sound maxBuf) {i conn : Nat}
    {forward next : Forwarding} {keepalive : Bool} {unread : List UInt8}
    (hphase : (p.sessions i).phase = .forwarding conn forward keepalive)
    (hforwards : Forwards maxBuf (i, (p.sessions i).log.length)
      (owing (i, (p.sessions i).log.length)
        { p.conns conn with unread := unread }
        (requestSent forward.phase next.phase))
      (p.answers i (p.sessions i).log.length) next) :
    (HttpProxy.advance { p with
      conns := Function.update p.conns conn
        { p.conns conn with unread := unread } } i conn forward.phase next
      keepalive).Sound maxBuf := by
  have hheld : holding (p.sessions i) = some conn := by
    simp only [holding, hphase]
  obtain ⟨hlt, hnot⟩ := hsound.held i conn hheld
  obtain ⟨hlog, hlater, -⟩ := hsound.session i
  refine hsound.advance_open rfl rfl rfl (Nat.le_refl _) hlt hnot hsound.nodup
    (fun other hmem => hmem) ?_ ?_ hlog hlater hforwards
  · exact fun j hj => hsound.apart j i conn hj hheld
  · exact fun other hother => (Option.some.inj (hheld.symm.trans hother)).symm

theorem Sound.respond (hsound : p.Sound maxBuf) {i conn number : Nat}
    {response : ResponseText} (hframed : response.Framed)
    (hreadable : ReadableLength response.fields)
    (howes : (p.conns conn).owes = some (i, number)) :
    Sound maxBuf { p with
      conns := Function.update p.conns conn
        ⟨(p.conns conn).unread ++ response.wire, none⟩
      answers := Function.update p.answers i
        (Function.update (p.answers i) number (some response.wire)) } := by
  have hheld := hsound.owed conn i number howes
  obtain ⟨hlt, hnot⟩ := hsound.held i conn hheld
  obtain ⟨hlog, hlater, hforwards⟩ := hsound.session i
  obtain ⟨forward, keepalive, hphase⟩ : ∃ forward keepalive,
      (p.sessions i).phase = .forwarding conn forward keepalive := by
    unfold holding at hheld
    split at hheld
    · cases hheld
      exact ⟨_, _, ‹_›⟩
    · cases hheld
  simp only [hphase] at hforwards
  obtain ⟨htag, hunread, hanswer, hhead, hsent, hwaits⟩ := hforwards.owes howes
  obtain ⟨-, rfl⟩ := Prod.mk.inj htag
  refine hsound.replace conn _ (Function.update_eq_self i p.sessions).symm rfl ?_
    (Nat.le_refl _) ?_ ?_ ?_ hsound.nodup ?_ ?_ ⟨?_, ?_, ?_⟩
  · exact fun j hj => Function.update_of_ne hj _ _
  · exact fun j hj => hsound.apart j i conn hj hheld
  · exact fun other hother => (Option.some.inj (hheld.symm.trans hother)).symm
  · intro other hother
    exact ⟨(Option.some.inj (hheld.symm.trans hother)).symm, hlt, hnot⟩
  · exact fun other hmem => .inr ⟨fun heq => hnot (heq ▸ hmem), hmem⟩
  · intro j other hnone
    cases hnone
  · intro other bytes hbytes
    have hother := (List.getElem?_eq_some_iff.mp hbytes).1
    simp only [Function.update_self]
    rw [Function.update_of_ne (by omega)]
    exact hlog other bytes hbytes
  · intro other hother
    simp only [Function.update_self]
    rw [Function.update_of_ne (by omega)]
    exact hlater other hother
  · simp only [hphase, Function.update_self]
    have hawaits : Awaits (i, (p.sessions i).log.length)
        ⟨(p.conns conn).unread ++ response.wire, none⟩ (some response.wire) [] := by
      refine .inr ⟨response, hframed, hreadable, rfl, rfl, ?_, ?_⟩
      · simp [hunread]
      · simp [response.wire_nonempty]
    refine ⟨hforwards.1, hforwards.2.1, ?_⟩
    rcases hwaits with hlinked | hreading
    · simp only [hlinked]
      exact ⟨hsent, hhead, hawaits⟩
    · simp only [hreading, hhead]
      exact ⟨hsent, hawaits⟩

theorem Sound.wrote (hsound : p.Sound maxBuf) {i conn size : Nat}
    {forward next : Forwarding} {keepalive : Bool}
    (hphase : (p.sessions i).phase = .forwarding conn forward keepalive)
    (hstep : forward.step (.wrote size) = some next) :
    (p.advance i conn forward.phase next keepalive).Sound maxBuf := by
  obtain ⟨-, -, hforwards⟩ := hsound.session i
  simp only [hphase] at hforwards
  have hsame : { p with
      conns := Function.update p.conns conn
        { p.conns conn with unread := (p.conns conn).unread } } = p := by
    rw [Function.update_eq_self]
  obtain hwaits | ⟨total, hforward⟩ | ⟨response, bytes, fwd, hforward⟩ :=
    hforwards.phase
  · rcases hwaits with hforward | hforward
    all_goals simp [Forwarding.step, hforward] at hstep
  · have hnext := forwards_wrote_request hforwards hforward hstep
    have hheld := hsound.advance_held hphase hnext
    rwa [hsame] at hheld
  · obtain ⟨hnext, hsent⟩ | ⟨hdone, hanswer, hclear, hhead, hoffset⟩ :=
      forwards_wrote_response hforwards hforward hstep
    · have hheld := hsound.advance_held hphase
        (by rw [hsent, owing, if_neg (by decide)]; exact hnext)
      rwa [hsame] at hheld
    · exact hsound.advance_done (by simp only [holding, hphase]) hclear hdone
        hanswer hhead hoffset

theorem step_sound {event : ProxyEvent} (hsound : p.Sound maxBuf)
    (hguard : p.framedByLength maxBuf event)
    (hstep : p.step maxBuf event = some p') :
    p'.Sound maxBuf := by
  cases event with
  | request i totalReq keepalive =>
      simp only [step] at hstep
      split at hstep
      · rename_i hphase
        split at hstep
        · obtain rfl := Option.some.inj hstep
          exact hsound.request keepalive hphase ‹_›
        · cases hstep
      · cases hstep
  | acquire i reused =>
      simp only [step] at hstep
      obtain ⟨hlog, hlater, hsession⟩ := hsound.session i
      split at hstep
      · rename_i totalReq keepalive hphase
        obtain ⟨⟨q, conn⟩, hacquire, rfl⟩ := Option.map_eq_some_iff.mp hstep
        obtain ⟨hsessions, hanswers, hconns, hmade, hlt, hnot, hnodup,
            hidle, hfree⟩ :=
          hsound.acquire hacquire
        simp only [hphase] at hsession
        obtain ⟨hpositive, hhead, hoffset, hnone⟩ := hsession
        refine hsound.advance_open hsessions hanswers hconns hmade hlt hnot hnodup
          hidle (fun j hheld => absurd hheld (hfree j)) ?_ hlog hlater ?_
        · intro other hheld
          simp only [holding, hphase] at hheld
          cases hheld
        · rw [hnone]
          exact forwards_init hpositive hhead hoffset
      · rename_i conn forward keepalive hphase
        obtain ⟨_, -, hmap⟩ := Option.bind_eq_some_iff.mp hstep
        obtain ⟨next, hacquired, -⟩ := Option.map_eq_some_iff.mp hmap
        simp only [hphase] at hsession
        -- only a first attempt that has failed asks for another connection
        obtain hwaits | ⟨total, hforward⟩ | ⟨response, bytes, fwd, hforward⟩ :=
          hsession.phase
        · rcases hwaits with hforward | hforward
          all_goals simp [Forwarding.step, hforward] at hacquired
        · simp [Forwarding.step, hforward] at hacquired
        · simp [Forwarding.step, hforward] at hacquired
      · cases hstep
  | read i size =>
      simp only [step] at hstep
      split at hstep
      · rename_i conn forward keepalive hphase
        split at hstep
        · rename_i hsize
          obtain ⟨next, hnext, rfl⟩ := Option.map_eq_some_iff.mp hstep
          obtain ⟨-, -, hsession⟩ := hsound.session i
          simp only [hphase] at hsession
          simp only [framedByLength, HttpProxy.wellCut, hphase, Bool.and_eq_true,
            Bool.or_eq_true, Bool.not_eq_true', decide_eq_true_eq] at hguard
          obtain ⟨hforwards, hsent⟩ := forwards_read hsession hsize hguard.1 (by
            intro hend
            rw [← List.isSuffixOf_iff_suffix] at hend
            rw [hend, or_assoc] at hguard
            exact hguard.2.resolve_left (by decide)) hnext
          refine hsound.advance_held hphase ?_
          rw [hsent, owing, if_neg (by decide)]
          exact hforwards
        · cases hstep
      · cases hstep
  | wrote i size =>
      simp only [step] at hstep
      split at hstep
      · rename_i conn forward keepalive hphase
        obtain ⟨next, hnext, rfl⟩ := Option.map_eq_some_iff.mp hstep
        exact hsound.wrote hphase hnext
      · cases hstep
  | respond conn response =>
      simp only [step] at hstep
      split at hstep
      · rename_i i number howes
        obtain rfl := Option.some.inj hstep
        exact hsound.respond hguard.1 hguard.2 howes
      · cases hstep

/-- The client of each session has the answers to its own requests.  What a
session has buffered or can still read on its connection is the answer to its
current request; between requests nothing is left, nor on an idle connection. -/
structure Unmixed (p : HttpProxy) : Prop where
  answered : ∀ i number bytes, (p.sessions i).log[number]? = some bytes →
    p.answers i number = some bytes
  current : ∀ i conn forward keepalive,
    (p.sessions i).phase = .forwarding conn forward keepalive →
      forward.sent <+: (p.answers i (p.sessions i).log.length).getD [] ∧
      forward.backendBuf.head ++ (p.conns conn).unread =
        (p.answers i (p.sessions i).log.length).getD []
  between : ∀ i, (p.sessions i).phase = .waiting →
    (p.sessions i).backendBuf.head = []
  idle : ∀ conn ∈ p.idle, p.conns conn = .clear

theorem Forwards.current {tag : Nat × Nat} {conn : BackendConn}
    {answer : Option (List UInt8)} {forward : Forwarding}
    (hforwards : Forwards maxBuf tag conn answer forward) :
    forward.sent <+: answer.getD [] ∧
      forward.backendBuf.head ++ conn.unread = answer.getD [] := by
  have hawaits : ∀ buffered, Awaits tag conn answer buffered →
      buffered ++ conn.unread = answer.getD [] := by
    rintro buffered (⟨rfl, rfl, rfl⟩ | ⟨response, -, -, -, rfl, hsplit, -⟩)
    · rfl
    · exact hsplit
  obtain ⟨-, -, hphase⟩ := hforwards
  split at hphase
  · obtain ⟨hsent, hhead, hwaits⟩ := hphase
    rw [hsent, hhead]
    exact ⟨List.nil_prefix, hawaits _ hwaits⟩
  · obtain ⟨hsent, hhead, rfl, rfl⟩ := hphase
    rw [hsent, hhead]
    exact ⟨List.nil_prefix, rfl⟩
  · obtain ⟨hsent, hwaits⟩ := hphase
    rw [hsent]
    exact ⟨List.nil_prefix, hawaits _ hwaits⟩
  · obtain ⟨hsent, hhead, rfl, rfl⟩ := hphase
    rw [hsent, hhead]
    exact ⟨List.take_prefix _ _, List.append_nil _⟩
  · exact absurd hphase id

theorem Sound.unmixed (hsound : p.Sound maxBuf) : p.Unmixed := by
  refine ⟨fun i => (hsound.session i).1, ?_, ?_, fun conn hmem =>
    (hsound.idle conn hmem).2⟩
  · intro i conn forward keepalive hphase
    have hforwards := (hsound.session i).2.2
    simp only [hphase] at hforwards
    exact hforwards.current
  · intro i hphase
    have hwaiting := (hsound.session i).2.2
    simp only [hphase] at hwaiting
    exact hwaiting.1

theorem init_sound : Sound maxBuf init := by
  refine ⟨?_, ?_, List.nodup_nil, ?_, ?_, ?_⟩
  · intro i conn hheld
    cases hheld
  · intro i j conn hheld
    cases hheld
  · intro conn hmem
    cases hmem
  · intro conn i number howes
    cases howes
  · intro i
    refine ⟨?_, fun _ _ => rfl, rfl, Nat.le_refl 0, rfl⟩
    intro number bytes hbytes
    cases hbytes

end HttpProxy

/-- No session gets a byte of an answer to another request, if every response is
framed by its content length and no read ends right behind a header line before a
body has been announced. -/
theorem responses_unmixed (maxBuf : Nat) (word : List ProxyEvent)
    {last : HttpProxy}
    (hmeets : (HttpProxy.machine maxBuf).Meets
      (HttpProxy.framedByLength maxBuf) word)
    (hrun : (HttpProxy.machine maxBuf).run word = some last) : last.Unmixed := by
  have hsound : last.Sound maxBuf := by
    refine Machine.run_invariant _ HttpProxy.init_sound ?_ word hmeets hrun
    intro state event next hstate hguard hstep
    exact HttpProxy.step_sound hstate hguard hstep
  exact hsound.unmixed

set_option maxRecDepth 100000 in
/-- Two sessions, one after the other on the same connection, with reads and
writes cut anywhere. -/
theorem responses_unmixed_reused :
    ∃ last, (HttpProxy.machine 4096).run
        [.request 0 20 true, .acquire 0 none, .request 1 9000 true,
          .respond 0 lengthResponse, .read 0 20, .read 0 44, .wrote 0 10,
          .wrote 0 54, .acquire 1 (some 0), .wrote 1 9000,
          .respond 0 lengthResponse, .read 1 64, .wrote 1 64] = some last ∧
      (last.sessions 0).log = [lengthResponse.wire] ∧
      (last.sessions 1).log = [lengthResponse.wire] ∧ last.Unmixed := by
  have hend : ((HttpProxy.machine 4096).run
      [.request 0 20 true, .acquire 0 none, .request 1 9000 true,
        .respond 0 lengthResponse, .read 0 20, .read 0 44, .wrote 0 10,
        .wrote 0 54, .acquire 1 (some 0), .wrote 1 9000,
        .respond 0 lengthResponse, .read 1 64, .wrote 1 64]).map
        (fun last => ((last.sessions 0).log, (last.sessions 1).log)) =
      some ([lengthResponse.wire], [lengthResponse.wire]) := by
    decide +kernel
  obtain ⟨last, hrun, hlogs⟩ := Option.map_eq_some_iff.mp hend
  obtain ⟨hfirst, hsecond⟩ := Prod.mk.inj hlogs
  exact ⟨last, hrun, hfirst, hsecond,
    responses_unmixed 4096 _ (by decide +kernel) hrun⟩

set_option maxRecDepth 100000 in
/-- A chunked response: the client gets its header block, and the chunks stay
on a connection that goes back to the pool, where the next session reads them
before its own answer. -/
theorem chunkedResponse_mixed :
    chunkedResponse.Chunked ∧
    ∃ last, (HttpProxy.machine 4096).run
        [.request 0 20 true, .acquire 0 none, .respond 0 chunkedResponse,
          .read 0 71, .wrote 0 71, .request 1 20 true, .acquire 1 (some 0),
          .respond 0 lengthResponse, .read 1 12] = some last ∧
      last.answers 0 0 = some chunkedResponse.wire ∧
      (last.sessions 0).log = [chunkedResponse.head] ∧ ¬ last.Unmixed := by
  refine ⟨⟨⟨chunkedField, List.mem_cons_self, by decide, by decide⟩, by decide,
    [ascii "hi"], by decide, rfl⟩, ?_⟩
  have hend : ((HttpProxy.machine 4096).run
      [.request 0 20 true, .acquire 0 none, .respond 0 chunkedResponse,
        .read 0 71, .wrote 0 71, .request 1 20 true, .acquire 1 (some 0),
        .respond 0 lengthResponse, .read 1 12]).map
        (fun last => (last.answers 0 0, (last.sessions 0).log)) =
      some (some chunkedResponse.wire, [chunkedResponse.head]) := by
    decide +kernel
  obtain ⟨last, hrun, hlast⟩ := Option.map_eq_some_iff.mp hend
  obtain ⟨hanswer, hlog⟩ := Prod.mk.inj hlast
  refine ⟨last, hrun, hanswer, hlog, ?_⟩
  intro hunmixed
  have hwhole := hunmixed.answered 0 0 chunkedResponse.head (by rw [hlog]; rfl)
  rw [hanswer] at hwhole
  revert hwhole
  decide

end UltraNet
