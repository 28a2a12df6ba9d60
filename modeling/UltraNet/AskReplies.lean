/-
Whose request the payload of an `ask` answers, over any number of nodes and
their restarts.  Asks are numbered by the process that makes them; a reply goes
to the process at the other end of the connection that the request came from, or
stays on the node where that connection is 0, and ends there whatever ask is
pending under its number.  Frames and replies may be lost, repeated and
reordered, and a handler may reply more than once.
-/
import UltraNet.AssocTable
import UltraNet.GuardedRun

namespace UltraNet

/-- A node between two restarts. -/
structure Process where
  node : Nat
  life : Nat
deriving DecidableEq

/-- An ask: who makes it, and the id that `prepare_ask` returns. -/
structure AskRequest where
  process : Process
  id : Nat
deriving DecidableEq

/-- The envelope of an ask while its actor handles it.  `replyTo` is the process
behind `reply_conn_id`, none for the connection 0; `request` is a ghost. -/
structure AskEnvelope where
  host : Process
  correlationId : Nat
  replyTo : Option Process
  request : AskRequest

/-- A reply frame; `request` is a ghost. -/
structure AskReply where
  dest : Process
  correlationId : Nat
  payload : List UInt8
  request : AskRequest

/-- `asks` has the keys of `m_asks`; `answers` has the slots that were filled, and
as a ghost whose request each payload is for. -/
structure AskNet where
  nextMsgId : Process → Nat
  asks : Process → List Nat
  frames : List AskRequest
  handling : List AskEnvelope
  replies : List AskReply
  answers : Table AskRequest (AskRequest × List UInt8)

inductive AskAction where
  -- a number for another message
  | allocMsgId (process : Process)
  | askLocal (process : Process)
  | askRemote (process : Process)
  -- the time-out, or a request that was not accepted
  | cancelAsk (process : Process) (id : Nat)
  | deliver (frame : Nat) (host : Process)
  -- a later process of the node posts the frame of its log
  | postOriginalFrame (frame : Nat) (process host : Process)
  -- the receiver takes the frame from its log, with the connection 0
  | replayReceiver (frame : Nat) (host : Process)
  | reply (envelope : Nat) (payload : List UInt8)
  | handled (envelope : Nat)
  -- a reply frame in `read_pooled_outbound`
  | receive (reply : Nat)

/-- The action hands a frame of a log to an actor. -/
def AskAction.replays : AskAction → Bool
  | .postOriginalFrame .. | .replayReceiver .. => true
  | _ => false

namespace AskNet

/-- `prepare_ask` -/
def prepareAsk (s : AskNet) (process : Process) : AskNet :=
  { s with
    nextMsgId := Function.update s.nextMsgId process (s.nextMsgId process + 1)
    asks := Function.update s.asks process (s.nextMsgId process :: s.asks process) }

/-- `cancel_ask` -/
def cancelAsk (s : AskNet) (process : Process) (id : Nat) : AskNet :=
  { s with asks := Function.update s.asks process ((s.asks process).erase id) }

/-- `finish_ask` -/
def finishAsk (s : AskNet) (process : Process) (id : Nat) (payload : List UInt8)
    (request : AskRequest) : AskNet :=
  if id ∈ s.asks process then
    { s.cancelAsk process id with
      answers := s.answers.insert ⟨process, id⟩ (request, payload) }
  else s

/-- `dispatch_reply` -/
def dispatchReply (s : AskNet) (env : AskEnvelope) (payload : List UInt8) : AskNet :=
  match env.replyTo with
  | none => s.finishAsk env.host env.correlationId payload env.request
  | some dest =>
      { s with replies := s.replies ++ [⟨dest, env.correlationId, payload, env.request⟩] }

def handle (s : AskNet) (env : AskEnvelope) : AskNet :=
  { s with handling := s.handling ++ [env] }

def step (s : AskNet) : AskAction → Option AskNet
  | .allocMsgId process =>
      some { s with
        nextMsgId := Function.update s.nextMsgId process (s.nextMsgId process + 1) }
  | .askLocal process =>
      some ((s.prepareAsk process).handle
        ⟨process, s.nextMsgId process, none, process, s.nextMsgId process⟩)
  | .askRemote process =>
      some { s.prepareAsk process with
        frames := s.frames ++ [⟨process, s.nextMsgId process⟩] }
  | .cancelAsk process id => some (s.cancelAsk process id)
  | .deliver frame host =>
      s.frames[frame]?.map fun request =>
        s.handle ⟨host, request.id, some request.process, request⟩
  | .postOriginalFrame frame process host =>
      s.frames[frame]?.bind fun request =>
        if process.node ≠ request.process.node ∨ process.life ≤ request.process.life then none
        else some (s.handle ⟨host, request.id, some process, request⟩)
  | .replayReceiver frame host =>
      s.frames[frame]?.map fun request => s.handle ⟨host, request.id, none, request⟩
  | .reply envelope payload =>
      s.handling[envelope]?.bind fun env =>
        if payload = [] then none else some (s.dispatchReply env payload)
  | .handled envelope =>
      s.handling[envelope]?.map fun _ => { s with handling := s.handling.eraseIdx envelope }
  | .receive reply =>
      s.replies[reply]?.map fun frame =>
        s.finishAsk frame.dest frame.correlationId frame.payload frame.request

def machine : Machine AskNet AskAction :=
  ⟨⟨fun _ => 1, fun _ => [], [], [], [], ∅⟩, step⟩

/-- Where `finish_ask` is called in a step, and for whose request. -/
def finishing (s : AskNet) : AskAction → Option (Process × AskRequest)
  | .reply envelope _ =>
      s.handling[envelope]?.bind fun env =>
        match env.replyTo with
        | none => some (env.host, env.request)
        | some _ => none
  | .receive reply => s.replies[reply]?.map fun frame => (frame.dest, frame.request)
  | _ => none

/-- A reply that ends where its request does not come from finds no ask pending
under its number. -/
def StrayFindsNone (s : AskNet) (action : AskAction) : Prop :=
  (s.finishing action).all fun ends =>
    ends.1 = ends.2.process ∨ ends.2.id ∉ s.asks ends.1

instance (s : AskNet) (action : AskAction) : Decidable (s.StrayFindsNone action) :=
  inferInstanceAs (Decidable (_ = true))

/-- Numbers are given once, and replies carry that of their request. -/
structure Numbered (s : AskNet) : Prop where
  pending : ∀ process, ∀ id ∈ s.asks process, id < s.nextMsgId process
  nodup : ∀ process, (s.asks process).Nodup
  handling : ∀ env ∈ s.handling, env.correlationId = env.request.id
  replies : ∀ frame ∈ s.replies, frame.correlationId = frame.request.id
  answered : ∀ asked answer, s.answers.lookup asked = some answer →
    asked.id < s.nextMsgId asked.process ∧ asked.id ∉ s.asks asked.process

/-- Every payload is for the ask that has it. -/
def Right (s : AskNet) : Prop :=
  ∀ asked request payload, s.answers.lookup asked = some (request, payload) → request = asked

section Steps

variable {s next : AskNet} {process : Process}

theorem le_update (numbers : Process → Nat) (process other : Process) :
    numbers other ≤ Function.update numbers process (numbers process + 1) other := by
  by_cases hsame : other = process
  · subst hsame
    rw [Function.update_self]
    exact Nat.le_succ _
  · rw [Function.update_of_ne hsame]

/-- What is numbered stays so when numbers are given and asks end. -/
theorem Numbered.shrink (hs : s.Numbered)
    (hnumbers : ∀ process, s.nextMsgId process ≤ next.nextMsgId process)
    (hasks : ∀ process, (next.asks process).Sublist (s.asks process))
    (hhandling : ∀ env ∈ next.handling, env.correlationId = env.request.id)
    (hreplies : ∀ frame ∈ next.replies, frame.correlationId = frame.request.id)
    (hanswers : next.answers = s.answers) : next.Numbered where
  pending process id hmem :=
    lt_of_lt_of_le (hs.pending process id ((hasks process).subset hmem)) (hnumbers process)
  nodup process := (hs.nodup process).sublist (hasks process)
  handling := hhandling
  replies := hreplies
  answered asked answer hlookup := by
    rw [hanswers] at hlookup
    obtain ⟨hlt, hnot⟩ := hs.answered asked answer hlookup
    exact ⟨lt_of_lt_of_le hlt (hnumbers _), fun hmem => hnot ((hasks _).subset hmem)⟩

theorem Numbered.prepareAsk (hs : s.Numbered) (process : Process) :
    (s.prepareAsk process).Numbered where
  pending other id hmem := by
    by_cases hsame : other = process
    · subst hsame
      simp only [AskNet.prepareAsk, Function.update_self, List.mem_cons] at hmem ⊢
      obtain rfl | hold := hmem
      · exact Nat.lt_succ_self _
      · exact Nat.lt_succ_of_lt (hs.pending other id hold)
    · simp only [AskNet.prepareAsk, Function.update_of_ne hsame] at hmem ⊢
      exact hs.pending other id hmem
  nodup other := by
    by_cases hsame : other = process
    · subst hsame
      simp only [AskNet.prepareAsk, Function.update_self, List.nodup_cons]
      exact ⟨fun hmem => Nat.lt_irrefl _ (hs.pending other _ hmem), hs.nodup other⟩
    · simp only [AskNet.prepareAsk, Function.update_of_ne hsame]
      exact hs.nodup other
  handling := hs.handling
  replies := hs.replies
  answered asked answer hlookup := by
    obtain ⟨hlt, hnot⟩ := hs.answered asked answer hlookup
    refine ⟨lt_of_lt_of_le hlt (le_update _ _ _), fun hmem => ?_⟩
    by_cases hsame : asked.process = process
    · rw [← hsame] at hmem
      simp only [AskNet.prepareAsk, Function.update_self, List.mem_cons] at hmem
      obtain heq | hold := hmem
      · exact Nat.ne_of_lt hlt heq
      · exact hnot hold
    · simp only [AskNet.prepareAsk, Function.update_of_ne hsame] at hmem
      exact hnot hmem

/-- The asks that stay when one of them ends. -/
theorem erase_sublist (asks : Process → List Nat) (process other : Process) (id : Nat) :
    (Function.update asks process ((asks process).erase id) other).Sublist (asks other) := by
  by_cases hsame : other = process
  · subst hsame
    rw [Function.update_self]
    exact List.erase_sublist
  · rw [Function.update_of_ne hsame]

theorem Numbered.cancelAsk (hs : s.Numbered) (process : Process) (id : Nat) :
    (s.cancelAsk process id).Numbered :=
  hs.shrink (fun _ => Nat.le_refl _) (fun other => erase_sublist s.asks process other id)
    hs.handling hs.replies rfl

theorem Numbered.finishAsk (hs : s.Numbered) (process : Process) (id : Nat)
    (payload : List UInt8) (request : AskRequest) :
    (s.finishAsk process id payload request).Numbered := by
  unfold AskNet.finishAsk
  split
  · rename_i hpending
    have hless := hs.cancelAsk process id
    refine ⟨hless.pending, hless.nodup, hless.handling, hless.replies, ?_⟩
    intro asked answer hlookup
    obtain ⟨rfl, -⟩ | ⟨-, hold⟩ := Table.of_lookup_insert hlookup
    · refine ⟨hs.pending process id hpending, ?_⟩
      simp only [AskNet.cancelAsk, Function.update_self]
      exact (hs.nodup process).not_mem_erase
    · exact hless.answered asked answer hold
  · exact hs

theorem Numbered.handle (hs : s.Numbered) {env : AskEnvelope}
    (henv : env.correlationId = env.request.id) : (s.handle env).Numbered := by
  have hhandling : ∀ other ∈ (s.handle env).handling,
      other.correlationId = other.request.id := by
    intro other hmem
    obtain hold | hnew := List.mem_append.mp hmem
    · exact hs.handling other hold
    · obtain rfl := List.mem_singleton.mp hnew
      exact henv
  exact hs.shrink (fun _ => Nat.le_refl _) (fun _ => List.Sublist.refl _) hhandling hs.replies
    rfl

theorem Numbered.dispatchReply (hs : s.Numbered) {env : AskEnvelope}
    (henv : env.correlationId = env.request.id) (payload : List UInt8) :
    (s.dispatchReply env payload).Numbered := by
  unfold AskNet.dispatchReply
  cases env.replyTo with
  | none => exact hs.finishAsk _ _ _ _
  | some dest =>
      have hreplies : ∀ frame ∈ s.replies ++ [⟨dest, env.correlationId, payload, env.request⟩],
          frame.correlationId = frame.request.id := by
        intro frame hmem
        obtain hold | hnew := List.mem_append.mp hmem
        · exact hs.replies frame hold
        · obtain rfl := List.mem_singleton.mp hnew
          exact henv
      exact hs.shrink (fun _ => Nat.le_refl _) (fun _ => List.Sublist.refl _) hs.handling
        hreplies rfl

theorem Numbered.step {action : AskAction} (hs : s.Numbered)
    (hstep : s.step action = some next) : next.Numbered := by
  cases action with
  | allocMsgId process =>
      obtain rfl := Option.some.inj hstep
      exact hs.shrink (le_update _ _) (fun _ => List.Sublist.refl _) hs.handling hs.replies rfl
  | askLocal process =>
      obtain rfl := Option.some.inj hstep
      exact (hs.prepareAsk process).handle rfl
  | askRemote process =>
      obtain rfl := Option.some.inj hstep
      have hprepared := hs.prepareAsk process
      exact ⟨hprepared.pending, hprepared.nodup, hprepared.handling, hprepared.replies,
        hprepared.answered⟩
  | cancelAsk process id =>
      obtain rfl := Option.some.inj hstep
      exact hs.cancelAsk process id
  | deliver frame host =>
      obtain ⟨request, -, rfl⟩ := Option.map_eq_some_iff.mp hstep
      exact hs.handle rfl
  | postOriginalFrame frame process host =>
      obtain ⟨request, -, hsent⟩ := Option.bind_eq_some_iff.mp hstep
      obtain ⟨-, hnext⟩ := Option.ite_none_left_eq_some.mp hsent
      obtain rfl := Option.some.inj hnext
      exact hs.handle rfl
  | replayReceiver frame host =>
      obtain ⟨request, -, rfl⟩ := Option.map_eq_some_iff.mp hstep
      exact hs.handle rfl
  | reply envelope payload =>
      obtain ⟨env, henv, hsent⟩ := Option.bind_eq_some_iff.mp hstep
      obtain ⟨-, hnext⟩ := Option.ite_none_left_eq_some.mp hsent
      obtain rfl := Option.some.inj hnext
      exact hs.dispatchReply (hs.handling env (List.mem_of_getElem? henv)) payload
  | handled envelope =>
      obtain ⟨env, -, rfl⟩ := Option.map_eq_some_iff.mp hstep
      exact hs.shrink (fun _ => Nat.le_refl _) (fun _ => List.Sublist.refl _)
        (fun other hmem => hs.handling other (List.mem_of_mem_eraseIdx hmem)) hs.replies rfl
  | receive reply =>
      obtain ⟨frame, -, rfl⟩ := Option.map_eq_some_iff.mp hstep
      exact hs.finishAsk _ _ _ _

/-- An answer stays what it is. -/
theorem answers_finishAsk (hs : s.Numbered) {asked : AskRequest}
    {answer : AskRequest × List UInt8} (hlookup : s.answers.lookup asked = some answer)
    (process : Process) (id : Nat) (payload : List UInt8) (request : AskRequest) :
    (s.finishAsk process id payload request).answers.lookup asked = some answer := by
  unfold AskNet.finishAsk
  split
  · rename_i hpending
    have hother : asked ≠ ⟨process, id⟩ := by
      rintro rfl
      exact (hs.answered _ _ hlookup).2 hpending
    rw [Table.lookup_insert, if_neg hother]
    exact hlookup
  · exact hlookup

/-- Payloads are filed where a step finishes an ask, and nowhere else. -/
theorem step_answers {action : AskAction} (hs : s.Numbered)
    (hstep : s.step action = some next) :
    (s.finishing action = none ∧ next.answers = s.answers) ∨
      ∃ process request payload, s.finishing action = some (process, request) ∧
        next.answers = (s.finishAsk process request.id payload request).answers := by
  cases action with
  | allocMsgId process =>
      obtain rfl := Option.some.inj hstep
      exact .inl ⟨rfl, rfl⟩
  | askLocal process =>
      obtain rfl := Option.some.inj hstep
      exact .inl ⟨rfl, rfl⟩
  | askRemote process =>
      obtain rfl := Option.some.inj hstep
      exact .inl ⟨rfl, rfl⟩
  | cancelAsk process id =>
      obtain rfl := Option.some.inj hstep
      exact .inl ⟨rfl, rfl⟩
  | deliver frame host =>
      obtain ⟨request, -, rfl⟩ := Option.map_eq_some_iff.mp hstep
      exact .inl ⟨rfl, rfl⟩
  | postOriginalFrame frame process host =>
      obtain ⟨request, -, hsent⟩ := Option.bind_eq_some_iff.mp hstep
      obtain ⟨-, hnext⟩ := Option.ite_none_left_eq_some.mp hsent
      obtain rfl := Option.some.inj hnext
      exact .inl ⟨rfl, rfl⟩
  | replayReceiver frame host =>
      obtain ⟨request, -, rfl⟩ := Option.map_eq_some_iff.mp hstep
      exact .inl ⟨rfl, rfl⟩
  | reply envelope payload =>
      obtain ⟨env, henv, hsent⟩ := Option.bind_eq_some_iff.mp hstep
      obtain ⟨-, hnext⟩ := Option.ite_none_left_eq_some.mp hsent
      obtain rfl := Option.some.inj hnext
      have hnumber := hs.handling env (List.mem_of_getElem? henv)
      cases hto : env.replyTo with
      | none =>
          refine .inr ⟨env.host, env.request, payload, ?_, ?_⟩
          · simp only [finishing, henv, Option.bind_some, hto]
          · simp only [AskNet.dispatchReply, hto, hnumber]
      | some dest =>
          refine .inl ⟨?_, ?_⟩
          · simp only [finishing, henv, Option.bind_some, hto]
          · simp only [AskNet.dispatchReply, hto]
  | handled envelope =>
      obtain ⟨env, -, rfl⟩ := Option.map_eq_some_iff.mp hstep
      exact .inl ⟨rfl, rfl⟩
  | receive reply =>
      obtain ⟨frame, hframe, rfl⟩ := Option.map_eq_some_iff.mp hstep
      have hnumber := hs.replies frame (List.mem_of_getElem? hframe)
      refine .inr ⟨frame.dest, frame.request, frame.payload, ?_, ?_⟩
      · simp only [finishing, hframe, Option.map_some]
      · simp only [hnumber]

theorem answers_kept {action : AskAction} (hs : s.Numbered)
    (hstep : s.step action = some next) {asked : AskRequest}
    {answer : AskRequest × List UInt8} (hlookup : s.answers.lookup asked = some answer) :
    next.answers.lookup asked = some answer := by
  obtain ⟨-, hsame⟩ | ⟨process, request, payload, -, hfiled⟩ := step_answers hs hstep
  · rw [hsame]
    exact hlookup
  · rw [hfiled]
    exact answers_finishAsk hs hlookup process request.id payload request

theorem Right.step {action : AskAction} (hright : s.Right) (hs : s.Numbered)
    (hguard : s.StrayFindsNone action) (hstep : s.step action = some next) : next.Right := by
  obtain ⟨-, hsame⟩ | ⟨process, request, payload, hends, hfiled⟩ := step_answers hs hstep
  · intro asked other payload hlookup
    rw [hsame] at hlookup
    exact hright asked other payload hlookup
  · intro asked other bytes hlookup
    rw [hfiled, AskNet.finishAsk] at hlookup
    split at hlookup
    · rename_i hpending
      obtain ⟨rfl, hanswer⟩ | ⟨-, hold⟩ := Table.of_lookup_insert hlookup
      · obtain rfl := congrArg Prod.fst hanswer
        simp only [StrayFindsNone, hends, Option.all_some, decide_eq_true_eq] at hguard
        obtain rfl := hguard.resolve_right fun hnot => hnot hpending
        rfl
      · exact hright asked other bytes hold
    · exact hright asked other bytes hlookup

/-- Some ask has the payload for another one. -/
def Wrong (s : AskNet) : Prop :=
  ∃ asked request payload, s.answers.lookup asked = some (request, payload) ∧ request ≠ asked

theorem wrong_step {action : AskAction} (hs : s.Numbered)
    (hguard : ¬ s.StrayFindsNone action) (hstep : s.step action = some next) : next.Wrong := by
  obtain ⟨hnone, -⟩ | ⟨process, request, payload, hends, hfiled⟩ := step_answers hs hstep
  · exact absurd (by rw [StrayFindsNone, hnone]; rfl) hguard
  · simp only [StrayFindsNone, hends, Option.all_some, decide_eq_true_eq, not_or,
      not_not] at hguard
    obtain ⟨hstray, hpending⟩ := hguard
    refine ⟨⟨process, request.id⟩, request, payload, ?_, ?_⟩
    · rw [hfiled, AskNet.finishAsk, if_pos hpending]
      exact AList.lookup_insert _
    · intro hsame
      exact hstray (congrArg AskRequest.process hsame).symm

/-- Replies are on their way to where their requests come from. -/
structure Homeward (s : AskNet) : Prop where
  handling : ∀ env ∈ s.handling, env.replyTo.getD env.host = env.request.process
  replies : ∀ frame ∈ s.replies, frame.dest = frame.request.process

theorem Homeward.strayFindsNone (hs : s.Homeward) (action : AskAction) :
    s.StrayFindsNone action := by
  cases action with
  | reply envelope payload =>
      rw [StrayFindsNone, finishing]
      cases henv : s.handling[envelope]? with
      | none => rfl
      | some env =>
          have hhome := hs.handling env (List.mem_of_getElem? henv)
          cases hto : env.replyTo with
          | none =>
              rw [hto] at hhome
              simp only [Option.bind_some, hto, Option.all_some, decide_eq_true_eq]
              exact .inl hhome
          | some dest => simp only [Option.bind_some, hto, Option.all_none]
  | receive reply =>
      rw [StrayFindsNone, finishing]
      cases hframe : s.replies[reply]? with
      | none => rfl
      | some frame =>
          have hhome := hs.replies frame (List.mem_of_getElem? hframe)
          simp only [Option.map_some, Option.all_some, decide_eq_true_eq]
          exact .inl hhome
  | _ => rfl

theorem Homeward.handle (hs : s.Homeward) {env : AskEnvelope}
    (henv : env.replyTo.getD env.host = env.request.process) : (s.handle env).Homeward where
  handling other hmem := by
    obtain hold | hnew := List.mem_append.mp hmem
    · exact hs.handling other hold
    · obtain rfl := List.mem_singleton.mp hnew
      exact henv
  replies := hs.replies

theorem Homeward.finishAsk (hs : s.Homeward) (process : Process) (id : Nat)
    (payload : List UInt8) (request : AskRequest) :
    (s.finishAsk process id payload request).Homeward := by
  unfold AskNet.finishAsk
  split
  · exact ⟨hs.handling, hs.replies⟩
  · exact hs

theorem Homeward.dispatchReply (hs : s.Homeward) {env : AskEnvelope}
    (henv : env.replyTo.getD env.host = env.request.process) (payload : List UInt8) :
    (s.dispatchReply env payload).Homeward := by
  unfold AskNet.dispatchReply
  cases hto : env.replyTo with
  | none => exact hs.finishAsk _ _ _ _
  | some dest =>
      refine ⟨hs.handling, fun frame hmem => ?_⟩
      obtain hold | hnew := List.mem_append.mp hmem
      · exact hs.replies frame hold
      · obtain rfl := List.mem_singleton.mp hnew
        rw [hto] at henv
        exact henv

theorem Homeward.step {action : AskAction} (hs : s.Homeward)
    (hfresh : action.replays = false) (hstep : s.step action = some next) :
    next.Homeward := by
  cases action with
  | allocMsgId process =>
      obtain rfl := Option.some.inj hstep
      exact ⟨hs.handling, hs.replies⟩
  | askLocal process =>
      obtain rfl := Option.some.inj hstep
      have hprepared : (s.prepareAsk process).Homeward := ⟨hs.handling, hs.replies⟩
      exact hprepared.handle rfl
  | askRemote process =>
      obtain rfl := Option.some.inj hstep
      exact ⟨hs.handling, hs.replies⟩
  | cancelAsk process id =>
      obtain rfl := Option.some.inj hstep
      exact ⟨hs.handling, hs.replies⟩
  | deliver frame host =>
      obtain ⟨request, -, rfl⟩ := Option.map_eq_some_iff.mp hstep
      exact hs.handle rfl
  | postOriginalFrame frame process host => cases hfresh
  | replayReceiver frame host => cases hfresh
  | reply envelope payload =>
      obtain ⟨env, henv, hsent⟩ := Option.bind_eq_some_iff.mp hstep
      obtain ⟨-, hnext⟩ := Option.ite_none_left_eq_some.mp hsent
      obtain rfl := Option.some.inj hnext
      exact hs.dispatchReply (hs.handling env (List.mem_of_getElem? henv)) payload
  | handled envelope =>
      obtain ⟨env, -, rfl⟩ := Option.map_eq_some_iff.mp hstep
      exact ⟨fun other hmem => hs.handling other (List.mem_of_mem_eraseIdx hmem), hs.replies⟩
  | receive reply =>
      obtain ⟨frame, -, rfl⟩ := Option.map_eq_some_iff.mp hstep
      exact hs.finishAsk _ _ _ _

end Steps

section Runs

variable {word more : List AskAction} {s last final : AskNet}

theorem numbered_start : machine.start.Numbered where
  pending process id hmem := by cases hmem
  nodup process := List.nodup_nil
  handling env hmem := by cases hmem
  replies frame hmem := by cases hmem
  answered asked answer hlookup := by cases hlookup

theorem right_start : machine.start.Numbered ∧ machine.start.Right := by
  refine ⟨numbered_start, fun asked request payload hlookup => ?_⟩
  cases hlookup

theorem numbered_of_run (hrun : machine.run word = some last) : last.Numbered :=
  machine.run_preserves numbered_start (fun _ _ _ hs hstep => hs.step hstep) word hrun

theorem Homeward.meets (hs : s.Homeward) (hfresh : ∀ action ∈ word, action.replays = false) :
    machine.MeetsFrom StrayFindsNone s word := by
  induction word generalizing s with
  | nil => trivial
  | cons action rest ih =>
      obtain ⟨hfirst, hrest⟩ := List.forall_mem_cons.mp hfresh
      refine ⟨hs.strayFindsNone action, ?_⟩
      cases hstep : machine.step s action with
      | none => trivial
      | some next => exact ih (hs.step hfirst hstep) hrest

theorem answers_runFrom (hs : s.Numbered) (hrun : machine.runFrom s more = some final)
    {asked : AskRequest} {answer : AskRequest × List UInt8}
    (hlookup : s.answers.lookup asked = some answer) :
    final.answers.lookup asked = some answer := by
  induction more generalizing s with
  | nil =>
      obtain rfl := Option.some.inj hrun
      exact hlookup
  | cons action rest ih =>
      simp only [Machine.runFrom] at hrun
      split at hrun
      · cases hrun
      · rename_i next hstep
        exact ih (hs.step hstep) hrun (answers_kept hs hstep hlookup)

/-- Every ask has the payload for itself just when no reply that strays finds an
ask under its number; replies stray only where the frames of a log are replayed.
What an ask has been given stays so. -/
theorem asks_answered (hrun : machine.run word = some last) :
    (machine.Meets StrayFindsNone word ↔ last.Right) ∧
      ((∀ action ∈ word, action.replays = false) → last.Right) ∧
      ∀ more final, machine.runFrom last more = some final →
        ∀ asked answer, last.answers.lookup asked = some answer →
          final.answers.lookup asked = some answer := by
  have hkeep : ∀ s action next, s.Numbered ∧ s.Right → s.StrayFindsNone action →
      machine.step s action = some next → next.Numbered ∧ next.Right := by
    rintro s action next ⟨hs, hright⟩ hguard hstep
    exact ⟨hs.step hstep, hright.step hs hguard hstep⟩
  have hbreak : ∀ s action next, s.Numbered ∧ s.Right → ¬ s.StrayFindsNone action →
      machine.step s action = some next → next.Numbered ∧ next.Wrong := by
    rintro s action next ⟨hs, -⟩ hguard hstep
    exact ⟨hs.step hstep, wrong_step hs hguard hstep⟩
  have hstays : ∀ s action next, s.Numbered ∧ s.Wrong →
      machine.step s action = some next → next.Numbered ∧ next.Wrong := by
    rintro s action next ⟨hs, asked, request, payload, hlookup, hne⟩ hstep
    exact ⟨hs.step hstep, asked, request, payload, answers_kept hs hstep hlookup, hne⟩
  have hsplit := machine.runFrom_split hkeep hbreak hstays word right_start hrun
  have hiff : machine.Meets StrayFindsNone word ↔ last.Right := by
    refine ⟨fun hmeets => (hsplit.1 hmeets).2, fun hright => ?_⟩
    by_contra hnot
    obtain ⟨-, asked, request, payload, hlookup, hne⟩ := hsplit.2 hnot
    exact hne (hright asked request payload hlookup)
  refine ⟨hiff, fun hfresh => hiff.mp ?_, ?_⟩
  · have hstart : machine.start.Homeward :=
      ⟨fun _ hmem => absurd hmem List.not_mem_nil, fun _ hmem => absurd hmem List.not_mem_nil⟩
    exact hstart.meets hfresh
  · intro more final hmore asked answer hlookup
    exact answers_runFrom (numbered_of_run hrun) hmore hlookup

/-- Node 1 asks an actor of node 2 that is spawned later and then handed the
logged request; meanwhile an actor of node 2 has asked another one. -/
def spawnedLate : List AskAction :=
  [.askRemote ⟨1, 0⟩, .askLocal ⟨2, 0⟩, .replayReceiver 0 ⟨2, 0⟩, .reply 1 [9]]

theorem asks_answered_spawnedLate :
    ∃ last, machine.run spawnedLate = some last ∧ ¬ last.Right := by
  obtain ⟨last, hrun⟩ : ∃ last, machine.run spawnedLate = some last := ⟨_, rfl⟩
  refine ⟨last, hrun, fun hright => ?_⟩
  exact absurd ((asks_answered hrun).1.mpr hright) (by decide)

end Runs

end AskNet

end UltraNet
