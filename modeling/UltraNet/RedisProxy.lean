/-
`proxy_session` of the Redis proxy: each command in the client's buffer is
forwarded, and its reply read and relayed before the next one is looked at.
-/
import UltraNet.Collect
import UltraNet.RespValue

namespace UltraNet

/-- What happens outside of the session: the reads from the backend while the
reply to each command is awaited, and what the writes answer.  A write fails, or
takes one byte more than the number given, or all that there is. -/
structure RedisPeers where
  reads : Nat → List (List UInt8)
  writes : Nat → Option Nat

def RedisPeers.answers (peers : RedisPeers) : WriteAnswers := fun count =>
  match peers.writes count with
  | none => .error eIO
  | some taken => .ok (taken + 1)

/-- `commands` and `count` are the number of commands forwarded and of writes.
`toBackend` and `toClient` are what was written. -/
structure RedisSession where
  backendBuf : List UInt8
  commands : Nat
  count : Nat
  toBackend : List UInt8
  toClient : List UInt8

namespace RedisSession

def init : RedisSession := ⟨[], 0, 0, [], []⟩

/-- The loop around `detect_response`: the reply and the rest of the buffer.  A
read of no bytes, or none, is a backend that has disconnected. -/
def readReply : List (List UInt8) → List UInt8 → Option (List UInt8 × List UInt8)
  | reads, backendBuf =>
      match detectResponse backendBuf with
      | consumed + 1 =>
          some (backendBuf.take (consumed + 1), backendBuf.drop (consumed + 1))
      | 0 =>
          match reads with
          | [] => none
          | chunk :: reads =>
              if chunk = [] then none else readReply reads (backendBuf ++ chunk)

/-- Forwards one command and relays its reply; false is `co_return`. -/
def forwardCommand (peers : RedisPeers) (s : RedisSession) (forwarded : List UInt8) :
    Bool × RedisSession :=
  match writeComplete peers.answers forwarded s.count with
  | (sent, some _, count) =>
      (false, { s with toBackend := s.toBackend ++ sent, count := count })
  | (sent, none, count) =>
      let s := { s with toBackend := s.toBackend ++ sent, count := count }
      match readReply (peers.reads s.commands) s.backendBuf with
      | none => (false, s)
      | some (reply, rest) =>
          match writeComplete peers.answers reply s.count with
          | (sent, some _, count) =>
              (false, { s with toClient := s.toClient ++ sent, count := count })
          | (sent, none, count) =>
              (true, { s with
                backendBuf := rest
                commands := s.commands + 1
                toClient := s.toClient ++ sent
                count := count })

/-- The loop over the commands in `client_buf`. -/
def processBuffer (peers : RedisPeers) (clientBuf : List UInt8) (s : RedisSession) :
    Bool × List UInt8 × RedisSession :=
  if clientBuf = [] then (true, [], s)
  else
    match nextCommand clientBuf with
    | none => (true, clientBuf, s)
    | some (_, 0) => (true, clientBuf, s)
    | some (forwarded, consumed + 1) =>
        match s.forwardCommand peers forwarded with
        | (false, s) => (false, clientBuf, s)
        | (true, s) => processBuffer peers (clientBuf.drop (consumed + 1)) s
termination_by clientBuf.length
decreasing_by
  have := List.length_pos_iff.mpr ‹_›
  rw [List.length_drop]
  omega

/-- The loop over the reads from the client, which ends with an empty one. -/
def proxySession (peers : RedisPeers) :
    List (List UInt8) → List UInt8 → RedisSession →
      Bool × List UInt8 × RedisSession
  | [], clientBuf, s => (true, clientBuf, s)
  | bytes :: reads, clientBuf, s =>
      if bytes = [] then (true, clientBuf, s)
      else
        match s.processBuffer peers (clientBuf ++ bytes) with
        | (false, clientBuf, s) => (false, clientBuf, s)
        | (true, clientBuf, s) => proxySession peers reads clientBuf s

/-- The reply that the backend sends is read to its end. -/
theorem readReply_wire {value : RespValue} (hvalid : value.WellFormed)
    {reads : List (List UInt8)} {backendBuf : List UInt8}
    (hreads : ∀ chunk ∈ reads, chunk ≠ [])
    (hstream : backendBuf ++ reads.flatten = value.wire) :
    readReply reads backendBuf = some (value.wire, []) := by
  induction reads generalizing backendBuf with
  | nil =>
      rw [List.flatten_nil, List.append_nil] at hstream
      have hfound := RespValue.detect_wire hvalid.legal []
      rw [List.append_nil, ← hstream] at hfound
      rw [readReply]
      split
      · rename_i consumed hconsumed
        have hsize : consumed + 1 = backendBuf.length := hconsumed.symm.trans hfound
        rw [hsize, List.take_length, List.drop_length, hstream]
      · rename_i hzero
        have := value.wire_length_pos
        rw [← hstream] at this
        omega
  | cons chunk reads ih =>
      have hchunk := hreads chunk List.mem_cons_self
      have hnone := RespValue.detect_part hvalid.legal hstream (by simp [hchunk])
      rw [readReply, hnone]
      simp only [if_neg hchunk]
      refine ih (fun other hother => hreads other (List.mem_cons_of_mem _ hother)) ?_
      rw [List.append_assoc, ← List.flatten_cons, hstream]

/-- The backend answers every command with a value, in reads that are not empty,
and no write fails. -/
structure Answers (peers : RedisPeers) (values : Nat → RespValue) : Prop where
  wellFormed : ∀ k, (values k).WellFormed
  nonempty : ∀ k, ∀ chunk ∈ peers.reads k, chunk ≠ []
  stream : ∀ k, (peers.reads k).flatten = (values k).wire
  writes : ∀ count, peers.writes count ≠ none

variable {peers : RedisPeers} {values : Nat → RespValue} {s : RedisSession}

theorem Answers.shortWrites (hanswers : Answers peers values) :
    ShortWrites peers.answers := by
  intro count
  obtain ⟨taken, htaken⟩ := Option.ne_none_iff_exists'.mp (hanswers.writes count)
  exact ⟨taken, by rw [RedisPeers.answers, htaken]⟩

/-- A command is forwarded, and its reply relayed. -/
theorem forwardCommand_eq (hanswers : Answers peers values)
    (hempty : s.backendBuf = []) (forwarded : List UInt8) :
    ∃ count, s.forwardCommand peers forwarded = (true, {
      backendBuf := []
      commands := s.commands + 1
      count := count
      toBackend := s.toBackend ++ forwarded
      toClient := s.toClient ++ (values s.commands).wire }) := by
  obtain ⟨first, hfirst⟩ := writeComplete_eq hanswers.shortWrites forwarded s.count
  obtain ⟨last, hlast⟩ := writeComplete_eq hanswers.shortWrites
    (values s.commands).wire first
  have hreply : readReply (peers.reads s.commands) [] =
      some ((values s.commands).wire, []) := by
    refine readReply_wire (hanswers.wellFormed _) (hanswers.nonempty _) ?_
    rw [List.nil_append, hanswers.stream]
  refine ⟨last, ?_⟩
  unfold forwardCommand
  rw [hfirst, hempty]
  simp only [hreply, hlast]

/-- The replies to a number of commands from a given one on. -/
def replies (values : Nat → RespValue) (first size : Nat) : List UInt8 :=
  (List.range' first size).flatMap fun k => (values k).wire

theorem replies_succ (values : Nat → RespValue) (first size : Nat) :
    replies values first (size + 1) =
      (values first).wire ++ replies values (first + 1) size := by
  rw [replies, List.range'_succ, List.flatMap_cons]
  rfl

theorem replies_add (values : Nat → RespValue) (first size more : Nat) :
    replies values first (size + more) =
      replies values first size ++ replies values (first + size) more := by
  rw [replies, ← List.range'_append_1, List.flatMap_append]
  rfl

theorem unchanged (hempty : s.backendBuf = []) :
    s = {
      backendBuf := []
      commands := s.commands + 0
      count := s.count
      toBackend := s.toBackend ++ []
      toClient := s.toClient ++ replies values s.commands 0 } := by
  obtain ⟨backendBuf, commands, count, toBackend, toClient⟩ := s
  obtain rfl := hempty
  simp [replies]

/-- The commands that are in the buffer as a whole are forwarded. -/
theorem processBuffer_commands (hanswers : Answers peers values)
    {commands : List RespCommand} (hvalid : ∀ command ∈ commands, command.WellFormed)
    {data more : List UInt8} (hempty : s.backendBuf = [])
    (hstream : data ++ more = commands.flatMap RespCommand.wire) :
    ∃ done rest left count, commands = done ++ rest ∧
      left ++ more = rest.flatMap RespCommand.wire ∧ (more = [] → rest = []) ∧
      s.processBuffer peers data = (true, left, {
        backendBuf := []
        commands := s.commands + done.length
        count := count
        toBackend := s.toBackend ++ done.flatMap RespCommand.forwarded
        toClient := s.toClient ++ replies values s.commands done.length }) := by
  induction commands generalizing data s with
  | nil =>
      obtain ⟨rfl, rfl⟩ := List.append_eq_nil_iff.mp hstream
      refine ⟨[], [], [], s.count, rfl, rfl, fun _ => rfl, ?_⟩
      rw [processBuffer, if_pos rfl]
      exact congrArg _ (congrArg _ (unchanged hempty))
  | cons command commands ih =>
      obtain ⟨_, _, tail, hcons, hdata, hnext, htail⟩ | ⟨hnone, hend⟩ :=
        nextCommand_stream hvalid hstream
      · obtain ⟨rfl, rfl⟩ := List.cons.inj hcons
        have hnonempty := RespCommand.wire_nonempty
            (hvalid command List.mem_cons_self)
        obtain ⟨count, hforward⟩ := forwardCommand_eq hanswers hempty
            command.forwarded
        obtain ⟨done, rest, left, last, hcommands, hleft, hrest, hprocess⟩ := ih
          (s := ⟨[], s.commands + 1, count, s.toBackend ++ command.forwarded,
            s.toClient ++ (values s.commands).wire⟩)
          (fun other hother => hvalid other
            (List.mem_cons_of_mem _ hother)) rfl htail
        refine ⟨command :: done, rest, left, last, ?_, hleft, hrest, ?_⟩
        · rw [hcommands, List.cons_append]
        · obtain ⟨size, hsize⟩ := Nat.exists_eq_succ_of_ne_zero
            (List.length_pos_iff.mpr hnonempty).ne'
          have hdrop : data.drop (size + 1) = tail := by
            rw [← Nat.succ_eq_add_one, ← hsize, hdata, List.drop_left]
          rw [processBuffer, if_neg (by simp [hdata, hnonempty]), hnext, hsize]
          simp only [hforward, hdrop, hprocess, List.length_cons, List.flatMap_cons,
            List.append_assoc, replies_succ, Nat.add_assoc, Nat.add_comm 1]
      · refine ⟨[], command :: commands, data, s.count, rfl, hstream, hend, ?_⟩
        rw [processBuffer]
        split
        · rename_i hdata
          rw [hdata]
          exact congrArg _ (congrArg _ (unchanged hempty))
        · rename_i hdata
          rw [hnone hdata]
          exact congrArg _ (congrArg _ (unchanged hempty))

/-- Over all reads, the commands of the stream. -/
theorem proxySession_commands (hanswers : Answers peers values)
    {commands : List RespCommand} (hvalid : ∀ command ∈ commands, command.WellFormed)
    {reads : List (List UInt8)} {clientBuf : List UInt8}
    (hreads : ∀ bytes ∈ reads, bytes ≠ []) (hempty : s.backendBuf = [])
    (hopen : reads = [] → commands = [])
    (hstream : clientBuf ++ reads.flatten = commands.flatMap RespCommand.wire) :
    ∃ count, s.proxySession peers reads clientBuf = (true, [], {
      backendBuf := []
      commands := s.commands + commands.length
      count := count
      toBackend := s.toBackend ++ commands.flatMap RespCommand.forwarded
      toClient := s.toClient ++ replies values s.commands commands.length }) := by
  induction reads generalizing commands clientBuf s with
  | nil =>
      obtain rfl := hopen rfl
      have hnil : clientBuf = [] := by simpa using hstream
      refine ⟨s.count, ?_⟩
      rw [proxySession, hnil]
      exact congrArg _ (congrArg _ (unchanged hempty))
  | cons bytes reads ih =>
      rw [List.flatten_cons, ← List.append_assoc] at hstream
      obtain ⟨done, rest, left, count, rfl, hleft, hrest, hprocess⟩ :=
        processBuffer_commands hanswers hvalid hempty hstream
      obtain ⟨last, hlast⟩ := ih
        (s := ⟨[], s.commands + done.length, count,
          s.toBackend ++ done.flatMap RespCommand.forwarded,
          s.toClient ++ replies values s.commands done.length⟩)
        (fun command hcommand => hvalid command (List.mem_append_right _ hcommand))
        (fun other hother => hreads other (List.mem_cons_of_mem _ hother)) rfl
        (fun hnil => hrest (by rw [hnil, List.flatten_nil])) hleft
      refine ⟨last, ?_⟩
      rw [proxySession, if_neg (hreads bytes List.mem_cons_self), hprocess]
      simp only [hlast, List.length_append, List.flatMap_append, List.append_assoc,
        replies_add, Nat.add_assoc]

end RedisSession

/-- The backend gets the commands of the client's stream in order, and the
client the replies to them, however the stream and the replies are cut into
reads and whatever the writes take. -/
theorem commands_relayed {peers : RedisPeers} {values : Nat → RespValue}
    (hanswers : RedisSession.Answers peers values) {commands : List RespCommand}
    (hvalid : ∀ command ∈ commands, command.WellFormed)
    {reads : List (List UInt8)} (hreads : ∀ bytes ∈ reads, bytes ≠ [])
    (hstream : reads.flatten = commands.flatMap RespCommand.wire) :
    ∃ last, RedisSession.proxySession peers reads [] .init = (true, [], last) ∧
      last.toBackend = commands.flatMap RespCommand.forwarded ∧
      last.toClient =
        (List.range commands.length).flatMap fun k => (values k).wire := by
  have hopen : reads = [] → commands = [] := by
    rintro rfl
    cases commands with
    | nil => rfl
    | cons command commands =>
        have hnonempty := RespCommand.wire_nonempty
            (hvalid command List.mem_cons_self)
        rw [List.flatten_nil, List.flatMap_cons] at hstream
        exact absurd (List.append_eq_nil_iff.mp hstream.symm).1 hnonempty
  have hwhole : [] ++ reads.flatten = commands.flatMap RespCommand.wire := by
    rw [List.nil_append, hstream]
  obtain ⟨count, hsession⟩ := RedisSession.proxySession_commands (s := .init)
    hanswers hvalid hreads rfl hopen hwhole
  refine ⟨_, hsession, List.nil_append _, ?_⟩
  rw [List.range_eq_range']
  rfl

/-- `PING` as an array and `GET  a` as a line. -/
def pingGet : List RespCommand :=
  [.array (ascii "1") [(ascii "4", ascii "PING")], .inline (ascii "GET  a")]

/-- The replies `PONG` and an array of a string and nothing. -/
def pongArray : Nat → RespValue
  | 0 => .text .simple (ascii "PONG")
  | _ => .array (ascii "2") [.bulk (ascii "2") (ascii "hi"), .nullBulk]

def pongPeers : RedisPeers :=
  ⟨fun
    | 0 => [ascii "+PONG\r", ascii "\n"]
    | _ => [ascii "*2\r\n$2\r\nh", ascii "i\r\n$-", ascii "1\r\n"],
    fun count => some count⟩

set_option maxRecDepth 100000 in
theorem commands_relayed_cut :
    ∃ last, RedisSession.proxySession pongPeers
        [ascii "*1\r\n$4\r\nPI", ascii "NG\r\nGET  a\r", ascii "\n"] [] .init =
          (true, [], last) ∧
      last.toBackend =
        ascii "*1\r\n$4\r\nPING\r\n*2\r\n$3\r\nGET\r\n$1\r\na\r\n" ∧
      last.toClient = ascii "+PONG\r\n*2\r\n$2\r\nhi\r\n$-1\r\n" := by
  have hanswers : RedisSession.Answers pongPeers pongArray := by
    refine ⟨?_, ?_, ?_, fun count => by simp [pongPeers]⟩
    · intro k
      cases k with
      | zero => exact ⟨by decide, by decide⟩
      | succ k =>
          refine ⟨⟨by decide, by decide, by decide⟩, ?_, trivial, trivial⟩
          exact ⟨by decide, by decide, by decide⟩
    · intro k
      cases k with
      | zero => decide
      | succ k =>
          change ∀ chunk ∈ [ascii "*2\r\n$2\r\nh", ascii "i\r\n$-", ascii "1\r\n"],
            chunk ≠ []
          decide
    · intro k
      cases k with
      | zero => decide
      | succ k =>
          change [ascii "*2\r\n$2\r\nh", ascii "i\r\n$-", ascii "1\r\n"].flatten =
            (RespValue.array (ascii "2")
              [.bulk (ascii "2") (ascii "hi"), .nullBulk]).wire
          decide
  have hvalid : ∀ command ∈ pingGet, command.WellFormed := by
    intro command hcommand
    simp only [pingGet, List.mem_cons, List.not_mem_nil, or_false] at hcommand
    rcases hcommand with rfl | rfl
    · refine ⟨⟨by decide, by decide, by decide⟩, ?_⟩
      intro arg harg
      obtain rfl := List.mem_singleton.mp harg
      exact ⟨by decide, by decide, by decide⟩
    · exact ⟨by decide, by decide, by decide⟩
  have hreads : ∀ bytes ∈ [ascii "*1\r\n$4\r\nPI", ascii "NG\r\nGET  a\r",
      ascii "\n"], bytes ≠ [] := by
    decide
  obtain ⟨last, hsession, hbackend, hclient⟩ :=
    commands_relayed hanswers hvalid hreads (by decide)
  refine ⟨last, hsession, ?_, ?_⟩
  · rw [hbackend]
    decide
  · rw [hclient]
    decide

end UltraNet
