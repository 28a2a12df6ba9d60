/-
The accepted connections of a node and their file descriptors.  `write_loop` and
`handle_connection` work with a number that they copied out of `inbound_conn`; another
thread may close the connection meanwhile, and then the kernel may hand out the same
number again.
-/
import UltraNet.Transport

namespace UltraNet

/-- What a number stands for: the socket of an accepted connection, or some other file
of the process. -/
inductive OpenFile where
  | socket (conn : Nat)
  | other
deriving DecidableEq

inductive InboundWriter where
  -- there is no `write_loop`
  | off
  -- it is about to take a batch
  | next
  -- in `write_bytes`, with what it still has to write
  | writing (fd : Nat) (rest : List UInt8)
deriving DecidableEq

inductive InboundReader where
  -- the head of the loop of `handle_connection`
  | head
  -- in `read_frame`
  | reading (fd : Nat)
  -- the message handler runs
  | handling
  | left
deriving DecidableEq

/-- What it has taken and not written. -/
def InboundWriter.unwritten : InboundWriter → List UInt8
  | .writing _ rest => rest
  | .off | .next => []

/-- `inbound_conn`.  `closing` is the number that `close_now` has taken and not closed
yet; `posted` are the frames that `post_frame` queued, and `torn` says that a write has
failed: both are ghosts. -/
structure InboundLink where
  fd : Option Nat
  isOpen : Bool
  frames : List (List UInt8)
  writing : Bool
  writer : InboundWriter
  reader : InboundReader
  closing : Option Nat
  posted : List (List UInt8)
  torn : Bool

/-- The connections in the order in which they were accepted, and the numbers of the
process.  `streams` tells what was written to the socket of each connection and `used`
which file each read and each write of a connection's loops has hit: both are ghosts. -/
structure InboundLinks where
  conns : List InboundLink
  fds : Nat → Option OpenFile
  streams : Nat → List UInt8
  used : List (Nat × OpenFile)

inductive ConnAction where
  | postFrame (frame : List UInt8)
  -- `write_loop`: the locked section, and the result of a `Write`
  | takeBatch
  | write (count : Nat)
  | writeFailed
  -- `handle_connection`: `current_fd`, a `Read`, the end of `read_frame`, and the handler
  | readFrame
  | read
  | frameRead (ok : Bool)
  | handled
  -- `close_now`, of `drop_inbound_connections` or of `handle_connection`: the locked
  -- section, and the close
  | closeNow
  | closeFd
deriving DecidableEq

inductive LinkAction where
  -- `serve`, with the number that the kernel hands out
  | accept (fd : Nat)
  | openOther (fd : Nat)
  | closeOther (fd : Nat)
  | conn (c : Nat) (action : ConnAction)
deriving DecidableEq

namespace InboundLinks

def init : InboundLinks := ⟨[], fun _ => none, fun _ => [], []⟩

def accepted (fd : Nat) : InboundLink := ⟨some fd, true, [], false, .off, .head, none, [], false⟩

def setConn (s : InboundLinks) (c : Nat) (conn : InboundLink) : InboundLinks :=
  { s with conns := s.conns.set c conn }

/-- `inbound_conn::post_frame`; there is a scheduler. -/
def postFrame (conn : InboundLink) (frame : List UInt8) : InboundLink :=
  if !conn.isOpen || conn.fd.isNone then conn
  else
    { conn with
      frames := conn.frames ++ [frame]
      posted := conn.posted ++ [frame]
      writing := true
      writer := if conn.writing then conn.writer else .next }

/-- The locked section of `write_loop`. -/
def takeBatch (conn : InboundLink) : InboundLink :=
  match conn.fd with
  | some fd =>
      if conn.frames = [] ∨ conn.isOpen = false then
        { conn with writing := false, writer := .off }
      else
        { conn with
          frames := []
          writer := .writing fd (conn.frames.foldl appendPrefixedFrame []) }
  | none => { conn with writing := false, writer := .off }

/-- Bytes reach the file that the number stands for. -/
def deliver (s : InboundLinks) (c : Nat) (file : OpenFile) (bytes : List UInt8) : InboundLinks :=
  { s with
    used := s.used ++ [(c, file)]
    streams :=
      match file with
      | .socket d => Function.update s.streams d (s.streams d ++ bytes)
      | .other => s.streams }

def stepConn (s : InboundLinks) (c : Nat) (conn : InboundLink) : ConnAction → Option InboundLinks
  | .postFrame frame => some (s.setConn c (postFrame conn frame))
  | .takeBatch => if conn.writer = .next then some (s.setConn c (takeBatch conn)) else none
  | .write count =>
      match conn.writer with
      | .writing fd rest =>
          match s.fds fd with
          | some file =>
              if 0 < count ∧ count ≤ rest.length then
                some ((s.deliver c file (rest.take count)).setConn c
                  { conn with
                    writer := if rest.drop count = [] then .next
                      else .writing fd (rest.drop count) })
              else none
          | none => none
      | _ => none
  | .writeFailed =>
      match conn.writer with
      | .writing _ _ =>
          some (s.setConn c { conn with writing := false, writer := .off, torn := true })
      | _ => none
  | .readFrame =>
      match conn.reader with
      | .head =>
          some (s.setConn c
            { conn with
              reader := match conn.fd with
                | some fd => if conn.isOpen then .reading fd else .left
                | none => .left })
      | _ => none
  | .read =>
      match conn.reader with
      | .reading fd => (s.fds fd).map fun file => { s with used := s.used ++ [(c, file)] }
      | _ => none
  | .frameRead ok =>
      match conn.reader with
      | .reading _ => some (s.setConn c { conn with reader := if ok then .handling else .left })
      | _ => none
  | .handled =>
      match conn.reader with
      | .handling => some (s.setConn c { conn with reader := .head })
      | _ => none
  | .closeNow =>
      some (s.setConn c
        { conn with
          isOpen := false
          fd := none
          closing := conn.fd.or conn.closing })
  | .closeFd =>
      conn.closing.map fun fd =>
        { s.setConn c { conn with closing := none } with fds := Function.update s.fds fd none }

def step (s : InboundLinks) : LinkAction → Option InboundLinks
  | .accept fd =>
      match s.fds fd with
      | none =>
          some { s with
            conns := s.conns ++ [accepted fd]
            fds := Function.update s.fds fd (some (.socket s.conns.length)) }
      | some _ => none
  | .openOther fd =>
      match s.fds fd with
      | none => some { s with fds := Function.update s.fds fd (some .other) }
      | some _ => none
  | .closeOther fd =>
      match s.fds fd with
      | some .other => some { s with fds := Function.update s.fds fd none }
      | _ => none
  | .conn c action => (s.conns[c]?).bind fun conn => s.stepConn c conn action

def machine : Machine InboundLinks LinkAction := ⟨init, step⟩

end InboundLinks

/-- A loop of the connection works with a number. -/
def InboundLink.Holds (conn : InboundLink) : Prop :=
  (∃ fd rest, conn.writer = .writing fd rest) ∨ ∃ fd, conn.reader = .reading fd

instance (conn : InboundLink) : Decidable conn.Holds := by
  unfold InboundLink.Holds
  cases conn.writer <;> cases conn.reader <;> simp <;> infer_instance

namespace InboundLinks

/-- A number is closed when no loop works with it, and a connection is not written to
again after a write has failed. -/
def CalmConn (conn : InboundLink) : ConnAction → Prop
  | .closeFd => ¬ conn.Holds
  | .write _ => conn.torn = false
  | _ => True

def Calm (s : InboundLinks) : LinkAction → Prop
  | .conn c action => ∀ conn ∈ s.conns[c]?, CalmConn conn action
  | _ => True

instance (conn : InboundLink) (action : ConnAction) : Decidable (CalmConn conn action) := by
  unfold CalmConn
  split <;> infer_instance

instance (s : InboundLinks) (action : LinkAction) : Decidable (s.Calm action) := by
  unfold Calm
  split <;> infer_instance

/-- The numbers of a connection stand for its socket, and the socket has got a part of
what was posted; all of it but for what is queued or being written, as long as no write
has failed. -/
structure LinkOk (fds : Nat → Option OpenFile) (stream : List UInt8) (c : Nat)
    (conn : InboundLink) : Prop where
  fd : ∀ n, conn.fd = some n → fds n = some (.socket c)
  closing : ∀ n, conn.closing = some n → fds n = some (.socket c) ∧ conn.fd = none
  writer : ∀ n rest, conn.writer = .writing n rest → fds n = some (.socket c) ∧ rest ≠ []
  reader : ∀ n, conn.reader = .reading n → fds n = some (.socket c)
  busy : conn.writing = false ↔ conn.writer = .off
  part : stream <+: conn.posted.flatMap prefixed
  whole : conn.torn = false →
    stream ++ conn.writer.unwritten ++ conn.frames.flatMap prefixed = conn.posted.flatMap prefixed

structure Kept (s : InboundLinks) : Prop where
  links : ∀ (c : Nat) (conn : InboundLink), s.conns[c]? = some conn →
    LinkOk s.fds (s.streams c) c conn
  fresh : ∀ c : Nat, s.conns.length ≤ c → s.streams c = []
  own : ∀ use ∈ s.used, use.2 = .socket use.1

variable {s t next : InboundLinks} {c : Nat} {conn conn' : InboundLink}
  {fds fds' : Nat → Option OpenFile} {stream : List UInt8}

/-- Numbers that are still what they were. -/
theorem LinkOk.mono (hok : LinkOk fds stream c conn)
    (hfds : ∀ n, fds n = some (.socket c) → fds' n = some (.socket c)) :
    LinkOk fds' stream c conn := by
  constructor
  · exact fun n hn => hfds n (hok.fd n hn)
  · exact fun n hn => ⟨hfds n (hok.closing n hn).1, (hok.closing n hn).2⟩
  · exact fun n rest hn => ⟨hfds n (hok.writer n rest hn).1, (hok.writer n rest hn).2⟩
  · exact fun n hn => hfds n (hok.reader n hn)
  · exact hok.busy
  · exact hok.part
  · exact hok.whole

/-- One connection does something; the numbers and the streams of the others are left. -/
theorem Kept.update (hs : s.Kept) (hconn : s.conns[c]? = some conn)
    (hconns : t.conns = s.conns.set c conn')
    (hfds : ∀ d, d ≠ c → ∀ n, s.fds n = some (.socket d) → t.fds n = some (.socket d))
    (hstreams : ∀ d, d ≠ c → t.streams d = s.streams d)
    (hok : LinkOk t.fds (t.streams c) c conn') (hown : ∀ use ∈ t.used, use.2 = .socket use.1) :
    t.Kept := by
  have hlt := (List.getElem?_eq_some_iff.mp hconn).1
  constructor
  · intro d other hother
    rw [hconns] at hother
    by_cases hd : d = c
    · subst hd
      rw [List.getElem?_set_self hlt] at hother
      obtain rfl := Option.some.inj hother
      exact hok
    · rw [List.getElem?_set_ne (Ne.symm hd)] at hother
      rw [hstreams d hd]
      exact (hs.links d other hother).mono (hfds d hd)
  · intro d hd
    rw [hconns, List.length_set] at hd
    rw [hstreams d (Nat.ne_of_gt (Nat.lt_of_lt_of_le hlt hd))]
    exact hs.fresh d hd
  · exact hown

theorem Kept.set (hs : s.Kept) (hconn : s.conns[c]? = some conn)
    (hok : LinkOk s.fds (s.streams c) c conn') : (s.setConn c conn').Kept :=
  hs.update hconn rfl (fun _ _ _ hn => hn) (fun _ _ => rfl) hok hs.own

theorem LinkOk.postFrame (hok : LinkOk fds stream c conn) (frame : List UInt8) :
    LinkOk fds stream c (InboundLinks.postFrame conn frame) := by
  unfold InboundLinks.postFrame
  split
  · exact hok
  · have hposted : (conn.posted ++ [frame]).flatMap prefixed =
        conn.posted.flatMap prefixed ++ prefixed frame := by
      rw [List.flatMap_append, List.flatMap_singleton]
    constructor
    · exact hok.fd
    · exact hok.closing
    · intro n rest hwriter
      have hwriter : (if conn.writing then conn.writer else .next) = .writing n rest := hwriter
      split at hwriter
      · exact hok.writer n rest hwriter
      · cases hwriter
    · exact hok.reader
    · apply iff_of_false nofun
      intro hoff
      have hoff : (if conn.writing then conn.writer else .next) = .off := hoff
      split at hoff
      case isTrue hwriting =>
        rw [hok.busy.mpr hoff] at hwriting
        cases hwriting
      case isFalse => cases hoff
    · show stream <+: (conn.posted ++ [frame]).flatMap prefixed
      rw [hposted]
      exact hok.part.trans (List.prefix_append _ _)
    · intro htorn
      have hsame : (if conn.writing then conn.writer else .next).unwritten =
          conn.writer.unwritten := by
        split
        case isTrue => rfl
        case isFalse hidle =>
          rw [hok.busy.mp ((Bool.not_eq_true _).mp hidle)]
          rfl
      show _ ++ (if conn.writing then conn.writer else .next).unwritten ++
        (conn.frames ++ [frame]).flatMap prefixed = (conn.posted ++ [frame]).flatMap prefixed
      rw [hsame, hposted, ← hok.whole htorn, List.flatMap_append, List.flatMap_singleton,
        ← List.append_assoc]

theorem prefixed_ne_nil (frame : List UInt8) : prefixed frame ≠ [] := by
  intro hnil
  have hlength := congrArg List.length hnil
  rw [prefixed, List.length_append, length_leBytes] at hlength
  simp at hlength

/-- A connection whose loop ends. -/
theorem LinkOk.stop (hok : LinkOk fds stream c conn) (hnext : conn.writer = .next) :
    LinkOk fds stream c { conn with writing := false, writer := .off } := by
  constructor
  · exact hok.fd
  · exact hok.closing
  · exact nofun
  · exact hok.reader
  · exact iff_of_true rfl rfl
  · exact hok.part
  · intro htorn
    have hwhole := hok.whole htorn
    rw [hnext] at hwhole
    exact hwhole

theorem LinkOk.takeBatch (hok : LinkOk fds stream c conn) (hnext : conn.writer = .next) :
    LinkOk fds stream c (InboundLinks.takeBatch conn) := by
  have hstop : LinkOk fds stream c { conn with writing := false, writer := .off } :=
    hok.stop hnext
  unfold InboundLinks.takeBatch
  split
  case h_2 => exact hstop
  case h_1 fd hfd =>
    split
    case isTrue => exact hstop
    case isFalse hready =>
      have hframes : conn.frames ≠ [] := fun hnil => hready (.inl hnil)
      have hbatch : conn.frames.foldl appendPrefixedFrame [] = conn.frames.flatMap prefixed := by
        rw [foldl_appendPrefixedFrame, List.nil_append]
      have hbytes : conn.frames.flatMap prefixed ≠ [] := by
        obtain ⟨frame, rest, hcons⟩ := List.exists_cons_of_ne_nil hframes
        rw [hcons, List.flatMap_cons]
        exact List.append_ne_nil_of_left_ne_nil (prefixed_ne_nil frame) _
      rw [hbatch]
      constructor
      · exact hok.fd
      · exact hok.closing
      · intro n rest hwriter
        obtain ⟨rfl, rfl⟩ := InboundWriter.writing.inj hwriter
        exact ⟨hok.fd fd hfd, hbytes⟩
      · exact hok.reader
      · apply iff_of_false
        · intro hidle
          have hoff := hok.busy.mp hidle
          rw [hnext] at hoff
          cases hoff
        · intro hoff
          cases hoff
      · exact hok.part
      · intro htorn
        have hwhole := hok.whole htorn
        rw [hnext] at hwhole
        show stream ++ conn.frames.flatMap prefixed ++ [] = _
        rw [List.append_nil, ← hwhole]
        show _ = stream ++ [] ++ _
        rw [List.append_nil]

/-- Some bytes of the batch are written. -/
theorem LinkOk.write {fd count : Nat} {rest : List UInt8} (hok : LinkOk fds stream c conn)
    (hwriter : conn.writer = .writing fd rest) (htorn : conn.torn = false) :
    LinkOk fds (stream ++ rest.take count) c
      { conn with
        writer := if rest.drop count = [] then .next else .writing fd (rest.drop count) } := by
  have hleft : (if rest.drop count = [] then InboundWriter.next
      else .writing fd (rest.drop count)).unwritten = rest.drop count := by
    split
    case isTrue hdone => rw [hdone]; rfl
    case isFalse => rfl
  have hwhole : stream ++ rest.take count ++ rest.drop count ++ conn.frames.flatMap prefixed =
      conn.posted.flatMap prefixed := by
    rw [List.append_assoc stream, List.take_append_drop, ← hok.whole htorn, hwriter]
    rfl
  constructor
  · exact hok.fd
  · exact hok.closing
  · intro n left hwriting
    have hwriting : (if rest.drop count = [] then InboundWriter.next
        else .writing fd (rest.drop count)) = .writing n left := hwriting
    split at hwriting
    · cases hwriting
    · rename_i hmore
      obtain ⟨rfl, rfl⟩ := InboundWriter.writing.inj hwriting
      exact ⟨(hok.writer _ _ hwriter).1, hmore⟩
  · exact hok.reader
  · apply iff_of_false
    · intro hidle
      have hoff := hok.busy.mp hidle
      rw [hwriter] at hoff
      cases hoff
    · intro hoff
      have hoff : (if rest.drop count = [] then InboundWriter.next
          else .writing fd (rest.drop count)) = .off := hoff
      split at hoff <;> cases hoff
  · rw [← hwhole, List.append_assoc, List.append_assoc]
    exact List.prefix_append_right_inj _ |>.mpr (List.prefix_append _ _)
  · intro _
    show _ ++ (if rest.drop count = [] then InboundWriter.next
      else .writing fd (rest.drop count)).unwritten ++ _ = _
    rw [hleft]
    exact hwhole

/-- The rest of the batch is lost. -/
theorem LinkOk.writeFailed (hok : LinkOk fds stream c conn) :
    LinkOk fds stream c { conn with writing := false, writer := .off, torn := true } :=
  ⟨hok.fd, hok.closing, nofun, hok.reader, iff_of_true rfl rfl, hok.part, nofun⟩

theorem LinkOk.reading {reader : InboundReader} (hok : LinkOk fds stream c conn)
    (hreader : ∀ n, reader = .reading n → conn.fd = some n) :
    LinkOk fds stream c { conn with reader := reader } :=
  ⟨hok.fd, hok.closing, hok.writer, fun n hn => hok.fd n (hreader n hn), hok.busy, hok.part,
    hok.whole⟩

theorem LinkOk.closeNow (hok : LinkOk fds stream c conn) :
    LinkOk fds stream c
      { conn with isOpen := false, fd := none, closing := conn.fd.or conn.closing } := by
  refine ⟨nofun, ?_, hok.writer, hok.reader, hok.busy, hok.part, hok.whole⟩
  intro n hn
  refine ⟨?_, rfl⟩
  rcases Option.or_eq_some_iff.mp hn with hfd | ⟨-, hclosing⟩
  · exact hok.fd n hfd
  · exact (hok.closing n hclosing).1

/-- The number goes back to the kernel. -/
theorem LinkOk.closeFd {fd : Nat} (hok : LinkOk fds stream c conn)
    (hclosing : conn.closing = some fd) (hrest : ¬ conn.Holds) :
    LinkOk fds' stream c { conn with closing := none } := by
  refine ⟨?_, nofun, ?_, ?_, hok.busy, hok.part, hok.whole⟩
  · intro n hn
    rw [(hok.closing fd hclosing).2] at hn
    cases hn
  · intro n rest hwriter
    exact absurd (.inl ⟨n, rest, hwriter⟩) hrest
  · intro n hreader
    exact absurd (.inr ⟨n, hreader⟩) hrest

theorem own_use {use : Nat × OpenFile} {file : OpenFile} (hs : s.Kept)
    (hfile : file = .socket c) (hmem : use ∈ s.used ++ [(c, file)]) : use.2 = .socket use.1 := by
  rcases List.mem_append.mp hmem with hold | hnew
  · exact hs.own use hold
  · obtain rfl := List.mem_singleton.mp hnew
    exact hfile

theorem Kept.stepConn {action : ConnAction} (hs : s.Kept) (hconn : s.conns[c]? = some conn)
    (hcalm : CalmConn conn action) (hstep : s.stepConn c conn action = some next) :
    next.Kept := by
  have hok := hs.links c conn hconn
  cases action with
  | postFrame frame =>
      obtain rfl := Option.some.inj hstep
      exact hs.set hconn (hok.postFrame frame)
  | takeBatch =>
      obtain ⟨hnext, hsome⟩ := Option.ite_none_right_eq_some.mp hstep
      obtain rfl := Option.some.inj hsome
      exact hs.set hconn (hok.takeBatch hnext)
  | write count =>
      simp only [InboundLinks.stepConn] at hstep
      split at hstep <;> try contradiction
      rename_i fd rest hwriter
      split at hstep <;> try contradiction
      rename_i file hfile
      obtain ⟨-, hsome⟩ := Option.ite_none_right_eq_some.mp hstep
      obtain rfl := Option.some.inj hsome
      obtain rfl : file = .socket c :=
        Option.some.inj (hfile.symm.trans (hok.writer fd rest hwriter).1)
      apply hs.update hconn rfl
      · exact fun _ _ _ hn => hn
      · intro d hd
        exact Function.update_of_ne hd _ _
      · have hstream : Function.update s.streams c (s.streams c ++ rest.take count) c =
            s.streams c ++ rest.take count := Function.update_self _ _ _
        show LinkOk s.fds (Function.update s.streams c (s.streams c ++ rest.take count) c) c _
        rw [hstream]
        exact hok.write hwriter hcalm
      · exact fun use hmem => own_use hs rfl hmem
  | writeFailed =>
      simp only [InboundLinks.stepConn] at hstep
      split at hstep <;> try contradiction
      obtain rfl := Option.some.inj hstep
      exact hs.set hconn hok.writeFailed
  | readFrame =>
      simp only [InboundLinks.stepConn] at hstep
      split at hstep <;> try contradiction
      obtain rfl := Option.some.inj hstep
      apply hs.set hconn
      apply hok.reading
      intro n hn
      split at hn
      case h_1 fd hfd =>
        split at hn
        · obtain rfl := InboundReader.reading.inj hn
          exact hfd
        · cases hn
      case h_2 => cases hn
  | read =>
      simp only [InboundLinks.stepConn] at hstep
      split at hstep <;> try contradiction
      rename_i fd hreader
      obtain ⟨file, hfile, rfl⟩ := Option.map_eq_some_iff.mp hstep
      obtain rfl : file = .socket c := Option.some.inj (hfile.symm.trans (hok.reader fd hreader))
      exact ⟨hs.links, hs.fresh, fun use hmem => own_use hs rfl hmem⟩
  | frameRead ok =>
      simp only [InboundLinks.stepConn] at hstep
      split at hstep <;> try contradiction
      obtain rfl := Option.some.inj hstep
      apply hs.set hconn
      apply hok.reading
      intro n hn
      split at hn <;> cases hn
  | handled =>
      simp only [InboundLinks.stepConn] at hstep
      split at hstep <;> try contradiction
      obtain rfl := Option.some.inj hstep
      apply hs.set hconn
      apply hok.reading
      intro n hn
      cases hn
  | closeNow =>
      obtain rfl := Option.some.inj hstep
      exact hs.set hconn hok.closeNow
  | closeFd =>
      obtain ⟨fd, hclosing, rfl⟩ := Option.map_eq_some_iff.mp hstep
      have hsocket := (hok.closing fd hclosing).1
      apply hs.update hconn rfl
      · intro d hd n hn
        have hne : n ≠ fd := by
          rintro rfl
          exact hd (OpenFile.socket.inj (Option.some.inj (hn.symm.trans hsocket)))
        show Function.update s.fds fd none n = some (.socket d)
        rw [Function.update_of_ne hne]
        exact hn
      · exact fun _ _ => rfl
      · exact hok.closeFd hclosing hcalm
      · exact hs.own

/-- The kernel hands out a number that is free. -/
theorem Kept.setFd {fd : Nat} {file : Option OpenFile} (hs : s.Kept)
    (hfree : ∀ d, s.fds fd ≠ some (.socket d)) :
    ({ s with fds := Function.update s.fds fd file } : InboundLinks).Kept := by
  refine ⟨?_, hs.fresh, hs.own⟩
  intro c conn hconn
  apply (hs.links c conn hconn).mono
  intro n hn
  have hne : n ≠ fd := by
    rintro rfl
    exact hfree c hn
  show Function.update s.fds fd file n = some (.socket c)
  rw [Function.update_of_ne hne]
  exact hn

theorem Kept.accept {fd : Nat} (hs : s.Kept) (hfree : s.fds fd = none) :
    ({ s with
      conns := s.conns ++ [accepted fd]
      fds := Function.update s.fds fd (some (.socket s.conns.length)) } : InboundLinks).Kept := by
  have hold : ({ s with
      fds := Function.update s.fds fd (some (.socket s.conns.length)) } : InboundLinks).Kept := by
    apply hs.setFd
    intro d hd
    rw [hfree] at hd
    cases hd
  constructor
  · intro c conn hconn
    have hconn : (s.conns ++ [accepted fd])[c]? = some conn := hconn
    rw [List.getElem?_append] at hconn
    split at hconn
    case isTrue => exact hold.links c conn hconn
    case isFalse hlength =>
      obtain ⟨hzero, hnew⟩ := List.getElem?_eq_some_iff.mp hconn
      rw [List.length_singleton] at hzero
      obtain rfl : c = s.conns.length := by omega
      rw [List.getElem_singleton] at hnew
      subst hnew
      have hempty : s.streams s.conns.length = [] := hs.fresh _ le_rfl
      show LinkOk _ (s.streams s.conns.length) _ _
      rw [hempty]
      refine ⟨?_, nofun, nofun, nofun, iff_of_true rfl rfl, List.nil_prefix, fun _ => rfl⟩
      intro n hn
      obtain rfl := Option.some.inj hn
      exact Function.update_self _ _ _
  · intro c hc
    have hc : (s.conns ++ [accepted fd]).length ≤ c := hc
    rw [List.length_append] at hc
    exact hs.fresh c (Nat.le_of_succ_le hc)
  · exact hs.own

theorem Kept.step {action : LinkAction} (hs : s.Kept) (hcalm : s.Calm action)
    (hstep : s.step action = some next) : next.Kept := by
  cases action with
  | accept fd =>
      simp only [InboundLinks.step] at hstep
      split at hstep <;> try contradiction
      rename_i hfree
      obtain rfl := Option.some.inj hstep
      exact hs.accept hfree
  | openOther fd =>
      simp only [InboundLinks.step] at hstep
      split at hstep <;> try contradiction
      rename_i hfree
      obtain rfl := Option.some.inj hstep
      apply hs.setFd
      rw [hfree]
      exact nofun
  | closeOther fd =>
      simp only [InboundLinks.step] at hstep
      split at hstep <;> try contradiction
      rename_i hother
      obtain rfl := Option.some.inj hstep
      apply hs.setFd
      rw [hother]
      exact nofun
  | conn c action =>
      obtain ⟨conn, hconn, hstep⟩ := Option.bind_eq_some_iff.mp hstep
      exact hs.stepConn hconn (hcalm conn hconn) hstep

theorem kept_of_run (word : List LinkAction) {last : InboundLinks}
    (hmeets : machine.Meets Calm word) (hrun : machine.run word = some last) : last.Kept := by
  have hstart : init.Kept := ⟨nofun, fun _ _ => rfl, nofun⟩
  have hstep : ∀ (s : InboundLinks) (action : LinkAction) (next : InboundLinks), s.Kept →
      s.Calm action → machine.step s action = some next → next.Kept :=
    fun _ _ _ hs hcalm hstep => hs.step hcalm hstep
  exact machine.run_invariant hstart hstep word hmeets hrun

/-- The number of a connection whose batch is being written is closed and handed out
again, and the next write takes `count` bytes. -/
def reusedFd (c fd count : Nat) : List LinkAction :=
  [.conn c .closeFd, .accept fd, .conn c (.write count)]

/-- What is left of the batch then goes to the new connection. -/
theorem Kept.reused {fd count : Nat} {rest : List UInt8} (hs : s.Kept)
    (hconn : s.conns[c]? = some conn) (hclosing : conn.closing = some fd)
    (hwriter : conn.writer = .writing fd rest) (hcount : 0 < count ∧ count ≤ rest.length) :
    ∃ last, machine.runFrom s (reusedFd c fd count) = some last ∧
      last.conns[s.conns.length]? = some (accepted fd) ∧
      last.streams s.conns.length = rest.take count := by
  have hlt := (List.getElem?_eq_some_iff.mp hconn).1
  obtain ⟨s₁, hs₁⟩ : ∃ s₁ : InboundLinks, s₁ =
    { s.setConn c { conn with closing := none } with fds := Function.update s.fds fd none } :=
    ⟨_, rfl⟩
  obtain ⟨s₂, hs₂⟩ : ∃ s₂ : InboundLinks, s₂ =
    { s₁ with
      conns := s₁.conns ++ [accepted fd]
      fds := Function.update s₁.fds fd (some (.socket s₁.conns.length)) } := ⟨_, rfl⟩
  have hlength : s₁.conns.length = s.conns.length := by
    rw [hs₁]
    exact List.length_set
  have hclose : s.step (.conn c .closeFd) = some s₁ := by
    simp only [InboundLinks.step, hconn, Option.bind_some, InboundLinks.stepConn, hclosing,
      Option.map_some, hs₁]
  have hfree : s₁.fds fd = none := by
    rw [hs₁]
    exact Function.update_self _ _ _
  have haccept : s₁.step (.accept fd) = some s₂ := by
    simp only [InboundLinks.step, hfree, hs₂]
  have hagain : s₂.conns[c]? = some { conn with closing := none } := by
    have hset : s₁.conns[c]? = some { conn with closing := none } := by
      rw [hs₁]
      exact List.getElem?_set_self hlt
    rw [hs₂]
    exact (List.getElem?_append_left (hlength ▸ hlt)).trans hset
  have hfd : s₂.fds fd = some (.socket s.conns.length) := by
    rw [hs₂, ← hlength]
    exact Function.update_self _ _ _
  obtain ⟨s₃, hs₃⟩ : ∃ s₃ : InboundLinks, s₃ =
    (s₂.deliver c (.socket s.conns.length) (rest.take count)).setConn c
      { conn with
        closing := none
        writer := if rest.drop count = [] then .next else .writing fd (rest.drop count) } :=
    ⟨_, rfl⟩
  have hwrite : s₂.step (.conn c (.write count)) = some s₃ := by
    simp only [InboundLinks.step, hagain, Option.bind_some, InboundLinks.stepConn, hwriter, hfd]
    rw [if_pos hcount, hs₃]
  refine ⟨s₃, ?_, ?_, ?_⟩
  · simp only [reusedFd, Machine.runFrom, machine, hclose, haccept, hwrite]
  · have hne : c ≠ s.conns.length := Nat.ne_of_lt hlt
    rw [hs₃]
    show (s₂.conns.set c _)[s.conns.length]? = _
    rw [List.getElem?_set_ne hne, hs₂, ← hlength]
    exact List.getElem?_concat_length
  · have hempty : s₂.streams s.conns.length = [] := by
      rw [hs₂, hs₁]
      exact hs.fresh _ le_rfl
    rw [hs₃]
    show Function.update s₂.streams _ (s₂.streams _ ++ rest.take count) _ = _
    rw [Function.update_self, hempty, List.nil_append]

/-- In every run in which no number is closed while a loop of its connection works with it,
and no connection is written to after a write has failed, the loops only touch the socket of
their own connection and the peer gets whole frames in the order in which they were posted,
up to where the stream ends.  From any state so reached, closing a connection whose batch is
being written can give the rest of the batch, or as much of it as one write takes, to the
next one that is accepted. -/
theorem inbound_streams (word : List LinkAction) {last : InboundLinks}
    (hmeets : machine.Meets Calm word) (hrun : machine.run word = some last) :
    (∀ use ∈ last.used, use.2 = .socket use.1) ∧
      (∀ (c : Nat) (conn : InboundLink), last.conns[c]? = some conn →
        last.streams c <+: conn.posted.flatMap prefixed ∧
          (conn.torn = false → conn.writer.unwritten = [] → conn.frames = [] →
            last.streams c = conn.posted.flatMap prefixed)) ∧
      ∀ (c fd : Nat) (conn : InboundLink) (rest : List UInt8), last.conns[c]? = some conn →
        conn.closing = some fd → conn.writer = .writing fd rest →
          rest ≠ [] ∧ ∀ count, 0 < count ∧ count ≤ rest.length →
            ∃ other, machine.runFrom last (reusedFd c fd count) = some other ∧
              other.conns[last.conns.length]? = some (accepted fd) ∧
              other.streams last.conns.length = rest.take count := by
  have hs := kept_of_run word hmeets hrun
  refine ⟨hs.own, ?_, ?_⟩
  · intro c conn hconn
    have hok := hs.links c conn hconn
    refine ⟨hok.part, fun htorn hunwritten hframes => ?_⟩
    have hwhole := hok.whole htorn
    rw [hunwritten, hframes, List.append_nil] at hwhole
    rw [← hwhole]
    exact (List.append_nil _).symm
  · intro c fd conn rest hconn hclosing hwriter
    have hrest := (hs.links c conn hconn).writer fd rest hwriter |>.2
    exact ⟨hrest, fun count hcount => hs.reused hconn hclosing hwriter hcount⟩

/-- Two frames are posted, the first one is written in two pieces, and the connection is
dropped while the second one is under way. -/
def droppedWhileWriting : List LinkAction :=
  [.accept 5, .conn 0 .readFrame, .conn 0 (.postFrame [7]), .conn 0 .takeBatch,
    .conn 0 (.write 2), .conn 0 (.postFrame [8, 9]), .conn 0 (.write 3), .conn 0 .takeBatch,
    .conn 0 (.write 4), .conn 0 .closeNow]

set_option maxRecDepth 100000 in
theorem inbound_streams_droppedWhileWriting :
    ∃ last other, machine.run droppedWhileWriting = some last ∧
      machine.runFrom last (reusedFd 0 5 2) = some other ∧
      last.streams 0 = [1, 0, 0, 0, 7, 2, 0, 0, 0] ∧ other.streams 1 = [8, 9] := by
  have hend : (machine.run droppedWhileWriting).map (fun last =>
      (last.streams 0, last.conns.length, last.conns[0]?.map fun conn =>
        (conn.closing, conn.writer))) =
      some ([1, 0, 0, 0, 7, 2, 0, 0, 0], 1, some (some 5, .writing 5 [8, 9])) := by
    decide
  have hmeets : machine.Meets Calm droppedWhileWriting := by decide
  obtain ⟨last, hrun, hlast⟩ := Option.map_eq_some_iff.mp hend
  obtain ⟨hstream, hlength, hconn⟩ : _ ∧ _ ∧ _ := by simpa only [Prod.mk.injEq] using hlast
  obtain ⟨conn, hzero, hwriter⟩ := Option.map_eq_some_iff.mp hconn
  obtain ⟨hclosing, hwriter⟩ := Prod.mk.inj hwriter
  obtain ⟨-, -, hreused⟩ := inbound_streams droppedWhileWriting hmeets hrun
  obtain ⟨other, hother, -, hgot⟩ :=
    (hreused 0 5 conn [8, 9] hzero hclosing hwriter).2 2 (by decide)
  rw [hlength] at hgot
  exact ⟨last, other, hrun, hother, hstream, hgot⟩

end InboundLinks

end UltraNet
