/-
A lookup over the name servers, one after the other until one of them has
something: what it ends with, and that it leaves no socket open on the way.
-/
import Mathlib.Data.List.Basic
import UltraNet.DnsMessages
import UltraNet.DnsQueries

namespace UltraNet

namespace Dns

section Servers

/-- `line.substr(pos)` of a line that names a server. -/
def nameserver (line : List UInt8) : Option (List UInt8) :=
  if ascii "nameserver" <+: line then
    let address := (line.drop 10).dropWhile fun byte => byte = 32 ∨ byte = 9
    if address = [] then none else some address
  else none

/-- `read_nameservers` over the text of the file, if it can be opened. -/
def readNameservers (conf : Option (List UInt8)) : List (List UInt8) :=
  let listed := ((conf.getD []).splitOn 10).filterMap nameserver
  (if listed = [] then [ascii "8.8.8.8", ascii "1.1.1.1"] else listed) ++ [ascii "8.8.8.8"]

/-- How the kernel and the network treat one round of the loop over the servers. -/
structure Exchange where
  socket : Option Nat
  connected : Bool
  wrote : Option Nat
  data : Option (List UInt8)

/-- What the loop does with its sockets. -/
inductive SocketAct
  | opened (fd : Nat)
  | written (fd : Nat) (bytes : List UInt8)
  | closed (fd : Nat)

variable {α : Type}

/-- One round: the socket is closed before the response is looked at, of which
512 bytes are read. -/
def askServer (query : List UInt8) (read : List UInt8 → Option (List α))
    (exchange : Exchange) : Option (List SocketAct × List α) :=
  match exchange.socket with
  | none => some ([], [])
  | some fd =>
      if exchange.connected = false then some ([.opened fd, .closed fd], [])
      else if exchange.wrote ≠ some query.length then
        some ([.opened fd, .written fd query, .closed fd], [])
      else
        match exchange.data with
        | none => some ([.opened fd, .written fd query, .closed fd], [])
        | some data =>
            (read (data.take 512)).map fun found =>
              ([.opened fd, .written fd query, .closed fd], found)

/-- The loop over the servers. -/
def askServers (query : List UInt8) (read : List UInt8 → Option (List α)) :
    List Exchange → Option (List SocketAct × List α)
  | [] => some ([], [])
  | exchange :: exchanges =>
      match askServer query read exchange with
      | none => none
      | some (acts, []) =>
          (askServers query read exchanges).map fun rest => (acts ++ rest.1, rest.2)
      | some (acts, found) => some (acts, found)

/-- The rounds that the loop would make: one for each server. -/
def exchanges (conf : Option (List UInt8)) (net : Nat → List UInt8 → Exchange) :
    List Exchange :=
  (readNameservers conf).zipIdx.map fun server => net server.2 server.1

/-- `resolve_host` with a query that fits its buffer. -/
def lookupHost (fuel : Nat) (conf : Option (List UInt8))
    (net : Nat → List UInt8 → Exchange) (query : List UInt8) :
    Option (List SocketAct × List (List UInt8)) :=
  askServers query (resolveHost fuel) (exchanges conf net)

/-- `resolve_srv` with a query that fits its buffer. -/
def lookupSrv (fuel : Nat) (conf : Option (List UInt8))
    (net : Nat → List UInt8 → Exchange) (query : List UInt8) :
    Option (List SocketAct × List SrvRecord) :=
  askServers query (resolveSrv fuel) (exchanges conf net)

end Servers

section Sockets

/-- The socket held after some acts, if each is on the one that is held. -/
def held : Option Nat → List SocketAct → Option (Option Nat)
  | fd, [] => some fd
  | none, .opened fd :: acts => held (some fd) acts
  | some fd, .written other _ :: acts => if other = fd then held (some fd) acts else none
  | some fd, .closed other :: acts => if other = fd then held none acts else none
  | _, _ => none

/-- One socket at a time, and none at the end. -/
def Tidy (acts : List SocketAct) : Prop :=
  held none acts = some none

theorem held_append (fd : Option Nat) (acts more : List SocketAct) :
    held fd (acts ++ more) = (held fd acts).bind (held · more) := by
  induction acts generalizing fd with
  | nil => simp [held]
  | cons act acts ih =>
      cases fd with
      | none =>
          cases act with
          | opened other => exact ih (some other)
          | written other bytes => rfl
          | closed other => rfl
      | some fd =>
          cases act with
          | opened other => rfl
          | written other bytes =>
              rw [List.cons_append, held, held]
              by_cases hsame : other = fd
              · rw [if_pos hsame, if_pos hsame, ih]
              · rw [if_neg hsame, if_neg hsame]
                rfl
          | closed other =>
              rw [List.cons_append, held, held]
              by_cases hsame : other = fd
              · rw [if_pos hsame, if_pos hsame, ih]
              · rw [if_neg hsame, if_neg hsame]
                rfl

theorem Tidy.append {acts more : List SocketAct} (hacts : Tidy acts) (hmore : Tidy more) :
    Tidy (acts ++ more) := by
  rw [Tidy, held_append, hacts]
  exact hmore

/-- The acts of a round on its socket. -/
def Exchange.acts (query : List UInt8) (exchange : Exchange) : List SocketAct :=
  match exchange.socket with
  | none => []
  | some fd =>
      if exchange.connected = false then [.opened fd, .closed fd]
      else [.opened fd, .written fd query, .closed fd]

end Sockets

section Outcome

variable {α : Type} {query : List UInt8} {exchange : Exchange}
  {read : Nat → List UInt8 → Option (List α)} {keep : Answer → List α}

/-- What a round gets to hear: a response as the protocol has it, or nothing for
one of the reasons there are. -/
inductive Hears (query : List UInt8) (exchange : Exchange) : List Answer → Prop
  | noSocket : exchange.socket = none → Hears query exchange []
  | refused : exchange.connected = false → Hears query exchange []
  | cutShort : exchange.wrote ≠ some query.length → Hears query exchange []
  | silent : exchange.data = none → Hears query exchange []
  | tooShort {data : List UInt8} :
      exchange.data = some data → data.length < 12 → Hears query exchange []
  | response {data : List UInt8} {said : List Answer} :
      exchange.socket ≠ none → exchange.connected = true →
      exchange.wrote = some query.length → exchange.data = some data →
      IsResponse (data.take 512) said → Hears query exchange said

/-- A reader of responses that keeps just what their answers say. -/
structure Reads (read : Nat → List UInt8 → Option (List α)) (keep : Answer → List α) :
    Prop where
  short : ∀ fuel response, response.length < 12 → read fuel response = some []
  settles : ∀ response said, IsResponse response said →
    Loop.Settles (fun fuel => read fuel response) (said.flatMap keep)

theorem reads_host : Reads resolveHost Answer.addresses where
  short _ _ hshort := if_pos hshort
  settles _ _ hresponse := settles_resolveHost hresponse

theorem reads_srv : Reads resolveSrv Answer.services where
  short _ _ hshort := if_pos hshort
  settles _ _ hresponse := settles_resolveSrv hresponse

/-- A round that reads nothing, whatever the reason. -/
theorem askServer_nothing {reader : List UInt8 → Option (List α)} (hread : ∀ data, exchange.data = some data →
      exchange.connected = true → exchange.wrote = some query.length →
        reader (data.take 512) = some []) :
    askServer query reader exchange = some (exchange.acts query, []) := by
  unfold askServer Exchange.acts
  cases exchange.socket with
  | none => rfl
  | some fd =>
      cases hconnected : exchange.connected with
      | false => rfl
      | true =>
          by_cases hwrote : exchange.wrote = some query.length
          · cases hdata : exchange.data with
            | none => simp [hwrote]
            | some data => simp [hwrote, hread data hdata hconnected hwrote]
          · simp [hwrote]

theorem settles_askServer {said : List Answer} (hreads : Reads read keep)
    (hhears : Hears query exchange said) :
    Loop.Settles (fun fuel => askServer query (read fuel) exchange)
      (exchange.acts query, said.flatMap keep) := by
  cases hhears with
  | noSocket hsocket =>
      refine ⟨0, fun fuel _ => ?_⟩
      simp only [askServer, Exchange.acts, hsocket]
      rfl
  | refused hrefused =>
      refine ⟨0, fun fuel _ => ?_⟩
      apply askServer_nothing
      intro data hdata hconnected
      rw [hrefused] at hconnected
      cases hconnected
  | cutShort hwrote =>
      refine ⟨0, fun fuel _ => ?_⟩
      apply askServer_nothing
      exact fun data hdata hconnected hsame => absurd hsame hwrote
  | silent hsilent =>
      refine ⟨0, fun fuel _ => ?_⟩
      apply askServer_nothing
      intro data hdata
      rw [hsilent] at hdata
      cases hdata
  | @tooShort data hdata hshort =>
      refine ⟨0, fun fuel _ => ?_⟩
      apply askServer_nothing
      intro other hother _ _
      rw [hdata, Option.some.injEq] at hother
      subst hother
      apply hreads.short
      rw [List.length_take]
      exact lt_of_le_of_lt (min_le_right ..) hshort
  | @response data said hsocket hconnected hwrote hdata hresponse =>
      obtain ⟨fd, hfd⟩ := Option.ne_none_iff_exists'.mp hsocket
      obtain ⟨rounds, hread⟩ := hreads.settles _ _ hresponse
      refine ⟨rounds, fun fuel hle => ?_⟩
      simp only at hread ⊢
      simp [askServer, Exchange.acts, hfd, hconnected, hwrote, hdata, hread fuel hle]

/-- A round after which the loop goes on to the next server. -/
def SaysNothing (keep : Answer → List α) (query : List UInt8) (exchange : Exchange) : Prop :=
  ∃ said, Hears query exchange said ∧ said.flatMap keep = []

theorem settles_found {exchanges : List Exchange} {found : List α} (hfound : found ≠ [])
    (hserver : Loop.Settles (fun fuel => askServer query (read fuel) exchange)
      (exchange.acts query, found)) :
    Loop.Settles (fun fuel => askServers query (read fuel) (exchange :: exchanges))
      (exchange.acts query, found) := by
  obtain ⟨rounds, hasked⟩ := hserver
  obtain ⟨first, others, rfl⟩ := List.exists_cons_of_ne_nil hfound
  refine ⟨rounds, fun fuel hle => ?_⟩
  simp only at hasked ⊢
  rw [askServers, hasked fuel hle]

theorem settles_next {exchanges : List Exchange} {rest : List SocketAct × List α}
    (hserver : Loop.Settles (fun fuel => askServer query (read fuel) exchange)
      (exchange.acts query, []))
    (hrest : Loop.Settles (fun fuel => askServers query (read fuel) exchanges) rest) :
    Loop.Settles (fun fuel => askServers query (read fuel) (exchange :: exchanges))
      (exchange.acts query ++ rest.1, rest.2) := by
  obtain ⟨rounds, hasked⟩ := hserver
  obtain ⟨rounds', hothers⟩ := hrest
  refine ⟨max rounds rounds', fun fuel hle => ?_⟩
  obtain ⟨hle, hle'⟩ := max_le_iff.mp hle
  simp only at hasked hothers ⊢
  rw [askServers, hasked fuel hle, hothers fuel hle']
  rfl

/-- What a lookup over some servers ends with: the first that has something
decides, and those behind it are not asked. -/
structure FirstAnswer (keep : Answer → List α)
    (lookup : Nat → Option (List SocketAct × List α)) (query : List UInt8)
    (exchanges : List Exchange) : Prop where
  found : ∀ before exchange after said, exchanges = before ++ exchange :: after →
    (∀ earlier ∈ before, SaysNothing keep query earlier) → Hears query exchange said →
    said.flatMap keep ≠ [] →
    Loop.Settles lookup
      ((before ++ [exchange]).flatMap (Exchange.acts query), said.flatMap keep)
  nothing : (∀ exchange ∈ exchanges, SaysNothing keep query exchange) →
    Loop.Settles lookup (exchanges.flatMap (Exchange.acts query), [])

theorem firstAnswer_nil : FirstAnswer keep (fun fuel => askServers query (read fuel) [])
    query [] where
  found before exchange after said hsplit _ _ _ := by
    have hlength := congrArg List.length hsplit
    rw [List.length_append, List.length_cons] at hlength
    cases hlength
  nothing _ := Loop.settles_some _

theorem FirstAnswer.cons {exchanges : List Exchange} (hreads : Reads read keep)
    (hrest : FirstAnswer keep (fun fuel => askServers query (read fuel) exchanges) query
      exchanges) :
    FirstAnswer keep (fun fuel => askServers query (read fuel) (exchange :: exchanges)) query
      (exchange :: exchanges) where
  found before decisive after said hsplit hbefore hhears hkept := by
    cases before with
    | nil =>
        obtain ⟨rfl, rfl⟩ := List.cons_eq_cons.mp hsplit
        have hacts : ([] ++ [exchange]).flatMap (Exchange.acts query) =
            exchange.acts query := by
          simp
        rw [hacts]
        exact settles_found hkept (settles_askServer hreads hhears)
    | cons earlier before =>
        obtain ⟨rfl, hothers⟩ := List.cons_eq_cons.mp hsplit
        obtain ⟨hearlier, hbefore⟩ := List.forall_mem_cons.mp hbefore
        obtain ⟨nothing, hnothing, hempty⟩ := hearlier
        have hserver := settles_askServer hreads hnothing
        rw [hempty] at hserver
        exact settles_next hserver (hrest.found before decisive after said hothers
          hbefore hhears hkept)
  nothing hall := by
    obtain ⟨hearlier, hothers⟩ := List.forall_mem_cons.mp hall
    obtain ⟨nothing, hnothing, hempty⟩ := hearlier
    have hserver := settles_askServer hreads hnothing
    rw [hempty] at hserver
    exact settles_next hserver (hrest.nothing hothers)

theorem firstAnswer (hreads : Reads read keep) (query : List UInt8)
    (exchanges : List Exchange) :
    FirstAnswer keep (fun fuel => askServers query (read fuel) exchanges) query exchanges := by
  induction exchanges with
  | nil => exact firstAnswer_nil
  | cons exchange exchanges ih => exact ih.cons hreads

/-- A round that ends leaves no socket open, whatever it hears. -/
theorem askServer_acts {reader : List UInt8 → Option (List α)}
    {result : List SocketAct × List α} (hasked : askServer query reader exchange = some result) :
    Tidy result.1 := by
  unfold askServer at hasked
  split at hasked
  · cases hasked
    rfl
  · split at hasked
    · cases hasked
      simp [Tidy, held]
    · split at hasked
      · cases hasked
        simp [Tidy, held]
      · split at hasked
        · cases hasked
          simp [Tidy, held]
        · obtain ⟨found, _, rfl⟩ := Option.map_eq_some_iff.mp hasked
          simp [Tidy, held]

theorem askServers_tidy {reader : List UInt8 → Option (List α)} {exchanges : List Exchange}
    {result : List SocketAct × List α}
    (hasked : askServers query reader exchanges = some result) : Tidy result.1 := by
  induction exchanges generalizing result with
  | nil =>
      cases hasked
      rfl
  | cons exchange exchanges ih =>
      rw [askServers] at hasked
      cases hserver : askServer query reader exchange with
      | none =>
          rw [hserver] at hasked
          cases hasked
      | some server =>
          obtain ⟨acts, found⟩ := server
          have hacts : Tidy acts := askServer_acts hserver
          rw [hserver] at hasked
          cases found with
          | nil =>
              obtain ⟨rest, hrest, rfl⟩ := Option.map_eq_some_iff.mp hasked
              exact hacts.append (ih hrest)
          | cons first others =>
              cases hasked
              exact hacts

/-- A lookup asks the servers in their order and ends with what the first one
says that has something, whatever the others would have said; it never keeps a
socket. -/
theorem lookups_first_answer (conf : Option (List UInt8))
    (net : Nat → List UInt8 → Exchange) (query : List UInt8) :
    FirstAnswer Answer.addresses (fun fuel => lookupHost fuel conf net query) query
        (exchanges conf net) ∧
      FirstAnswer Answer.services (fun fuel => lookupSrv fuel conf net query) query
        (exchanges conf net) ∧
      ∀ fuel,
        (∀ result, lookupHost fuel conf net query = some result → Tidy result.1) ∧
          ∀ result, lookupSrv fuel conf net query = some result → Tidy result.1 := by
  refine ⟨firstAnswer reads_host query _, firstAnswer reads_srv query _, fun fuel => ⟨?_, ?_⟩⟩
  · intro result hasked
    exact askServers_tidy hasked
  · intro result hasked
    exact askServers_tidy hasked

/-- An alias for the name asked for, and the address of the alias: both are
about the name of the question. -/
def aliasedAddress : List UInt8 :=
  [0, 7, 0x81, 0x80, 0, 1, 0, 2, 0, 0, 0, 0, 1, 97, 0, 0, 1, 0, 1,
    0xC0, 0x0C, 0, 5, 0, 1, 0, 0, 0, 4, 0, 2, 0xC0, 0x0C,
    0xC0, 0x0C, 0, 1, 0, 1, 0, 0, 0, 4, 0, 4, 1, 2, 3, 4]

theorem isResponse_aliasedAddress :
    IsResponse aliasedAddress [.other 5 [0xC0, 0x0C], .address [1, 2, 3, 4]] := by
  have hlabel : IsLabel [97] := ⟨by decide, by decide, by decide⟩
  have hquestion : NameAt aliasedAddress 12 [[97]] 15 :=
    .label hlabel (by decide) (.root (by decide))
  have hsecond : AnswersAt aliasedAddress 33 [.address [1, 2, 3, 4]] :=
    .cons (.pointer (by decide) (by decide) hquestion) (by decide) (by decide)
      (by decide : answerBytes 1 1 [0, 0, 0, 4] [1, 2, 3, 4] <+: _) (.address rfl) .nil
  have hfirst : AnswersAt aliasedAddress 19 [.other 5 [0xC0, 0x0C], .address [1, 2, 3, 4]] :=
    .cons (.pointer (by decide) (by decide) hquestion) (by decide) (by decide)
      (by decide : answerBytes 5 1 [0, 0, 0, 4] [0xC0, 0x0C] <+: _)
      (.other (by decide) (by decide)) hsecond
  have hheader : (⟨7, 0x8180, 1, 2, 0, 0⟩ : DnsHeader).encode <+: aliasedAddress := by decide
  exact .mk hheader rfl rfl hquestion
    (by decide : beBytes16 1 ++ beBytes16 1 <+: _) hfirst

/-- No socket for the first server, no one behind the second, and an answer from
the third. -/
def lastAnswers : Nat → List UInt8 → Exchange
  | 0, _ => ⟨none, false, none, none⟩
  | 1, _ => ⟨some 5, false, none, none⟩
  | _, _ => ⟨some 5, true, some 4, some aliasedAddress⟩

theorem lookups_first_answer_alias :
    Loop.Settles (fun fuel => lookupHost fuel none lastAnswers [1, 2, 3, 4])
      ([.opened 5, .closed 5, .opened 5, .written 5 [1, 2, 3, 4], .closed 5],
        [ascii "1.2.3.4"]) := by
  have hfirst : SaysNothing Answer.addresses [1, 2, 3, 4] (lastAnswers 0 []) :=
    ⟨[], .noSocket rfl, rfl⟩
  have hsecond : SaysNothing Answer.addresses [1, 2, 3, 4] (lastAnswers 1 []) :=
    ⟨[], .refused rfl, rfl⟩
  have hthird : Hears [1, 2, 3, 4] (lastAnswers 2 [])
      [.other 5 [0xC0, 0x0C], .address [1, 2, 3, 4]] :=
    .response (by decide) rfl rfl rfl isResponse_aliasedAddress
  exact (lookups_first_answer none lastAnswers [1, 2, 3, 4]).1.found
    [lastAnswers 0 [], lastAnswers 1 []] (lastAnswers 2 []) [] _ rfl
    (List.forall_mem_cons.mpr ⟨hfirst, List.forall_mem_singleton.mpr hsecond⟩) hthird
    (by decide)

end Outcome

end Dns

end UltraNet
