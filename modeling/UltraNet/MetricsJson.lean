/-
The JSON texts of the metrics exporter.  Strings are spliced in as they are, and the
commas are placed by hand.
-/
import UltraNet.JsonRecords
import Mathlib.Tactic.SplitIfs

namespace UltraNet

universe u

namespace Metrics

/-- The bytes that stand for one byte in a string. -/
def escapeByte (c : UInt8) : List UInt8 :=
  if c = 34 then [92, 34]
  else if c = 92 then [92, 92]
  else if c = 10 then [92, 110]
  else if c = 13 then [92, 114]
  else if c = 9 then [92, 116]
  else [c]

/-- `json_detail::escape`, which none of the texts below goes through. -/
def escape (s : List UInt8) : List UInt8 := s.flatMap escapeByte

theorem stringTail_escapeByte {c : UInt8} (hc : 32 ≤ c ∨ c = 9 ∨ c = 10 ∨ c = 13) (fuel : Nat)
    (text : List UInt8) :
    Json.stringTail (fuel + 1) (escapeByte c ++ text) =
      (Json.stringTail fuel text).map fun read => (c :: read.1, read.2) := by
  unfold escapeByte
  split_ifs with hquote hslash hfeed hreturn htab
  · rw [hquote]
    rfl
  · rw [hslash]
    rfl
  · rw [hfeed]
    rfl
  · rw [hreturn]
    rfl
  · rw [htab]
    rfl
  · have hplain : Json.isPlain c = true := by
      simp only [Json.isPlain, Bool.and_eq_true, decide_eq_true_eq]
      rcases hc with hlow | htab' | hfeed' | hreturn'
      · exact ⟨⟨hlow, hquote⟩, hslash⟩
      · exact absurd htab' htab
      · exact absurd hfeed' hfeed
      · exact absurd hreturn' hreturn
    rw [List.singleton_append, Json.stringTail, if_neg hquote, if_neg hslash, if_pos hplain]

/-- What `escape` writes between quotes is read as the string, if its control
characters are tabs and ends of lines. -/
theorem stringTail_escape {s : List UInt8} (hs : ∀ c ∈ s, 32 ≤ c ∨ c = 9 ∨ c = 10 ∨ c = 13)
    {fuel : Nat} (hfuel : s.length < fuel) (rest : List UInt8) :
    Json.stringTail fuel (escape s ++ 34 :: rest) = some (s, rest) := by
  induction s generalizing fuel with
  | nil =>
      obtain ⟨fuel, rfl⟩ := Nat.exists_eq_succ_of_ne_zero (Nat.ne_zero_of_lt hfuel)
      rfl
  | cons c s ih =>
      obtain ⟨fuel, rfl⟩ := Nat.exists_eq_succ_of_ne_zero (Nat.ne_zero_of_lt hfuel)
      obtain ⟨hc, hothers⟩ := List.forall_mem_cons.mp hs
      rw [escape, List.flatMap_cons, List.append_assoc, stringTail_escapeByte hc]
      rw [escape] at ih
      rw [ih hothers (Nat.lt_of_succ_lt_succ hfuel)]
      rfl

/-- The rows of a list, with a comma behind each but the last. -/
def writeRows {A : Type u} (row : Nat → A → List UInt8) (size : Nat) :
    Nat → List A → List UInt8
  | _, [] => []
  | i, a :: rest =>
      row i a ++ (if i + 1 < size then [44] else []) ++ [10] ++ writeRows row size (i + 1) rest

/-- `host:port`. -/
def address (host : List UInt8) (port : UInt16) : List UInt8 :=
  host ++ 58 :: decimalText port.toNat

def nodeRow (nodeId address status : List UInt8) : List UInt8 :=
  ascii "  \x7b\"node_id\":\"" ++ nodeId ++ ascii "\",\"address\":\"" ++ address ++
    ascii "\",\"status\":\"" ++ status ++
    ascii "\",\"cpu_percent\":0.0,\"memory_kb\":0,\"uptime_seconds\":0\x7d"

/-- Workers are numbered in the order in which they were given. -/
def workerId (i : Nat) : List UInt8 := ascii "worker-" ++ decimalText i

/-- A worker of which nothing is known is online. -/
def workerStatus (workerOnline : List Bool) (i : Nat) : List UInt8 :=
  if workerOnline.getD i true then ascii "online" else ascii "offline"

def workerRow (workerOnline : List Bool) (i : Nat) (worker : List UInt8 × UInt16) :
    List UInt8 :=
  nodeRow (workerId i) (address worker.1 worker.2) (workerStatus workerOnline i)

def buildNodesJson (psHost : List UInt8) (psPort : UInt16)
    (workers : List (List UInt8 × UInt16)) (workerOnline : List Bool) : List UInt8 :=
  ascii "[\n" ++ nodeRow (ascii "ps-0") (address psHost psPort) (ascii "online") ++
    ascii ",\n" ++ writeRows (workerRow workerOnline) workers.length 0 workers ++ ascii "]\n"

structure ActorStatusData where
  name : List UInt8
  queueSize : Int
  msgRatePerSec : Double
  totalMessages : Nat
  state : List UInt8

def actorRow (a : ActorStatusData) : List UInt8 :=
  ascii "  \x7b\"name\": \"" ++ a.name ++ ascii "\"" ++
    ascii ", \"queue_size\": " ++ signedText a.queueSize ++
    ascii ", \"msg_rate_per_sec\": " ++
      (Written.ofDouble Double.general a.msgRatePerSec).text ++
    ascii ", \"total_messages\": " ++ decimalText a.totalMessages ++
    ascii ", \"state\": \"" ++ a.state ++ ascii "\"\x7d"

def buildActorsJson (actors : List ActorStatusData) : List UInt8 :=
  ascii "[\n" ++ writeRows (fun _ => actorRow) actors.length 0 actors ++ ascii "]\n"

structure NetworkStatsData where
  peer : List UInt8
  bytesSent : Int
  bytesRecv : Int
  sendRateMbps : Double
  recvRateMbps : Double
  activeConnections : Int

def networkRow (s : NetworkStatsData) : List UInt8 :=
  ascii "  \x7b\"peer\": \"" ++ s.peer ++ ascii "\"" ++
    ascii ", \"bytes_sent\": " ++ signedText s.bytesSent ++
    ascii ", \"bytes_recv\": " ++ signedText s.bytesRecv ++
    ascii ", \"send_rate_mbps\": " ++
      (Written.ofDouble (Double.fixed 2) s.sendRateMbps).text ++
    ascii ", \"recv_rate_mbps\": " ++
      (Written.ofDouble (Double.fixed 2) s.recvRateMbps).text ++
    ascii ", \"active_connections\": " ++ signedText s.activeConnections ++ ascii "\x7d"

def buildNetworkJson (stats : List NetworkStatsData) : List UInt8 :=
  ascii "[\n" ++ writeRows (fun _ => networkRow) stats.length 0 stats ++ ascii "]\n"

/-- The strings of each node: the parameter server and the workers. -/
def nodeStrings (nodeId address status : List UInt8) : List (List UInt8 × List UInt8) :=
  [(ascii "node_id", nodeId), (ascii "address", address), (ascii "status", status)]

/-- A reader of the node list gets back these strings, in this order. -/
def NodesOk (psHost : List UInt8) (psPort : UInt16) (workers : List (List UInt8 × UInt16))
    (workerOnline : List Bool) : Prop :=
  Json.ArrayOf (buildNodesJson psHost psPort workers workerOnline)
    (nodeStrings (ascii "ps-0") (address psHost psPort) (ascii "online") ::
      workers.zipIdx.map fun entry =>
        nodeStrings (workerId entry.2) (address entry.1.1 entry.1.2)
          (workerStatus workerOnline entry.2))

def ActorsOk (actors : List ActorStatusData) : Prop :=
  Json.ArrayOf (buildActorsJson actors)
    (actors.map fun a => [(ascii "name", a.name), (ascii "state", a.state)])

def NetworkOk (stats : List NetworkStatsData) : Prop :=
  Json.ArrayOf (buildNetworkJson stats) (stats.map fun s => [(ascii "peer", s.peer)])

open Json in
def nodeFields (nodeId address status : List UInt8) : List Field :=
  [⟨ascii "node_id", .string nodeId⟩, ⟨ascii "address", .string address⟩,
    ⟨ascii "status", .string status⟩,
    ⟨ascii "cpu_percent", .number (.decimal .pointZero)⟩,
    ⟨ascii "memory_kb", .number (.ofInt 0)⟩, ⟨ascii "uptime_seconds", .number (.ofInt 0)⟩]

open Json in
def actorFields (a : ActorStatusData) : List Field :=
  [⟨ascii "name", .string a.name⟩, ⟨ascii "queue_size", .number (.ofInt a.queueSize)⟩,
    ⟨ascii "msg_rate_per_sec", .number (.ofDouble Double.general a.msgRatePerSec)⟩,
    ⟨ascii "total_messages", .number (.ofInt a.totalMessages)⟩,
    ⟨ascii "state", .string a.state⟩]

open Json in
def networkFields (s : NetworkStatsData) : List Field :=
  [⟨ascii "peer", .string s.peer⟩, ⟨ascii "bytes_sent", .number (.ofInt s.bytesSent)⟩,
    ⟨ascii "bytes_recv", .number (.ofInt s.bytesRecv)⟩,
    ⟨ascii "send_rate_mbps", .number (.ofDouble (Double.fixed 2) s.sendRateMbps)⟩,
    ⟨ascii "recv_rate_mbps", .number (.ofDouble (Double.fixed 2) s.recvRateMbps)⟩,
    ⟨ascii "active_connections", .number (.ofInt s.activeConnections)⟩]

theorem fields_node (nodeId address status : List UInt8) :
    Json.Fields (nodeFields nodeId address status) :=
  Json.fields_of_names [ascii "node_id", ascii "address", ascii "status",
    ascii "cpu_percent", ascii "memory_kb", ascii "uptime_seconds"]
    rfl (by decide) (by decide) (by decide)

theorem fields_actor (a : ActorStatusData) : Json.Fields (actorFields a) :=
  Json.fields_of_names [ascii "name", ascii "queue_size", ascii "msg_rate_per_sec",
    ascii "total_messages", ascii "state"] rfl (by decide) (by decide) (by decide)

theorem fields_network (s : NetworkStatsData) : Json.Fields (networkFields s) :=
  Json.fields_of_names [ascii "peer", ascii "bytes_sent", ascii "bytes_recv",
    ascii "send_rate_mbps", ascii "recv_rate_mbps", ascii "active_connections"]
    rfl (by decide) (by decide) (by decide)

theorem nodeRow_eq (nodeId address status : List UInt8) :
    nodeRow nodeId address status =
      [32, 32] ++ Json.recordText [] (nodeFields nodeId address status) := by
  have hid : ascii "  \x7b\"node_id\":\"" =
    [32, 32, 123, 34] ++ ascii "node_id" ++ [34, 58, 34] := rfl
  have haddress : ascii "\",\"address\":\"" = [34, 44, 34] ++ ascii "address" ++ [34, 58, 34] :=
    rfl
  have hstatus : ascii "\",\"status\":\"" = [34, 44, 34] ++ ascii "status" ++ [34, 58, 34] :=
    rfl
  have hrest : ascii "\",\"cpu_percent\":0.0,\"memory_kb\":0,\"uptime_seconds\":0\x7d" =
      34 :: 44 :: (Json.joined (Json.Field.text []) []
        ((nodeFields nodeId address status).drop 3) ++ [125]) := rfl
  rw [nodeRow, hid, haddress, hstatus, hrest]
  simp [Json.recordText, nodeFields, Json.joined, Json.Field.text, Json.Shown.text]

theorem actorRow_eq (a : ActorStatusData) :
    actorRow a = [32, 32] ++ Json.recordText [32] (actorFields a) := by
  have hname : ascii "  \x7b\"name\": \"" =
    [32, 32, 123, 34] ++ ascii "name" ++ [34, 58, 32, 34] := rfl
  have hsize : ascii ", \"queue_size\": " = [44, 32, 34] ++ ascii "queue_size" ++ [34, 58, 32] :=
    rfl
  have hrate : ascii ", \"msg_rate_per_sec\": " =
    [44, 32, 34] ++ ascii "msg_rate_per_sec" ++ [34, 58, 32] := rfl
  have htotal : ascii ", \"total_messages\": " =
    [44, 32, 34] ++ ascii "total_messages" ++ [34, 58, 32] := rfl
  have hstate : ascii ", \"state\": \"" = [44, 32, 34] ++ ascii "state" ++ [34, 58, 32, 34] :=
    rfl
  have hquote : ascii "\"" = [34] := rfl
  have hend : ascii "\"\x7d" = [34, 125] := rfl
  have hcount : decimalText a.totalMessages = signedText a.totalMessages := rfl
  rw [actorRow, hname, hsize, hrate, htotal, hstate, hquote, hend, hcount]
  simp [Json.recordText, actorFields, Json.joined, Json.Field.text, Json.Shown.text,
    Written.ofInt, Written.text, Decimal.text_ofInt]

theorem networkRow_eq (s : NetworkStatsData) :
    networkRow s = [32, 32] ++ Json.recordText [32] (networkFields s) := by
  have hpeer : ascii "  \x7b\"peer\": \"" =
    [32, 32, 123, 34] ++ ascii "peer" ++ [34, 58, 32, 34] := rfl
  have hsent : ascii ", \"bytes_sent\": " =
    [44, 32, 34] ++ ascii "bytes_sent" ++ [34, 58, 32] := rfl
  have hrecv : ascii ", \"bytes_recv\": " =
    [44, 32, 34] ++ ascii "bytes_recv" ++ [34, 58, 32] := rfl
  have hsend : ascii ", \"send_rate_mbps\": " =
    [44, 32, 34] ++ ascii "send_rate_mbps" ++ [34, 58, 32] := rfl
  have hreceive : ascii ", \"recv_rate_mbps\": " =
    [44, 32, 34] ++ ascii "recv_rate_mbps" ++ [34, 58, 32] := rfl
  have hactive : ascii ", \"active_connections\": " =
    [44, 32, 34] ++ ascii "active_connections" ++ [34, 58, 32] := rfl
  have hquote : ascii "\"" = [34] := rfl
  have hend : ascii "\x7d" = [125] := rfl
  rw [networkRow, hpeer, hsent, hrecv, hsend, hreceive, hactive, hquote, hend]
  simp [Json.recordText, networkFields, Json.joined, Json.Field.text, Json.Shown.text,
    Written.ofInt, Written.text, Decimal.text_ofInt]

/-- A line break and the indentation of the next row. -/
def separator : List UInt8 := [10, 32, 32]

/-- The commas are where an array has them. -/
theorem writeRows_eq {A : Type u} {row : Nat → A → List UInt8} {gap : List UInt8}
    {fields : Nat → A → List Json.Field}
    (hrow : ∀ i a, row i a = [32, 32] ++ Json.recordText gap (fields i a))
    {size i : Nat} {a : A} {rest : List A} (hsize : i + (a :: rest).length = size) :
    writeRows row size i (a :: rest) =
      [32, 32] ++ (Json.joined (Json.recordText gap) separator
        (((a :: rest).zipIdx i).map fun entry => fields entry.2 entry.1) ++ [10]) := by
  induction rest generalizing i a with
  | nil =>
      rw [List.length_singleton] at hsize
      rw [writeRows, if_neg (by omega), hrow]
      simp [writeRows, Json.joined]
  | cons next rest ih =>
      rw [List.length_cons, List.length_cons] at hsize
      rw [writeRows, if_pos (by omega), ih (by rw [List.length_cons]; omega), hrow]
      simp [Json.joined, separator]

theorem gap_separator : Json.Gap separator := by decide

theorem gap_space : Json.Gap [32] := by decide

/-- The text around rows that are written with their commas. -/
theorem text_eq {A : Type u} {row : Nat → A → List UInt8} {gap : List UInt8}
    {fields : Nat → A → List Json.Field}
    (hrow : ∀ i a, row i a = [32, 32] ++ Json.recordText gap (fields i a)) {all : List A}
    (hall : all ≠ []) :
    ascii "[\n" ++ writeRows row all.length 0 all ++ ascii "]\n" =
      Json.arrayText gap separator (all.zipIdx.map fun entry => fields entry.2 entry.1)
        ([10] ++ 93 :: [10]) := by
  have hopen : ascii "[\n" = [91, 10] := rfl
  have hclose : ascii "]\n" = [93, 10] := rfl
  cases all with
  | nil => exact absurd rfl hall
  | cons a rest =>
      rw [writeRows_eq hrow (Nat.zero_add _), hopen, hclose, Json.arrayText]
      simp [separator]

/-- Rows of the same kind are the array they should be just if all their fields are
readable. -/
theorem arrayOf_rows_iff {A : Type u} {row : A → List UInt8} {fields : A → List Json.Field}
    (hrow : ∀ a, row a = [32, 32] ++ Json.recordText [32] (fields a))
    (hfields : ∀ a, Json.Fields (fields a)) (all : List A) :
    Json.ArrayOf (ascii "[\n" ++ writeRows (fun _ => row) all.length 0 all ++ ascii "]\n")
        (all.map fun a => Json.strings (fields a)) ↔
      ∀ a ∈ all, ∀ field ∈ fields a, field.shown.Readable := by
  by_cases hall : all = []
  · subst hall
    refine ⟨fun _ a ha => (by cases ha), fun _ => ⟨[], rfl, .nil⟩⟩
  · have hmap : (all.zipIdx.map fun entry => fields entry.1) = all.map fields :=
      calc (all.zipIdx.map fun entry => fields entry.1)
          = (all.zipIdx.map Prod.fst).map fields := List.map_map.symm
        _ = all.map fields := by rw [List.zipIdx_map_fst]
    have hsome : all.map fields ≠ [] := fun hnil => hall (List.map_eq_nil_iff.mp hnil)
    have hnamed : ∀ row ∈ all.map fields, Json.Fields row := by
      intro row hrow
      obtain ⟨a, -, rfl⟩ := List.mem_map.mp hrow
      exact hfields a
    have hiff := Json.arrayOf_iff hsome gap_separator gap_space hnamed
    rw [text_eq (fun _ => hrow) hall, hmap]
    rw [List.map_map] at hiff
    refine hiff.trans ⟨fun hrows a ha => hrows _ (List.mem_map_of_mem ha), ?_⟩
    rintro hall row hrow
    obtain ⟨a, ha, rfl⟩ := List.mem_map.mp hrow
    exact hall a ha

theorem plain_digits {n : Nat} {byte : UInt8} (hbyte : byte ∈ decimalText n) :
    byte < 128 ∧ Json.isPlain byte = true := by
  have hall : ∀ bits : BitVec 8, isDigit ⟨bits⟩ = true →
      (⟨bits⟩ : UInt8) < 128 ∧ Json.isPlain ⟨bits⟩ = true := by decide
  exact hall byte.toBitVec (isDigit_of_mem_decimalText hbyte)

/-- An address is plain if its host is. -/
theorem plainText_address (host : List UInt8) (port : UInt16) :
    Json.PlainText (address host port) ↔ Json.PlainText host := by
  refine Json.plainText_append fun byte hbyte => ?_
  rcases List.mem_cons.mp hbyte with rfl | hdigits
  · decide
  · exact plain_digits hdigits

theorem plainText_workerId (i : Nat) : Json.PlainText (workerId i) :=
  (Json.plainText_append fun _ hbyte => plain_digits hbyte).mpr (by decide)

theorem plainText_workerStatus (workerOnline : List Bool) (i : Nat) :
    Json.PlainText (workerStatus workerOnline i) := by
  unfold workerStatus
  split
  · decide
  · decide

theorem readable_node {nodeId status : List UInt8} (hnode : Json.PlainText nodeId)
    (hstatus : Json.PlainText status) (host : List UInt8) (port : UInt16) :
    (∀ field ∈ nodeFields nodeId (address host port) status, field.shown.Readable) ↔
      Json.PlainText host := by
  rw [← plainText_address host port]
  simp [nodeFields, Json.Shown.Readable, hnode, hstatus]

theorem readable_actor (a : ActorStatusData) :
    (∀ field ∈ actorFields a, field.shown.Readable) ↔
      Json.PlainText a.name ∧ a.msgRatePerSec.isFinite = true ∧ Json.PlainText a.state := by
  simp [actorFields, Json.Shown.Readable]

theorem readable_network (s : NetworkStatsData) :
    (∀ field ∈ networkFields s, field.shown.Readable) ↔
      Json.PlainText s.peer ∧ s.sendRateMbps.isFinite = true ∧
        s.recvRateMbps.isFinite = true := by
  simp [networkFields, Json.Shown.Readable]

theorem actors_ok_iff (actors : List ActorStatusData) :
    ActorsOk actors ↔ ∀ a ∈ actors,
      Json.PlainText a.name ∧ a.msgRatePerSec.isFinite = true ∧ Json.PlainText a.state := by
  have hiff := arrayOf_rows_iff actorRow_eq fields_actor actors
  simp only [readable_actor] at hiff
  exact hiff

theorem network_ok_iff (stats : List NetworkStatsData) :
    NetworkOk stats ↔ ∀ s ∈ stats,
      Json.PlainText s.peer ∧ s.sendRateMbps.isFinite = true ∧
        s.recvRateMbps.isFinite = true := by
  have hiff := arrayOf_rows_iff networkRow_eq fields_network stats
  simp only [readable_network] at hiff
  exact hiff

def psFields (psHost : List UInt8) (psPort : UInt16) : List Json.Field :=
  nodeFields (ascii "ps-0") (address psHost psPort) (ascii "online")

def workerFields (workerOnline : List Bool) (i : Nat) (worker : List UInt8 × UInt16) :
    List Json.Field :=
  nodeFields (workerId i) (address worker.1 worker.2) (workerStatus workerOnline i)

theorem workerRow_eq (workerOnline : List Bool) (i : Nat) (worker : List UInt8 × UInt16) :
    workerRow workerOnline i worker =
      [32, 32] ++ Json.recordText [] (workerFields workerOnline i worker) :=
  nodeRow_eq _ _ _

theorem nodes_text_eq (psHost : List UInt8) (psPort : UInt16) (workerOnline : List Bool)
    {workers : List (List UInt8 × UInt16)} (hworkers : workers ≠ []) :
    buildNodesJson psHost psPort workers workerOnline =
      Json.arrayText [] separator (psFields psHost psPort ::
        workers.zipIdx.map fun entry => workerFields workerOnline entry.2 entry.1)
        ([10] ++ 93 :: [10]) := by
  have hopen : ascii "[\n" = [91, 10] := rfl
  have hcomma : ascii ",\n" = [44, 10] := rfl
  have hclose : ascii "]\n" = [93, 10] := rfl
  cases workers with
  | nil => exact absurd rfl hworkers
  | cons worker rest =>
      rw [buildNodesJson, writeRows_eq (workerRow_eq workerOnline) (Nat.zero_add _), hopen,
        hcomma, hclose, nodeRow_eq, Json.arrayText]
      simp [separator, Json.joined, psFields]

/-- Without workers the comma behind the parameter server stays. -/
theorem no_workers_text_eq (psHost : List UInt8) (psPort : UInt16)
    (workerOnline : List Bool) :
    buildNodesJson psHost psPort [] workerOnline =
      Json.arrayText [] separator [psFields psHost psPort] (44 :: 10 :: 93 :: [10]) := by
  have hopen : ascii "[\n" = [91, 10] := rfl
  have hcomma : ascii ",\n" = [44, 10] := rfl
  have hclose : ascii "]\n" = [93, 10] := rfl
  rw [buildNodesJson, hopen, hcomma, hclose, nodeRow_eq, Json.arrayText]
  simp [separator, Json.joined, psFields, writeRows]

theorem forall_mem_zipIdx {A : Type u} {P : A → Prop} {all : List A} :
    (∀ entry ∈ all.zipIdx, P entry.1) ↔ ∀ a ∈ all, P a := by
  constructor
  · intro hall a ha
    have hmem : a ∈ all.zipIdx.map Prod.fst := by
      rw [List.zipIdx_map_fst]
      exact ha
    obtain ⟨entry, hentry, rfl⟩ := List.mem_map.mp hmem
    exact hall entry hentry
  · intro hall entry hentry
    exact hall entry.1 (List.fst_mem_of_mem_zipIdx hentry)

/-- The list can be read back if there is a worker and no host has a byte to escape. -/
theorem nodes_ok_iff (psHost : List UInt8) (psPort : UInt16)
    (workers : List (List UInt8 × UInt16)) (workerOnline : List Bool) :
    NodesOk psHost psPort workers workerOnline ↔
      workers ≠ [] ∧ Json.PlainText psHost ∧
        ∀ worker ∈ workers, Json.PlainText worker.1 := by
  by_cases hworkers : workers = []
  · subst hworkers
    refine ⟨fun hok => ?_, fun hsome => absurd rfl hsome.1⟩
    rw [NodesOk, no_workers_text_eq] at hok
    exact absurd hok (Json.not_arrayOf_comma (fields_node _ _ _) (by decide) gap_separator)
  · have hnamed : ∀ row ∈ psFields psHost psPort ::
        workers.zipIdx.map fun entry => workerFields workerOnline entry.2 entry.1,
        Json.Fields row := by
      intro row hrow
      rcases List.mem_cons.mp hrow with rfl | hrow
      · exact fields_node _ _ _
      · obtain ⟨entry, -, rfl⟩ := List.mem_map.mp hrow
        exact fields_node _ _ _
    have hiff := Json.arrayOf_iff (List.cons_ne_nil _ _) gap_separator
      (show Json.Gap [] by decide) hnamed
    rw [← nodes_text_eq psHost psPort workerOnline hworkers, List.map_cons, List.map_map] at hiff
    have hworker : ∀ entry : (List UInt8 × UInt16) × Nat,
        (∀ field ∈ workerFields workerOnline entry.2 entry.1, field.shown.Readable) ↔
          Json.PlainText entry.1.1 :=
      fun entry => readable_node (plainText_workerId _) (plainText_workerStatus _ _) _ _
    have hps : (∀ field ∈ psFields psHost psPort, field.shown.Readable) ↔
        Json.PlainText psHost := readable_node (by decide) (by decide) _ _
    have hindexed : (∀ entry ∈ workers.zipIdx, Json.PlainText entry.1.1) ↔
        ∀ worker ∈ workers, Json.PlainText worker.1 :=
      forall_mem_zipIdx (P := fun worker : List UInt8 × UInt16 => Json.PlainText worker.1)
    rw [NodesOk]
    refine hiff.trans ?_
    rw [List.forall_mem_cons, List.forall_mem_map, hps, ← hindexed]
    simp only [hworker, hworkers, ne_eq, not_false_eq_true, true_and]

/-- The metrics are JSON with the strings they were given just if these need no
escapes, the doubles are finite and there is a worker. -/
theorem metrics_json_iff (psHost : List UInt8) (psPort : UInt16)
    (workers : List (List UInt8 × UInt16)) (workerOnline : List Bool)
    (actors : List ActorStatusData) (stats : List NetworkStatsData) :
    (NodesOk psHost psPort workers workerOnline ↔
      workers ≠ [] ∧ Json.PlainText psHost ∧
        ∀ worker ∈ workers, Json.PlainText worker.1) ∧
    (ActorsOk actors ↔ ∀ a ∈ actors,
      Json.PlainText a.name ∧ a.msgRatePerSec.isFinite = true ∧ Json.PlainText a.state) ∧
    (NetworkOk stats ↔ ∀ s ∈ stats,
      Json.PlainText s.peer ∧ s.sendRateMbps.isFinite = true ∧
        s.recvRateMbps.isFinite = true) :=
  ⟨nodes_ok_iff psHost psPort workers workerOnline, actors_ok_iff actors,
    network_ok_iff stats⟩

/-- A parameter server alone, and a quote in a name and in a peer. -/
theorem metrics_not_json :
    ¬ NodesOk (ascii "h") 80 [] [] ∧
      (Json.parse (buildNodesJson (ascii "h") 80 [] [])).isNone = true ∧
      ¬ ActorsOk [⟨[97, 34], 0, ⟨0⟩, 0, ascii "running"⟩] ∧
      ¬ NetworkOk [⟨[97, 34], 0, 0, ⟨0⟩, ⟨0⟩, 0⟩] := by
  have hquote : ¬ Json.PlainText [97, 34] := by decide
  refine ⟨fun hok => ?_, by decide +kernel, fun hok => ?_, fun hok => ?_⟩
  · exact ((nodes_ok_iff _ _ _ _).mp hok).1 rfl
  · exact hquote ((actors_ok_iff _).mp hok _ List.mem_cons_self).1
  · exact hquote ((network_ok_iff _).mp hok _ List.mem_cons_self).1

end Metrics

end UltraNet
