import ZeroMasque.Server.Data

/-! Serving one CONNECT-UDP request: read the pseudo headers, look up the rule,
open the target socket, record the flow and answer. -/
namespace ZeroMasque.Server
open Foundation

/-- The pseudo headers of interest; a repeated one overwrites the earlier. -/
structure PseudoHeaders where
  method : Option Bytes := none
  protocol : Option Bytes := none
  authority : Option Bytes := none
  path : Option Bytes := none

def PseudoHeaders.read (p : PseudoHeaders) (h : Header) : PseudoHeaders :=
  if h.name = utf8 ":method" then { p with method := some h.value }
  else if h.name = utf8 ":protocol" then { p with protocol := some h.value }
  else if h.name = utf8 ":authority" then { p with authority := some h.value }
  else if h.name = utf8 ":path" then { p with path := some h.value }
  else p

structure ConnectRequest where
  authority : String
  path : String
  deriving DecidableEq

/-- Validate the request line; a failure is the status to reply with. -/
def ConnectRequest.parse (headers : List Header) : Except Nat ConnectRequest :=
  let p := headers.foldl PseudoHeaders.read {}
  if p.method ≠ some (utf8 "CONNECT") then .error 405
  else if p.protocol ≠ some (utf8 "connect-udp") then .error 501
  else
    match p.authority.map fromUtf8 with
    | none => .error 400
    | some none => .error 400
    | some (some authority) =>
      match p.path.map fromUtf8 with
      | none => .error 400
      | some none => .error 400
      | some (some path) => .ok ⟨authority, path⟩

/-- How opening a prepared socket ends. -/
inductive OpenResult where
  | opened
  | addrInUse
  | failed
  deriving DecidableEq

/-- The operating system: its kind, and its answer to bind, option and connect calls. -/
structure Platform where
  linux : Bool
  openSocket : TargetSocket → OpenResult

/-- Forward from the client's own address, or from another port of it when taken. -/
def bindTargetTransparent (os : Platform) (target client : SocketAddr) (fwmark : Option UInt32) :
    Option TargetSocket :=
  let exact := client.canonicalWithPort client.port
  if !os.linux then none
  else if exact.isIpv4 != target.isIpv4 then none
  else
    match os.openSocket ⟨exact, target, true, fwmark⟩ with
    | .opened => some ⟨exact, target, true, fwmark⟩
    | .addrInUse =>
      let ephemeral := client.canonicalWithPort 0
      match os.openSocket ⟨ephemeral, target, true, fwmark⟩ with
      | .opened => some ⟨ephemeral, target, true, fwmark⟩
      | _ => none
    | .failed => none

def bindTarget (os : Platform) (target client : SocketAddr) (transparent : Bool)
    (fwmark : Option UInt32) : Option TargetSocket :=
  if transparent then bindTargetTransparent os target client fwmark
  else if !os.linux && fwmark.isSome then none
  else
    match os.openSocket ⟨target.unspecifiedFor, target, false, fwmark⟩ with
    | .opened => some ⟨target.unspecifiedFor, target, false, fwmark⟩
    | _ => none

private theorem bindTargetTransparent_spec {os : Platform} {target client : SocketAddr}
    {fwmark : Option UInt32} {socket : TargetSocket}
    (h : bindTargetTransparent os target client fwmark = some socket) :
    socket.target = target ∧ socket.transparent = true ∧ socket.fwmark = fwmark := by
  unfold bindTargetTransparent at h
  dsimp only at h
  split at h
  · exact absurd h (by simp)
  split at h
  · exact absurd h (by simp)
  split at h
  · cases h
    exact ⟨rfl, rfl, rfl⟩
  · split at h
    · cases h
      exact ⟨rfl, rfl, rfl⟩
    · exact absurd h (by simp)
  · exact absurd h (by simp)

/-- A bound socket carries the rule's target and marks, whatever the client is. -/
theorem bindTarget_spec {os : Platform} {target client : SocketAddr} {transparent : Bool}
    {fwmark : Option UInt32} {socket : TargetSocket}
    (h : bindTarget os target client transparent fwmark = some socket) :
    socket.target = target ∧ socket.transparent = transparent ∧ socket.fwmark = fwmark := by
  unfold bindTarget at h
  split at h
  · rename_i ht
    obtain ⟨h1, h2, h3⟩ := bindTargetTransparent_spec h
    exact ⟨h1, h2.trans ht.symm, h3⟩
  rename_i ht
  split at h
  · exact absurd h (by simp)
  split at h
  · cases h
    exact ⟨rfl, by simpa using ht, rfl⟩
  · exact absurd h (by simp)

/-- `status.to_string()` as the only header of an error reply. -/
def statusHeaders (status : Nat) : List Header := [⟨utf8 ":status", utf8 (toString status)⟩]

def acceptHeaders : List Header :=
  [⟨utf8 ":status", utf8 "200"⟩, ⟨utf8 "capsule-protocol", utf8 "?1"⟩]

/-- What the surroundings answer while one request is served: the operating
system, the result of `send_response`, and the time until the clock is read. -/
structure Answers where
  os : Platform
  sent : Bool
  elapsed : Duration

/-- The part of the server that serving one connection can change: its flows,
the clock, and the number of channels made so far. -/
structure Desk where
  flows : Table UInt64 Flow
  clock : Instant
  channels : Nat

/-- Removing an entry from the flow table, if it is there. -/
def Desk.close (desk : Desk) (conn : Scid) (flow : UInt64) : Desk × List Effect :=
  ({ desk with flows := desk.flows.erase flow },
    if (desk.flows.lookup flow).isSome then [.closed conn flow] else [])

/-- `respond_status`: answer with a bare status and leave the tables alone. -/
def respondStatus (conn : Scid) (stream : UInt64) (status : Nat) (answers : Answers) (desk : Desk) :
    Desk × List Effect :=
  (desk, [.respond conn stream (statusHeaders status) true answers.sent])

/-- Start the target task, record the flow, then answer 200; a reply that cannot
be sent takes the flow back. -/
def openFlow (conn : Scid) (stream : UInt64) (idleTimeout : Option Duration) (socket : TargetSocket)
    (answers : Answers) (desk : Desk) : Desk × List Effect :=
  let flowId := stream / 4
  let now := desk.clock + answers.elapsed
  let inserted : Desk :=
    ⟨desk.flows.insert flowId ⟨desk.channels, now, idleTimeout⟩, now, desk.channels + 1⟩
  let effects : List Effect :=
    [.spawn conn flowId desk.channels socket, .opened conn flowId stream now,
      .respond conn stream acceptHeaders false answers.sent]
  if answers.sent then (inserted, effects)
  else ((inserted.close conn flowId).1, effects ++ (inserted.close conn flowId).2)

def handleConnectRequest (rules : RuleTable) (client : SocketAddr) (conn : Scid) (stream : UInt64)
    (headers : List Header) (answers : Answers) (desk : Desk) : Desk × List Effect :=
  match ConnectRequest.parse headers with
  | .error status => respondStatus conn stream status answers desk
  | .ok req =>
    match rules.matchTarget req.authority req.path with
    | none => respondStatus conn stream 404 answers desk
    | some rule =>
      match bindTarget answers.os rule.target client rule.transparent rule.fwmark with
      | none => respondStatus conn stream 502 answers desk
      | some socket => openFlow conn stream rule.idleTimeout socket answers desk

/-- A request is refused without a trace in the tables, or it opens a flow. -/
theorem handleConnectRequest_cases (rules : RuleTable) (client : SocketAddr) (conn : Scid)
    (stream : UInt64) (headers : List Header) (answers : Answers) (desk : Desk) :
    (∃ status, status ∈ [405, 501, 400, 404, 502] ∧
      handleConnectRequest rules client conn stream headers answers desk =
        respondStatus conn stream status answers desk) ∨
    ∃ idleTimeout socket,
      handleConnectRequest rules client conn stream headers answers desk =
        openFlow conn stream idleTimeout socket answers desk := by
  unfold handleConnectRequest
  split
  · rename_i status hparse
    refine .inl ⟨status, ?_, rfl⟩
    simp only [ConnectRequest.parse] at hparse
    split_ifs at hparse <;> (try split at hparse) <;> (try split at hparse) <;> cases hparse <;> decide
  split
  · exact .inl ⟨404, by decide, rfl⟩
  split
  · exact .inl ⟨502, by decide, rfl⟩
  · exact .inr ⟨_, _, rfl⟩

/-- A request that is well formed, has a rule, and whose target socket opens. -/
def Opens (rules : RuleTable) (peer : SocketAddr) (list : List Header) (os : Platform) : Prop :=
  ∃ req rule socket, ConnectRequest.parse list = .ok req ∧
    rules.matchTarget req.authority req.path = some rule ∧
    bindTarget os rule.target peer rule.transparent rule.fwmark = some socket

instance (rules : RuleTable) (peer : SocketAddr) (list : List Header) (os : Platform) :
    Decidable (Opens rules peer list os) :=
  match hparse : ConnectRequest.parse list with
  | .error _ => .isFalse (by simp [Opens, hparse])
  | .ok req =>
    match hrule : rules.matchTarget req.authority req.path with
    | none => .isFalse (by simp [Opens, hparse, hrule])
    | some rule =>
      match hbind : bindTarget os rule.target peer rule.transparent rule.fwmark with
      | none => .isFalse (by simp [Opens, hparse, hrule, hbind])
      | some socket => .isTrue ⟨req, rule, socket, hparse, hrule, hbind⟩

theorem handleConnectRequest_opens {rules : RuleTable} {peer : SocketAddr} {list : List Header}
    {answers : Answers} (h : Opens rules peer list answers.os) (c : Scid) (stream : UInt64) (desk : Desk) :
    ∃ idleTimeout socket, handleConnectRequest rules peer c stream list answers desk =
      openFlow c stream idleTimeout socket answers desk := by
  obtain ⟨req, rule, socket, hparse, hrule, hbind⟩ := h
  exact ⟨rule.idleTimeout, socket, by simp only [handleConnectRequest, hparse, hrule, hbind]⟩

theorem handleConnectRequest_refuses {rules : RuleTable} {peer : SocketAddr} {list : List Header}
    {answers : Answers} (h : ¬ Opens rules peer list answers.os) (c : Scid) (stream : UInt64) (desk : Desk) :
    ∃ status, handleConnectRequest rules peer c stream list answers desk =
      respondStatus c stream status answers desk := by
  unfold handleConnectRequest
  split
  · exact ⟨_, rfl⟩
  rename_i req hparse
  split
  · exact ⟨_, rfl⟩
  rename_i rule hrule
  split
  · exact ⟨_, rfl⟩
  rename_i socket hbind
  exact absurd ⟨req, rule, socket, hparse, hrule, hbind⟩ h

/-- After an opening the flow is in the table exactly when its answer went out. -/
theorem lookup_openFlow (conn : Scid) (stream : UInt64) (idleTimeout : Option Duration)
    (socket : TargetSocket) (answers : Answers) (desk : Desk) (k : UInt64) :
    (openFlow conn stream idleTimeout socket answers desk).1.flows.lookup k =
      if k = stream / 4 then
        if answers.sent then some ⟨desk.channels, desk.clock + answers.elapsed, idleTimeout⟩ else none
      else desk.flows.lookup k := by
  unfold openFlow
  cases answers.sent with
  | true => simp [Table.lookup_insert_ite]
  | false =>
    simp only [Desk.close, Bool.false_eq_true, if_false, Table.lookup_erase_ite,
      Table.lookup_insert_ite]
    split <;> rfl

theorem openFlow_effects (conn : Scid) (stream : UInt64) (idleTimeout : Option Duration)
    (socket : TargetSocket) (answers : Answers) (desk : Desk) :
    (openFlow conn stream idleTimeout socket answers desk).2 =
      [.spawn conn (stream / 4) desk.channels socket,
        .opened conn (stream / 4) stream (desk.clock + answers.elapsed),
        .respond conn stream acceptHeaders false answers.sent] ++
      if answers.sent then [] else [.closed conn (stream / 4)] := by
  unfold openFlow
  cases answers.sent <;> simp [Desk.close]

theorem openFlow_counters (conn : Scid) (stream : UInt64) (idleTimeout : Option Duration)
    (socket : TargetSocket) (answers : Answers) (desk : Desk) :
    (openFlow conn stream idleTimeout socket answers desk).1.clock = desk.clock + answers.elapsed ∧
      (openFlow conn stream idleTimeout socket answers desk).1.channels = desk.channels + 1 := by
  unfold openFlow
  cases answers.sent <;> exact ⟨rfl, rfl⟩

/-- A request that ends without a sent 200 leaves the flows as they were, unless its
stream has a flow and the request gets as far as opening a target socket: then the
flow is replaced, and the failed response takes it out. -/
theorem failed_request_flows (rules : RuleTable) (client : SocketAddr) (conn : Scid) (stream : UInt64)
    (headers : List Header) (answers : Answers) (desk : Desk)
    (h : .respond conn stream acceptHeaders false true ∉
      (handleConnectRequest rules client conn stream headers answers desk).2) :
    (∀ k, (handleConnectRequest rules client conn stream headers answers desk).1.flows.lookup k =
      desk.flows.lookup k) ↔
    ¬ (Opens rules client headers answers.os ∧ (desk.flows.lookup (stream / 4)).isSome) := by
  by_cases hopens : Opens rules client headers answers.os
  · obtain ⟨idleTimeout, socket, heq⟩ := handleConnectRequest_opens hopens conn stream desk
    rw [heq] at h ⊢
    have hsent : answers.sent = false := by
      cases hsent : answers.sent with
      | false => rfl
      | true => simp [openFlow_effects, hsent] at h
    simp only [lookup_openFlow, hsent, Bool.false_eq_true, if_false, hopens, true_and,
      Option.not_isSome_iff_eq_none]
    constructor
    · intro hsame
      have hkey := hsame (stream / 4)
      rw [if_pos rfl] at hkey
      exact hkey.symm
    · intro hnone k
      split
      · rename_i hk
        rw [hk, hnone]
      · rfl
  · obtain ⟨status, heq⟩ := handleConnectRequest_refuses hopens conn stream desk
    rw [heq]
    simp [respondStatus, hopens]

/-- Two rules for one path; the second never decides. -/
def shadowedRules : RuleTable :=
  ⟨[⟨⟨"proxy:4433", "/masque?h=x"⟩, .v4 0x7f000001 53, false, none, some (secs 30)⟩,
    ⟨⟨"proxy:4433", "/masque"⟩, .v4 0x0a000001 22, false, none, none⟩]⟩

def plainRequest : List Header :=
  [⟨utf8 ":method", utf8 "CONNECT"⟩, ⟨utf8 ":protocol", utf8 "connect-udp"⟩,
    ⟨utf8 ":authority", utf8 "proxy:4433"⟩, ⟨utf8 ":path", utf8 "/masque"⟩]

def twice : Scid := ⟨List.replicate 16 5, rfl⟩

/-- What one request on stream 8 makes of a desk. -/
def ask (headers : List Header) (sent : Bool) (desk : Desk) : Desk × List Effect :=
  handleConnectRequest shadowedRules (.v4 0xc0000201 5000) twice 8 headers ⟨⟨true, fun _ => .opened⟩, sent, 5⟩ desk

/-- The flow of a first request, whose response was sent. -/
def served : Desk := (ask plainRequest true ⟨∅, 0, 0⟩).1

/-- Trailers are refused. -/
theorem failed_request_flows_trailers :
    (served.flows.lookup 2).isSome ∧
    ∀ k, (ask [] false served).1.flows.lookup k = served.flows.lookup k := by
  refine ⟨by decide, (failed_request_flows _ _ _ _ _ _ _ (by decide)).mpr ?_⟩
  rintro ⟨⟨req, rule, socket, hparse, -⟩, -⟩
  cases hparse

/-- The same request again, whose response the library does not send twice: the
first request's flow is gone. -/
theorem repeated_request_loses_flow :
    (served.flows.lookup 2).isSome ∧
    .respond twice 8 acceptHeaders false true ∉ (ask plainRequest false served).2 ∧
    (ask plainRequest false served).1.flows.lookup 2 = none := by
  decide

end ZeroMasque.Server
