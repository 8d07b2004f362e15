import ZeroMasque.Dgram
import ZeroMasque.Foundation.Traces
import ZeroMasque.Server.Connect

/-! The server's tables and the single actions its loop is made of. What the
QUIC library, the clock and the channels answer is part of an action. -/
namespace ZeroMasque
open Foundation

/-- The server: connections by their SCID, and the routes from original DCIDs.
The clock holds the last reading. -/
structure Server where
  clients : Table Server.Scid Server.Client
  routes : Table Bytes Server.Scid
  rules : RuleTable
  clock : Instant
  channels : Nat

namespace Server

def new (rules : RuleTable) (clock : Instant) : Server := ⟨∅, ∅, rules, clock, 0⟩

/-- What polling the HTTP/3 connection returns. -/
inductive PollEvent where
  | headers (stream : UInt64) (list : List Header) (answers : Answers)
  | data (stream : UInt64)
  | finished (stream : UInt64)
  | reset (stream : UInt64) (code : Nat)
  | other (stream : UInt64)

/-- One table update of the loop, with what the surroundings answer. -/
inductive Action where
  | negotiate (dest : SocketAddr)
  | accept (scid : Scid) (dcid : Bytes) (peer : SocketAddr) (state : Conn)
  | recv (conn : Scid) (peer : SocketAddr) (state : Conn)
  | withTransport (conn : Scid)
  | poll (conn : Scid) (event : PollEvent)
  | readClock (elapsed : Duration)
  | datagram (conn : Scid) (bytes : Bytes) (full : Bool)
  | payload (tc : ToClient)
  | connections (state : Scid → Conn)
  | sweep (elapsed : Duration)
  | reap
  | reload (rules : RuleTable)

/-- Work on the flows of one connection. -/
def atDesk (s : Server) (conn : Scid) (work : Client → Desk → Desk × List Effect) :
    Server × List Effect :=
  match s.clients.lookup conn with
  | none => (s, [])
  | some client =>
    let done := work client ⟨client.flows, s.clock, s.channels⟩
    ({ s with
        clients := s.clients.insert conn { client with flows := done.1.flows }
        clock := done.1.clock
        channels := done.1.channels }, done.2)

/-- Register a new connection and the route from the DCID it was opened with. -/
def accept (s : Server) (scid : Scid) (dcid : Bytes) (peer : SocketAddr) (state : Conn) :
    Server × List Effect :=
  ({ s with
      clients := s.clients.insert scid ⟨state, false, ∅, peer⟩
      routes := s.routes.insert dcid scid }, [.accepted scid dcid])

/-- One round of the polling loop of `process_client`. -/
def poll (s : Server) (conn : Scid) : PollEvent → Server × List Effect
  | .headers stream list answers =>
    s.atDesk conn fun client => handleConnectRequest s.rules client.peer conn stream list answers
  | .finished stream | .reset stream _ => s.atDesk conn fun _ desk => desk.close conn (stream / 4)
  | .data _ | .other _ => (s, [])

/-- One round of `drain_client_datagrams`, which reads the clock before its loop;
`full` is the answer of the flow's channel. -/
def relayDatagram (conn : Scid) (bytes : Bytes) (full : Bool) (desk : Desk) : Desk × List Effect :=
  match Dgram.decode bytes with
  | none => (desk, [])
  | some parsed =>
    if parsed.contextId ≠ Dgram.contextIdUdp then (desk, [])
    else
      match desk.flows.lookup parsed.flowId with
      | none => (desk, [.noFlow conn parsed.flowId])
      | some flow =>
        ({ desk with flows := desk.flows.insert parsed.flowId { flow with lastActivity := desk.clock } },
          [.toTarget conn parsed.flowId flow.toTarget parsed.payload full desk.clock])

/-- The reply goes out whether or not its flow is still open. -/
def onTargetPayload (s : Server) (tc : ToClient) : Server × List Effect :=
  s.atDesk tc.connId fun _ desk =>
    ({ desk with flows := Table.modify tc.flowId ({ · with lastActivity := desk.clock }) desk.flows },
      [.dgramSend tc.connId (Dgram.encode tc.flowId tc.payload),
        .fromTarget tc.connId tc.flowId desk.clock])

/-- The flows idle for at least their timeout. -/
def expired (now : Instant) (client : Client) : List UInt64 :=
  client.flows.entries.filterMap fun e =>
    match e.2.idleTimeout with
    | none => none
    | some d => if d ≤ now - e.2.lastActivity then some e.1 else none

/-- What closing one idle flow does besides removing it: the request stream is
shut down in both directions. -/
def closeIdle (conn : Scid) (flow : UInt64) : List Effect :=
  [.closed conn flow, .shutdown conn (flow * 4) .write 0x100, .shutdown conn (flow * 4) .read 0x100]

def sweepIdleFlows (s : Server) (elapsed : Duration) : Server × List Effect :=
  let now := s.clock + elapsed
  ({ s with
      clients := Table.mapValues
        (fun _ client => { client with flows := Table.eraseAll (expired now client) client.flows })
        s.clients
      clock := now },
    s.clients.entries.flatMap fun e => (expired now e.2).flatMap (closeIdle e.1))

/-- Drop closed connections; each takes the routes that lead to it along. -/
def reapClosed (s : Server) : Server × List Effect :=
  let dead := s.clients.entries.filterMap fun e => if e.2.conn.closed then some e.1 else none
  ({ s with
      clients := Table.retain (fun _ client => !client.conn.closed) s.clients
      routes := dead.foldl (fun routes cid => Table.retain (fun _ scid => scid != cid) routes) s.routes },
    dead.map .reaped)

def act (s : Server) : Action → Server × List Effect
  | .negotiate dest => (s, [.versionNegotiation dest])
  | .accept scid dcid peer state => s.accept scid dcid peer state
  | .recv conn peer state =>
    ({ s with clients := Table.modify conn ({ · with peer := peer, conn := state }) s.clients }, [])
  | .withTransport conn =>
    ({ s with clients := Table.modify conn ({ · with http3 := true }) s.clients }, [])
  | .poll conn event => s.poll conn event
  | .readClock elapsed => ({ s with clock := s.clock + elapsed }, [])
  | .datagram conn bytes full => s.atDesk conn fun _ => relayDatagram conn bytes full
  | .payload tc => s.onTargetPayload tc
  | .connections state =>
    ({ s with clients := Table.mapValues (fun conn client => { client with conn := state conn }) s.clients },
      [])
  | .sweep elapsed => s.sweepIdleFlows elapsed
  | .reap => s.reapClosed
  | .reload rules => ({ s with rules := rules }, [])

private theorem rules_atDesk (s : Server) (conn : Scid) (work : Client → Desk → Desk × List Effect) :
    (s.atDesk conn work).1.rules = s.rules := by
  unfold atDesk
  split <;> rfl

/-- Only a reload changes the rule table. -/
theorem rules_act (s : Server) {a : Action} (ha : ∀ rules, a ≠ .reload rules) : (s.act a).1.rules = s.rules := by
  cases a with
  | reload rules => exact absurd rfl (ha rules)
  | poll conn event => cases event <;> first | rfl | exact rules_atDesk s conn _
  | datagram conn bytes full => exact rules_atDesk s conn _
  | payload tc => exact rules_atDesk s tc.connId _
  | _ => rfl

/-- A connection that opens a flow on stream 8 and then falls silent. -/
def oneFlow (c : Scid) : List Action :=
  [.accept c [1] (.v4 0x01010101 4000) ⟨true, false, none⟩, .withTransport c,
    .poll c (.headers 8 plainRequest ⟨⟨true, fun _ => .opened⟩, true, 5⟩)]

end Server
end ZeroMasque
