import ZeroMasque.Dgram
import ZeroMasque.Foundation.Tables
import ZeroMasque.Foundation.Traces

/-! One session of the client proxy: a flow per local source, opened lazily,
buffered until the proxy accepts it, dropped when it is rejected or closed. -/
namespace ZeroMasque
open Foundation

/-- Bound on the datagrams of a source buffered before its flow is accepted. -/
def maxPending : Nat := 32

structure FlowState where
  flowId : Option UInt64
  established : Bool
  pending : List Bytes

/-- The endpoint every request of the session names. -/
structure Dialed where
  authority : String
  path : String

structure Session where
  byAddr : Table SocketAddr FlowState
  flows : Table UInt64 SocketAddr

/-- How `send_request` ends. -/
inductive RequestOutcome where
  | ok (stream : UInt64)
  | streamBlocked
  | streamLimit
  | failed

/-- What polling for responses returns. -/
inductive ResponseEvent where
  | headers (stream : UInt64) (list : List Header)
  | finished (stream : UInt64)
  | reset (stream : UInt64) (code : Nat)
  | other (stream : UInt64)

inductive SessionAct where
  | localDatagram (src : SocketAddr) (data : Bytes)
  | openPending (outcome : SocketAddr → RequestOutcome)
  | poll (event : ResponseEvent)
  | route (datagram : Bytes)

/-- What a session reads from and writes to its surroundings; datagrams into the
tunnel are recorded with the source they come from. -/
inductive SessionEffect where
  | received (src : SocketAddr) (payload : Bytes)
  | request (src : SocketAddr) (stream : UInt64) (headers : List Header)
  | sendDatagram (src : SocketAddr) (flow : UInt64) (payload : Bytes)
  | deliver (flow : UInt64) (dest : SocketAddr) (payload : Bytes)
  deriving DecidableEq

def connectHeaders (d : Dialed) : List Header :=
  [⟨utf8 ":method", utf8 "CONNECT"⟩, ⟨utf8 ":protocol", utf8 "connect-udp"⟩,
    ⟨utf8 ":scheme", utf8 "https"⟩, ⟨utf8 ":authority", utf8 d.authority⟩,
    ⟨utf8 ":path", utf8 d.path⟩, ⟨utf8 "capsule-protocol", utf8 "?1"⟩]

/-- The digits of a decimal number, as a number below 2^16. -/
def digitsU16 (cs : List Char) : Option Nat :=
  if cs ≠ [] ∧ cs.all Char.isDigit then
    let n := cs.foldl (fun n c => 10 * n + (c.toNat - '0'.toNat)) 0
    if n < 2 ^ 16 then some n else none
  else none

/-- `str::parse::<u16>`: decimal digits with an optional plus sign. -/
def parseU16 (s : String) : Option Nat :=
  match s.toList with
  | '+' :: cs => digitsU16 cs
  | cs => digitsU16 cs

/-- The first `:status` header as a number. -/
def statusOf (headers : List Header) : Option Nat :=
  ((headers.find? fun h => h.name = utf8 ":status").bind fun h => fromUtf8 h.value).bind parseU16

example : statusOf [⟨utf8 "server", utf8 "x"⟩, ⟨utf8 ":status", utf8 "+0200"⟩] = some 200 := by decide
example : statusOf [⟨utf8 ":status", utf8 "70000"⟩, ⟨utf8 ":status", utf8 "200"⟩] = none := by decide

namespace Session

def new : Session := ⟨∅, ∅⟩

/-- Queue a local datagram for its flow: send it if the flow is established,
otherwise buffer it while there is room. -/
def onLocal (s : Session) (src : SocketAddr) (data : Bytes) : Session × List SessionEffect :=
  let st := (s.byAddr.lookup src).getD ⟨none, false, []⟩
  match st.established, st.flowId with
  | true, some fid => ({ s with byAddr := s.byAddr.insert src st }, [.received src data, .sendDatagram src fid data])
  | _, _ =>
    let pending := if st.pending.length < maxPending then st.pending ++ [data] else st.pending
    ({ s with byAddr := s.byAddr.insert src { st with pending := pending } }, [.received src data])

/-- One round of the loop of `open_pending_flows`, with the sources to drop. -/
def openOne (d : Dialed) (outcome : SocketAddr → RequestOutcome) (loop : Session × List SocketAddr)
    (src : SocketAddr) : (Session × List SocketAddr) × List SessionEffect :=
  match loop.1.byAddr.lookup src with
  | none => (loop, [])
  | some st =>
    if st.flowId.isSome then (loop, [])
    else
      match outcome src with
      | .ok stream =>
        let fid := stream / 4
        ((⟨loop.1.byAddr.insert src { st with flowId := some fid }, loop.1.flows.insert fid src⟩, loop.2),
          [.request src stream (connectHeaders d)])
      | .streamBlocked => (loop, [])
      | .streamLimit | .failed => ((loop.1, loop.2 ++ [src]), [])

def openPendingFlows (d : Dialed) (outcome : SocketAddr → RequestOutcome) (s : Session) :
    Session × List SessionEffect :=
  let done := drive (openOne d outcome) (s, []) s.byAddr.keys
  ({ done.1.1 with byAddr := Table.eraseAll done.1.2 done.1.1.byAddr }, done.2)

/-- Forget a flow on both sides. -/
def dropFlow (s : Session) (fid : UInt64) : Session :=
  match s.flows.lookup fid with
  | none => s
  | some src => ⟨s.byAddr.erase src, s.flows.erase fid⟩

/-- The proxy has created the flow: release what was buffered for it. -/
def accepted (s : Session) (fid : UInt64) : Session × List SessionEffect :=
  match s.flows.lookup fid with
  | none => (s, [])
  | some src =>
    match s.byAddr.lookup src with
    | none => (s, [])
    | some st =>
      ({ s with byAddr := s.byAddr.insert src { st with established := true, pending := [] } },
        st.pending.map (.sendDatagram src fid))

/-- One round of `poll_responses`. -/
def onResponse (s : Session) : ResponseEvent → Session × List SessionEffect
  | .headers stream list =>
    match statusOf list with
    | some status => if 200 ≤ status ∧ status < 300 then s.accepted (stream / 4)
        else (s.dropFlow (stream / 4), [])
    | none => (s, [])
  | .finished stream | .reset stream _ => (s.dropFlow (stream / 4), [])
  | .other _ => (s, [])

/-- One round of `route_tunnel_datagrams`. -/
def routeDatagram (s : Session) (datagram : Bytes) : List SessionEffect :=
  match Dgram.decode datagram with
  | none => []
  | some p =>
    if p.contextId ≠ Dgram.contextIdUdp then []
    else
      match s.flows.lookup p.flowId with
      | none => []
      | some src => [.deliver p.flowId src p.payload]

def act (d : Dialed) (s : Session) : SessionAct → Session × List SessionEffect
  | .localDatagram src data => s.onLocal src data
  | .openPending outcome => s.openPendingFlows d outcome
  | .poll event => s.onResponse event
  | .route datagram => (s, s.routeDatagram datagram)

end Session
end ZeroMasque
