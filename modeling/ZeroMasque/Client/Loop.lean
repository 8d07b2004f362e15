import ZeroMasque.Client.Order
import ZeroMasque.Io.RecvTask

/-! The client proxy over its whole life. One local socket stays; sessions with the
proxy server come and go, each with a connection of its own, and a wait before the
next attempt. -/
namespace ZeroMasque
open Foundation Io Session
open scoped List

/-- Bounds of the wait before the next attempt, in milliseconds. -/
def reconnectMin : Nat := 100

def reconnectMax : Nat := 5000

/-- The arm of `run_session`'s `select!` that comes first. -/
inductive Wake where
  | packet
  | recvEnded
  | localSide
  | timeout
  | keepalive
  deriving DecidableEq

/-- What a round of `run_session` finds: its wakeup, the state of the QUIC connection
after it, the answers of the HTTP/3 calls, and whether everything could be flushed. -/
structure Round where
  wake : Wake
  closed : Bool
  -- the handshake is done, or early data may be sent
  ready : Bool
  -- `with_transport` succeeds
  transport : Bool
  outcome : SocketAddr → RequestOutcome
  events : List ResponseEvent
  datagrams : List Bytes
  flushed : Bool

/-- A session with its flags and the task that reads its socket. -/
structure Live where
  session : Session
  http3 : Bool
  established : Bool
  packets : RecvTask

/-- Where `run_proxy` is: before the loop of `run_session`, in it, or asleep. -/
inductive Phase where
  | connecting
  | running (live : Live)
  | sleeping

structure Proxy where
  locals : RecvTask
  backoff : Nat
  phase : Phase

/-- How `run_session` gets to its loop. -/
inductive Connect where
  | ok
  | dialFailed
  | h3ConfigFailed
  | flushFailed
  deriving DecidableEq

inductive ProxyAct where
  | locals (a : RecvAct)
  | packets (a : RecvAct)
  | connect (outcome : Connect)
  | round (r : Round)
  | slept

/-- Calls of the QUIC connection, effects of the session and of the reading tasks;
`lost` are datagrams that were taken and not dispatched. -/
inductive ProxyEffect where
  | locals (e : RecvEffect)
  | packets (e : RecvEffect)
  | connected
  | recv (d : Datagram)
  | onTimeout
  | sendAckEliciting
  | session (e : SessionEffect)
  | lost (d : Datagram)
  | down (established : Bool) (wait : Nat)

/-- The arms that can be taken. -/
def Wake.enabled (locals packets : RecvTask) : Wake → Bool
  | .packet => !packets.queue.isEmpty
  | .recvEnded => packets.queue.isEmpty && !packets.running
  | .localSide => !locals.queue.isEmpty || !locals.running
  | .timeout | .keepalive => true

namespace Live

def new : Live := ⟨Session.new, false, false, RecvTask.spawn⟩

/-- The calls a round makes before it looks at the connection. -/
def calls (live : Live) (r : Round) : List ProxyEffect :=
  live.packets.queue.map .recv ++ (if r.wake = .timeout then [.onTimeout] else []) ++
    if r.wake = .keepalive then [.sendAckEliciting] else []

/-- The flags after `with_transport`, which is tried once the connection is ready. -/
def upgrade (live : Live) (r : Round) : Live :=
  if r.ready && !live.http3 then { live with http3 := true, established := true } else live

/-- The connection is closed, or HTTP/3 cannot be set up on it. -/
def broken (live : Live) (r : Round) : Bool := r.closed || r.ready && !live.http3 && !r.transport

/-- What a round does with the datagrams it took from the local socket. -/
def pass (live : Live) (r : Round) (taken : List Datagram) : Pass :=
  ⟨taken.map Prod.swap, (live.upgrade r).http3, r.outcome, r.events, r.datagrams⟩

def after (d : Dialed) (live : Live) (r : Round) (taken : List Datagram) : Live :=
  { live.upgrade r with
    session := (drive (act d) live.session (live.pass r taken).acts).1
    packets := { live.packets with queue := [] } }

def emitted (d : Dialed) (live : Live) (r : Round) (taken : List Datagram) : List SessionEffect :=
  (drive (act d) live.session (live.pass r taken).acts).2

end Live

namespace Proxy

def start : Proxy := ⟨RecvTask.spawn, reconnectMin, .connecting⟩

/-- `run_session` has returned; the wait is the least again after an established one. -/
def down (p : Proxy) (established : Bool) : Proxy × List ProxyEffect :=
  let backoff := if established then reconnectMin else p.backoff
  ({ p with backoff := backoff, phase := .sleeping }, [.down established backoff])

/-- Everything the local socket's channel held has been taken out. -/
def drained (p : Proxy) : Proxy := { p with locals := { p.locals with queue := [] } }

/-- One round of the loop of `run_session`. -/
def round (d : Dialed) (p : Proxy) (live : Live) (r : Round) : Proxy × List ProxyEffect :=
  if r.wake = .recvEnded then p.down live.established
  else
    let taken := p.locals.queue
    if live.broken r then
      let done := p.drained.down live.established
      (done.1, live.calls r ++ taken.map .lost ++ done.2)
    else
      let es := live.calls r ++ (live.emitted d r taken).map .session
      if r.flushed then ({ p.drained with phase := .running (live.after d r taken) }, es)
      else
        let done := p.drained.down (live.upgrade r).established
        (done.1, es ++ done.2)

/-- A step of a reading task that is not up to the loop. -/
def background (bufSize : Nat) (t : RecvTask) : RecvAct → Option (RecvTask × List RecvEffect)
  | .next | .cancel => none
  | a => t.step bufSize false a

def step (d : Dialed) (p : Proxy) : ProxyAct → Option (Proxy × List ProxyEffect)
  | .locals a => (background recvBuf p.locals a).map fun done => ({ p with locals := done.1 }, done.2.map .locals)
  | .packets a =>
    match p.phase with
    | .running live =>
      (background maxDatagramSize live.packets a).map fun done =>
        ({ p with phase := .running { live with packets := done.1 } }, done.2.map .packets)
    | _ => none
  | .connect outcome =>
    match p.phase with
    | .connecting =>
      if outcome = .ok then some ({ p with phase := .running .new }, [.connected]) else some (p.down false)
    | _ => none
  | .round r =>
    match p.phase with
    | .running live => if r.wake.enabled p.locals live.packets then some (p.round d live r) else none
    | _ => none
  | .slept =>
    match p.phase with
    | .sleeping => some ({ p with backoff := min (p.backoff * 2) reconnectMax, phase := .connecting }, [])
    | _ => none

/-- Everything a step can be. -/
inductive Move (d : Dialed) (p : Proxy) : ProxyAct → Proxy → List ProxyEffect → Prop
  | locals (a : RecvAct) (t : RecvTask) (es : List RecvEffect) (ha : a ≠ .next)
      (hs : p.locals.step recvBuf false a = some (t, es)) :
      Move d p (.locals a) { p with locals := t } (es.map .locals)
  | packets (live : Live) (a : RecvAct) (t : RecvTask) (es : List RecvEffect) (hp : p.phase = .running live) :
      Move d p (.packets a) { p with phase := .running { live with packets := t } } (es.map .packets)
  | connected (hp : p.phase = .connecting) :
      Move d p (.connect .ok) { p with phase := .running .new } [.connected]
  | refused (outcome : Connect) (hp : p.phase = .connecting) :
      Move d p (.connect outcome) (p.down false).1 (p.down false).2
  | ended (live : Live) (r : Round) (hp : p.phase = .running live) :
      Move d p (.round r) (p.down live.established).1 (p.down live.established).2
  | broken (live : Live) (r : Round) (hp : p.phase = .running live) :
      Move d p (.round r) (p.drained.down live.established).1
        (live.calls r ++ p.locals.queue.map .lost ++ (p.drained.down live.established).2)
  | served (live : Live) (r : Round) (hp : p.phase = .running live) :
      Move d p (.round r) { p.drained with phase := .running (live.after d r p.locals.queue) }
        (live.calls r ++ (live.emitted d r p.locals.queue).map .session)
  | unflushed (live : Live) (r : Round) (hp : p.phase = .running live) :
      Move d p (.round r) (p.drained.down (live.upgrade r).established).1
        (live.calls r ++ (live.emitted d r p.locals.queue).map .session ++
          (p.drained.down (live.upgrade r).established).2)
  | slept (hp : p.phase = .sleeping) :
      Move d p .slept { p with backoff := min (p.backoff * 2) reconnectMax, phase := .connecting } []

theorem step_move {d : Dialed} {p p' : Proxy} {i : ProxyAct} {es : List ProxyEffect}
    (hs : p.step d i = some (p', es)) : Move d p i p' es := by
  cases i with
  | locals a =>
    obtain ⟨⟨t, es⟩, hstep, heq⟩ := Option.map_eq_some_iff.mp hs
    cases heq
    cases a with
    | next | cancel => cases hstep
    | arrive | wake | readinessFailed => exact .locals _ t es (by simp) hstep
  | packets a =>
    simp only [step] at hs
    split at hs
    · rename_i live hp
      obtain ⟨⟨t, es⟩, -, heq⟩ := Option.map_eq_some_iff.mp hs
      cases heq
      exact .packets live a t es hp
    · cases hs
  | connect outcome =>
    simp only [step] at hs
    split at hs
    · rename_i hp
      split_ifs at hs with hok
      · cases hs
        subst hok
        exact .connected hp
      · cases hs
        exact .refused outcome hp
    · cases hs
  | round r =>
    simp only [step] at hs
    split at hs
    · rename_i live hp
      split_ifs at hs
      have hround : p.round d live r = (p', es) := Option.some.inj hs
      simp only [round] at hround
      split_ifs at hround <;> cases hround
      · exact .ended live r hp
      · exact .broken live r hp
      · exact .served live r hp
      · exact .unflushed live r hp
    · cases hs
  | slept =>
    simp only [step] at hs
    split at hs
    · rename_i hp
      cases hs
      exact .slept hp
    · cases hs

end Proxy
end ZeroMasque
