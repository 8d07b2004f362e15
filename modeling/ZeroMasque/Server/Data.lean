import ZeroMasque.Foundation.Tables
import ZeroMasque.Rules

/-! The data of the proxy server, and what it asks of the world around it. -/
namespace ZeroMasque.Server
open Foundation

/-- Fixed length of the connection ids this server issues. -/
def localConnIdLen : Nat := 16

/-- A server-chosen connection id. -/
abbrev Scid := { b : Bytes // b.length = localConnIdLen }

/-- How often flows are swept for their idle timeout. -/
def flowSweepInterval : Duration := secs 1

/-- A payload received from a target, on its way back to a client. -/
structure ToClient where
  connId : Scid
  flowId : UInt64
  payload : Bytes
  deriving DecidableEq

/-- One open flow. The sender feeding its target task is named by the number of
the channel it belongs to. -/
structure Flow where
  toTarget : Nat
  lastActivity : Instant
  idleTimeout : Option Duration
  deriving DecidableEq

/-- What the server reads off a QUIC connection; everything else about it
enters as an answer of the library. -/
structure Conn where
  established : Bool
  closed : Bool
  timeout : Option Duration
  deriving DecidableEq

structure Client where
  conn : Conn
  http3 : Bool
  flows : Table UInt64 Flow
  peer : SocketAddr

/-- A socket connected to a target from a given source. -/
structure TargetSocket where
  source : SocketAddr
  target : SocketAddr
  transparent : Bool
  fwmark : Option UInt32
  deriving DecidableEq

inductive Direction where
  | write
  | read
  deriving DecidableEq

/-- Everything a server step does besides changing its own tables, in order. -/
inductive Effect where
  | accepted (conn : Scid) (dcid : Bytes)
  | reaped (conn : Scid)
  | versionNegotiation (dest : SocketAddr)
  | respond (conn : Scid) (stream : UInt64) (headers : List Header) (fin sent : Bool)
  | spawn (conn : Scid) (flow : UInt64) (channel : Nat) (socket : TargetSocket)
  | opened (conn : Scid) (flow stream : UInt64) (now : Instant)
  | closed (conn : Scid) (flow : UInt64)
  | toTarget (conn : Scid) (flow : UInt64) (channel : Nat) (payload : Bytes) (full : Bool) (now : Instant)
  | noFlow (conn : Scid) (flow : UInt64)
  | fromTarget (conn : Scid) (flow : UInt64) (now : Instant)
  | dgramSend (conn : Scid) (datagram : Bytes)
  | shutdown (conn : Scid) (stream : UInt64) (direction : Direction) (code : Nat)
  deriving DecidableEq

end ZeroMasque.Server
