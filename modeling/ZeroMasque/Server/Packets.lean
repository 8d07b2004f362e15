import ZeroMasque.Server.Actions

/-! Inbound packets: routing by connection id, accepting, and the burst of
actions one packet causes on its connection. -/
namespace ZeroMasque.Server
open Foundation

/-- The parts of a packet header the server reads. -/
structure PacketHeader where
  dcid : Bytes
  initial : Bool
  versionSupported : Bool

/-- A packet with what the library answers while it is processed: the parsed
header, the drawn SCID if accepting succeeds, the connection after `conn.recv`,
whether HTTP/3 can start, the polled events and the queued datagrams. -/
structure Packet where
  header : Option PacketHeader
  source : SocketAddr
  accepted : Option (Scid × Conn)
  state : Conn
  received : Bool
  http3 : Bool
  events : List PollEvent
  elapsed : Duration
  datagrams : List (Bytes × Bool)

/-- `Scid::try_from`. -/
def asScid (dcid : Bytes) : Option Scid := if h : dcid.length = localConnIdLen then some ⟨dcid, h⟩ else none

/-- The connection a packet belongs to: its own SCID, or the route of its DCID. -/
def route (s : Server) (dcid : Bytes) : Option Scid :=
  match (asScid dcid).filter fun c => (s.clients.lookup c).isSome with
  | some scid => some scid
  | none => s.routes.lookup dcid

def processClient (s : Server) (conn : Scid) (p : Packet) : Server × List Effect :=
  match s.clients.lookup conn with
  | none => (s, [])
  | some client =>
    if !client.conn.established then (s, [])
    else if !client.http3 && !p.http3 then (s, [])
    else
      drive act s (.withTransport conn :: p.events.map (.poll conn) ++
        .readClock p.elapsed :: p.datagrams.map fun d => .datagram conn d.1 d.2)

/-- The tail of `on_packet`; the missing client is the `unwrap` that panics. -/
def receive (s : Server) (conn : Scid) (p : Packet) : Option (Server × List Effect) :=
  match s.clients.lookup conn with
  | none => none
  | some _ =>
    let s := (s.act (.recv conn p.source p.state)).1
    if p.received then some (s.processClient conn p) else some (s, [])

/-- Handle one packet; no answer means the server panicked. -/
def onPacket (s : Server) (p : Packet) : Option (Server × List Effect) :=
  match p.header with
  | none => some (s, [])
  | some hdr =>
    match s.route hdr.dcid with
    | some conn => s.receive conn p
    | none =>
      if !hdr.initial then some (s, [])
      else if !hdr.versionSupported then some (s.act (.negotiate p.source))
      else
        match p.accepted with
        | none => some (s, [])
        | some (scid, state) =>
          let started := s.act (.accept scid hdr.dcid p.source state)
          (started.1.receive scid p).map fun done => (done.1, started.2 ++ done.2)

/-- What can happen to the server. Timers and flushing only change connections. -/
inductive Input where
  | wait (elapsed : Duration)
  | packet (p : Packet)
  | payloads (elapsed : Duration) (burst : List ToClient)
  | connections (state : Scid → Conn)
  | sweep (elapsed : Duration)
  | reap
  | reload (rules : RuleTable)

def step (s : Server) : Input → Option (Server × List Effect)
  | .wait elapsed => some (s.act (.readClock elapsed))
  | .packet p => s.onPacket p
  | .payloads elapsed burst => some (drive act s (.readClock elapsed :: burst.map .payload))
  | .connections state => some (s.act (.connections state))
  | .sweep elapsed => some (s.act (.sweep elapsed))
  | .reap => some (s.act .reap)
  | .reload rules => some (s.act (.reload rules))

/-- The outcome of a burst of actions. -/
def Burst (s : Server) (result : Server × List Effect) : Prop := ∃ acts, drive act s acts = result

private theorem Burst.none (s : Server) : Burst s (s, []) := ⟨[], rfl⟩

private theorem Burst.one (s : Server) (a : Action) : Burst s (s.act a) :=
  ⟨[a], drive_singleton act s a⟩

private theorem Burst.andThen {s : Server} {a : Action} {result : Server × List Effect}
    (h : Burst (s.act a).1 result) : Burst s (result.1, (s.act a).2 ++ result.2) := by
  obtain ⟨acts, rfl⟩ := h
  exact ⟨a :: acts, drive_cons ..⟩

private theorem processClient_burst (s : Server) (conn : Scid) (p : Packet) :
    Burst s (s.processClient conn p) := by
  unfold processClient
  split
  · exact .none s
  split_ifs
  · exact .none s
  · exact .none s
  · exact ⟨_, rfl⟩

private theorem receive_burst {s : Server} {conn : Scid} {p : Packet} {result : Server × List Effect}
    (h : s.receive conn p = some result) : Burst s result := by
  unfold receive at h
  split at h
  · cases h
  dsimp only at h
  split_ifs at h
  · cases h
    exact (processClient_burst _ conn p).andThen
  · cases h
    exact .one s (.recv conn p.source p.state)

private theorem onPacket_burst {s : Server} {p : Packet} {result : Server × List Effect}
    (h : s.onPacket p = some result) : Burst s result := by
  unfold onPacket at h
  split at h
  · cases h
    exact .none s
  split at h
  · exact receive_burst h
  split_ifs at h
  · cases h
    exact .none s
  · cases h
    exact .one s _
  split at h
  · cases h
    exact .none s
  · obtain ⟨done, hdone, rfl⟩ := Option.map_eq_some_iff.mp h
    exact (receive_burst hdone).andThen

/-- Every step of the server is a burst of actions. -/
theorem step_burst {s : Server} {i : Input} {result : Server × List Effect}
    (h : s.step i = some result) : Burst s result := by
  cases i with
  | wait elapsed =>
    cases h
    exact .one s (.readClock elapsed)
  | packet p => exact onPacket_burst h
  | payloads elapsed burst =>
    cases h
    exact ⟨_, rfl⟩
  | connections state =>
    cases h
    exact .one s _
  | sweep elapsed =>
    cases h
    exact .one s _
  | reap =>
    cases h
    exact .one s _
  | reload rules =>
    cases h
    exact .one s _

/-- An Initial packet whose DCID has the length of an SCID. -/
def firstPacket : Packet where
  header := some ⟨List.replicate 16 1, true, true⟩
  source := .v4 0x01010101 4000
  accepted := some (⟨List.replicate 16 7, rfl⟩, ⟨false, false, none⟩)
  state := ⟨false, false, some (secs 1)⟩
  received := true
  http3 := false
  events := []
  elapsed := 0
  datagrams := []

/-- A later packet of that connection, carrying a request on stream 0. -/
def requestPacket : Packet where
  header := some ⟨List.replicate 16 7, false, true⟩
  source := .v4 0x01010101 4000
  accepted := none
  state := ⟨true, false, some (secs 20)⟩
  received := true
  http3 := true
  events := [.headers 0 plainRequest ⟨⟨true, fun _ => .opened⟩, true, 5⟩]
  elapsed := 0
  datagrams := []

/-- A packet that does not parse. -/
def malformedPacket : Packet := { requestPacket with header := none }

end ZeroMasque.Server
