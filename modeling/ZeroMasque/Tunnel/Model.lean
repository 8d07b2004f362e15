import ZeroMasque.Client.Traffic
import ZeroMasque.Server.TargetTasks

/-! A session of the client and the server it dials, with the network between
them. Requests and responses arrive at most once and as sent; datagrams may be
lost and reordered, but are neither forged nor duplicated. Every other
connection of the server does as it likes. -/
namespace ZeroMasque
open Foundation Server

/-- The server's side of the session: not there yet, a connection in the table,
or a connection that has been removed or replaced. -/
inductive Link where
  | unconnected
  | live (c : Scid)
  | gone
  deriving DecidableEq

/-- Client, server and what is on its way between them. The channels in `mine`
belong to the tasks spawned for the session. -/
structure Tunnel where
  host : Host
  session : Session
  link : Link
  requests : List (UInt64 × List Header)
  responses : List (UInt64 × List Header)
  up : List Bytes
  down : List Bytes
  mine : List Nat

/-- What happens to the session on both sides, in order. -/
inductive Mark where
  | session (e : SessionEffect)
  | inserted (flow : UInt64)
  | removed (flow : UInt64)
  | reached (flow : UInt64) (channel : Nat) (payload : Bytes)
  | missed (flow : UInt64)
  | written (channel : Nat) (flow : UInt64) (payload : Bytes) (sent : Bool)
  | replied (channel : Nat) (flow : UInt64) (payload : Bytes)
  deriving DecidableEq

inductive TunnelAct where
  | host (i : HostAct)
  | attach (scid : Scid) (dcid : Bytes) (peer : SocketAddr) (state : Conn)
  | session (a : SessionAct)

/-- The connection id the server draws for a new connection. -/
def TunnelAct.drawn : TunnelAct → Option Scid
  | .host (.server (.accept scid _ _ _)) | .attach scid _ _ _ => some scid
  | _ => none

/-- The step neither sends a request nor draws a connection id. -/
def TunnelAct.quiet : TunnelAct → Bool
  | .session (.openPending _) => false
  | i => i.drawn.isNone

namespace Tunnel

def new (rules : RuleTable) (clock : Instant) : Tunnel :=
  ⟨Host.new rules clock, Session.new, .unconnected, [], [], [], [], []⟩

/-- Take from the network what the server is about to read from the session's
connection. -/
def fromClient (t : Tunnel) : HostAct → Option Tunnel
  | .server (.poll c (.headers stream list _)) =>
    if t.link = .live c then
      if (stream, list) ∈ t.requests then some { t with requests := t.requests.erase (stream, list) }
      else none
    else some t
  | .server (.datagram c bytes _) =>
    if t.link = .live c then
      if bytes ∈ t.up then some { t with up := t.up.erase bytes } else none
    else some t
  | _ => some t

/-- Take from the network what the session is about to read. -/
def fromServer (t : Tunnel) : SessionAct → Option Tunnel
  | .poll (.headers stream list) =>
    if (stream, list) ∈ t.responses then some { t with responses := t.responses.erase (stream, list) }
    else none
  | .route bytes => if bytes ∈ t.down then some { t with down := t.down.erase bytes } else none
  | _ => some t

/-- The mark an effect of the host leaves if it is about the session. -/
def mark (t : Tunnel) : HostEffect → Option Mark
  | .server (.opened c flow _ _) => if t.link = .live c then some (.inserted flow) else none
  | .server (.closed c flow) => if t.link = .live c then some (.removed flow) else none
  | .server (.toTarget c flow channel payload _ _) =>
    if t.link = .live c then some (.reached flow channel payload) else none
  | .server (.noFlow c flow) => if t.link = .live c then some (.missed flow) else none
  | .written channel payload sent =>
    if channel ∈ t.mine then t.host.tasks[channel]?.map fun task => .written channel task.flow payload sent
    else none
  | .replied channel payload _ =>
    if channel ∈ t.mine then t.host.tasks[channel]?.map fun task => .replied channel task.flow payload
    else none
  | _ => none

def response (t : Tunnel) : HostEffect → Option (UInt64 × List Header)
  | .server (.respond c stream headers _ sent) =>
    if t.link = .live c ∧ sent then some (stream, headers) else none
  | _ => none

def datagram (t : Tunnel) : HostEffect → Option Bytes
  | .server (.dgramSend c bytes) => if t.link = .live c then some bytes else none
  | _ => none

def spawned (t : Tunnel) : HostEffect → Option Nat
  | .server (.spawn c _ channel _) => if t.link = .live c then some channel else none
  | _ => none

/-- The effect removes or replaces the session's connection. -/
def cut (t : Tunnel) : HostEffect → Bool
  | .server e => e.replaced.any fun c => t.link = .live c
  | _ => false

/-- The tunnel after a step of the host. -/
def observe (t : Tunnel) (host : Host) (es : List HostEffect) : Tunnel :=
  { t with
    host := host
    link := if es.any t.cut then .gone else t.link
    responses := t.responses ++ es.filterMap t.response
    down := t.down ++ es.filterMap t.datagram
    mine := t.mine ++ es.filterMap t.spawned }

def request : SessionEffect → Option (UInt64 × List Header)
  | .request _ stream headers => some (stream, headers)
  | _ => none

def framed : SessionEffect → Option Bytes
  | .sendDatagram _ flow payload => some (Dgram.encode flow payload)
  | _ => none

/-- One step of the server, of a task or of the session; none if it is not enabled. -/
def step (d : Dialed) (t : Tunnel) : TunnelAct → Option (Tunnel × List Mark)
  | .host i =>
    (t.fromClient i).bind fun t =>
      (t.host.step i).map fun done => (t.observe done.1 done.2, done.2.filterMap t.mark)
  | .attach scid dcid peer state =>
    if t.link = .unconnected then
      some ({ t with host := (t.host.serve (.accept scid dcid peer state)).1, link := .live scid }, [])
    else none
  | .session a =>
    (t.fromServer a).map fun t =>
      let done := t.session.act d a
      ({ t with
          session := done.1
          requests := t.requests ++ done.2.filterMap request
          up := t.up ++ done.2.filterMap framed },
        done.2.map .session)

/-- What the session itself saw of a trace. -/
def seen (tr : List Mark) : List SessionEffect :=
  tr.filterMap fun
    | .session e => some e
    | _ => none

/-- What the surroundings guarantee: fresh streams for new requests, and some
freshness of the connection ids the server draws. -/
structure Admitted (fresh : Tunnel → Scid → Prop) (tr : List Mark) (t : Tunnel) (i : TunnelAct) : Prop where
  granted : ∀ a, i = .session a → Session.Granted (seen tr) a
  drawn : ∀ scid ∈ i.drawn, fresh t scid

/-- Runs of the whole system under any interleaving. -/
abbrev TunnelRun (fresh : Tunnel → Scid → Prop) (d : Dialed) (rules : RuleTable) (start : Instant) :
    List Mark → Tunnel → Prop :=
  Run (step d) (Admitted fresh) (new rules start)

/-- Steps that neither send requests nor draw connection ids are always admitted. -/
theorem Admitted.quiet {fresh : Tunnel → Scid → Prop} {i : TunnelAct} (hi : i.quiet = true)
    (tr : List Mark) (t : Tunnel) : Admitted fresh tr t i := by
  refine ⟨?_, ?_⟩
  · rintro a rfl outcome rfl
    cases hi
  · intro scid hscid
    unfold TunnelAct.quiet at hi
    split at hi
    · cases hscid
    · rw [Option.mem_def.mp hscid] at hi
      cases hi

theorem TunnelRun.extend {fresh : Tunnel → Scid → Prop} {d : Dialed} {rules : RuleTable} {start : Instant}
    {tr : List Mark} {t : Tunnel} (hr : TunnelRun fresh d rules start tr t) (is : List TunnelAct)
    (hq : is.all TunnelAct.quiet = true) (h : (attempt (step d) t is).isSome) :
    TunnelRun fresh d rules start (tr ++ ((attempt (step d) t is).get h).2)
      ((attempt (step d) t is).get h).1 :=
  Run.extend hr is (fun i hi => .quiet (List.all_eq_true.mp hq i hi)) h

/-- What the server's side reads is taken from the network. -/
inductive Taken (t : Tunnel) : HostAct → Tunnel → Prop
  | request (c : Scid) (stream : UInt64) (list : List Header) (answers : Answers)
      (hl : t.link = .live c) (hm : (stream, list) ∈ t.requests) :
      Taken t (.server (.poll c (.headers stream list answers)))
        { t with requests := t.requests.erase (stream, list) }
  | datagram (c : Scid) (bytes : Bytes) (full : Bool) (hl : t.link = .live c) (hm : bytes ∈ t.up) :
      Taken t (.server (.datagram c bytes full)) { t with up := t.up.erase bytes }
  | nothing (i : HostAct)
      (hd : ∀ c bytes full, i = .server (.datagram c bytes full) → t.link ≠ .live c) : Taken t i t

private theorem fromClient_taken {t t' : Tunnel} {i : HostAct} (h : t.fromClient i = some t') : Taken t i t' := by
  unfold fromClient at h
  split at h
  · split_ifs at h with hl hm
    · cases h
      exact .request _ _ _ _ hl hm
    · cases h
      exact .nothing _ (by simp)
  · split_ifs at h with hl hm
    · cases h
      exact .datagram _ _ _ hl hm
    · cases h
      refine .nothing _ fun c bytes full heq => ?_
      cases heq
      exact hl
  · rename_i hno
    cases h
    exact .nothing _ fun c bytes full heq => (hno c bytes full heq).elim

theorem Taken.frame {t t' : Tunnel} {i : HostAct} (h : Taken t i t') :
    ∃ requests up, t' = { t with requests := requests, up := up } := by
  cases h <;> exact ⟨_, _, rfl⟩

theorem Taken.datagram_mem {t t' : Tunnel} {c : Scid} {bytes : Bytes} {full : Bool}
    (h : Taken t (.server (.datagram c bytes full)) t') (hl : t.link = .live c) :
    bytes ∈ t.up ∧ t' = { t with up := t.up.erase bytes } := by
  cases h with
  | datagram _ _ _ _ hm => exact ⟨hm, rfl⟩
  | nothing _ hd => exact absurd hl (hd c bytes full rfl)

theorem cut_live {t : Tunnel} {c : Scid} (hl : t.link = .live c) (e : Effect) :
    t.cut (.server e) = true ↔ e.replaced = some c := by
  cases h : e.replaced <;> simp [cut, h, hl, eq_comm]

theorem observe_live {t : Tunnel} {h : Host} {es : List HostEffect} {c : Scid}
    (hl : (t.observe h es).link = .live c) : t.link = .live c ∧ ∀ e ∈ es, t.cut e = false := by
  simp only [observe] at hl
  split at hl
  · cases hl
  · rename_i hcut
    exact ⟨hl, by simpa using hcut⟩

theorem observe_unconnected {t : Tunnel} {h : Host} {es : List HostEffect}
    (hl : (t.observe h es).link = .unconnected) : t.link = .unconnected := by
  simp only [observe] at hl
  split at hl
  · cases hl
  · exact hl

/-- What the session reads is taken from the network. -/
inductive Fetched (t : Tunnel) : SessionAct → Tunnel → Prop
  | response (stream : UInt64) (list : List Header) (hm : (stream, list) ∈ t.responses) :
      Fetched t (.poll (.headers stream list))
        { t with responses := t.responses.erase (stream, list) }
  | datagram (bytes : Bytes) (hm : bytes ∈ t.down) :
      Fetched t (.route bytes) { t with down := t.down.erase bytes }
  | nothing (a : SessionAct) (hh : ∀ stream list, a ≠ .poll (.headers stream list))
      (hd : ∀ bytes, a ≠ .route bytes) : Fetched t a t

private theorem fromServer_fetched {t t' : Tunnel} {a : SessionAct} (h : t.fromServer a = some t') :
    Fetched t a t' := by
  unfold fromServer at h
  split at h
  · split_ifs at h with hm
    cases h
    exact .response _ _ hm
  · split_ifs at h with hm
    cases h
    exact .datagram _ hm
  · rename_i hh hd
    cases h
    exact .nothing _ hh hd

theorem Fetched.frame {t t' : Tunnel} {a : SessionAct} (h : Fetched t a t') :
    ∃ responses down, t' = { t with responses := responses, down := down } := by
  cases h <;> exact ⟨_, _, rfl⟩

theorem Fetched.session_eq {t t' : Tunnel} {a : SessionAct} (h : Fetched t a t') : t'.session = t.session := by
  obtain ⟨responses, down, rfl⟩ := h.frame
  rfl

theorem Fetched.response_mem {t t' : Tunnel} {stream : UInt64} {list : List Header}
    (h : Fetched t (.poll (.headers stream list)) t') : (stream, list) ∈ t.responses := by
  cases h with
  | response _ _ hm => exact hm
  | nothing _ hh hd => exact absurd rfl (hh stream list)

theorem Fetched.datagram_mem {t t' : Tunnel} {bytes : Bytes} (h : Fetched t (.route bytes) t') :
    bytes ∈ t.down ∧ t' = { t with down := t.down.erase bytes } := by
  cases h with
  | datagram _ hm => exact ⟨hm, rfl⟩
  | nothing _ hh hd => exact absurd rfl (hd bytes)

/-- The session after an action, with what it put on the network. -/
def afterSession (d : Dialed) (t : Tunnel) (a : SessionAct) : Tunnel :=
  { t with
    session := (t.session.act d a).1
    requests := t.requests ++ (t.session.act d a).2.filterMap request
    up := t.up ++ (t.session.act d a).2.filterMap framed }

/-- Everything a step of the whole can do. -/
inductive Turn (d : Dialed) (t : Tunnel) : TunnelAct → Tunnel → List Mark → Prop
  | host (i : HostAct) (t' : Tunnel) (h : Host) (es : List HostEffect) (hin : Taken t i t')
      (hs : Host.Transition t'.host i h es) :
      Turn d t (.host i) (t'.observe h es) (es.filterMap t'.mark)
  | attach (scid : Scid) (dcid : Bytes) (peer : SocketAddr) (state : Conn) (hl : t.link = .unconnected) :
      Turn d t (.attach scid dcid peer state)
        { t with host := (t.host.serve (.accept scid dcid peer state)).1, link := .live scid } []
  | session (a : SessionAct) (t' : Tunnel) (hin : Fetched t a t') :
      Turn d t (.session a) (t'.afterSession d a) ((t'.session.act d a).2.map .session)

theorem step_turn {d : Dialed} {t t' : Tunnel} {i : TunnelAct} {ms : List Mark}
    (h : t.step d i = some (t', ms)) : Turn d t i t' ms := by
  cases i with
  | host i =>
    obtain ⟨t0, hin, hmap⟩ := Option.bind_eq_some_iff.mp h
    obtain ⟨⟨h', es⟩, hs, heq⟩ := Option.map_eq_some_iff.mp hmap
    cases heq
    exact .host i t0 h' es (fromClient_taken hin) (Host.step_transition hs)
  | attach scid dcid peer state =>
    dsimp only [step] at h
    split_ifs at h with hl
    cases h
    exact .attach scid dcid peer state hl
  | session a =>
    obtain ⟨t0, hin, heq⟩ := Option.map_eq_some_iff.mp h
    cases heq
    exact .session a t0 (fromServer_fetched hin)

/-- A source without a flow gets the first stream. -/
theorem TunnelRun.open {fresh : Tunnel → Scid → Prop} {d : Dialed} {rules : RuleTable} {start : Instant}
    {tr : List Mark} {t : Tunnel} (hr : TunnelRun fresh d rules start tr t) (src : SocketAddr)
    (hun : ∀ e ∈ seen tr, (e matches .request ..) = false) :
    TunnelRun fresh d rules start
      (tr ++ (t.session.act d (.openPending (Session.oneStream src 0))).2.map .session)
      (t.afterSession d (.openPending (Session.oneStream src 0))) := by
  refine .next (.session (.openPending (Session.oneStream src 0))) hr ⟨?_, by simp [TunnelAct.drawn]⟩ rfl
  rintro a ⟨⟩ outcome ⟨⟩
  exact Session.oneStream_fresh rfl hun

/-- A proxy to dial, a connection id and a local source. -/
def home : Dialed := ⟨"proxy:4433", "/masque"⟩

def ours : Scid := ⟨List.replicate 16 8, rfl⟩

def app : SocketAddr := .v4 0x7f000001 9000

/-- The server reads the session's first request and answers it. -/
def serveFirst (list : List Header) : TunnelAct :=
  .host (.server (.poll ours (.headers 0 list ⟨⟨true, fun _ => .opened⟩, true, 5⟩)))

@[simp] theorem seen_append (tr ms : List Mark) : seen (tr ++ ms) = seen tr ++ seen ms :=
  List.filterMap_append ..

theorem mem_seen {tr : List Mark} {e : SessionEffect} : e ∈ seen tr ↔ .session e ∈ tr := by
  simp only [seen, List.mem_filterMap]
  constructor
  · rintro ⟨m, hm, he⟩
    split at he
    · cases he
      exact hm
    · cases he
  · intro h
    exact ⟨_, h, rfl⟩

theorem seen_session (es : List SessionEffect) : seen (es.map .session) = es := by
  simp [seen, List.filterMap_map]

private theorem mark_ne_session (t : Tunnel) (e : HostEffect) (x : SessionEffect) :
    t.mark e ≠ some (.session x) := by
  unfold mark
  split <;> (try split) <;> simp

theorem mark_written {t : Tunnel} {e : HostEffect} {channel : Nat} {f : UInt64} {p : Bytes}
    {sent : Bool} (h : t.mark e = some (.written channel f p sent)) :
    e = .written channel p sent ∧ channel ∈ t.mine ∧
      t.host.tasks[channel]?.map Task.flow = some f := by
  unfold mark at h
  split at h
  case h_5 number payload answer =>
    simp only [Option.ite_none_right_eq_some, Option.map_eq_some_iff, Mark.written.injEq] at h
    obtain ⟨hm, task, htask, rfl, hflow, rfl, rfl⟩ := h
    exact ⟨rfl, hm, by simp [htask, hflow]⟩
  all_goals simp at h

theorem mark_reached {t : Tunnel} {e : HostEffect} {channel : Nat} {f : UInt64} {p : Bytes}
    (h : t.mark e = some (.reached f channel p)) :
    ∃ c full now, e = .server (.toTarget c f channel p full now) ∧ t.link = .live c := by
  unfold mark at h
  split at h
  case h_3 c flow number payload full now =>
    simp only [Option.ite_none_right_eq_some, Option.some.injEq, Mark.reached.injEq] at h
    obtain ⟨hl, rfl, rfl, rfl⟩ := h
    exact ⟨c, full, now, rfl, hl⟩
  all_goals simp at h

theorem seen_host (t : Tunnel) (es : List HostEffect) : seen (es.filterMap t.mark) = [] := by
  rw [List.eq_nil_iff_forall_not_mem]
  intro x hx
  obtain ⟨e, -, he⟩ := List.mem_filterMap.mp (mem_seen.mp hx)
  exact mark_ne_session t e x he

/-- The session's own part of a run is a run of the session. -/
theorem TunnelRun.session {fresh : Tunnel → Scid → Prop} {d : Dialed} {rules : RuleTable} {start : Instant}
    {tr : List Mark} {t : Tunnel} (h : TunnelRun fresh d rules start tr t) :
    Session.SessionRun d (seen tr) t.session := by
  refine Run.invariant (P := fun tr t => Session.SessionRun d (seen tr) t.session) .init ?_ h
  intro tr t i t' ms _ ih hok hs
  rw [seen_append]
  cases step_turn hs with
  | host i t0 h' es hin htrans =>
    obtain ⟨requests, up, rfl⟩ := hin.frame
    rw [seen_host, List.append_nil]
    exact ih
  | attach scid dcid peer state hl =>
    rw [show seen [] = [] from rfl, List.append_nil]
    exact ih
  | session a t0 hin =>
    obtain ⟨responses, down, rfl⟩ := hin.frame
    rw [seen_session]
    exact .next a ih (hok.granted a rfl) rfl

/-- Flow and payload of a framed datagram. -/
def carried (bytes : Bytes) : Option (UInt64 × Bytes) :=
  (Dgram.decode bytes).map fun parsed => (parsed.flowId, parsed.payload)

theorem carried_encode {f : UInt64} (hf : f.toNat < 2 ^ 62) (p : Bytes) :
    carried (Dgram.encode f p) = some (f, p) := by
  rw [carried, Dgram.decode_encode f hf p]
  rfl

def ofSession {β : Type} (g : SessionEffect → Option β) : Mark → Option β
  | .session e => g e
  | _ => none

theorem bag_ofSession {β : Type} (g : SessionEffect → Option β) (tr : List Mark) :
    bag (ofSession g) tr = bag g (seen tr) := by
  rw [seen, bag_filterMap]
  congr 1
  funext m
  cases m <;> rfl

/-- Marks of the session say nothing about the server's side. -/
theorem bag_session_none {κ β : Type} [DecidableEq κ] {g : Mark → Option (κ × β)} {k : κ}
    (hg : ∀ e, g (.session e) = none) (es : List SessionEffect) : bag (keyed g k) (es.map .session) = 0 := by
  refine bag_eq_zero fun m hm => ?_
  obtain ⟨e, -, rfl⟩ := List.mem_map.mp hm
  simp [keyed, hg]

theorem bag_host_none {κ β : Type} [DecidableEq κ] (g : SessionEffect → Option (κ × β)) (k : κ)
    (t : Tunnel) (es : List HostEffect) : bag (keyed (ofSession g) k) (es.filterMap t.mark) = 0 := by
  refine bag_eq_zero fun m hm => ?_
  obtain ⟨e, -, he⟩ := List.mem_filterMap.mp hm
  cases m with
  | session x => exact absurd he (mark_ne_session t e x)
  | _ => rfl

end Tunnel
end ZeroMasque
