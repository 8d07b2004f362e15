import ZeroMasque.Agreement
import ZeroMasque.Server.Orphans
import ZeroMasque.Tunnel.Order

/-! The tunnel gets payloads through. From every reachable state with a live
connection, a source without a flow can have what it sends written to the target, and
get an answer back, as soon as the surroundings let it. -/
namespace ZeroMasque

namespace Session
open Foundation

variable {d : Dialed} {src : SocketAddr} {stream : UInt64}

private theorem openOne_other {loop : Session × List SocketAddr} {a : SocketAddr} (ha : a ≠ src) :
    openOne d (oneStream src stream) loop a = (loop, []) := by
  unfold openOne
  split
  · rfl
  · simp [oneStream, ha]

private theorem openOne_again {loop : Session × List SocketAddr} {st : FlowState}
    (hst : loop.1.byAddr.lookup src = some st) (hid : st.flowId.isSome = true) :
    openOne d (oneStream src stream) loop src = (loop, []) := by
  simp only [openOne, hst, hid, if_true]

private theorem drive_opened {loop : Session × List SocketAddr} {st : FlowState}
    (hst : loop.1.byAddr.lookup src = some st) (hid : st.flowId.isSome = true) (srcs : List SocketAddr) :
    drive (openOne d (oneStream src stream)) loop srcs = (loop, []) := by
  induction srcs with
  | nil => rfl
  | cons a srcs ih =>
    have hone : openOne d (oneStream src stream) loop a = (loop, []) := by
      by_cases ha : a = src
      · rw [ha]
        exact openOne_again hst hid
      · exact openOne_other ha
    rw [drive_cons, hone, ih]
    rfl

private theorem drive_oneStream {s : Session} {st : FlowState} (hst : s.byAddr.lookup src = some st)
    (hno : st.flowId = none) {srcs : List SocketAddr} (hmem : src ∈ srcs) :
    drive (openOne d (oneStream src stream)) (s, []) srcs =
      ((⟨s.byAddr.insert src { st with flowId := some (stream / 4) }, s.flows.insert (stream / 4) src⟩, []),
        [.request src stream (connectHeaders d)]) := by
  induction srcs with
  | nil => cases hmem
  | cons a srcs ih =>
    rw [drive_cons]
    by_cases ha : a = src
    · subst ha
      have hone : openOne d (oneStream a stream) (s, []) a =
          ((⟨s.byAddr.insert a { st with flowId := some (stream / 4) }, s.flows.insert (stream / 4) a⟩, []),
            [.request a stream (connectHeaders d)]) := by
        simp [openOne, hst, hno, oneStream]
      rw [hone, drive_opened (AList.lookup_insert _) rfl]
      rfl
    · rw [openOne_other ha, ih ((List.mem_cons.mp hmem).resolve_left (Ne.symm ha))]
      rfl

/-- A source that waits for its flow asks for it when the library grants it a stream. -/
private theorem openPendingFlows_oneStream {s : Session} {st : FlowState} (hst : s.byAddr.lookup src = some st)
    (hno : st.flowId = none) :
    s.openPendingFlows d (oneStream src stream) =
      (⟨s.byAddr.insert src { st with flowId := some (stream / 4) }, s.flows.insert (stream / 4) src⟩,
        [.request src stream (connectHeaders d)]) := by
  have hkey : src ∈ s.byAddr.keys := AList.mem_keys.mp (AList.lookup_isSome.mp (by rw [hst]; rfl))
  rw [openPendingFlows, drive_oneStream hst hno hkey]
  rfl

/-- A stream that no request used is fresh, for whichever source it is granted. -/
private theorem oneStream_unused {tr : List SessionEffect} (h4 : stream.toNat % 4 = 0)
    (hnew : ∀ src' headers, .request src' stream headers ∉ tr) : FreshStreams tr (oneStream src stream) := by
  have hone (a : SocketAddr) (granted : UInt64) :
      oneStream src stream a = .ok granted ↔ a = src ∧ granted = stream := by
    unfold oneStream
    split_ifs with ha <;> simp [ha, eq_comm]
  constructor
  · rintro a granted hok
    rw [((hone a granted).mp hok).2]
    exact h4
  · rintro a granted hok
    rw [((hone a granted).mp hok).2]
    exact hnew
  · intro a b granted ha hb
    rw [((hone a granted).mp ha).1, ((hone b granted).mp hb).1]

end Session

namespace Server
open Foundation

private theorem act_payload (s : Server) (tc : ToClient) :
    (s.act (.payload tc)).2 = if (s.clients.lookup tc.connId).isSome then
      [.dgramSend tc.connId (Dgram.encode tc.flowId tc.payload), .fromTarget tc.connId tc.flowId s.clock] else [] := by
  cases hc : s.clients.lookup tc.connId <;> simp [act, onTargetPayload, atDesk, hc]

/-- Returning a payload leaves every flow its channel. -/
private theorem toTarget_payload (s : Server) (tc : ToClient) (c : Scid) (f : UInt64) :
    ((s.act (.payload tc)).1.flowAt c f).map Flow.toTarget = (s.flowAt c f).map Flow.toTarget := by
  cases hc : s.clients.lookup tc.connId with
  | none => simp [act, onTargetPayload, atDesk, hc]
  | some client =>
    by_cases hconn : c = tc.connId
    · subst hconn
      by_cases hf : f = tc.flowId
      · subst hf
        cases hflow : client.flows.lookup tc.flowId <;>
          simp [act, onTargetPayload, atDesk, hc, flowAt, Table.lookup_modify, hflow]
      · simp [act, onTargetPayload, atDesk, hc, flowAt, Table.lookup_modify, hf]
    · simp [act, onTargetPayload, atDesk, hc, flowAt, hconn]

/-- A request that can be served opens a flow with a task of its own. -/
private theorem act_opens {s : Server} {c : Scid} {client : Client} (hc : s.clients.lookup c = some client)
    {list : List Header} {answers : Answers} (hopens : Opens s.rules client.peer list answers.os)
    (hsent : answers.sent = true) (stream : UInt64) :
    ∃ socket, (s.act (.poll c (.headers stream list answers))).2 =
        [.spawn c (stream / 4) s.channels socket, .opened c (stream / 4) stream (s.clock + answers.elapsed),
          .respond c stream acceptHeaders false true] ∧
      ((s.act (.poll c (.headers stream list answers))).1.flowAt c (stream / 4)).map Flow.toTarget =
        some s.channels := by
  obtain ⟨idleTimeout, socket, hopen⟩ := handleConnectRequest_opens hopens c stream ⟨client.flows, s.clock, s.channels⟩
  refine ⟨socket, ?_, ?_⟩
  · simp only [act, poll, atDesk, hc, hopen, openFlow_effects, hsent, if_true, List.append_nil]
  · simp [act, poll, atDesk, hc, hopen, flowAt, lookup_openFlow, hsent]

end Server

namespace Tunnel
open Foundation Server

/-- The flow is open on both sides and its task has nothing left to write. -/
structure Flowing (t : Tunnel) (c : Scid) (src : SocketAddr) (f : UInt64) (channel : Nat) : Prop where
  link : t.link = .live c
  small : f.toNat < 2 ^ 62
  source : t.session.flows.lookup f = some src
  flow : (t.host.server.flowAt c f).map Flow.toTarget = some channel
  task : ∃ task, t.host.running channel = some task ∧ task.conn = c ∧ task.flow = f ∧ task.queue = []
  mine : channel ∈ t.mine

section Steps
variable {d : Dialed} {t : Tunnel} {c : Scid} {src : SocketAddr} {f : UInt64} {channel : Nat}

private theorem step_datagram (hl : t.link = .live c) (hsmall : f.toNat < 2 ^ 62) {flow : Flow}
    (hflow : t.host.server.flowAt c f = some flow) {p : Bytes} (hm : Dgram.encode f p ∈ t.up) :
    t.step d (.host (.server (.datagram c (Dgram.encode f p) false))) =
      some ({ t with
          up := t.up.erase (Dgram.encode f p)
          host := ⟨(t.host.server.act (.datagram c (Dgram.encode f p) false)).1,
            t.host.tasks.modify flow.toTarget (Task.offer p false), t.host.toClient⟩ },
        [.reached f flow.toTarget p]) := by
  have hact := (act_datagram (s := t.host.server) (c := c) (Dgram.decode_encode f hsmall p) rfl hflow false).1
  simp only [step, fromClient, hl, hm, if_true, Option.bind_some, Host.step, Host.serve, hact, Option.map_some]
  simp [observe, cut, Effect.replaced, response, datagram, spawned, mark, Host.perform]

private theorem step_forward {task : Task} (ht : t.host.running channel = some task) {p : Bytes} {queue : List Bytes}
    (hq : task.queue = p :: queue) (hm : channel ∈ t.mine) (sent : Bool) :
    t.step d (.host (.forward channel sent)) =
      some ({ t with host := { t.host with tasks := t.host.tasks.set channel { task with queue := queue } } },
        [.written channel task.flow p sent]) := by
  obtain ⟨hget, hrun⟩ := Host.running_eq_some ht
  obtain ⟨conn, flow, socket, queue', running⟩ := task
  cases hq
  cases hrun
  simp [step, fromClient, Host.step, ht, observe, cut, response, datagram, spawned, mark, hm, hget]

private theorem step_receive {task : Task} (ht : t.host.running channel = some task) (hm : channel ∈ t.mine)
    (r : Bytes) : t.step d (.host (.receive channel [.ok r false])) =
      some ({ t with
          host := { t.host with
            tasks := t.host.tasks.set channel { task with running := true }
            toClient := t.host.toClient ++ [⟨task.conn, task.flow, r⟩] } },
        [.replied channel task.flow r]) := by
  obtain ⟨hget, hrun⟩ := Host.running_eq_some ht
  simp [step, fromClient, Host.step, ht, readLoop, recvBatchLen, observe, cut, response, datagram, spawned, mark, hm,
    hget]

private theorem running_set {h : Host} {task : Task} (ht : h.running channel = some task) (task' : Task)
    (hrun : task'.running = true) (s : Server) (replies : List ToClient) :
    Host.running ⟨s, h.tasks.set channel task', replies⟩ channel = some task' := by
  have hlt := (List.getElem?_eq_some_iff.mp (Host.running_eq_some ht).1).1
  simp [Host.running, hlt, hrun]

/-- The session reads the reply and delivers it to the source of the flow. -/
private theorem step_route (hsmall : f.toNat < 2 ^ 62) (hsrc : t.session.flows.lookup f = some src) {r : Bytes}
    (hm : Dgram.encode f r ∈ t.down) :
    t.step d (.session (.route (Dgram.encode f r))) =
      some ({ t with down := t.down.erase (Dgram.encode f r) }, [.session (.deliver f src r)]) := by
  have hroute : t.session.routeDatagram (Dgram.encode f r) = [.deliver f src r] := by
    simp [Session.routeDatagram, Dgram.decode_encode f hsmall r, hsrc]
  simp [step, fromServer, hm, Session.act, hroute, request, framed]

/-- The first waiting reply goes out, if its connection is there. -/
private theorem step_reply {tc : ToClient} {rest : List ToClient} (hq : t.host.toClient = tc :: rest) :
    t.step d (.host .reply) =
      some ({ t with
          host := ⟨(t.host.server.act (.payload tc)).1, t.host.tasks, rest⟩
          down := t.down ++ if (t.host.server.clients.lookup tc.connId).isSome ∧ t.link = .live tc.connId then
            [Dgram.encode tc.flowId tc.payload] else [] }, []) := by
  simp only [step, fromClient, Option.bind_some, Host.step, hq, Host.serve, act_payload, Option.map_some]
  cases (t.host.server.clients.lookup tc.connId).isSome with
  | false => simp [observe]
  | true =>
    by_cases hl : t.link = .live tc.connId <;>
      simp [observe, cut, Effect.replaced, response, datagram, spawned, mark, Host.perform, hl, List.filterMap_cons]

/-- The library grants a waiting source a stream. -/
private theorem step_ask {stream : UInt64} {st : FlowState} (hst : t.session.byAddr.lookup src = some st)
    (hno : st.flowId = none) :
    t.step d (.session (.openPending (Session.oneStream src stream))) =
      some ({ t with
          session := ⟨t.session.byAddr.insert src { st with flowId := some (stream / 4) },
            t.session.flows.insert (stream / 4) src⟩
          requests := t.requests ++ [(stream, connectHeaders d)] },
        [.session (.request src stream (connectHeaders d))]) := by
  simp [step, fromServer, Session.act, Session.openPendingFlows_oneStream hst hno, request, framed]

/-- The server reads the request, opens the flow and answers. -/
private theorem step_request {list : List Header} {answers : Answers} {stream : UInt64} {socket : TargetSocket}
    {now : Instant} (hl : t.link = .live c) (hm : (stream, list) ∈ t.requests)
    (hact : (t.host.server.act (.poll c (.headers stream list answers))).2 =
      [.spawn c (stream / 4) t.host.server.channels socket, .opened c (stream / 4) stream now,
        .respond c stream acceptHeaders false true]) :
    t.step d (.host (.server (.poll c (.headers stream list answers)))) =
      some ({ t with
          requests := t.requests.erase (stream, list)
          responses := t.responses ++ [(stream, acceptHeaders)]
          mine := t.mine ++ [t.host.server.channels]
          host := ⟨(t.host.server.act (.poll c (.headers stream list answers))).1,
            t.host.tasks ++ [⟨c, stream / 4, socket, [], true⟩], t.host.toClient⟩ },
        [.inserted (stream / 4)]) := by
  simp only [step, fromClient, hl, hm, if_true, Option.bind_some, Host.step, Host.serve, hact, Option.map_some]
  simp [observe, cut, Effect.replaced, response, datagram, spawned, mark, Host.perform, List.filterMap_cons]

/-- The session learns that its flow is there and sends what it held back. -/
private theorem step_accepted {stream : UInt64} (hm : (stream, acceptHeaders) ∈ t.responses)
    (hsrc : t.session.flows.lookup (stream / 4) = some src) {st : FlowState}
    (hst : t.session.byAddr.lookup src = some st) :
    t.step d (.session (.poll (.headers stream acceptHeaders))) =
      some ({ t with
          responses := t.responses.erase (stream, acceptHeaders)
          session := ⟨t.session.byAddr.insert src { st with established := true, pending := [] }, t.session.flows⟩
          up := t.up ++ st.pending.map (Dgram.encode (stream / 4)) },
        st.pending.map fun p => .session (.sendDatagram src (stream / 4) p)) := by
  have hstatus : statusOf acceptHeaders = some 200 := by decide
  have hact : t.session.act d (.poll (.headers stream acceptHeaders)) =
      (⟨t.session.byAddr.insert src { st with established := true, pending := [] }, t.session.flows⟩,
        st.pending.map (.sendDatagram src (stream / 4))) := by
    simp [Session.act, Session.onResponse, hstatus, Session.accepted, hsrc, hst]
  simp [step, fromServer, hm, hact, List.filterMap_map, Function.comp_def, request, framed]

end Steps

/-- Every write to a target socket succeeded. -/
def AllSent (ms : List Mark) : Prop := ∀ channel f p sent, .written channel f p sent ∈ ms → sent = true

private theorem AllSent.append {ms ms' : List Mark} (h : AllSent ms) (h' : AllSent ms') : AllSent (ms ++ ms') := by
  intro channel f p sent hm
  rcases List.mem_append.mp hm with hm | hm
  · exact h channel f p sent hm
  · exact h' channel f p sent hm

section Stages
variable {fresh : Tunnel → Scid → Prop} {d : Dialed} {rules : RuleTable} {start : Instant} {tr : List Mark} {t : Tunnel}
  {c : Scid} {src : SocketAddr} {f : UInt64} {channel : Nat}

/-- One payload of the flow is read from the network and written to the target. -/
private theorem Flowing.write (h : Flowing t c src f channel) (hr : TunnelRun fresh d rules start tr t) {p : Bytes}
    (hm : Dgram.encode f p ∈ t.up) :
    ∃ t', TunnelRun fresh d rules start (tr ++ [.reached f channel p, .written channel f p true]) t' ∧
      Flowing t' c src f channel ∧ t'.up = t.up.erase (Dgram.encode f p) := by
  obtain ⟨flow, hflow, rfl⟩ := Option.map_eq_some_iff.mp h.flow
  obtain ⟨task, ht, hconn, rfl, hq⟩ := h.task
  have hact := (act_datagram (c := c) (Dgram.decode_encode task.flow h.small p) rfl hflow false).2
  have hreached := Run.next (.host (.server (.datagram c (Dgram.encode task.flow p) false))) hr (.quiet rfl _ _)
    (step_datagram h.link h.small hflow hm)
  have ht' : Host.running ⟨(t.host.server.act (.datagram c (Dgram.encode task.flow p) false)).1,
      t.host.tasks.modify flow.toTarget (Task.offer p false), t.host.toClient⟩ flow.toTarget =
        some { task with queue := [p] } := by
    obtain ⟨hget, hrun⟩ := Host.running_eq_some ht
    simp [Host.running, hget, Task.offer, hrun, hq]
  have hwritten := Run.next (.host (.forward flow.toTarget true)) hreached (.quiet rfl _ _)
    (step_forward ht' rfl (by exact h.mine) true)
  rw [List.append_assoc] at hwritten
  refine ⟨_, hwritten, ⟨h.link, h.small, h.source, ?_, ⟨{ task with queue := [] }, ?_, hconn, rfl, rfl⟩, h.mine⟩, rfl⟩
  · exact congrArg (Option.map Flow.toTarget) hact
  · exact running_set ht' { task with queue := [] } (Host.running_eq_some ht).2 _ _

/-- Everything of the flow that is on its way is written to the target, in order. -/
private theorem Flowing.writeAll (h : Flowing t c src f channel) (hr : TunnelRun fresh d rules start tr t)
    {ps : List Bytes} (hm : (ps.map (Dgram.encode f)).Subperm t.up) :
    ∃ ms t', TunnelRun fresh d rules start (tr ++ ms) t' ∧ Flowing t' c src f channel ∧
      ms.filterMap (keyed writtenOn (channel, f)) = ps ∧ AllSent ms := by
  induction ps generalizing tr t with
  | nil => exact ⟨[], t, by rwa [List.append_nil], h, rfl, nofun⟩
  | cons p ps ih =>
    obtain ⟨t', hr', h', hup⟩ := h.write hr (hm.subset List.mem_cons_self)
    have hm' : (ps.map (Dgram.encode f)).Subperm t'.up := by
      have herased := hm.erase (Dgram.encode f p)
      rwa [List.map_cons, List.erase_cons_head, ← hup] at herased
    obtain ⟨ms, t'', hr'', h'', hms, hsent⟩ := ih h' hr' hm'
    refine ⟨[.reached f channel p, .written channel f p true] ++ ms, t'', by rwa [← List.append_assoc], h'', ?_,
      .append (by simp [AllSent]) hsent⟩
    rw [List.filterMap_append, hms]
    simp [List.filterMap_cons, keyed, writtenOn]

/-- A waiting reply goes out. -/
private theorem Flowing.reply (h : Flowing t c src f channel) (hr : TunnelRun fresh d rules start tr t) {tc : ToClient}
    {rest : List ToClient} (hq : t.host.toClient = tc :: rest) :
    ∃ t', TunnelRun fresh d rules start tr t' ∧ Flowing t' c src f channel ∧ t'.host.toClient = rest ∧
      t.down ⊆ t'.down ∧ (tc.connId = c → Dgram.encode tc.flowId tc.payload ∈ t'.down) := by
  have hnext := Run.next (.host .reply) hr (.quiet rfl _ _) (step_reply hq)
  rw [List.append_nil] at hnext
  refine ⟨_, hnext, ⟨h.link, h.small, h.source, ?_, h.task, h.mine⟩, rfl, List.subset_append_left _ _, ?_⟩
  · exact (toTarget_payload t.host.server tc c f).trans h.flow
  · rintro rfl
    have hclient : (t.host.server.clients.lookup tc.connId).isSome := by
      obtain ⟨flow, hflow, -⟩ := Option.map_eq_some_iff.mp h.flow
      obtain ⟨client, hclient, -⟩ := Option.bind_eq_some_iff.mp hflow
      rw [hclient]
      rfl
    simp [hclient, h.link]

/-- All waiting replies go out, those of the connection to the session. -/
private theorem Flowing.drain (h : Flowing t c src f channel) (hr : TunnelRun fresh d rules start tr t) :
    ∃ t', TunnelRun fresh d rules start tr t' ∧ Flowing t' c src f channel ∧ t.down ⊆ t'.down ∧
      ∀ tc ∈ t.host.toClient, tc.connId = c → Dgram.encode tc.flowId tc.payload ∈ t'.down := by
  generalize hq : t.host.toClient = replies
  induction replies generalizing t with
  | nil => exact ⟨t, hr, h, List.Subset.refl _, nofun⟩
  | cons tc rest ih =>
    obtain ⟨t1, hr1, h1, hq1, hdown1, hsent1⟩ := h.reply hr hq
    obtain ⟨t2, hr2, h2, hdown2, hsent2⟩ := ih h1 hr1 hq1
    refine ⟨t2, hr2, h2, List.Subset.trans hdown1 hdown2, fun tc' hmem hconn => ?_⟩
    rcases List.mem_cons.mp hmem with rfl | hmem
    · exact hdown2 (hsent1 hconn)
    · exact hsent2 tc' hmem hconn

/-- The task reads a reply and queues it. -/
private theorem Flowing.read (h : Flowing t c src f channel) (hr : TunnelRun fresh d rules start tr t) (r : Bytes) :
    ∃ t', TunnelRun fresh d rules start (tr ++ [.replied channel f r]) t' ∧ Flowing t' c src f channel ∧
      ⟨c, f, r⟩ ∈ t'.host.toClient := by
  obtain ⟨task, ht, rfl, rfl, hq⟩ := h.task
  have hread := Run.next (.host (.receive channel [.ok r false])) hr (.quiet rfl _ _) (step_receive ht h.mine r)
  exact ⟨_, hread, ⟨h.link, h.small, h.source, h.flow, ⟨_, running_set ht _ rfl _ _, rfl, rfl, hq⟩, h.mine⟩, by simp⟩

/-- A reply of the target gets back to the source. -/
private theorem Flowing.answer (h : Flowing t c src f channel) (hr : TunnelRun fresh d rules start tr t) (r : Bytes) :
    ∃ t', TunnelRun fresh d rules start (tr ++ [.replied channel f r, .session (.deliver f src r)]) t' := by
  obtain ⟨t1, hr1, h1, hqueued⟩ := h.read hr r
  obtain ⟨t2, hr2, h2, -, hsent⟩ := h1.drain hr1
  have hdelivered := Run.next (.session (.route (Dgram.encode f r))) hr2 (.quiet rfl _ _)
    (step_route h2.small h2.source (hsent ⟨c, f, r⟩ hqueued rfl))
  rw [List.append_assoc] at hdelivered
  exact ⟨_, hdelivered⟩

end Stages

section Opening
variable {d : Dialed} {rules : RuleTable} {start : Instant} {tr : List Mark} {t : Tunnel} {c : Scid} {src : SocketAddr}
  {stream : UInt64}

/-- The source has asked for its flow, and the request is on its way. -/
structure Asking (d : Dialed) (t : Tunnel) (src : SocketAddr) (stream : UInt64) (pending : List Bytes) : Prop where
  source : t.session.flows.lookup (stream / 4) = some src
  state : (t.session.byAddr.lookup src).map FlowState.pending = some pending
  request : (stream, connectHeaders d) ∈ t.requests

/-- A waiting source asks for its flow. -/
private theorem asking (hr : TunnelRun Unused d rules start tr t) {st : FlowState}
    (hst : t.session.byAddr.lookup src = some st) (hno : st.flowId = none)
    (hfresh : Session.FreshStreams (seen tr) (Session.oneStream src stream)) :
    ∃ ms t', TunnelRun Unused d rules start (tr ++ ms) t' ∧ Asking d t' src stream st.pending ∧ t'.host = t.host ∧
      t'.link = t.link ∧ ∀ channel f p sent, .written channel f p sent ∉ ms := by
  have hnext := Run.next (.session (.openPending (Session.oneStream src stream))) hr
    ⟨by rintro a ⟨⟩ outcome ⟨⟩; exact hfresh, by simp [TunnelAct.drawn]⟩ (step_ask hst hno)
  exact ⟨_, _, hnext, ⟨by simp, by simp, by simp⟩, rfl, rfl, by simp⟩

private theorem Asking.serve {client : Client} {pending : List Bytes} (h : Asking d t src stream pending)
    (hr : TunnelRun Unused d rules start tr t) (hl : t.link = .live c)
    (hc : t.host.server.clients.lookup c = some client) {answers : Answers} (hsent : answers.sent = true)
    (hopens : Opens t.host.server.rules client.peer (connectHeaders d) answers.os) :
    ∃ ms t' channel, TunnelRun Unused d rules start (tr ++ ms) t' ∧ Flowing t' c src (stream / 4) channel ∧
      (pending.map (Dgram.encode (stream / 4))).Subperm t'.up ∧
      ∀ channel f p sent, .written channel f p sent ∉ ms := by
  obtain ⟨st, hst, rfl⟩ := Option.map_eq_some_iff.mp h.state
  obtain ⟨socket, hact, hflow⟩ := act_opens hc hopens hsent stream
  have hserved := Run.next (.host (.server (.poll c (.headers stream (connectHeaders d) answers)))) hr (.quiet rfl _ _)
    (step_request hl h.request hact)
  have haccepted := Run.next (.session (.poll (.headers stream acceptHeaders))) hserved (.quiet rfl _ _)
    (step_accepted (by simp) (by exact h.source) (by exact hst))
  rw [List.append_assoc] at haccepted
  refine ⟨_, _, t.host.server.channels, haccepted,
    ⟨hl, Dgram.quarter_lt stream, h.source, hflow,
      ⟨⟨c, stream / 4, socket, [], true⟩, ?_, rfl, rfl, rfl⟩, by simp⟩,
    (List.sublist_append_right _ _).subperm, by simp⟩
  have hnumbered : t.host.server.channels = t.host.tasks.length := (TunnelRun.attached hr).numbered
  simp [Host.running, hnumbered]

private theorem written_none {ms : List Mark} (h : ∀ channel f p sent, .written channel f p sent ∉ ms)
    (k : Nat × UInt64) : ms.filterMap (keyed writtenOn k) = [] := by
  refine List.filterMap_eq_nil_iff.mpr fun m hm => ?_
  cases m with
  | written channel f p sent => exact absurd hm (h channel f p sent)
  | _ => rfl

end Opening

section Waiting
variable {fresh : Tunnel → Scid → Prop} {d : Dialed} {rules : RuleTable} {start : Instant} {tr : List Mark} {t : Tunnel}
  {src : SocketAddr}

/-- The source has no flow, and none is asked for. -/
def Unasked (t : Tunnel) (src : SocketAddr) : Prop :=
  ∀ st, t.session.byAddr.lookup src = some st → st.flowId = none

/-- What is held back after one more datagram. -/
def buffered (held : List Bytes) (p : Bytes) : List Bytes := if held.length < maxPending then held ++ [p] else held

private theorem take_buffered {held : List Bytes} (hle : held.length ≤ maxPending) (p : Bytes) (ps : List Bytes) :
    (buffered held p ++ ps).take maxPending = (held ++ p :: ps).take maxPending := by
  unfold buffered
  split_ifs with hroom
  · rw [List.append_assoc, List.singleton_append]
  · have hfull : held.length = maxPending := Nat.le_antisymm hle (Nat.le_of_not_lt hroom)
    rw [List.take_left' hfull, List.take_left' hfull]

private theorem TunnelRun.pendingOf_le (hr : TunnelRun fresh d rules start tr t) (src : SocketAddr) :
    (t.session.pendingOf src).length ≤ maxPending := by
  unfold Session.pendingOf
  cases hst : t.session.byAddr.lookup src with
  | none => exact Nat.zero_le _
  | some st => exact (Session.SessionRun.sound (TunnelRun.session hr)).1.bounded src st hst

/-- A datagram of such a source is held back as long as there is room. -/
private theorem step_local (hno : Unasked t src) (p : Bytes) :
    ∃ st, st.flowId = none ∧ st.pending = buffered (t.session.pendingOf src) p ∧
      t.step d (.session (.localDatagram src p)) =
        some ({ t with session := { t.session with byAddr := t.session.byAddr.insert src st } },
          [.session (.received src p)]) := by
  have hid : ((t.session.byAddr.lookup src).getD ⟨none, false, []⟩).flowId = none := by
    cases hst : t.session.byAddr.lookup src with
    | none => rfl
    | some st => exact hno st hst
  have hheld : ((t.session.byAddr.lookup src).getD ⟨none, false, []⟩).pending = t.session.pendingOf src := by
    unfold Session.pendingOf
    cases t.session.byAddr.lookup src <;> rfl
  refine ⟨{ (t.session.byAddr.lookup src).getD ⟨none, false, []⟩ with
    pending := buffered (t.session.pendingOf src) p }, hid, rfl, ?_⟩
  simp [step, fromServer, Session.act, Session.onLocal, hid, hheld, request, framed, buffered]

/-- The datagrams that such a source sends are held back, up to the bound. -/
private theorem held_back (hr : TunnelRun fresh d rules start tr t) (hno : Unasked t src) (ps : List Bytes) :
    ∃ t', TunnelRun fresh d rules start (tr ++ ps.map fun p => .session (.received src p)) t' ∧ Unasked t' src ∧
      t'.session.pendingOf src = (t.session.pendingOf src ++ ps).take maxPending ∧
      ((t.session.byAddr.lookup src).isSome ∨ ps ≠ [] → (t'.session.byAddr.lookup src).isSome) ∧
      t'.host = t.host ∧ t'.link = t.link := by
  induction ps generalizing tr t with
  | nil =>
    refine ⟨t, by simpa using hr, hno, ?_, by simp, rfl, rfl⟩
    rw [List.append_nil, List.take_of_length_le (TunnelRun.pendingOf_le hr src)]
  | cons p ps ih =>
    obtain ⟨st, hid, hpending, hstep⟩ := step_local (d := d) hno p
    have hnext := Run.next (.session (.localDatagram src p)) hr (.quiet rfl _ _) hstep
    obtain ⟨t', hr', hno', hheld, hsome, hhost, hlink⟩ := ih hnext (by
      intro st' hst'
      rw [AList.lookup_insert] at hst'
      cases hst'
      exact hid)
    refine ⟨t', by simpa using hr', hno', ?_, fun _ => hsome (.inl (by simp)), hhost, hlink⟩
    rw [hheld, ← take_buffered (TunnelRun.pendingOf_le hr src), ← hpending]
    simp [Session.pendingOf]

end Waiting

/-- From every reachable state with a live connection: take a source without a flow,
because it is new, because its flow was refused or ended, or because it still waits for
a stream. It has datagrams held back or sends some now. If the library grants an unused
stream and the request is one that the server can serve, then the tunnel can go on so
that the datagrams are written to the flow's target in order and with success, as far as
the buffer holds them, and whatever the target replies is delivered to the source. -/
theorem datagrams_get_through {d : Dialed} {rules : RuleTable} {start : Instant} {tr : List Mark} {t : Tunnel}
    (hr : TunnelRun Unused d rules start tr t) {c : Scid} (hl : t.link = .live c) {client : Client}
    (hc : t.host.server.clients.lookup c = some client) {src : SocketAddr} (hno : Unasked t src) {ps : List Bytes}
    (hany : (t.session.byAddr.lookup src).isSome ∨ ps ≠ []) {stream : UInt64} (h4 : stream.toNat % 4 = 0)
    (hnew : ∀ src' headers, .request src' stream headers ∉ seen tr) {answers : Answers}
    (hsent : answers.sent = true) (hopens : Opens t.host.server.rules client.peer (connectHeaders d) answers.os) :
    ∃ ms t' channel,
      TunnelRun Unused d rules start (tr ++ (ps.map fun p => .session (.received src p)) ++ ms) t' ∧
      ms.filterMap (keyed writtenOn (channel, stream / 4)) = (t.session.pendingOf src ++ ps).take maxPending ∧
      AllSent ms ∧
      ∀ r, ∃ t'', TunnelRun Unused d rules start (tr ++ (ps.map fun p => .session (.received src p)) ++ ms ++
        [.replied channel (stream / 4) r, .session (.deliver (stream / 4) src r)]) t'' := by
  obtain ⟨t0, hr0, hno0, hheld, hsome, hhost0, hlink0⟩ := held_back hr hno ps
  obtain ⟨st, hst⟩ := Option.isSome_iff_exists.mp (hsome hany)
  have hpending : st.pending = (t.session.pendingOf src ++ ps).take maxPending := by
    rw [← hheld, Session.pendingOf, hst]
    rfl
  have hfresh : ∀ src' headers, .request src' stream headers ∉
      seen (tr ++ ps.map fun p => .session (.received src p)) := by
    intro src' headers
    rw [seen, List.filterMap_append, List.mem_append, not_or]
    exact ⟨hnew src' headers, by simp⟩
  obtain ⟨ms1, t1, hr1, hasking, hhost, hlink, hquiet1⟩ :=
    asking hr0 hst (hno0 st hst) (Session.oneStream_unused h4 hfresh)
  obtain ⟨ms2, t2, channel, hr2, hflowing, hup, hquiet2⟩ :=
    hasking.serve hr1 ((hlink.trans hlink0).trans hl) (by rwa [hhost, hhost0]) hsent (by rwa [hhost, hhost0])
  obtain ⟨ms3, t3, hr3, hflowing3, hwritten, hsent3⟩ := hflowing.writeAll hr2 hup
  rw [List.append_assoc _ ms1, List.append_assoc _ (ms1 ++ ms2)] at hr3
  have hquiet : ∀ channel f p sent, .written channel f p sent ∉ ms1 ++ ms2 := fun channel f p sent hm =>
    (List.mem_append.mp hm).elim (hquiet1 channel f p sent) (hquiet2 channel f p sent)
  refine ⟨_, t3, channel, hr3, ?_, .append (fun channel f p sent hm => (hquiet channel f p sent hm).elim) hsent3,
    fun r => hflowing3.answer hr3 r⟩
  rw [List.filterMap_append, written_none hquiet, hwritten, ← hpending]
  rfl

/-- The session is attached, and a source asks for its flow. -/
def firstAsked : List TunnelAct :=
  [.attach ours [1] (.v4 0x01010101 4000) ⟨true, false, none⟩, .session (.localDatagram app [1]),
    .session (.openPending (Session.oneStream app 0))]

private theorem firstAsked_isSome : (attempt (step home) (new shadowedRules 100) firstAsked).isSome := by decide

private theorem firstAsked_run :
    TunnelRun Unused home shadowedRules 100
      ((attempt (step home) (new shadowedRules 100) firstAsked).get firstAsked_isSome).2
      ((attempt (step home) (new shadowedRules 100) firstAsked).get firstAsked_isSome).1 := by
  have hdialed : TunnelRun Unused home shadowedRules 100 _ _ :=
    .next (.attach ours [1] (.v4 0x01010101 4000) ⟨true, false, none⟩) .init
      ⟨by simp, by rintro scid ⟨⟩; exact ⟨rfl, by decide, by decide⟩⟩ rfl
  have hlocal := TunnelRun.extend hdialed [.session (.localDatagram app [1])] (by decide) (by decide)
  have hasked : TunnelRun Unused home shadowedRules 100 _ _ :=
    .next (.session (.openPending (Session.oneStream app 0))) hlocal
      ⟨by rintro a ⟨⟩ outcome ⟨⟩; exact Session.oneStream_fresh rfl (by decide), by simp [TunnelAct.drawn]⟩ rfl
  exact hasked

/-- The first request is reset; the next datagrams of the source open a flow. -/
theorem datagrams_get_through_again :
    ∃ tr t ms t', TunnelRun Unused home shadowedRules 100 tr t ∧ .session (.received app [1]) ∈ tr ∧
      TunnelRun Unused home shadowedRules 100
        (tr ++ ([[2], [3]].map fun p => .session (.received app p)) ++ ms) t' ∧
      AllSent ms ∧ ∃ channel, ms.filterMap (keyed writtenOn (channel, 4 / 4)) = [[2], [3]] := by
  have hreset := TunnelRun.extend firstAsked_run [.session (.poll (.reset 0 0x100))] (by decide) (by decide)
  have hopens : Opens shadowedRules (.v4 0x01010101 4000) (connectHeaders home) ⟨true, fun _ => .opened⟩ :=
    ⟨_, _, _, connectHeaders_parse home, rfl, rfl⟩
  have hstream : (4 : UInt64).toNat % 4 = 0 := rfl
  have hsent : (⟨⟨true, fun _ => .opened⟩, true, 5⟩ : Answers).sent = true := rfl
  have hnew {tr : List Mark} (hseen : seen tr = [.received app [1], .request app 0 (connectHeaders home)])
      (src : SocketAddr) (headers : List Header) : .request src 4 headers ∉ seen tr := by
    rw [hseen]
    simp
  obtain ⟨ms, t', channel, hrun, hwritten, hsuccess, -⟩ := datagrams_get_through hreset (c := ours) rfl rfl
    (show Unasked _ app from nofun) (.inr (List.cons_ne_nil [2] [[3]])) hstream (hnew rfl) hsent hopens
  exact ⟨_, _, ms, t', hreset, by decide, hrun, hsuccess, channel, hwritten⟩

section Established
variable {fresh : Tunnel → Scid → Prop} {d : Dialed} {rules : RuleTable} {start : Instant} {tr : List Mark} {t : Tunnel}
  {c : Scid} {src : SocketAddr} {st : FlowState} {f : UInt64}

private theorem TunnelRun.assigned (hr : TunnelRun fresh d rules start tr t) : Host.Assigned t.host := by
  refine Run.invariant (P := fun _ t => Host.Assigned t.host) (.init rules start) ?_ hr
  intro tr t i t' ms _ ih _ hs
  cases step_turn hs with
  | host i t0 host es hin htrans =>
    obtain ⟨requests, up, rfl⟩ := hin.frame
    exact ih.step htrans
  | attach scid dcid peer state hl => exact ih.step (.served (.accept scid dcid peer state) nofun)
  | session a t0 hin =>
    obtain ⟨responses, down, rfl⟩ := hin.frame
    exact ih

/-- The task writes what is already in its channel. -/
private theorem written_out (hr : TunnelRun fresh d rules start tr t) (hl : t.link = .live c)
    (hsmall : f.toNat < 2 ^ 62) (hsource : t.session.flows.lookup f = some src) {channel : Nat}
    (hflow : (t.host.server.flowAt c f).map Flow.toTarget = some channel) {task : Task}
    (ht : t.host.running channel = some task) (hconn : task.conn = c) (hid : task.flow = f) (hm : channel ∈ t.mine) :
    ∃ ms t', TunnelRun fresh d rules start (tr ++ ms) t' ∧ Flowing t' c src f channel ∧ t'.up = t.up ∧
      ms.filterMap (keyed writtenOn (channel, f)) = task.queue ∧ AllSent ms := by
  induction hq : task.queue generalizing tr t task with
  | nil => exact ⟨[], t, by simpa using hr, ⟨hl, hsmall, hsource, hflow, ⟨task, ht, hconn, hid, hq⟩, hm⟩, rfl, rfl,
      nofun⟩
  | cons p queue ih =>
    have hnext := Run.next (.host (.forward channel true)) hr (.quiet rfl _ _) (step_forward ht hq hm true)
    have hrest := running_set ht { task with queue := queue } (Host.running_eq_some ht).2 t.host.server t.host.toClient
    obtain ⟨ms, t', hr', hflowing, hup, hwritten, hsent⟩ := ih hnext hl hsource hflow hrest hconn hid hm rfl
    refine ⟨[.written channel task.flow p true] ++ ms, t', by simpa using hr', hflowing, hup, ?_,
      .append (by simp [AllSent]) hsent⟩
    rw [List.filterMap_append, hwritten, hid]
    simp [keyed, writtenOn]

/-- What the session does with a datagram of an established flow. -/
def sentAtOnce (src : SocketAddr) (f : UInt64) (p : Bytes) : List Mark :=
  [.session (.received src p), .session (.sendDatagram src f p)]

/-- Datagrams of an established flow are sent as they come. -/
private theorem sent_at_once (hr : TunnelRun fresh d rules start tr t) (hst : t.session.byAddr.lookup src = some st)
    (hest : st.established = true) (hid : st.flowId = some f) (ps : List Bytes) :
    ∃ t', TunnelRun fresh d rules start (tr ++ ps.flatMap (sentAtOnce src f)) t' ∧ t'.host = t.host ∧
      t'.link = t.link ∧ t'.mine = t.mine ∧ t'.session.flows = t.session.flows ∧
      t'.up = t.up ++ ps.map (Dgram.encode f) := by
  induction ps generalizing tr t with
  | nil => exact ⟨t, by simpa using hr, rfl, rfl, rfl, rfl, by simp⟩
  | cons p ps ih =>
    have hstep : t.step d (.session (.localDatagram src p)) =
        some ({ t with
            session := { t.session with byAddr := t.session.byAddr.insert src st }
            up := t.up ++ [Dgram.encode f p] }, sentAtOnce src f p) := by
      simp [step, fromServer, Session.act, Session.onLocal, hst, hest, hid, request, framed, sentAtOnce,
        List.filterMap_cons]
    have hnext := Run.next (.session (.localDatagram src p)) hr (.quiet rfl _ _) hstep
    obtain ⟨t', hr', hhost, hlink, hmine, hflows, hup⟩ := ih hnext (AList.lookup_insert _)
    refine ⟨t', by simpa using hr', hhost, hlink, hmine, hflows, ?_⟩
    rw [hup]
    simp

end Established

/-- From every reachable state in which a flow is open on both sides and its task runs:
whatever the source sends now, the tunnel can go on so that the task writes, with
success, what was still in its channel and then the new datagrams in order, and whatever
the target replies is delivered to the source. -/
theorem established_carries {d : Dialed} {rules : RuleTable} {start : Instant} {tr : List Mark} {t : Tunnel}
    (hr : TunnelRun Unused d rules start tr t) {c : Scid} (hl : t.link = .live c) {src : SocketAddr} {st : FlowState}
    (hst : t.session.byAddr.lookup src = some st) (hest : st.established = true) {f : UInt64}
    (hid : st.flowId = some f) {flow : Flow} (hflow : t.host.server.flowAt c f = some flow) {task : Task}
    (ht : t.host.running flow.toTarget = some task) (ps : List Bytes) :
    ∃ ms t', TunnelRun Unused d rules start (tr ++ ps.flatMap (sentAtOnce src f) ++ ms) t' ∧
      ms.filterMap (keyed writtenOn (flow.toTarget, f)) = task.queue ++ ps ∧ AllSent ms ∧
      ∀ r, ∃ t'', TunnelRun Unused d rules start (tr ++ ps.flatMap (sentAtOnce src f) ++ ms ++
        [.replied flow.toTarget f r, .session (.deliver f src r)]) t'' := by
  have hattached := TunnelRun.attached hr
  have hmine := (hattached.flows c f flow hflow).2.mpr hl
  obtain ⟨task', hget, hconn, rfl⟩ := (TunnelRun.assigned hr).flows c f flow hflow
  obtain rfl : task' = task := Option.some.inj (hget.symm.trans (Host.running_eq_some ht).1)
  have hsource : t.session.flows.lookup task'.flow = some src :=
    ((Session.SessionRun.sound (TunnelRun.session hr)).1.inverse _ src).mpr ⟨st, hst, hid⟩
  obtain ⟨t1, hr1, hhost, hlink, hmine1, hflows, hup⟩ := sent_at_once hr hst hest hid ps
  obtain ⟨ms2, t2, hr2, hflowing, hup2, hwritten2, hsent2⟩ := written_out hr1 (hlink.trans hl)
    (hattached.tasks task' (List.mem_of_getElem? hget)) (by rwa [hflows]) (by rw [hhost, hflow]; rfl)
    (by rwa [hhost]) hconn rfl (by rwa [hmine1])
  have hway : (ps.map (Dgram.encode task'.flow)).Subperm t2.up := by
    rw [hup2, hup]
    exact (List.sublist_append_right _ _).subperm
  obtain ⟨ms3, t3, hr3, hflowing3, hwritten3, hsent3⟩ := hflowing.writeAll hr2 hway
  rw [List.append_assoc _ ms2] at hr3
  refine ⟨_, t3, hr3, ?_, hsent2.append hsent3, fun r => hflowing3.answer hr3 r⟩
  rw [List.filterMap_append, hwritten2, hwritten3]

/-- One payload waits in the channel when two more are sent. -/
theorem established_carries_three :
    ∃ tr t ms t', TunnelRun Unused home shadowedRules 100 tr t ∧
      TunnelRun Unused home shadowedRules 100 (tr ++ [[2], [3]].flatMap (sentAtOnce app 0) ++ ms) t' ∧
      ms.filterMap (keyed writtenOn (0, 0)) = [[1], [2], [3]] ∧ AllSent ms := by
  have hopen := TunnelRun.extend firstAsked_run
    [.host (.server (.poll ours (.headers 0 (connectHeaders home) ⟨⟨true, fun _ => .opened⟩, true, 5⟩))),
      .session (.poll (.headers 0 acceptHeaders)), .host (.server (.datagram ours (Dgram.encode 0 [1]) false))]
    (by decide) (by decide)
  obtain ⟨ms, t', hrun, hwritten, hsuccess, -⟩ := established_carries hopen (c := ours) rfl
    (show AList.lookup app _ = some _ from rfl) rfl rfl (show flowAt _ _ 0 = some ⟨0, 105, some (secs 30)⟩ from rfl)
    rfl [[2], [3]]
  exact ⟨_, _, ms, t', hopen, hrun, hwritten, hsuccess⟩

end Tunnel
end ZeroMasque
