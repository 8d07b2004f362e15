import ZeroMasque.Server.Flows

/-! Everything an action of the server can emit, and what the emitted effects
say about the flow tables. -/
namespace ZeroMasque.Server
open Foundation

/-- What an action can emit, with the number of channels made after it. -/
inductive Emission (s : Server) : Action → List Effect → Nat → Prop
  | silent (a : Action) : Emission s a [] s.channels
  | negotiated (dest : SocketAddr) :
      Emission s (.negotiate dest) [.versionNegotiation dest] s.channels
  | accepted (scid : Scid) (dcid : Bytes) (peer : SocketAddr) (state : Conn) :
      Emission s (.accept scid dcid peer state) [.accepted scid dcid] s.channels
  | refused (c : Scid) (stream : UInt64) (list : List Header) (answers : Answers) (status : Nat)
      (hs : status ∈ [405, 501, 400, 404, 502]) :
      Emission s (.poll c (.headers stream list answers))
        [.respond c stream (statusHeaders status) true answers.sent] s.channels
  | opened (c : Scid) (stream : UInt64) (list : List Header) (answers : Answers) (socket : TargetSocket) :
      Emission s (.poll c (.headers stream list answers))
        ([.spawn c (stream / 4) s.channels socket,
          .opened c (stream / 4) stream (s.clock + answers.elapsed),
          .respond c stream acceptHeaders false answers.sent] ++
          if answers.sent then [] else [.closed c (stream / 4)]) (s.channels + 1)
  | closed (c : Scid) (event : PollEvent) (f : UInt64) (hr : (Action.poll c event).request = none) :
      Emission s (.poll c event) [.closed c f] s.channels
  | relayed (c : Scid) (bytes : Bytes) (full : Bool) (parsed : Dgram.Parsed) (flow : Flow)
      (hd : Dgram.decode bytes = some parsed) (hctx : parsed.contextId = Dgram.contextIdUdp)
      (hf : s.flowAt c parsed.flowId = some flow) :
      Emission s (.datagram c bytes full)
        [.toTarget c parsed.flowId flow.toTarget parsed.payload full s.clock] s.channels
  | unmatched (c : Scid) (bytes : Bytes) (full : Bool) (parsed : Dgram.Parsed)
      (hd : Dgram.decode bytes = some parsed) (hctx : parsed.contextId = Dgram.contextIdUdp)
      (hf : s.flowAt c parsed.flowId = none) :
      Emission s (.datagram c bytes full) [.noFlow c parsed.flowId] s.channels
  | returned (tc : ToClient) :
      Emission s (.payload tc)
        [.dgramSend tc.connId (Dgram.encode tc.flowId tc.payload),
          .fromTarget tc.connId tc.flowId s.clock] s.channels
  | swept (elapsed : Duration) : Emission s (.sweep elapsed) (s.sweepIdleFlows elapsed).2 s.channels
  | reaped : Emission s .reap s.reapClosed.2 s.channels

/-- Work at a desk emits nothing if there is no such connection. -/
private theorem emission_atDesk {s : Server} {c : Scid} {a : Action}
    {work : Client → Desk → Desk × List Effect}
    (hwork : ∀ client, s.clients.lookup c = some client →
      Emission s a (work client ⟨client.flows, s.clock, s.channels⟩).2
        (work client ⟨client.flows, s.clock, s.channels⟩).1.channels) :
    Emission s a (s.atDesk c work).2 (s.atDesk c work).1.channels := by
  cases hc : s.clients.lookup c with
  | none =>
    simp only [atDesk, hc]
    exact .silent a
  | some client =>
    simp only [atDesk, hc]
    exact hwork client hc

private theorem close_emission {s : Server} {c : Scid} {event : PollEvent}
    (hr : (Action.poll c event).request = none) (f : UInt64) :
    Emission s (.poll c event) (s.atDesk c fun _ desk => desk.close c f).2
      (s.atDesk c fun _ desk => desk.close c f).1.channels := by
  refine emission_atDesk fun client _ => ?_
  simp only [Desk.close]
  split
  · exact .closed c event f hr
  · exact .silent _

private theorem request_emission (s : Server) (c : Scid) (stream : UInt64) (list : List Header)
    (answers : Answers) :
    Emission s (.poll c (.headers stream list answers)) (s.poll c (.headers stream list answers)).2
      (s.poll c (.headers stream list answers)).1.channels := by
  refine emission_atDesk fun client _ => ?_
  rcases handleConnectRequest_cases s.rules client.peer c stream list answers
    ⟨client.flows, s.clock, s.channels⟩ with ⟨status, hmem, he⟩ | ⟨idleTimeout, socket, he⟩
  · rw [he]
    exact .refused c stream list answers status hmem
  · rw [he, openFlow_effects, (openFlow_counters ..).2]
    exact .opened c stream list answers socket

private theorem datagram_emission (s : Server) (c : Scid) (bytes : Bytes) (full : Bool) :
    Emission s (.datagram c bytes full) (s.act (.datagram c bytes full)).2
      (s.act (.datagram c bytes full)).1.channels := by
  refine emission_atDesk fun client hc => ?_
  have hat (f : UInt64) : s.flowAt c f = client.flows.lookup f := by rw [flowAt, hc, Option.bind_some]
  unfold relayDatagram
  split
  · exact .silent _
  rename_i parsed hd
  split_ifs with hctx
  · exact .silent _
  split
  · rename_i hf
    exact .unmatched c bytes full parsed hd (not_not.mp hctx) ((hat _).trans hf)
  · rename_i flow hf
    exact .relayed c bytes full parsed flow hd (not_not.mp hctx) ((hat _).trans hf)

theorem act_emission (s : Server) (a : Action) : Emission s a (s.act a).2 (s.act a).1.channels := by
  cases a with
  | negotiate dest => exact .negotiated dest
  | accept scid dcid peer state => exact .accepted scid dcid peer state
  | poll conn event =>
    cases event with
    | headers stream list answers => exact request_emission s conn stream list answers
    | finished stream => exact close_emission rfl _
    | reset stream code => exact close_emission rfl _
    | data stream => exact .silent _
    | other stream => exact .silent _
  | datagram conn bytes full => exact datagram_emission s conn bytes full
  | payload tc => exact emission_atDesk fun _ _ => .returned tc
  | sweep elapsed => exact .swept elapsed
  | reap => exact .reaped
  | recv | withTransport | readClock | connections | reload => exact .silent _

/-- A task is started under the next channel number, first of all effects. -/
inductive Spawns (s : Server) (request : Option (Scid × UInt64)) (es : List Effect) (channels : Nat) : Prop
  | none (he : ∀ e ∈ es, (e matches .spawn ..) = false) (hn : channels = s.channels)
  | one (c : Scid) (stream : UInt64) (socket : TargetSocket) (rest : List Effect)
      (hr : request = some (c, stream)) (he : es = .spawn c (stream / 4) s.channels socket :: rest)
      (hrest : ∀ e ∈ rest, (e matches .spawn ..) = false) (hn : channels = s.channels + 1)

theorem Emission.spawns {s : Server} {a : Action} {es : List Effect} {n : Nat} (h : Emission s a es n) :
    Spawns s a.request es n := by
  cases h with
  | opened c stream list answers socket =>
    exact .one c stream socket _ rfl rfl (by cases answers.sent <;> simp) rfl
  | swept elapsed =>
    refine .none (fun e he => ?_) rfl
    have hkind := sweep_effects he
    cases e with
    | spawn => cases hkind
    | _ => rfl
  | reaped =>
    refine .none (fun e he => ?_) rfl
    have hkind := reap_effects he
    cases e with
    | spawn => cases hkind
    | _ => rfl
  | _ => exact .none (by simp) rfl

theorem Spawns.head {s : Server} {request : Option (Scid × UInt64)} {es : List Effect} {n : Nat}
    (h : Spawns s request es n) {c : Scid} {f : UInt64} {channel : Nat} {socket : TargetSocket}
    (hm : .spawn c f channel socket ∈ es) :
    channel = s.channels ∧ es.head? = some (.spawn c f channel socket) := by
  cases h with
  | none he hn => simpa using he _ hm
  | one c' stream socket' rest hr he hrest hn =>
    subst he
    rcases List.mem_cons.mp hm with heq | hmem
    · cases heq
      exact ⟨rfl, rfl⟩
    · simpa using hrest _ hmem

/-- A response refuses the request, or follows the insertion of its flow. -/
theorem Emission.respond {s : Server} {a : Action} {es : List Effect} {n : Nat} (h : Emission s a es n)
    {c : Scid} {stream : UInt64} {headers : List Header} {fin sent : Bool}
    (hm : .respond c stream headers fin sent ∈ es) :
    (∃ status, status ∈ [405, 501, 400, 404, 502] ∧ headers = statusHeaders status) ∨
      headers = acceptHeaders ∧ ∃ now, .opened c (stream / 4) stream now ∈ es := by
  cases h with
  | refused c' stream' list answers status hs =>
    cases List.mem_singleton.mp hm
    exact .inl ⟨status, hs, rfl⟩
  | opened c' stream' list answers socket =>
    have hm : Effect.respond c stream headers fin sent = .respond c' stream' acceptHeaders false answers.sent := by
      cases hsent : answers.sent <;> simpa [hsent] using hm
    cases hm
    exact .inr ⟨rfl, s.clock + answers.elapsed, by simp⟩
  | swept elapsed => cases sweep_effects hm
  | reaped => cases reap_effects hm
  | _ => simp at hm

/-- What is offered to a channel was read from a datagram for a flow that feeds it. -/
theorem Emission.toTarget {s : Server} {a : Action} {es : List Effect} {n : Nat} (h : Emission s a es n)
    {c : Scid} {f : UInt64} {channel : Nat} {payload : Bytes} {full : Bool} {now : Instant}
    (hm : .toTarget c f channel payload full now ∈ es) :
    ∃ bytes parsed flow, a = .datagram c bytes full ∧ Dgram.decode bytes = some parsed ∧
      parsed.flowId = f ∧ parsed.payload = payload ∧ s.flowAt c f = some flow ∧ flow.toTarget = channel ∧
      es = [.toTarget c f channel payload full now] := by
  cases h with
  | relayed c' bytes full' parsed flow hd hctx hf =>
    cases List.mem_singleton.mp hm
    exact ⟨bytes, parsed, flow, rfl, hd, rfl, rfl, hf, rfl, rfl⟩
  | opened c' stream' list answers socket => cases hsent : answers.sent <;> simp [hsent] at hm
  | swept elapsed => cases sweep_effects hm
  | reaped => cases reap_effects hm
  | _ => simp at hm

theorem Emission.noFlow {s : Server} {a : Action} {es : List Effect} {n : Nat} (h : Emission s a es n)
    {c : Scid} {f : UInt64} (hm : .noFlow c f ∈ es) :
    ∃ bytes full parsed, a = .datagram c bytes full ∧ Dgram.decode bytes = some parsed ∧
      parsed.flowId = f ∧ s.flowAt c f = none := by
  cases h with
  | unmatched c' bytes full parsed hd hctx hf =>
    cases List.mem_singleton.mp hm
    exact ⟨bytes, full, parsed, rfl, hd, rfl, hf⟩
  | opened c' stream' list answers socket => cases hsent : answers.sent <;> simp [hsent] at hm
  | swept elapsed => cases sweep_effects hm
  | reaped => cases reap_effects hm
  | _ => simp at hm

/-- Datagrams are sent to clients for payloads from targets only. -/
theorem Emission.dgramSend {s : Server} {a : Action} {es : List Effect} {n : Nat} (h : Emission s a es n)
    {c : Scid} {bytes : Bytes} (hm : .dgramSend c bytes ∈ es) : ∃ tc, a = .payload tc := by
  cases h with
  | returned tc => exact ⟨tc, rfl⟩
  | opened c' stream' list answers socket => cases hsent : answers.sent <;> simp [hsent] at hm
  | swept elapsed => cases sweep_effects hm
  | reaped => cases reap_effects hm
  | _ => simp at hm

/-- A datagram for an open flow is offered to its channel and refreshes the flow. -/
theorem act_datagram {s : Server} {c : Scid} {bytes : Bytes} {parsed : Dgram.Parsed} {flow : Flow}
    (hd : Dgram.decode bytes = some parsed) (hctx : parsed.contextId = Dgram.contextIdUdp)
    (hf : s.flowAt c parsed.flowId = some flow) (full : Bool) :
    (s.act (.datagram c bytes full)).2 =
        [.toTarget c parsed.flowId flow.toTarget parsed.payload full s.clock] ∧
      (s.act (.datagram c bytes full)).1.flowAt c parsed.flowId =
        some { flow with lastActivity := s.clock } := by
  obtain ⟨client, hc, hlookup⟩ := Option.bind_eq_some_iff.mp hf
  have hrelay : relayDatagram c bytes full ⟨client.flows, s.clock, s.channels⟩ =
      (⟨client.flows.insert parsed.flowId { flow with lastActivity := s.clock }, s.clock, s.channels⟩,
        [.toTarget c parsed.flowId flow.toTarget parsed.payload full s.clock]) := by
    simp [relayDatagram, hd, hctx, hlookup]
  constructor
  · simp only [act, atDesk, hc, hrelay]
  · simp [act, atDesk, hc, hrelay, flowAt]

/-- Whether an effect puts a flow into its table, or takes it out. -/
def presence (c : Scid) (f : UInt64) : Effect → Option Bool
  | .opened conn flow _ _ => if conn = c ∧ flow = f then some true else none
  | .closed conn flow => if conn = c ∧ flow = f then some false else none
  | _ => none

/-- The connection that an effect makes anew or removes. -/
def Effect.replaced : Effect → Option Scid
  | .accepted c _ | .reaped c => some c
  | _ => none

/-- Connections are made by accepting a packet and removed by reaping. -/
private theorem Emission.replaced {s : Server} {a : Action} {es : List Effect} {n : Nat} (h : Emission s a es n)
    {e : Effect} {c : Scid} (he : e ∈ es) (hr : e.replaced = some c) :
    (∃ dcid peer state, a = .accept c dcid peer state) ∨ a = .reap ∧ e = .reaped c := by
  cases h with
  | accepted scid dcid peer state =>
    cases List.mem_singleton.mp he
    cases hr
    exact .inl ⟨dcid, peer, state, rfl⟩
  | reaped =>
    obtain ⟨k, client, -, -, rfl⟩ := mem_reap he
    cases hr
    exact .inr ⟨rfl, rfl⟩
  | swept elapsed =>
    have hkind := sweep_effects he
    cases e with
    | closed | shutdown => cases hr
    | _ => cases hkind
  | opened c' stream list answers socket =>
    cases hsent : answers.sent <;> simp [hsent] at he <;> rcases he with rfl | rfl | rfl | rfl <;> cases hr
  | returned tc =>
    simp only [List.mem_cons, List.not_mem_nil, or_false] at he
    rcases he with rfl | rfl <;> cases hr
  | silent => cases he
  | _ => cases List.mem_singleton.mp he; cases hr

/-- A connection that is made anew or removed has no flows. -/
theorem flowAt_replaced {s : Server} {a : Action} {e : Effect} {c : Scid} (he : e ∈ (s.act a).2)
    (hr : e.replaced = some c) (f : UInt64) : (s.act a).1.flowAt c f = none := by
  rcases (act_emission s a).replaced he hr with ⟨dcid, peer, state, rfl⟩ | ⟨rfl, rfl⟩
  · simp [act, accept, flowAt]
  · obtain ⟨k, client, hk, hclosed, heq⟩ := mem_reap he
    cases heq
    simp [act, flowAt_reap, hk, hclosed]

private theorem presence_of_conn_ne {c : Scid} {e : Effect} (h : e.conn ≠ some c) (f : UInt64) :
    presence c f e = none := by
  cases e <;> simp_all [Effect.conn, presence]

private theorem Local.latest_presence {c k : Scid} {es : List Effect} (h : Local c es) (hk : k ≠ c)
    (f : UInt64) : latest (presence k f) es = none := by
  rw [latest_eq_none_iff]
  intro e he
  exact presence_of_conn_ne (by simp [h e he, Ne.symm hk]) f

/-- The flows of a connection after some effects, told from the flows before. -/
def Recorded (c : Scid) (es : List Effect) (before after : Option Client) : Prop :=
  ∀ client, before = some client → ∃ client', after = some client' ∧ ∀ f,
    (client'.flows.lookup f).isSome =
      (latest (presence c f) es).getD (client.flows.lookup f).isSome

private theorem Recorded.same {c : Scid} {es : List Effect} {before after : Option Client}
    (h : after.map Client.flows = before.map Client.flows)
    (hes : ∀ f, latest (presence c f) es = none) : Recorded c es before after := by
  rintro client rfl
  obtain ⟨client', hafter, hflows⟩ := Option.map_eq_some_iff.mp h
  refine ⟨client', hafter, fun f => ?_⟩
  rw [hes, hflows]
  rfl

private theorem Desk.close_recorded (c : Scid) (g : UInt64) (desk : Desk) (f : UInt64) :
    ((desk.close c g).1.flows.lookup f).isSome =
      (latest (presence c f) (desk.close c g).2).getD (desk.flows.lookup f).isSome := by
  simp only [Desk.close, Table.lookup_erase_ite]
  by_cases hf : f = g
  · subst hf
    cases hl : desk.flows.lookup f <;> simp [presence]
  · cases hl : desk.flows.lookup g <;> simp [presence, hf, Ne.symm hf]

private theorem handleConnectRequest_recorded (rules : RuleTable) (client : SocketAddr) (c : Scid)
    (stream : UInt64) (list : List Header) (answers : Answers) (desk : Desk) (f : UInt64) :
    ((handleConnectRequest rules client c stream list answers desk).1.flows.lookup f).isSome =
      (latest (presence c f) (handleConnectRequest rules client c stream list answers desk).2).getD
        (desk.flows.lookup f).isSome := by
  rcases handleConnectRequest_cases rules client c stream list answers desk with
    ⟨status, -, he⟩ | ⟨idleTimeout, socket, he⟩
  · simp [he, respondStatus, presence]
  · rw [he, lookup_openFlow, openFlow_effects]
    by_cases hf : f = stream / 4
    · subst hf
      cases hsent : answers.sent <;> simp [latest_cons, presence]
    · cases hsent : answers.sent <;> simp [latest_cons, presence, hf, Ne.symm hf]

private theorem relayDatagram_recorded (c : Scid) (bytes : Bytes) (full : Bool) (desk : Desk)
    (f : UInt64) :
    ((relayDatagram c bytes full desk).1.flows.lookup f).isSome =
      (latest (presence c f) (relayDatagram c bytes full desk).2).getD
        (desk.flows.lookup f).isSome := by
  unfold relayDatagram
  split
  · rfl
  split_ifs
  · rfl
  split
  · simp [presence]
  · rename_i parsed _ _ flow hf
    simp only [latest_singleton, presence, Option.getD_none, Table.lookup_insert_ite]
    split
    · rename_i heq
      rw [heq, hf]
      rfl
    · rfl

private theorem atDesk_recorded (s : Server) (c : Scid) (work : Client → Desk → Desk × List Effect)
    (hlocal : ∀ client desk, Local c (work client desk).2)
    (hwork : ∀ client desk f, ((work client desk).1.flows.lookup f).isSome =
      (latest (presence c f) (work client desk).2).getD (desk.flows.lookup f).isSome) (k : Scid) :
    Recorded k (s.atDesk c work).2 (s.clients.lookup k) ((s.atDesk c work).1.clients.lookup k) := by
  cases hc : s.clients.lookup c with
  | none =>
    simp only [atDesk, hc]
    exact .same rfl fun _ => rfl
  | some client =>
    by_cases hk : k = c
    · subst hk
      rintro client' hc'
      obtain rfl : client = client' := Option.some.inj (hc.symm.trans hc')
      simp only [atDesk, hc, Table.lookup_insert_ite, if_true]
      exact ⟨_, rfl, hwork client _⟩
    · refine .same (by rw [lookup_atDesk, if_neg hk]) fun f => ?_
      simp only [atDesk, hc]
      exact (hlocal _ _).latest_presence hk f

private theorem sweep_recorded (s : Server) (elapsed : Duration) (c : Scid) :
    Recorded c (s.sweepIdleFlows elapsed).2 (s.clients.lookup c)
      ((s.sweepIdleFlows elapsed).1.clients.lookup c) := by
  intro client hc
  have hafter : (s.sweepIdleFlows elapsed).1.clients.lookup c = some
      { client with flows := Table.eraseAll (expired (s.clock + elapsed) client) client.flows } := by
    simp only [sweepIdleFlows, Table.lookup_mapValues, hc, Option.map_some]
  refine ⟨_, hafter, fun f => ?_⟩
  have hflow : s.flowAt c f = client.flows.lookup f := by rw [flowAt, hc, Option.bind_some]
  rw [show (Table.eraseAll (expired (s.clock + elapsed) client) client.flows).lookup f =
    (s.sweepIdleFlows elapsed).1.flowAt c f by rw [flowAt, hafter, Option.bind_some], ← hflow]
  have hread (e : Effect) (he : e ∈ (s.sweepIdleFlows elapsed).2) (b : Bool)
      (hb : presence c f e = some b) : b = false ∧ (s.sweepIdleFlows elapsed).1.flowAt c f = none := by
    obtain ⟨k, g, flow, -, hgone, hmem⟩ := (mem_sweep ..).mp he
    simp only [closeIdle, List.mem_cons, List.not_mem_nil, or_false] at hmem
    rcases hmem with rfl | rfl | rfl <;> simp only [presence, reduceCtorEq] at hb
    split at hb
    · rename_i heq
      obtain ⟨rfl, rfl⟩ := heq
      cases hb
      exact ⟨rfl, hgone⟩
    · cases hb
  cases hlatest : latest (presence c f) (s.sweepIdleFlows elapsed).2 with
  | some b =>
    obtain ⟨e, he, hb⟩ := exists_of_latest hlatest
    obtain ⟨rfl, hgone⟩ := hread e he b hb
    rw [hgone]
    rfl
  | none =>
    rw [latest_eq_none_iff] at hlatest
    cases hf : s.flowAt c f with
    | none =>
      rw [flowAt_sweep, hf]
      rfl
    | some flow =>
      cases hgone : (s.sweepIdleFlows elapsed).1.flowAt c f with
      | some flow' => rfl
      | none =>
        have hmem := (closed_mem_sweep s elapsed c f).mpr ⟨flow, hf, hgone⟩
        simpa [presence] using hlatest _ hmem

private theorem reap_recorded (s : Server) {c : Scid} (hkeep : ∀ e ∈ s.reapClosed.2, e.replaced ≠ some c) :
    Recorded c s.reapClosed.2 (s.clients.lookup c) (s.reapClosed.1.clients.lookup c) := by
  intro client hc
  have hopen : client.conn.closed = false := by
    by_contra hclosed
    refine hkeep (.reaped c) ?_ rfl
    simp only [reapClosed, List.mem_map, List.mem_filterMap]
    exact ⟨c, ⟨⟨c, client⟩, (Table.mem_entries_iff ..).mpr hc, by simpa using hclosed⟩, rfl⟩
  refine ⟨client, ?_, fun f => ?_⟩
  · simp [reapClosed, Table.lookup_retain, hc, hopen]
  · rw [(latest_eq_none_iff ..).mpr]
    · rfl
    · intro e he
      obtain ⟨k, client', -, -, rfl⟩ := mem_reap he
      rfl

/-- What an action emits tells which flows of a connection it leaves open, as
long as the connection itself is not replaced. -/
theorem act_recorded (s : Server) (a : Action) {c : Scid}
    (hkeep : ∀ e ∈ (s.act a).2, e.replaced ≠ some c) :
    Recorded c (s.act a).2 (s.clients.lookup c) ((s.act a).1.clients.lookup c) := by
  cases a with
  | accept scid dcid peer state =>
    have hne : c ≠ scid := by
      rintro rfl
      exact hkeep (.accepted c dcid) (by simp [act, accept]) rfl
    refine .same ?_ fun f => by simp [act, accept, presence]
    simp only [act, accept, Table.lookup_insert_ite, if_neg hne]
  | recv conn peer state | withTransport conn =>
    refine .same ?_ fun f => rfl
    simp only [act, Table.lookup_modify]
    split <;> cases s.clients.lookup c <;> rfl
  | poll conn event =>
    cases event with
    | headers stream list answers =>
      exact atDesk_recorded s conn _ (fun _ _ => handleConnectRequest_local _ _ conn _ _ _ _)
        (fun _ _ => handleConnectRequest_recorded _ _ conn _ _ _ _) c
    | finished stream | reset stream code =>
      exact atDesk_recorded s conn _ (fun _ => Desk.close_local conn _)
        (fun _ => Desk.close_recorded conn _) c
    | data stream | other stream => exact .same rfl fun _ => rfl
  | datagram conn bytes full =>
    exact atDesk_recorded s conn _ (fun _ => relayDatagram_local conn bytes full)
      (fun _ => relayDatagram_recorded conn bytes full) c
  | payload tc =>
    refine atDesk_recorded s tc.connId _ ?_ ?_ c
    · intro client desk e he
      simp only [List.mem_cons, List.not_mem_nil, or_false] at he
      rcases he with rfl | rfl <;> rfl
    · intro client desk f
      simp only [latest_cons, latest_nil, presence, Option.or_none, Option.getD_none, Table.lookup_modify]
      split <;> simp
  | connections state =>
    refine .same ?_ fun f => rfl
    simp only [act, Table.lookup_mapValues]
    cases s.clients.lookup c <;> rfl
  | sweep elapsed => exact sweep_recorded s elapsed c
  | reap => exact reap_recorded s hkeep
  | negotiate dest => exact .same rfl fun f => by simp [act, presence]
  | readClock | reload => exact .same rfl fun _ => rfl

/-- A flow that vanishes from a kept connection is reported as closed. -/
theorem closed_of_gone {s : Server} {a : Action} {c : Scid} {f : UInt64}
    (hkeep : ∀ e ∈ (s.act a).2, e.replaced ≠ some c) (hbefore : (s.flowAt c f).isSome)
    (hgone : (s.act a).1.flowAt c f = none) : .closed c f ∈ (s.act a).2 := by
  cases hc : s.clients.lookup c with
  | none => simp [flowAt, hc] at hbefore
  | some client =>
    obtain ⟨client', hc', hflows⟩ := act_recorded s a hkeep client hc
    rw [flowAt, hc, Option.bind_some] at hbefore
    rw [flowAt, hc', Option.bind_some] at hgone
    have hread := hflows f
    rw [hgone, hbefore] at hread
    cases hlatest : latest (presence c f) (s.act a).2 with
    | none => simp [hlatest] at hread
    | some b =>
      obtain ⟨e, he, hb⟩ := exists_of_latest hlatest
      obtain rfl : b = false := by simpa [hlatest] using hread.symm
      cases e with
      | closed k g =>
        obtain ⟨⟨rfl, rfl⟩, -⟩ := Option.ite_none_right_eq_some.mp hb
        exact he
      | opened k g stream now =>
        obtain ⟨-, hb⟩ := Option.ite_none_right_eq_some.mp hb
        cases hb
      | _ => cases hb

private theorem isSome_atDesk (s : Server) (c k : Scid) (work : Client → Desk → Desk × List Effect) :
    ((s.atDesk c work).1.clients.lookup k).isSome = (s.clients.lookup k).isSome := by
  rw [lookup_atDesk]
  split
  · rename_i hk
    rw [hk, Option.isSome_map]
  · rfl

private theorem isSome_of_act {s : Server} {a : Action} {c : Scid}
    (h : ((s.act a).1.clients.lookup c).isSome) (ha : ∀ dcid peer state, a ≠ .accept c dcid peer state) :
    (s.clients.lookup c).isSome := by
  cases a with
  | accept scid dcid peer state =>
    have hne : c ≠ scid := by
      rintro rfl
      exact ha dcid peer state rfl
    simpa only [act, accept, Table.lookup_insert_ite, if_neg hne] using h
  | recv conn peer state | withTransport conn =>
    simp only [act, Table.lookup_modify] at h
    split at h
    · rwa [Option.isSome_map] at h
    · exact h
  | poll conn event =>
    cases event with
    | headers | finished | reset => simpa only [act, poll, isSome_atDesk] using h
    | data | other => exact h
  | datagram | payload => simpa only [act, onTargetPayload, isSome_atDesk] using h
  | connections | sweep =>
    simpa only [act, sweepIdleFlows, Table.lookup_mapValues, Option.isSome_map] using h
  | reap =>
    simp only [act, reapClosed, Table.lookup_retain] at h
    exact Option.isSome_of_isSome_filter _ _ h
  | negotiate | readClock | reload => exact h

/-- A connection that an action leaves was there and is the same one, or the
action accepted it. -/
theorem connection_origin {s : Server} {a : Action} {c : Scid}
    (h : ((s.act a).1.clients.lookup c).isSome) :
    (∃ dcid peer state, a = .accept c dcid peer state) ∨
      (s.clients.lookup c).isSome ∧ ∀ e ∈ (s.act a).2, e.replaced ≠ some c := by
  refine or_iff_not_imp_left.mpr fun hnew => ⟨isSome_of_act h fun d p st ha => hnew ⟨d, p, st, ha⟩, ?_⟩
  intro e he hr
  rcases (act_emission s a).replaced he hr with haccept | ⟨rfl, rfl⟩
  · exact hnew haccept
  · obtain ⟨k, client, hk, hclosed, heq⟩ := mem_reap he
    cases heq
    simp [act, reapClosed, Table.lookup_retain, hk, hclosed] at h

end ZeroMasque.Server
