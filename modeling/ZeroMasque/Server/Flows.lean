import ZeroMasque.Server.Actions

/-! Where an open flow comes from: after any action it was there before, or it
was there and traffic refreshed it, or the action opened it. -/
namespace ZeroMasque.Server
open Foundation

/-- The flow a connection has open under an id. -/
def flowAt (s : Server) (conn : Scid) (flow : UInt64) : Option Flow :=
  (s.clients.lookup conn).bind fun client => client.flows.lookup flow

/-- The clock reading of an effect that opens a flow or carries its traffic. -/
def touch (c : Scid) (f : UInt64) : Effect → Option Instant
  | .opened conn flow _ now => if conn = c ∧ flow = f then some now else none
  | .toTarget conn flow _ _ _ now => if conn = c ∧ flow = f then some now else none
  | .fromTarget conn flow now => if conn = c ∧ flow = f then some now else none
  | _ => none

/-- The request stream of an effect that opens a flow. -/
def opening (c : Scid) (f : UInt64) : Effect → Option UInt64
  | .opened conn flow stream _ => if conn = c ∧ flow = f then some stream else none
  | _ => none

/-- The connection whose flows an effect is about. -/
def Effect.conn : Effect → Option Scid
  | .versionNegotiation _ | .accepted .. | .reaped _ => none
  | .respond c .. | .spawn c .. | .opened c .. | .closed c _ | .toTarget c .. | .noFlow c _
  | .fromTarget c .. | .dgramSend c _ | .shutdown c .. => some c

private theorem touch_of_conn_ne {c : Scid} {e : Effect} (h : e.conn ≠ some c) (f : UInt64) :
    touch c f e = none := by
  cases e <;> simp_all [Effect.conn, touch]

private theorem opening_of_conn_ne {c : Scid} {e : Effect} (h : e.conn ≠ some c) (f : UInt64) :
    opening c f e = none := by
  cases e <;> simp_all [Effect.conn, opening]

/-- The request stream an action reads headers from. -/
def Action.request : Action → Option (Scid × UInt64)
  | .poll conn (.headers stream _ _) => some (conn, stream)
  | _ => none

/-- The origin of a flow that an action leaves open under `c` and `f`. -/
inductive Origin (request : Option (Scid × UInt64)) (before : Option Flow) (now : Instant)
    (channel : Nat) (es : List Effect) (c : Scid) (f : UInt64) (flow : Flow) : Prop
  | kept (hb : before = some flow) (ht : latest (touch c f) es = none)
      (ho : latest (opening c f) es = none)
  | touched (old : Flow) (hb : before = some old) (hf : flow = { old with lastActivity := now })
      (ht : latest (touch c f) es = some now) (ho : latest (opening c f) es = none)
  | opened (stream : UInt64) (socket : TargetSocket) (hr : request = some (c, stream))
      (hf : f = stream / 4)
      (hc : flow.toTarget = channel) (hl : flow.lastActivity = now)
      (hs : .spawn c f channel socket ∈ es)
      (ht : latest (touch c f) es = some now) (ho : latest (opening c f) es = some stream)

private theorem Desk.close_origin (c : Scid) (g : UInt64) (desk : Desk) {f : UInt64} {flow : Flow}
    (h : (desk.close c g).1.flows.lookup f = some flow) :
    Origin none (desk.flows.lookup f) (desk.close c g).1.clock desk.channels (desk.close c g).2 c f flow := by
  have hquiet (α : Type) (r : Effect → Option α) (hr : r (.closed c g) = none) :
      latest r (desk.close c g).2 = none := by
    unfold Desk.close
    split <;> simp [hr]
  rw [Desk.close, Table.lookup_erase_ite] at h
  split at h
  · cases h
  · exact .kept h (hquiet _ _ rfl) (hquiet _ _ rfl)

private theorem relayDatagram_origin (c : Scid) (bytes : Bytes) (full : Bool) (desk : Desk)
    {f : UInt64} {flow : Flow} (h : (relayDatagram c bytes full desk).1.flows.lookup f = some flow) :
    Origin none (desk.flows.lookup f) (relayDatagram c bytes full desk).1.clock desk.channels
      (relayDatagram c bytes full desk).2 c f flow := by
  unfold relayDatagram at h ⊢
  split at h
  · exact .kept h rfl rfl
  split_ifs at h ⊢
  · exact .kept h rfl rfl
  split at h
  · exact .kept h (by simp [touch]) (by simp [opening])
  rename_i parsed _ _ old hold
  rw [Table.lookup_insert_ite] at h
  split at h
  · rename_i hf
    subst hf
    cases h
    exact .touched old hold rfl (by simp [touch]) (by simp [opening])
  · rename_i hf
    exact .kept h (by simp [touch, Ne.symm hf]) (by simp [opening])

private theorem openFlow_origin (c : Scid) (stream : UInt64) (idleTimeout : Option Duration)
    (socket : TargetSocket) (answers : Answers) (desk : Desk) {f : UInt64} {flow : Flow}
    (h : (openFlow c stream idleTimeout socket answers desk).1.flows.lookup f = some flow) :
    Origin (some (c, stream)) (desk.flows.lookup f) (openFlow c stream idleTimeout socket answers desk).1.clock
      desk.channels (openFlow c stream idleTimeout socket answers desk).2 c f flow := by
  rw [lookup_openFlow] at h
  rw [(openFlow_counters c stream idleTimeout socket answers desk).1, openFlow_effects]
  split at h
  · rename_i hf
    subst hf
    split at h
    · rename_i hsent
      cases h
      refine .opened stream socket rfl rfl rfl rfl ?_ ?_ ?_
      · simp
      · simp [hsent, latest_cons, touch]
      · simp [hsent, latest_cons, opening]
    · cases h
  · rename_i hf
    refine .kept h ?_ ?_
    · cases answers.sent <;> simp [latest_cons, touch, Ne.symm hf]
    · cases answers.sent <;> simp [latest_cons, opening, Ne.symm hf]

private theorem handleConnectRequest_origin (rules : RuleTable) (client : SocketAddr) (c : Scid)
    (stream : UInt64) (hs : List Header) (answers : Answers) (desk : Desk) {f : UInt64} {flow : Flow}
    (h : (handleConnectRequest rules client c stream hs answers desk).1.flows.lookup f = some flow) :
    Origin (some (c, stream)) (desk.flows.lookup f)
      (handleConnectRequest rules client c stream hs answers desk).1.clock desk.channels
      (handleConnectRequest rules client c stream hs answers desk).2 c f flow := by
  rcases handleConnectRequest_cases rules client c stream hs answers desk with
    ⟨status, -, he⟩ | ⟨idleTimeout, socket, he⟩
  · rw [he] at h ⊢
    exact .kept h (by simp [respondStatus, touch]) (by simp [respondStatus, opening])
  · rw [he] at h ⊢
    exact openFlow_origin c stream idleTimeout socket answers desk h

theorem lookup_atDesk (s : Server) (c k : Scid) (work : Client → Desk → Desk × List Effect) :
    (s.atDesk c work).1.clients.lookup k =
      if k = c then
        (s.clients.lookup c).map fun client =>
          { client with flows := (work client ⟨client.flows, s.clock, s.channels⟩).1.flows }
      else s.clients.lookup k := by
  cases h : s.clients.lookup c with
  | none =>
    simp only [atDesk, h]
    split
    · rename_i hk
      rw [hk, h]
      rfl
    · rfl
  | some client => simp only [atDesk, h, Table.lookup_insert_ite, Option.map_some]

theorem atDesk_routes (s : Server) (c : Scid) (work : Client → Desk → Desk × List Effect) :
    (s.atDesk c work).1.routes = s.routes := by
  cases h : s.clients.lookup c <;> simp only [atDesk, h]

/-- Work at one desk leaves the flows of every other connection alone. -/
private theorem flowAt_atDesk_of_ne (s : Server) {c k : Scid} (hk : k ≠ c)
    (work : Client → Desk → Desk × List Effect) (f : UInt64) :
    (s.atDesk c work).1.flowAt k f = s.flowAt k f := by
  rw [flowAt, lookup_atDesk, if_neg hk]
  rfl

/-- Effects of desk work belong to the connection worked on. -/
def Local (c : Scid) (es : List Effect) : Prop := ∀ e ∈ es, e.conn = some c

private theorem Local.latest_touch {c k : Scid} {es : List Effect} (h : Local c es) (hk : k ≠ c) (f : UInt64) :
    latest (touch k f) es = none := by
  rw [latest_eq_none_iff]
  intro e he
  exact touch_of_conn_ne (by simp [h e he, Ne.symm hk]) f

private theorem Local.latest_opening {c k : Scid} {es : List Effect} (h : Local c es) (hk : k ≠ c)
    (f : UInt64) : latest (opening k f) es = none := by
  rw [latest_eq_none_iff]
  intro e he
  exact opening_of_conn_ne (by simp [h e he, Ne.symm hk]) f

private theorem atDesk_origin (s : Server) (c : Scid) (request : Option (Scid × UInt64))
    (work : Client → Desk → Desk × List Effect)
    (hlocal : ∀ client desk, Local c (work client desk).2)
    (hwork : ∀ client desk f flow, (work client desk).1.flows.lookup f = some flow →
      Origin request (desk.flows.lookup f) (work client desk).1.clock desk.channels
        (work client desk).2 c f flow)
    {k : Scid} {f : UInt64} {flow : Flow} (h : (s.atDesk c work).1.flowAt k f = some flow) :
    Origin request (s.flowAt k f) (s.atDesk c work).1.clock s.channels (s.atDesk c work).2 k f flow := by
  cases hc : s.clients.lookup c with
  | none =>
    simp only [atDesk, hc] at h ⊢
    exact .kept h rfl rfl
  | some client =>
    have hes : (s.atDesk c work).2 = (work client ⟨client.flows, s.clock, s.channels⟩).2 := by
      simp only [atDesk, hc]
    by_cases hk : k = c
    · subst hk
      rw [flowAt, lookup_atDesk, if_pos rfl, hc] at h
      have horigin := hwork client ⟨client.flows, s.clock, s.channels⟩ f flow h
      simp only [atDesk, hc, flowAt]
      exact horigin
    · rw [flowAt_atDesk_of_ne s hk] at h
      rw [hes]
      exact .kept h ((hlocal _ _).latest_touch hk f) ((hlocal _ _).latest_opening hk f)

theorem Desk.close_local (c : Scid) (g : UInt64) (desk : Desk) : Local c (desk.close c g).2 := by
  intro e he
  simp only [Desk.close] at he
  split at he <;> simp_all [Effect.conn]

theorem relayDatagram_local (c : Scid) (bytes : Bytes) (full : Bool) (desk : Desk) :
    Local c (relayDatagram c bytes full desk).2 := by
  intro e he
  unfold relayDatagram at he
  split at he
  · simp at he
  split_ifs at he
  · simp at he
  split at he <;> simp_all [Effect.conn]

theorem handleConnectRequest_local (rules : RuleTable) (client : SocketAddr) (c : Scid)
    (stream : UInt64) (hs : List Header) (answers : Answers) (desk : Desk) :
    Local c (handleConnectRequest rules client c stream hs answers desk).2 := by
  intro e he
  rcases handleConnectRequest_cases rules client c stream hs answers desk with
    ⟨status, -, heq⟩ | ⟨idleTimeout, socket, heq⟩
  · rw [heq, respondStatus, List.mem_singleton] at he
    rw [he]
    rfl
  · rw [heq, openFlow_effects] at he
    cases hsent : answers.sent <;> simp [hsent] at he <;> rcases he with rfl | rfl | rfl | rfl <;> rfl

private theorem poll_origin (s : Server) (c : Scid) (event : PollEvent) {k : Scid} {f : UInt64}
    {flow : Flow} (h : (s.poll c event).1.flowAt k f = some flow) :
    Origin (Action.poll c event).request (s.flowAt k f) (s.poll c event).1.clock s.channels
      (s.poll c event).2 k f flow := by
  cases event with
  | headers stream list answers =>
    exact atDesk_origin s c _ _ (fun _ _ => handleConnectRequest_local _ _ c _ _ _ _)
      (fun _ _ _ _ => handleConnectRequest_origin _ _ c _ _ _ _) h
  | finished stream =>
    exact atDesk_origin s c _ _ (fun _ => Desk.close_local c _) (fun _ _ _ _ => Desk.close_origin c _ _) h
  | reset stream code =>
    exact atDesk_origin s c _ _ (fun _ => Desk.close_local c _) (fun _ _ _ _ => Desk.close_origin c _ _) h
  | data stream => exact .kept h rfl rfl
  | other stream => exact .kept h rfl rfl

private theorem onTargetPayload_origin (s : Server) (tc : ToClient) {k : Scid} {f : UInt64} {flow : Flow}
    (h : (s.onTargetPayload tc).1.flowAt k f = some flow) :
    Origin none (s.flowAt k f) (s.onTargetPayload tc).1.clock s.channels (s.onTargetPayload tc).2 k f
      flow := by
  refine atDesk_origin s tc.connId _ _ ?_ ?_ h
  · intro client desk e he
    simp only [List.mem_cons, List.not_mem_nil, or_false] at he
    rcases he with rfl | rfl <;> rfl
  · intro client desk f flow hf
    rw [Table.lookup_modify] at hf
    split at hf
    · rename_i hk
      obtain ⟨old, hold, rfl⟩ := Option.map_eq_some_iff.mp hf
      exact .touched old hold rfl (by simp [latest_cons, touch, hk]) (by simp [latest_cons, opening])
    · rename_i hk
      exact .kept hf (by simp [latest_cons, touch, Ne.symm hk]) (by simp [latest_cons, opening])

theorem mem_expired (now : Instant) (client : Client) (f : UInt64) :
    f ∈ expired now client ↔ ∃ flow d, client.flows.lookup f = some flow ∧
      flow.idleTimeout = some d ∧ d ≤ now - flow.lastActivity := by
  simp only [expired, List.mem_filterMap]
  constructor
  · rintro ⟨⟨g, flow⟩, hmem, hg⟩
    cases hd : flow.idleTimeout with
    | none => simp [hd] at hg
    | some d =>
      simp only [hd, Option.ite_none_right_eq_some, Option.some.injEq] at hg
      obtain ⟨hle, rfl⟩ := hg
      exact ⟨flow, d, (Table.mem_entries_iff ..).mp hmem, hd, hle⟩
  · rintro ⟨flow, d, hlookup, hd, hle⟩
    exact ⟨⟨f, flow⟩, (Table.mem_entries_iff ..).mpr hlookup, by simp [hd, hle]⟩

/-- After a sweep a flow is there exactly if it was and had not expired. -/
theorem flowAt_sweep (s : Server) (elapsed : Duration) (c : Scid) (f : UInt64) :
    (s.sweepIdleFlows elapsed).1.flowAt c f =
      (s.flowAt c f).filter fun flow =>
        flow.idleTimeout.all fun d => decide (s.clock + elapsed - flow.lastActivity < d) := by
  simp only [flowAt, sweepIdleFlows, Table.lookup_mapValues]
  cases s.clients.lookup c with
  | none => rfl
  | some client =>
    simp only [Option.map_some, Option.bind_some, Table.lookup_eraseAll]
    cases hf : client.flows.lookup f with
    | none => simp
    | some flow =>
      have hmem := mem_expired (s.clock + elapsed) client f
      rw [hf] at hmem
      cases hd : flow.idleTimeout <;> by_cases he : f ∈ expired (s.clock + elapsed) client <;>
        simp_all [Option.filter]

/-- What a sweep emits belongs to the flows it removes. -/
theorem mem_sweep (s : Server) (elapsed : Duration) (e : Effect) :
    e ∈ (s.sweepIdleFlows elapsed).2 ↔
      ∃ c f flow, s.flowAt c f = some flow ∧ (s.sweepIdleFlows elapsed).1.flowAt c f = none ∧
        e ∈ closeIdle c f := by
  simp only [sweepIdleFlows, List.mem_flatMap]
  have hgone (c : Scid) (f : UInt64) (client : Client) (hc : s.clients.lookup c = some client) :
      f ∈ expired (s.clock + elapsed) client ↔
        ∃ flow, s.flowAt c f = some flow ∧ (s.sweepIdleFlows elapsed).1.flowAt c f = none := by
    rw [mem_expired, flowAt_sweep, flowAt, hc, Option.bind_some]
    refine exists_congr fun flow => ?_
    constructor
    · rintro ⟨d, hf, hd, hle⟩
      exact ⟨hf, by simp [hf, hd, hle]⟩
    · rintro ⟨hf, hnone⟩
      cases hd : flow.idleTimeout <;> simp_all
  constructor
  · rintro ⟨⟨c, client⟩, hmem, f, hf, he⟩
    obtain ⟨flow, h1, h2⟩ := (hgone c f client ((Table.mem_entries_iff ..).mp hmem)).mp hf
    exact ⟨c, f, flow, h1, h2, he⟩
  · rintro ⟨c, f, flow, h1, h2, he⟩
    obtain ⟨client, hc, -⟩ := Option.bind_eq_some_iff.mp h1
    exact ⟨⟨c, client⟩, (Table.mem_entries_iff ..).mpr hc, f, (hgone c f client hc).mpr ⟨flow, h1, h2⟩, he⟩

theorem closed_mem_sweep (s : Server) (elapsed : Duration) (c : Scid) (f : UInt64) :
    .closed c f ∈ (s.sweepIdleFlows elapsed).2 ↔
      ∃ flow, s.flowAt c f = some flow ∧ (s.sweepIdleFlows elapsed).1.flowAt c f = none := by
  rw [mem_sweep]
  constructor
  · rintro ⟨c', f', flow, hf, hgone, he⟩
    simp only [closeIdle, List.mem_cons, List.not_mem_nil, or_false, reduceCtorEq] at he
    cases he
    exact ⟨flow, hf, hgone⟩
  · rintro ⟨flow, hf, hgone⟩
    exact ⟨c, f, flow, hf, hgone, by simp [closeIdle]⟩

theorem mem_reap {s : Server} {e : Effect} (h : e ∈ s.reapClosed.2) :
    ∃ c client, s.clients.lookup c = some client ∧ client.conn.closed = true ∧ e = .reaped c := by
  simp only [reapClosed, List.mem_map, List.mem_filterMap, Option.ite_none_right_eq_some,
    Option.some.injEq] at h
  obtain ⟨c, ⟨⟨k, client⟩, hmem, hclosed, rfl⟩, rfl⟩ := h
  exact ⟨k, client, (Table.mem_entries_iff ..).mp hmem, hclosed, rfl⟩

/-- Sweeping closes flows and shuts their streams down, and does nothing else. -/
theorem sweep_effects {s : Server} {elapsed : Duration} {e : Effect} :
    e ∈ (s.sweepIdleFlows elapsed).2 → (e matches .closed .. | .shutdown ..) = true := by
  intro he
  obtain ⟨c, f, flow, -, -, hmem⟩ := (mem_sweep ..).mp he
  simp only [closeIdle, List.mem_cons, List.not_mem_nil, or_false] at hmem
  rcases hmem with rfl | rfl | rfl <;> rfl

theorem reap_effects {s : Server} {e : Effect} :
    e ∈ s.reapClosed.2 → (e matches .reaped _) = true := by
  intro he
  obtain ⟨c, client, -, -, rfl⟩ := mem_reap he
  rfl

private theorem sweep_quiet {α : Type} (r : Effect → Option α) (hc : ∀ c f, r (.closed c f) = none)
    (hs : ∀ c stream d code, r (.shutdown c stream d code) = none) (s : Server) (elapsed : Duration) :
    latest r (s.sweepIdleFlows elapsed).2 = none := by
  rw [latest_eq_none_iff]
  intro e he
  have hkind := sweep_effects he
  cases e with
  | closed c f => exact hc c f
  | shutdown c stream d code => exact hs c stream d code
  | _ => cases hkind

private theorem reap_quiet {α : Type} (r : Effect → Option α) (hr : ∀ c, r (.reaped c) = none)
    (s : Server) : latest r s.reapClosed.2 = none := by
  rw [latest_eq_none_iff]
  intro e he
  obtain ⟨c, client, -, -, rfl⟩ := mem_reap he
  exact hr c

/-- A connection's own fields play no role for its flows. -/
private theorem flowAt_modify (s : Server) (c : Scid) (g : Client → Client)
    (hg : ∀ client, (g client).flows = client.flows) (k : Scid) (f : UInt64) :
    flowAt { s with clients := Table.modify c g s.clients } k f = s.flowAt k f := by
  simp only [flowAt, Table.lookup_modify]
  split
  · cases s.clients.lookup k <;> simp [hg]
  · rfl

theorem flowAt_reap (s : Server) (c : Scid) (f : UInt64) :
    s.reapClosed.1.flowAt c f =
      ((s.clients.lookup c).filter fun client => !client.conn.closed).bind fun client =>
        client.flows.lookup f := by
  simp only [flowAt, reapClosed, Table.lookup_retain]

private theorem flowAt_of_reap {s : Server} {c : Scid} {f : UInt64} {flow : Flow}
    (h : s.reapClosed.1.flowAt c f = some flow) : s.flowAt c f = some flow := by
  rw [flowAt_reap] at h
  obtain ⟨client, hclient, hf⟩ := Option.bind_eq_some_iff.mp h
  rw [flowAt, (Option.filter_eq_some_iff.mp hclient).1]
  exact hf

/-- Every flow that is open after an action has an origin. -/
theorem act_origin (s : Server) (a : Action) {c : Scid} {f : UInt64} {flow : Flow}
    (h : (s.act a).1.flowAt c f = some flow) :
    Origin a.request (s.flowAt c f) (s.act a).1.clock s.channels (s.act a).2 c f flow := by
  cases a with
  | negotiate dest => exact .kept h (by simp [act, touch]) (by simp [act, opening])
  | accept scid dcid peer state =>
    simp only [act, accept, flowAt, Table.lookup_insert_ite] at h
    split at h
    · simp at h
    · exact .kept h (by simp [act, accept, touch]) (by simp [act, accept, opening])
  | recv conn peer state =>
    have hsame := flowAt_modify s conn ({ · with peer := peer, conn := state }) (fun _ => rfl) c f
    exact .kept (hsame.symm.trans h) rfl rfl
  | withTransport conn =>
    have hsame := flowAt_modify s conn ({ · with http3 := true }) (fun _ => rfl) c f
    exact .kept (hsame.symm.trans h) rfl rfl
  | poll conn event => exact poll_origin s conn event h
  | readClock elapsed => exact .kept h rfl rfl
  | datagram conn bytes full =>
    exact atDesk_origin s conn _ _ (fun _ => relayDatagram_local conn bytes full)
      (fun _ desk _ _ => relayDatagram_origin conn bytes full desk) h
  | payload tc => exact onTargetPayload_origin s tc h
  | connections state =>
    refine .kept ?_ rfl rfl
    simp only [act, flowAt, Table.lookup_mapValues] at h
    rw [flowAt]
    cases hc : s.clients.lookup c with
    | none => simp [hc] at h
    | some client => simpa [hc] using h
  | sweep elapsed =>
    rw [act, flowAt_sweep, Option.filter_eq_some_iff] at h
    exact .kept h.1 (sweep_quiet _ (fun _ _ => rfl) (fun _ _ _ _ => rfl) s elapsed)
      (sweep_quiet _ (fun _ _ => rfl) (fun _ _ _ _ => rfl) s elapsed)
  | reap =>
    exact .kept (flowAt_of_reap h) (reap_quiet _ (fun _ => rfl) s) (reap_quiet _ (fun _ => rfl) s)
  | reload rules => exact .kept h rfl rfl

private theorem clock_atDesk (s : Server) (c : Scid) (work : Client → Desk → Desk × List Effect)
    (hwork : ∀ client desk, desk.clock ≤ (work client desk).1.clock) :
    s.clock ≤ (s.atDesk c work).1.clock := by
  cases hc : s.clients.lookup c with
  | none => simp only [atDesk, hc, Nat.le_refl]
  | some client =>
    simp only [atDesk, hc]
    exact hwork client ⟨client.flows, s.clock, s.channels⟩

private theorem handleConnectRequest_clock (rules : RuleTable) (client : SocketAddr) (c : Scid)
    (stream : UInt64) (hs : List Header) (answers : Answers) (desk : Desk) :
    desk.clock ≤ (handleConnectRequest rules client c stream hs answers desk).1.clock := by
  rcases handleConnectRequest_cases rules client c stream hs answers desk with
    ⟨status, -, he⟩ | ⟨idleTimeout, socket, he⟩
  · rw [he]
    exact Nat.le_refl _
  · rw [he, (openFlow_counters c stream idleTimeout socket answers desk).1]
    exact Nat.le_add_right ..

/-- Clock readings never go back. -/
theorem clock_act (s : Server) (a : Action) : s.clock ≤ (s.act a).1.clock := by
  cases a with
  | poll conn event =>
    cases event with
    | headers stream list answers =>
      exact clock_atDesk s conn _ fun _ _ => handleConnectRequest_clock _ _ conn _ _ _ _
    | finished stream => exact clock_atDesk s conn _ fun _ _ => Nat.le_refl _
    | reset stream code => exact clock_atDesk s conn _ fun _ _ => Nat.le_refl _
    | data stream => exact Nat.le_refl _
    | other stream => exact Nat.le_refl _
  | readClock elapsed => exact Nat.le_add_right ..
  | datagram conn bytes full =>
    refine clock_atDesk s conn _ fun _ desk => Nat.le_of_eq ?_
    unfold relayDatagram
    split
    · rfl
    split_ifs
    · rfl
    split <;> rfl
  | payload tc => exact clock_atDesk s tc.connId _ fun _ _ => Nat.le_refl _
  | sweep elapsed => exact Nat.le_add_right ..
  | negotiate dest => exact Nat.le_refl _
  | accept scid dcid peer state => exact Nat.le_refl _
  | recv conn peer state => exact Nat.le_refl _
  | withTransport conn => exact Nat.le_refl _
  | connections state => exact Nat.le_refl _
  | reap => exact Nat.le_refl _
  | reload rules => exact Nat.le_refl _

end ZeroMasque.Server
