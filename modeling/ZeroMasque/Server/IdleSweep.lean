import ZeroMasque.Foundation.Logs
import ZeroMasque.Server.Flows

/-! The idle sweep closes exactly the flows whose last traffic is too old, and
shuts down the streams that opened them. When the last traffic was follows from the
requests, datagrams and replies that the server was given. -/
namespace ZeroMasque.Server
open Foundation

/-- When a flow was last opened or carried traffic, read off the trace. -/
def lastTouch (tr : List Effect) (c : Scid) (f : UInt64) : Option Instant := latest (touch c f) tr

/-- The recorded activity of every open flow is its last traffic. -/
def Timely (tr : List Effect) (s : Server) : Prop :=
  ∀ c f flow, s.flowAt c f = some flow →
    lastTouch tr c f = some flow.lastActivity ∧ flow.lastActivity ≤ s.clock

/-- An action that leaves a flow open either touches it, and records when, or leaves the
time of its last traffic as it was. -/
private theorem act_stamps {s : Server} {a : Action} {c : Scid} {f : UInt64} {flow : Flow}
    (hf : (s.act a).1.flowAt c f = some flow) {last : Option Instant}
    (h : ∀ flow, s.flowAt c f = some flow → last = some flow.lastActivity ∧ flow.lastActivity ≤ s.clock) :
    (latest (touch c f) (s.act a).2).or last = some flow.lastActivity ∧ flow.lastActivity ≤ (s.act a).1.clock := by
  cases act_origin s a hf with
  | kept hb ht ho =>
    obtain ⟨hlast, hpast⟩ := h flow hb
    rw [ht, Option.none_or]
    exact ⟨hlast, Nat.le_trans hpast (clock_act s a)⟩
  | touched old hb hflow ht ho =>
    rw [ht, hflow, Option.some_or]
    exact ⟨rfl, Nat.le_refl _⟩
  | opened stream socket hr hid hc hl hs ht ho =>
    rw [ht, hl, Option.some_or]
    exact ⟨rfl, Nat.le_refl _⟩

theorem Timely.act {tr : List Effect} {s : Server} (h : Timely tr s) (a : Action) :
    Timely (tr ++ (s.act a).2) (s.act a).1 := by
  intro c f flow hf
  rw [lastTouch, latest_append]
  exact act_stamps hf (h c f)

/-- Requests arrive on client-initiated bidirectional streams only. -/
def OnRequestStream (a : Action) : Prop :=
  ∀ c stream, a.request = some (c, stream) → stream.toNat % 4 = 0

theorem OnRequestStream.of_none {a : Action} (h : a.request = none) : OnRequestStream a := by
  intro c stream hr
  rw [h] at hr
  cases hr

theorem onRequestStream_oneFlow (c : Scid) : ∀ a ∈ oneFlow c, OnRequestStream a := by
  simp only [oneFlow, List.mem_cons, List.not_mem_nil, or_false, forall_eq_or_imp, forall_eq]
  refine ⟨.of_none rfl, .of_none rfl, ?_⟩
  rintro k stream ⟨⟩
  rfl

/-- A flow id times four is the stream it was made from. -/
theorem stream_of_flow {f stream : UInt64} (hf : f = stream / 4) (h4 : stream.toNat % 4 = 0) :
    f.toNat * 4 < 2 ^ 64 ∧ f.toNat * 4 = stream.toNat ∧ f * 4 = stream := by
  have hlt := stream.toNat_lt
  have hn : f.toNat = stream.toNat / 4 := by rw [hf]; rfl
  refine ⟨by omega, by omega, ?_⟩
  apply UInt64.toNat.inj
  rw [UInt64.toNat_mul]
  have h4' : (4 : UInt64).toNat = 4 := rfl
  rw [h4', Nat.mod_eq_of_lt (by omega)]
  omega

abbrev Step := Turn Server Action Effect

/-- Any sequence of the server's actions, every step on record. -/
abbrev ActionLog (rules : RuleTable) (start : Instant) : List Step → Server → Prop :=
  Run (logged fun s a => some (act s a)) (fun _ _ a => OnRequestStream a) (new rules start)

section Inputs
variable (c : Scid) (f : UInt64)

/-- The connection is there, and the request on it can be served. -/
def canOpen (s : Server) (list : List Header) (os : Platform) : Bool :=
  (s.clients.lookup c).any fun client => Opens s.rules client.peer list os

/-- The clock value that an action takes for a flow: when it is a request that opens the
flow, a datagram of the flow with context id 0, or a payload from its target. -/
def activity (s : Server) : Action → Option Instant
  | .poll conn (.headers stream list answers) =>
    if conn = c ∧ stream / 4 = f ∧ canOpen c s list answers.os then some (s.clock + answers.elapsed) else none
  | .datagram conn bytes _ =>
    if conn = c ∧ (Dgram.decode bytes).any fun parsed => parsed.contextId = 0 ∧ parsed.flowId = f then some s.clock
    else none
  | .payload tc => if tc.connId = c ∧ tc.flowId = f then some s.clock else none
  | _ => none

/-- The stream of a request that opens the flow. -/
def openedOn (s : Server) : Action → Option UInt64
  | .poll conn (.headers stream list answers) =>
    if conn = c ∧ stream / 4 = f ∧ canOpen c s list answers.os then some stream else none
  | _ => none

/-- When the flow was last opened or had traffic, by what the server was given. -/
def lastActivity (log : List Step) : Option Instant := latest (fun t => activity c f t.before t.input) log

/-- The stream of the last request that opened the flow, by what the server was given. -/
def lastOpened (log : List Step) : Option UInt64 := latest (fun t => openedOn c f t.before t.input) log

end Inputs

section Agreement
variable {s : Server} {c : Scid} {f : UInt64} {flow : Flow}

/-- What is read off an action and what is read off its effects agree. -/
private def ReadOff (s : Server) (a : Action) (c : Scid) (f : UInt64) : Prop :=
  activity c f s a = latest (touch c f) (s.act a).2 ∧ openedOn c f s a = latest (opening c f) (s.act a).2

private theorem readOff_headers (s : Server) (conn c : Scid) (f stream : UInt64) (list : List Header)
    (answers : Answers) : ReadOff s (.poll conn (.headers stream list answers)) c f := by
  -- A request that opens nothing under `f` on `c` is no traffic of that flow.
  have hother (hno : ¬ (conn = c ∧ stream / 4 = f ∧ canOpen c s list answers.os)) :
      activity c f s (.poll conn (.headers stream list answers)) = none ∧
        openedOn c f s (.poll conn (.headers stream list answers)) = none :=
    ⟨if_neg hno, if_neg hno⟩
  cases hc : s.clients.lookup conn with
  | none =>
    obtain ⟨hactivity, hopened⟩ := hother (by
      rintro ⟨rfl, -, hopen⟩
      simp [canOpen, hc] at hopen)
    simp [ReadOff, hactivity, hopened, act, poll, atDesk, hc]
  | some client =>
    by_cases ho : Opens s.rules client.peer list answers.os
    · obtain ⟨idleTimeout, socket, heq⟩ :=
        handleConnectRequest_opens ho conn stream ⟨client.flows, s.clock, s.channels⟩
      by_cases hm : conn = c ∧ stream / 4 = f
      · obtain ⟨rfl, rfl⟩ := hm
        cases hsent : answers.sent <;>
          simp [ReadOff, activity, openedOn, canOpen, act, poll, atDesk, hc, ho, heq, openFlow_effects, hsent,
            latest_cons, touch, opening]
      · obtain ⟨hactivity, hopened⟩ := hother fun h => hm ⟨h.1, h.2.1⟩
        rw [ReadOff, hactivity, hopened]
        cases hsent : answers.sent <;>
          simp [act, poll, atDesk, hc, heq, openFlow_effects, hsent, latest_cons, touch, opening, hm]
    · obtain ⟨status, heq⟩ := handleConnectRequest_refuses ho conn stream ⟨client.flows, s.clock, s.channels⟩
      obtain ⟨hactivity, hopened⟩ := hother (by
        rintro ⟨rfl, -, hopen⟩
        simp [canOpen, hc, ho] at hopen)
      simp [ReadOff, hactivity, hopened, act, poll, atDesk, hc, heq, respondStatus, touch, opening]

private theorem readOff_datagram {conn : Scid} {bytes : Bytes} {full : Bool}
    (h : (s.act (.datagram conn bytes full)).1.flowAt c f = some flow) : ReadOff s (.datagram conn bytes full) c f := by
  cases hc : s.clients.lookup conn with
  | none =>
    have hne : conn ≠ c := by
      rintro rfl
      simp [act, atDesk, hc, flowAt] at h
    simp [ReadOff, activity, openedOn, act, atDesk, hc, hne]
  | some client =>
    cases hd : Dgram.decode bytes with
    | none => simp [ReadOff, activity, openedOn, act, atDesk, hc, relayDatagram, hd]
    | some parsed =>
      by_cases hctx : parsed.contextId = 0
      · cases hf : client.flows.lookup parsed.flowId with
        | none =>
          have hne : ¬ (conn = c ∧ parsed.flowId = f) := by
            rintro ⟨rfl, rfl⟩
            simp [act, atDesk, hc, relayDatagram, hd, hctx, Dgram.contextIdUdp, hf, flowAt] at h
          simp [ReadOff, activity, openedOn, act, atDesk, hc, relayDatagram, hd, hctx, Dgram.contextIdUdp, hf, hne,
            touch, opening]
        | some old =>
          simp [ReadOff, activity, openedOn, act, atDesk, hc, relayDatagram, hd, hctx, Dgram.contextIdUdp, hf, touch,
            opening]
      · simp [ReadOff, activity, openedOn, act, atDesk, hc, relayDatagram, hd, hctx, Dgram.contextIdUdp]

private theorem readOff_payload {tc : ToClient} (h : (s.act (.payload tc)).1.flowAt c f = some flow) :
    ReadOff s (.payload tc) c f := by
  cases hc : s.clients.lookup tc.connId with
  | none =>
    have hne : tc.connId ≠ c := by
      rintro rfl
      simp [act, onTargetPayload, atDesk, hc, flowAt] at h
    simp [ReadOff, activity, openedOn, act, onTargetPayload, atDesk, hc, hne]
  | some client =>
    simp [ReadOff, activity, openedOn, act, onTargetPayload, atDesk, hc, latest_cons, touch, opening]

/-- Effects of the other actions say nothing about traffic. -/
private theorem readOff_quiet {a : Action} (hactivity : activity c f s a = none) (hopened : openedOn c f s a = none)
    (hes : ∀ e ∈ (s.act a).2, touch c f e = none ∧ opening c f e = none) : ReadOff s a c f := by
  rw [ReadOff, hactivity, hopened]
  exact ⟨((latest_eq_none_iff ..).mpr fun e he => (hes e he).1).symm,
    ((latest_eq_none_iff ..).mpr fun e he => (hes e he).2).symm⟩

private theorem quiet_close {conn : Scid} {stream : UInt64} :
    ∀ e ∈ (s.atDesk conn fun _ desk => desk.close conn (stream / 4)).2, touch c f e = none ∧ opening c f e = none := by
  intro e he
  unfold atDesk at he
  split at he
  · cases he
  · simp only [Desk.close] at he
    split at he
    · rw [List.mem_singleton.mp he]
      exact ⟨rfl, rfl⟩
    · cases he

/-- As long as the flow is in the table afterwards, the action alone tells. -/
private theorem act_readOff {a : Action} (h : (s.act a).1.flowAt c f = some flow) : ReadOff s a c f := by
  cases a with
  | poll conn event =>
    cases event with
    | headers stream list answers => exact readOff_headers s conn c f stream list answers
    | finished stream => exact readOff_quiet rfl rfl quiet_close
    | reset stream code => exact readOff_quiet rfl rfl quiet_close
    | data stream => exact ⟨rfl, rfl⟩
    | other stream => exact ⟨rfl, rfl⟩
  | datagram conn bytes full => exact readOff_datagram h
  | payload tc => exact readOff_payload h
  | sweep elapsed =>
    refine readOff_quiet rfl rfl fun e he => ?_
    have hkind := sweep_effects he
    cases e with
    | closed | shutdown => exact ⟨rfl, rfl⟩
    | _ => cases hkind
  | reap =>
    refine readOff_quiet rfl rfl fun e he => ?_
    obtain ⟨k, client, -, -, rfl⟩ := mem_reap he
    exact ⟨rfl, rfl⟩
  | _ => exact ⟨by simp [activity, act, accept, touch], by simp [openedOn, act, accept, opening]⟩

end Agreement

/-- The recorded activity of every open flow is its last traffic, and its id is that of
the stream that opened it. -/
structure Tracked (log : List Step) (s : Server) : Prop where
  timely : ∀ c f flow, s.flowAt c f = some flow →
    lastActivity c f log = some flow.lastActivity ∧ flow.lastActivity ≤ s.clock
  streamed : ∀ c f flow, s.flowAt c f = some flow →
    ∃ stream, lastOpened c f log = some stream ∧ f = stream / 4 ∧ stream.toNat % 4 = 0

private theorem Tracked.init (rules : RuleTable) (start : Instant) : Tracked [] (new rules start) where
  timely c f flow hf := by cases hf
  streamed c f flow hf := by cases hf

private theorem Tracked.act {log : List Step} {s : Server} (h : Tracked log s) {a : Action} (ha : OnRequestStream a) :
    Tracked (log ++ [⟨s, a, (s.act a).1, (s.act a).2⟩]) (s.act a).1 := by
  constructor
  · intro c f flow hf
    rw [lastActivity, latest_append, latest_singleton, (act_readOff hf).1]
    exact act_stamps hf (h.timely c f)
  · intro c f flow hf
    rw [lastOpened, latest_append, latest_singleton, (act_readOff hf).2]
    cases act_origin s a hf with
    | kept hb ht ho =>
      rw [ho, Option.none_or]
      exact h.streamed c f flow hb
    | touched old hb hflow ht ho =>
      rw [ho, Option.none_or]
      exact h.streamed c f old hb
    | opened stream socket hr hid hc hl hs ht ho =>
      rw [ho, Option.some_or]
      exact ⟨stream, rfl, hid, ha c stream hr⟩

theorem ActionLog.tracked {rules : RuleTable} {start : Instant} {log : List Step} {s : Server}
    (h : ActionLog rules start log s) : Tracked log s := by
  refine Run.invariant (P := fun log s => Tracked log s) (.init rules start) ?_ h
  intro log s a s' entries _ ih ha hs
  obtain ⟨es, hstep, rfl⟩ := logged_eq_some hs
  have hact : s.act a = (s', es) := Option.some.inj hstep
  have h := ih.act ha
  rwa [hact] at h

/-- What a sweep at `now` does after a run on record. -/
structure ExactSweep (log : List Step) (now : Instant) (s s' : Server) (es : List Effect) : Prop where
  closes : ∀ c f flow, s.flowAt c f = some flow →
    (s'.flowAt c f = none ↔ ∃ d t, flow.idleTimeout = some d ∧ lastActivity c f log = some t ∧
      t ≤ now ∧ d ≤ now - t)
  keeps : ∀ c f flow, s'.flowAt c f = some flow → s.flowAt c f = some flow
  clients : ∀ c, (s'.clients.lookup c).map ({ · with flows := ∅ }) =
    (s.clients.lookup c).map ({ · with flows := ∅ })
  routes : s'.routes = s.routes
  shutsDown : ∀ c stream direction code, .shutdown c stream direction code ∈ es ↔
    code = 0x100 ∧ ∃ f flow, s.flowAt c f = some flow ∧ s'.flowAt c f = none ∧
      lastOpened c f log = some stream
  closed : ∀ c f, .closed c f ∈ es ↔ ∃ flow, s.flowAt c f = some flow ∧ s'.flowAt c f = none
  nothingElse : ∀ e ∈ es, (e matches .shutdown ..) ∨ (e matches .closed ..)
  once : es.Nodup
  streams : ∀ c f flow, s.flowAt c f = some flow →
    ∃ stream, lastOpened c f log = some stream ∧ f.toNat * 4 < 2 ^ 64 ∧ f.toNat * 4 = stream.toNat

private theorem closeIdle_disjoint {c c' : Scid} {f f' : UInt64} (hf : f.toNat * 4 < 2 ^ 64)
    (hf' : f'.toNat * 4 < 2 ^ 64) (hne : c ≠ c' ∨ f ≠ f') :
    List.Disjoint (closeIdle c f) (closeIdle c' f') := by
  have hinj : f * 4 = f' * 4 → f = f' := by
    intro h
    have h' := congrArg UInt64.toNat h
    have h4 : (4 : UInt64).toNat = 4 := rfl
    rw [UInt64.toNat_mul, UInt64.toNat_mul, h4, Nat.mod_eq_of_lt hf, Nat.mod_eq_of_lt hf'] at h'
    exact UInt64.toNat.inj (by omega)
  intro e he he'
  simp only [closeIdle, List.mem_cons, List.not_mem_nil, or_false] at he he'
  rcases he with rfl | rfl | rfl <;> simp_all

private theorem expired_nodup (now : Instant) (client : Client) : (expired now client).Nodup := by
  refine List.pairwise_filterMap.mpr
    ((List.nodupKeys_iff_pairwise.mp client.flows.nodupKeys).imp ?_)
  intro e e' hne f hf f' hf'
  split at hf
  · cases hf
  split at hf'
  · cases hf'
  split_ifs at hf hf'
  cases hf
  cases hf'
  exact hne

private theorem sweep_nodup {log : List Step} {s : Server} (h : Tracked log s) (elapsed : Duration) :
    (s.sweepIdleFlows elapsed).2.Nodup := by
  have hsmall (c : Scid) (client : Client) (hc : s.clients.lookup c = some client) (f : UInt64)
      (hf : f ∈ expired (s.clock + elapsed) client) : f.toNat * 4 < 2 ^ 64 := by
    obtain ⟨flow, d, hlookup, -⟩ := (mem_expired ..).mp hf
    obtain ⟨stream, -, hid, h4⟩ := h.streamed c f flow (by rw [flowAt, hc]; exact hlookup)
    exact (stream_of_flow hid h4).1
  have hone (c : Scid) (f : UInt64) : (closeIdle c f).Nodup := by simp [closeIdle]
  have hkeys : s.clients.entries.Pairwise fun e e' => e.1 ≠ e'.1 :=
    List.nodupKeys_iff_pairwise.mp s.clients.nodupKeys
  simp only [sweepIdleFlows, List.nodup_flatMap]
  refine ⟨?_, ?_⟩
  · rintro ⟨c, client⟩ hmem
    have hc := (Table.mem_entries_iff ..).mp hmem
    refine ⟨fun f _ => hone c f, ?_⟩
    refine (expired_nodup (s.clock + elapsed) client).imp_of_mem ?_
    intro f f' hf hf' hne
    exact closeIdle_disjoint (hsmall c client hc f hf) (hsmall c client hc f' hf') (.inr hne)
  · refine hkeys.imp_of_mem ?_
    rintro ⟨c, client⟩ ⟨c', client'⟩ hmem hmem' hne e he he'
    obtain ⟨f, hf, he⟩ := List.mem_flatMap.mp he
    obtain ⟨f', hf', he'⟩ := List.mem_flatMap.mp he'
    exact closeIdle_disjoint (hsmall c client ((Table.mem_entries_iff ..).mp hmem) f hf)
      (hsmall c' client' ((Table.mem_entries_iff ..).mp hmem') f' hf') (.inl hne) he he'

/-- A sweep shuts down the streams that opened the flows it removes. -/
theorem Tracked.shutdown_mem_sweep {log : List Step} {s : Server} (h : Tracked log s)
    (elapsed : Duration) (c : Scid) (stream : UInt64) (direction : Direction) (code : Nat) :
    .shutdown c stream direction code ∈ (s.sweepIdleFlows elapsed).2 ↔
      code = 0x100 ∧ ∃ f flow, s.flowAt c f = some flow ∧ (s.sweepIdleFlows elapsed).1.flowAt c f = none ∧
        lastOpened c f log = some stream := by
  rw [mem_sweep]
  constructor
  · rintro ⟨c', f, flow, hf, hgone, he⟩
    obtain ⟨stream', hopen, hid, h4⟩ := h.streamed c' f flow hf
    simp only [closeIdle, List.mem_cons, List.not_mem_nil, or_false, reduceCtorEq, false_or,
      (stream_of_flow hid h4).2.2] at he
    rcases he with he | he <;> cases he <;> exact ⟨rfl, f, flow, hf, hgone, hopen⟩
  · rintro ⟨rfl, f, flow, hf, hgone, hopen⟩
    obtain ⟨stream', hopen', hid, h4⟩ := h.streamed c f flow hf
    obtain rfl : stream' = stream := Option.some.inj (hopen'.symm.trans hopen)
    refine ⟨c, f, flow, hf, hgone, ?_⟩
    rw [closeIdle, (stream_of_flow hid h4).2.2]
    cases direction <;> simp

/-- In every reachable state a sweep removes the flows that are due and no
others, and shuts down both directions of the streams that opened them. -/
theorem sweepIdleFlows_exact {rules : RuleTable} {start : Instant} {log : List Step} {s : Server}
    (h : ActionLog rules start log s) (elapsed : Duration) :
    ExactSweep log (s.clock + elapsed) s (s.sweepIdleFlows elapsed).1 (s.sweepIdleFlows elapsed).2 := by
  have htracked := ActionLog.tracked h
  refine ⟨?_, ?_, ?_, rfl, htracked.shutdown_mem_sweep elapsed, closed_mem_sweep s elapsed, ?_,
    sweep_nodup htracked elapsed, ?_⟩
  · intro c f flow hf
    obtain ⟨htouch, hpast⟩ := htracked.timely c f flow hf
    rw [flowAt_sweep, hf, htouch]
    cases hd : flow.idleTimeout with
    | none => simp [hd]
    | some d => simp [hd, Nat.le_trans hpast (Nat.le_add_right ..)]
  · intro c f flow hf
    rw [flowAt_sweep, Option.filter_eq_some_iff] at hf
    exact hf.1
  · intro c
    simp only [sweepIdleFlows, Table.lookup_mapValues]
    cases s.clients.lookup c <;> rfl
  · intro e he
    obtain ⟨c, f, flow, -, -, he⟩ := (mem_sweep ..).mp he
    simp only [closeIdle, List.mem_cons, List.not_mem_nil, or_false] at he
    rcases he with rfl | rfl | rfl <;> simp
  · intro c f flow hf
    obtain ⟨stream, hopen, hid, h4⟩ := htracked.streamed c f flow hf
    exact ⟨stream, hopen, (stream_of_flow hid h4).1, (stream_of_flow hid h4).2.1⟩

/-- A client whose flow goes idle. -/
def forgotten : Scid := ⟨List.replicate 16 9, rfl⟩

/-- A datagram after 20 s and a reply after 40 s keep the flow open, and 30 s without
traffic close it. -/
theorem sweepIdleFlows_exact_silent :
    ∃ log s, ActionLog shadowedRules 100 log s ∧
      ExactSweep log (s.clock + secs 30) s (s.sweepIdleFlows (secs 30)).1 (s.sweepIdleFlows (secs 30)).2 ∧
      lastActivity forgotten 2 log = some (105 + secs 40) ∧ s.clock = 105 + secs 40 ∧
      ((s.sweepIdleFlows (secs 29)).1.flowAt forgotten 2).isSome ∧
      (s.sweepIdleFlows (secs 30)).1.flowAt forgotten 2 = none := by
  have hok : ∀ a ∈ oneFlow forgotten ++ [.readClock (secs 20), .datagram forgotten [2, 0, 9] false,
      .readClock (secs 20), .payload ⟨forgotten, 2, [8]⟩], OnRequestStream a := by
    refine List.forall_mem_append.mpr ⟨onRequestStream_oneFlow forgotten, ?_⟩
    simp only [List.mem_cons, List.not_mem_nil, or_false, forall_eq_or_imp, forall_eq]
    exact ⟨.of_none rfl, .of_none rfl, .of_none rfl, .of_none rfl⟩
  have hlog : ActionLog shadowedRules 100 _ _ :=
    Run.extend .init _
      (fun a ha _ _ => hok a ha) (by decide)
  exact ⟨_, _, hlog, sweepIdleFlows_exact hlog (secs 30), by decide, by decide, by decide, by decide⟩

end ZeroMasque.Server
