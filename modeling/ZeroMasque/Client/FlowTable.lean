import ZeroMasque.Client.Session

/-! The two tables of a session stay inverse to each other, established flows
have nothing buffered, and no buffer grows past its bound. -/
namespace ZeroMasque.Session
open Foundation

structure Coherent (s : Session) : Prop where
  inverse : ∀ f src, s.flows.lookup f = some src ↔
    ∃ st, s.byAddr.lookup src = some st ∧ st.flowId = some f
  established : ∀ src st, s.byAddr.lookup src = some st → st.established = true →
    st.flowId.isSome ∧ st.pending = []
  bounded : ∀ src st, s.byAddr.lookup src = some st → st.pending.length ≤ maxPending

/-- Rewriting the state of one source keeps coherence if its flow id stays. -/
private theorem Coherent.insert {s : Session} (h : Coherent s) {src : SocketAddr} {st : FlowState}
    (hid : st.flowId = (s.byAddr.lookup src).bind FlowState.flowId)
    (hest : st.established = true → st.flowId.isSome ∧ st.pending = [])
    (hlen : st.pending.length ≤ maxPending) :
    Coherent { s with byAddr := s.byAddr.insert src st } := by
  refine ⟨fun f src' => ?_, fun src' st' hs => ?_, fun src' st' hs => ?_⟩
  · rw [h.inverse f src']
    simp only [Table.lookup_insert_ite]
    by_cases hsrc : src' = src
    · subst hsrc
      simp only [if_true, Option.some.injEq, exists_eq_left', hid, Option.bind_eq_some_iff]
    · simp only [if_neg hsrc]
  · simp only [Table.lookup_insert_ite] at hs
    split at hs
    · cases hs
      exact hest
    · exact h.established src' st' hs
  · simp only [Table.lookup_insert_ite] at hs
    split at hs
    · cases hs
      exact hlen
    · exact h.bounded src' st' hs

private theorem Coherent.onLocal {s : Session} (h : Coherent s) (src : SocketAddr) (data : Bytes) :
    Coherent (s.onLocal src data).1 := by
  have hst : ∀ st, (s.byAddr.lookup src).getD ⟨none, false, []⟩ = st →
      st.flowId = (s.byAddr.lookup src).bind FlowState.flowId ∧
      (st.established = true → st.flowId.isSome ∧ st.pending = []) ∧
      st.pending.length ≤ maxPending := by
    rintro st rfl
    cases hs : s.byAddr.lookup src with
    | none => simp
    | some st => exact ⟨rfl, h.established src st hs, h.bounded src st hs⟩
  simp only [Session.onLocal]
  generalize (s.byAddr.lookup src).getD ⟨none, false, []⟩ = st at hst
  obtain ⟨hid, hest, hlen⟩ := hst st rfl
  split
  · exact h.insert hid hest hlen
  · rename_i hno
    refine h.insert hid ?_ ?_
    · intro he
      obtain ⟨fid, hfid⟩ := Option.isSome_iff_exists.mp (hest he).1
      exact (hno fid he hfid).elim
    · split
      · rename_i hroom
        simpa using Nat.succ_le_of_lt hroom
      · exact hlen

private theorem Coherent.accepted {s : Session} (h : Coherent s) (fid : UInt64) :
    Coherent (s.accepted fid).1 := by
  unfold Session.accepted
  split
  · exact h
  rename_i src hsrc
  split
  · exact h
  rename_i st hst
  obtain ⟨st', hst', hid⟩ := (h.inverse fid src).mp hsrc
  obtain rfl : st = st' := Option.some.inj (hst.symm.trans hst')
  refine h.insert ?_ ?_ (Nat.zero_le _)
  · rw [hst]
    rfl
  · intro _
    exact ⟨by rw [hid]; rfl, rfl⟩

private theorem Coherent.dropFlow {s : Session} (h : Coherent s) (fid : UInt64) : Coherent (s.dropFlow fid) := by
  unfold Session.dropFlow
  split
  · exact h
  rename_i src hsrc
  obtain ⟨st, hst, hid⟩ := (h.inverse fid src).mp hsrc
  refine ⟨fun f src' => ?_, fun src' st' hs => ?_, fun src' st' hs => ?_⟩
  · simp only [Table.lookup_erase_ite]
    by_cases hsrc' : src' = src
    · -- the only flow of the forgotten source is the forgotten one
      subst hsrc'
      simp only [if_true, reduceCtorEq, false_and, exists_false, iff_false]
      split_ifs with hf
      · simp
      · intro hother
        obtain ⟨st', hst', hid'⟩ := (h.inverse f src').mp hother
        obtain rfl : st = st' := Option.some.inj (hst.symm.trans hst')
        exact hf (Option.some.inj (hid'.symm.trans hid))
    · simp only [if_neg hsrc', ← h.inverse f src']
      split_ifs with hf
      · subst hf
        simp [hsrc, Ne.symm hsrc']
      · rfl
  · simp only [Table.lookup_erase_ite] at hs
    split at hs
    · cases hs
    · exact h.established src' st' hs
  · simp only [Table.lookup_erase_ite] at hs
    split at hs
    · cases hs
    · exact h.bounded src' st' hs

private theorem Coherent.onResponse {s : Session} (h : Coherent s) (event : ResponseEvent) :
    Coherent (s.onResponse event).1 := by
  cases event with
  | headers stream list =>
    simp only [Session.onResponse]
    split
    · split_ifs
      · exact h.accepted _
      · exact h.dropFlow _
    · exact h
  | finished stream => exact h.dropFlow _
  | reset stream code => exact h.dropFlow _
  | other stream => exact h

/-- Streams granted to requests are client-initiated and bidirectional, one a
request, and never used before. -/
structure FreshStreams (tr : List SessionEffect) (outcome : SocketAddr → RequestOutcome) : Prop where
  quarter : ∀ src stream, outcome src = .ok stream → stream.toNat % 4 = 0
  unused : ∀ src stream, outcome src = .ok stream → ∀ src' headers, .request src' stream headers ∉ tr
  distinct : ∀ src src' stream, outcome src = .ok stream → outcome src' = .ok stream → src = src'

/-- Every flow in the table was requested for the source it is recorded for. -/
def Requested (tr : List SessionEffect) (s : Session) : Prop :=
  ∀ f src, s.flows.lookup f = some src →
    ∃ stream headers, .request src stream headers ∈ tr ∧ f = stream / 4 ∧ stream.toNat % 4 = 0

private theorem Requested.mono {tr es : List SessionEffect} {s s' : Session} (h : Requested tr s)
    (hs : ∀ f src, s'.flows.lookup f = some src → s.flows.lookup f = some src) :
    Requested (tr ++ es) s' := by
  intro f src hf
  obtain ⟨stream, headers, hmem, hid, h4⟩ := h f src (hs f src hf)
  exact ⟨stream, headers, List.mem_append_left _ hmem, hid, h4⟩

/-- Streams divisible by four are told apart by their quarter. -/
theorem stream_eq_of_quarter {a b : UInt64} (ha : a.toNat % 4 = 0) (hb : b.toNat % 4 = 0)
    (h : a / 4 = b / 4) : a = b := by
  have hn := congrArg UInt64.toNat h
  have h4 : (4 : UInt64).toNat = 4 := rfl
  rw [UInt64.toNat_div, UInt64.toNat_div, h4] at hn
  exact UInt64.toNat.inj (by omega)

/-- What holds between two rounds of the loop of `open_pending_flows`. -/
structure OpenLoop (tr0 : List SessionEffect) (outcome : SocketAddr → RequestOutcome)
    (tr : List SessionEffect) (loop : Session × List SocketAddr) : Prop where
  coherent : Coherent loop.1
  requested : Requested tr loop.1
  granted : ∀ src stream headers, .request src stream headers ∈ tr →
    .request src stream headers ∈ tr0 ∨ outcome src = .ok stream
  dropped : ∀ src ∈ loop.2, (∀ stream, outcome src ≠ .ok stream) ∧
    ∀ st, loop.1.byAddr.lookup src = some st → st.flowId = none

/-- A newly granted flow id is not in the table yet. -/
private theorem OpenLoop.free {tr0 tr : List SessionEffect} {outcome : SocketAddr → RequestOutcome}
    {loop : Session × List SocketAddr} (h : OpenLoop tr0 outcome tr loop)
    (hfresh : FreshStreams tr0 outcome) {src : SocketAddr} {st : FlowState} {stream : UInt64}
    (hst : loop.1.byAddr.lookup src = some st) (hno : st.flowId = none)
    (hok : outcome src = .ok stream) : loop.1.flows.lookup (stream / 4) = none := by
  cases hf : loop.1.flows.lookup (stream / 4) with
  | none => rfl
  | some src' =>
    obtain ⟨stream', headers, hmem, hid, h4⟩ := h.requested _ _ hf
    obtain rfl := stream_eq_of_quarter (hfresh.quarter src stream hok) h4 hid
    rcases h.granted _ _ _ hmem with hold | hnow
    · exact absurd hold (hfresh.unused src stream hok src' headers)
    · obtain rfl := hfresh.distinct src src' stream hok hnow
      obtain ⟨st', hst', hid'⟩ := (h.coherent.inverse _ _).mp hf
      rw [hst] at hst'
      cases hst'
      rw [hno] at hid'
      cases hid'

private theorem Coherent.openFlow {s : Session} (h : Coherent s) {src : SocketAddr} {st : FlowState}
    {fid : UInt64} (hst : s.byAddr.lookup src = some st) (hno : st.flowId = none)
    (hfree : s.flows.lookup fid = none) :
    Coherent ⟨s.byAddr.insert src { st with flowId := some fid }, s.flows.insert fid src⟩ := by
  refine ⟨fun f src' => ?_, fun src' st' hs => ?_, fun src' st' hs => ?_⟩
  · simp only [Table.lookup_insert_ite]
    by_cases hsrc : src' = src
    · subst hsrc
      simp only [if_true, Option.some.injEq, exists_eq_left']
      split_ifs with hf
      · simp [hf]
      · simp only [Ne.symm hf, iff_false]
        intro hother
        obtain ⟨st', hst', hid'⟩ := (h.inverse f src').mp hother
        rw [hst] at hst'
        cases hst'
        rw [hno] at hid'
        cases hid'
    · simp only [if_neg hsrc, ← h.inverse f src']
      split_ifs with hf
      · subst hf
        simp [hfree, Ne.symm hsrc]
      · rfl
  · simp only [Table.lookup_insert_ite] at hs
    split at hs
    · cases hs
      intro hest
      have := (h.established src st hst hest).1
      simp [hno] at this
    · exact h.established src' st' hs
  · simp only [Table.lookup_insert_ite] at hs
    split at hs
    · cases hs
      exact h.bounded src st hst
    · exact h.bounded src' st' hs

private theorem OpenLoop.round {tr0 tr : List SessionEffect} {outcome : SocketAddr → RequestOutcome}
    {loop : Session × List SocketAddr} (d : Dialed) (hfresh : FreshStreams tr0 outcome)
    (h : OpenLoop tr0 outcome tr loop) (src : SocketAddr) :
    OpenLoop tr0 outcome (tr ++ (openOne d outcome loop src).2) (openOne d outcome loop src).1 := by
  have hstay : OpenLoop tr0 outcome (tr ++ []) loop := by rwa [List.append_nil]
  unfold openOne
  split
  · exact hstay
  rename_i st hst
  split_ifs with hsome
  · exact hstay
  have hno : st.flowId = none := by simpa using hsome
  cases hout : outcome src with
  | streamBlocked => exact hstay
  | streamLimit | failed =>
    refine ⟨h.coherent, hstay.requested, hstay.granted, fun src' hsrc' => ?_⟩
    rcases List.mem_append.mp hsrc' with hold | hnew
    · exact h.dropped src' hold
    · obtain rfl := List.mem_singleton.mp hnew
      refine ⟨by simp [hout], fun st' hst' => ?_⟩
      rw [hst] at hst'
      cases hst'
      exact hno
  | ok stream =>
    have hfree := h.free hfresh hst hno hout
    refine ⟨h.coherent.openFlow hst hno hfree, ?_, ?_, ?_⟩
    · intro f src' hf
      simp only [Table.lookup_insert_ite] at hf
      split at hf
      · cases hf
        exact ⟨stream, connectHeaders d, by simp, ‹_›, hfresh.quarter src stream hout⟩
      · exact h.requested.mono (fun _ _ h => h) f src' hf
    · intro src' stream' headers hmem
      rcases List.mem_append.mp hmem with hold | hnew
      · exact h.granted src' stream' headers hold
      · cases List.mem_singleton.mp hnew
        exact .inr hout
    · intro src' hsrc'
      obtain ⟨hne, hnone⟩ := h.dropped src' hsrc'
      refine ⟨hne, fun st' hst' => ?_⟩
      simp only [Table.lookup_insert_ite] at hst'
      split at hst'
      · rename_i heq
        exact absurd (heq ▸ hout) (hne stream)
      · exact hnone st' hst'

private theorem openPendingFlows_loop {tr : List SessionEffect} {s : Session}
    {outcome : SocketAddr → RequestOutcome} (d : Dialed) (hfresh : FreshStreams tr outcome)
    (hc : Coherent s) (hr : Requested tr s) :
    OpenLoop tr outcome (tr ++ (drive (openOne d outcome) (s, []) s.byAddr.keys).2)
      (drive (openOne d outcome) (s, []) s.byAddr.keys).1 :=
  drive_keeps _ (fun _ _ src _ hp => hp.round d hfresh src)
    ⟨hc, hr, fun _ _ _ h => .inl h, by simp⟩

/-- The stream a request opens. -/
def requestStream : SessionEffect → Option UInt64
  | .request _ stream _ => some stream
  | _ => none

/-- The streams requested by the loop differ, their flows are in the table, and
no flow has left it. -/
private structure OpenStreams (s : Session) (es : List SessionEffect) (flows : Table UInt64 SocketAddr) :
    Prop where
  distinct : (es.filterMap requestStream).Nodup
  recorded : ∀ stream ∈ es.filterMap requestStream, (flows.lookup (stream / 4)).isSome
  kept : ∀ f, (s.flows.lookup f).isSome → (flows.lookup f).isSome

private theorem OpenStreams.request {s : Session} {es : List SessionEffect} {flows : Table UInt64 SocketAddr}
    (h : OpenStreams s es flows) {stream : UInt64} (hfree : flows.lookup (stream / 4) = none)
    (src : SocketAddr) (headers : List Header) :
    OpenStreams s (es ++ [.request src stream headers]) (flows.insert (stream / 4) src) := by
  have hgrow (f : UInt64) (hf : (flows.lookup f).isSome) :
      ((flows.insert (stream / 4) src).lookup f).isSome := by
    rw [Table.lookup_insert_ite]
    split
    · rfl
    · exact hf
  have hstreams : (es ++ [SessionEffect.request src stream headers]).filterMap requestStream =
      es.filterMap requestStream ++ [stream] := by
    rw [List.filterMap_append]
    rfl
  refine ⟨?_, ?_, fun f hf => hgrow f (h.kept f hf)⟩
  · rw [hstreams, List.nodup_append_comm, List.singleton_append, List.nodup_cons]
    refine ⟨fun hmem => ?_, h.distinct⟩
    have hsome := h.recorded stream hmem
    rw [hfree] at hsome
    cases hsome
  · intro stream' hmem
    rw [hstreams] at hmem
    rcases List.mem_append.mp hmem with hold | hnew
    · exact hgrow _ (h.recorded stream' hold)
    · obtain rfl := List.mem_singleton.mp hnew
      rw [Table.lookup_insert_ite, if_pos rfl]
      rfl

private theorem OpenStreams.round {tr0 es : List SessionEffect} {outcome : SocketAddr → RequestOutcome}
    {s : Session} {loop : Session × List SocketAddr} (d : Dialed) (hfresh : FreshStreams tr0 outcome)
    (hloop : OpenLoop tr0 outcome (tr0 ++ es) loop) (h : OpenStreams s es loop.1.flows) (src : SocketAddr) :
    OpenStreams s (es ++ (openOne d outcome loop src).2) (openOne d outcome loop src).1.1.flows := by
  have hstay : OpenStreams s (es ++ []) loop.1.flows := by rwa [List.append_nil]
  unfold openOne
  split
  · exact hstay
  rename_i st hst
  split_ifs with hsome
  · exact hstay
  cases hout : outcome src with
  | streamBlocked | streamLimit | failed => exact hstay
  | ok stream =>
    have hno : st.flowId = none := by simpa using hsome
    exact h.request (hloop.free hfresh hst hno hout) src (connectHeaders d)

private theorem openPendingFlows_openStreams {tr : List SessionEffect} {s : Session}
    {outcome : SocketAddr → RequestOutcome} (d : Dialed) (hfresh : FreshStreams tr outcome)
    (hc : Coherent s) (hr : Requested tr s) :
    OpenStreams s (s.openPendingFlows d outcome).2 (s.openPendingFlows d outcome).1.flows := by
  refine (drive_keeps (f := openOne d outcome) (t := [])
    (P := fun es loop => OpenLoop tr outcome (tr ++ es) loop ∧ OpenStreams s es loop.1.flows)
    s.byAddr.keys ?_ ⟨?_, ?_⟩).2
  · intro es loop src _ hp
    rw [← List.append_assoc]
    exact ⟨hp.1.round d hfresh src, hp.2.round d hfresh hp.1 src⟩
  · rw [List.append_nil]
    exact ⟨hc, hr, fun _ _ _ h => .inl h, by simp⟩
  · exact ⟨List.nodup_nil, by simp, fun _ h => h⟩

/-- The streams that `open_pending_flows` opens differ from each other, and each
has its flow in the table. -/
theorem openPendingFlows_streams {tr : List SessionEffect} {s : Session}
    {outcome : SocketAddr → RequestOutcome} (d : Dialed) (hfresh : FreshStreams tr outcome)
    (hc : Coherent s) (hr : Requested tr s) :
    ((s.openPendingFlows d outcome).2.filterMap requestStream).Nodup ∧
      ∀ stream ∈ (s.openPendingFlows d outcome).2.filterMap requestStream,
        ((s.openPendingFlows d outcome).1.flows.lookup (stream / 4)).isSome := by
  have hopen := openPendingFlows_openStreams d hfresh hc hr
  exact ⟨hopen.distinct, hopen.recorded⟩

/-- Forgetting sources that never got a flow keeps coherence. -/
private theorem Coherent.eraseAll {s : Session} (h : Coherent s) {dropped : List SocketAddr}
    (hd : ∀ src ∈ dropped, ∀ st, s.byAddr.lookup src = some st → st.flowId = none) :
    Coherent { s with byAddr := Table.eraseAll dropped s.byAddr } := by
  refine ⟨fun f src => ?_, fun src st hs => ?_, fun src st hs => ?_⟩
  · rw [h.inverse f src]
    simp only [Table.lookup_eraseAll]
    by_cases hsrc : src ∈ dropped
    · simp only [if_pos hsrc, reduceCtorEq, false_and, exists_false, iff_false]
      rintro ⟨st, hst, hid⟩
      rw [hd src hsrc st hst] at hid
      cases hid
    · simp only [if_neg hsrc]
  · simp only [Table.lookup_eraseAll] at hs
    split at hs
    · cases hs
    · exact h.established src st hs
  · simp only [Table.lookup_eraseAll] at hs
    split at hs
    · cases hs
    · exact h.bounded src st hs

private theorem openPendingFlows_sound {tr : List SessionEffect} {s : Session}
    {outcome : SocketAddr → RequestOutcome} (d : Dialed) (hfresh : FreshStreams tr outcome)
    (hc : Coherent s) (hr : Requested tr s) :
    Coherent (s.openPendingFlows d outcome).1 ∧
      Requested (tr ++ (s.openPendingFlows d outcome).2) (s.openPendingFlows d outcome).1 := by
  have hloop := openPendingFlows_loop d hfresh hc hr
  exact ⟨hloop.coherent.eraseAll fun src hsrc => (hloop.dropped src hsrc).2, hloop.requested⟩

/-- The library grants fresh streams to the requests of an action. -/
def Granted (tr : List SessionEffect) (a : SessionAct) : Prop :=
  ∀ outcome, a = .openPending outcome → FreshStreams tr outcome

/-- The flow that a response event ends. -/
def endedBy : ResponseEvent → Option UInt64
  | .headers stream list =>
    match statusOf list with
    | some status => if 200 ≤ status ∧ status < 300 then none else some (stream / 4)
    | none => none
  | .finished stream | .reset stream _ => some (stream / 4)
  | .other _ => none

private theorem lookup_dropFlow (s : Session) (fid f : UInt64) :
    (s.dropFlow fid).flows.lookup f = if some fid = some f then none else s.flows.lookup f := by
  simp only [Option.some.injEq]
  unfold Session.dropFlow
  split
  · rename_i hnone
    split_ifs with hf
    · rw [← hf, hnone]
    · rfl
  · rw [Table.lookup_erase_ite]
    simp only [eq_comm]

private theorem flows_accepted (s : Session) (fid : UInt64) : (s.accepted fid).1.flows = s.flows := by
  unfold Session.accepted
  split
  · rfl
  · split <;> rfl

/-- Responses take out the flow they end, and no other. -/
theorem lookup_flows_onResponse (s : Session) (event : ResponseEvent) (f : UInt64) :
    (s.onResponse event).1.flows.lookup f =
      if endedBy event = some f then none else s.flows.lookup f := by
  cases event with
  | headers stream list =>
    cases hstatus : statusOf list with
    | none => simp [Session.onResponse, endedBy, hstatus]
    | some status =>
      by_cases hok : 200 ≤ status ∧ status < 300
      · simp [Session.onResponse, endedBy, hstatus, hok, flows_accepted]
      · simp only [Session.onResponse, endedBy, hstatus, if_neg hok]
        exact lookup_dropFlow s (stream / 4) f
  | finished stream | reset stream code => exact lookup_dropFlow s (stream / 4) f
  | other stream => simp [Session.onResponse, endedBy]

theorem flows_onResponse {s : Session} {event : ResponseEvent} {f : UInt64} {src : SocketAddr}
    (h : (s.onResponse event).1.flows.lookup f = some src) : s.flows.lookup f = some src := by
  rw [lookup_flows_onResponse] at h
  split at h
  · cases h
  · exact h

theorem flows_onLocal (s : Session) (src : SocketAddr) (data : Bytes) :
    (s.onLocal src data).1.flows = s.flows := by
  simp only [Session.onLocal]
  split <;> rfl

theorem act_sound {tr : List SessionEffect} {s : Session} (d : Dialed) {a : SessionAct}
    (ha : Granted tr a) (hc : Coherent s) (hr : Requested tr s) :
    Coherent (s.act d a).1 ∧ Requested (tr ++ (s.act d a).2) (s.act d a).1 := by
  cases a with
  | localDatagram src data =>
    refine ⟨hc.onLocal src data, hr.mono fun f src' hf => ?_⟩
    simpa only [act, flows_onLocal] using hf
  | openPending outcome => exact openPendingFlows_sound d (ha outcome rfl) hc hr
  | poll event => exact ⟨hc.onResponse event, hr.mono fun _ _ => flows_onResponse⟩
  | route datagram => exact ⟨hc, hr.mono fun _ _ h => h⟩

/-- A flow leaves the table only through a response that ends it. -/
theorem ended_of_gone {tr : List SessionEffect} {s : Session} (d : Dialed) {a : SessionAct}
    (ha : Granted tr a) (hc : Coherent s) (hr : Requested tr s) {f : UInt64}
    (hf : (s.flows.lookup f).isSome) (hgone : (s.act d a).1.flows.lookup f = none) :
    ∃ event, a = .poll event ∧ endedBy event = some f := by
  cases a with
  | localDatagram src data =>
    simp only [act, flows_onLocal] at hgone
    simp [hgone] at hf
  | openPending outcome =>
    have hkept := (openPendingFlows_openStreams d (ha outcome rfl) hc hr).kept f hf
    simp only [act] at hgone
    simp [hgone] at hkept
  | poll event =>
    refine ⟨event, rfl, ?_⟩
    by_contra hne
    rw [act, lookup_flows_onResponse, if_neg hne] at hgone
    simp [hgone] at hf
  | route datagram =>
    simp only [act] at hgone
    simp [hgone] at hf

/-- Sessions driven by any inputs, with fresh streams for new requests. -/
abbrev SessionRun (d : Dialed) : List SessionEffect → Session → Prop :=
  Run (fun s a => some (act d s a)) (fun tr _ a => Granted tr a) new

theorem SessionRun.sound {d : Dialed} {tr : List SessionEffect} {s : Session} (h : SessionRun d tr s) :
    Coherent s ∧ Requested tr s := by
  refine Run.invariant_total (P := fun tr s => Coherent s ∧ Requested tr s) ⟨⟨?_, ?_, ?_⟩, ?_⟩ ?_ h
  · intro f src
    simp [new]
  · intro src st hs
    cases hs
  · intro src st hs
    cases hs
  · intro f src hf
    cases hf
  · intro tr s a ih ha
    exact act_sound d ha ih.1 ih.2

/-- One pass of the loop of `run_session`: local datagrams, then, once HTTP/3 is
up, new requests, responses and tunnelled datagrams. -/
structure Pass where
  locals : List (SocketAddr × Bytes)
  http3 : Bool
  outcome : SocketAddr → RequestOutcome
  events : List ResponseEvent
  datagrams : List Bytes

def Pass.acts (p : Pass) : List SessionAct :=
  p.locals.map (fun l => .localDatagram l.1 l.2) ++
    if p.http3 then .openPending p.outcome :: p.events.map .poll ++ p.datagrams.map .route else []

private theorem FreshStreams.locals {d : Dialed} {tr : List SessionEffect}
    {outcome : SocketAddr → RequestOutcome} (h : FreshStreams tr outcome) (s : Session)
    (locals : List (SocketAddr × Bytes)) :
    FreshStreams (tr ++ (drive (act d) s (locals.map fun l => .localDatagram l.1 l.2)).2) outcome := by
  refine drive_keeps (P := fun tr _ => FreshStreams tr outcome) _ ?_ h
  intro tr s a ha hp
  obtain ⟨l, -, rfl⟩ := List.mem_map.mp ha
  refine ⟨hp.quarter, fun src stream hok src' headers hmem => ?_, hp.distinct⟩
  rcases List.mem_append.mp hmem with hold | hnew
  · exact hp.unused src stream hok src' headers hold
  · simp only [act, onLocal] at hnew
    split at hnew <;> simp at hnew

/-- The library's answers to the requests of a pass cover the whole pass. -/
theorem Pass.allowed (d : Dialed) {tr : List SessionEffect} (s : Session) (p : Pass)
    (hg : p.http3 → FreshStreams tr p.outcome) :
    Allowed (act d) (fun tr _ a => Granted tr a) tr s p.acts := by
  refine (Allowed.of_forall ?_ tr s).append ?_
  · intro a ha tr s outcome heq
    obtain ⟨l, -, rfl⟩ := List.mem_map.mp ha
    cases heq
  · cases hh : p.http3 with
    | false => trivial
    | true =>
      refine ⟨?_, Allowed.of_forall ?_ _ _⟩
      · rintro outcome ⟨⟩
        exact (hg hh).locals s p.locals
      · intro a ha tr s outcome heq
        subst heq
        simp at ha

/-- Whole passes of the loop stay within the runs considered. -/
theorem SessionRun.pass {d : Dialed} {tr : List SessionEffect} {s : Session} (h : SessionRun d tr s)
    (p : Pass) (hg : p.http3 → FreshStreams tr p.outcome) :
    SessionRun d (tr ++ (drive (act d) s p.acts).2) (drive (act d) s p.acts).1 :=
  Run.append_allowed h (p.allowed d s hg)

/-- In every reachable state of a session the two tables are inverse to each
other, and buffers are empty once established and never too long. -/
theorem flowTable_coherent {d : Dialed} {tr : List SessionEffect} {s : Session}
    (h : SessionRun d tr s) : Coherent s := h.sound.1

/-- One stream for one source, and none for others. -/
def oneStream (src : SocketAddr) (stream : UInt64) (a : SocketAddr) : RequestOutcome :=
  if a = src then .ok stream else .streamBlocked

theorem oneStream_fresh {tr : List SessionEffect} {src : SocketAddr} {stream : UInt64}
    (h4 : stream.toNat % 4 = 0) (hun : ∀ e ∈ tr, (e matches .request ..) = false) :
    FreshStreams tr (oneStream src stream) := by
  have hok {a : SocketAddr} {stream' : UInt64} (h : oneStream src stream a = .ok stream') :
      a = src ∧ stream' = stream := by
    unfold oneStream at h
    split_ifs at h with ha
    cases h
    exact ⟨ha, rfl⟩
  refine ⟨?_, ?_, ?_⟩
  · intro a stream' h
    rw [(hok h).2]
    exact h4
  · intro a stream' h
    rw [(hok h).2]
    intro src' headers hmem
    simpa using hun _ hmem
  · intro a b stream' ha hb
    exact (hok ha).1.trans (hok hb).1.symm

/-- A source sends twice; its flow is requested on stream 0 and accepted. -/
def firstPass (src : SocketAddr) : Pass where
  locals := [(src, [1]), (src, [2])]
  http3 := true
  outcome := oneStream src 0
  events := [.headers 0 [⟨utf8 ":status", utf8 "200"⟩]]
  datagrams := []

theorem flowTable_coherent_first :
    ∃ tr s, SessionRun ⟨"proxy:4433", "/masque"⟩ tr s ∧ Coherent s ∧
      s.flows.lookup 0 = some (.v4 0x7f000001 9000) ∧
      (s.byAddr.lookup (.v4 0x7f000001 9000)).map FlowState.pending = some [] := by
  have hrun : SessionRun ⟨"proxy:4433", "/masque"⟩ _ _ :=
    SessionRun.pass .init (firstPass (.v4 0x7f000001 9000)) fun _ => oneStream_fresh rfl (by simp)
  exact ⟨_, _, hrun, flowTable_coherent hrun, by decide, by decide⟩

end ZeroMasque.Session
