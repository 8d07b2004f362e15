import ZeroMasque.Client.FlowTable
import ZeroMasque.Foundation.Bags

/-! Where the datagrams of a session come from and where they go: each one sent
into the tunnel was received from the source that owns its flow, and leaves only
after the flow was accepted. -/
namespace ZeroMasque.Session
open Foundation

/-- A response that accepts the flow. -/
def accepts (list : List Header) : Bool :=
  (statusOf list).any fun status => 200 ≤ status && status < 300

/-- What an action of a session emits. -/
inductive Emitted (d : Dialed) (s : Session) : SessionAct → List SessionEffect → Prop
  | buffered (src : SocketAddr) (data : Bytes) : Emitted d s (.localDatagram src data) [.received src data]
  | forwarded (src : SocketAddr) (data : Bytes) (st : FlowState) (f : UInt64)
      (hst : s.byAddr.lookup src = some st) (hest : st.established = true) (hid : st.flowId = some f) :
      Emitted d s (.localDatagram src data) [.received src data, .sendDatagram src f data]
  | requested (outcome : SocketAddr → RequestOutcome) (es : List SessionEffect)
      (he : ∀ e ∈ es, ∃ src stream, e = .request src stream (connectHeaders d) ∧ outcome src = .ok stream) :
      Emitted d s (.openPending outcome) es
  | quiet (event : ResponseEvent) : Emitted d s (.poll event) []
  | released (stream : UInt64) (list : List Header) (src : SocketAddr) (st : FlowState)
      (ha : accepts list = true) (hf : s.flows.lookup (stream / 4) = some src)
      (hst : s.byAddr.lookup src = some st) :
      Emitted d s (.poll (.headers stream list)) (st.pending.map (.sendDatagram src (stream / 4)))
  | discarded (datagram : Bytes) : Emitted d s (.route datagram) []
  | delivered (datagram : Bytes) (parsed : Dgram.Parsed) (src : SocketAddr)
      (hd : Dgram.decode datagram = some parsed) (hf : s.flows.lookup parsed.flowId = some src) :
      Emitted d s (.route datagram) [.deliver parsed.flowId src parsed.payload]

/-- What is buffered for a source. -/
def pendingOf (s : Session) (src : SocketAddr) : List Bytes :=
  ((s.byAddr.lookup src).map FlowState.pending).getD []

/-- What the loop of `open_pending_flows` leaves alone, with what it emits. -/
private structure Opening (d : Dialed) (s : Session) (outcome : SocketAddr → RequestOutcome)
    (tr : List SessionEffect) (loop : Session × List SocketAddr) : Prop where
  emitted : ∀ e ∈ tr, ∃ src stream, e = .request src stream (connectHeaders d) ∧ outcome src = .ok stream
  pending : ∀ src, loop.1.pendingOf src = s.pendingOf src
  established : ∀ src st, loop.1.byAddr.lookup src = some st → st.established = true →
    s.byAddr.lookup src = some st

private theorem Opening.round {d : Dialed} {s : Session} {outcome : SocketAddr → RequestOutcome}
    {tr : List SessionEffect} {loop : Session × List SocketAddr} (hc : Coherent s)
    (h : Opening d s outcome tr loop) (src : SocketAddr) :
    Opening d s outcome (tr ++ (openOne d outcome loop src).2) (openOne d outcome loop src).1 := by
  have hstay : Opening d s outcome (tr ++ []) loop := by rwa [List.append_nil]
  unfold openOne
  split
  · exact hstay
  rename_i st hst
  split_ifs with hsome
  · exact hstay
  cases hout : outcome src with
  | streamBlocked => exact hstay
  | streamLimit | failed => exact ⟨hstay.emitted, h.pending, h.established⟩
  | ok stream =>
    refine ⟨?_, fun src' => ?_, fun src' st' hs hest => ?_⟩
    · intro e he
      rcases List.mem_append.mp he with hold | hnew
      · exact h.emitted e hold
      · exact ⟨src, stream, List.mem_singleton.mp hnew, hout⟩
    · rw [← h.pending src']
      simp only [pendingOf, Table.lookup_insert_ite]
      split
      · rename_i heq
        rw [heq, hst]
        rfl
      · rfl
    · simp only [Table.lookup_insert_ite] at hs
      split at hs
      · cases hs
        exact absurd (hc.established src st (h.established src st hst hest) hest).1 hsome
      · exact h.established src' st' hs hest

private theorem openPendingFlows_opening {s : Session} (hc : Coherent s) (d : Dialed)
    (outcome : SocketAddr → RequestOutcome) :
    Opening d s outcome (drive (openOne d outcome) (s, []) s.byAddr.keys).2
      (drive (openOne d outcome) (s, []) s.byAddr.keys).1 :=
  drive_keeps (t := []) _ (fun _ _ src _ hp => hp.round hc src)
    ⟨by simp, fun _ => rfl, fun _ _ h _ => h⟩

theorem act_emitted {s : Session} (hc : Coherent s) (d : Dialed) (a : SessionAct) :
    Emitted d s a (s.act d a).2 := by
  cases a with
  | localDatagram src data =>
    simp only [act, onLocal]
    split
    · rename_i fid hest hid
      cases hst : s.byAddr.lookup src with
      | none => simp [hst] at hest
      | some st =>
        rw [hst] at hest hid
        exact .forwarded src data st fid hst hest hid
    · exact .buffered src data
  | openPending outcome => exact .requested outcome _ (openPendingFlows_opening hc d outcome).emitted
  | poll event =>
    cases event with
    | headers stream list =>
      simp only [act, onResponse]
      split
      · rename_i status hstatus
        split_ifs with hok
        · unfold accepted
          split
          · exact .quiet _
          rename_i src hf
          split
          · exact .quiet _
          rename_i st hst
          exact .released stream list src st (by simp [accepts, hstatus, hok]) hf hst
        · exact .quiet _
      · exact .quiet _
    | finished | reset | other => exact .quiet _
  | route datagram =>
    simp only [act, routeDatagram]
    split
    · exact .discarded _
    rename_i parsed hd
    split_ifs
    · exact .discarded _
    split
    · exact .discarded _
    · rename_i src hf
      exact .delivered datagram parsed src hd hf

private theorem byAddr_dropFlow {s : Session} {fid : UInt64} {src : SocketAddr} {st : FlowState}
    (h : (s.dropFlow fid).byAddr.lookup src = some st) : s.byAddr.lookup src = some st := by
  unfold dropFlow at h
  split at h
  · exact h
  · simp only [Table.lookup_erase_ite] at h
    split at h
    · cases h
    · exact h

private theorem onLocal_established {s : Session} {src src' : SocketAddr} {data : Bytes} {st : FlowState}
    (h : (s.onLocal src' data).1.byAddr.lookup src = some st) (hest : st.established = true) :
    ∃ st', s.byAddr.lookup src = some st' ∧ st'.established = true ∧ st'.flowId = st.flowId := by
  obtain ⟨pending, hafter⟩ : ∃ pending, (s.onLocal src' data).1.byAddr = s.byAddr.insert src'
      { (s.byAddr.lookup src').getD ⟨none, false, []⟩ with pending := pending } := by
    simp only [onLocal]
    split <;> exact ⟨_, rfl⟩
  rw [hafter, Table.lookup_insert_ite] at h
  split at h
  · rename_i heq
    subst heq
    cases h
    cases hst : s.byAddr.lookup src with
    | none => simp [hst] at hest
    | some st' =>
      rw [hst] at hest
      exact ⟨st', rfl, hest, rfl⟩
  · exact ⟨st, h, hest, rfl⟩

/-- Accepting a flow establishes no other. -/
private theorem accepted_established {s : Session} (hc : Coherent s) {fid f : UInt64} {src : SocketAddr}
    {st : FlowState} (h : (s.accepted fid).1.byAddr.lookup src = some st) (hid : st.flowId = some f) :
    s.byAddr.lookup src = some st ∨ f = fid := by
  unfold accepted at h
  split at h
  · exact .inl h
  rename_i src' hf
  split at h
  · exact .inl h
  rename_i st' hst
  simp only [Table.lookup_insert_ite] at h
  split at h
  · cases h
    obtain ⟨st'', hst'', hid'⟩ := (hc.inverse _ _).mp hf
    obtain rfl : st' = st'' := Option.some.inj (hst.symm.trans hst'')
    exact .inr (Option.some.inj (hid.symm.trans hid'))
  · exact .inl h

/-- A flow that is established after an action was so before, or the action read
the response that accepts it. -/
theorem act_established {s : Session} (hc : Coherent s) (d : Dialed) (a : SessionAct) {src : SocketAddr}
    {st : FlowState} {f : UInt64} (h : (s.act d a).1.byAddr.lookup src = some st)
    (hest : st.established = true) (hid : st.flowId = some f) :
    (∃ st', s.byAddr.lookup src = some st' ∧ st'.established = true ∧ st'.flowId = some f) ∨
      ∃ stream list, a = .poll (.headers stream list) ∧ accepts list = true ∧ f = stream / 4 := by
  cases a with
  | localDatagram src' data =>
    obtain ⟨st', hst', hest', hid'⟩ := onLocal_established h hest
    exact .inl ⟨st', hst', hest', hid'.trans hid⟩
  | openPending outcome =>
    left
    simp only [act, openPendingFlows, Table.lookup_eraseAll] at h
    split at h
    · cases h
    · exact ⟨st, (openPendingFlows_opening hc d outcome).established src st h hest, hest, hid⟩
  | poll event =>
    cases event with
    | headers stream list =>
      simp only [act, onResponse] at h
      split at h
      · rename_i status hstatus
        split_ifs at h with hok
        · rcases accepted_established hc h hid with hold | hf
          · exact .inl ⟨st, hold, hest, hid⟩
          · exact .inr ⟨stream, list, rfl, by simp [accepts, hstatus, hok], hf⟩
        · exact .inl ⟨st, byAddr_dropFlow h, hest, hid⟩
      · exact .inl ⟨st, h, hest, hid⟩
    | finished stream | reset stream code => exact .inl ⟨st, byAddr_dropFlow h, hest, hid⟩
    | other stream => exact .inl ⟨st, h, hest, hid⟩
  | route datagram => exact .inl ⟨st, h, hest, hid⟩

/-- Datagrams into the tunnel, by the source they come from. -/
def sentBy : SessionEffect → Option (SocketAddr × Bytes)
  | .sendDatagram src _ payload => some (src, payload)
  | _ => none

/-- Datagrams into the tunnel, by their flow. -/
def sentOn : SessionEffect → Option (UInt64 × Bytes)
  | .sendDatagram _ flow payload => some (flow, payload)
  | _ => none

def receivedFrom : SessionEffect → Option (SocketAddr × Bytes)
  | .received src payload => some (src, payload)
  | _ => none

/-- Payloads written to local addresses, by the flow they came back on. -/
def deliveredOn : SessionEffect → Option (UInt64 × Bytes)
  | .deliver flow _ payload => some (flow, payload)
  | _ => none

private theorem pendingOf_insert (s : Session) (src src' : SocketAddr) (st : FlowState) :
    pendingOf { s with byAddr := s.byAddr.insert src st } src' =
      if src' = src then st.pending else s.pendingOf src' := by
  simp only [pendingOf, Table.lookup_insert_ite]
  split <;> rfl

private theorem pendingOf_le {s s' : Session} {src : SocketAddr}
    (h : ∀ st, s'.byAddr.lookup src = some st → s.byAddr.lookup src = some st) :
    (s'.pendingOf src : Multiset Bytes) ≤ s.pendingOf src := by
  simp only [pendingOf]
  cases hs : s'.byAddr.lookup src with
  | none => exact Multiset.zero_le _
  | some st => rw [h st hs]

private theorem onLocal_balanced (s : Session) (src' : SocketAddr) (data : Bytes) (src : SocketAddr) :
    bag (keyed sentBy src) (s.onLocal src' data).2 + ((s.onLocal src' data).1.pendingOf src : Multiset Bytes) ≤
      s.pendingOf src + bag (keyed receivedFrom src) (s.onLocal src' data).2 := by
  have hpending : ((s.byAddr.lookup src').getD ⟨none, false, []⟩).pending = s.pendingOf src' := by
    cases hst : s.byAddr.lookup src' <;> simp [pendingOf, hst]
  simp only [onLocal, hpending]
  by_cases hsrc : src = src'
  · subst hsrc
    split
    · simp [pendingOf_insert, hpending, keyed, sentBy, receivedFrom, add_comm]
    · simp only [pendingOf_insert, if_true]
      split <;> simp [keyed, sentBy, receivedFrom, ← Multiset.coe_add]
  · split <;> simp [pendingOf_insert, hsrc, keyed, sentBy, receivedFrom, Ne.symm hsrc]

private theorem accepted_balanced (s : Session) (fid : UInt64) (src : SocketAddr) :
    bag (keyed sentBy src) (s.accepted fid).2 + ((s.accepted fid).1.pendingOf src : Multiset Bytes) ≤
      s.pendingOf src + bag (keyed receivedFrom src) (s.accepted fid).2 := by
  unfold accepted
  split
  · simp
  rename_i src' _
  split
  · simp
  rename_i st hst
  have hreceived : bag (keyed receivedFrom src) (st.pending.map (.sendDatagram src' fid)) = 0 := by
    refine bag_eq_zero fun e he => ?_
    obtain ⟨payload, -, rfl⟩ := List.mem_map.mp he
    rfl
  rw [hreceived, add_zero, pendingOf_insert]
  by_cases hsrc : src = src'
  · subst hsrc
    have hsent : bag (keyed sentBy src) (st.pending.map (.sendDatagram src fid)) = st.pending := by
      simp [bag, List.filterMap_map, Function.comp_def, keyed, sentBy]
    simp [hsent, pendingOf, hst]
  · have hsent : bag (keyed sentBy src) (st.pending.map (.sendDatagram src' fid)) = 0 := by
      refine bag_eq_zero fun e he => ?_
      obtain ⟨payload, -, rfl⟩ := List.mem_map.mp he
      simp [keyed, sentBy, Ne.symm hsrc]
    simp [hsent, hsrc]

/-- An action sends and keeps, for a source, no more than was buffered and read. -/
private theorem act_balanced {s : Session} (hc : Coherent s) (d : Dialed) (a : SessionAct) (src : SocketAddr) :
    bag (keyed sentBy src) (s.act d a).2 + ((s.act d a).1.pendingOf src : Multiset Bytes) ≤
      s.pendingOf src + bag (keyed receivedFrom src) (s.act d a).2 := by
  have hkept {s' : Session} (h : ∀ st, s'.byAddr.lookup src = some st → s.byAddr.lookup src = some st) :
      bag (keyed sentBy src) [] + (s'.pendingOf src : Multiset Bytes) ≤
        s.pendingOf src + bag (keyed receivedFrom src) [] := by
    simpa using pendingOf_le h
  cases a with
  | localDatagram src' data => exact onLocal_balanced s src' data src
  | openPending outcome =>
    have hopening := openPendingFlows_opening hc d outcome
    have hquiet {g : SessionEffect → Option (SocketAddr × Bytes)}
        (hg : ∀ src stream headers, g (.request src stream headers) = none) :
        bag (keyed g src) (s.act d (.openPending outcome)).2 = 0 := by
      refine bag_eq_zero fun e he => ?_
      obtain ⟨src', stream, rfl, -⟩ := hopening.emitted e he
      simp [keyed, hg]
    rw [hquiet fun _ _ _ => rfl, hquiet fun _ _ _ => rfl, zero_add, add_zero, ← hopening.pending src]
    refine pendingOf_le fun st hst => ?_
    simp only [act, openPendingFlows, Table.lookup_eraseAll] at hst
    split at hst
    · cases hst
    · exact hst
  | poll event =>
    cases event with
    | headers stream list =>
      simp only [act, onResponse]
      split
      · split_ifs
        · exact accepted_balanced s _ src
        · exact hkept fun _ => byAddr_dropFlow
      · exact hkept fun _ h => h
    | finished stream | reset stream code => exact hkept fun _ => byAddr_dropFlow
    | other stream => exact hkept fun _ h => h
  | route datagram =>
    have hemitted := act_emitted hc d (.route datagram)
    generalize (s.act d (.route datagram)).2 = es at hemitted ⊢
    cases hemitted with
    | discarded => exact hkept fun _ h => h
    | delivered _ parsed dest hd hf => simp [act, keyed, sentBy, receivedFrom]

/-- The source that asked for a flow. -/
def requestOf (f : UInt64) : SessionEffect → Option SocketAddr
  | .request src stream _ => if stream / 4 = f then some src else none
  | _ => none

def owner (tr : List SessionEffect) (f : UInt64) : Option SocketAddr := latest (requestOf f) tr

def Opened (tr : List SessionEffect) (f : UInt64) (src : SocketAddr) : Prop :=
  ∃ stream headers, .request src stream headers ∈ tr ∧ f = stream / 4

private theorem Opened.append {tr : List SessionEffect} {f : UInt64} {src : SocketAddr} (h : Opened tr f src)
    (es : List SessionEffect) : Opened (tr ++ es) f src := by
  obtain ⟨stream, headers, hmem, hf⟩ := h
  exact ⟨stream, headers, List.mem_append_left _ hmem, hf⟩

theorem Opened.small {tr : List SessionEffect} {f : UInt64} {src : SocketAddr} (h : Opened tr f src) :
    f.toNat < 2 ^ 62 := by
  obtain ⟨stream, -, -, rfl⟩ := h
  exact Dgram.quarter_lt stream

/-- Requests go out on streams of their own; what is sent on a flow or comes back
on it belongs to the source that asked for it. -/
structure Sources (tr : List SessionEffect) : Prop where
  quarter : ∀ src stream headers, .request src stream headers ∈ tr → stream.toNat % 4 = 0
  unique : ∀ src src' stream headers headers', .request src stream headers ∈ tr →
    .request src' stream headers' ∈ tr → src = src'
  sent : ∀ src f p, .sendDatagram src f p ∈ tr → Opened tr f src
  delivered : ∀ f dest p, .deliver f dest p ∈ tr → Opened tr f dest

theorem Sources.owner {tr : List SessionEffect} (h : Sources tr) {f : UInt64} {src : SocketAddr}
    (ho : Opened tr f src) : owner tr f = some src := by
  obtain ⟨stream, headers, hmem, rfl⟩ := ho
  refine latest_eq_some (fun e he src' hsrc' => ?_) hmem (if_pos rfl)
  cases e with
  | request src'' stream' headers' =>
    simp only [requestOf, Option.ite_none_right_eq_some, Option.some.injEq] at hsrc'
    obtain ⟨hquarter, rfl⟩ := hsrc'
    obtain rfl := stream_eq_of_quarter (h.quarter _ _ _ he) (h.quarter _ _ _ hmem) hquarter
    exact h.unique _ _ _ _ _ he hmem
  | _ => cases hsrc'

/-- Effects that are no requests, and name flows with the source that owns them. -/
private theorem Sources.append {tr es : List SessionEffect} {s : Session} (h : Sources tr)
    (hr : Requested tr s) (hes : ∀ e ∈ es,
      (∃ src p, e = .received src p) ∨ (∃ src f p, e = .sendDatagram src f p ∧ s.flows.lookup f = some src) ∨
        ∃ f src p, e = .deliver f src p ∧ s.flows.lookup f = some src) : Sources (tr ++ es) := by
  have hopened {f : UInt64} {src : SocketAddr} (hf : s.flows.lookup f = some src) :
      Opened (tr ++ es) f src := by
    obtain ⟨stream, headers, hmem, hid, -⟩ := hr f src hf
    exact Opened.append ⟨stream, headers, hmem, hid⟩ es
  have hold {src : SocketAddr} {stream : UInt64} {headers : List Header}
      (hmem : .request src stream headers ∈ tr ++ es) : .request src stream headers ∈ tr := by
    rcases List.mem_append.mp hmem with hmem | hmem
    · exact hmem
    · simpa using hes _ hmem
  refine ⟨?_, ?_, ?_, ?_⟩
  · intro src stream headers hmem
    exact h.quarter src stream headers (hold hmem)
  · intro src src' stream headers headers' hmem hmem'
    exact h.unique src src' stream headers headers' (hold hmem) (hold hmem')
  · intro src f p hmem
    rcases List.mem_append.mp hmem with hmem | hmem
    · exact (h.sent src f p hmem).append es
    · rcases hes _ hmem with ⟨_, _, heq⟩ | ⟨_, _, _, heq, hf⟩ | ⟨_, _, _, heq, _⟩ <;> cases heq
      exact hopened hf
  · intro f dest p hmem
    rcases List.mem_append.mp hmem with hmem | hmem
    · exact (h.delivered f dest p hmem).append es
    · rcases hes _ hmem with ⟨_, _, heq⟩ | ⟨_, _, _, heq, _⟩ | ⟨_, _, _, heq, hf⟩ <;> cases heq
      exact hopened hf

private theorem Sources.request {tr es : List SessionEffect} (h : Sources tr)
    {outcome : SocketAddr → RequestOutcome} (hfresh : FreshStreams tr outcome)
    (hes : ∀ e ∈ es, ∃ src stream headers, e = .request src stream headers ∧ outcome src = .ok stream) :
    Sources (tr ++ es) := by
  have hnew {src : SocketAddr} {stream : UInt64} {headers : List Header}
      (hmem : .request src stream headers ∈ es) : outcome src = .ok stream := by
    obtain ⟨_, _, _, heq, hok⟩ := hes _ hmem
    cases heq
    exact hok
  refine ⟨?_, ?_, ?_, ?_⟩
  · intro src stream headers hmem
    rcases List.mem_append.mp hmem with hmem | hmem
    · exact h.quarter src stream headers hmem
    · exact hfresh.quarter src stream (hnew hmem)
  · intro src src' stream headers headers' hmem hmem'
    rcases List.mem_append.mp hmem with hmem | hmem <;> rcases List.mem_append.mp hmem' with hmem' | hmem'
    · exact h.unique src src' stream headers headers' hmem hmem'
    · exact absurd hmem (hfresh.unused src' stream (hnew hmem') src headers)
    · exact absurd hmem' (hfresh.unused src stream (hnew hmem) src' headers')
    · exact hfresh.distinct src src' stream (hnew hmem) (hnew hmem')
  · intro src f p hmem
    rcases List.mem_append.mp hmem with hmem | hmem
    · exact (h.sent src f p hmem).append es
    · simpa using hes _ hmem
  · intro f dest p hmem
    rcases List.mem_append.mp hmem with hmem | hmem
    · exact (h.delivered f dest p hmem).append es
    · simpa using hes _ hmem

theorem SessionRun.sources {d : Dialed} {tr : List SessionEffect} {s : Session} (h : SessionRun d tr s) :
    Sources tr := by
  refine Run.invariant (P := fun tr _ => Sources tr) ⟨by simp, by simp, by simp, by simp⟩ ?_ h
  intro tr s a s' es hrun ih ha hs
  obtain ⟨hc, hr⟩ := SessionRun.sound hrun
  have hemitted := act_emitted hc d a
  rw [Option.some.inj hs] at hemitted
  cases hemitted with
  | buffered src data => exact ih.append hr (by simp)
  | forwarded src data st f hst hest hid =>
    have hf := (hc.inverse f src).mpr ⟨st, hst, hid⟩
    exact ih.append hr (by simp [hf])
  | requested outcome _ he =>
    refine ih.request (ha outcome rfl) fun e hmem => ?_
    obtain ⟨src, stream, heq, hok⟩ := he e hmem
    exact ⟨src, stream, _, heq, hok⟩
  | quiet event => exact ih.append hr (by simp)
  | released stream list src st haccept hf hst =>
    refine ih.append hr fun e he => ?_
    obtain ⟨payload, -, rfl⟩ := List.mem_map.mp he
    exact .inr (.inl ⟨src, _, payload, rfl, hf⟩)
  | discarded datagram => exact ih.append hr (by simp)
  | delivered datagram parsed src hd hf => exact ih.append hr (by simp [hf])

/-- Everything a session sent into the tunnel was received from its source before,
and nothing was sent twice. -/
theorem SessionRun.balanced {d : Dialed} {tr : List SessionEffect} {s : Session} (h : SessionRun d tr s) :
    bag sentBy tr ≤ bag receivedFrom tr := by
  refine bag_le_of_keyed fun src => ?_
  have hbalance : bag (keyed sentBy src) tr + (s.pendingOf src : Multiset Bytes) ≤
      bag (keyed receivedFrom src) tr := by
    refine Run.balanced (fun s => (s.pendingOf src : Multiset Bytes)) rfl ?_ h
    intro tr s a s' es hrun ha hs
    have hact := act_balanced (SessionRun.sound hrun).1 d a src
    rwa [Option.some.inj hs] at hact
  exact le_trans (Multiset.le_add_right _ _) hbalance

end ZeroMasque.Session
