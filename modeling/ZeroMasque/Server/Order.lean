import ZeroMasque.Foundation.Queues
import ZeroMasque.Server.Relay
import ZeroMasque.Server.StaleReplies

/-! The order in which payloads pass the server. A channel gives its task what it
took, in that order and without a gap; the queue of replies keeps the order in
which the tasks of a connection read them. -/
namespace ZeroMasque.Host
open Foundation Server
open scoped List

/-- Payloads that the channel of a running task takes. -/
def takenAt (tasks : List Task) (channel : Nat) : HostEffect → Option Bytes
  | .server (.toTarget _ _ number payload full _) =>
    if number = channel ∧ full = false ∧ (tasks[channel]?).any Task.running then some payload else none
  | _ => none

theorem offeredAt_of_takenAt {tasks : List Task} {channel : Nat} {e : HostEffect} {payload : Bytes}
    (h : takenAt tasks channel e = some payload) : offeredAt channel e = some payload := by
  cases e with
  | server e =>
    cases e with
    | toTarget c f number payload' full now =>
      obtain ⟨htaken, heq⟩ := Option.ite_none_right_eq_some.mp h
      rw [offeredAt, if_pos htaken.1, heq]
    | _ => cases h
  | _ => cases h

/-- Datagrams handed to the library for a connection. -/
def sentTo (c : Scid) : HostEffect → Option Bytes
  | .server (.dgramSend conn bytes) => if conn = c then some bytes else none
  | _ => none

/-- Replies of a connection as they are framed on their way out. -/
def framedFor (c : Scid) (tc : ToClient) : Option Bytes :=
  if tc.connId = c then some (Dgram.encode tc.flowId tc.payload) else none

/-- The replies that a step puts into the queue. -/
def queuedBy (h : Host) : HostAct → List ToClient
  | .receive channel results =>
    match h.running channel with
    | some t => ((readLoop (results.take recvBatchLen)).1.filter (!·.2)).map fun r => ⟨t.conn, t.flow, r.1⟩
    | none => []
  | _ => []

/-- Reading from a target writes to no channel and sends nothing. -/
private theorem filterMap_received {g : HostEffect → Option Bytes} {channel : Nat}
    (hreplied : ∀ payload full, g (.replied channel payload full) = none) (hended : g (.ended channel) = none)
    (reads : List (Bytes × Bool)) (running : Bool) :
    (reads.map (fun r => HostEffect.replied channel r.1 r.2) ++
      if running then [] else [HostEffect.ended channel]).filterMap g = [] := by
  rw [List.filterMap_eq_nil_iff]
  intro e he
  rcases List.mem_append.mp he with he | he
  · obtain ⟨r, -, rfl⟩ := List.mem_map.mp he
    exact hreplied r.1 r.2
  · split at he
    · cases he
    · rw [List.mem_singleton.mp he]
      exact hended

section Channel

private theorem queueOf_quiet {es : List Effect} (hes : ∀ e ∈ es, (e matches .toTarget ..) = false)
    (tasks : List Task) (channel : Nat) :
    queueOf (es.foldl perform tasks) channel = queueOf tasks channel := by
  induction es generalizing tasks with
  | nil => rfl
  | cons e es ih =>
    rw [List.foldl_cons, ih fun e' he' => hes e' (List.mem_cons_of_mem _ he')]
    have he := hes e List.mem_cons_self
    cases e with
    | spawn conn flow number socket => exact queueOf_append tasks rfl channel
    | toTarget => cases he
    | _ => rfl

private theorem queueOf_toTarget (tasks : List Task) (channel number : Nat) (payload : Bytes) (full : Bool)
    (c : Scid) (f : UInt64) (now : Instant) :
    queueOf (tasks.modify number (Task.offer payload full)) channel =
      queueOf tasks channel ++ [.server (.toTarget c f number payload full now)].filterMap (takenAt tasks channel) := by
  by_cases hn : number = channel
  · subst hn
    rw [queueOf, queueOf, List.getElem?_modify_eq]
    cases ht : tasks[number]? with
    | none => simp [takenAt, ht]
    | some t => cases hrun : t.running <;> cases full <;> simp [takenAt, ht, hrun, Task.offer]
  · simp [queueOf, takenAt, hn]

/-- The server fills a channel at its end. -/
private theorem queueOf_serve (h : Host) (a : Action) (channel : Nat) :
    queueOf (h.serve a).1.tasks channel =
      queueOf h.tasks channel ++ (h.serve a).2.filterMap (takenAt h.tasks channel) := by
  simp only [serve]
  by_cases hany : ∃ e ∈ (h.server.act a).2, (e matches .toTarget ..) = true
  · obtain ⟨e, he, hkind⟩ := hany
    cases e with
    | toTarget c f number payload full now =>
      obtain ⟨-, -, -, -, -, -, -, -, -, hes⟩ := (act_emission h.server a).toTarget he
      rw [hes]
      exact queueOf_toTarget h.tasks channel number payload full c f now
    | _ => cases hkind
  · have hquiet : ∀ e ∈ (h.server.act a).2, (e matches .toTarget ..) = false := by simpa using hany
    rw [queueOf_quiet hquiet]
    have hnone : ((h.server.act a).2.map HostEffect.server).filterMap (takenAt h.tasks channel) = [] := by
      rw [List.filterMap_eq_nil_iff]
      intro e he
      obtain ⟨e, hmem, rfl⟩ := List.mem_map.mp he
      have hkind := hquiet e hmem
      cases e with
      | toTarget => cases hkind
      | _ => rfl
    rw [hnone, List.append_nil]

private theorem served_unwritten (channel : Nat) (h : Host) (a : Action) :
    (h.serve a).2.filterMap (writtenAt channel) = [] := by
  rw [List.filterMap_eq_nil_iff]
  intro e he
  obtain ⟨e, -, rfl⟩ := List.mem_map.mp he
  rfl

/-- What a step writes and leaves in a channel is what was there and what it takes. -/
theorem Transition.channel {h h' : Host} {i : HostAct} {es : List HostEffect} (ht : Transition h i h' es)
    (channel : Nat) :
    es.filterMap (writtenAt channel) ++ queueOf h'.tasks channel =
      queueOf h.tasks channel ++ es.filterMap (takenAt h.tasks channel) := by
  have hsame {number : Nat} {t : Task} (hn : h.running number = some t) (running : Bool) :
      queueOf (h.tasks.set number { t with running := running }) channel = queueOf h.tasks channel := by
    rw [queueOf_set hn]
    split_ifs with hch
    · rw [← hch, queueOf_running hn]
    · rfl
  cases ht with
  | served a ha => rw [served_unwritten, List.nil_append, queueOf_serve]
  | returned tc rest hq => rw [served_unwritten, List.nil_append, queueOf_serve]
  | forwarded number sent t payload queue ht hq =>
    dsimp only
    rw [queueOf_set ht]
    by_cases hn : number = channel
    · subst hn
      simp [writtenAt, takenAt, queueOf_running ht, hq]
    · simp [hn, writtenAt, takenAt]
  | ended i number t ht hwhy =>
    dsimp only
    rw [hsame ht]
    exact (List.append_nil _).symm
  | received number results t ht =>
    dsimp only
    rw [hsame ht]
    rw [filterMap_received (fun _ _ => rfl) rfl, filterMap_received (fun _ _ => rfl) rfl, List.nil_append,
      List.append_nil]

end Channel

section Replies

private theorem filterMap_sentTo (c : Scid) {s : Server} {a : Action} (ha : ∀ tc, a ≠ .payload tc) :
    ((s.act a).2.map HostEffect.server).filterMap (sentTo c) = [] := by
  rw [List.filterMap_eq_nil_iff]
  intro e he
  obtain ⟨e, hmem, rfl⟩ := List.mem_map.mp he
  cases e with
  | dgramSend conn bytes =>
    obtain ⟨tc, rfl⟩ := (act_emission s a).dgramSend hmem
    exact absurd rfl (ha tc)
  | _ => rfl

/-- The head of the queue goes out, unless its connection is gone. -/
private theorem sentTo_payload (c : Scid) (s : Server) (tc : ToClient) :
    ((s.act (.payload tc)).2.map HostEffect.server).filterMap (sentTo c) <+ [tc].filterMap (framedFor c) := by
  have hemitted : (s.act (.payload tc)).2 = [] ∨ (s.act (.payload tc)).2 =
      [.dgramSend tc.connId (Dgram.encode tc.flowId tc.payload), .fromTarget tc.connId tc.flowId s.clock] := by
    simp only [act, onTargetPayload, atDesk]
    cases s.clients.lookup tc.connId with
    | none => exact .inl rfl
    | some client => exact .inr rfl
  rcases hemitted with he | he
  · simp [he]
  · by_cases hc : tc.connId = c
    · simp [he, sentTo, framedFor, hc]
    · simp [he, sentTo, framedFor, hc]

/-- What a step sends to a connection and leaves waiting for it is part of what
waited and what it reads. -/
private theorem Transition.replies {h h' : Host} {i : HostAct} {es : List HostEffect} (ht : Transition h i h' es)
    (c : Scid) :
    es.filterMap (sentTo c) ++ h'.toClient.filterMap (framedFor c) <+
      h.toClient.filterMap (framedFor c) ++ (h.queuedBy i).filterMap (framedFor c) := by
  cases ht with
  | served a ha =>
    simp only [serve]
    rw [filterMap_sentTo c ha, List.nil_append]
    exact List.sublist_append_left _ _
  | returned tc rest hq =>
    simp only [serve, hq, queuedBy, List.filterMap_nil, List.append_nil]
    rw [← List.singleton_append, List.filterMap_append]
    exact (sentTo_payload c h.server tc).append_right _
  | forwarded channel sent t payload queue ht hq => simp [sentTo, queuedBy]
  | ended i channel t ht hwhy =>
    simp only [List.filterMap_cons, List.filterMap_nil, sentTo, List.nil_append]
    exact List.sublist_append_left _ _
  | received channel results t ht =>
    rw [filterMap_received (fun _ _ => rfl) rfl, List.nil_append, queuedBy, ht, List.filterMap_append]

end Replies

/-- Payloads that a recorded step writes to a target socket. -/
def written (channel : Nat) (t : Turn Host HostAct HostEffect) : List Bytes :=
  t.emitted.filterMap (writtenAt channel)

/-- Payloads that a recorded step puts into a channel. -/
def taken (channel : Nat) (t : Turn Host HostAct HostEffect) : List Bytes :=
  t.emitted.filterMap (takenAt t.before.tasks channel)

/-- Datagrams that a recorded step sends to a connection. -/
def sent (c : Scid) (t : Turn Host HostAct HostEffect) : List Bytes := t.emitted.filterMap (sentTo c)

/-- Replies that a recorded step reads for a connection. -/
def read (c : Scid) (t : Turn Host HostAct HostEffect) : List Bytes :=
  (t.before.queuedBy t.input).filterMap (framedFor c)

/-- Under any interleaving, a target socket is given exactly what its channel took,
in order, up to what the channel still holds. What goes out to a connection,
followed by what waits for it, is a part of what its tasks read, in order. -/
theorem relays_in_order {rules : RuleTable} {start : Instant} {log : List (Turn Host HostAct HostEffect)}
    {h : Host} (hr : HostLog (fun _ _ => True) rules start log h) :
    (∀ channel, log.flatMap (written channel) ++ queueOf h.tasks channel = log.flatMap (taken channel)) ∧
    ∀ c, log.flatMap (sent c) ++ h.toClient.filterMap (framedFor c) <+ log.flatMap (read c) := by
  constructor
  · intro channel
    refine Run.lossless (fun h : Host => queueOf h.tasks channel) rfl ?_ hr
    intro log h i h' ts _ _ hs
    obtain ⟨es, hstep, rfl⟩ := logged_eq_some hs
    rw [List.flatMap_singleton, List.flatMap_singleton]
    exact (step_transition hstep).channel channel
  · intro c
    refine Run.ordered (fun h : Host => h.toClient.filterMap (framedFor c)) rfl ?_ hr
    intro log h i h' ts _ _ hs
    obtain ⟨es, hstep, rfl⟩ := logged_eq_some hs
    rw [List.flatMap_singleton, List.flatMap_singleton]
    exact (step_transition hstep).replies c

/-- Two payloads are taken and one is written; two replies are read and one goes out. -/
theorem relays_in_order_partly :
    ∃ log h, HostLog (fun _ _ => True) shadowedRules 100 log h ∧
      (log.flatMap (written 0) = [[1]] ∧ queueOf h.tasks 0 = [[2]] ∧ log.flatMap (taken 0) = [[1], [2]]) ∧
      log.flatMap (sent hasty) ++ h.toClient.filterMap (framedFor hasty) <+ log.flatMap (read hasty) ∧
      log.flatMap (sent hasty) = [Dgram.encode 2 [3]] := by
  have hrun : HostLog (fun _ _ => True) shadowedRules 100 _ _ :=
    Run.extend .init ((oneFlow hasty).map .server ++
      [.server (.datagram hasty (Dgram.encode 2 [1]) false), .server (.datagram hasty (Dgram.encode 2 [2]) false),
        .server (.datagram hasty (Dgram.encode 2 [7]) true), .forward 0 true,
        .receive 0 [.ok [3] false, .interrupted, .ok [4] false, .wouldBlock], .reply])
      (fun _ _ _ _ => trivial) (by decide)
  exact ⟨_, _, hrun, ⟨by decide, by decide, by decide⟩, (relays_in_order hrun).2 hasty, by decide⟩

end ZeroMasque.Host
