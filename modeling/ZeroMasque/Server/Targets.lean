import ZeroMasque.Server.Order
import ZeroMasque.Server.Pinning

/-! Where the server sends. Every target socket was opened for a request on its own
connection, under the first rule for that request in the table then in force, and
what goes back to a connection was read from such a socket. -/
namespace ZeroMasque
open Foundation Server

/-- The socket that a rule opens for a client. Its own address is the client's under a
transparent rule, with another port when that one is taken, and the system's choice
otherwise. -/
structure Rule.Serves (rule : Rule) (client : SocketAddr) (socket : TargetSocket) : Prop where
  target : socket.target = rule.target
  transparent : socket.transparent = rule.transparent
  fwmark : socket.fwmark = rule.fwmark
  family : socket.source.isIpv4 = rule.target.isIpv4
  source : if rule.transparent then
      ∃ port, (port = client.port ∨ port = 0) ∧ socket.source = client.canonicalWithPort port
    else socket.source = rule.target.unspecifiedFor

private theorem SocketAddr.isIpv4_canonicalWithPort (addr : SocketAddr) (port port' : UInt16) :
    (addr.canonicalWithPort port).isIpv4 = (addr.canonicalWithPort port').isIpv4 := by
  cases addr with
  | v4 => rfl
  | v6 =>
    simp only [canonicalWithPort]
    split <;> rfl

theorem SocketAddr.isIpv4_unspecifiedFor (addr : SocketAddr) : addr.unspecifiedFor.isIpv4 = addr.isIpv4 := by
  cases addr <;> rfl

namespace Server

private theorem bindTargetTransparent_source {os : Platform} {target client : SocketAddr} {fwmark : Option UInt32}
    {socket : TargetSocket} (h : bindTargetTransparent os target client fwmark = some socket) :
    socket.source.isIpv4 = target.isIpv4 ∧
      ∃ port, (port = client.port ∨ port = 0) ∧ socket.source = client.canonicalWithPort port := by
  simp only [bindTargetTransparent] at h
  split_ifs at h with hos hfamily
  simp only [bne_iff_ne, ne_eq, not_not] at hfamily
  split at h
  · cases h
    exact ⟨hfamily, client.port, .inl rfl, rfl⟩
  · split at h
    · cases h
      exact ⟨(client.isIpv4_canonicalWithPort 0 client.port).trans hfamily, 0, .inr rfl, rfl⟩
    · cases h
  · cases h

private theorem bindTarget_serves {os : Platform} {rule : Rule} {client : SocketAddr} {socket : TargetSocket}
    (h : bindTarget os rule.target client rule.transparent rule.fwmark = some socket) :
    rule.Serves client socket := by
  obtain ⟨htarget, htransparent, hfwmark⟩ := bindTarget_spec h
  unfold bindTarget at h
  split_ifs at h with ht hos
  · obtain ⟨hfamily, hsource⟩ := bindTargetTransparent_source h
    exact ⟨htarget, htransparent, hfwmark, hfamily, by rwa [if_pos ht]⟩
  · split at h
    · cases h
      exact ⟨htarget, htransparent, hfwmark, rule.target.isIpv4_unspecifiedFor, by rw [if_neg ht]⟩
    · cases h

/-- The action serves a request on the connection under the first rule for it, and the
socket is the one that the rule opens for the connection's client. -/
inductive Grants (s : Server) : Action → Scid → UInt64 → TargetSocket → Prop
  | request (c : Scid) (stream : UInt64) (list : List Header) (answers : Answers) (client : Client)
      (authority path : String) (rule : Rule) (socket : TargetSocket)
      (hclient : s.clients.lookup c = some client) (hline : RequestLine list authority path)
      (hfirst : s.rules.First authority path rule) (hserves : rule.Serves client.peer socket) :
      Grants s (.poll c (.headers stream list answers)) c (stream / 4) socket

private theorem handleConnectRequest_spawn {rules : RuleTable} {peer : SocketAddr} {conn c : Scid}
    {stream f : UInt64} {list : List Header} {answers : Answers} {desk : Desk} {channel : Nat}
    {socket : TargetSocket}
    (h : .spawn c f channel socket ∈ (handleConnectRequest rules peer conn stream list answers desk).2) :
    c = conn ∧ f = stream / 4 ∧ ∃ authority path rule, RequestLine list authority path ∧
      rules.First authority path rule ∧ rule.Serves peer socket := by
  unfold handleConnectRequest at h
  split at h
  · simp [respondStatus] at h
  rename_i req hparse
  split at h
  · simp [respondStatus] at h
  rename_i decision hmatch
  obtain ⟨rule, hfirst, rfl⟩ := (rules.matchTarget_eq_some_iff _ _ _).mp hmatch
  split at h
  · simp [respondStatus] at h
  rename_i opened hbind
  have hsame : c = conn ∧ f = stream / 4 ∧ socket = opened := by
    rw [openFlow_effects] at h
    cases hsent : answers.sent <;> simp [hsent] at h <;> exact ⟨h.1, h.2.1, h.2.2.2⟩
  obtain ⟨rfl, rfl, rfl⟩ := hsame
  exact ⟨rfl, rfl, req.authority, req.path, rule, .of_parse hparse, hfirst, bindTarget_serves hbind⟩

/-- No task is started but by a request that a rule grants. -/
theorem spawn_grants {s : Server} {a : Action} {c : Scid} {f : UInt64} {channel : Nat} {socket : TargetSocket}
    (h : .spawn c f channel socket ∈ (s.act a).2) : Grants s a c f socket := by
  have hrequest : ∃ conn stream list answers, a = .poll conn (.headers stream list answers) := by
    cases (act_emission s a).spawns with
    | none he _ => simpa using he _ h
    | one conn stream _ _ hr _ _ _ =>
      cases a with
      | poll conn event =>
        cases event with
        | headers stream list answers => exact ⟨conn, stream, list, answers, rfl⟩
        | _ => cases hr
      | _ => cases hr
  obtain ⟨conn, stream, list, answers, rfl⟩ := hrequest
  simp only [act, poll, atDesk] at h
  split at h
  · cases h
  rename_i client hclient
  obtain ⟨rfl, rfl, authority, path, rule, hline, hfirst, hserves⟩ := handleConnectRequest_spawn h
  exact .request c stream list answers client authority path rule socket hclient hline hfirst hserves

private theorem payload_sends {s : Server} {tc : ToClient} {c : Scid} {bytes : Bytes}
    (h : .dgramSend c bytes ∈ (s.act (.payload tc)).2) :
    tc.connId = c ∧ bytes = Dgram.encode tc.flowId tc.payload := by
  simp only [act, onTargetPayload, atDesk] at h
  split at h
  · cases h
  · have hsame : c = tc.connId ∧ bytes = Dgram.encode tc.flowId tc.payload := by simpa using h
    exact ⟨hsame.1.symm, hsame.2⟩

end Server

namespace Host

/-- The step started the task for a request that a rule grants. -/
def Starts (h : Host) (i : HostAct) (t : Task) : Prop :=
  ∃ a, i = .server a ∧ Grants h.server a t.conn t.flow t.socket

/-- The task read the reply from its socket and queued it. -/
def Reads (h : Host) (es : List HostEffect) (tc : ToClient) (t : Task) : Prop :=
  ∃ channel, h.running channel = some t ∧ t.conn = tc.connId ∧ t.flow = tc.flowId ∧
    .replied channel tc.payload false ∈ es

section Steps
variable {h h' : Host} {i : HostAct} {es : List HostEffect}

theorem Transition.numbered (ht : Transition h i h' es) (hn : Numbered h) : Numbered h' := by
  cases ht with
  | served a ha => exact hn.serve a
  | returned tc rest hq => exact Numbered.serve (h := { h with toClient := rest }) hn (.payload tc)
  | forwarded | ended | received => exact hn.trans (List.length_set ..).symm

private theorem serve_origin (hn : Numbered h) {a : Action} {channel : Nat} {t : Task}
    (hget : (h.serve a).1.tasks[channel]? = some t) :
    (∃ t' ∈ h.tasks, t.Same t') ∨ Grants h.server a t.conn t.flow t.socket := by
  rcases serve_task hn hget with ⟨t', ht', queue, rfl⟩ | ⟨-, -, socket, hspawn⟩
  · exact .inl ⟨t', List.mem_of_getElem? ht', rfl, rfl, rfl⟩
  · obtain ⟨queue, hq⟩ := serve_spawned hn hspawn
    have hsocket : t.socket = socket := congrArg Task.socket (Option.some.inj (hget.symm.trans hq))
    exact .inr (hsocket ▸ spawn_grants hspawn)

/-- A task after a step was there before, bound to the same, or the step started it. -/
theorem Transition.origin (ht : Transition h i h' es) (hn : Numbered h) {t : Task} (hmem : t ∈ h'.tasks) :
    (∃ t' ∈ h.tasks, t.Same t') ∨ Starts h i t := by
  have hset {number : Nat} {u : Task} (u' : Task) (hu : h.running number = some u) (hsame : u'.Same u)
      (hmem : t ∈ h.tasks.set number u') : ∃ t' ∈ h.tasks, t.Same t' := by
    rcases List.mem_or_eq_of_mem_set hmem with hold | rfl
    · exact ⟨t, hold, .refl t⟩
    · exact ⟨u, List.mem_of_getElem? (running_eq_some hu).1, hsame⟩
  cases ht with
  | served a ha =>
    obtain ⟨channel, hget⟩ := List.mem_iff_getElem?.mp hmem
    rcases serve_origin hn hget with hold | hnew
    · exact .inl hold
    · exact .inr ⟨a, rfl, hnew⟩
  | returned tc rest hq =>
    obtain ⟨channel, hget⟩ := List.mem_iff_getElem?.mp hmem
    rcases serve_origin (h := { h with toClient := rest }) hn hget with hold | hnew
    · exact .inl hold
    · cases hnew
  | forwarded number sent u payload queue hu hq =>
    exact .inl (hset { u with queue := queue } hu ⟨rfl, rfl, rfl⟩ hmem)
  | ended i number u hu hwhy =>
    exact .inl (hset { u with running := false } hu ⟨rfl, rfl, rfl⟩ hmem)
  | received number results u hu =>
    exact .inl (hset { u with running := (readLoop (results.take recvBatchLen)).2 } hu ⟨rfl, rfl, rfl⟩ hmem)

/-- A waiting reply waited before, or the step read it from a task's socket. -/
private theorem Transition.queued (ht : Transition h i h' es) {tc : ToClient} (hmem : tc ∈ h'.toClient) :
    tc ∈ h.toClient ∨ ∃ t, Reads h es tc t := by
  cases ht with
  | served | forwarded | ended => exact .inl hmem
  | returned tc' rest hq => exact .inl (hq ▸ List.mem_cons_of_mem tc' hmem)
  | received channel results t hrun =>
    rcases List.mem_append.mp hmem with hold | hnew
    · exact .inl hold
    · obtain ⟨⟨payload, full⟩, hr, rfl⟩ := List.mem_map.mp hnew
      obtain ⟨hread, hfull⟩ := List.mem_filter.mp hr
      obtain rfl : full = false := by simpa using hfull
      exact .inr ⟨t, channel, hrun, rfl, rfl, List.mem_append_left _ (List.mem_map_of_mem hread)⟩

/-- Only waiting replies go out to a client. -/
private theorem Transition.sends (ht : Transition h i h' es) {c : Scid} {bytes : Bytes}
    (hsend : .server (.dgramSend c bytes) ∈ es) :
    ∃ tc ∈ h.toClient, tc.connId = c ∧ bytes = Dgram.encode tc.flowId tc.payload := by
  cases ht with
  | served a ha =>
    obtain ⟨e, he, heq⟩ := List.mem_map.mp hsend
    cases heq
    obtain ⟨tc, rfl, -⟩ := (act_emission h.server a).dgramSend he
    exact absurd rfl (ha tc)
  | returned tc rest hq =>
    obtain ⟨e, he, heq⟩ := List.mem_map.mp hsend
    cases heq
    exact ⟨tc, hq ▸ List.mem_cons_self, payload_sends he⟩
  | forwarded | ended => simp at hsend
  | received => split at hsend <;> simp at hsend

end Steps

/-- The task was started, in a recorded step, for a request that a rule grants. -/
def Granted (log : List (Turn Host HostAct HostEffect)) (t : Task) : Prop :=
  ∃ turn ∈ log, Starts turn.before turn.input t

/-- In a recorded step such a task read the reply from its socket. -/
def Came (log : List (Turn Host HostAct HostEffect)) (tc : ToClient) : Prop :=
  ∃ turn ∈ log, ∃ t, Reads turn.before turn.emitted tc t ∧ Granted log t

/-- What a recorded step sends to a connection came from its tasks before. -/
def SendsBack (log : List (Turn Host HostAct HostEffect)) (turn : Turn Host HostAct HostEffect) : Prop :=
  ∀ c bytes, .server (.dgramSend c bytes) ∈ turn.emitted →
    ∃ tc, tc.connId = c ∧ bytes = Dgram.encode tc.flowId tc.payload ∧ Came log tc

/-- Everything the host holds can be traced back. -/
structure Traced (log : List (Turn Host HostAct HostEffect)) (h : Host) : Prop where
  numbered : Numbered h
  tasks : ∀ t ∈ h.tasks, Granted log t
  replies : ∀ tc ∈ h.toClient, Came log tc
  answers : Throughout SendsBack log

section Logs
variable {log : List (Turn Host HostAct HostEffect)}

private theorem Granted.append {t : Task} (hg : Granted log t) (later : List (Turn Host HostAct HostEffect)) :
    Granted (log ++ later) t := by
  obtain ⟨turn, hturn, hstarts⟩ := hg
  exact ⟨turn, List.mem_append_left later hturn, hstarts⟩

private theorem Granted.same {t t' : Task} (hg : Granted log t') (hsame : t.Same t') : Granted log t := by
  obtain ⟨turn, hturn, a, ha, hgrants⟩ := hg
  obtain ⟨hconn, hflow, hsocket⟩ := hsame
  exact ⟨turn, hturn, a, ha, by rwa [hconn, hflow, hsocket]⟩

private theorem Came.append {tc : ToClient} (hc : Came log tc) (later : List (Turn Host HostAct HostEffect)) :
    Came (log ++ later) tc := by
  obtain ⟨turn, hturn, t, hreads, hgranted⟩ := hc
  exact ⟨turn, List.mem_append_left later hturn, t, hreads, hgranted.append later⟩

private theorem Traced.step {h h' : Host} {i : HostAct} {es : List HostEffect} (htr : Traced log h)
    (ht : Transition h i h' es) : Traced (log ++ [⟨h, i, h', es⟩]) h' where
  numbered := ht.numbered htr.numbered
  tasks t hmem := by
    rcases ht.origin htr.numbered hmem with ⟨t', ht', hsame⟩ | hstarts
    · exact ((htr.tasks t' ht').same hsame).append _
    · exact ⟨_, List.mem_append_right log (List.mem_singleton_self _), hstarts⟩
  replies tc hmem := by
    rcases ht.queued hmem with hold | ⟨t, hreads⟩
    · exact (htr.replies tc hold).append _
    · have htask : t ∈ h.tasks := by
        obtain ⟨channel, hrun, -⟩ := hreads
        exact List.mem_of_getElem? (running_eq_some hrun).1
      exact ⟨_, List.mem_append_right log (List.mem_singleton_self _), t, hreads, (htr.tasks t htask).append _⟩
  answers := by
    refine htr.answers.snoc fun c bytes hsend => ?_
    obtain ⟨tc, hmem, hconn, hbytes⟩ := ht.sends hsend
    exact ⟨tc, hconn, hbytes, htr.replies tc hmem⟩

private theorem HostLog.traced {ok : Host → HostAct → Prop} {rules : RuleTable} {start : Instant} {h : Host}
    (hr : HostLog ok rules start log h) : Traced log h := by
  refine Run.invariant ⟨rfl, nofun, nofun, .nil _⟩ ?_ hr
  intro log h i h' ts _ ih _ hs
  obtain ⟨es, hstep, rfl⟩ := logged_eq_some hs
  exact ih.step (step_transition hstep)

end Logs

/-- Under any interleaving and any reloads, every target task was started for a
well-formed request on its own connection, with the socket of the first rule for it
in the table of that moment. A client is only ever sent what tasks of its connection
read from such sockets. -/
theorem targets_pinned {ok : Host → HostAct → Prop} {rules : RuleTable} {start : Instant}
    {log : List (Turn Host HostAct HostEffect)} {h : Host} (hr : HostLog ok rules start log h) :
    (∀ t ∈ h.tasks, Granted log t) ∧ Throughout SendsBack log :=
  ⟨(HostLog.traced hr).tasks, (HostLog.traced hr).answers⟩

/-- A flow opened before a reload goes on with its socket, and its reply goes out. -/
theorem targets_pinned_reloaded :
    ∃ log h t, HostLog (fun _ _ => True) shadowedRules 100 log h ∧ h.server.rules.rules = [] ∧
      h.tasks[0]? = some t ∧ Granted log t ∧ t.socket.target = .v4 0x7f000001 53 ∧
      Throughout SendsBack log ∧ log.flatMap (sent hasty) = [Dgram.encode 2 [3]] := by
  have hrun : HostLog (fun _ _ => True) shadowedRules 100 _ _ :=
    Run.extend .init ((oneFlow hasty).map .server ++
      [.server (.reload ⟨[]⟩), .receive 0 [.ok [3] false, .wouldBlock], .reply])
      (fun _ _ _ _ => trivial) (by decide)
  obtain ⟨htasks, hanswers⟩ := targets_pinned hrun
  exact ⟨_, _, _, hrun, rfl, rfl, htasks _ (List.mem_of_getElem? (i := 0) rfl), rfl, hanswers, by decide⟩

end Host
end ZeroMasque
