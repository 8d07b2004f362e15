import ZeroMasque.Agreement
import ZeroMasque.Server.Targets
import ZeroMasque.Tunnel.Order

/-! Where a session's payloads go and come from: the sockets of its tasks are those of
the first rule for the endpoint it dialed. -/
namespace ZeroMasque.Tunnel
open Foundation Server

/-- The step started the task: it read a request for the dialed endpoint from the
session's connection, and the first rule for that endpoint opened the task's socket for
the connection's client. -/
structure Starts (d : Dialed) (turn : TunnelTurn) (channel : Nat) (task : Task) : Prop where
  request : ∃ stream answers,
    turn.input = .host (.server (.poll task.conn (.headers stream (connectHeaders d) answers))) ∧ task.flow = stream / 4
  link : turn.before.link = .live task.conn
  absent : turn.before.host.tasks[channel]? = none
  started : ∃ first, turn.after.host.tasks[channel]? = some first ∧ task.Same first
  rule : ∃ client rule, turn.before.host.server.clients.lookup task.conn = some client ∧
    turn.before.host.server.rules.First d.authority d.path rule ∧ rule.Serves client.peer task.socket

/-- The task was started for the session and the endpoint it dialed. -/
def ForDialed (d : Dialed) (log : List TunnelTurn) (channel : Nat) (task : Task) : Prop :=
  ∃ turn ∈ log, Starts d turn channel task

/-- The channel belongs to a task of the session for the flow. -/
def Owns (t : Tunnel) (channel : Nat) (f : UInt64) : Prop :=
  channel ∈ t.mine ∧ t.host.tasks[channel]?.map Task.flow = some f

/-- What is on its way to the server, the tasks of the session, and what they did. -/
structure Directed (d : Dialed) (log : List TunnelTurn) (t : Tunnel) : Prop where
  requests : ∀ r ∈ t.requests, r.2 = connectHeaders d
  mine : ∀ channel ∈ t.mine, ∃ task, t.host.tasks[channel]? = some task ∧ ForDialed d log channel task
  written : ∀ channel f p sent, .written channel f p sent ∈ effects log → t.Owns channel f
  replied : ∀ channel f p, .replied channel f p ∈ effects log → t.Owns channel f

private theorem Starts.same {d : Dialed} {turn : TunnelTurn} {channel : Nat} {task task' : Task}
    (h : Starts d turn channel task') (hsame : task.Same task') : Starts d turn channel task := by
  obtain ⟨conn, flow, socket, queue, running⟩ := task
  obtain ⟨hconn, hflow, hsocket⟩ := hsame
  dsimp only at hconn hflow hsocket
  subst hconn hflow hsocket
  exact ⟨h.request, h.link, h.absent, h.started, h.rule⟩

private theorem ForDialed.mono {d : Dialed} {log log' : List TunnelTurn} {channel : Nat} {task task' : Task}
    (h : ForDialed d log channel task') (hl : log ⊆ log') (hsame : task.Same task') :
    ForDialed d log' channel task := by
  obtain ⟨turn, hturn, hstarts⟩ := h
  exact ⟨turn, hl hturn, hstarts.same hsame⟩

private theorem Owns.observe {t : Tunnel} {channel : Nat} {f : UInt64} (ho : t.Owns channel f) {i : HostAct}
    {host : Host} {es : List HostEffect} (htrans : Host.Transition t.host i host es) :
    (t.observe host es).Owns channel f := by
  obtain ⟨task, htask, rfl⟩ := Option.map_eq_some_iff.mp ho.2
  obtain ⟨task', htask', -, hflow, -⟩ := htrans.keeps htask
  exact ⟨List.mem_append_left _ ho.1, by simp [Tunnel.observe, htask', hflow]⟩

private theorem mark_replied {t : Tunnel} {e : HostEffect} {channel : Nat} {f : UInt64} {p : Bytes}
    (h : t.mark e = some (.replied channel f p)) : t.Owns channel f := by
  unfold mark at h
  split at h
  case h_6 number payload full =>
    simp only [Option.ite_none_right_eq_some, Option.map_eq_some_iff, Mark.replied.injEq] at h
    obtain ⟨hm, task, htask, rfl, hflow, -⟩ := h
    exact ⟨hm, by simp [htask, hflow]⟩
  all_goals simp at h

/-- A request is read from the session's connection only if the session sent it. -/
private theorem request_of_step {d : Dialed} {t : Tunnel} {result : Tunnel × List Mark} {c : Scid} {stream : UInt64}
    {list : List Header} {answers : Answers}
    (hs : t.step d (.host (.server (.poll c (.headers stream list answers)))) = some result)
    (hl : t.link = .live c) : (stream, list) ∈ t.requests := by
  obtain ⟨t0, hin, -⟩ := Option.bind_eq_some_iff.mp hs
  simp only [fromClient, hl, if_true] at hin
  split_ifs at hin with hm
  exact hm

/-- A task that becomes the session's was started for a request on its connection. -/
private theorem spawned_grants {t : Tunnel} (hn : Host.Numbered t.host) {i : HostAct} {host : Host}
    {es : List HostEffect} (htrans : Host.Transition t.host i host es) {channel : Nat}
    (hm : channel ∈ es.filterMap t.spawned) :
    ∃ task a, host.tasks[channel]? = some task ∧ t.host.tasks[channel]? = none ∧ t.link = .live task.conn ∧
      i = .server a ∧ Grants t.host.server a task.conn task.flow task.socket := by
  obtain ⟨e, he, hs⟩ := List.mem_filterMap.mp hm
  have hspawn : ∃ c f socket, e = .server (.spawn c f channel socket) ∧ t.link = .live c := by
    unfold spawned at hs
    split at hs
    · simp only [Option.ite_none_right_eq_some, Option.some.injEq] at hs
      obtain ⟨hl, rfl⟩ := hs
      exact ⟨_, _, _, rfl, hl⟩
    · cases hs
  obtain ⟨c, f, socket, rfl, hl⟩ := hspawn
  cases htrans with
  | served a ha =>
    have hmem : .spawn c f channel socket ∈ (t.host.server.act a).2 := by simpa [Host.serve] using he
    obtain ⟨queue, hq⟩ := Host.serve_spawned hn hmem
    have hnumber : channel = t.host.tasks.length := ((act_emission t.host.server a).spawns.head hmem).1.trans hn
    exact ⟨_, a, hq, List.getElem?_eq_none (le_of_eq hnumber.symm), hl, rfl, spawn_grants hmem⟩
  | returned tc rest hq =>
    have hmem : .spawn c f channel socket ∈ (t.host.server.act (.payload tc)).2 := by
      simpa [Host.serve] using he
    cases spawn_grants hmem
  | forwarded | ended => simp at he
  | received => split at he <;> simp at he

private theorem Grants.dialed {d : Dialed} {s : Server} {a : Action} {c : Scid} {f : UInt64} {socket : TargetSocket}
    (h : Grants s a c f socket)
    (hlist : ∀ stream list answers, a = .poll c (.headers stream list answers) → list = connectHeaders d) :
    (∃ stream answers, a = .poll c (.headers stream (connectHeaders d) answers) ∧ f = stream / 4) ∧
      ∃ client rule, s.clients.lookup c = some client ∧ s.rules.First d.authority d.path rule ∧
        rule.Serves client.peer socket := by
  cases h with
  | request _ stream list answers client authority path rule _ hclient hline hfirst hserves =>
    obtain rfl := hlist stream list answers rfl
    have hreq := hline.parse.symm.trans (connectHeaders_parse d)
    cases hreq
    exact ⟨⟨stream, answers, rfl, rfl⟩, client, rule, hclient, hfirst, hserves⟩

private theorem requested_headers {d : Dialed} {s : Session} (hc : Session.Coherent s) {a : SessionAct}
    {e : SessionEffect} (he : e ∈ (s.act d a).2) {r : UInt64 × List Header} (hr : request e = some r) :
    r.2 = connectHeaders d := by
  have hemitted := Session.act_emitted hc d a
  generalize (s.act d a).2 = es at he hemitted
  cases e with
  | request src stream headers =>
    cases hr
    cases hemitted with
    | requested outcome _ hreq =>
      obtain ⟨_, _, heq, -⟩ := hreq _ he
      cases heq
      rfl
    | _ => simp at he
  | _ => cases hr

private theorem Directed.init (d : Dialed) (rules : RuleTable) (start : Instant) : Directed d [] (new rules start) where
  requests := by simp [new]
  mine := by simp [new]
  written := by simp [effects]
  replied := by simp [effects]

section Steps
variable {d : Dialed} {log : List TunnelTurn}

/-- What the server's side does keeps the session's tasks where the endpoint leads. -/
private theorem Directed.host {t t0 : Tunnel} (h : Directed d log t) (hn : Host.Numbered t.host) {i : HostAct}
    {host : Host} {es : List HostEffect} (hin : Taken t i t0) (htrans : Host.Transition t0.host i host es)
    (hread : ∀ c stream list answers, i = .server (.poll c (.headers stream list answers)) → t.link = .live c →
      (stream, list) ∈ t.requests) :
    Directed d (log ++ [⟨t, .host i, t0.observe host es, es.filterMap t0.mark⟩]) (t0.observe host es) := by
  have hrequests : ∀ r ∈ t0.requests, r ∈ t.requests := by
    cases hin with
    | request => exact fun r hr => List.mem_of_mem_erase hr
    | datagram | nothing => exact fun r hr => hr
  obtain ⟨requests, up, rfl⟩ := hin.frame
  refine ⟨fun r hr => h.requests r (hrequests r hr), fun channel hm => ?_, fun channel f p sent hm => ?_,
    fun channel f p hm => ?_⟩
  · rcases List.mem_append.mp hm with hold | hnew
    · obtain ⟨task, htask, hdialed⟩ := h.mine channel hold
      obtain ⟨task', htask', hsame⟩ := htrans.keeps htask
      exact ⟨task', htask', hdialed.mono (List.subset_append_left _ _) hsame⟩
    · obtain ⟨task, a, htask, habsent, hl, rfl, hgrants⟩ := spawned_grants hn htrans hnew
      obtain ⟨⟨stream, answers, ha, hflow⟩, hrule⟩ := Grants.dialed (d := d) hgrants fun stream list answers ha =>
        h.requests (stream, list) (hread task.conn stream list answers (ha ▸ rfl) hl)
      refine ⟨task, htask, _, List.mem_append_right log (List.mem_singleton_self _), ?_⟩
      exact ⟨⟨stream, answers, by rw [ha], hflow⟩, hl, habsent, ⟨task, htask, .refl task⟩, hrule⟩
  · rw [effects_append, effects_singleton] at hm
    rcases List.mem_append.mp hm with hold | hnew
    · exact (h.written channel f p sent hold).observe htrans
    · obtain ⟨e, -, hmark⟩ := List.mem_filterMap.mp hnew
      exact Owns.observe (mark_written hmark).2 htrans
  · rw [effects_append, effects_singleton] at hm
    rcases List.mem_append.mp hm with hold | hnew
    · exact (h.replied channel f p hold).observe htrans
    · obtain ⟨e, -, hmark⟩ := List.mem_filterMap.mp hnew
      exact (mark_replied hmark).observe htrans

private theorem Directed.session {t t0 : Tunnel} {a : SessionAct} (h : Directed d log t)
    (hc : Session.Coherent t.session) (hin : Fetched t a t0) (turn : TunnelTurn)
    (hturn : turn.emitted = (t0.session.act d a).2.map .session) :
    Directed d (log ++ [turn]) (t0.afterSession d a) := by
  obtain ⟨responses, down, rfl⟩ := hin.frame
  have hold {m : Mark} (hm : m ∈ effects (log ++ [turn])) (hside : ∀ e, m ≠ .session e) : m ∈ effects log := by
    rw [effects_append, effects_singleton, hturn] at hm
    rcases List.mem_append.mp hm with hm | hm
    · exact hm
    · obtain ⟨e, -, rfl⟩ := List.mem_map.mp hm
      exact absurd rfl (hside e)
  refine ⟨fun r hr => ?_, fun channel hm => ?_, fun channel f p sent hm => h.written channel f p sent (hold hm nofun),
    fun channel f p hm => h.replied channel f p (hold hm nofun)⟩
  · rcases List.mem_append.mp hr with hr | hr
    · exact h.requests r hr
    · obtain ⟨e, he, hreq⟩ := List.mem_filterMap.mp hr
      exact requested_headers hc he hreq
  · obtain ⟨task, htask, hdialed⟩ := h.mine channel hm
    exact ⟨task, htask, hdialed.mono (List.subset_append_left _ _) (.refl task)⟩

/-- The session has no tasks before its connection is there. -/
private theorem Directed.attach {t t' : Tunnel} (h : Directed d log t) (hl : t.link = .unconnected)
    (hattached : Attached t) {turn : TunnelTurn} (hmarks : turn.emitted = []) (hrequests : t'.requests = t.requests)
    (hmine : t'.mine = t.mine) : Directed d (log ++ [turn]) t' := by
  have heffects : effects (log ++ [turn]) = effects log := by
    rw [effects_append, effects_singleton, hmarks, List.append_nil]
  have hnone {channel : Nat} {f : UInt64} (ho : t.Owns channel f) : False := by
    have hmem := ho.1
    rw [hattached.unattached hl] at hmem
    cases hmem
  refine ⟨hrequests ▸ h.requests, ?_, fun channel f p sent hm => ?_, fun channel f p hm => ?_⟩
  · rw [hmine, hattached.unattached hl]
    nofun
  · exact (hnone (h.written channel f p sent (heffects ▸ hm))).elim
  · exact (hnone (h.replied channel f p (heffects ▸ hm))).elim

private theorem Directed.owned {t : Tunnel} (h : Directed d log t) {channel : Nat} {f : UInt64}
    (ho : t.Owns channel f) :
    channel ∈ t.mine ∧ ∃ task, t.host.tasks[channel]? = some task ∧ task.flow = f ∧ ForDialed d log channel task := by
  obtain ⟨task, htask, hdialed⟩ := h.mine channel ho.1
  have hflow := ho.2
  rw [htask] at hflow
  exact ⟨ho.1, task, htask, Option.some.inj hflow, hdialed⟩

private theorem TunnelLog.directed {rules : RuleTable} {start : Instant} {t : Tunnel}
    (h : TunnelLog Unused d rules start log t) : Directed d log t := by
  refine Run.invariant (P := fun log t => Directed d log t) (.init d rules start) ?_ h
  intro log t i t' ts hr ih _ hs
  obtain ⟨ms, hstep, rfl⟩ := logged_eq_some hs
  have hrun : TunnelRun Unused d rules start (effects log) t := Run.of_log hr
  have hattached := TunnelRun.attached hrun
  cases step_turn hstep with
  | host i t0 host es hin htrans =>
    refine ih.host hattached.numbered hin htrans ?_
    rintro c stream list answers rfl hl
    exact request_of_step hstep hl
  | attach scid dcid peer state hl => exact ih.attach hl hattached rfl rfl rfl
  | session a t0 hin => exact ih.session (TunnelRun.session hrun).sound.1 hin _ rfl

end Steps

/-- End to end, under any interleaving and any reloads: a payload of the session is
written to the socket of one of its own tasks, and a payload delivered to a source was
read by one of them; and each of these tasks was started by a request of the session,
with the socket that the first rule for the dialed endpoint opened at that moment. -/
theorem session_targets_pinned {d : Dialed} {rules : RuleTable} {start : Instant} {log : List TunnelTurn} {t : Tunnel}
    (h : TunnelLog Unused d rules start log t) :
    (∀ channel f p sent, .written channel f p sent ∈ effects log → channel ∈ t.mine ∧
      ∃ task, t.host.tasks[channel]? = some task ∧ task.flow = f ∧ ForDialed d log channel task) ∧
    ∀ f src p, .session (.deliver f src p) ∈ effects log →
      ∃ channel, .replied channel f p ∈ effects log ∧ channel ∈ t.mine ∧
        ∃ task, t.host.tasks[channel]? = some task ∧ task.flow = f ∧ ForDialed d log channel task := by
  have hdirected := TunnelLog.directed h
  refine ⟨fun channel f p sent hm => hdirected.owned (hdirected.written channel f p sent hm), fun f src p hm => ?_⟩
  have hbag := TunnelRun.delivered (Run.of_log h)
  obtain ⟨m, hm, heq⟩ := mem_bag.mp (Multiset.mem_of_le hbag (mem_bag.mpr ⟨_, hm, rfl⟩))
  cases m with
  | replied channel f' p' =>
    cases heq
    exact ⟨channel, hm, hdirected.owned (hdirected.replied channel f p hm)⟩
  | _ => cases heq

/-- The rule is gone when the payload is written; the flow goes on as it was opened. -/
theorem session_targets_pinned_reloaded :
    ∃ log t task, TunnelLog Unused home shadowedRules 100 log t ∧ t.host.server.rules.rules = [] ∧
      .written 0 0 [1] true ∈ effects log ∧ t.host.tasks[0]? = some task ∧ ForDialed home log 0 task ∧
      .session (.deliver 0 app [3]) ∈ effects log ∧ ∃ channel ∈ t.mine, .replied channel 0 [3] ∈ effects log := by
  have hdialed : TunnelLog Unused home shadowedRules 100 _ _ :=
    .next (.attach ours [1] (.v4 0x01010101 4000) ⟨true, false, none⟩) .init
      ⟨by simp, by rintro scid ⟨⟩; exact ⟨rfl, by decide, by decide⟩⟩ rfl
  have hlocal := TunnelLog.extend hdialed [.session (.localDatagram app [1])] (by decide) (by decide)
  have hasked : TunnelLog Unused home shadowedRules 100 _ _ :=
    .next (.session (.openPending (Session.oneStream app 0))) hlocal
      ⟨by rintro a ⟨⟩ outcome ⟨⟩; exact Session.oneStream_fresh rfl (by decide), by simp [TunnelAct.drawn]⟩ rfl
  have hback := TunnelLog.extend hasked
    [serveFirst (connectHeaders home), .host (.server (.reload ⟨[]⟩)), .session (.poll (.headers 0 acceptHeaders)),
      .host (.server (.datagram ours (Dgram.encode 0 [1]) false)), .host (.forward 0 true),
      .host (.receive 0 [.ok [3] false]), .host .reply, .session (.route (Dgram.encode 0 [3]))]
    (by decide) (by decide)
  obtain ⟨hup, hdown⟩ := session_targets_pinned hback
  obtain ⟨-, task, htask, -, htarget⟩ := hup 0 0 [1] true (by decide)
  obtain ⟨channel, hreplied, hmine, -⟩ := hdown 0 app [3] (by decide)
  exact ⟨_, _, task, hback, rfl, by decide, htask, htarget, by decide, channel, hmine, hreplied⟩

end ZeroMasque.Tunnel
