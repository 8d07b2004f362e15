import ZeroMasque.Tunnel.Model

/-! Which tasks work for the session: those of the flows of its connection, and
nobody else's, provided the connection id was not in use in any way when drawn. -/
namespace ZeroMasque.Tunnel
open Foundation Server

/-- No connection, no running task and no reply in the queue bears the id. -/
structure Unused (t : Tunnel) (scid : Scid) : Prop where
  connection : t.host.server.clients.lookup scid = none
  task : ∀ task ∈ t.host.tasks, task.running = true → task.conn ≠ scid
  reply : ∀ tc ∈ t.host.toClient, tc.connId ≠ scid

/-- How the tables of the host and the session's own tasks fit together. -/
structure Attached (t : Tunnel) : Prop where
  numbered : Host.Numbered t.host
  channels : ∀ channel ∈ t.mine, channel < t.host.tasks.length
  flows : ∀ k f flow, t.host.server.flowAt k f = some flow →
    (∃ task, t.host.tasks[flow.toTarget]? = some task ∧ task.flow = f) ∧
      (flow.toTarget ∈ t.mine ↔ t.link = .live k)
  running : ∀ c channel task, t.link = .live c → t.host.tasks[channel]? = some task →
    task.running = true → task.conn = c → channel ∈ t.mine
  tasks : ∀ task ∈ t.host.tasks, task.flow.toNat < 2 ^ 62
  replies : ∀ tc ∈ t.host.toClient, tc.flowId.toNat < 2 ^ 62
  unattached : t.link = .unconnected → t.mine = []

private theorem Attached.init (rules : RuleTable) (start : Instant) : Attached (new rules start) where
  numbered := rfl
  channels := by simp [new]
  flows := by simp [new, Host.new, Server.new, flowAt]
  running := by simp [new]
  tasks := by simp [new, Host.new]
  replies := by simp [new, Host.new]
  unattached := fun _ => rfl

/-- The network plays no role for the invariant. -/
theorem Attached.taken {t t' : Tunnel} {i : HostAct} (h : Attached t) (hin : Taken t i t') :
    Attached t' := by
  obtain ⟨requests, up, rfl⟩ := hin.frame
  exact ⟨h.1, h.2, h.3, h.4, h.5, h.6, h.7⟩

/-- A task gets a number that no task has yet. -/
private theorem Attached.le_of_spawn {t : Tunnel} (h : Attached t) {a : Action} {c : Scid} {f : UInt64} {channel : Nat}
    {socket : TargetSocket} (hs : .spawn c f channel socket ∈ (t.host.server.act a).2) :
    t.host.tasks.length ≤ channel := by
  rw [((act_emission t.host.server a).spawns.head hs).1]
  exact le_of_eq (show t.host.server.channels = t.host.tasks.length from h.numbered).symm

/-- What the server offers goes to the task of the flow it was read for. -/
theorem Attached.offered {t : Tunnel} (h : Attached t) {i : HostAct} {host : Host} {es : List HostEffect}
    (htrans : Host.Transition t.host i host es) {c : Scid} {f : UInt64} {channel : Nat} {p : Bytes}
    {full : Bool} {now : Instant} (he : .server (.toTarget c f channel p full now) ∈ es) :
    (∃ task, t.host.tasks[channel]? = some task ∧ task.flow = f) ∧
      (channel ∈ t.mine ↔ t.link = .live c) := by
  rcases htrans.server with ⟨a, -, rfl, -⟩ | ⟨-, hnone⟩
  · obtain ⟨bytes, parsed, flow, -, -, -, -, hf, rfl, -⟩ :=
      (act_emission t.host.server a).toTarget (by simpa using he)
    exact h.flows c f flow hf
  · exact absurd he (hnone _)

/-- A connection that still has flows has not been replaced. -/
private theorem link_of_flow {t : Tunnel} (host : Host) {a : Action} {k : Scid} {f : UInt64} {flow : Flow}
    (hf : (t.host.server.act a).1.flowAt k f = some flow) :
    (t.observe host ((t.host.server.act a).2.map .server)).link = .live k ↔ t.link = .live k := by
  refine ⟨fun hl => (observe_live hl).1, fun hl => ?_⟩
  have hcut : ((t.host.server.act a).2.map HostEffect.server).any t.cut = false := by
    rw [List.any_eq_false]
    intro e he hcut
    obtain ⟨e, hmem, rfl⟩ := List.mem_map.mp he
    rw [flowAt_replaced hmem ((cut_live hl e).mp hcut) f] at hf
    cases hf
  simp only [observe, hcut]
  exact hl

private theorem mem_mine {t : Tunnel} {host : Host} {es : List Effect} {channel : Nat} :
    channel ∈ (t.observe host (es.map .server)).mine ↔
      channel ∈ t.mine ∨ ∃ c f socket, .spawn c f channel socket ∈ es ∧ t.link = .live c := by
  simp only [observe, List.mem_append, List.mem_filterMap, List.mem_map]
  refine or_congr_right ⟨?_, ?_⟩
  · rintro ⟨_, ⟨e, he, rfl⟩, hs⟩
    cases e with
    | spawn c f number socket =>
      simp only [spawned, Option.ite_none_right_eq_some, Option.some.injEq] at hs
      obtain ⟨hl, rfl⟩ := hs
      exact ⟨c, f, socket, he, hl⟩
    | _ => cases hs
  · rintro ⟨c, f, socket, he, hl⟩
    exact ⟨_, ⟨_, he, rfl⟩, by simp [spawned, hl]⟩

/-- A flow after an action has its own task, which is the session's exactly if the
connection is. -/
private theorem Attached.flows_act {t : Tunnel} (h : Attached t) (a : Action) (host : Host) {k : Scid}
    {f : UInt64} {flow : Flow} (hf : (t.host.server.act a).1.flowAt k f = some flow) :
    (∃ task, (t.host.serve a).1.tasks[flow.toTarget]? = some task ∧ task.flow = f) ∧
      (flow.toTarget ∈ (t.observe host ((t.host.server.act a).2.map .server)).mine ↔
        (t.observe host ((t.host.server.act a).2.map .server)).link = .live k) := by
  have hspawns := (act_emission t.host.server a).spawns
  rw [link_of_flow host hf, mem_mine]
  have hkept (old : Flow) (hb : t.host.server.flowAt k f = some old) :
      (∃ task, (t.host.serve a).1.tasks[old.toTarget]? = some task ∧ task.flow = f) ∧
        ((old.toTarget ∈ t.mine ∨ ∃ c g socket, .spawn c g old.toTarget socket ∈ (t.host.server.act a).2 ∧
          t.link = .live c) ↔ t.link = .live k) := by
    obtain ⟨⟨task, htask, hflow⟩, hmine⟩ := h.flows k f old hb
    obtain ⟨queue, hq⟩ := Host.serve_getElem a htask
    refine ⟨⟨_, hq, hflow⟩, ?_⟩
    rw [← hmine, or_iff_left]
    rintro ⟨c, g, socket, hmem, -⟩
    exact absurd (List.getElem?_eq_some_iff.mp htask).1 (Nat.not_lt.mpr (h.le_of_spawn hmem))
  cases act_origin t.host.server a hf with
  | kept hb ht ho => exact hkept flow hb
  | touched old hb hflow ht ho =>
    rw [hflow]
    exact hkept old hb
  | opened stream socket hr hid hc hl hs ht ho =>
    obtain ⟨queue, hq⟩ := Host.serve_spawned h.numbered hs
    rw [hc]
    refine ⟨⟨_, hq, rfl⟩, ?_, ?_⟩
    · rintro (hold | ⟨c, g, socket', hmem, hlive⟩)
      · exact absurd (h.channels _ hold) (Nat.not_lt.mpr (h.le_of_spawn hs))
      · have heq := (hspawns.head hs).2.symm.trans (hspawns.head hmem).2
        cases heq
        exact hlive
    · intro hlive
      exact .inr ⟨k, f, socket, hs, hlive⟩

/-- An action of the server keeps the invariant, whatever it does to the replies. -/
private theorem Attached.act {t : Tunnel} (h : Attached t) (a : Action) {host : Host}
    (hserver : host.server = (t.host.server.act a).1) (htasks : host.tasks = (t.host.serve a).1.tasks)
    (hreplies : ∀ tc ∈ host.toClient, tc.flowId.toNat < 2 ^ 62) :
    Attached (t.observe host ((t.host.server.act a).2.map .server)) := by
  have hnumbered : Host.Numbered host := by
    rw [Host.Numbered, hserver, htasks]
    exact h.numbered.serve a
  refine ⟨hnumbered, ?_, ?_, ?_, ?_, hreplies, ?_⟩
  · intro channel hmem
    simp only [observe]
    rcases mem_mine.mp hmem with hold | ⟨c, f, socket, hmem, -⟩
    · obtain ⟨task, htask⟩ : ∃ task, t.host.tasks[channel]? = some task :=
        ⟨_, List.getElem?_eq_getElem (h.channels channel hold)⟩
      obtain ⟨queue, hq⟩ := Host.serve_getElem a htask
      exact (List.getElem?_eq_some_iff.mp (htasks ▸ hq)).1
    · obtain ⟨queue, hq⟩ := Host.serve_spawned h.numbered hmem
      exact (List.getElem?_eq_some_iff.mp (htasks ▸ hq)).1
  · intro k f flow hf
    have hact : (t.host.server.act a).1.flowAt k f = some flow := hserver ▸ hf
    simpa only [observe, htasks] using h.flows_act a host hact
  · intro c channel task hlive htask hrun hconn
    have hl := (observe_live hlive).1
    rw [mem_mine]
    rcases Host.serve_task h.numbered (htasks ▸ htask) with ⟨old, hold, queue, rfl⟩ | ⟨-, -, socket, hmem⟩
    · exact .inl (h.running c channel old hl hold hrun hconn)
    · exact .inr ⟨_, _, socket, hmem, hconn ▸ hl⟩
  · intro task hmem
    obtain ⟨channel, hget⟩ := List.mem_iff_getElem?.mp hmem
    rcases Host.serve_task h.numbered (htasks ▸ hget) with ⟨old, hold, queue, rfl⟩ | ⟨-, ⟨stream, hflow⟩, -⟩
    · exact h.tasks old (List.mem_of_getElem? hold)
    · rw [hflow]
      exact Dgram.quarter_lt stream
  · intro hun
    have hl := observe_unconnected hun
    simp only [observe, h.unattached hl, List.nil_append, List.filterMap_eq_nil_iff]
    intro e he
    obtain ⟨e, -, rfl⟩ := List.mem_map.mp he
    cases e <;> simp [spawned, hl]

/-- A step of a task leaves the network and the session's connection alone. -/
theorem observe_task (t : Tunnel) (host : Host) {es : List HostEffect} (hes : ∀ e, .server e ∉ es) :
    t.observe host es = { t with host := host } := by
  have hnone {β : Type} {g : HostEffect → Option β} (hg : ∀ e ∈ es, g e = none) : es.filterMap g = [] :=
    List.filterMap_eq_nil_iff.mpr hg
  have hcut : es.any t.cut = false := by
    rw [List.any_eq_false]
    intro e he
    cases e with
    | server e => exact absurd he (hes e)
    | _ => simp [cut]
  rw [observe, hcut, hnone, hnone, hnone]
  · simp
  all_goals
    intro e he
    cases e with
    | server e => exact absurd he (hes e)
    | _ => rfl

private theorem Attached.task {t : Tunnel} (h : Attached t) {channel : Nat} {task task' : Task}
    (ht : t.host.running channel = some task) (hconn : task'.conn = task.conn)
    (hflow : task'.flow = task.flow) {replies : List ToClient}
    (hreplies : ∀ tc ∈ replies, tc.flowId.toNat < 2 ^ 62) {es : List HostEffect}
    (hes : ∀ e, .server e ∉ es) :
    Attached (t.observe ⟨t.host.server, t.host.tasks.set channel task', replies⟩ es) := by
  obtain ⟨hget, hrun⟩ := Host.running_eq_some ht
  have hlt := (List.getElem?_eq_some_iff.mp hget).1
  rw [observe_task t _ hes]
  refine ⟨?_, ?_, ?_, ?_, ?_, hreplies, h.unattached⟩
  · rw [Host.Numbered, List.length_set]
    exact h.numbered
  · intro number hmem
    simpa only [List.length_set] using h.channels number hmem
  · intro k f flow hf
    obtain ⟨⟨old, hold, hid⟩, hmine⟩ := h.flows k f flow hf
    refine ⟨?_, hmine⟩
    simp only [List.getElem?_set, hlt, if_true]
    split
    · rename_i heq
      subst heq
      obtain rfl : task = old := Option.some.inj (hget.symm.trans hold)
      exact ⟨task', rfl, hflow.trans hid⟩
    · exact ⟨old, hold, hid⟩
  · intro c number other hl hother hrun' hconn'
    simp only [List.getElem?_set, hlt, if_true] at hother
    split at hother
    · rename_i heq
      subst heq
      cases hother
      exact h.running c channel task hl hget hrun (hconn ▸ hconn')
    · exact h.running c number other hl hother hrun' hconn'
  · intro other hmem
    rcases List.mem_or_eq_of_mem_set hmem with hold | rfl
    · exact h.tasks other hold
    · rw [hflow]
      exact h.tasks task (List.mem_of_getElem? hget)

private theorem Attached.host {t : Tunnel} (h : Attached t) {i : HostAct} {host : Host} {es : List HostEffect}
    (htrans : Host.Transition t.host i host es) : Attached (t.observe host es) := by
  cases htrans with
  | served a ha => exact h.act a rfl rfl h.replies
  | returned tc rest hq =>
    refine h.act (.payload tc) rfl rfl fun tc' hmem => h.replies tc' ?_
    rw [hq]
    exact List.mem_cons_of_mem _ hmem
  | forwarded channel sent task payload queue ht hq =>
    exact h.task ht (by rfl) (by rfl) h.replies (by simp)
  | ended i channel task ht hwhy => exact h.task ht (by rfl) (by rfl) h.replies (by simp)
  | received channel results task ht =>
    refine h.task ht (by rfl) (by rfl) ?_ ?_
    · intro tc hmem
      rcases List.mem_append.mp hmem with hold | hnew
      · exact h.replies tc hold
      · obtain ⟨r, -, rfl⟩ := List.mem_map.mp hnew
        exact h.tasks task (List.mem_of_getElem? (Host.running_eq_some ht).1)
    · intro e
      split <;> simp

/-- The session gets no task that was there before. -/
theorem Attached.mem_mine_old {t : Tunnel} (h : Attached t) {i : HostAct} {host : Host}
    {es : List HostEffect} (htrans : Host.Transition t.host i host es) {channel : Nat}
    (hlt : channel < t.host.tasks.length) :
    channel ∈ (t.observe host es).mine ↔ channel ∈ t.mine := by
  rcases htrans.server with ⟨a, -, rfl, -⟩ | ⟨-, hes⟩
  · rw [mem_mine, or_iff_left]
    rintro ⟨c, f, socket, hmem, -⟩
    exact absurd hlt (Nat.not_lt.mpr (h.le_of_spawn hmem))
  · rw [observe_task t host hes]

private theorem Attached.attach {t : Tunnel} (h : Attached t) {scid : Scid} (dcid : Bytes) (peer : SocketAddr)
    (state : Conn) (hl : t.link = .unconnected) (hu : Unused t scid) :
    Attached { t with host := (t.host.serve (.accept scid dcid peer state)).1, link := .live scid } := by
  refine ⟨h.numbered.serve _, ?_, ?_, ?_, h.tasks, h.replies, by simp⟩
  · simp [h.unattached hl]
  · intro k f flow hf
    have hne : k ≠ scid := by
      rintro rfl
      simp [Host.serve, Server.act, accept, flowAt] at hf
    have hold : t.host.server.flowAt k f = some flow := by
      simpa [Host.serve, Server.act, accept, flowAt, Table.lookup_insert_ite, hne] using hf
    refine ⟨(h.flows k f flow hold).1, ?_⟩
    simp [h.unattached hl, Ne.symm hne]
  · rintro c channel task ⟨⟩ htask hrun hconn
    exact absurd hconn (hu.task task (List.mem_of_getElem? htask) hrun)

theorem TunnelRun.attached {d : Dialed} {rules : RuleTable} {start : Instant} {tr : List Mark} {t : Tunnel}
    (h : TunnelRun Unused d rules start tr t) : Attached t := by
  refine Run.invariant (P := fun _ t => Attached t) (.init rules start) ?_ h
  intro tr t i t' ms _ ih hok hs
  cases step_turn hs with
  | host i t0 host es hin htrans => exact (ih.taken hin).host htrans
  | attach scid dcid peer state hl => exact ih.attach dcid peer state hl (hok.drawn scid rfl)
  | session a t0 hin =>
    obtain ⟨responses, down, rfl⟩ := hin.frame
    exact ⟨ih.1, ih.2, ih.3, ih.4, ih.5, ih.6, ih.7⟩

end ZeroMasque.Tunnel
