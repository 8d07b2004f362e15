import Mathlib.Data.List.Flatten
import ZeroMasque.Client.Order
import ZeroMasque.Server.Order
import ZeroMasque.Tunnel.Downstream
import ZeroMasque.Tunnel.Upstream

/-! The order of payloads through the whole tunnel. Client and server never let one
payload of a flow overtake another; if the network does not either, a target socket and
a local source get what the other side sent in the order it was sent. -/
namespace ZeroMasque.Tunnel
open Foundation Server
open scoped List

abbrev TunnelTurn := Foundation.Turn Tunnel TunnelAct Mark

/-- Runs of the whole system, every step on record. -/
abbrev TunnelLog (fresh : Tunnel → Scid → Prop) (d : Dialed) (rules : RuleTable) (start : Instant) :
    List TunnelTurn → Tunnel → Prop :=
  Run (logged (step d)) (fun log t i => Admitted fresh (effects log) t i) (new rules start)

section Upstream

/-- What waits in the channel of a task of the session, in order. -/
def queue (channel : Nat) (f : UInt64) (t : Tunnel) : List Bytes :=
  if channel ∈ t.mine ∧ t.host.tasks[channel]?.map Task.flow = some f then Host.queueOf t.host.tasks channel
  else []

private theorem coe_queue (channel : Nat) (f : UInt64) (t : Tunnel) :
    (queue channel f t : Multiset Bytes) = queued channel f t := by
  unfold queue queued
  split <;> rfl

private theorem host_written {t : Tunnel} (h : Attached t) {i : HostAct} {host : Host} {es : List HostEffect}
    (htrans : Host.Transition t.host i host es) (channel : Nat) (f : UInt64) :
    (es.filterMap t.mark).filterMap (keyed writtenOn (channel, f)) ++ queue channel f (t.observe host es) <+
      queue channel f t ++ (es.filterMap t.mark).filterMap (keyed handedOn (channel, f)) := by
  rw [List.filterMap_filterMap, List.filterMap_filterMap]
  by_cases howned : channel ∈ t.mine ∧ t.host.tasks[channel]?.map Task.flow = some f
  · have hwritten : es.filterMap (fun e => (t.mark e).bind (keyed writtenOn (channel, f))) <+
        es.filterMap (Host.writtenAt channel) :=
      filterMap_sublist fun e _ p hp => (written_of_mark hp).1
    have hqueue : queue channel f (t.observe host es) <+ Host.queueOf host.tasks channel := by
      unfold queue
      split
      · exact .refl _
      · exact List.nil_sublist _
    have hhanded : es.filterMap (Host.takenAt t.host.tasks channel) <+
        es.filterMap fun e => (t.mark e).bind (keyed handedOn (channel, f)) := by
      refine filterMap_sublist fun e he p hp => ?_
      obtain ⟨task, htask, hmark⟩ := reached_of_offered h htrans he (Host.offeredAt_of_takenAt hp)
      have hflow : task.flow = f := by simpa [htask] using howned.2
      rw [hmark howned.1, Option.bind_some, keyed_eq_some, hflow]
      rfl
    refine (hwritten.append hqueue).trans ?_
    rw [htrans.channel channel, queue, if_pos howned]
    exact hhanded.append_left _
  · have hwritten : es.filterMap (fun e => (t.mark e).bind (keyed writtenOn (channel, f))) = [] :=
      List.filterMap_eq_nil_iff.mpr fun e _ =>
        Option.eq_none_iff_forall_ne_some.mpr fun p hp => howned (written_of_mark hp).2
    have hqueue : queue channel f (t.observe host es) = [] := by
      have hnone := queued_of_other h htrans howned
      rwa [← coe_queue, Multiset.coe_eq_zero] at hnone
    rw [hwritten, hqueue]
    exact List.nil_sublist _

/-- What is written to the sockets of the session's tasks was handed to them, in order. -/
private theorem TunnelRun.writes {d : Dialed} {rules : RuleTable} {start : Instant} {tr : List Mark} {t : Tunnel}
    (h : TunnelRun Unused d rules start tr t) (channel : Nat) (f : UInt64) :
    tr.filterMap (keyed writtenOn (channel, f)) ++ queue channel f t <+ tr.filterMap (keyed handedOn (channel, f)) := by
  rw [List.filterMap_eq_flatMap_toList, List.filterMap_eq_flatMap_toList]
  refine Run.ordered (queue channel f) (by simp [queue, new]) ?_ h
  intro tr t i t' ms hr hok hs
  rw [← List.filterMap_eq_flatMap_toList, ← List.filterMap_eq_flatMap_toList]
  have hattached := TunnelRun.attached hr
  cases step_turn hs with
  | host i t0 host es hin htrans =>
    have hbefore := hattached.taken hin
    obtain ⟨requests, up, rfl⟩ := hin.frame
    exact host_written hbefore htrans channel f
  | attach scid dcid peer state hl => simp [queue, hattached.unattached hl]
  | session a t0 hin =>
    obtain ⟨responses, down, rfl⟩ := hin.frame
    have hnone {g : Mark → Option ((Nat × UInt64) × Bytes)} (hg : ∀ e, g (.session e) = none) :
        ((t.session.act d a).2.map Mark.session).filterMap (keyed g (channel, f)) = [] := by
      simp [List.filterMap_map, Function.comp_def, keyed, hg]
    rw [hnone fun _ => rfl, hnone fun _ => rfl, List.append_nil]
    exact .refl _

end Upstream

section Downstream

/-- Replies in the server's queue for the session, in order. -/
def awaited (f : UInt64) (t : Tunnel) : List Bytes :=
  match t.link with
  | .live c => t.host.toClient.filterMap (keyed (addressed c) f)
  | _ => []

/-- Payloads of a flow that a step of the server's side puts on the network. -/
def sentDown (f : UInt64) (t : TunnelTurn) : List Bytes :=
  match t.input with
  | .host _ => (t.after.down.drop t.before.down.length).filterMap (keyed carried f)
  | _ => []

private theorem awaited_observe (f : UInt64) (t : Tunnel) {host : Host} (hq : host.toClient <+ t.host.toClient)
    (es : List HostEffect) : awaited f (t.observe host es) <+ awaited f t := by
  simp only [awaited, observe]
  split
  · rename_i c hl
    split at hl
    · cases hl
    · rw [hl]
      exact hq.filterMap _
  · exact List.nil_sublist _

/-- The reply that is first in the queue goes out, or is dropped. -/
private theorem returned_awaited {t : Tunnel} {tc : ToClient} {rest : List ToClient} {host : Host}
    (hq : t.host.toClient = tc :: rest) (hrest : host.toClient = rest) (hsmall : tc.flowId.toNat < 2 ^ 62)
    {es : List Effect} {n : Nat} (hes : Emission t.host.server (.payload tc) es n) (f : UInt64) :
    ((es.map HostEffect.server).filterMap t.datagram).filterMap (keyed carried f) ++
      awaited f (t.observe host (es.map .server)) <+ awaited f t := by
  have hcarried : keyed carried f (Dgram.encode tc.flowId tc.payload) = keyed (addressed tc.connId) f tc := by
    simp [keyed, carried_encode hsmall, addressed]
  cases hes with
  | silent =>
    refine awaited_observe f t ?_ _
    rw [hq, hrest]
    exact List.sublist_cons_self _ _
  | returned =>
    simp only [awaited, observe, hrest, hq]
    cases hl : t.link with
    | live c =>
      by_cases hconn : tc.connId = c
      · subst hconn
        cases hkey : keyed (addressed tc.connId) f tc <;>
          simp [cut, Effect.replaced, List.filterMap_cons, datagram, hl, hcarried, hkey]
      · simp [cut, Effect.replaced, List.filterMap_cons, datagram, hl, Ne.symm hconn, keyed, addressed, hconn]
    | _ => simp [cut, Effect.replaced, List.filterMap_cons, datagram, hl]

/-- What a task reads and queues is marked as the session's. -/
private theorem replied_of_queued {t : Tunnel} (h : Attached t) {channel : Nat} {task : Task}
    (ht : t.host.running channel = some task) (reads : List (Bytes × Bool)) (f : UInt64) {c : Scid}
    (hl : t.link = .live c) :
    ((reads.filter (!·.2)).map fun r => (⟨task.conn, task.flow, r.1⟩ : ToClient)).filterMap (keyed (addressed c) f) <+
      ((reads.map fun r => HostEffect.replied channel r.1 r.2).filterMap t.mark).filterMap (keyed repliedOn f) := by
  obtain ⟨hget, hrun⟩ := Host.running_eq_some ht
  rw [List.filterMap_filterMap, List.filterMap_map, List.filterMap_map]
  refine (List.filter_sublist.filterMap _).trans (filterMap_sublist fun r _ p hp => ?_)
  rw [Function.comp_apply, keyed_eq_some, addressed, Option.ite_none_right_eq_some] at hp
  obtain ⟨hconn, hp⟩ := hp
  cases hp
  have hmine := h.running c channel task hl hget hrun hconn
  simp [mark, hmine, hget, keyed, repliedOn]

private theorem read_awaited {t : Tunnel} (h : Attached t) {channel : Nat} {task : Task}
    (ht : t.host.running channel = some task) {reads : List (Bytes × Bool)} {host : Host}
    (hq : host.toClient = t.host.toClient ++ (reads.filter (!·.2)).map fun r => ⟨task.conn, task.flow, r.1⟩)
    (running : Bool) (f : UInt64) :
    let es := reads.map (fun r => HostEffect.replied channel r.1 r.2) ++
      if running then [] else [HostEffect.ended channel]
    (es.filterMap t.datagram).filterMap (keyed carried f) ++ awaited f (t.observe host es) <+
      awaited f t ++ (es.filterMap t.mark).filterMap (keyed repliedOn f) := by
  intro es
  have hserver (e : Effect) : .server e ∉ es := by
    simp only [es]
    split <;> simp
  have hnone : es.filterMap t.datagram = [] := by
    refine List.filterMap_eq_nil_iff.mpr fun e he => ?_
    cases e with
    | server e => exact absurd he (hserver e)
    | _ => rfl
  rw [observe_task t host hserver, hnone]
  simp only [awaited, List.filterMap_nil, List.nil_append]
  cases hl : t.link with
  | live c =>
    dsimp only
    rw [hq, List.filterMap_append, List.filterMap_append, List.filterMap_append]
    exact ((replied_of_queued h ht reads f hl).trans (List.sublist_append_left _ _)).append_left _
  | _ => exact List.nil_sublist _

private theorem host_awaited {t : Tunnel} (h : Attached t) {i : HostAct} {host : Host} {es : List HostEffect}
    (htrans : Host.Transition t.host i host es) (f : UInt64) :
    (es.filterMap t.datagram).filterMap (keyed carried f) ++ awaited f (t.observe host es) <+
      awaited f t ++ (es.filterMap t.mark).filterMap (keyed repliedOn f) := by
  cases htrans with
  | served a ha =>
    rw [show (t.host.serve a).2 = (t.host.server.act a).2.map .server from rfl, datagram_served ha]
    exact List.sublist_append_of_sublist_left (awaited_observe f t (.refl _) _)
  | returned tc rest hq =>
    refine List.sublist_append_of_sublist_left ?_
    exact returned_awaited hq rfl (h.replies tc (by simp [hq])) (act_emission t.host.server (.payload tc)) f
  | forwarded channel sent task payload queue ht hq =>
    exact List.sublist_append_of_sublist_left (awaited_observe f t (.refl _) _)
  | ended i channel task ht hwhy =>
    exact List.sublist_append_of_sublist_left (awaited_observe f t (.refl _) _)
  | received channel results task ht =>
    exact read_awaited h ht rfl _ f

/-- What the server's side sends on a flow of the session, then what waits for it, is a
part of what the session's tasks received, in order. -/
private theorem TunnelLog.sends {d : Dialed} {rules : RuleTable} {start : Instant} {log : List TunnelTurn} {t : Tunnel}
    (h : TunnelLog Unused d rules start log t) (f : UInt64) :
    log.flatMap (sentDown f) ++ awaited f t <+ (effects log).filterMap (keyed repliedOn f) := by
  rw [effects, List.filterMap_flatMap]
  refine Run.ordered (awaited f) (by simp [awaited, new]) ?_ h
  intro log t i t' ts hr hok hs
  obtain ⟨ms, hstep, rfl⟩ := logged_eq_some hs
  have hattached := TunnelRun.attached (Run.of_log hr)
  rw [List.flatMap_singleton, List.flatMap_singleton]
  cases step_turn hstep with
  | host i t0 host es hin htrans =>
    have hbefore := hattached.taken hin
    obtain ⟨requests, up, rfl⟩ := hin.frame
    have hdown : sentDown f ⟨t, .host i, { t with requests := requests, up := up }.observe host es,
        es.filterMap { t with requests := requests, up := up }.mark⟩ =
          (es.filterMap { t with requests := requests, up := up }.datagram).filterMap (keyed carried f) := by
      simp [sentDown, observe]
    rw [hdown]
    exact host_awaited hbefore htrans f
  | attach scid dcid peer state hl =>
    have hnone : t.host.toClient.filterMap (keyed (addressed scid) f) = [] := by
      refine List.filterMap_eq_nil_iff.mpr fun tc htc => ?_
      simp [keyed, addressed, (hok.drawn scid rfl).reply tc htc]
    simp [sentDown, awaited, Host.serve, hnone, hl]
  | session a t0 hin =>
    obtain ⟨responses, down, rfl⟩ := hin.frame
    exact List.sublist_append_left _ _

end Downstream

private theorem filterMap_ofSession {κ β : Type} [DecidableEq κ] (g : SessionEffect → Option (κ × β)) (k : κ)
    (tr : List Mark) : tr.filterMap (keyed (ofSession g) k) = (seen tr).filterMap (keyed g k) := by
  rw [seen, List.filterMap_filterMap]
  congr 1
  funext m
  cases m <;> rfl

section Network
variable (f : UInt64)

/-- Payloads of a flow in what a step of the session puts on the network. -/
def sentUp (t : TunnelTurn) : List Bytes :=
  match t.input with
  | .session _ => (t.after.up.drop t.before.up.length).filterMap (keyed carried f)
  | _ => []

/-- The payload of a flow in the datagram that a step of the server reads from the
session's connection. -/
def readUp (t : TunnelTurn) : List Bytes :=
  match t.input with
  | .host (.server (.datagram c bytes _)) => if t.before.link = .live c then (keyed carried f bytes).toList else []
  | _ => []

/-- The payload of a flow in the datagram that a step of the session reads. -/
def readDown (t : TunnelTurn) : List Bytes :=
  match t.input with
  | .session (.route bytes) => (keyed carried f bytes).toList
  | _ => []

/-- The network hands the server the datagrams of a flow in the order in which the
session sent them, if at all. -/
def OrderlyUp (log : List TunnelTurn) : Prop := log.flatMap (readUp f) <+ log.flatMap (sentUp f)

/-- The network hands the session the datagrams of a flow in the order in which the
server sent them, if at all. -/
def OrderlyDown (log : List TunnelTurn) : Prop := log.flatMap (readDown f) <+ log.flatMap (sentDown f)

end Network

section Reading
variable {d : Dialed} {rules : RuleTable} {start : Instant} {t t' : Tunnel} {i : TunnelAct} {ms : List Mark}

/-- What the server hands to the session's tasks it read from the session's datagrams. -/
private theorem Turn.reads (h : Turn d t i t' ms) (f : UInt64) :
    ms.filterMap (keyed reachedOn f) <+ readUp f ⟨t, i, t', ms⟩ := by
  cases h with
  | host i t0 host es hin htrans =>
    rcases reached_read hin htrans f with hnone | ⟨c, bytes, full, rfl, hl, hone⟩
    · rw [hnone]
      exact List.nil_sublist _
    · simp [readUp, hl, hone]
  | attach scid dcid peer state hl => exact List.nil_sublist _
  | session a t0 hin =>
    have hnone : ((t0.session.act d a).2.map Mark.session).filterMap (keyed reachedOn f) = [] := by
      simp [List.filterMap_map, Function.comp_def, keyed, reachedOn]
    rw [hnone]
    exact List.nil_sublist _

/-- What the session puts on the network it sent. -/
private theorem Turn.frames (h : Turn d t i t' ms)
    (hsmall : ∀ src g q, .sendDatagram src g q ∈ seen ms → g.toNat < 2 ^ 62) (f : UInt64) :
    sentUp f ⟨t, i, t', ms⟩ <+ ms.filterMap (keyed (ofSession Session.sentOn) f) := by
  cases h with
  | session a t0 hin =>
    rw [seen_session] at hsmall
    obtain ⟨responses, down, rfl⟩ := hin.frame
    simp only [sentUp, afterSession, List.drop_left, List.filterMap_map, List.filterMap_filterMap]
    exact filterMap_sublist fun e he p hp => carried_framed (fun src g q heq => hsmall src g q (heq ▸ he)) hp
  | _ => exact List.nil_sublist _

/-- What the session delivers it read from the server's datagrams. -/
private theorem Turn.delivers (h : Turn d t i t' ms) (hc : Session.Coherent t.session) (f : UInt64) :
    ms.filterMap (keyed (ofSession Session.deliveredOn) f) <+ readDown f ⟨t, i, t', ms⟩ := by
  rw [filterMap_ofSession]
  cases h with
  | host i t0 host es hin htrans =>
    rw [seen_host]
    exact List.nil_sublist _
  | attach scid dcid peer state hl => exact List.nil_sublist _
  | session a t0 hin =>
    rw [seen_session, hin.session_eq]
    rcases delivered_read (d := d) hc a f with hnone | ⟨bytes, rfl, hone⟩
    · rw [hnone]
      exact List.nil_sublist _
    · rw [hone]
      exact .refl _

/-- Every entry of a log is a step from a state that the run had reached. -/
private theorem TunnelLog.turn {log : List TunnelTurn} (h : TunnelLog Unused d rules start log t) {turn : TunnelTurn}
    (hm : turn ∈ log) :
    ∃ tr, TunnelRun Unused d rules start tr turn.before ∧
      TunnelRun Unused d rules start (tr ++ turn.emitted) turn.after ∧
      Turn d turn.before turn.input turn.after turn.emitted := by
  obtain ⟨pre, post, heq⟩ := List.append_of_mem hm
  obtain ⟨hpre, hok, hstep⟩ := Run.turn h heq
  exact ⟨effects pre, Run.of_log hpre, .next _ (Run.of_log hpre) hok hstep, step_turn hstep⟩

private theorem TunnelLog.reads {log : List TunnelTurn} (h : TunnelLog Unused d rules start log t) (f : UInt64) :
    (effects log).filterMap (keyed reachedOn f) <+ log.flatMap (readUp f) := by
  rw [effects, List.filterMap_flatMap]
  refine List.Sublist.flatMap_right log fun turn hm => ?_
  obtain ⟨tr, -, -, hturn⟩ := TunnelLog.turn h hm
  exact hturn.reads f

private theorem TunnelLog.frames {log : List TunnelTurn} (h : TunnelLog Unused d rules start log t) (f : UInt64) :
    log.flatMap (sentUp f) <+ (effects log).filterMap (keyed (ofSession Session.sentOn) f) := by
  rw [effects, List.filterMap_flatMap]
  refine List.Sublist.flatMap_right log fun turn hm => ?_
  obtain ⟨tr, -, hafter, hturn⟩ := TunnelLog.turn h hm
  refine hturn.frames (fun src g q hsent => ?_) f
  have hseen : .sendDatagram src g q ∈ seen (tr ++ turn.emitted) := by
    rw [seen_append]
    exact List.mem_append_right _ hsent
  exact ((TunnelRun.session hafter).sources.sent src g q hseen).small

private theorem TunnelLog.delivers {log : List TunnelTurn} (h : TunnelLog Unused d rules start log t) (f : UInt64) :
    (effects log).filterMap (keyed (ofSession Session.deliveredOn) f) <+ log.flatMap (readDown f) := by
  rw [effects, List.filterMap_flatMap]
  refine List.Sublist.flatMap_right log fun turn hm => ?_
  obtain ⟨tr, hbefore, -, hturn⟩ := TunnelLog.turn h hm
  exact hturn.delivers (TunnelRun.session hbefore).sound.1 f

end Reading

/-- Payloads the session received from a source. -/
def receivedBy (src : SocketAddr) : Mark → Option Bytes := keyed (ofSession Session.receivedFrom) src

/-- End to end, under any interleaving: on a flow whose datagrams the network keeps in
order, every target socket of the flow is written a part of what the flow's source
sent, in order; and the source is delivered a part of what came from the target
sockets, in order. -/
theorem tunnel_in_order {d : Dialed} {rules : RuleTable} {start : Instant} {log : List TunnelTurn} {t : Tunnel}
    (h : TunnelLog Unused d rules start log t) (f : UInt64) :
    (OrderlyUp f log → ∀ channel src, Session.owner (seen (effects log)) f = some src →
      (effects log).filterMap (keyed writtenOn (channel, f)) <+ (effects log).filterMap (receivedBy src)) ∧
    (OrderlyDown f log →
      (effects log).filterMap (keyed (ofSession Session.deliveredOn) f) <+
        (effects log).filterMap (keyed repliedOn f)) := by
  have hrun : TunnelRun Unused d rules start (effects log) t := Run.of_log h
  have hsession := TunnelRun.session hrun
  refine ⟨fun hup channel src howner => ?_, fun hdown => ?_⟩
  · have hsources := hsession.sources
    calc (effects log).filterMap (keyed writtenOn (channel, f))
        <+ (effects log).filterMap (keyed handedOn (channel, f)) :=
          (List.sublist_append_left _ _).trans (TunnelRun.writes hrun channel f)
      _ <+ (effects log).filterMap (keyed reachedOn f) := filterMap_sublist fun m _ p hp => by
          rw [keyed_eq_some] at hp ⊢
          cases m with
          | reached flow number payload =>
            cases hp
            rfl
          | _ => cases hp
      _ <+ log.flatMap (readUp f) := TunnelLog.reads h f
      _ <+ log.flatMap (sentUp f) := hup
      _ <+ (effects log).filterMap (keyed (ofSession Session.sentOn) f) := TunnelLog.frames h f
      _ <+ (effects log).filterMap (keyed (ofSession Session.sentBy) src) := filterMap_sublist fun m hm p hp => by
          rw [keyed_eq_some] at hp ⊢
          cases m with
          | session e =>
            cases e with
            | sendDatagram src' flow payload =>
              cases hp
              have howned := hsources.owner (hsources.sent src' f p (mem_seen.mpr hm))
              rw [howner] at howned
              cases howned
              rfl
            | _ => cases hp
          | _ => cases hp
      _ <+ (effects log).filterMap (receivedBy src) := by
          rw [receivedBy, filterMap_ofSession, filterMap_ofSession]
          exact (List.sublist_append_left _ _).trans (hsession.ordered src)
  · calc (effects log).filterMap (keyed (ofSession Session.deliveredOn) f)
        <+ log.flatMap (readDown f) := TunnelLog.delivers h f
      _ <+ log.flatMap (sentDown f) := hdown
      _ <+ (effects log).filterMap (keyed repliedOn f) :=
          (List.sublist_append_left _ _).trans (TunnelLog.sends h f)

theorem TunnelLog.extend {fresh : Tunnel → Scid → Prop} {d : Dialed} {rules : RuleTable}
    {start : Instant} {log : List TunnelTurn} {t : Tunnel} (hr : TunnelLog fresh d rules start log t)
    (is : List TunnelAct) (hq : is.all TunnelAct.quiet = true) (h : (attempt (logged (step d)) t is).isSome) :
    TunnelLog fresh d rules start (log ++ ((attempt (logged (step d)) t is).get h).2)
      ((attempt (logged (step d)) t is).get h).1 :=
  Run.extend hr is (fun i hi log t => .quiet (List.all_eq_true.mp hq i hi) (effects log) t) h

/-- Two payloads go up and two come back, one after the other. -/
theorem tunnel_in_order_pairs :
    ∃ log t, TunnelLog Unused home shadowedRules 100 log t ∧
      ((effects log).filterMap (keyed writtenOn (0, 0)) = [[1], [2]] ∧
        (effects log).filterMap (keyed writtenOn (0, 0)) <+ (effects log).filterMap (receivedBy app)) ∧
      (effects log).filterMap (keyed (ofSession Session.deliveredOn) 0) = [[3], [4]] ∧
      (effects log).filterMap (keyed (ofSession Session.deliveredOn) 0) <+
        (effects log).filterMap (keyed repliedOn 0) := by
  have hdialed : TunnelLog Unused home shadowedRules 100 _ _ :=
    .next (.attach ours [1] (.v4 0x01010101 4000) ⟨true, false, none⟩) .init
      ⟨by simp, by rintro scid ⟨⟩; exact ⟨rfl, by decide, by decide⟩⟩ rfl
  have hlocal := TunnelLog.extend hdialed
    [.session (.localDatagram app [1]), .session (.localDatagram app [2])] (by decide) (by decide)
  have hasked : TunnelLog Unused home shadowedRules 100 _ _ :=
    .next (.session (.openPending (Session.oneStream app 0))) hlocal
      ⟨by rintro a ⟨⟩ outcome ⟨⟩; exact Session.oneStream_fresh rfl (by decide), by simp [TunnelAct.drawn]⟩ rfl
  have hback := TunnelLog.extend hasked
    [serveFirst (connectHeaders home), .session (.poll (.headers 0 acceptHeaders)),
      .host (.server (.datagram ours (Dgram.encode 0 [1]) false)),
      .host (.server (.datagram ours (Dgram.encode 0 [2]) false)), .host (.forward 0 true), .host (.forward 0 true),
      .host (.receive 0 [.ok [3] false, .ok [4] false]), .host .reply, .host .reply,
      .session (.route (Dgram.encode 0 [3])), .session (.route (Dgram.encode 0 [4]))]
    (by decide) (by decide)
  obtain ⟨hup, hdown⟩ := tunnel_in_order hback 0
  exact ⟨_, _, hback, ⟨by decide, hup (by unfold OrderlyUp; decide) 0 app (by decide)⟩, by decide,
    hdown (by unfold OrderlyDown; decide)⟩

end ZeroMasque.Tunnel
