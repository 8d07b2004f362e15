import ZeroMasque.Tunnel.Downstream
import ZeroMasque.Tunnel.Upstream

/-! The tunnel keeps its sources apart. A payload written to a target socket came
from the source that asked for the flow, a payload delivered to a source came from
the target socket of a flow it asked for, and none arrives twice. -/
namespace ZeroMasque.Tunnel
open Foundation Server

/-- Payloads written to target sockets, by the source that asked for the flow. -/
def writtenFor (tr : List Mark) : Mark → Option (Option SocketAddr × Bytes)
  | .written _ flow payload _ => some (Session.owner (seen tr) flow, payload)
  | _ => none

/-- Payloads received from local sources. -/
def receivedFor : Mark → Option (Option SocketAddr × Bytes)
  | .session (.received src payload) => some (some src, payload)
  | _ => none

/-- Seen from one session: what leaves the tunnel at either end went in at the
other for the same source, once, and its datagrams reach no one else's tasks. -/
structure Isolated (tr : List Mark) (t : Tunnel) : Prop where
  upstream : bag (writtenFor tr) tr ≤ bag receivedFor tr
  downstream : bag (ofSession Session.deliveredOn) tr ≤ bag repliedOn tr
  opener : ∀ flow dest payload, .session (.deliver flow dest payload) ∈ tr →
    Session.owner (seen tr) flow = some dest
  offered : ∀ flow channel payload, .reached flow channel payload ∈ tr →
    channel ∈ t.mine ∧ t.host.tasks[channel]?.map Task.flow = some flow

private theorem Isolated.replied {tr : List Mark} {t : Tunnel} (h : Isolated tr t) {f : UInt64} {dest : SocketAddr}
    {p : Bytes} (hm : .session (.deliver f dest p) ∈ tr) : ∃ channel, .replied channel f p ∈ tr := by
  have hmem : (f, p) ∈ bag repliedOn tr := Multiset.mem_of_le h.downstream (mem_bag.mpr ⟨_, hm, rfl⟩)
  obtain ⟨m, hm, heq⟩ := mem_bag.mp hmem
  cases m with
  | replied channel f' p' =>
    cases heq
    exact ⟨channel, hm⟩
  | _ => cases heq

private theorem written_le_received {d : Dialed} {rules : RuleTable} {start : Instant} {tr : List Mark}
    {t : Tunnel} (h : TunnelRun Unused d rules start tr t) :
    bag (writtenFor tr) tr ≤ bag receivedFor tr := by
  have hrun := TunnelRun.session h
  have hsources := hrun.sources
  calc bag (writtenFor tr) tr
      = (bag writtenOn tr).map fun x => (Session.owner (seen tr) x.1.2, x.2) := by
        rw [bag_map]
        congr 1
        funext m
        cases m <;> rfl
    _ ≤ (bag handedOn tr).map fun x => (Session.owner (seen tr) x.1.2, x.2) :=
        Multiset.map_le_map (TunnelRun.written h)
    _ = (bag reachedOn tr).map fun x => (Session.owner (seen tr) x.1, x.2) := by
        rw [bag_map, bag_map]
        congr 1
        funext m
        cases m <;> rfl
    _ ≤ (bag (ofSession Session.sentOn) tr).map fun x => (Session.owner (seen tr) x.1, x.2) :=
        Multiset.map_le_map (TunnelRun.reached h)
    _ ≤ (bag Session.sentBy (seen tr)).map fun x => (some x.1, x.2) := by
        rw [bag_ofSession, bag_map, bag_map]
        refine bag_le_bag fun e he x hx => ?_
        cases e with
        | sendDatagram src f p =>
          cases hx
          simp [Session.sentBy, hsources.owner (hsources.sent src f p he)]
        | _ => cases hx
    _ ≤ (bag Session.receivedFrom (seen tr)).map fun x => (some x.1, x.2) :=
        Multiset.map_le_map hrun.balanced
    _ = bag receivedFor tr := by
        rw [← bag_ofSession, bag_map]
        congr 1
        funext m
        cases m with
        | session e => cases e <;> rfl
        | _ => rfl

private theorem offered_own {d : Dialed} {rules : RuleTable} {start : Instant} {tr : List Mark} {t : Tunnel}
    (h : TunnelRun Unused d rules start tr t) (f : UInt64) (channel : Nat) (p : Bytes)
    (hmem : .reached f channel p ∈ tr) :
    channel ∈ t.mine ∧ t.host.tasks[channel]?.map Task.flow = some f := by
  refine Run.invariant (P := fun tr t => ∀ f channel p, .reached f channel p ∈ tr →
    channel ∈ t.mine ∧ t.host.tasks[channel]?.map Task.flow = some f) (by simp) ?_ h f channel p hmem
  intro tr t i t' ms hr ih hok hs f channel p hmem
  cases step_turn hs with
  | host i t0 host es hin htrans =>
    have hattached := (TunnelRun.attached hr).taken hin
    have hkept (hold : channel ∈ t0.mine ∧ t0.host.tasks[channel]?.map Task.flow = some f) :
        channel ∈ (t0.observe host es).mine ∧
          (t0.observe host es).host.tasks[channel]?.map Task.flow = some f := by
      obtain ⟨task, htask, rfl⟩ := Option.map_eq_some_iff.mp hold.2
      obtain ⟨task', htask', -, hflow⟩ := htrans.task htask
      exact ⟨List.mem_append_left _ hold.1, by simp [observe, htask', hflow]⟩
    rcases List.mem_append.mp hmem with hold | hnew
    · obtain ⟨requests, up, rfl⟩ := hin.frame
      exact hkept (ih f channel p hold)
    · obtain ⟨e, he, hmark⟩ := List.mem_filterMap.mp hnew
      obtain ⟨c, full, now, rfl, hl⟩ := mark_reached hmark
      obtain ⟨⟨task, htask, hid⟩, hmine⟩ := hattached.offered htrans he
      exact hkept ⟨hmine.mpr hl, by simp [htask, hid]⟩
  | attach scid dcid peer state hl =>
    rw [List.append_nil] at hmem
    exact ih f channel p hmem
  | session a t0 hin =>
    obtain ⟨responses, down, rfl⟩ := hin.frame
    rcases List.mem_append.mp hmem with hold | hnew
    · exact ih f channel p hold
    · simp at hnew

/-- Under any interleaving a session is isolated, if every connection id the
server draws is unused by connections, running tasks and waiting replies. -/
theorem tunnel_isolated {d : Dialed} {rules : RuleTable} {start : Instant} {tr : List Mark} {t : Tunnel}
    (h : TunnelRun Unused d rules start tr t) : Isolated tr t := by
  have hsources := (TunnelRun.session h).sources
  refine ⟨written_le_received h, TunnelRun.delivered h, ?_, offered_own h⟩
  intro f dest p hmem
  exact hsources.owner (hsources.delivered f dest p (mem_seen.mpr hmem))

/-- One payload each way. -/
theorem tunnel_isolated_roundTrip :
    ∃ tr t, TunnelRun Unused home shadowedRules 100 tr t ∧ Isolated tr t ∧
      .written 0 0 [1] true ∈ tr ∧ .session (.deliver 0 app [3]) ∈ tr := by
  have hdialed : TunnelRun Unused home shadowedRules 100 _ _ :=
    .next (.attach ours [1] (.v4 0x01010101 4000) ⟨true, false, none⟩) .init
      ⟨by simp, by rintro scid ⟨⟩; exact ⟨rfl, by decide, by decide⟩⟩ rfl
  have hasked := (TunnelRun.extend hdialed [.session (.localDatagram app [1])] (by decide) (by decide)).open
    app (by decide)
  have hback := TunnelRun.extend hasked
    [serveFirst (connectHeaders home), .session (.poll (.headers 0 acceptHeaders)),
      .host (.server (.datagram ours (Dgram.encode 0 [1]) false)), .host (.forward 0 true),
      .host (.receive 0 [.ok [3] false]), .host .reply, .session (.route (Dgram.encode 0 [3]))]
    (by decide) (by decide)
  exact ⟨_, _, hback, tunnel_isolated hback, by decide, by decide⟩

/-- Another client's connection is reaped while a reply for it still waits. The
server draws its id again for the session, and the reply goes to the session's
first source. -/
theorem reply_crosses_on_reused_scid :
    ∃ tr t, TunnelRun (fun t scid => t.host.server.clients.lookup scid = none) home shadowedRules 100 tr t ∧
      .session (.deliver 0 app [1]) ∈ tr ∧ (∀ m ∈ tr, (m matches .replied ..) = false) ∧ ¬ Isolated tr t := by
  have hother : TunnelRun (fun t scid => t.host.server.clients.lookup scid = none) home shadowedRules 100 _ _ :=
    .next (.host (.server (.accept ours [9] (.v4 0x02020202 5000) ⟨true, false, none⟩))) .init
      ⟨by simp, by rintro scid ⟨⟩; rfl⟩ rfl
  have hreaped := TunnelRun.extend hother
    [serveFirst plainRequest, .host (.receive 0 [.ok [1] false]),
      .host (.server (.connections fun _ => ⟨true, true, none⟩)), .host (.server .reap)]
    (by decide) (by decide)
  have hdialed : TunnelRun (fun t scid => t.host.server.clients.lookup scid = none) home shadowedRules 100 _ _ :=
    .next (.attach ours [1] (.v4 0x01010101 4000) ⟨true, false, none⟩) hreaped
      ⟨by simp, by rintro scid ⟨⟩; rfl⟩ rfl
  have hasked := (TunnelRun.extend hdialed [.session (.localDatagram app [5])] (by decide) (by decide)).open
    app (by decide)
  have hcrossed := TunnelRun.extend hasked [.host .reply, .session (.route (Dgram.encode 0 [1]))]
    (by decide) (by decide)
  refine ⟨_, _, hcrossed, by decide, by decide, fun hisolated => ?_⟩
  obtain ⟨channel, hreplied⟩ := hisolated.replied (by decide : Mark.session (.deliver 0 app [1]) ∈ _)
  have hany := (List.any_eq_true (p := fun m => (repliedOn m).isSome)).mpr ⟨_, hreplied, rfl⟩
  revert hany
  decide

end ZeroMasque.Tunnel
