import ZeroMasque.Server.Relay
import ZeroMasque.Tunnel.Attachment

/-! The way from a local source to a target socket: the server reads no more
from the session's datagrams than was sent, and the session's tasks write no more
than was read. -/
namespace ZeroMasque.Tunnel
open Foundation Server

/-- Payloads written to target sockets, by task and flow. -/
def writtenOn : Mark → Option ((Nat × UInt64) × Bytes)
  | .written channel flow payload _ => some ((channel, flow), payload)
  | _ => none

/-- Payloads offered to the channels of tasks. -/
def handedOn : Mark → Option ((Nat × UInt64) × Bytes)
  | .reached flow channel payload => some ((channel, flow), payload)
  | _ => none

/-- What waits in the channel of a task of the session. -/
def queued (channel : Nat) (f : UInt64) (t : Tunnel) : Multiset Bytes :=
  if channel ∈ t.mine ∧ t.host.tasks[channel]?.map Task.flow = some f then
    (Host.queueOf t.host.tasks channel : Multiset Bytes)
  else 0

/-- Only the session's own datagrams are offered to its tasks. -/
theorem reached_of_offered {t : Tunnel} (h : Attached t) {i : HostAct} {host : Host}
    {es : List HostEffect} (htrans : Host.Transition t.host i host es) {channel : Nat} {e : HostEffect}
    (he : e ∈ es) {p : Bytes} (ho : Host.offeredAt channel e = some p) :
    ∃ task, t.host.tasks[channel]? = some task ∧
      (channel ∈ t.mine → t.mark e = some (.reached task.flow channel p)) := by
  cases e with
  | server e =>
    cases e with
    | toTarget k f number payload full now =>
      simp only [Host.offeredAt, Option.ite_none_right_eq_some, Option.some.injEq] at ho
      obtain ⟨rfl, rfl⟩ := ho
      obtain ⟨⟨task, htask, rfl⟩, hmine⟩ := h.offered htrans he
      exact ⟨task, htask, fun hm => by simp [mark, hmine.mp hm]⟩
    | _ => cases ho
  | _ => cases ho

/-- A mark of writing is left by the session's own tasks only. -/
theorem written_of_mark {t : Tunnel} {e : HostEffect} {channel : Nat} {f : UInt64} {p : Bytes}
    (h : (t.mark e).bind (keyed writtenOn (channel, f)) = some p) :
    Host.writtenAt channel e = some p ∧ channel ∈ t.mine ∧
      t.host.tasks[channel]?.map Task.flow = some f := by
  obtain ⟨m, hm, hk⟩ := Option.bind_eq_some_iff.mp h
  rw [keyed_eq_some] at hk
  cases m with
  | written number flow payload sent =>
    cases hk
    obtain ⟨rfl, hmine⟩ := mark_written hm
    exact ⟨by simp [Host.writtenAt], hmine⟩
  | _ => cases hk

private theorem queued_le (channel : Nat) (f : UInt64) (t : Tunnel) :
    queued channel f t ≤ Host.queueOf t.host.tasks channel := by
  unfold queued
  split
  · exact le_refl _
  · exact Multiset.zero_le _

/-- A channel that is not the session's for the flow does not become so with
something in it. -/
theorem queued_of_other {t : Tunnel} (h : Attached t) {i : HostAct} {host : Host}
    {es : List HostEffect} (htrans : Host.Transition t.host i host es) {channel : Nat} {f : UInt64}
    (hother : ¬ (channel ∈ t.mine ∧ t.host.tasks[channel]?.map Task.flow = some f)) :
    queued channel f (t.observe host es) = 0 := by
  cases htask : t.host.tasks[channel]? with
  | none =>
    -- a task that is not there yet has an empty queue, and so has a new one
    have hempty : Host.queueOf t.host.tasks channel = [] := by simp [Host.queueOf, htask]
    have hoffered : bag (Host.offeredAt channel) es = 0 := by
      refine bag_eq_zero fun e he => Option.eq_none_iff_forall_ne_some.mpr fun p ho => ?_
      obtain ⟨task, htask', -⟩ := reached_of_offered h htrans he ho
      rw [htask] at htask'
      cases htask'
    have hlaw := htrans.queue channel
    rw [hempty, hoffered] at hlaw
    exact Multiset.le_zero.mp ((queued_le ..).trans ((Multiset.le_add_left _ _).trans hlaw))
  | some task =>
    obtain ⟨task', htask', -, hflow⟩ := htrans.task htask
    refine if_neg ?_
    rintro ⟨hmine, hf⟩
    refine hother ⟨(h.mem_mine_old htrans (List.getElem?_eq_some_iff.mp htask).1).mp hmine, ?_⟩
    simpa [observe, htask, htask', hflow] using hf

private theorem host_queued {t : Tunnel} (h : Attached t) {i : HostAct} {host : Host}
    {es : List HostEffect} (htrans : Host.Transition t.host i host es) (channel : Nat) (f : UInt64) :
    bag (keyed writtenOn (channel, f)) (es.filterMap t.mark) + queued channel f (t.observe host es) ≤
      queued channel f t + bag (keyed handedOn (channel, f)) (es.filterMap t.mark) := by
  rw [bag_filterMap, bag_filterMap]
  by_cases howned : channel ∈ t.mine ∧ t.host.tasks[channel]?.map Task.flow = some f
  · calc bag (fun e => (t.mark e).bind (keyed writtenOn (channel, f))) es + queued channel f (t.observe host es)
        ≤ bag (Host.writtenAt channel) es + Host.queueOf host.tasks channel :=
          add_le_add (bag_le_bag fun e _ p hp => (written_of_mark hp).1) (queued_le ..)
      _ ≤ Host.queueOf t.host.tasks channel + bag (Host.offeredAt channel) es := htrans.queue channel
      _ ≤ queued channel f t + bag (fun e => (t.mark e).bind (keyed handedOn (channel, f))) es := by
          refine add_le_add ?_ (bag_le_bag fun e he p ho => ?_)
          · rw [queued, if_pos howned]
          · obtain ⟨task, htask, hmark⟩ := reached_of_offered h htrans he ho
            have hflow : task.flow = f := by simpa [htask] using howned.2
            rw [hmark howned.1, Option.bind_some, keyed_eq_some, hflow]
            rfl
  · have hwritten : bag (fun e => (t.mark e).bind (keyed writtenOn (channel, f))) es = 0 :=
      bag_eq_zero fun e _ => Option.eq_none_iff_forall_ne_some.mpr fun p hp => howned (written_of_mark hp).2
    rw [hwritten, queued_of_other h htrans howned, zero_add]
    exact Multiset.zero_le _

/-- What is written to the sockets of the session's tasks was handed to them. -/
theorem TunnelRun.written {d : Dialed} {rules : RuleTable} {start : Instant} {tr : List Mark} {t : Tunnel}
    (h : TunnelRun Unused d rules start tr t) : bag writtenOn tr ≤ bag handedOn tr := by
  refine bag_le_of_keyed fun ⟨channel, f⟩ => ?_
  have hbalance : bag (keyed writtenOn (channel, f)) tr + queued channel f t ≤
      bag (keyed handedOn (channel, f)) tr := by
    refine Run.balanced (queued channel f) (by simp [queued, new]) ?_ h
    intro tr t i t' ms hr hok hs
    have hattached := TunnelRun.attached hr
    cases step_turn hs with
    | host i t0 host es hin htrans =>
      have hbefore := hattached.taken hin
      obtain ⟨requests, up, rfl⟩ := hin.frame
      exact host_queued hbefore htrans channel f
    | attach scid dcid peer state hl => simp [queued, hattached.unattached hl]
    | session a t0 hin =>
      obtain ⟨responses, down, rfl⟩ := hin.frame
      rw [bag_session_none (fun _ => rfl), bag_session_none (fun _ => rfl), zero_add, add_zero]
      exact le_refl _
  exact (Multiset.le_add_right _ _).trans hbalance

/-- Payloads the server read from the session's datagrams. -/
def reachedOn : Mark → Option (UInt64 × Bytes)
  | .reached flow _ payload => some (flow, payload)
  | _ => none

private theorem read_of_reached {t : Tunnel} {i : HostAct} {host : Host} {es : List HostEffect}
    (htrans : Host.Transition t.host i host es) {e : HostEffect} (he : e ∈ es) {g : UInt64} {channel : Nat}
    {p : Bytes} (hm : t.mark e = some (.reached g channel p)) :
    ∃ c bytes full, i = .server (.datagram c bytes full) ∧ t.link = .live c ∧
      carried bytes = some (g, p) ∧ es = [e] := by
  obtain ⟨c, full, now, rfl, hl⟩ := mark_reached hm
  rcases htrans.server with ⟨a, -, rfl, hi⟩ | ⟨-, hnone⟩
  · obtain ⟨bytes, parsed, flow, rfl, hd, rfl, rfl, -, -, hes⟩ :=
      (act_emission t.host.server a).toTarget (by simpa using he)
    rcases hi with rfl | ⟨tc, heq⟩
    · exact ⟨c, bytes, full, rfl, hl, by simp [carried, hd], by rw [hes]; rfl⟩
    · cases heq
  · exact absurd he (hnone _)

/-- On a flow, a step hands tasks of the session at most the one datagram it reads. -/
theorem reached_read {t t' : Tunnel} {i : HostAct} {host : Host} {es : List HostEffect} (hin : Taken t i t')
    (htrans : Host.Transition t'.host i host es) (f : UInt64) :
    (es.filterMap t'.mark).filterMap (keyed reachedOn f) = [] ∨
      ∃ c bytes full, i = .server (.datagram c bytes full) ∧ t.link = .live c ∧
        (es.filterMap t'.mark).filterMap (keyed reachedOn f) = (keyed carried f bytes).toList := by
  by_cases hex : ∃ e ∈ es, ∃ g channel p, t'.mark e = some (.reached g channel p)
  · obtain ⟨e, he, g, channel, p, hm⟩ := hex
    obtain ⟨c, bytes, full, rfl, hl, hcarried, rfl⟩ := read_of_reached htrans he hm
    have hlink : t.link = .live c := by
      obtain ⟨requests, up, heq⟩ := hin.frame
      simpa [heq] using hl
    refine .inr ⟨c, bytes, full, rfl, hlink, ?_⟩
    by_cases hg : g = f <;> simp [hm, keyed, hcarried, reachedOn, hg]
  · refine .inl (List.filterMap_eq_nil_iff.mpr fun m hm => ?_)
    obtain ⟨e, he, hmark⟩ := List.mem_filterMap.mp hm
    cases m with
    | reached g channel p => exact absurd ⟨e, he, g, channel, p, hmark⟩ hex
    | _ => rfl

private theorem host_read {t t' : Tunnel} {i : HostAct} {host : Host} {es : List HostEffect}
    (hin : Taken t i t') (htrans : Host.Transition t'.host i host es) (f : UInt64) :
    bag (keyed reachedOn f) (es.filterMap t'.mark) + bag (keyed carried f) t'.up ≤
      bag (keyed carried f) t.up := by
  rcases reached_read hin htrans f with hnone | ⟨c, bytes, full, rfl, hl, hone⟩
  · rw [bag, hnone, Multiset.coe_nil, zero_add]
    cases hin with
    | datagram c bytes full hl hmem =>
      rw [← bag_erase (keyed carried f) hmem]
      exact Multiset.le_add_left _ _
    | _ => exact le_refl _
  · obtain ⟨hmem, rfl⟩ := hin.datagram_mem hl
    rw [bag, hone, ← bag_erase (keyed carried f) hmem]
    cases hkey : keyed carried f bytes <;> simp [hkey]

/-- What the session sends is framed so that the server reads it back. -/
theorem carried_framed {f : UInt64} {e : SessionEffect} {p : Bytes}
    (hsmall : ∀ src g q, e = .sendDatagram src g q → g.toNat < 2 ^ 62)
    (hp : (framed e).bind (keyed carried f) = some p) : keyed Session.sentOn f e = some p := by
  cases e with
  | sendDatagram src g payload =>
    rw [framed, Option.bind_some, keyed_eq_some, carried_encode (hsmall src g payload rfl)] at hp
    rw [keyed_eq_some]
    exact hp
  | _ => cases hp

/-- What the server reads from the session's datagrams was sent, and is read once. -/
theorem TunnelRun.reached {fresh : Tunnel → Scid → Prop} {d : Dialed} {rules : RuleTable} {start : Instant}
    {tr : List Mark} {t : Tunnel} (h : TunnelRun fresh d rules start tr t) :
    bag reachedOn tr ≤ bag (ofSession Session.sentOn) tr := by
  refine bag_le_of_keyed fun f => ?_
  have hbalance : bag (keyed reachedOn f) tr + bag (keyed carried f) t.up ≤
      bag (keyed (ofSession Session.sentOn) f) tr := by
    refine Run.balanced (fun t => bag (keyed carried f) t.up) rfl ?_ h
    intro tr t i t' ms hr hok hs
    have hnext := TunnelRun.session (.next i hr hok hs)
    cases step_turn hs with
    | host i t0 host es hin htrans =>
      rw [bag_host_none, add_zero]
      exact host_read hin htrans f
    | attach scid dcid peer state hl => simp
    | session a t0 hin =>
      rw [seen_append, seen_session] at hnext
      obtain ⟨responses, down, rfl⟩ := hin.frame
      rw [bag_session_none (fun _ => rfl), zero_add, bag_of_map]
      simp only [afterSession, bag_append]
      gcongr
      rw [bag_filterMap]
      refine bag_le_bag fun e he p hp => carried_framed (fun src g q heq => ?_) hp
      exact (hnext.sources.sent src g q (List.mem_append_right _ (heq ▸ he))).small
  exact (Multiset.le_add_right _ _).trans hbalance

end ZeroMasque.Tunnel
