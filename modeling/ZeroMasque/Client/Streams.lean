import ZeroMasque.Client.Traffic
import ZeroMasque.Foundation.Logs
import Mathlib.Data.List.Nodup

/-! The request streams behind the flows of a session. A request leaves the
client's half of its stream open, and no call of the client ever ends it: a flow
that is rejected or ended leaves its stream behind, unless the proxy stopped it. -/
namespace ZeroMasque
open Foundation Session

/-- A session with the request streams whose sending half is open. -/
structure Streams where
  session : Session
  sending : List UInt64

/-- A step of the session, or the peer's STOP_SENDING, which the QUIC library
answers by ending the sending half. -/
inductive StreamAct where
  | session (a : SessionAct)
  | stopSending (stream : UInt64)

namespace Streams

def new : Streams := ⟨Session.new, []⟩

/-- Requests are sent with `fin = false`. -/
def act (d : Dialed) (s : Streams) : StreamAct → Streams × List SessionEffect
  | .session a =>
    let done := s.session.act d a
    (⟨done.1, s.sending ++ done.2.filterMap requestStream⟩, done.2)
  | .stopSending stream => (⟨s.session, s.sending.filter (· ≠ stream)⟩, [])

/-- Some request opened the stream. -/
def Asked (tr : List SessionEffect) (stream : UInt64) : Prop :=
  ∃ src headers, .request src stream headers ∈ tr

/-- The library grants fresh streams; the peer stops streams that were opened. -/
def Admitted (tr : List SessionEffect) : StreamAct → Prop
  | .session a => Granted tr a
  | .stopSending stream => Asked tr stream

abbrev StreamLog (d : Dialed) : List (Turn Streams StreamAct SessionEffect) → Streams → Prop :=
  Run (logged fun s i => some (act d s i)) (fun log _ i => Admitted (effects log) i) new

/-- A step that gives up an open flow leaves the sending half of its stream closed. -/
def Releases (t : Turn Streams StreamAct SessionEffect) : Prop :=
  ∀ f stream, (t.before.session.flows.lookup f).isSome → t.after.session.flows.lookup f = none →
    stream.toNat = f.toNat * 4 → stream ∉ t.after.sending

/-- The flow that a rejection, the end or the reset of a stream is about. -/
def ended : StreamAct → Option UInt64
  | .session (.poll event) => endedBy event
  | _ => none

/-- The response that ends an open flow comes after the peer's STOP_SENDING for
the flow's stream. -/
def StoppedFirst : List (Turn Streams StreamAct SessionEffect) → Prop :=
  Throughout fun pre t => ∀ f, ended t.input = some f → (t.before.session.flows.lookup f).isSome →
    ∃ stream : UInt64, stream.toNat = f.toNat * 4 ∧ ∃ t' ∈ pre, t'.input = .stopSending stream

private theorem StreamLog.session {d : Dialed} {log : List (Turn Streams StreamAct SessionEffect)} {s : Streams}
    (h : StreamLog d log s) : SessionRun d (effects log) s.session := by
  refine Run.invariant (P := fun log s => SessionRun d (effects log) s.session) .init ?_ h
  intro log s i s' ts _ ih hi hs
  obtain ⟨es, hstep, rfl⟩ := logged_eq_some hs
  rw [effects_append, effects_singleton]
  cases i with
  | session a =>
    cases hstep
    exact .next a ih hi rfl
  | stopSending stream =>
    cases hstep
    rwa [List.append_nil]

private theorem mem_requestStream {es : List SessionEffect} {stream : UInt64} :
    stream ∈ es.filterMap requestStream ↔ Asked es stream := by
  rw [List.mem_filterMap]
  constructor
  · rintro ⟨e, he, hstream⟩
    cases e with
    | request src stream' headers =>
      cases hstream
      exact ⟨src, headers, he⟩
    | _ => cases hstream
  · rintro ⟨src, headers, he⟩
    exact ⟨_, he, rfl⟩

private theorem asked_append {tr es : List SessionEffect} {stream : UInt64} :
    Asked (tr ++ es) stream ↔ Asked tr stream ∨ Asked es stream := by
  simp only [Asked, List.mem_append, exists_or]

private theorem openPending_of_asked {d : Dialed} {s : Session} (hc : Coherent s) {a : SessionAct}
    {stream : UInt64} (h : Asked (s.act d a).2 stream) :
    ∃ outcome src, a = .openPending outcome ∧ outcome src = .ok stream := by
  obtain ⟨src, headers, hmem⟩ := h
  have hemitted := act_emitted hc d a
  generalize (s.act d a).2 = es at hmem hemitted
  cases hemitted with
  | requested outcome _ he =>
    obtain ⟨src', stream', heq, hok⟩ := he _ hmem
    cases heq
    exact ⟨outcome, src, rfl, hok⟩
  | released stream' list src' st haccept hf hst => simp at hmem
  | _ => simp at hmem

/-- The streams a step of the session opens were not used before. -/
private theorem not_asked_before {d : Dialed} {tr : List SessionEffect} {s : Session} (hr : SessionRun d tr s)
    {a : SessionAct} (ha : Granted tr a) {stream : UInt64} (hnew : Asked (s.act d a).2 stream) :
    ¬ Asked tr stream := by
  obtain ⟨outcome, src, rfl, hok⟩ := openPending_of_asked hr.sound.1 hnew
  rintro ⟨src', headers, hold⟩
  exact (ha outcome rfl).unused src stream hok src' headers hold

private theorem nodup_requested {d : Dialed} {tr : List SessionEffect} {s : Session} (hr : SessionRun d tr s)
    {a : SessionAct} (ha : Granted tr a) : ((s.act d a).2.filterMap requestStream).Nodup := by
  obtain ⟨hc, hrequested⟩ := hr.sound
  by_cases hopen : ∃ outcome, a = .openPending outcome
  · obtain ⟨outcome, rfl⟩ := hopen
    exact (openPendingFlows_streams d (ha outcome rfl) hc hrequested).1
  · have hnone : (s.act d a).2.filterMap requestStream = [] := by
      refine List.eq_nil_iff_forall_not_mem.mpr fun stream hmem => ?_
      obtain ⟨outcome, -, heq, -⟩ := openPending_of_asked hc (mem_requestStream.mp hmem)
      exact hopen ⟨outcome, heq⟩
    rw [hnone]
    exact List.nodup_nil

/-- A sending half is open exactly if its stream was asked for and never stopped. -/
structure Tracked (log : List (Turn Streams StreamAct SessionEffect)) (s : Streams) : Prop where
  stopped : ∀ t ∈ log, ∀ stream, t.input = .stopSending stream → Asked (effects log) stream
  sending : ∀ stream, stream ∈ s.sending ↔
    Asked (effects log) stream ∧ ∀ t ∈ log, t.input ≠ .stopSending stream
  nodup : s.sending.Nodup

private theorem Tracked.session {d : Dialed} {log : List (Turn Streams StreamAct SessionEffect)} {s : Streams}
    (h : Tracked log s) (hr : SessionRun d (effects log) s.session) {a : SessionAct}
    (ha : Granted (effects log) a) :
    Tracked (log ++ [⟨s, .session a, (s.act d (.session a)).1, (s.act d (.session a)).2⟩])
      (s.act d (.session a)).1 := by
  have hfresh {stream : UInt64} (hnew : Asked (s.session.act d a).2 stream) : ¬ Asked (effects log) stream :=
    not_asked_before hr ha hnew
  refine ⟨?_, fun stream => ?_, ?_⟩
  · intro t ht stream hstop
    rw [effects_append, asked_append]
    rcases List.mem_append.mp ht with hold | hnew
    · exact .inl (h.stopped t hold stream hstop)
    · cases List.mem_singleton.mp hnew
      cases hstop
  · simp only [act, List.mem_append, mem_requestStream, h.sending stream, effects_append, effects_singleton,
      asked_append, List.mem_singleton, or_imp, forall_and, forall_eq, ne_eq, reduceCtorEq, not_false_eq_true,
      and_true]
    constructor
    · rintro (⟨hold, hnever⟩ | hnew)
      · exact ⟨.inl hold, hnever⟩
      · exact ⟨.inr hnew, fun t ht hstop => hfresh hnew (h.stopped t ht stream hstop)⟩
    · rintro ⟨hold | hnew, hnever⟩
      · exact .inl ⟨hold, hnever⟩
      · exact .inr hnew
  · refine List.Nodup.append h.nodup (nodup_requested hr ha) ?_
    intro stream hold hnew
    exact hfresh (mem_requestStream.mp hnew) ((h.sending stream).mp hold).1

private theorem Tracked.stop (d : Dialed) {log : List (Turn Streams StreamAct SessionEffect)} {s : Streams}
    (h : Tracked log s) {x : UInt64} (hx : Asked (effects log) x) :
    Tracked (log ++ [⟨s, .stopSending x, (s.act d (.stopSending x)).1, (s.act d (.stopSending x)).2⟩])
      (s.act d (.stopSending x)).1 := by
  have heffects : effects (log ++ [⟨s, .stopSending x, (s.act d (.stopSending x)).1,
      (s.act d (.stopSending x)).2⟩]) = effects log := by
    rw [effects_append, effects_singleton]
    exact List.append_nil _
  refine ⟨?_, fun stream => ?_, h.nodup.filter _⟩
  · intro t ht stream hstop
    rw [heffects]
    rcases List.mem_append.mp ht with hold | hnew
    · exact h.stopped t hold stream hstop
    · cases List.mem_singleton.mp hnew
      cases hstop
      exact hx
  · rw [heffects]
    simp only [act, List.mem_filter, h.sending stream, decide_eq_true_eq, and_assoc]
    refine and_congr_right fun _ => ⟨?_, ?_⟩
    · rintro ⟨hnever, hne⟩ t ht
      rcases List.mem_append.mp ht with hold | hnew
      · exact hnever t hold
      · cases List.mem_singleton.mp hnew
        rintro ⟨⟩
        exact hne rfl
    · intro hnever
      refine ⟨fun t ht => hnever t (List.mem_append_left _ ht), ?_⟩
      rintro rfl
      exact hnever _ (List.mem_append_right _ List.mem_cons_self) rfl

private theorem StreamLog.tracked {d : Dialed} {log : List (Turn Streams StreamAct SessionEffect)} {s : Streams}
    (h : StreamLog d log s) : Tracked log s := by
  refine Run.invariant (P := fun log s => Tracked log s) ⟨by simp, ?_, List.nodup_nil⟩ ?_ h
  · simp [new, Asked, effects]
  intro log s i s' ts hr ih hi hs
  obtain ⟨es, hstep, rfl⟩ := logged_eq_some hs
  cases i with
  | session a =>
    cases hstep
    exact ih.session (StreamLog.session hr) hi
  | stopSending stream =>
    cases hstep
    exact ih.stop d hi

private theorem stream_of_asked {d : Dialed} {tr : List SessionEffect} {s : Session} (hr : SessionRun d tr s)
    {stream : UInt64} (h : Asked tr stream) : stream.toNat = (stream / 4).toNat * 4 := by
  obtain ⟨src, headers, hmem⟩ := h
  have h4 := hr.sources.quarter src stream headers hmem
  have hn : (4 : UInt64).toNat = 4 := rfl
  rw [UInt64.toNat_div, hn]
  omega

/-- The stream of an open flow was asked for. -/
private theorem asked_of_flow {d : Dialed} {tr : List SessionEffect} {s : Session} (hr : SessionRun d tr s)
    {f : UInt64} (hf : (s.flows.lookup f).isSome) :
    ∃ stream : UInt64, stream.toNat = f.toNat * 4 ∧ Asked tr stream := by
  obtain ⟨src, hsrc⟩ := Option.isSome_iff_exists.mp hf
  obtain ⟨stream, headers, hmem, rfl, -⟩ := hr.sound.2 f src hsrc
  exact ⟨stream, stream_of_asked hr ⟨src, headers, hmem⟩, src, headers, hmem⟩

/-- A step that gives up an open flow reads the response that ends it, and opens
no stream. -/
private theorem ended_of_removed {d : Dialed} {tr : List SessionEffect} {s : Streams}
    (hr : SessionRun d tr s.session) {i : StreamAct} (hi : Admitted tr i) {f : UInt64}
    (hf : (s.session.flows.lookup f).isSome) (hgone : (s.act d i).1.session.flows.lookup f = none) :
    ended i = some f := by
  cases i with
  | session a =>
    obtain ⟨event, rfl, hended⟩ := ended_of_gone d hi hr.sound.1 hr.sound.2 hf hgone
    exact hended
  | stopSending stream =>
    simp only [act] at hgone
    simp [hgone] at hf

private theorem act_of_ended {d : Dialed} {tr : List SessionEffect} {s : Streams}
    (hr : SessionRun d tr s.session) {i : StreamAct} {f : UInt64} (hi : ended i = some f) :
    (s.act d i).1.session.flows.lookup f = none ∧ (s.act d i).1.sending = s.sending := by
  cases i with
  | session a =>
    cases a with
    | poll event =>
      refine ⟨?_, ?_⟩
      · simp only [act, Session.act]
        rw [lookup_flows_onResponse]
        exact if_pos hi
      · have hnone : (s.session.act d (.poll event)).2.filterMap requestStream = [] := by
          refine List.eq_nil_iff_forall_not_mem.mpr fun stream hmem => ?_
          obtain ⟨outcome, -, heq, -⟩ := openPending_of_asked hr.sound.1 (mem_requestStream.mp hmem)
          cases heq
        simp only [act, hnone, List.append_nil]
    | _ => cases hi
  | stopSending stream => cases hi

/-- A step releases the streams it gives up exactly if they were stopped before. -/
private theorem releases_iff {d : Dialed} {pre : List (Turn Streams StreamAct SessionEffect)}
    {t : Turn Streams StreamAct SessionEffect} (h : StreamLog d pre t.before)
    (hi : Admitted (effects pre) t.input) (hafter : t.after = (t.before.act d t.input).1) :
    Releases t ↔ ∀ f, ended t.input = some f → (t.before.session.flows.lookup f).isSome →
      ∃ stream : UInt64, stream.toNat = f.toNat * 4 ∧ ∃ t' ∈ pre, t'.input = .stopSending stream := by
  have hr := StreamLog.session h
  have htracked := StreamLog.tracked h
  constructor
  · intro hrel f hended hf
    obtain ⟨hgone, hsending⟩ := act_of_ended (s := t.before) hr hended
    obtain ⟨stream, hval, hasked⟩ := asked_of_flow hr hf
    have hclosed := hrel f stream hf (by rw [hafter, hgone]) hval
    rw [hafter, hsending, htracked.sending stream] at hclosed
    refine ⟨stream, hval, ?_⟩
    by_contra hnone
    exact hclosed ⟨hasked, fun t' ht' hinput => hnone ⟨t', ht', hinput⟩⟩
  · intro hstop f stream hf hgone hval
    rw [hafter] at hgone
    have hended := ended_of_removed hr hi hf hgone
    obtain ⟨stream', hval', t', ht', hinput⟩ := hstop f hended hf
    obtain rfl : stream' = stream := UInt64.toNat.inj (hval'.trans hval.symm)
    rw [hafter, (act_of_ended hr hended).2, htracked.sending stream']
    rintro ⟨-, hnever⟩
    exact hnever t' ht' hinput

/-- Every open sending half belongs to an open flow, if no flow ended before its
stream was stopped. -/
private theorem flow_of_sending {d : Dialed} {log : List (Turn Streams StreamAct SessionEffect)} {s : Streams}
    (h : StreamLog d log s) (hstop : StoppedFirst log) :
    ∀ stream ∈ s.sending, (s.session.flows.lookup (stream / 4)).isSome := by
  revert hstop
  refine Run.invariant (P := fun log s => StoppedFirst log → ∀ stream ∈ s.sending,
    (s.session.flows.lookup (stream / 4)).isSome) (by simp [new]) ?_ h
  intro log s i s' ts hr ih hi hs hstop stream hmem
  obtain ⟨es, hstep, rfl⟩ := logged_eq_some hs
  have hact : s.act d i = (s', es) := Option.some.inj hstep
  have hbefore : StoppedFirst log := by
    intro pre t post heq
    exact hstop pre t (post ++ [⟨s, i, s', es⟩]) (by simp [heq])
  have hreleases : Releases ⟨s, i, s', es⟩ :=
    (releases_iff (d := d) hr hi (by rw [hact])).mpr (hstop log _ [] rfl)
  by_cases hold : stream ∈ s.sending
  · have hval := stream_of_asked (StreamLog.session hr) ((StreamLog.tracked hr).sending stream |>.mp hold).1
    refine Option.isSome_iff_ne_none.mpr fun hgone => ?_
    exact hreleases (stream / 4) stream (ih hbefore stream hold) hgone hval hmem
  · cases i with
    | session a =>
      cases hact
      rcases List.mem_append.mp hmem with hin | hnew
      · exact absurd hin hold
      · obtain ⟨hc, hrequested⟩ := (StreamLog.session hr).sound
        obtain ⟨outcome, -, rfl, -⟩ := openPending_of_asked hc (mem_requestStream.mp hnew)
        exact (openPendingFlows_streams d (hi outcome rfl) hc hrequested).2 stream hnew
    | stopSending x =>
      cases hact
      exact absurd (List.mem_filter.mp hmem).1 hold

/-- In every run, no flow is given up with its stream left open exactly if the
peer stops every such stream first; and then no more streams are open than the
session has flows. -/
theorem streams_released {d : Dialed} {log : List (Turn Streams StreamAct SessionEffect)} {s : Streams}
    (h : StreamLog d log s) :
    ((∀ t ∈ log, Releases t) ↔ StoppedFirst log) ∧
      (StoppedFirst log → s.sending.length ≤ s.session.flows.entries.length) := by
  have hturn {pre post : List (Turn Streams StreamAct SessionEffect)} {t : Turn Streams StreamAct SessionEffect}
      (heq : log = pre ++ t :: post) := by
    obtain ⟨hpre, hi, hstep⟩ := Run.turn h heq
    exact releases_iff (d := d) hpre hi (by rw [Option.some.inj hstep])
  refine ⟨⟨?_, ?_⟩, ?_⟩
  · intro hall pre t post heq
    exact (hturn heq).mp (hall t (by simp [heq]))
  · intro hstop t ht
    obtain ⟨pre, post, heq⟩ := List.append_of_mem ht
    exact (hturn heq).mpr (hstop pre t post heq)
  · intro hstop
    have htracked := StreamLog.tracked h
    have hquarters : (s.sending.map (· / 4)).Nodup := by
      refine htracked.nodup.map_on fun x hx y hy heq => UInt64.toNat.inj ?_
      have hval {stream : UInt64} (hmem : stream ∈ s.sending) : stream.toNat = (stream / 4).toNat * 4 :=
        stream_of_asked (StreamLog.session h) ((htracked.sending stream).mp hmem).1
      rw [hval hx, hval hy, heq]
    have hkeys : s.sending.map (· / 4) ⊆ s.session.flows.keys := by
      intro f hf
      obtain ⟨stream, hmem, rfl⟩ := List.mem_map.mp hf
      exact AList.lookup_isSome.mp (flow_of_sending h hstop stream hmem)
    have hle := (hquarters.subperm hkeys).length_le
    rwa [List.length_map, AList.keys, List.keys, List.length_map] at hle

def caller : SocketAddr := .v4 0x7f000001 7000

def dialed : Dialed := ⟨"proxy:4433", "/absent"⟩

/-- One request is out on stream 0. -/
def asking : Streams :=
  (drive (act dialed) new
    [.session (.localDatagram caller [1]), .session (.openPending (oneStream caller 0))]).1

def notFound : ResponseEvent := .headers 0 [⟨utf8 ":status", utf8 "404"⟩]

private theorem StoppedFirst.snoc {log : List (Turn Streams StreamAct SessionEffect)}
    {t : Turn Streams StreamAct SessionEffect} (h : StoppedFirst log)
    (ht : ∀ f, ended t.input = some f →
      ∃ stream : UInt64, stream.toNat = f.toNat * 4 ∧ ∃ t' ∈ log, t'.input = .stopSending stream) :
    StoppedFirst (log ++ [t]) := by
  refine Throughout.append ?_ h ?_
  · intro pre ts t' hpre f hended hf
    obtain ⟨stream, hval, t'', hmem, hinput⟩ := hpre f hended hf
    exact ⟨stream, hval, t'', List.mem_append_left _ hmem, hinput⟩
  · intro t' hmem f hended _
    cases List.mem_singleton.mp hmem
    exact ht f hended

private theorem asking_log :
    ∃ log, StreamLog dialed log asking ∧ StoppedFirst log ∧ Asked (effects log) 0 := by
  have hheard : StreamLog dialed _ _ :=
    .next (.session (.localDatagram caller [1])) .init (by rintro _ ⟨⟩) rfl
  have hasked := Run.next (.session (.openPending (oneStream caller 0))) hheard
    (by rintro _ ⟨⟩; exact oneStream_fresh rfl (by decide)) rfl
  refine ⟨_, hasked, StoppedFirst.snoc (StoppedFirst.snoc (Throughout.nil _) ?_) ?_, caller,
    connectHeaders dialed, by decide⟩
  · rintro f ⟨⟩
  · rintro f ⟨⟩

/-- A proxy that stops the stream it rejects. -/
theorem streams_released_stopped :
    ∃ log s, StreamLog dialed log s ∧ (∀ t ∈ log, Releases t) ∧
      s.sending.length ≤ s.session.flows.entries.length ∧
      ∃ t ∈ log, ended t.input = some 0 ∧ (t.before.session.flows.lookup 0).isSome := by
  obtain ⟨log, hlog, hstop, hasked⟩ := asking_log
  have hstopped := Run.next (.stopSending 0) hlog (by exact hasked) rfl
  have hrejected : StreamLog dialed _ _ := Run.next (.session (.poll notFound)) hstopped (by rintro _ ⟨⟩) rfl
  obtain ⟨hiff, hcount⟩ := streams_released hrejected
  suffices hfirst : StoppedFirst _ from
    ⟨_, _, hrejected, hiff.mpr hfirst, hcount hfirst, _, List.mem_append_right _ List.mem_cons_self,
      by decide, by decide⟩
  refine (hstop.snoc ?_).snoc ?_
  · rintro f ⟨⟩
  · intro f hf
    obtain rfl : 0 = f := Option.some.inj hf
    exact ⟨0, rfl, _, List.mem_append_right _ List.mem_cons_self, rfl⟩

/-- A 404 ends the flow and leaves its stream open; no flow is left, one stream is. -/
theorem rejected_stream_left_open :
    ∃ log s, StreamLog dialed log s ∧ (∃ t ∈ log, ¬ Releases t) ∧
      s.session.flows.entries.length < s.sending.length := by
  obtain ⟨log, hlog, -⟩ := asking_log
  have hrejected : StreamLog dialed _ _ := Run.next (.session (.poll notFound)) hlog (by rintro _ ⟨⟩) rfl
  refine ⟨_, _, hrejected, ⟨_, List.mem_append_right _ List.mem_cons_self, ?_⟩, by decide⟩
  intro hreleases
  exact hreleases 0 0 (by decide) (by decide) (by decide) (by decide)

end Streams
end ZeroMasque
