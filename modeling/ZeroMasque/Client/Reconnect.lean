import ZeroMasque.Client.Loop

/-! What holds over all sessions of a client: how long it waits between them, that
each starts afresh, and what becomes of the datagrams of the local socket. -/
namespace ZeroMasque.Proxy
open Foundation Io Session
open scoped List

section Waits

/-- The end of a session: whether it had been established, and the wait after it. -/
def downs : ProxyEffect → Option (Bool × Nat)
  | .down established wait => some (established, wait)
  | _ => none

/-- How many waits there were since the tunnel was last up, or since the start. -/
def streak (outcomes : List Bool) : Nat :=
  outcomes.foldl (fun n established => if established then 1 else n + 1) 0

/-- The wait after so many others. -/
def capped (n : Nat) : Nat := min (reconnectMin * 2 ^ n) reconnectMax

private theorem capped_succ (n : Nat) : min (capped n * 2) reconnectMax = capped (n + 1) := by
  simp only [capped, pow_succ, reconnectMin, reconnectMax]
  omega

private theorem streak_append (outcomes : List Bool) (established : Bool) :
    streak (outcomes ++ [established]) = (if established then 0 else streak outcomes) + 1 := by
  cases established <;> simp [streak]

/-- The wait that will follow the next failure. -/
def nextWait (p : Proxy) : Nat :=
  match p.phase with
  | .sleeping => min (p.backoff * 2) reconnectMax
  | _ => p.backoff

/-- An end of a session, with those before it. -/
def Scheduled (pre : List (Bool × Nat)) (e : Bool × Nat) : Prop :=
  e.2 = capped (if e.1 then 0 else streak (pre.map Prod.fst))

structure Timed (tr : List ProxyEffect) (p : Proxy) : Prop where
  past : Throughout Scheduled (tr.filterMap downs)
  next : p.nextWait = capped (streak ((tr.filterMap downs).map Prod.fst))

/-- A step between the ends of two sessions. -/
private theorem Timed.quiet {tr es : List ProxyEffect} {p p' : Proxy} (h : Timed tr p)
    (hes : es.filterMap downs = []) (hp : p'.nextWait = p.nextWait) : Timed (tr ++ es) p' := by
  have hsame : (tr ++ es).filterMap downs = tr.filterMap downs := by
    rw [List.filterMap_append, hes, List.append_nil]
  exact ⟨hsame ▸ h.past, by rw [hsame, hp, h.next]⟩

/-- The step in which a session ends. -/
private theorem Timed.down {tr es : List ProxyEffect} {p q : Proxy} (h : Timed tr p) (hq : q.backoff = p.backoff)
    (hawake : p.nextWait = p.backoff) {established : Bool} (hes : es.filterMap downs = []) :
    Timed (tr ++ (es ++ (q.down established).2)) (q.down established).1 := by
  have hwait : (if established then reconnectMin else q.backoff) =
      capped (if established then 0 else streak ((tr.filterMap downs).map Prod.fst)) := by
    cases established with
    | true => rfl
    | false => simpa [hq, hawake] using h.next
  have hdowns : (tr ++ (es ++ (q.down established).2)).filterMap downs =
      tr.filterMap downs ++ [(established, if established then reconnectMin else q.backoff)] := by
    rw [List.filterMap_append, List.filterMap_append, hes]
    rfl
  refine ⟨hdowns ▸ h.past.snoc hwait, ?_⟩
  rw [hdowns, List.map_append, List.map_singleton, streak_append, ← capped_succ, ← hwait]
  rfl

/-- A reading that ignores the calls of the QUIC connection ignores what comes before
the session's turn. -/
private theorem calls_ignored {β : Type} (live : Live) (r : Round) {g : ProxyEffect → β} {b : β}
    (hrecv : ∀ d, g (.recv d) = b) (htimeout : g .onTimeout = b) (hack : g .sendAckEliciting = b) :
    ∀ e ∈ live.calls r, g e = b := by
  intro e he
  simp only [Live.calls, List.mem_append, List.mem_map] at he
  rcases he with (⟨d, -, rfl⟩ | he) | he
  · exact hrecv d
  · split_ifs at he <;> simp at he
    rw [he, htimeout]
  · split_ifs at he <;> simp at he
    rw [he, hack]

private theorem downs_map {α : Type} (g : α → ProxyEffect) (hg : ∀ a, downs (g a) = none) (as : List α) :
    (as.map g).filterMap downs = [] := by
  rw [List.filterMap_eq_nil_iff]
  intro e he
  obtain ⟨a, -, rfl⟩ := List.mem_map.mp he
  exact hg a

private theorem Timed.move {d : Dialed} {tr es : List ProxyEffect} {p p' : Proxy} {i : ProxyAct} (h : Timed tr p)
    (hm : Move d p i p' es) : Timed (tr ++ es) p' := by
  have hcalls (live : Live) (r : Round) : (live.calls r).filterMap downs = [] :=
    List.filterMap_eq_nil_iff.mpr (calls_ignored live r (fun _ => rfl) rfl rfl)
  cases hm with
  | locals a t es ha hs => exact h.quiet (downs_map _ (fun _ => rfl) es) rfl
  | packets live a t es hp => exact h.quiet (downs_map _ (fun _ => rfl) es) (by simp [nextWait, hp])
  | connected hp => exact h.quiet rfl (by simp [nextWait, hp])
  | refused outcome hp => exact h.down rfl (by simp [nextWait, hp]) List.filterMap_nil
  | ended live r hp => exact h.down rfl (by simp [nextWait, hp]) List.filterMap_nil
  | broken live r hp =>
    refine h.down (q := p.drained) rfl (by simp [nextWait, hp]) ?_
    rw [List.filterMap_append, hcalls, downs_map _ fun _ => rfl, List.append_nil]
  | served live r hp =>
    refine h.quiet ?_ (by simp [nextWait, drained, hp])
    rw [List.filterMap_append, hcalls, downs_map _ fun _ => rfl, List.append_nil]
  | unflushed live r hp =>
    refine h.down (q := p.drained) rfl (by simp [nextWait, hp]) ?_
    rw [List.filterMap_append, hcalls, downs_map _ fun _ => rfl, List.append_nil]
  | slept hp => exact h.quiet rfl (by simp [nextWait, hp])

/-- Whatever happens, the wait after a session is 100 ms if the tunnel had come up,
and otherwise doubles with every wait since it last was up, up to 5 s. -/
theorem reconnect_schedule {d : Dialed} {tr : List ProxyEffect} {p : Proxy}
    (hr : Run (step d) (fun _ _ _ => True) start tr p) : Throughout Scheduled (tr.filterMap downs) := by
  have htimed : Timed tr p := by
    refine Run.invariant (P := Timed) ⟨Throughout.nil _, rfl⟩ ?_ hr
    intro tr p i p' es _ ih _ hs
    exact ih.move (step_move hs)
  exact htimed.past

/-- A round in which nothing is ready and nothing can be requested. -/
def idleRound (closed : Bool) : Round :=
  ⟨.keepalive, closed, false, false, fun _ => .streamBlocked, [], [], true⟩

/-- A round in which the tunnel comes up and the first request is answered. -/
def openingRound (src : SocketAddr) : Round :=
  ⟨.timeout, false, true, true, oneStream src 0, [.headers 0 [⟨utf8 ":status", utf8 "200"⟩]],
    [Dgram.encode 0 [9]], true⟩

def endpoint : Dialed := ⟨"proxy:4433", "/masque"⟩

def peer : SocketAddr := .v4 0x7f000001 9000

/-- Two failures, a session that comes up, and another failure. -/
theorem reconnect_schedule_resets :
    ∃ tr p, Run (step endpoint) (fun _ _ _ => True) start tr p ∧
      tr.filterMap downs = [(false, 100), (false, 200), (true, 100), (false, 200)] ∧
      Throughout Scheduled (tr.filterMap downs) := by
  have hrun : Run (step endpoint) (fun _ _ _ => True) start _ _ :=
    Run.extend .init [.connect .dialFailed, .slept, .connect .flushFailed, .slept, .connect .ok,
      .round (openingRound peer), .round (idleRound true), .slept, .connect .dialFailed]
      (fun _ _ _ _ => trivial) (by decide)
  exact ⟨_, _, hrun, by decide, reconnect_schedule hrun⟩

end Waits

section Sessions
variable {d : Dialed}

/-- The effects of the session that runs, or ran last. -/
def current (tr : List ProxyEffect) : List SessionEffect :=
  tr.foldl (fun es e =>
    match e with
    | .connected => []
    | .session e => es ++ [e]
    | _ => es) []

def ofSession : ProxyEffect → Option SessionEffect
  | .session e => some e
  | _ => none

private theorem current_append (tr : List ProxyEffect) {es : List ProxyEffect} (h : .connected ∉ es) :
    current (tr ++ es) = current tr ++ es.filterMap ofSession := by
  induction es using List.reverseRecOn with
  | nil => simp
  | append_singleton es e ih =>
    have hold := ih fun hmem => h (List.mem_append_left _ hmem)
    rw [← List.append_assoc, List.filterMap_append, ← List.append_assoc, ← hold, current, List.foldl_append]
    cases e with
    | connected => simp at h
    | session e => rfl
    | _ => exact (List.append_nil _).symm

private theorem connected_not_mem_calls (live : Live) (r : Round) : .connected ∉ live.calls r := by
  intro hmem
  have hfalse := calls_ignored live r (g := fun e => (e matches .connected)) (fun _ => rfl) rfl rfl _ hmem
  cases hfalse

/-- The requests of a session get fresh streams. -/
def Streamed (tr : List ProxyEffect) (i : ProxyAct) : Prop :=
  ∀ r, i = .round r → FreshStreams (current tr) r.outcome

abbrev StreamedRun (d : Dialed) : List ProxyEffect → Proxy → Prop :=
  Run (step d) (fun tr _ i => Streamed tr i) start

/-- What the surroundings may offer besides: local datagrams that the reader can take
apart. -/
structure Offered (tr : List ProxyEffect) (i : ProxyAct) : Prop where
  streams : Streamed tr i
  runs : ∀ run, i = .locals (.arrive run) → Exact recvBuf run

abbrev ProxyRun (d : Dialed) : List ProxyEffect → Proxy → Prop :=
  Run (step d) (fun tr _ i => Offered tr i) start

/-- Nothing was asked of the proxy server yet. -/
def Early (tr : List SessionEffect) : Prop := ∀ e ∈ tr, ∃ src data, e = .received src data

/-- Without a request there is no flow to send on. -/
private theorem act_early {tr : List SessionEffect} {s : Session} (hr : SessionRun d tr s) (he : Early tr)
    (src : SocketAddr) (data : Bytes) : Early (tr ++ (s.act d (.localDatagram src data)).2) := by
  obtain ⟨hc, hrequested⟩ := hr.sound
  have hemitted := act_emitted hc d (.localDatagram src data)
  generalize (s.act d (.localDatagram src data)).2 = es at hemitted
  cases hemitted with
  | buffered =>
    intro e hmem
    rcases List.mem_append.mp hmem with hold | hnew
    · exact he e hold
    · exact ⟨src, data, List.mem_singleton.mp hnew⟩
  | forwarded _ _ st f hst hest hid =>
    obtain ⟨stream, headers, hmem, -⟩ := hrequested f src ((hc.inverse f src).mpr ⟨st, hst, hid⟩)
    obtain ⟨_, _, heq⟩ := he _ hmem
    cases heq

private theorem drive_early {tr : List SessionEffect} {s : Session} (hr : SessionRun d tr s) (he : Early tr)
    (locals : List (SocketAddr × Bytes)) :
    Early (tr ++ (drive (act d) s (locals.map fun l => .localDatagram l.1 l.2)).2) := by
  induction locals generalizing tr s with
  | nil => simpa using he
  | cons l locals ih =>
    rw [List.map_cons, drive_cons, ← List.append_assoc]
    exact ih (.next (.localDatagram l.1 l.2) hr nofun rfl) (act_early hr he l.1 l.2)

/-- The session in progress, relative to its own trace. -/
structure Sound (d : Dialed) (tr : List ProxyEffect) (live : Live) : Prop where
  run : SessionRun d (current tr) live.session
  flags : live.established = live.http3
  early : live.http3 = false → Early (current tr)

private theorem Sound.served {tr : List ProxyEffect} {live : Live} (h : Sound d tr live) {r : Round}
    (hfresh : FreshStreams (current tr) r.outcome) (taken : List Datagram) :
    Sound d (tr ++ (live.calls r ++ (live.emitted d r taken).map .session)) (live.after d r taken) := by
  have hcurrent : current (tr ++ (live.calls r ++ (live.emitted d r taken).map .session)) =
      current tr ++ live.emitted d r taken := by
    rw [current_append, List.filterMap_append,
      List.filterMap_eq_nil_iff.mpr (calls_ignored live r (fun _ => rfl) rfl rfl)]
    · simp [List.filterMap_map, Function.comp_def, ofSession]
    · simp [connected_not_mem_calls]
  refine ⟨?_, ?_, fun hearly => ?_⟩
  · rw [hcurrent]
    exact h.run.pass (live.pass r taken) fun _ => hfresh
  · simp only [Live.after, Live.upgrade]
    split
    · rfl
    · exact h.flags
  · have hup : (live.upgrade r).http3 = false := hearly
    have hbefore : live.http3 = false := by
      unfold Live.upgrade at hup
      split_ifs at hup
      exact hup
    have hacts : (live.pass r taken).acts = (taken.map Prod.swap).map fun l => .localDatagram l.1 l.2 := by
      simp [Pass.acts, Live.pass, hup]
    rw [hcurrent, Live.emitted, hacts]
    exact drive_early h.run (h.early hbefore) _

private theorem Sound.move {tr es : List ProxyEffect} {p p' : Proxy} {i : ProxyAct}
    (h : ∀ live, p.phase = .running live → Sound d tr live) (hi : Streamed tr i) (hm : Move d p i p' es) :
    ∀ live, p'.phase = .running live → Sound d (tr ++ es) live := by
  have hquiet {es : List ProxyEffect} (hconnected : .connected ∉ es) (hsession : es.filterMap ofSession = []) :
      current (tr ++ es) = current tr := by
    rw [current_append tr hconnected, hsession, List.append_nil]
  intro live' hp'
  cases hm with
  | locals a t es ha hs =>
    have hsame : current (tr ++ es.map .locals) = current tr :=
      hquiet (by simp) (by simp [List.filterMap_map, Function.comp_def, ofSession])
    obtain ⟨hrun, hflags, hearly⟩ := h live' hp'
    exact ⟨hsame ▸ hrun, hflags, hsame ▸ hearly⟩
  | packets live a t es hp =>
    have hsame : current (tr ++ es.map .packets) = current tr :=
      hquiet (by simp) (by simp [List.filterMap_map, Function.comp_def, ofSession])
    obtain ⟨hrun, hflags, hearly⟩ := h live hp
    cases hp'
    exact ⟨hsame ▸ hrun, hflags, hsame ▸ hearly⟩
  | connected hp =>
    cases hp'
    have hnew : current (tr ++ [.connected]) = [] := by simp [current]
    exact ⟨hnew ▸ .init, rfl, fun _ => by simp [hnew, Early]⟩
  | served live r hp =>
    cases hp'
    exact (h live hp).served (hi r rfl) _
  | refused | ended | broken | unflushed | slept => cases hp'

private theorem Offered.quiet {tr : List ProxyEffect} {i : ProxyAct} (hround : ∀ r, i ≠ .round r)
    (harrive : ∀ run, i ≠ .locals (.arrive run)) : Offered tr i :=
  ⟨fun r h => absurd h (hround r), fun run h => absurd h (harrive run)⟩

private theorem Offered.idle (tr : List ProxyEffect) (closed : Bool) : Offered tr (.round (idleRound closed)) := by
  refine ⟨fun r h => ?_, nofun⟩
  cases h
  exact ⟨nofun, nofun, nofun⟩

private theorem Offered.opening {tr : List ProxyEffect} (h : current tr = []) :
    Offered tr (.round (openingRound peer)) := by
  refine ⟨fun r hr => ?_, nofun⟩
  cases hr
  rw [h]
  exact oneStream_fresh rfl (by simp)

/-- One datagram of the local application. -/
def single (payload : UInt8) : CoalescedRun where
  peer := peer
  segment := 1
  datagrams := [[payload]]
  nonempty := List.cons_ne_nil _ _
  segmented := Nat.le_refl 1
  bounded := by simp

private theorem Offered.single (tr : List ProxyEffect) (payload : UInt8) :
    Offered tr (.locals (.arrive (single payload))) := by
  refine ⟨nofun, fun run h => ?_⟩
  cases h
  exact (exact_iff_split recvBuf _).mpr (split_of_fits (Nat.le_add_left 1 65534) (.inl rfl))

/-- A datagram comes, the tunnel comes up, and an answer comes back. -/
def opening : List ProxyAct :=
  [.locals (.arrive (single 1)), .locals (.wake [] fun _ => false), .connect .ok, .round (openingRound peer)]

/-- The same; then the connection is closed, and another datagram comes before the next
one is there. -/
def reopening : List ProxyAct :=
  opening ++ [.round (idleRound true), .locals (.arrive (single 2)), .locals (.wake [] fun _ => false), .slept,
    .connect .ok]

private theorem opening_permitted : Permitted (step endpoint) (fun tr _ i => Streamed tr i) [] start opening :=
  ⟨nofun, nofun, nofun, (Offered.opening rfl).streams, trivial⟩

private theorem reopening_permitted :
    Permitted (step endpoint) (fun tr _ i => Offered tr i) [] start reopening :=
  ⟨.single _ 1, .quiet nofun nofun, .quiet nofun nofun, .opening rfl, .idle _ true, .single _ 2,
    .quiet nofun nofun, .quiet nofun nofun, .quiet nofun nofun, trivial⟩

private theorem StreamedRun.sound {tr : List ProxyEffect} {p : Proxy} (hr : StreamedRun d tr p) :
    ∀ live, p.phase = .running live → Sound d tr live := by
  refine Run.invariant (P := fun tr p => ∀ live, p.phase = .running live → Sound d tr live) ?_ ?_ hr
  · intro live hp
    cases hp
  · intro tr p i p' es _ ih hi hs
    exact Sound.move ih hi (step_move hs)

/-- A session with the proxy server starts from nothing. Until HTTP/3 is up it only
buffers, `established` says that it is up, and every datagram that goes into the
tunnel or out of it is on a flow that this session asked for, for that local address. -/
theorem sessions_separate {tr : List ProxyEffect} {p : Proxy} (hr : StreamedRun d tr p) {live : Live}
    (hp : p.phase = .running live) :
    live.established = live.http3 ∧ (live.http3 = false → Early (current tr)) ∧ Coherent live.session ∧
    (∀ src f payload, .sendDatagram src f payload ∈ current tr → owner (current tr) f = some src) ∧
    ∀ f dest payload, .deliver f dest payload ∈ current tr → owner (current tr) f = some dest := by
  have hsound := hr.sound live hp
  have hsources := hsound.run.sources
  refine ⟨hsound.flags, hsound.early, hsound.run.sound.1, ?_, ?_⟩
  · intro src f payload hmem
    exact hsources.owner (hsources.sent src f payload hmem)
  · intro f dest payload hmem
    exact hsources.owner (hsources.delivered f dest payload hmem)

theorem sessions_separate_opened :
    ∃ tr p live, StreamedRun endpoint tr p ∧ p.phase = .running live ∧ live.established = true ∧
      .sendDatagram peer 0 [1] ∈ current tr ∧ .deliver 0 peer [9] ∈ current tr ∧
      owner (current tr) 0 = some peer := by
  have hrun : StreamedRun endpoint _ _ := Run.of_permitted opening opening_permitted (by decide)
  obtain ⟨-, -, -, -, hdelivered⟩ := sessions_separate hrun rfl
  exact ⟨_, _, _, hrun, rfl, rfl, by decide, by decide, hdelivered 0 peer [9] (by decide)⟩

end Sessions

section Locals
variable {d : Dialed}

private theorem ProxyRun.sound {tr : List ProxyEffect} {p : Proxy} (hr : ProxyRun d tr p) :
    ∀ live, p.phase = .running live → Sound d tr live :=
  StreamedRun.sound (hr.mono fun _ _ _ hi => hi.streams)

private theorem ProxyRun.exact {tr : List ProxyEffect} {p : Proxy} (hr : ProxyRun d tr p) :
    ∀ run ∈ p.locals.backlog, Exact recvBuf run := by
  refine Run.invariant (P := fun _ p => ∀ run ∈ p.locals.backlog, Exact recvBuf run) ?_ ?_ hr
  · intro run hrun
    cases hrun
  · intro tr p i p' es _ ih hi hs
    cases step_move hs with
    | locals a t es ha hstep =>
      refine RecvTask.step_exact ih (fun run hrun => hi.runs run ?_) hstep
      rw [hrun]
    | _ => exact ih

/-- Datagrams that are taken from the local socket, for a session or in vain. -/
def dispatched : ProxyEffect → List Datagram
  | .session e => ((receivedFrom e).map Prod.swap).toList
  | .lost d => [d]
  | _ => []

/-- Datagrams that come to the local socket. -/
def came : ProxyEffect → List Datagram
  | .locals e => RecvTask.sentIn e
  | _ => []

/-- The payload of a datagram of the source. -/
def fromPeer (src : SocketAddr) (d : Datagram) : Option Bytes := if d.2 = src then some d.1 else none

/-- Payloads of a source that enter the tunnel. -/
def handedFor (src : SocketAddr) : ProxyEffect → List Bytes
  | .session e => (keyed sentBy src e).toList
  | _ => []

/-- Payloads that a source sends to the local socket. -/
def cameFrom (src : SocketAddr) (e : ProxyEffect) : List Bytes := (came e).filterMap (fromPeer src)

/-- What the session buffers for a source. -/
def pendingFor (src : SocketAddr) (p : Proxy) : List Bytes :=
  match p.phase with
  | .running live => live.session.pendingOf src
  | _ => []

/-- What the client holds of a source: what its session buffers, then what has not been
taken from the local socket. -/
def heldFor (src : SocketAddr) (p : Proxy) : List Bytes :=
  p.pendingFor src ++ p.locals.held.filterMap (fromPeer src)

private theorem flatMap_map_toList {α β γ : Type} {g : α → β} {f : β → List γ} {k : α → Option γ}
    (h : ∀ a, f (g a) = (k a).toList) (as : List α) : (as.map g).flatMap f = as.filterMap k := by
  induction as with
  | nil => rfl
  | cons a as ih => rw [List.map_cons, List.flatMap_cons, ih, h, filterMap_cons_toList]

private theorem flatMap_map_nil {α β γ : Type} {g : α → β} {f : β → List γ} (h : ∀ a, f (g a) = [])
    (as : List α) : (as.map g).flatMap f = [] := by
  simp [List.flatMap_map, h]

private theorem calls_flatMap {γ : Type} (live : Live) (r : Round) {f : ProxyEffect → List γ}
    (hrecv : ∀ d, f (.recv d) = []) (htimeout : f .onTimeout = []) (hack : f .sendAckEliciting = []) :
    (live.calls r).flatMap f = [] :=
  List.flatMap_eq_nil_iff.mpr (calls_ignored live r hrecv htimeout hack)

/-- A session receives exactly what the round took. -/
private theorem Sound.received {tr : List ProxyEffect} {live : Live} (h : Sound d tr live) {r : Round}
    (hfresh : FreshStreams (current tr) r.outcome) (taken : List Datagram) :
    ((live.emitted d r taken).map .session).flatMap dispatched = taken := by
  have hallowed := (live.pass r taken).allowed d live.session fun _ => hfresh
  have hswap : (live.emitted d r taken).filterMap (fun e => (receivedFrom e).map Prod.swap) =
      ((live.emitted d r taken).filterMap receivedFrom).map Prod.swap := by
    rw [List.map_filterMap]
  rw [flatMap_map_toList (f := dispatched) (fun _ => rfl), hswap, Live.emitted, drive_received h.run hallowed,
    Pass.dispatches]
  simp [Live.pass]

private theorem Sound.handed {tr : List ProxyEffect} {live : Live} (h : Sound d tr live) {r : Round}
    (hfresh : FreshStreams (current tr) r.outcome) (taken : List Datagram) (src : SocketAddr) :
    ((live.emitted d r taken).map .session).flatMap (handedFor src) ++ (live.after d r taken).session.pendingOf src <+
      live.session.pendingOf src ++ taken.filterMap (fromPeer src) := by
  have hallowed := (live.pass r taken).allowed d live.session fun _ => hfresh
  have hlocals : (live.pass r taken).acts.filterMap (keyed localOf src) = taken.filterMap (fromPeer src) := by
    rw [filterMap_keyed, Pass.dispatches, Live.pass, List.filterMap_map]
    rfl
  rw [flatMap_map_toList (f := handedFor src) (fun _ => rfl), ← hlocals]
  exact drive_ordered h.run hallowed src

/-- What a step takes from the local socket and leaves there is what was there and what
came, in order, up to what the socket's channel refused. -/
private theorem Move.accounted {tr es : List ProxyEffect} {p p' : Proxy} {i : ProxyAct} (hm : Move d p i p' es)
    (hexact : ∀ run ∈ p.locals.backlog, Exact recvBuf run)
    (hsound : ∀ live, p.phase = .running live → Sound d tr live) (hi : Offered tr i) :
    es.flatMap dispatched ++ p'.locals.held <+ p.locals.held ++ es.flatMap came ∧
      ((∀ d, .locals (.refused d) ∉ es) →
        es.flatMap dispatched ++ p'.locals.held = p.locals.held ++ es.flatMap came) := by
  have hequal {es : List ProxyEffect} {p' : Proxy}
      (h : es.flatMap dispatched ++ p'.locals.held = p.locals.held ++ es.flatMap came) :
      es.flatMap dispatched ++ p'.locals.held <+ p.locals.held ++ es.flatMap came ∧
        ((∀ d, .locals (.refused d) ∉ es) →
          es.flatMap dispatched ++ p'.locals.held = p.locals.held ++ es.flatMap came) :=
    ⟨h ▸ .refl _, fun _ => h⟩
  have hdrained : p.locals.held = p.locals.queue ++ p.drained.locals.held := rfl
  cases hm with
  | locals a t es ha hs =>
    have hrelays := RecvTask.step_relays hexact hs
    have hout := RecvTask.step_takes_nothing ha hs
    have hnone : (es.map .locals).flatMap dispatched = [] := flatMap_map_nil (fun _ => rfl) es
    have hcame : (es.map .locals).flatMap came = es.flatMap RecvTask.sentIn := List.flatMap_map ..
    rw [hnone, hcame, ← hout]
    refine ⟨hrelays.ordered, fun hall => hrelays.whole fun d hd => hall d (List.mem_map_of_mem hd)⟩
  | packets live a t es hp =>
    refine hequal ?_
    rw [flatMap_map_nil (f := dispatched) (fun _ => rfl), flatMap_map_nil (f := came) (fun _ => rfl)]
    exact (List.append_nil _).symm
  | connected | refused | ended | slept => exact hequal (List.append_nil _).symm
  | broken live r hp =>
    refine hequal ?_
    have hlost : (p.locals.queue.map ProxyEffect.lost).flatMap dispatched = p.locals.queue := by
      simp [List.flatMap_map, dispatched]
    have hnone : (p.locals.queue.map ProxyEffect.lost).flatMap came = [] := flatMap_map_nil (fun _ => rfl) _
    simp only [List.flatMap_append, calls_flatMap live r (f := dispatched) (fun _ => rfl) rfl rfl,
      calls_flatMap live r (f := came) (fun _ => rfl) rfl rfl, hlost, hnone]
    simp [hdrained, down, dispatched, came]
  | served live r hp =>
    refine hequal ?_
    have hnone : ((live.emitted d r p.locals.queue).map ProxyEffect.session).flatMap came = [] :=
      flatMap_map_nil (fun _ => rfl) _
    rw [List.flatMap_append, List.flatMap_append, calls_flatMap live r (f := dispatched) (fun _ => rfl) rfl rfl,
      calls_flatMap live r (f := came) (fun _ => rfl) rfl rfl, hnone,
      (hsound live hp).received (hi.streams r rfl), hdrained]
    simp
  | unflushed live r hp =>
    refine hequal ?_
    have hnone : ((live.emitted d r p.locals.queue).map ProxyEffect.session).flatMap came = [] :=
      flatMap_map_nil (fun _ => rfl) _
    simp only [List.flatMap_append, calls_flatMap live r (f := dispatched) (fun _ => rfl) rfl rfl,
      calls_flatMap live r (f := came) (fun _ => rfl) rfl rfl, hnone,
      (hsound live hp).received (hi.streams r rfl), hdrained]
    simp [down, dispatched, came]

private theorem heldFor_running {p : Proxy} {live : Live} (hp : p.phase = .running live) (src : SocketAddr) :
    p.heldFor src = live.session.pendingOf src ++ p.locals.held.filterMap (fromPeer src) := by
  simp [heldFor, pendingFor, hp]

/-- What was taken in a round comes before what is left at the socket. -/
private theorem held_drained (p : Proxy) (src : SocketAddr) : p.locals.held.filterMap (fromPeer src) =
    p.locals.queue.filterMap (fromPeer src) ++ p.drained.locals.held.filterMap (fromPeer src) := by
  rw [← List.filterMap_append]
  rfl

/-- A step puts into the tunnel and keeps, for a source, a part of what was there and
what came, in order. The end of a session loses what it had buffered. -/
private theorem Move.ordered {tr es : List ProxyEffect} {p p' : Proxy} {i : ProxyAct} (hm : Move d p i p' es)
    (hexact : ∀ run ∈ p.locals.backlog, Exact recvBuf run)
    (hsound : ∀ live, p.phase = .running live → Sound d tr live) (hi : Offered tr i) (src : SocketAddr) :
    es.flatMap (handedFor src) ++ p'.heldFor src <+ p.heldFor src ++ es.flatMap (cameFrom src) := by
  have hcalls (live : Live) (r : Round) : (live.calls r).flatMap (handedFor src) = [] :=
    calls_flatMap live r (fun _ => rfl) rfl rfl
  cases hm with
  | locals a t es ha hs =>
    have hkept := (RecvTask.step_relays hexact hs).ordered
    rw [RecvTask.step_takes_nothing ha hs, List.nil_append] at hkept
    have hnone : (es.map ProxyEffect.locals).flatMap (handedFor src) = [] := flatMap_map_nil (fun _ => rfl) es
    have hcame : (es.map ProxyEffect.locals).flatMap (cameFrom src) =
        (es.flatMap RecvTask.sentIn).filterMap (fromPeer src) := by
      rw [List.filterMap_flatMap, List.flatMap_map]
      rfl
    rw [hnone, hcame, List.nil_append, heldFor, heldFor, List.append_assoc, ← List.filterMap_append]
    exact (hkept.filterMap _).append_left _
  | packets live a t es hp =>
    rw [flatMap_map_nil (f := handedFor src) (fun _ => rfl), heldFor_running hp, List.nil_append]
    exact List.sublist_append_left _ _
  | connected hp => simp [heldFor, pendingFor, hp, handedFor, cameFrom, came, Live.new, Session.new, pendingOf]
  | refused outcome hp => simp [heldFor, pendingFor, down, hp, handedFor, cameFrom, came]
  | slept hp => simp [heldFor, pendingFor, hp]
  | ended live r hp =>
    rw [heldFor_running hp]
    exact List.sublist_append_of_sublist_left (List.sublist_append_right _ _)
  | broken live r hp =>
    have hnone : (p.locals.queue.map ProxyEffect.lost).flatMap (handedFor src) = [] :=
      flatMap_map_nil (fun _ => rfl) _
    rw [heldFor_running hp, held_drained, List.flatMap_append, List.flatMap_append, hcalls, hnone,
      ← List.append_assoc]
    exact List.sublist_append_of_sublist_left (List.sublist_append_right _ _)
  | served live r hp =>
    have hhanded := ((hsound live hp).handed (hi.streams r rfl) p.locals.queue src).append_right
      (p.drained.locals.held.filterMap (fromPeer src))
    rw [heldFor_running hp, heldFor_running rfl, held_drained p, List.flatMap_append, hcalls, List.nil_append,
      ← List.append_assoc, ← List.append_assoc]
    exact List.sublist_append_of_sublist_left hhanded
  | unflushed live r hp =>
    have hhanded := ((hsound live hp).handed (hi.streams r rfl) p.locals.queue src).append_right
      (p.drained.locals.held.filterMap (fromPeer src))
    rw [heldFor_running hp, held_drained, List.flatMap_append, List.flatMap_append, hcalls, List.nil_append,
      ← List.append_assoc (live.session.pendingOf src)]
    refine List.sublist_append_of_sublist_left (List.Sublist.trans ?_ hhanded)
    exact ((List.nil_sublist _).append_left _).append_right _

/-- Over any number of sessions and failures, the datagrams taken from the local
socket, then those in its channel and its backlog, are those that came, in order and
each once. None is missing unless the channel was full. -/
theorem local_datagrams_accounted {tr : List ProxyEffect} {p : Proxy} (hr : ProxyRun d tr p) :
    tr.flatMap dispatched ++ p.locals.held <+ tr.flatMap came ∧
      ((∀ d, .locals (.refused d) ∉ tr) → tr.flatMap dispatched ++ p.locals.held = tr.flatMap came) := by
  constructor
  · refine Run.ordered (fun p => p.locals.held) rfl ?_ hr
    intro tr p i p' es hr hi hs
    exact ((step_move hs).accounted (ProxyRun.exact hr) (ProxyRun.sound hr) hi).1
  · refine Run.invariant (P := fun tr p => (∀ d, .locals (.refused d) ∉ tr) →
      tr.flatMap dispatched ++ p.locals.held = tr.flatMap came) (fun _ => rfl) ?_ hr
    intro tr p i p' es hr ih hi hs hall
    have hmove := (step_move hs).accounted (ProxyRun.exact hr) (ProxyRun.sound hr) hi
    have hstep := hmove.2 fun d hd => hall d (List.mem_append_right _ hd)
    have hbefore := ih fun d hd => hall d (List.mem_append_left _ hd)
    rw [List.flatMap_append, List.flatMap_append, List.append_assoc, hstep, ← List.append_assoc, hbefore]

/-- One datagram entered the tunnel of the first session; the other waits for the second. -/
theorem local_datagrams_accounted_waiting :
    ∃ tr p, ProxyRun endpoint tr p ∧ tr.flatMap dispatched = [([1], peer)] ∧ p.locals.held = [([2], peer)] ∧
      tr.flatMap dispatched ++ p.locals.held <+ tr.flatMap came := by
  have hrun : ProxyRun endpoint _ _ := Run.of_permitted reopening reopening_permitted (by decide)
  exact ⟨_, _, hrun, by decide, by decide, (local_datagrams_accounted hrun).1⟩

/-- Over any number of sessions, what of a source enters the tunnel, then what is
buffered and waiting, is a part of what the source sent, in order: reconnecting neither
repeats a datagram nor lets it overtake another. -/
theorem local_datagrams_once {tr : List ProxyEffect} {p : Proxy} (hr : ProxyRun d tr p) (src : SocketAddr) :
    tr.flatMap (handedFor src) ++ p.heldFor src <+ tr.flatMap (cameFrom src) := by
  refine Run.ordered (heldFor src) rfl ?_ hr
  intro tr p i p' es hr hi hs
  exact (step_move hs).ordered (ProxyRun.exact hr) (ProxyRun.sound hr) hi src

theorem local_datagrams_once_waiting :
    ∃ tr p, ProxyRun endpoint tr p ∧ tr.flatMap (handedFor peer) = [[1]] ∧ p.heldFor peer = [[2]] ∧
      tr.flatMap (handedFor peer) ++ p.heldFor peer <+ tr.flatMap (cameFrom peer) := by
  have hrun : ProxyRun endpoint _ _ := Run.of_permitted reopening reopening_permitted (by decide)
  exact ⟨_, _, hrun, by decide, by decide, local_datagrams_once hrun peer⟩

end Locals

end ZeroMasque.Proxy
