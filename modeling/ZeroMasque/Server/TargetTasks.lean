import ZeroMasque.Server.Emission

/-! The server together with the target tasks it spawned. A task owns the target
socket of one flow and the receiving end of the flow's channel; it runs between
the actions of the server in any order. -/
namespace ZeroMasque
open Foundation Server

/-- A spawned target task with the payloads waiting in its channel. -/
structure Task where
  conn : Scid
  flow : UInt64
  socket : TargetSocket
  queue : List Bytes
  running : Bool

/-- What a task is bound to for as long as it exists. -/
def Task.Same (t t' : Task) : Prop := t.conn = t'.conn ∧ t.flow = t'.flow ∧ t.socket = t'.socket

theorem Task.Same.refl (t : Task) : t.Same t := ⟨rfl, rfl, rfl⟩

/-- The server, its tasks by the number of their channel, and the queue of
payloads on their way to clients. -/
structure Host where
  server : Server
  tasks : List Task
  toClient : List ToClient

/-- What one read from a target socket gives; `full` is the answer of the queue
the payload is offered to. -/
inductive RecvResult where
  | ok (payload : Bytes) (full : Bool)
  | wouldBlock
  | interrupted
  | failed

inductive HostEffect where
  | server (e : Effect)
  | written (channel : Nat) (payload : Bytes) (sent : Bool)
  | replied (channel : Nat) (payload : Bytes) (full : Bool)
  | ended (channel : Nat)

inductive HostAct where
  | server (a : Action)
  | reply
  | forward (channel : Nat) (sent : Bool)
  | drained (channel : Nat)
  | readinessFailed (channel : Nat)
  | receive (channel : Nat) (results : List RecvResult)

/-- `try_send` into the channel of a flow: a payload is dropped when the channel
is full or its task is gone. -/
def Task.offer (payload : Bytes) (full : Bool) (t : Task) : Task :=
  if t.running && !full then { t with queue := t.queue ++ [payload] } else t

private theorem Task.offer_eq (payload : Bytes) (full : Bool) (t : Task) :
    ∃ queue, t.offer payload full = { t with queue := queue } := by
  unfold Task.offer
  split
  · exact ⟨_, rfl⟩
  · exact ⟨t.queue, rfl⟩

/-- The reading loop of a woken task: the payloads it queues for the client and
whether it goes on. The queue's receiver lives as long as the server. -/
def readLoop : List RecvResult → List (Bytes × Bool) × Bool
  | [] => ([], true)
  | .ok payload full :: rest => ((payload, full) :: (readLoop rest).1, (readLoop rest).2)
  | .wouldBlock :: _ => ([], true)
  | .interrupted :: rest => readLoop rest
  | .failed :: _ => ([], false)

/-- The task that an unrecoverable socket error ends. -/
def HostAct.fatal : HostAct → Option Nat
  | .readinessFailed channel => some channel
  | .receive channel results =>
    if (readLoop (results.take recvBatchLen)).2 then none else some channel
  | _ => none

namespace Host

def new (rules : RuleTable) (clock : Instant) : Host := ⟨Server.new rules clock, [], []⟩

/-- What an effect of the server does to the tasks. -/
def perform (tasks : List Task) : Effect → List Task
  | .spawn conn flow _ socket => tasks ++ [⟨conn, flow, socket, [], true⟩]
  | .toTarget _ _ channel payload full _ => tasks.modify channel (Task.offer payload full)
  | _ => tasks

def serve (h : Host) (a : Action) : Host × List HostEffect :=
  let done := h.server.act a
  ({ h with server := done.1, tasks := done.2.foldl perform h.tasks }, done.2.map .server)

/-- The task of a channel, while it runs. -/
def running (h : Host) (channel : Nat) : Option Task := h.tasks[channel]?.filter Task.running

/-- The flow of the channel is still in the table, so its sender is alive. -/
def senderAlive (h : Host) (channel : Nat) : Bool :=
  match h.tasks[channel]? with
  | none => false
  | some t => (h.server.flowAt t.conn t.flow).any (·.toTarget == channel)

/-- One step of the server or of a task; none if it is not enabled. -/
def step (h : Host) : HostAct → Option (Host × List HostEffect)
  | .server (.payload _) => none
  | .server a => some (h.serve a)
  | .reply =>
    match h.toClient with
    | [] => none
    | tc :: rest => some ({ h with toClient := rest }.serve (.payload tc))
  | .forward channel sent =>
    match h.running channel with
    | some ⟨conn, flow, socket, payload :: queue, _⟩ =>
      some ({ h with tasks := h.tasks.set channel ⟨conn, flow, socket, queue, true⟩ },
        [.written channel payload sent])
    | _ => none
  | .drained channel =>
    match h.running channel with
    | some t =>
      if t.queue.isEmpty && !h.senderAlive channel then
        some ({ h with tasks := h.tasks.set channel { t with running := false } }, [.ended channel])
      else none
    | none => none
  | .readinessFailed channel =>
    match h.running channel with
    | some t =>
      some ({ h with tasks := h.tasks.set channel { t with running := false } }, [.ended channel])
    | none => none
  | .receive channel results =>
    match h.running channel with
    | some t =>
      let done := readLoop (results.take recvBatchLen)
      some ({ h with
          tasks := h.tasks.set channel { t with running := done.2 }
          toClient := h.toClient ++
            (done.1.filter (!·.2)).map fun r => ⟨t.conn, t.flow, r.1⟩ },
        done.1.map (fun r => .replied channel r.1 r.2) ++ if done.2 then [] else [.ended channel])
    | none => none

/-- Effects of the server reach a task only through its queue. -/
private theorem perform_getElem {tasks : List Task} {channel : Nat} {t : Task} (e : Effect)
    (h : tasks[channel]? = some t) :
    ∃ queue, (perform tasks e)[channel]? = some { t with queue := queue } := by
  cases e with
  | spawn conn flow number socket =>
    exact ⟨t.queue, by rw [perform, List.getElem?_append_left (List.getElem?_eq_some_iff.mp h).1, h]⟩
  | toTarget conn flow number payload full now =>
    rw [perform, List.getElem?_modify, h]
    by_cases hn : number = channel
    · obtain ⟨queue, hq⟩ := t.offer_eq payload full
      exact ⟨queue, by simp [hn, hq]⟩
    · exact ⟨t.queue, by simp [hn]⟩
  | _ => exact ⟨t.queue, h⟩

private theorem foldl_perform_getElem {tasks : List Task} {channel : Nat} {t : Task} (es : List Effect)
    (h : tasks[channel]? = some t) :
    ∃ queue, (es.foldl perform tasks)[channel]? = some { t with queue := queue } := by
  induction es generalizing tasks t with
  | nil => exact ⟨t.queue, h⟩
  | cons e es ih =>
    obtain ⟨queue, hq⟩ := perform_getElem e h
    obtain ⟨queue', hq'⟩ := ih hq
    exact ⟨queue', hq'⟩

theorem serve_getElem {h : Host} (a : Action) {channel : Nat} {t : Task} (ht : h.tasks[channel]? = some t) :
    ∃ queue, (h.serve a).1.tasks[channel]? = some { t with queue := queue } :=
  foldl_perform_getElem (h.server.act a).2 ht

private theorem length_foldl_perform {tasks : List Task} {es : List Effect}
    (h : ∀ e ∈ es, (e matches .spawn ..) = false) : (es.foldl perform tasks).length = tasks.length := by
  induction es generalizing tasks with
  | nil => rfl
  | cons e es ih =>
    rw [List.foldl_cons, ih fun e' he' => h e' (List.mem_cons_of_mem _ he')]
    have he := h e List.mem_cons_self
    cases e with
    | spawn => cases he
    | toTarget => exact List.length_modify ..
    | _ => rfl

/-- Channel numbers are positions in the list of tasks. -/
def Numbered (h : Host) : Prop := h.server.channels = h.tasks.length

theorem Numbered.serve {h : Host} (hn : Numbered h) (a : Action) : Numbered (h.serve a).1 := by
  unfold Numbered at hn ⊢
  simp only [Host.serve]
  cases (act_emission h.server a).spawns with
  | none he hch => rw [hch, length_foldl_perform he, hn]
  | one c stream socket rest hr he hrest hch =>
    rw [hch, he, List.foldl_cons, length_foldl_perform hrest, hn]
    simp [perform]

/-- A task that an action starts is found under its number and runs. -/
theorem serve_spawned {h : Host} (hn : Numbered h) {a : Action} {c : Scid} {f : UInt64} {channel : Nat}
    {socket : TargetSocket} (hs : .spawn c f channel socket ∈ (h.server.act a).2) :
    ∃ queue, (h.serve a).1.tasks[channel]? = some ⟨c, f, socket, queue, true⟩ := by
  simp only [Host.serve]
  cases (act_emission h.server a).spawns with
  | none he hch => simpa using he _ hs
  | one c' stream socket' rest hr he hrest hch =>
    rw [he] at hs ⊢
    rcases List.mem_cons.mp hs with heq | hmem
    · cases heq
      have hnew : (perform h.tasks (.spawn c (stream / 4) h.server.channels socket))[h.server.channels]? =
          some ⟨c, stream / 4, socket, [], true⟩ := by
        rw [show h.server.channels = h.tasks.length from hn]
        exact List.getElem?_concat_length
      exact foldl_perform_getElem rest hnew
    · simpa using hrest _ hmem

/-- A task after an action was there before, or the action started it. -/
theorem serve_task {h : Host} (hn : Numbered h) {a : Action} {channel : Nat} {t : Task}
    (ht : (h.serve a).1.tasks[channel]? = some t) :
    (∃ t', h.tasks[channel]? = some t' ∧ ∃ queue, t = { t' with queue := queue }) ∨
      channel = h.server.channels ∧ (∃ stream, t.flow = stream / 4) ∧
        ∃ socket, .spawn t.conn t.flow channel socket ∈ (h.server.act a).2 := by
  cases hold : h.tasks[channel]? with
  | some t' =>
    obtain ⟨queue, hq⟩ := serve_getElem a hold
    exact .inl ⟨t', rfl, queue, Option.some.inj (ht.symm.trans hq)⟩
  | none =>
    have hlen := List.getElem?_eq_none_iff.mp hold
    have hlt := (List.getElem?_eq_some_iff.mp ht).1
    have hnext : (h.server.act a).1.channels = (h.serve a).1.tasks.length := hn.serve a
    rw [← hnext] at hlt
    rw [← show h.server.channels = h.tasks.length from hn] at hlen
    cases (act_emission h.server a).spawns with
    | none he hch => omega
    | one c stream socket rest hr he hrest hch =>
      obtain rfl : channel = h.server.channels := by omega
      have hmem : .spawn c (stream / 4) h.server.channels socket ∈ (h.server.act a).2 := by simp [he]
      obtain ⟨queue, hq⟩ := serve_spawned hn hmem
      obtain rfl := Option.some.inj (ht.symm.trans hq)
      exact .inr ⟨rfl, ⟨stream, rfl⟩, socket, hmem⟩

/-- Everything a step can do. -/
inductive Transition (h : Host) : HostAct → Host → List HostEffect → Prop
  | served (a : Action) (ha : ∀ tc, a ≠ .payload tc) :
      Transition h (.server a) (h.serve a).1 (h.serve a).2
  | returned (tc : ToClient) (rest : List ToClient) (hq : h.toClient = tc :: rest) :
      Transition h .reply ({ h with toClient := rest }.serve (.payload tc)).1
        ({ h with toClient := rest }.serve (.payload tc)).2
  | forwarded (channel : Nat) (sent : Bool) (t : Task) (payload : Bytes) (queue : List Bytes)
      (ht : h.running channel = some t) (hq : t.queue = payload :: queue) :
      Transition h (.forward channel sent)
        { h with tasks := h.tasks.set channel { t with queue := queue } } [.written channel payload sent]
  | ended (i : HostAct) (channel : Nat) (t : Task) (ht : h.running channel = some t)
      (hwhy : h.senderAlive channel = false ∨ i.fatal = some channel) :
      Transition h i { h with tasks := h.tasks.set channel { t with running := false } } [.ended channel]
  | received (channel : Nat) (results : List RecvResult) (t : Task) (ht : h.running channel = some t) :
      Transition h (.receive channel results)
        { h with
          tasks := h.tasks.set channel { t with running := (readLoop (results.take recvBatchLen)).2 }
          toClient := h.toClient ++ ((readLoop (results.take recvBatchLen)).1.filter (!·.2)).map
            fun r => ⟨t.conn, t.flow, r.1⟩ }
        ((readLoop (results.take recvBatchLen)).1.map (fun r => .replied channel r.1 r.2) ++
          if (readLoop (results.take recvBatchLen)).2 then [] else [.ended channel])

theorem running_eq_some {h : Host} {channel : Nat} {t : Task} (ht : h.running channel = some t) :
    h.tasks[channel]? = some t ∧ t.running = true := Option.filter_eq_some_iff.mp ht

theorem step_transition {h h' : Host} {i : HostAct} {es : List HostEffect}
    (hs : h.step i = some (h', es)) : Transition h i h' es := by
  cases i with
  | server a =>
    cases a with
    | payload tc => cases hs
    | _ =>
      cases hs
      exact .served _ nofun
  | reply =>
    dsimp only [step] at hs
    split at hs
    · cases hs
    · rename_i tc rest hq
      cases hs
      exact .returned tc rest hq
  | forward channel sent =>
    dsimp only [step] at hs
    split at hs
    · rename_i conn flow socket payload queue running ht
      cases hs
      obtain rfl : running = true := (running_eq_some ht).2
      exact .forwarded channel sent _ payload queue ht rfl
    · cases hs
  | drained channel =>
    dsimp only [step] at hs
    split at hs
    · rename_i t ht
      split_ifs at hs with hdone
      cases hs
      simp only [Bool.and_eq_true, Bool.not_eq_true'] at hdone
      exact .ended _ channel t ht (.inl hdone.2)
    · cases hs
  | readinessFailed channel =>
    dsimp only [step] at hs
    split at hs
    · rename_i t ht
      cases hs
      exact .ended _ channel t ht (.inr rfl)
    · cases hs
  | receive channel results =>
    dsimp only [step] at hs
    split at hs
    · rename_i t ht
      cases hs
      exact .received channel results t ht
    · cases hs

/-- A step acts on the server's tables at most once, and only the queue of
replies makes it return a payload. -/
theorem Transition.server {h h' : Host} {i : HostAct} {es : List HostEffect} (ht : Transition h i h' es) :
    (∃ a, h'.server = (h.server.act a).1 ∧ es = (h.server.act a).2.map .server ∧
      (i = .server a ∨ ∃ tc, a = .payload tc)) ∨
    (h'.server = h.server ∧ ∀ e, .server e ∉ es) := by
  cases ht with
  | served a ha => exact .inl ⟨a, rfl, rfl, .inl rfl⟩
  | returned tc rest hq => exact .inl ⟨.payload tc, rfl, rfl, .inr ⟨tc, rfl⟩⟩
  | forwarded channel sent t payload queue ht hq => exact .inr ⟨rfl, by simp⟩
  | ended i channel t ht hwhy => exact .inr ⟨rfl, by simp⟩
  | received channel results t ht =>
    refine .inr ⟨rfl, fun e => ?_⟩
    split <;> simp

/-- A task keeps its connection, its flow and its socket. -/
theorem Transition.keeps {h h' : Host} {i : HostAct} {es : List HostEffect} (ht : Transition h i h' es)
    {channel : Nat} {t : Task} (hget : h.tasks[channel]? = some t) :
    ∃ t', h'.tasks[channel]? = some t' ∧ t'.Same t := by
  have hset {number : Nat} {u u' : Task} (hu : h.running number = some u) (hsame : u'.Same u) :
      ∃ t', (h.tasks.set number u')[channel]? = some t' ∧ t'.Same t := by
    have hold := (running_eq_some hu).1
    simp only [List.getElem?_set, (List.getElem?_eq_some_iff.mp hold).1, if_true]
    split
    · rename_i heq
      subst heq
      obtain rfl : u = t := Option.some.inj (hold.symm.trans hget)
      exact ⟨u', rfl, hsame⟩
    · exact ⟨t, hget, .refl t⟩
  cases ht with
  | served a ha =>
    obtain ⟨queue, hq⟩ := serve_getElem a hget
    exact ⟨_, hq, rfl, rfl, rfl⟩
  | returned tc rest hq =>
    obtain ⟨queue, hq⟩ := foldl_perform_getElem (h.server.act (.payload tc)).2 hget
    exact ⟨_, hq, rfl, rfl, rfl⟩
  | forwarded number sent u payload queue hu hq => exact hset hu ⟨rfl, rfl, rfl⟩
  | ended i number u hu hwhy => exact hset hu ⟨rfl, rfl, rfl⟩
  | received number results u hu => exact hset hu ⟨rfl, rfl, rfl⟩

theorem Transition.task {h h' : Host} {i : HostAct} {es : List HostEffect} (ht : Transition h i h' es)
    {channel : Nat} {t : Task} (hget : h.tasks[channel]? = some t) :
    ∃ t', h'.tasks[channel]? = some t' ∧ t'.conn = t.conn ∧ t'.flow = t.flow := by
  obtain ⟨t', ht', hconn, hflow, -⟩ := ht.keeps hget
  exact ⟨t', ht', hconn, hflow⟩

/-- What a step of a task can do to it. -/
inductive TaskStep (h : Host) (i : HostAct) (h' : Host) : Prop
  | goesOn (channel : Nat) (t t' : Task) (ht : h.running channel = some t)
      (htasks : h'.tasks = h.tasks.set channel t') (hconn : t'.conn = t.conn) (hflow : t'.flow = t.flow)
      (hrun : t'.running = true)
  | ends (channel : Nat) (t : Task) (ht : h.running channel = some t)
      (htasks : h'.tasks = h.tasks.set channel { t with running := false })
      (hwhy : h.senderAlive channel = false ∨ i.fatal = some channel)

/-- A step is an action of the server, perhaps on a reply taken from the queue,
or a step of one task. -/
theorem step_cases {h h' : Host} {i : HostAct} {es : List HostEffect} (hs : h.step i = some (h', es)) :
    (∃ a, i = .server a ∧ (h', es) = h.serve a) ∨
    (∃ tc rest, i = .reply ∧ h.toClient = tc :: rest ∧
      (h', es) = { h with toClient := rest }.serve (.payload tc)) ∨
    (h'.server = h.server ∧ TaskStep h i h') := by
  cases step_transition hs with
  | served a ha => exact .inl ⟨a, rfl, rfl⟩
  | returned tc rest hq => exact .inr (.inl ⟨tc, rest, rfl, hq, rfl⟩)
  | forwarded channel sent t payload queue ht hq =>
    exact .inr (.inr ⟨rfl, .goesOn channel t _ ht rfl rfl rfl (running_eq_some ht).2⟩)
  | ended _ channel t ht hwhy => exact .inr (.inr ⟨rfl, .ends channel t ht rfl hwhy⟩)
  | received channel results t ht =>
    refine .inr (.inr ⟨rfl, ?_⟩)
    cases hrun : (readLoop (results.take recvBatchLen)).2 with
    | true => exact .goesOn channel t { t with running := true } ht rfl rfl rfl rfl
    | false => exact .ends channel t ht rfl (.inr (by simp [HostAct.fatal, hrun]))

end Host
end ZeroMasque
