import ZeroMasque.Client.Lifetimes

/-! The responses to one request. The first status decides whether the flow is
established or dropped, also if it is informational, and a later one outside
200 to 299 drops it again. -/
namespace ZeroMasque.Session
open Foundation

def isInformational (status : Nat) : Bool := 100 ≤ status && status < 200

def isSuccess (status : Nat) : Bool := 200 ≤ status && status < 300

/-- The status that a step reads for a flow. -/
def statusFor (f : UInt64) : SessionAct → Option Nat
  | .poll (.headers stream list) => if stream / 4 = f then statusOf list else none
  | _ => none

def statuses (f : UInt64) (log : List SessionTurn) : List Nat := log.filterMap fun t => statusFor f t.input

/-- The first status that is not informational. -/
def firstFinal (ss : List Nat) : Option Nat := ss.find? fun status => !isInformational status

/-- The stream of the flow ends or is reset. -/
def Closes (f : UInt64) : SessionAct → Prop
  | .poll (.finished stream) | .poll (.reset stream _) => stream / 4 = f
  | _ => False

/-- Whether a flow is established; none if it is not in the tables. -/
def standing (s : Session) (f : UInt64) : Option Bool :=
  (s.flows.lookup f).bind fun src => (s.phaseOf src).map Prod.fst

/-- What a status makes of the flow. -/
def respond (st : Option Bool) (status : Nat) : Option Bool :=
  if isSuccess status then st.map fun _ => true else none

section Step
variable {tr : List SessionEffect} {s : Session} {d : Dialed} {a : SessionAct} {f : UInt64}

/-- Some request opened the stream of the flow. -/
def Known (tr : List SessionEffect) (f : UInt64) : Prop :=
  ∃ src stream headers, .request src stream headers ∈ tr ∧ f = stream / 4 ∧ stream.toNat % 4 = 0

private theorem Requested.known (h : Requested tr s) (hf : (s.flows.lookup f).isSome) : Known tr f := by
  obtain ⟨src, hsrc⟩ := Option.isSome_iff_exists.mp hf
  exact ⟨src, h f src hsrc⟩

private theorem Known.append (h : Known tr f) (es : List SessionEffect) : Known (tr ++ es) f := by
  obtain ⟨src, stream, headers, hmem, hrest⟩ := h
  exact ⟨src, stream, headers, List.mem_append_left _ hmem, hrest⟩

/-- New requests get other flows. -/
private theorem flows_openPendingFlows {outcome : SocketAddr → RequestOutcome} (hfresh : FreshStreams tr outcome)
    (hknown : Known tr f) : (s.openPendingFlows d outcome).1.flows.lookup f = s.flows.lookup f := by
  obtain ⟨src, stream, headers, hmem, rfl, h4⟩ := hknown
  have hother (src' : SocketAddr) (stream' : UInt64) (hok : outcome src' = .ok stream') :
      stream' / 4 ≠ stream / 4 := by
    intro heq
    obtain rfl := stream_eq_of_quarter (hfresh.quarter src' stream' hok) h4 heq
    exact hfresh.unused src' stream' hok src headers hmem
  refine drive_keeps (P := fun _ (loop : Session × List SocketAddr) =>
    loop.1.flows.lookup (stream / 4) = s.flows.lookup (stream / 4)) (t := []) s.byAddr.keys ?_ rfl
  intro _ loop src' _ hp
  unfold openOne
  split
  · exact hp
  split_ifs
  · exact hp
  split
  · rename_i stream' hok
    rw [Table.lookup_insert_ite, if_neg (Ne.symm (hother src' stream' hok)), hp]
  all_goals exact hp

/-- A known flow leaves the table with a status that is no success, and does not
come back. -/
private theorem lookup_flows_act (ha : Granted tr a) (hknown : Known tr f) (hopen : ¬ Closes f a) :
    (s.act d a).1.flows.lookup f =
      if (statusFor f a).any (fun status => !isSuccess status) then none else s.flows.lookup f := by
  cases a with
  | localDatagram src data => simp [act, flows_onLocal, statusFor]
  | openPending outcome => exact flows_openPendingFlows (ha outcome rfl) hknown
  | route datagram => rfl
  | poll event =>
    have hended : endedBy event = some f ↔ (statusFor f (.poll event)).any (fun status => !isSuccess status) := by
      cases event with
      | headers stream list =>
        cases hstatus : statusOf list with
        | none => simp [endedBy, statusFor, hstatus]
        | some status =>
          by_cases hf : stream / 4 = f
          · simp only [endedBy, statusFor, isSuccess, hstatus, hf, if_true, Option.any_some]
            split_ifs with hok
            · simp [hok]
            · simp only [not_and_or, not_le, not_lt] at hok
              simpa using hok
          · simp [endedBy, statusFor, hstatus, hf]
      | finished stream | reset stream code =>
        have hne : ¬ stream / 4 = f := hopen
        simp [endedBy, statusFor, hne]
      | other stream => simp [endedBy, statusFor]
    simp only [act, lookup_flows_onResponse, hended]

private theorem statusFor_eq_some {status : Nat} : statusFor f a = some status ↔
    ∃ stream list, a = .poll (.headers stream list) ∧ stream / 4 = f ∧ statusOf list = some status := by
  constructor
  · intro h
    unfold statusFor at h
    split at h
    · rename_i stream list
      split_ifs at h with hf
      exact ⟨stream, list, rfl, hf, h⟩
    · cases h
  · rintro ⟨stream, list, rfl, hf, hstatus⟩
    exact (if_pos hf).trans hstatus

/-- The steps that accept the source of a flow are those that read a success for it. -/
private theorem accepted_iff_status {src : SocketAddr} {st : FlowState} {t : SessionTurn}
    (hst : t.before.byAddr.lookup src = some st) (hid : st.flowId = some f) :
    Accepted src t ↔ (statusFor f t.input).any isSuccess = true := by
  rw [Option.any_eq_true]
  constructor
  · rintro ⟨f', stream, list, st', hinput, hacc, rfl, hst', hid'⟩
    obtain rfl := Option.some.inj (hst.symm.trans hst')
    obtain ⟨status, hstatus, hok⟩ := (Option.any_eq_true _ _).mp hacc
    have hf := Option.some.inj (hid'.symm.trans hid)
    exact ⟨status, statusFor_eq_some.mpr ⟨stream, list, hinput, hf, hstatus⟩, hok⟩
  · rintro ⟨status, hstatus, hok⟩
    obtain ⟨stream, list, hinput, rfl, hlist⟩ := statusFor_eq_some.mp hstatus
    have hacc : accepts list = true := by
      rw [accepts, hlist]
      exact hok
    exact ⟨stream / 4, stream, list, st, hinput, hacc, rfl, hst, hid⟩

/-- A flow that stays is established by a success, and as it was otherwise. -/
private theorem standing_of_turn {src : SocketAddr} {st : FlowState} {t : SessionTurn} (h : SourceTurn src t)
    (hst : t.before.byAddr.lookup src = some st) (hid : st.flowId = some f)
    (hkept : t.after.flows.lookup f = some src) (hhere : phaseOf t.after src ≠ none) :
    standing t.after f = some (st.established || (statusFor f t.input).any isSuccess) := by
  have hstatus := accepted_iff_status hst hid
  have hphase : phaseOf t.before src = some (st.established, st.pending) := by
    rw [phaseOf, hst]
    rfl
  have hquiet (hno : ¬ Accepted src t) : (statusFor f t.input).any isSuccess = false :=
    Bool.eq_false_of_not_eq_true fun hany => hno (hstatus.mpr hany)
  rw [standing, hkept, Option.bind_some]
  cases h with
  | forwarded data ha hb hn hh =>
    rw [hphase] at hb
    obtain ⟨hest, -⟩ := Prod.mk.inj (Option.some.inj hb)
    rw [hn, hquiet (not_accepted_of_arrival ha), hest]
    rfl
  | buffered data pending ha hb hn hh =>
    rw [hphase] at hb
    obtain ⟨hest, -⟩ := Prod.mk.inj hb
    rw [hn, hquiet (not_accepted_of_arrival ha), hest]
    rfl
  | accepted e pending ha hacc hb hn hh =>
    rw [hn, hstatus.mp hacc, Bool.or_true]
    rfl
  | quiet ha hacc hn hh =>
    rw [hn.resolve_right hhere, hphase, hquiet hacc, Bool.or_false]
    rfl

/-- A step as a flow sees it: only the statuses it reads for the flow matter. -/
private theorem standing_act (hc : Coherent s) (hr : Requested tr s) (ha : Granted tr a) (hknown : Known tr f)
    (hopen : ¬ Closes f a) :
    standing (s.act d a).1 f = (statusFor f a).toList.foldl respond (standing s f) := by
  have hafter := lookup_flows_act (s := s) (d := d) ha hknown hopen
  cases hf : s.flows.lookup f with
  | none =>
    have hgone : (s.act d a).1.flows.lookup f = none := by
      rw [hafter, hf, ite_self]
    rw [standing, hgone, standing, hf]
    cases statusFor f a <;> simp [respond]
  | some src =>
    obtain ⟨st, hst, hid⟩ := (hc.inverse f src).mp hf
    have hbefore : standing s f = some st.established := by
      simp [standing, phaseOf, hf, hst]
    have hstays (hkept : (s.act d a).1.flows.lookup f = some src) :
        standing (s.act d a).1 f = some (st.established || (statusFor f a).any isSuccess) := by
      refine standing_of_turn (act_sourceTurn hc d a src) hst hid hkept ?_
      obtain ⟨st', hst', -⟩ := ((act_sound d ha hc hr).1.inverse f src).mp hkept
      simp [phaseOf, hst']
    rw [hbefore]
    cases hstatus : statusFor f a with
    | none =>
      rw [hstatus] at hafter
      rw [hstays (hafter.trans hf), hstatus]
      simp
    | some status =>
      cases hok : isSuccess status with
      | true =>
        rw [hstatus, Option.any_some, hok] at hafter
        rw [hstays (hafter.trans hf), hstatus]
        simp [respond, hok]
      | false =>
        rw [hstatus, Option.any_some, hok] at hafter
        rw [standing, hafter]
        simp [respond, hok]

end Step

/-- What a list of statuses makes of a flow that is there. -/
private theorem foldl_respond (e : Bool) (ss : List Nat) :
    ss.foldl respond (some e) = if ss.all isSuccess then some (e || !ss.isEmpty) else none := by
  have hnone (ss : List Nat) : ss.foldl respond none = none := by
    induction ss with
    | nil => rfl
    | cons status ss ih => simpa [respond] using ih
  induction ss generalizing e with
  | nil => simp
  | cons status ss ih =>
    cases hok : isSuccess status with
    | true => simp [respond, hok, ih]
    | false => simp [respond, hok, hnone]

@[simp] theorem statuses_append (f : UInt64) (log log' : List SessionTurn) :
    statuses f (log ++ log') = statuses f log ++ statuses f log' := List.filterMap_append

private theorem statuses_singleton (f : UInt64) (t : SessionTurn) : statuses f [t] = (statusFor f t.input).toList := by
  cases h : statusFor f t.input <;> simp [statuses, h]

/-- In every run, a flow stands where the statuses read for it since have brought
it, by induction on the steps. -/
private theorem SessionLog.standing {d : Dialed} {pre mid : List SessionTurn} {s₀ s : Session} {f : UInt64}
    (hpre : SessionLog d pre s₀) (hlog : SessionLog d (pre ++ mid) s) (hf : (s₀.flows.lookup f).isSome)
    (hopen : ∀ t ∈ mid, ¬ Closes f t.input) :
    s.standing f = (statuses f mid).foldl respond (s₀.standing f) := by
  have hstart : SessionRun d (effects pre) s₀ := Run.of_log hpre
  have hknown := hstart.sound.2.known hf
  induction mid using List.reverseRecOn generalizing s with
  | nil =>
    rw [List.append_nil] at hlog
    rw [hlog.log_end hpre]
    rfl
  | append_singleton mid t ih =>
    rw [← List.append_assoc] at hlog
    obtain ⟨hbefore, -, -⟩ := Run.turn hlog rfl
    obtain ⟨hrun, hgranted, hact⟩ := SessionLog.turn hlog rfl
    have hmid := ih hbefore fun t' ht' => hopen t' (List.mem_append_left _ ht')
    have hthen : Known (effects (pre ++ mid)) f := by
      rw [effects_append]
      exact hknown.append (effects mid)
    have hstep := standing_act (d := d) hrun.sound.1 hrun.sound.2 hgranted hthen (hopen t (by simp))
    rw [hact] at hstep
    rw [hlog.last, hstep, hmid, statuses_append, statuses_singleton, List.foldl_append]

/-- The first final status decides: the flow is established if it is a success and
dropped if it is none, and informational ones before it change nothing. -/
structure FollowsFinal (f : UInt64) (mid : List SessionTurn) (s : Session) : Prop where
  established : s.standing f = some true ↔
    ∃ status, firstFinal (statuses f mid) = some status ∧ isSuccess status = true
  dropped : s.standing f = none ↔
    ∃ status, firstFinal (statuses f mid) = some status ∧ isSuccess status = false
  informational : ∀ before t after status, mid = before ++ t :: after →
    (∀ earlier ∈ statuses f before, isInformational earlier = true) → statusFor f t.input = some status →
    isInformational status = true → t.after = t.before ∧ t.emitted = []

private theorem not_success_of_informational {status : Nat} (h : isInformational status = true) :
    isSuccess status = false := by
  simp only [isInformational, isSuccess, Bool.and_eq_true, decide_eq_true_eq] at h ⊢
  simp [Nat.not_le.mpr h.2]

private theorem firstFinal_cons {status : Nat} (h : isInformational status = false) (ss : List Nat) :
    firstFinal (status :: ss) = some status := by
  rw [firstFinal, List.find?_cons_of_pos]
  rw [h]
  rfl

/-- A final first status decides alone if the later ones do not undo a success. -/
private theorem standing_eq_firstFinal {ss : List Nat} (h : ∀ status ∈ ss.head?, isInformational status = false ∧
      (isSuccess status = true → ∀ later ∈ ss, isSuccess later = true)) :
    (if ss.all isSuccess then some (!ss.isEmpty) else none) =
      (firstFinal ss).elim (some false) fun status => if isSuccess status then some true else none := by
  cases ss with
  | nil => rfl
  | cons status ss =>
    obtain ⟨hfinal, hagree⟩ := h status rfl
    rw [firstFinal_cons hfinal]
    cases hok : isSuccess status with
    | true =>
      rw [List.all_eq_true.mpr (hagree hok)]
      simp [hok]
    | false => simp [hok]

/-- If only informational statuses come up to a step, the first one is informational. -/
private theorem informational_head {f : UInt64} {before : List SessionTurn} {t : SessionTurn}
    (hearlier : ∀ earlier ∈ statuses f before, isInformational earlier = true) {status : Nat}
    (hstatus : statusFor f t.input = some status) (hinfo : isInformational status = true)
    (after : List SessionTurn) :
    ∃ first ∈ (statuses f (before ++ t :: after)).head?, isInformational first = true := by
  have hsplit : statuses f (before ++ t :: after) = statuses f before ++ status :: statuses f after := by
    rw [statuses_append]
    simp [statuses, hstatus]
  cases hfirst : statuses f before with
  | nil => exact ⟨status, by simp [hsplit, hfirst], hinfo⟩
  | cons first ss => exact ⟨first, by simp [hsplit, hfirst], hearlier first (by simp [hfirst])⟩

section Pending
variable {d : Dialed} {pre mid : List SessionTurn} {s₀ s : Session} {f : UInt64}

private theorem standing_of_pending (hpre : SessionLog d pre s₀) (hlog : SessionLog d (pre ++ mid) s)
    (hpending : s₀.standing f = some false) (hopen : ∀ t ∈ mid, ¬ Closes f t.input) :
    s.standing f = if (statuses f mid).all isSuccess then some (!(statuses f mid).isEmpty) else none := by
  have hf : (s₀.flows.lookup f).isSome := by
    rw [Session.standing] at hpending
    cases hflow : s₀.flows.lookup f with
    | none => simp [hflow] at hpending
    | some src => rfl
  rw [hpre.standing hlog hf hopen, hpending, foldl_respond, Bool.false_or]

/-- A first status that is informational drops the flow. -/
private theorem not_informational (hpre : SessionLog d pre s₀) (hlog : SessionLog d (pre ++ mid) s)
    (hpending : s₀.standing f = some false) (hopen : ∀ t ∈ mid, ¬ Closes f t.input) (h : FollowsFinal f mid s)
    {status : Nat} {ss : List Nat} (hss : statuses f mid = status :: ss) : isInformational status = false := by
  obtain ⟨before, t, after, heq, hnone, hstatus, -⟩ := List.filterMap_eq_cons_iff.mp hss
  have hearly : statuses f before = [] := List.filterMap_eq_nil_iff.mpr hnone
  rw [Bool.eq_false_iff]
  intro hinfo
  obtain ⟨hsame, -⟩ := h.informational before t after status heq (by simp [hearly]) hstatus hinfo
  -- the flow is there before the step and gone after it
  obtain ⟨hbefore, -, -⟩ := Run.turn hlog (by rw [heq, ← List.append_assoc])
  have hthere := standing_of_pending hpre hbefore hpending fun t' ht' => hopen t' (by simp [heq, ht'])
  obtain ⟨s', hafter⟩ := Run.log_take hlog (show pre ++ mid = (pre ++ before ++ [t]) ++ after by simp [heq])
  obtain rfl : s' = t.after := hafter.last
  rw [List.append_assoc] at hafter
  have hgone := standing_of_pending hpre hafter hpending fun t' ht' => hopen t' (by
    rw [heq, ← List.singleton_append, ← List.append_assoc]
    exact List.mem_append_left _ ht')
  rw [hearly] at hthere
  rw [statuses_append, hearly, statuses_singleton, hstatus] at hgone
  simp [not_success_of_informational hinfo, hsame, hthere] at hgone

end Pending

/-- In every run, a pending flow follows its first final status if and only if the
first status is final and, where it is a success, so are the later ones. -/
theorem first_final_decides {d : Dialed} {pre mid : List SessionTurn} {s₀ s : Session} {f : UInt64}
    (hpre : SessionLog d pre s₀) (hlog : SessionLog d (pre ++ mid) s) (hpending : s₀.standing f = some false)
    (hopen : ∀ t ∈ mid, ¬ Closes f t.input) :
    FollowsFinal f mid s ↔ ∀ status ∈ (statuses f mid).head?, isInformational status = false ∧
      (isSuccess status = true → ∀ later ∈ statuses f mid, isSuccess later = true) := by
  have hstanding := standing_of_pending hpre hlog hpending hopen
  constructor
  · intro h status hhead
    obtain ⟨ss, hss⟩ := List.head?_eq_some_iff.mp hhead
    have hfinal := not_informational hpre hlog hpending hopen h hss
    refine ⟨hfinal, fun hok => ?_⟩
    have hest := h.established.mpr ⟨status, by rw [hss, firstFinal_cons hfinal], hok⟩
    rw [hstanding] at hest
    split_ifs at hest with hall
    exact List.all_eq_true.mp hall
  · intro h
    rw [standing_eq_firstFinal h] at hstanding
    refine ⟨?_, ?_, ?_⟩
    · rw [hstanding]
      cases firstFinal (statuses f mid) <;> simp
    · rw [hstanding]
      cases firstFinal (statuses f mid) <;> simp
    · intro before t after status heq hearlier hstatus hinfo
      obtain ⟨first, hfirst, hinfo⟩ := informational_head hearlier hstatus hinfo after
      rw [← heq] at hfirst
      rw [(h first hfirst).1] at hinfo
      cases hinfo

def proxy : Dialed := ⟨"proxy:4433", "/masque"⟩

def source : SocketAddr := .v4 0x7f000001 9000

/-- A flow is requested on stream 0, and one datagram waits for it. -/
def waiting : Session :=
  (drive (act proxy) new [.localDatagram source [1], .openPending (oneStream source 0)]).1

private theorem waiting_log : ∃ log, SessionLog proxy log waiting := by
  have hheard : SessionLog proxy _ _ := .next (.localDatagram source [1]) .init (by rintro _ ⟨⟩) rfl
  have hasked := Run.next (.openPending (oneStream source 0)) hheard
    (by rintro _ ⟨⟩; exact oneStream_fresh rfl (by decide)) rfl
  exact ⟨_, hasked⟩

/-- A response with nothing but a status. -/
def answer (status : String) : SessionAct := .poll (.headers 0 [⟨utf8 ":status", utf8 status⟩])

/-- A flow is accepted at once, and another datagram of its source follows. -/
theorem first_final_decides_accepted :
    ∃ pre mid s, SessionLog proxy pre waiting ∧ SessionLog proxy (pre ++ mid) s ∧
      waiting.standing 0 = some false ∧ statuses 0 mid = [200] ∧ FollowsFinal 0 mid s := by
  obtain ⟨pre, hpre⟩ := waiting_log
  have haccepted := Run.next (answer "200") hpre (by rintro _ ⟨⟩) rfl
  have hmore : SessionLog proxy _ _ := Run.next (.localDatagram source [2]) haccepted (by rintro _ ⟨⟩) rfl
  rw [List.append_assoc] at hmore
  refine ⟨pre, _, _, hpre, hmore, by decide, by decide,
    (first_final_decides hpre hmore (by decide) ?_).mpr (by decide)⟩
  intro t ht
  simp only [List.cons_append, List.nil_append, List.mem_cons, List.not_mem_nil, or_false] at ht
  rcases ht with rfl | rfl <;> exact id

/-- An early hint drops the flow with the datagram that waits for it, although a
200 follows. -/
theorem informational_drops_flow :
    ∃ pre mid s, SessionLog proxy pre waiting ∧ SessionLog proxy (pre ++ mid) s ∧
      waiting.phaseOf source = some (false, [[1]]) ∧ waiting.standing 0 = some false ∧
      (∀ t ∈ mid, ¬ Closes 0 t.input) ∧ statuses 0 mid = [103, 200] ∧ s.standing 0 = none ∧
      s.phaseOf source = none ∧ ¬ FollowsFinal 0 mid s := by
  obtain ⟨pre, hpre⟩ := waiting_log
  have hhint := Run.next (answer "103") hpre (by rintro _ ⟨⟩) rfl
  have hdone : SessionLog proxy _ _ := Run.next (answer "200") hhint (by rintro _ ⟨⟩) rfl
  rw [List.append_assoc] at hdone
  refine ⟨pre, _, _, hpre, hdone, by decide, by decide, ?_, by decide, by decide, by decide, ?_⟩
  · intro t ht
    simp only [List.cons_append, List.nil_append, List.mem_cons, List.not_mem_nil, or_false] at ht
    rcases ht with rfl | rfl <;> exact id
  · intro h
    cases h.established.mpr ⟨200, by decide, by decide⟩

end ZeroMasque.Session
