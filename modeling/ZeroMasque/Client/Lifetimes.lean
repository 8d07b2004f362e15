import Mathlib.Data.List.Induction
import ZeroMasque.Client.Traffic
import ZeroMasque.Foundation.Logs

/-! What one local source sees of a session. From the moment its state is made
until it is dropped, its datagrams enter the tunnel in the order they arrived:
the first ones that were buffered, once the proxy accepts the flow, then every
later one. -/
namespace ZeroMasque.Session
open Foundation

abbrev SessionTurn := Turn Session SessionAct SessionEffect

/-- Sessions with fresh streams for new requests, every step on record. -/
abbrev SessionLog (d : Dialed) : List SessionTurn → Session → Prop :=
  Run (logged fun s a => some (act d s a)) (fun log _ a => Granted (effects log) a) new

/-- The datagram of a source that a step dispatches. -/
def arrival (src : SocketAddr) (t : SessionTurn) : Option Bytes :=
  match t.input with
  | .localDatagram src' data => if src' = src then some data else none
  | _ => none

def arrivals (src : SocketAddr) (log : List SessionTurn) : List Bytes := log.filterMap (arrival src)

/-- The payloads of a source that were passed to `send_datagram`. -/
def handed (src : SocketAddr) (log : List SessionTurn) : List Bytes :=
  (effects log).filterMap (keyed sentBy src)

/-- A step that processes the 2xx response for the flow of a source. -/
def AcceptedAs (src : SocketAddr) (f : UInt64) (t : SessionTurn) : Prop :=
  ∃ stream list st, t.input = .poll (.headers stream list) ∧ accepts list = true ∧ f = stream / 4 ∧
    t.before.byAddr.lookup src = some st ∧ st.flowId = some f

def Accepted (src : SocketAddr) (t : SessionTurn) : Prop := ∃ f, AcceptedAs src f t

@[simp] theorem arrivals_append (src : SocketAddr) (log log' : List SessionTurn) :
    arrivals src (log ++ log') = arrivals src log ++ arrivals src log' := List.filterMap_append

private theorem arrivals_singleton (src : SocketAddr) (t : SessionTurn) :
    arrivals src [t] = (arrival src t).toList := by
  cases h : arrival src t <;> simp [arrivals, h]

@[simp] theorem handed_append (src : SocketAddr) (log log' : List SessionTurn) :
    handed src (log ++ log') = handed src log ++ handed src log' := by
  rw [handed, effects_append, List.filterMap_append]
  rfl

theorem handed_singleton (src : SocketAddr) (t : SessionTurn) :
    handed src [t] = t.emitted.filterMap (keyed sentBy src) := by
  rw [handed, effects_singleton]

/-- Whether the flow of a source is established, and what is buffered for it. -/
def phaseOf (s : Session) (src : SocketAddr) : Option (Bool × List Bytes) :=
  (s.byAddr.lookup src).map fun st => (st.established, st.pending)

/-- A step as the source sees it. -/
inductive SourceTurn (src : SocketAddr) (t : SessionTurn) : Prop
  | forwarded (data : Bytes) (ha : arrival src t = some data) (hb : phaseOf t.before src = some (true, []))
      (hn : phaseOf t.after src = some (true, [])) (hh : handed src [t] = [data])
  | buffered (data : Bytes) (pending : List Bytes) (ha : arrival src t = some data)
      (hb : (phaseOf t.before src).getD (false, []) = (false, pending))
      (hn : phaseOf t.after src =
        some (false, if pending.length < maxPending then pending ++ [data] else pending))
      (hh : handed src [t] = [])
  | accepted (e : Bool) (pending : List Bytes) (ha : arrival src t = none) (hacc : Accepted src t)
      (hb : phaseOf t.before src = some (e, pending)) (hn : phaseOf t.after src = some (true, []))
      (hh : handed src [t] = pending)
  | quiet (ha : arrival src t = none) (hacc : ¬ Accepted src t)
      (hn : phaseOf t.after src = phaseOf t.before src ∨ phaseOf t.after src = none)
      (hh : handed src [t] = [])

/-- Only response headers accept a flow. -/
private theorem not_accepted {src : SocketAddr} {t : SessionTurn}
    (h : ∀ stream list, t.input ≠ .poll (.headers stream list)) : ¬ Accepted src t := by
  rintro ⟨f, stream, list, st, hinput, -⟩
  exact h stream list hinput

private theorem phaseOf_insert (s : Session) (src src' : SocketAddr) (st : FlowState) :
    phaseOf { s with byAddr := s.byAddr.insert src st } src' =
      if src' = src then some (st.established, st.pending) else s.phaseOf src' := by
  simp only [phaseOf, Table.lookup_insert_ite]
  split <;> rfl

/-- The datagram of a source whose flow is not established is buffered. -/
private theorem onLocal_buffered {s : Session} {src : SocketAddr} {pending : List Bytes}
    (hb : (s.phaseOf src).getD (false, []) = (false, pending)) (data : Bytes) :
    phaseOf (s.onLocal src data).1 src =
        some (false, if pending.length < maxPending then pending ++ [data] else pending) ∧
      (s.onLocal src data).2 = [.received src data] := by
  have hst : ((s.byAddr.lookup src).getD ⟨none, false, []⟩).established = false ∧
      ((s.byAddr.lookup src).getD ⟨none, false, []⟩).pending = pending := by
    cases hs : s.byAddr.lookup src <;> simpa [phaseOf, hs] using hb
  simp only [onLocal, hst.1, hst.2]
  simp [phaseOf_insert]

private theorem onLocal_forwarded {s : Session} (hc : Coherent s) {src : SocketAddr} {st : FlowState}
    (hst : s.byAddr.lookup src = some st) (hest : st.established = true) (data : Bytes) :
    ∃ f, s.phaseOf src = some (true, []) ∧ phaseOf (s.onLocal src data).1 src = some (true, []) ∧
      (s.onLocal src data).2 = [.received src data, .sendDatagram src f data] := by
  obtain ⟨hid, hpending⟩ := hc.established src st hst hest
  obtain ⟨f, hf⟩ := Option.isSome_iff_exists.mp hid
  refine ⟨f, by simp [phaseOf, hst, hest, hpending], ?_⟩
  simp [onLocal, hst, hest, hf, phaseOf_insert, hpending]

private theorem onLocal_sourceTurn {s : Session} (hc : Coherent s) (d : Dialed) (src src' : SocketAddr)
    (data : Bytes) :
    SourceTurn src ⟨s, .localDatagram src' data, (s.act d (.localDatagram src' data)).1,
      (s.act d (.localDatagram src' data)).2⟩ := by
  by_cases hsrc : src' = src
  · subst hsrc
    have harrival (s' : Session) (es : List SessionEffect) :
        arrival src' ⟨s, .localDatagram src' data, s', es⟩ = some data := if_pos rfl
    cases hp : (s.phaseOf src').getD (false, []) with
    | mk e pending =>
      cases e with
      | false =>
        obtain ⟨hafter, hes⟩ := onLocal_buffered hp data
        refine .buffered data pending (harrival _ _) hp hafter ?_
        simp [handed_singleton, act, hes, keyed, sentBy]
      | true =>
        cases hst : s.byAddr.lookup src' with
        | none => simp [phaseOf, hst] at hp
        | some st =>
          have hest : st.established = true := by
            simp only [phaseOf, hst, Option.map_some, Option.getD_some, Prod.mk.injEq] at hp
            exact hp.1
          obtain ⟨f, hbefore, hafter, hes⟩ := onLocal_forwarded hc hst hest data
          refine .forwarded data (harrival _ _) hbefore hafter ?_
          simp [handed_singleton, act, hes, keyed, sentBy, List.filterMap_cons]
  · refine .quiet (by simp [arrival, hsrc]) (not_accepted (by simp)) (.inl ?_) ?_
    · simp only [act, onLocal]
      split <;> simp [phaseOf_insert, Ne.symm hsrc]
    · rw [handed_singleton]
      simp only [act, onLocal]
      split <;> simp [keyed, sentBy, hsrc]

/-- Asking for flows changes neither what is established nor what is buffered. -/
private theorem phaseOf_openOne (d : Dialed) (outcome : SocketAddr → RequestOutcome)
    (loop : Session × List SocketAddr) (src src' : SocketAddr) :
    (openOne d outcome loop src).1.1.phaseOf src' = loop.1.phaseOf src' := by
  unfold openOne
  split
  · rfl
  rename_i st hst
  split_ifs
  · rfl
  split
  · simp only [phaseOf, Table.lookup_insert_ite]
    split
    · rename_i heq
      rw [heq, hst]
      rfl
    · rfl
  all_goals rfl

private theorem phaseOf_openPendingFlows (d : Dialed) (outcome : SocketAddr → RequestOutcome) (s : Session)
    (src : SocketAddr) :
    (s.openPendingFlows d outcome).1.phaseOf src = s.phaseOf src ∨
      (s.openPendingFlows d outcome).1.phaseOf src = none := by
  have hloop : (drive (openOne d outcome) (s, []) s.byAddr.keys).1.1.phaseOf src = s.phaseOf src :=
    drive_keeps (P := fun _ loop => loop.1.phaseOf src = s.phaseOf src) (t := []) s.byAddr.keys
      (fun _ loop src' _ hp => (phaseOf_openOne d outcome loop src' src).trans hp) rfl
  rw [← hloop]
  simp only [openPendingFlows, phaseOf, Table.lookup_eraseAll]
  split
  · exact .inr rfl
  · exact .inl rfl

private theorem phaseOf_dropFlow (s : Session) (fid : UInt64) (src : SocketAddr) :
    (s.dropFlow fid).phaseOf src = s.phaseOf src ∨ (s.dropFlow fid).phaseOf src = none := by
  unfold dropFlow
  split
  · exact .inl rfl
  · simp only [phaseOf, Table.lookup_erase_ite]
    split
    · exact .inr rfl
    · exact .inl rfl

/-- What a source sees of a step that emits nothing for it. -/
private theorem handed_nil {src : SocketAddr} {t : SessionTurn}
    (h : ∀ e ∈ t.emitted, ∀ src' f p, e = .sendDatagram src' f p → src' ≠ src) : handed src [t] = [] := by
  rw [handed_singleton, List.filterMap_eq_nil_iff]
  intro e he
  cases e with
  | sendDatagram src' f p => simp [keyed, sentBy, h _ he src' f p rfl]
  | _ => rfl

private theorem accepted_sourceTurn {s : Session} (hc : Coherent s) {stream : UInt64}
    {list : List Header} (ha : accepts list = true) (src : SocketAddr) :
    SourceTurn src ⟨s, .poll (.headers stream list), (s.accepted (stream / 4)).1,
      (s.accepted (stream / 4)).2⟩ := by
  cases hf : s.flows.lookup (stream / 4) with
  | none =>
    refine .quiet rfl ?_ (.inl (by simp [accepted, hf])) (by simp [accepted, hf, handed_singleton])
    rintro ⟨f, stream', list', st, hinput, -, rfl, hst, hid⟩
    cases hinput
    rw [(hc.inverse _ _).mpr ⟨st, hst, hid⟩] at hf
    cases hf
  | some owner =>
    obtain ⟨st, hst, hid⟩ := (hc.inverse _ _).mp hf
    by_cases hsrc : owner = src
    · subst hsrc
      refine .accepted st.established st.pending rfl ⟨_, stream, list, st, rfl, ha, rfl, hst, hid⟩ ?_ ?_ ?_
      · simp [phaseOf, hst]
      · simp [accepted, hf, hst, phaseOf_insert]
      · simp [accepted, hf, hst, handed_singleton, List.filterMap_map, Function.comp_def, keyed, sentBy]
    · refine .quiet rfl ?_ (.inl ?_) (handed_nil ?_)
      · rintro ⟨f, stream', list', st', hinput, -, rfl, hst', hid'⟩
        cases hinput
        have hsame := (hc.inverse _ _).mpr ⟨st', hst', hid'⟩
        exact hsrc (Option.some.inj (hf.symm.trans hsame))
      · simp [accepted, hf, hst, phaseOf_insert, Ne.symm hsrc]
      · simp only [accepted, hf, hst, List.mem_map]
        rintro e ⟨p, -, rfl⟩ src' f p' ⟨⟩
        exact hsrc

private theorem onResponse_sourceTurn {s : Session} (hc : Coherent s) (event : ResponseEvent)
    (src : SocketAddr) :
    SourceTurn src ⟨s, .poll event, (s.onResponse event).1, (s.onResponse event).2⟩ := by
  cases event with
  | headers stream list =>
    have hrefused (hno : accepts list = false) (s' : Session) (es : List SessionEffect) :
        ¬ Accepted src ⟨s, .poll (.headers stream list), s', es⟩ := by
      rintro ⟨f, stream', list', st, hinput, ha, -⟩
      cases hinput
      rw [hno] at ha
      cases ha
    cases hstatus : statusOf list with
    | none =>
      simp only [onResponse, hstatus]
      exact .quiet rfl (hrefused (by simp [accepts, hstatus]) _ _) (.inl rfl) (handed_nil (by simp))
    | some status =>
      by_cases hok : 200 ≤ status ∧ status < 300
      · simp only [onResponse, hstatus, if_pos hok]
        exact accepted_sourceTurn hc (by simp [accepts, hstatus, hok]) src
      · simp only [onResponse, hstatus, if_neg hok]
        exact .quiet rfl (hrefused (by simpa [accepts, hstatus] using hok) _ _)
          (phaseOf_dropFlow s _ src) (handed_nil (by simp))
  | finished stream | reset stream code =>
    exact .quiet rfl (not_accepted (by simp)) (phaseOf_dropFlow s _ src) (handed_nil (by simp [onResponse]))
  | other stream =>
    exact .quiet rfl (not_accepted (by simp)) (.inl rfl) (handed_nil (by simp [onResponse]))

/-- Every step of a coherent session, seen from any source. -/
theorem act_sourceTurn {s : Session} (hc : Coherent s) (d : Dialed) (a : SessionAct) (src : SocketAddr) :
    SourceTurn src ⟨s, a, (s.act d a).1, (s.act d a).2⟩ := by
  have hemitted := act_emitted hc d a
  cases a with
  | localDatagram src' data => exact onLocal_sourceTurn hc d src src' data
  | openPending outcome =>
    refine .quiet rfl (not_accepted (by simp)) (phaseOf_openPendingFlows d outcome s src) (handed_nil ?_)
    rintro e he src' f p rfl
    cases hemitted with
    | requested _ _ hreq =>
      obtain ⟨_, _, heq, -⟩ := hreq _ he
      cases heq
  | poll event => exact onResponse_sourceTurn hc event src
  | route datagram =>
    refine .quiet rfl (not_accepted (by simp)) (.inl rfl) (handed_nil ?_)
    rintro e he src' f p rfl
    generalize (s.act d (.route datagram)).2 = es at he hemitted
    cases hemitted <;> simp at he

/-- The part of a log from the creation of a source's state on, while it is there. -/
structure Lifetime (src : SocketAddr) (life : List SessionTurn) : Prop where
  born : ∃ t rest, life = t :: rest ∧ t.before.byAddr.lookup src = none
  alive : ∀ t ∈ life, (t.after.byAddr.lookup src).isSome

/-- How far a lifetime has come, with what is buffered at its end. -/
inductive Stage (src : SocketAddr) (life : List SessionTurn) : Option (Bool × List Bytes) → Prop
  | waiting (hno : ∀ t ∈ life, ¬ Accepted src t) (hh : handed src life = []) :
      Stage src life (some (false, (arrivals src life).take maxPending))
  | flowing (before : List SessionTurn) (t : SessionTurn) (after : List SessionTurn)
      (heq : life = before ++ t :: after) (hno : ∀ t' ∈ before, ¬ Accepted src t') (hacc : Accepted src t)
      (hh : handed src life = (arrivals src before).take maxPending ++ arrivals src after) :
      Stage src life (some (true, []))

/-- A full buffer takes nothing more. -/
private theorem take_concat {α : Type} (xs : List α) (x : α) (n : Nat) :
    (xs ++ [x]).take n = if (xs.take n).length < n then xs.take n ++ [x] else xs.take n := by
  rw [List.take_append, List.length_take]
  split
  · have hlt : xs.length < n := by omega
    have hroom : [x].length ≤ n - xs.length := by
      rw [List.length_singleton]
      omega
    rw [List.take_of_length_le (Nat.le_of_lt hlt), List.take_of_length_le hroom]
  · rw [show n - xs.length = 0 by omega, List.take_zero, List.append_nil]

theorem not_accepted_of_arrival {src : SocketAddr} {t : SessionTurn} {data : Bytes}
    (h : arrival src t = some data) : ¬ Accepted src t := by
  rintro ⟨f, stream, list, st, hinput, -⟩
  simp [arrival, hinput] at h

private theorem Stage.birth {src : SocketAddr} {t : SessionTurn} (h : SourceTurn src t)
    (hb : phaseOf t.before src = none) (hn : phaseOf t.after src ≠ none) :
    Stage src [t] (phaseOf t.after src) := by
  cases h with
  | forwarded data ha hbefore hafter hh =>
    rw [hb] at hbefore
    cases hbefore
  | buffered data pending ha hbefore hafter hh =>
    rw [hb] at hbefore
    cases hbefore
    have hstage : Stage src [t] _ := .waiting (by simpa using not_accepted_of_arrival ha) hh
    rw [hafter]
    simpa [arrivals_singleton, ha, maxPending] using hstage
  | accepted e pending ha hacc hbefore hafter hh =>
    rw [hb] at hbefore
    cases hbefore
  | quiet ha hacc hafter hh =>
    rcases hafter with hsame | hgone
    · exact absurd (hsame.trans hb) hn
    · exact absurd hgone hn

private theorem Stage.keepWaiting {src : SocketAddr} {life : List SessionTurn} {t : SessionTurn}
    (hno : ∀ t' ∈ life, ¬ Accepted src t') (hh : handed src life = []) (hacc : ¬ Accepted src t)
    (hhanded : handed src [t] = []) :
    Stage src (life ++ [t]) (some (false, (arrivals src life ++ (arrival src t).toList).take maxPending)) := by
  rw [← arrivals_singleton, ← arrivals_append]
  refine .waiting ?_ (by rw [handed_append, hh, hhanded]; rfl)
  intro t' ht'
  rcases List.mem_append.mp ht' with hold | hnew
  · exact hno t' hold
  · cases List.mem_singleton.mp hnew
    exact hacc

private theorem Stage.keepFlowing {src : SocketAddr} {life : List SessionTurn} {t : SessionTurn}
    (h : Stage src life (some (true, []))) (hhanded : handed src [t] = (arrival src t).toList) :
    Stage src (life ++ [t]) (some (true, [])) := by
  cases h with
  | flowing before t0 after heq hno hacc hh =>
    refine .flowing before t0 (after ++ [t]) (by simp [heq]) hno hacc ?_
    rw [handed_append, hh, hhanded, arrivals_append, arrivals_singleton, List.append_assoc]

/-- A lifetime grows by one step. -/
private theorem Stage.snoc {src : SocketAddr} {life : List SessionTurn} {t : SessionTurn}
    (hs : Stage src life (phaseOf t.before src)) (h : SourceTurn src t) (hn : phaseOf t.after src ≠ none) :
    Stage src (life ++ [t]) (phaseOf t.after src) := by
  generalize hphase : phaseOf t.before src = phase at hs
  cases hs with
  | waiting hno hh =>
    cases h with
    | forwarded data ha hb hafter hhanded =>
      rw [hphase] at hb
      cases hb
    | buffered data pending ha hb hafter hhanded =>
      rw [hphase] at hb
      cases hb
      rw [hafter, ← take_concat]
      have hstage := Stage.keepWaiting hno hh (not_accepted_of_arrival ha) hhanded
      rwa [ha] at hstage
    | accepted e pending ha hacc hb hafter hhanded =>
      rw [hphase] at hb
      cases hb
      rw [hafter]
      refine .flowing life t [] rfl hno hacc ?_
      rw [handed_append, hh, hhanded]
      simp [arrivals]
    | quiet ha hacc hafter hhanded =>
      rcases hafter with hsame | hgone
      · rw [hsame, hphase]
        have hstage := Stage.keepWaiting hno hh hacc hhanded
        rwa [ha, Option.toList_none, List.append_nil] at hstage
      · exact absurd hgone hn
  | flowing before t0 after heq hno hacc0 hh =>
    have hstage : Stage src life (some (true, [])) := .flowing before t0 after heq hno hacc0 hh
    cases h with
    | forwarded data ha hb hafter hhanded =>
      rw [hafter]
      exact hstage.keepFlowing (by rw [hhanded, ha]; rfl)
    | buffered data pending ha hb hafter hhanded =>
      rw [hphase] at hb
      cases hb
    | accepted e pending ha hacc hb hafter hhanded =>
      rw [hphase] at hb
      cases hb
      rw [hafter]
      exact hstage.keepFlowing (by rw [hhanded, ha]; rfl)
    | quiet ha hacc hafter hhanded =>
      rcases hafter with hsame | hgone
      · rw [hsame, hphase]
        exact hstage.keepFlowing (by rw [hhanded, ha]; rfl)
      · exact absurd hgone hn

theorem SessionLog.turn {d : Dialed} {log pre post : List SessionTurn} {t : SessionTurn} {s : Session}
    (h : SessionLog d log s) (heq : log = pre ++ t :: post) :
    SessionRun d (effects pre) t.before ∧ Granted (effects pre) t.input ∧
      t.before.act d t.input = (t.after, t.emitted) := by
  obtain ⟨hpre, hok, hstep⟩ := Run.turn h heq
  exact ⟨Run.of_log hpre, hok, Option.some.inj hstep⟩

private theorem SessionLog.sourceTurn {d : Dialed} {log pre post : List SessionTurn} {t : SessionTurn} {s : Session}
    (h : SessionLog d log s) (heq : log = pre ++ t :: post) (src : SocketAddr) : SourceTurn src t := by
  obtain ⟨hrun, -, hact⟩ := h.turn heq
  have hturn := act_sourceTurn hrun.sound.1 d t.input src
  rwa [hact] at hturn

private theorem phaseOf_eq_none {s : Session} {src : SocketAddr} :
    s.phaseOf src = none ↔ s.byAddr.lookup src = none := by
  simp [phaseOf]

/-- Every lifetime in a log is in one of its stages, by induction on its steps. -/
private theorem SessionLog.stage {d : Dialed} {log : List SessionTurn} {s : Session} (h : SessionLog d log s)
    {src : SocketAddr} {pre life post : List SessionTurn} (heq : log = pre ++ life ++ post)
    (hl : Lifetime src life) : ∃ rest t, life = rest ++ [t] ∧ Stage src life (phaseOf t.after src) := by
  induction life using List.reverseRecOn generalizing post with
  | nil =>
    obtain ⟨t, rest, hnil, -⟩ := hl.born
    cases hnil
  | append_singleton life t ih =>
    have heq' : log = (pre ++ life) ++ t :: post := by simpa using heq
    have hturn := h.sourceTurn heq' src
    have hafter : phaseOf t.after src ≠ none := by
      rw [Ne, phaseOf_eq_none, ← Ne, ← Option.isSome_iff_ne_none]
      exact hl.alive t (by simp)
    refine ⟨life, t, rfl, ?_⟩
    obtain ⟨first, rest, hfirst, hborn⟩ := hl.born
    cases life with
    | nil =>
      cases hfirst
      exact Stage.birth hturn (phaseOf_eq_none.mpr hborn) hafter
    | cons head life =>
      cases hfirst
      have hshorter : Lifetime src (first :: life) :=
        ⟨⟨first, life, rfl, hborn⟩, fun t' ht' => hl.alive t' (List.mem_append_left _ ht')⟩
      have hcut : log = pre ++ (first :: life) ++ t :: post := by simpa using heq
      obtain ⟨rest, t0, hrest, hstage⟩ := ih hcut hshorter
      -- the step starts where the lifetime so far ended
      have hbefore : t.before = t0.after := by
        obtain ⟨hpre, -, -⟩ := Run.turn h heq'
        rw [hrest, ← List.append_assoc] at hpre
        exact hpre.last
      rw [← hbefore] at hstage
      exact hstage.snoc hturn hafter

/-- What enters the tunnel for a source during a lifetime. -/
structure InOrder (src : SocketAddr) (life : List SessionTurn) : Prop where
  never : (∀ t ∈ life, ¬ Accepted src t) → handed src life = []
  once : ∀ before t after, life = before ++ t :: after → (∀ t' ∈ before, ¬ Accepted src t') →
    Accepted src t → handed src life = (arrivals src before).take maxPending ++ arrivals src after

private theorem Stage.inOrder {src : SocketAddr} {life : List SessionTurn} {phase : Option (Bool × List Bytes)}
    (h : Stage src life phase) : InOrder src life := by
  cases h with
  | waiting hno hh =>
    refine ⟨fun _ => hh, fun before t after heq _ hacc => ?_⟩
    exact absurd hacc (hno t (by simp [heq]))
  | flowing before t after heq hno hacc hh =>
    refine ⟨fun hnone => absurd hacc (hnone t (by simp [heq])), ?_⟩
    intro before' t' after' heq' hno' hacc'
    obtain ⟨rfl, rfl⟩ := first_unique (heq.symm.trans heq') hno hacc hno' hacc'
    exact hh

/-- An established flow was accepted by a step on record. -/
private theorem SessionLog.established {d : Dialed} {log : List SessionTurn} {s : Session}
    (h : SessionLog d log s) {src : SocketAddr} {st : FlowState} {f : UInt64}
    (hst : s.byAddr.lookup src = some st) (hest : st.established = true) (hid : st.flowId = some f) :
    ∃ t ∈ log, AcceptedAs src f t := by
  refine Run.invariant (P := fun log s => ∀ src st f, s.byAddr.lookup src = some st →
    st.established = true → st.flowId = some f → ∃ t ∈ log, AcceptedAs src f t) ?_ ?_ h src st f hst hest hid
  · intro src st f hst
    cases hst
  intro log s a s' ts hr ih ha hs src st f hst hest hid
  obtain ⟨es, hstep, rfl⟩ := logged_eq_some hs
  have hact : s.act d a = (s', es) := Option.some.inj hstep
  have hrun : SessionRun d (effects log) s := Run.of_log hr
  obtain ⟨hc, hrequested⟩ := hrun.sound
  have hsound := act_sound d ha hc hrequested
  rw [hact] at hsound
  have hst' : (s.act d a).1.byAddr.lookup src = some st := by rwa [hact]
  rcases act_established hc d a hst' hest hid with ⟨st', hst', hest', hid'⟩ | ⟨stream, list, rfl, haccept, hf⟩
  · obtain ⟨t, ht, hacc⟩ := ih src st' f hst' hest' hid'
    exact ⟨t, List.mem_append_left _ ht, hacc⟩
  · have hflow := (hsound.1.inverse f src).mpr ⟨st, hst, hid⟩
    have hresponse : s.onResponse (.headers stream list) = (s', es) := hact
    have hbefore : s.flows.lookup f = some src := by
      rw [← show (s.onResponse (.headers stream list)).1 = s' by rw [hresponse]] at hflow
      exact flows_onResponse hflow
    obtain ⟨st', hst', hid'⟩ := (hc.inverse f src).mp hbefore
    exact ⟨_, List.mem_append_right _ List.mem_cons_self, stream, list, st', rfl, haccept, hf, hst', hid'⟩

/-- A datagram is sent on the flow its source has, not before the step that
processes the flow's 2xx. -/
def AfterAccepted (pre : List SessionTurn) (t : SessionTurn) : Prop :=
  ∀ src f p, .sendDatagram src f p ∈ t.emitted →
    (∃ st, t.before.byAddr.lookup src = some st ∧ st.flowId = some f) ∧
      ∃ t' ∈ pre ++ [t], AcceptedAs src f t'

private theorem SessionLog.afterAccepted {d : Dialed} {log : List SessionTurn} {s : Session}
    (h : SessionLog d log s) : Throughout AfterAccepted log := by
  intro pre t post heq src f p hmem
  obtain ⟨hpre, -, -⟩ := Run.turn h heq
  obtain ⟨hrun, -, hact⟩ := h.turn heq
  have hc := hrun.sound.1
  have hemitted := act_emitted hc d t.input
  rw [hact] at hemitted
  obtain ⟨before, input, after, emitted⟩ := t
  cases hemitted with
  | forwarded src' data st f' hst hest hid =>
    obtain ⟨rfl, rfl, -⟩ : src = src' ∧ f = f' ∧ p = data := by simpa using hmem
    obtain ⟨t', ht', hacc⟩ := SessionLog.established hpre hst hest hid
    exact ⟨⟨st, hst, hid⟩, t', List.mem_append_left _ ht', hacc⟩
  | released stream list src' st haccept hf hst =>
    obtain ⟨payload, -, heq⟩ := List.mem_map.mp hmem
    cases heq
    obtain ⟨st', hst', hid⟩ := (hc.inverse _ _).mp hf
    exact ⟨⟨st', hst', hid⟩, _, List.mem_append_right _ List.mem_cons_self, stream, list, st', rfl, haccept, rfl,
      hst', hid⟩
  | requested outcome _ hreq =>
    obtain ⟨_, _, heq, -⟩ := hreq _ hmem
    cases heq
  | _ => simp at hmem

private theorem SourceTurn.gone {src : SocketAddr} {t : SessionTurn} (h : SourceTurn src t)
    (hgone : t.after.byAddr.lookup src = none) : handed src [t] = [] := by
  rw [← phaseOf_eq_none] at hgone
  cases h with
  | quiet ha hacc hn hh => exact hh
  | forwarded data ha hb hn hh | buffered data pending ha hb hn hh | accepted e pending ha hacc hb hn hh =>
    rw [hgone] at hn
    cases hn

/-- In every run, during each lifetime of a source's state, its datagrams are
sent in the order they arrived, the buffered ones up to the bound first; outside
of its lifetimes none is; and none is sent before its flow's 2xx. -/
theorem local_datagrams_in_order {d : Dialed} {log : List SessionTurn} {s : Session}
    (h : SessionLog d log s) :
    (∀ src pre life post, log = pre ++ life ++ post → Lifetime src life → InOrder src life) ∧
      (∀ src, ∀ t ∈ log, t.after.byAddr.lookup src = none → handed src [t] = []) ∧
      Throughout AfterAccepted log := by
  refine ⟨?_, ?_, h.afterAccepted⟩
  · intro src pre life post heq hl
    obtain ⟨_, _, -, hstage⟩ := h.stage heq hl
    exact hstage.inOrder
  · intro src t ht hgone
    obtain ⟨pre, post, heq⟩ := List.append_of_mem ht
    exact (h.sourceTurn heq src).gone hgone

/-- Two datagrams wait for the flow to be accepted, a third one does not. -/
theorem local_datagrams_in_order_early :
    ∃ log s src, SessionLog ⟨"proxy:4433", "/masque"⟩ log s ∧ Lifetime src log ∧
      handed src log = [[1], [2], [3]] := by
  have hfirst : SessionLog ⟨"proxy:4433", "/masque"⟩ _ _ :=
    .next (.localDatagram (.v4 0x7f000001 9000) [1]) .init (by rintro _ ⟨⟩) rfl
  have hsecond := Run.next (.localDatagram (.v4 0x7f000001 9000) [2]) hfirst (by rintro _ ⟨⟩) rfl
  have hasked := Run.next (.openPending (oneStream (.v4 0x7f000001 9000) 0)) hsecond
    (by rintro _ ⟨⟩; exact oneStream_fresh rfl (by decide)) rfl
  have haccepted := Run.next (.poll (.headers 0 [⟨utf8 ":status", utf8 "200"⟩])) hasked (by rintro _ ⟨⟩) rfl
  have hthird : SessionLog ⟨"proxy:4433", "/masque"⟩ _ _ :=
    Run.next (.localDatagram (.v4 0x7f000001 9000) [3]) haccepted (by rintro _ ⟨⟩) rfl
  have horder := (local_datagrams_in_order hthird).1 (.v4 0x7f000001 9000) [] _ [] (List.append_nil _).symm
    ⟨⟨_, _, rfl, rfl⟩, by decide⟩
  refine ⟨_, _, _, hthird, ⟨⟨_, _, rfl, rfl⟩, by decide⟩,
    (horder.once (_ :: _ :: _ :: []) _ (_ :: []) rfl ?_ ?_).trans (by decide)⟩
  · intro t ht
    simp only [List.mem_cons, List.not_mem_nil, or_false] at ht
    rcases ht with rfl | rfl | rfl <;> exact not_accepted (by simp)
  · exact ⟨0, 0, _, _, rfl, by decide, rfl, rfl, rfl⟩

end ZeroMasque.Session
