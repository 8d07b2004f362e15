import ZeroMasque.Client.Lifetimes
import ZeroMasque.Foundation.Queues

/-! The order of a source's datagrams in a session: what enters the tunnel, then what
is buffered, is a part of what arrived. -/
namespace ZeroMasque.Session
open Foundation
open scoped List

private theorem pendingOf_phaseOf (s : Session) (src : SocketAddr) :
    s.pendingOf src = ((s.phaseOf src).map Prod.snd).getD [] := by
  simp only [pendingOf, phaseOf, Option.map_map]
  rfl

/-- A step as the source sees it puts out and keeps its datagrams in order. -/
private theorem SourceTurn.ordered {src : SocketAddr} {t : SessionTurn} (h : SourceTurn src t) :
    handed src [t] ++ t.after.pendingOf src <+ t.before.pendingOf src ++ (arrival src t).toList := by
  rw [pendingOf_phaseOf, pendingOf_phaseOf]
  cases h with
  | forwarded data ha hb hn hh => simp [ha, hb, hn, hh]
  | buffered data pending ha hb hn hh =>
    have hbefore : ((t.before.phaseOf src).map Prod.snd).getD [] = pending := by
      cases hp : t.before.phaseOf src with
      | none =>
        rw [hp] at hb
        exact congrArg Prod.snd hb
      | some phase =>
        rw [hp] at hb
        exact congrArg Prod.snd hb
    rw [hbefore, ha, hn, hh]
    simp only [Option.map_some, Option.getD_some, Option.toList_some, List.nil_append]
    split
    · exact .refl _
    · exact List.sublist_append_left _ _
  | accepted e pending ha hacc hb hn hh => simp [ha, hb, hn, hh]
  | quiet ha hacc hn hh =>
    rcases hn with hsame | hgone
    · simp [ha, hh, hsame]
    · simp [hgone, hh]

/-- The local datagram that an action dispatches. -/
def localOf : SessionAct → Option (SocketAddr × Bytes)
  | .localDatagram src data => some (src, data)
  | _ => none

private theorem act_ordered {s : Session} (hc : Coherent s) (d : Dialed) (a : SessionAct) (src : SocketAddr) :
    (s.act d a).2.filterMap (keyed sentBy src) ++ (s.act d a).1.pendingOf src <+
      s.pendingOf src ++ (keyed localOf src a).toList := by
  have h := (act_sourceTurn hc d a src).ordered
  rw [handed_singleton] at h
  cases a <;> exact h

/-- An action receives what it dispatches. -/
private theorem act_received {s : Session} (hc : Coherent s) (d : Dialed) (a : SessionAct) :
    (s.act d a).2.filterMap receivedFrom = (localOf a).toList := by
  have hemitted := act_emitted hc d a
  generalize (s.act d a).2 = es at hemitted
  cases hemitted with
  | requested outcome es he =>
    refine List.filterMap_eq_nil_iff.mpr fun e hmem => ?_
    obtain ⟨src, stream, rfl, -⟩ := he e hmem
    rfl
  | released stream list src st ha hf hst => simp [localOf, receivedFrom, List.filterMap_map, Function.comp_def]
  | _ => rfl

/-- What a session puts into the tunnel for a source, then what it buffers, is a part of
what it received from the source, in order. -/
theorem SessionRun.ordered {d : Dialed} {tr : List SessionEffect} {s : Session} (h : SessionRun d tr s)
    (src : SocketAddr) :
    tr.filterMap (keyed sentBy src) ++ s.pendingOf src <+ tr.filterMap (keyed receivedFrom src) := by
  rw [List.filterMap_eq_flatMap_toList, List.filterMap_eq_flatMap_toList]
  refine Run.ordered (fun s => s.pendingOf src) rfl ?_ h
  intro tr s a s' es hr ha hs
  have hc := (SessionRun.sound hr).1
  have hordered := act_ordered hc d a src
  have hreceived : (s.act d a).2.filterMap (keyed receivedFrom src) = (keyed localOf src a).toList := by
    rw [filterMap_keyed, act_received hc, keyed]
    cases localOf a <;> rfl
  rw [← hreceived, Option.some.inj hs] at hordered
  rwa [← List.filterMap_eq_flatMap_toList, ← List.filterMap_eq_flatMap_toList]

theorem filterMap_cons_toList {α β : Type} (g : α → Option β) (a : α) (as : List α) :
    (a :: as).filterMap g = (g a).toList ++ as.filterMap g := by
  cases h : g a <;> simp [h]

section Burst
variable {d : Dialed} {tr : List SessionEffect} {s : Session} {as : List SessionAct}

/-- The same for a burst of actions that the library's answers allow. -/
theorem drive_ordered (h : SessionRun d tr s) (ha : Allowed (act d) (fun tr _ a => Granted tr a) tr s as)
    (src : SocketAddr) :
    (drive (act d) s as).2.filterMap (keyed sentBy src) ++ (drive (act d) s as).1.pendingOf src <+
      s.pendingOf src ++ as.filterMap (keyed localOf src) := by
  induction as generalizing tr s with
  | nil => simp
  | cons a as ih =>
    have hfirst := act_ordered h.sound.1 d a src
    have hnext : SessionRun d (tr ++ (s.act d a).2) (s.act d a).1 := .next a h ha.1 rfl
    rw [drive_cons, List.filterMap_append, filterMap_cons_toList]
    exact relay_trans hfirst (ih hnext ha.2)

theorem drive_received (h : SessionRun d tr s) (ha : Allowed (act d) (fun tr _ a => Granted tr a) tr s as) :
    (drive (act d) s as).2.filterMap receivedFrom = as.filterMap localOf := by
  induction as generalizing tr s with
  | nil => rfl
  | cons a as ih =>
    have hnext : SessionRun d (tr ++ (s.act d a).2) (s.act d a).1 := .next a h ha.1 rfl
    rw [drive_cons, List.filterMap_append, filterMap_cons_toList, act_received h.sound.1, ih hnext ha.2]

end Burst

/-- A pass dispatches the local datagrams it is given, in order. -/
theorem Pass.dispatches (p : Pass) : p.acts.filterMap localOf = p.locals := by
  have hlocals : (p.locals.map fun l => SessionAct.localDatagram l.1 l.2).filterMap localOf = p.locals := by
    simp [List.filterMap_map, Function.comp_def, localOf]
  have hothers : (SessionAct.openPending p.outcome :: p.events.map SessionAct.poll ++
      p.datagrams.map SessionAct.route).filterMap localOf = [] := by
    rw [List.filterMap_eq_nil_iff]
    intro a ha
    simp only [List.cons_append, List.mem_cons, List.mem_append, List.mem_map] at ha
    rcases ha with rfl | ⟨event, -, rfl⟩ | ⟨datagram, -, rfl⟩ <;> rfl
  rw [Pass.acts, List.filterMap_append, hlocals]
  split
  · rw [hothers, List.append_nil]
  · exact List.append_nil _

end ZeroMasque.Session
