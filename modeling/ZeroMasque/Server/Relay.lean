import ZeroMasque.Foundation.Bags
import ZeroMasque.Server.TargetTasks

/-! What goes through the channel of a task: nothing is written to a target
socket that was not offered to its channel, and nothing is written twice. -/
namespace ZeroMasque.Host
open Foundation Server

def queueOf (tasks : List Task) (channel : Nat) : List Bytes := (tasks[channel]?.map Task.queue).getD []

/-- Payloads written to the target socket of a task. -/
def writtenAt (channel : Nat) : HostEffect → Option Bytes
  | .written number payload _ => if number = channel then some payload else none
  | _ => none

/-- Payloads offered to the channel of a task. -/
def offeredAt (channel : Nat) : HostEffect → Option Bytes
  | .server (.toTarget _ _ number payload _ _) => if number = channel then some payload else none
  | _ => none

theorem queueOf_append (tasks : List Task) {t : Task} (hq : t.queue = []) (channel : Nat) :
    queueOf (tasks ++ [t]) channel = queueOf tasks channel := by
  simp only [queueOf, List.getElem?_append]
  split
  · rfl
  · rename_i hlt
    rw [List.getElem?_eq_none (Nat.le_of_not_lt hlt)]
    cases h : [t][channel - tasks.length]? with
    | none => rfl
    | some t' =>
      obtain rfl := List.mem_singleton.mp (List.mem_of_getElem? h)
      exact hq

private theorem queueOf_offer (tasks : List Task) (channel : Nat) (payload : Bytes) (full : Bool) :
    (queueOf (tasks.modify channel (Task.offer payload full)) channel : Multiset Bytes) ≤
      queueOf tasks channel + {payload} := by
  rw [queueOf, queueOf, List.getElem?_modify_eq]
  cases tasks[channel]? with
  | none => exact Multiset.zero_le _
  | some t =>
    simp only [Option.map_eq_map, Option.map_some, Option.getD_some, Task.offer]
    split
    · rw [← Multiset.coe_add]
      rfl
    · exact Multiset.le_add_right _ _

private theorem queueOf_perform (tasks : List Task) (e : Effect) (channel : Nat) :
    (queueOf (perform tasks e) channel : Multiset Bytes) ≤
      queueOf tasks channel + bag (offeredAt channel) [.server e] := by
  cases e with
  | spawn conn flow number socket =>
    rw [perform, queueOf_append tasks rfl]
    exact Multiset.le_add_right _ _
  | toTarget conn flow number payload full now =>
    by_cases hn : number = channel
    · subst hn
      simpa [perform, offeredAt] using queueOf_offer tasks number payload full
    · simp [perform, queueOf, offeredAt, hn]
  | _ => exact Multiset.le_add_right _ _

private theorem queueOf_foldl (es : List Effect) (tasks : List Task) (channel : Nat) :
    (queueOf (es.foldl perform tasks) channel : Multiset Bytes) ≤
      queueOf tasks channel + bag (offeredAt channel) (es.map .server) := by
  induction es generalizing tasks with
  | nil => simp
  | cons e es ih =>
    rw [List.foldl_cons, List.map_cons, ← List.singleton_append, bag_append, ← add_assoc]
    calc (queueOf (es.foldl perform (perform tasks e)) channel : Multiset Bytes)
        ≤ queueOf (perform tasks e) channel + bag (offeredAt channel) (es.map .server) := ih _
      _ ≤ queueOf tasks channel + bag (offeredAt channel) [.server e] +
          bag (offeredAt channel) (es.map .server) := by
        gcongr
        exact queueOf_perform tasks e channel

private theorem writtenAt_server (channel : Nat) (es : List Effect) :
    bag (writtenAt channel) (es.map .server) = 0 := by
  refine bag_eq_zero fun e he => ?_
  obtain ⟨e, -, rfl⟩ := List.mem_map.mp he
  rfl

theorem queueOf_set {h : Host} {number : Nat} {t : Task} (ht : h.running number = some t)
    (t' : Task) (channel : Nat) :
    queueOf (h.tasks.set number t') channel =
      if number = channel then t'.queue else queueOf h.tasks channel := by
  have hlt := (List.getElem?_eq_some_iff.mp (running_eq_some ht).1).1
  simp only [queueOf, List.getElem?_set, hlt, if_true]
  split <;> rfl

theorem queueOf_running {h : Host} {channel : Nat} {t : Task} (ht : h.running channel = some t) :
    queueOf h.tasks channel = t.queue := by
  rw [queueOf, (running_eq_some ht).1]
  rfl

/-- A step writes and keeps, for a channel, no more than was queued and offered. -/
theorem Transition.queue {h h' : Host} {i : HostAct} {es : List HostEffect} (ht : Transition h i h' es)
    (channel : Nat) :
    bag (writtenAt channel) es + (queueOf h'.tasks channel : Multiset Bytes) ≤
      queueOf h.tasks channel + bag (offeredAt channel) es := by
  have hsame {number : Nat} {t : Task} (hn : h.running number = some t) (running : Bool) :
      queueOf (h.tasks.set number { t with running := running }) channel = queueOf h.tasks channel := by
    rw [queueOf_set hn]
    split_ifs with hch
    · rw [← hch, queueOf_running hn]
    · rfl
  cases ht with
  | served a ha =>
    simp only [serve, writtenAt_server, zero_add]
    exact queueOf_foldl _ h.tasks channel
  | returned tc rest hq =>
    simp only [serve, writtenAt_server, zero_add]
    exact queueOf_foldl _ h.tasks channel
  | forwarded number sent t payload queue ht hq =>
    dsimp only
    rw [queueOf_set ht]
    by_cases hn : number = channel
    · subst hn
      simp [writtenAt, offeredAt, queueOf_running ht, hq, ← Multiset.cons_coe]
    · simp [hn, writtenAt, offeredAt]
  | ended i number t ht hwhy =>
    dsimp only
    rw [hsame ht]
    exact Multiset.le_add_right _ _
  | received number results t ht =>
    dsimp only
    rw [hsame ht, bag_eq_zero, zero_add]
    · exact Multiset.le_add_right _ _
    · intro e he
      rcases List.mem_append.mp he with he | he
      · obtain ⟨r, -, rfl⟩ := List.mem_map.mp he
        rfl
      · split at he <;> simp_all [writtenAt]

end ZeroMasque.Host
