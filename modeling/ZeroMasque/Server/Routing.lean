import ZeroMasque.Server.Flows
import ZeroMasque.Server.Packets

/-! Routing: every route leads to a live connection, every live connection has
the one route it was opened with, and a packet touches one connection only. -/
namespace ZeroMasque.Server
open Foundation

/-- At most the given connection changed, and it is still there if it was. -/
structure Within (conn : Scid) (s s' : Server) : Prop where
  routes : s'.routes = s.routes
  others : ∀ k, k ≠ conn → s'.clients.lookup k = s.clients.lookup k
  present : (s'.clients.lookup conn).isSome = (s.clients.lookup conn).isSome

private theorem Within.refl (conn : Scid) (s : Server) : Within conn s s := ⟨rfl, fun _ _ => rfl, rfl⟩

private theorem Within.trans {conn : Scid} {s s' s'' : Server} (h : Within conn s s')
    (h' : Within conn s' s'') : Within conn s s'' :=
  ⟨h'.routes.trans h.routes, fun k hk => (h'.others k hk).trans (h.others k hk),
    h'.present.trans h.present⟩

private theorem Within.isSome_lookup {conn : Scid} {s s' : Server} (h : Within conn s s') (k : Scid) :
    (s'.clients.lookup k).isSome = (s.clients.lookup k).isSome := by
  by_cases hk : k = conn
  · rw [hk, h.present]
  · rw [h.others k hk]

/-- The actions a packet performs on the connection it is routed to. -/
inductive Action.On (conn : Scid) : Action → Prop
  | recv (peer : SocketAddr) (state : Conn) : On conn (.recv conn peer state)
  | withTransport : On conn (.withTransport conn)
  | poll (event : PollEvent) : On conn (.poll conn event)
  | readClock (elapsed : Duration) : On conn (.readClock elapsed)
  | datagram (bytes : Bytes) (full : Bool) : On conn (.datagram conn bytes full)

private theorem within_modify (s : Server) (conn : Scid) (g : Client → Client) :
    Within conn s { s with clients := Table.modify conn g s.clients } := by
  refine ⟨rfl, fun k hk => ?_, ?_⟩
  · rw [Table.lookup_modify, if_neg hk]
  · rw [Table.lookup_modify, if_pos rfl, Option.isSome_map]

private theorem within_atDesk (s : Server) (conn : Scid) (work : Client → Desk → Desk × List Effect) :
    Within conn s (s.atDesk conn work).1 := by
  refine ⟨atDesk_routes s conn work, fun k hk => ?_, ?_⟩
  · rw [lookup_atDesk, if_neg hk]
  · rw [lookup_atDesk, if_pos rfl, Option.isSome_map]

private theorem local_atDesk {s : Server} {conn : Scid} {work : Client → Desk → Desk × List Effect}
    (h : ∀ client desk, Local conn (work client desk).2) : Local conn (s.atDesk conn work).2 := by
  cases hc : s.clients.lookup conn with
  | none =>
    simp only [atDesk, hc]
    exact List.forall_mem_nil _
  | some client =>
    simp only [atDesk, hc]
    exact h client _

/-- Work on one connection stays within it, tables and effects alike. -/
private theorem Action.On.frame {conn : Scid} {a : Action} (h : Action.On conn a) (s : Server) :
    Within conn s (s.act a).1 ∧ Local conn (s.act a).2 := by
  have hnone : Local conn [] := List.forall_mem_nil _
  cases h with
  | recv peer state => exact ⟨within_modify s conn _, hnone⟩
  | withTransport => exact ⟨within_modify s conn _, hnone⟩
  | readClock elapsed => exact ⟨⟨rfl, fun _ _ => rfl, rfl⟩, hnone⟩
  | datagram bytes full =>
    exact ⟨within_atDesk s conn _, local_atDesk fun _ => relayDatagram_local conn bytes full⟩
  | poll event =>
    cases event with
    | headers stream list answers =>
      exact ⟨within_atDesk s conn _,
        local_atDesk fun _ _ => handleConnectRequest_local _ _ conn _ _ _ _⟩
    | finished stream => exact ⟨within_atDesk s conn _, local_atDesk fun _ => Desk.close_local conn _⟩
    | reset stream code => exact ⟨within_atDesk s conn _, local_atDesk fun _ => Desk.close_local conn _⟩
    | data stream => exact ⟨.refl conn s, hnone⟩
    | other stream => exact ⟨.refl conn s, hnone⟩

private theorem drive_frame {conn : Scid} {acts : List Action} (h : ∀ a ∈ acts, Action.On conn a)
    (s : Server) : Within conn s (drive act s acts).1 ∧ Local conn (drive act s acts).2 := by
  refine drive_keeps (P := fun tr s' => Within conn s s' ∧ Local conn tr) acts ?_
    ⟨.refl conn s, List.forall_mem_nil _⟩
  intro tr s' a ha hp
  obtain ⟨hw, hl⟩ := (h a ha).frame s'
  exact ⟨hp.1.trans hw, List.forall_mem_append.mpr ⟨hp.2, hl⟩⟩

private theorem processClient_frame (s : Server) (conn : Scid) (p : Packet) :
    Within conn s (s.processClient conn p).1 ∧ Local conn (s.processClient conn p).2 := by
  have hnone : Within conn s s ∧ Local conn [] := ⟨.refl conn s, List.forall_mem_nil _⟩
  unfold processClient
  split
  · exact hnone
  split_ifs
  · exact hnone
  · exact hnone
  refine drive_frame ?_ s
  simp only [List.cons_append, List.mem_cons, List.mem_append, List.mem_map]
  rintro a (rfl | ⟨event, _, rfl⟩ | rfl | ⟨d, _, rfl⟩)
  · exact .withTransport
  · exact .poll event
  · exact .readClock p.elapsed
  · exact .datagram d.1 d.2

private theorem receive_frame {s s' : Server} {conn : Scid} {p : Packet} {es : List Effect}
    (h : s.receive conn p = some (s', es)) : Within conn s s' ∧ Local conn es := by
  unfold receive at h
  split at h
  · cases h
  dsimp only at h
  have hrecv := (Action.On.recv p.source p.state : Action.On conn _).frame s
  split_ifs at h
  · obtain ⟨hw, hl⟩ := processClient_frame (s.act (.recv conn p.source p.state)).1 conn p
    rw [Option.some.inj h] at hw hl
    exact ⟨hrecv.1.trans hw, hl⟩
  · cases h
    exact hrecv

private theorem receive_isSome {s : Server} {conn : Scid} (h : (s.clients.lookup conn).isSome) (p : Packet) :
    (s.receive conn p).isSome := by
  obtain ⟨client, hc⟩ := Option.isSome_iff_exists.mp h
  simp only [receive, hc]
  split <;> rfl

/-- What one packet can change: nothing, the connection it is routed to, or one
new connection with its route. -/
inductive PacketFrame (s : Server) (p : Packet) (s' : Server) (es : List Effect) : Prop
  | untouched (hs : s' = s) (he : ∀ e ∈ es, e = .versionNegotiation p.source)
  | routed (hdr : PacketHeader) (conn : Scid) (hp : p.header = some hdr)
      (hroute : s.route hdr.dcid = some conn) (hw : Within conn s s') (hl : Local conn es)
  | admitted (hdr : PacketHeader) (scid : Scid) (state : Conn) (rest : List Effect)
      (hp : p.header = some hdr) (hroute : s.route hdr.dcid = none)
      (ha : p.accepted = some (scid, state))
      (hw : Within scid (s.accept scid hdr.dcid p.source state).1 s')
      (he : es = .accepted scid hdr.dcid :: rest) (hl : Local scid rest)

private theorem onPacket_frame {s s' : Server} {p : Packet} {es : List Effect}
    (h : s.onPacket p = some (s', es)) : PacketFrame s p s' es := by
  unfold onPacket at h
  split at h
  · cases h
    exact .untouched rfl (List.forall_mem_nil _)
  rename_i hdr hp
  split at h
  · rename_i conn hroute
    obtain ⟨hw, hl⟩ := receive_frame h
    exact .routed hdr conn hp hroute hw hl
  rename_i hroute
  split_ifs at h
  · cases h
    exact .untouched rfl (List.forall_mem_nil _)
  · cases h
    exact .untouched rfl (by simp)
  split at h
  · cases h
    exact .untouched rfl (List.forall_mem_nil _)
  · rename_i scid state ha
    obtain ⟨⟨s2, es2⟩, hdone, hpair⟩ := Option.map_eq_some_iff.mp h
    cases hpair
    obtain ⟨hw, hl⟩ := receive_frame hdone
    exact .admitted hdr scid state es2 hp hroute ha hw rfl hl

private theorem route_eq_none {s : Server} {dcid : Bytes} (h : s.route dcid = none) :
    s.routes.lookup dcid = none := by
  unfold route at h
  split at h
  · cases h
  · exact h

/-- Every route leads to a live connection. -/
def Live (s : Server) : Prop := ∀ d c, s.routes.lookup d = some c → (s.clients.lookup c).isSome

/-- The DCID of an effect that accepts a connection. -/
def acceptance (c : Scid) : Effect → Option Bytes
  | .accepted conn dcid => if conn = c then some dcid else none
  | _ => none

/-- The DCID a connection was opened with, read off the trace. -/
def originalDcid (tr : List Effect) (c : Scid) : Option Bytes := latest (acceptance c) tr

/-- Live connections and their original DCIDs correspond one to one. -/
structure Matched (tr : List Effect) (s : Server) : Prop where
  live : Live s
  original : ∀ c, (s.clients.lookup c).isSome →
    ∃ d, originalDcid tr c = some d ∧ ∀ d', s.routes.lookup d' = some c ↔ d' = d

/-- Neither the routes nor the set of connections changed. -/
structure Steady (s s' : Server) : Prop where
  routes : s'.routes = s.routes
  present : ∀ k, (s'.clients.lookup k).isSome = (s.clients.lookup k).isSome

private theorem Within.steady {conn : Scid} {s s' : Server} (h : Within conn s s') : Steady s s' :=
  ⟨h.routes, h.isSome_lookup⟩

private theorem Steady.trans {s s' s'' : Server} (h : Steady s s') (h' : Steady s' s'') : Steady s s'' :=
  ⟨h'.routes.trans h.routes, fun k => (h'.present k).trans (h.present k)⟩

private theorem Live.steady {s s' : Server} (h : Live s) (hs : Steady s s') : Live s' := by
  intro d c hd
  rw [hs.present]
  rw [hs.routes] at hd
  exact h d c hd

private theorem Matched.steady {tr es : List Effect} {s s' : Server} (h : Matched tr s) (hs : Steady s s')
    (he : ∀ c, latest (acceptance c) es = none) : Matched (tr ++ es) s' := by
  refine ⟨h.live.steady hs, fun c hc => ?_⟩
  rw [hs.present] at hc
  rw [originalDcid, latest_append, he, Option.none_or, hs.routes]
  exact h.original c hc

private theorem Live.accept {s : Server} (h : Live s) (scid : Scid) (dcid : Bytes) (peer : SocketAddr)
    (state : Conn) : Live (s.accept scid dcid peer state).1 := by
  intro d c hd
  simp only [Server.accept, Table.lookup_insert_ite] at hd ⊢
  by_cases hc : c = scid
  · rw [if_pos hc]
    rfl
  · rw [if_neg hc]
    split_ifs at hd
    · exact absurd (Option.some.inj hd).symm hc
    · exact h d c hd

private theorem Matched.accept {tr : List Effect} {s : Server} (h : Matched tr s) {scid : Scid} {dcid : Bytes}
    (hnew : s.clients.lookup scid = none) (hfree : s.routes.lookup dcid = none) (peer : SocketAddr)
    (state : Conn) :
    Matched (tr ++ [.accepted scid dcid]) (s.accept scid dcid peer state).1 := by
  refine ⟨h.live.accept scid dcid peer state, fun c hc => ?_⟩
  have hno (d : Bytes) : s.routes.lookup d ≠ some scid := by
    intro hd
    have := h.live d scid hd
    simp [hnew] at this
  simp only [originalDcid, latest_append, latest_singleton, acceptance, Server.accept,
    Table.lookup_insert_ite] at hc ⊢
  by_cases hcs : c = scid
  · subst hcs
    refine ⟨dcid, by simp, fun d' => ?_⟩
    split_ifs with hd
    · simp [hd]
    · simp [hd, hno d']
  · rw [if_neg hcs] at hc
    obtain ⟨d, ho, hd⟩ := h.original c hc
    have hne : d ≠ dcid := by
      rintro rfl
      have hroute := (hd d).mpr rfl
      rw [hfree] at hroute
      cases hroute
    refine ⟨d, ?_, fun d' => ?_⟩
    · rw [if_neg (Ne.symm hcs), Option.none_or]
      exact ho
    split_ifs with hd'
    · subst hd'
      simp [Ne.symm hcs, Ne.symm hne]
    · exact hd d'

private theorem lookup_dropRoutes (dead : List Scid) (routes : Table Bytes Scid) (d : Bytes) :
    (dead.foldl (fun routes cid => Table.retain (fun _ scid => scid != cid) routes) routes).lookup d =
      (routes.lookup d).filter fun c => decide (c ∉ dead) := by
  induction dead generalizing routes with
  | nil => cases hd : routes.lookup d <;> simp [hd, Option.filter]
  | cons cid dead ih =>
    rw [List.foldl_cons, ih, Table.lookup_retain]
    cases routes.lookup d with
    | none => rfl
    | some c => by_cases hc : c = cid <;> simp [hc, Option.filter]

theorem lookup_clients_reap (s : Server) (c : Scid) :
    s.reapClosed.1.clients.lookup c = (s.clients.lookup c).filter fun client => !client.conn.closed :=
  Table.lookup_retain ..

/-- The routes that survive reaping are those whose connection does. -/
private theorem lookup_routes_reap {s : Server} (h : Live s) (d : Bytes) (c : Scid) :
    s.reapClosed.1.routes.lookup d = some c ↔
      s.routes.lookup d = some c ∧ (s.reapClosed.1.clients.lookup c).isSome := by
  rw [lookup_clients_reap, reapClosed, lookup_dropRoutes, Option.filter_eq_some_iff]
  refine and_congr_right fun hd => ?_
  obtain ⟨client, hclient⟩ := Option.isSome_iff_exists.mp (h d c hd)
  have hdead : (∃ e ∈ s.clients.entries, (if e.2.conn.closed then some e.1 else none) = some c) ↔
      client.conn.closed = true := by
    constructor
    · rintro ⟨⟨k, v⟩, hmem, hk⟩
      simp only [Option.ite_none_right_eq_some, Option.some.injEq] at hk
      obtain ⟨hclosed, rfl⟩ := hk
      rw [Table.mem_entries_iff, hclient] at hmem
      rw [Option.some.inj hmem]
      exact hclosed
    · intro hclosed
      exact ⟨⟨c, client⟩, (Table.mem_entries_iff ..).mpr hclient, by simp [hclosed]⟩
  simp only [List.mem_filterMap, hdead, hclient, decide_eq_true_eq]
  cases hclosed : client.conn.closed <;> simp [Option.filter, hclosed]

private theorem Live.reap {s : Server} (h : Live s) : Live s.reapClosed.1 :=
  fun d c hd => ((lookup_routes_reap h d c).mp hd).2

private theorem Matched.reap {tr : List Effect} {s : Server} (h : Matched tr s)
    (he : ∀ c, latest (acceptance c) s.reapClosed.2 = none) :
    Matched (tr ++ s.reapClosed.2) s.reapClosed.1 := by
  refine ⟨h.live.reap, fun c hc => ?_⟩
  have hbefore : (s.clients.lookup c).isSome := by
    rw [lookup_clients_reap] at hc
    obtain ⟨client, hclient⟩ := Option.isSome_iff_exists.mp hc
    rw [(Option.filter_eq_some_iff.mp hclient).1]
    rfl
  obtain ⟨d, ho, hd⟩ := h.original c hbefore
  rw [originalDcid, latest_append, he, Option.none_or]
  refine ⟨d, ho, fun d' => ?_⟩
  rw [lookup_routes_reap h.live, hd, and_iff_left hc]

private theorem Local.latest_acceptance {c : Scid} {es : List Effect} (h : Local c es) (k : Scid) :
    latest (acceptance k) es = none := by
  rw [latest_eq_none_iff]
  intro e he
  have := h e he
  cases e <;> simp_all [Effect.conn, acceptance]

/-- Actions that neither add nor drop a connection. -/
def Action.calm : Action → Bool
  | .readClock _ | .payload _ | .connections _ | .sweep _ | .reload _ => true
  | _ => false

private theorem act_calm (s : Server) {a : Action} (h : a.calm) :
    Steady s (s.act a).1 ∧ ∀ c, latest (acceptance c) (s.act a).2 = none := by
  cases a with
  | readClock elapsed => exact ⟨⟨rfl, fun _ => rfl⟩, fun _ => rfl⟩
  | payload tc =>
    refine ⟨(within_atDesk s tc.connId _).steady, Local.latest_acceptance (c := tc.connId) ?_⟩
    refine local_atDesk fun client desk e he => ?_
    simp only [List.mem_cons, List.not_mem_nil, or_false] at he
    rcases he with rfl | rfl <;> rfl
  | connections state =>
    refine ⟨⟨rfl, fun k => ?_⟩, fun _ => rfl⟩
    simp only [act, Table.lookup_mapValues, Option.isSome_map]
  | sweep elapsed =>
    refine ⟨⟨rfl, fun k => ?_⟩, fun c => (latest_eq_none_iff ..).mpr ?_⟩
    · simp only [act, sweepIdleFlows, Table.lookup_mapValues, Option.isSome_map]
    · simp only [act, sweepIdleFlows, closeIdle, List.mem_flatMap, List.mem_cons, List.not_mem_nil,
        or_false]
      rintro e ⟨_, _, f, _, rfl | rfl | rfl⟩ <;> rfl
  | reload rules => exact ⟨⟨rfl, fun _ => rfl⟩, fun _ => rfl⟩
  | negotiate | accept | recv | withTransport | poll | datagram | reap => cases h

private theorem drive_calm (s : Server) {acts : List Action} (h : ∀ a ∈ acts, a.calm) :
    Steady s (drive act s acts).1 ∧ ∀ c, latest (acceptance c) (drive act s acts).2 = none := by
  refine drive_keeps (P := fun tr s' => Steady s s' ∧ ∀ c, latest (acceptance c) tr = none) acts ?_
    ⟨⟨rfl, fun _ => rfl⟩, fun _ => latest_nil _⟩
  intro tr s' a ha hp
  obtain ⟨hs, he⟩ := act_calm s' (h a ha)
  exact ⟨hp.1.trans hs, fun c => by rw [latest_append, he, hp.2]; rfl⟩

private theorem reap_acceptance (s : Server) (c : Scid) : latest (acceptance c) s.reapClosed.2 = none := by
  rw [latest_eq_none_iff]
  simp only [reapClosed, List.mem_map]
  rintro e ⟨k, _, rfl⟩
  rfl

/-- An input other than a packet reaps, or performs calm actions. -/
private theorem step_other (s : Server) (i : Input) :
    (∃ p, i = .packet p) ∨ s.step i = some s.reapClosed ∨
      ∃ acts, s.step i = some (drive act s acts) ∧ ∀ a ∈ acts, a.calm := by
  have hone (a : Action) (ha : a.calm) :
      ∃ acts, some (s.act a) = some (drive act s acts) ∧ ∀ a ∈ acts, a.calm :=
    ⟨[a], by rw [drive_singleton], by simpa using ha⟩
  cases i with
  | packet p => exact .inl ⟨p, rfl⟩
  | reap => exact .inr (.inl rfl)
  | payloads elapsed burst =>
    refine .inr (.inr ⟨_, rfl, ?_⟩)
    intro a ha
    rcases List.mem_cons.mp ha with rfl | ha
    · rfl
    · obtain ⟨tc, -, rfl⟩ := List.mem_map.mp ha
      rfl
  | wait elapsed => exact .inr (.inr (hone (.readClock elapsed) rfl))
  | connections state => exact .inr (.inr (hone (.connections state) rfl))
  | sweep elapsed => exact .inr (.inr (hone (.sweep elapsed) rfl))
  | reload rules => exact .inr (.inr (hone (.reload rules) rfl))

private theorem route_isSome {s : Server} (h : Live s) {dcid : Bytes} {conn : Scid}
    (hr : s.route dcid = some conn) : (s.clients.lookup conn).isSome := by
  unfold route at hr
  split at hr
  · rename_i scid hs
    cases hr
    exact (Option.filter_eq_some_iff.mp hs).2
  · exact h dcid conn hr

/-- With every route live, no packet makes the server panic. -/
theorem onPacket_isSome {s : Server} (h : Live s) (p : Packet) : (s.onPacket p).isSome := by
  unfold onPacket
  split
  · rfl
  split
  · rename_i conn hr
    exact receive_isSome (route_isSome h hr) p
  split_ifs
  · rfl
  · rfl
  split
  · rfl
  · rw [Option.isSome_map]
    refine receive_isSome ?_ p
    simp [act, Server.accept]

theorem Live.step {s s' : Server} {i : Input} {es : List Effect} (h : Live s)
    (hs : s.step i = some (s', es)) : Live s' := by
  rcases step_other s i with ⟨p, rfl⟩ | hreap | ⟨acts, hdrive, hcalm⟩
  · cases onPacket_frame hs with
    | untouched hsame he => rwa [hsame]
    | routed hdr conn hp hroute hw hl => exact h.steady hw.steady
    | admitted hdr scid state rest hp hroute ha hw he hl =>
      exact (h.accept scid hdr.dcid p.source state).steady hw.steady
  · have heq : s.reapClosed = (s', es) := Option.some.inj (hreap.symm.trans hs)
    have hnext := h.reap
    rwa [heq] at hnext
  · have heq : drive act s acts = (s', es) := Option.some.inj (hdrive.symm.trans hs)
    have hcalm' := (drive_calm s hcalm).1
    rw [heq] at hcalm'
    exact h.steady hcalm'

/-- A freshly drawn SCID differs from those of live connections. -/
def FreshScid (s : Server) (i : Input) : Prop :=
  ∀ p scid state, i = .packet p → p.accepted = some (scid, state) → s.clients.lookup scid = none

private theorem Matched.step {tr : List Effect} {s s' : Server} {i : Input} {es : List Effect}
    (h : Matched tr s) (hfresh : FreshScid s i) (hs : s.step i = some (s', es)) :
    Matched (tr ++ es) s' := by
  rcases step_other s i with ⟨p, rfl⟩ | hreap | ⟨acts, hdrive, hcalm⟩
  · cases onPacket_frame hs with
    | untouched hsame he =>
      rw [hsame]
      refine h.steady ⟨rfl, fun _ => rfl⟩ fun c => (latest_eq_none_iff ..).mpr fun e hmem => ?_
      rw [he e hmem]
      rfl
    | routed hdr conn hp hroute hw hl => exact h.steady hw.steady hl.latest_acceptance
    | admitted hdr scid state rest hp hroute ha hw he hl =>
      have hstart := h.accept (hfresh p scid state rfl ha) (route_eq_none hroute) p.source state
      have hnext := hstart.steady hw.steady hl.latest_acceptance
      rw [he]
      simpa using hnext
  · have heq : s.reapClosed = (s', es) := Option.some.inj (hreap.symm.trans hs)
    have hnext := h.reap (reap_acceptance s)
    rwa [heq] at hnext
  · have heq : drive act s acts = (s', es) := Option.some.inj (hdrive.symm.trans hs)
    obtain ⟨hsteady, hquiet⟩ := drive_calm s hcalm
    rw [heq] at hsteady hquiet
    exact h.steady hsteady hquiet

/-- The connection changes a packet may make, once SCIDs are fresh. -/
inductive OneConnection (s : Server) (p : Packet) (s' : Server) : Prop
  | untouched (hclients : s'.clients = s.clients) (hroutes : s'.routes = s.routes)
  | changed (hdr : PacketHeader) (conn : Scid) (hp : p.header = some hdr)
      (hroute : s.route hdr.dcid = some conn) (hw : Within conn s s')
  | added (hdr : PacketHeader) (scid : Scid) (hp : p.header = some hdr)
      (hroute : s.routes.lookup hdr.dcid = none) (hnew : s.clients.lookup scid = none)
      (hin : (s'.clients.lookup scid).isSome)
      (hothers : ∀ k, k ≠ scid → s'.clients.lookup k = s.clients.lookup k)
      (hroutes : ∀ d, s'.routes.lookup d = if d = hdr.dcid then some scid else s.routes.lookup d)

private theorem onPacket_oneConnection {s s' : Server} {p : Packet} {es : List Effect}
    (hfresh : FreshScid s (.packet p)) (hs : s.onPacket p = some (s', es)) : OneConnection s p s' := by
  cases onPacket_frame hs with
  | untouched hsame he =>
    subst hsame
    exact .untouched rfl rfl
  | routed hdr conn hp hroute hw hl => exact .changed hdr conn hp hroute hw
  | admitted hdr scid state rest hp hroute ha hw he hl =>
    refine .added hdr scid hp (route_eq_none hroute) (hfresh p scid state rfl ha) ?_ ?_ ?_
    · rw [hw.present]
      simp [Server.accept]
    · intro k hk
      rw [hw.others k hk]
      simp [Server.accept, hk]
    · intro d
      rw [hw.routes]
      exact Table.lookup_insert_ite ..

/-- Routing is sound in every reachable state: routes lead to live connections
and nothing panics; with fresh SCIDs each live connection has exactly the route
of its original DCID, a packet concerns one connection, and reaping keeps what
is not closed. -/
theorem routing_sound (rules : RuleTable) (start : Instant) :
    (∀ tr s, Run step (fun _ _ _ => True) (new rules start) tr s →
      Live s ∧ ∀ i, (s.step i).isSome) ∧
    ∀ tr s, Run step (fun _ s i => FreshScid s i) (new rules start) tr s →
      Matched tr s ∧
      (∀ p s' es, FreshScid s (.packet p) → s.onPacket p = some (s', es) → OneConnection s p s') ∧
      (∀ c, s.reapClosed.1.clients.lookup c =
        (s.clients.lookup c).filter fun client => !client.conn.closed) ∧
      ∀ d c, s.reapClosed.1.routes.lookup d = some c ↔
        s.routes.lookup d = some c ∧ (s.reapClosed.1.clients.lookup c).isSome := by
  refine ⟨fun tr s h => ?_, fun tr s h => ?_⟩
  · have hlive : Live s := by
      refine Run.invariant (P := fun _ s => Live s) ?_ ?_ h
      · intro d c hd
        cases hd
      · intro tr s i s' es _ hl _ hs
        exact hl.step hs
    refine ⟨hlive, fun i => ?_⟩
    rcases step_other s i with ⟨p, rfl⟩ | hreap | ⟨acts, hdrive, -⟩
    · exact onPacket_isSome hlive p
    · rw [hreap]
      rfl
    · rw [hdrive]
      rfl
  · have hmatched : Matched tr s := by
      refine Run.invariant (P := Matched) ⟨?_, ?_⟩ ?_ h
      · intro d c hd
        cases hd
      · intro c hc
        cases hc
      · intro tr s i s' es _ hm hfresh hs
        exact hm.step hfresh hs
    exact ⟨hmatched, fun p s' es hfresh hs => onPacket_oneConnection hfresh hs, lookup_clients_reap s,
      lookup_routes_reap hmatched.live⟩

theorem routing_sound_first :
    ∃ tr s, Run step (fun _ s i => FreshScid s i) (new shadowedRules 100) tr s ∧ Matched tr s ∧
      s.routes.lookup (List.replicate 16 1) = some ⟨List.replicate 16 7, rfl⟩ ∧
      (s.step (.packet firstPacket)).isSome := by
  have hstep : ((new shadowedRules 100).step (.packet firstPacket)).isSome := by decide
  have hrun : Run step (fun _ s i => FreshScid s i) (new shadowedRules 100) _ _ :=
    .next (.packet firstPacket) .init (fun _ _ _ _ _ => rfl) (Option.some_get hstep).symm
  obtain ⟨hlive, hfresh⟩ := routing_sound shadowedRules 100
  exact ⟨_, _, hrun, (hfresh _ _ hrun).1, by decide,
    (hlive _ _ (hrun.mono fun _ _ _ _ => trivial)).2 (.packet firstPacket)⟩

end ZeroMasque.Server
