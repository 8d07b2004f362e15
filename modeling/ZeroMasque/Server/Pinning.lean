import ZeroMasque.Foundation.Traces
import ZeroMasque.Server.Connect

/-! Access control: which requests open a flow, and that the destination is
pinned by the rule table alone. -/
namespace ZeroMasque.Server
open Foundation

/-- The value of the last header of a name. -/
def lastValue (name : Bytes) (headers : List Header) : Option Bytes :=
  latest (fun h => if h.name = name then some h.value else none) headers

/-- The last value of a name as text; nothing when it is missing or not UTF-8. -/
def lastText (name : Bytes) (headers : List Header) : Option String :=
  (lastValue name headers).bind fromUtf8

/-- A field that each header of its name overwrites ends up with the last value. -/
private theorem fold_reads (field : PseudoHeaders → Option Bytes) (name : Bytes)
    (hread : ∀ p h, field (PseudoHeaders.read p h) = if h.name = name then some h.value else field p)
    (hs : List Header) (p : PseudoHeaders) :
    field (hs.foldl PseudoHeaders.read p) = (lastValue name hs).or (field p) := by
  induction hs generalizing p with
  | nil => simp [lastValue]
  | cons h hs ih =>
    rw [List.foldl_cons, ih, lastValue, lastValue, latest_cons, hread, Option.or_assoc]
    split <;> simp

private theorem read_method (p : PseudoHeaders) (h : Header) :
    (PseudoHeaders.read p h).method = if h.name = utf8 ":method" then some h.value else p.method := by
  unfold PseudoHeaders.read
  split_ifs <;> rfl

private theorem read_protocol (p : PseudoHeaders) (h : Header) :
    (PseudoHeaders.read p h).protocol =
      if h.name = utf8 ":protocol" then some h.value else p.protocol := by
  unfold PseudoHeaders.read
  split_ifs <;> simp_all +decide

private theorem read_authority (p : PseudoHeaders) (h : Header) :
    (PseudoHeaders.read p h).authority =
      if h.name = utf8 ":authority" then some h.value else p.authority := by
  unfold PseudoHeaders.read
  split_ifs <;> simp_all +decide

private theorem read_path (p : PseudoHeaders) (h : Header) :
    (PseudoHeaders.read p h).path = if h.name = utf8 ":path" then some h.value else p.path := by
  unfold PseudoHeaders.read
  split_ifs <;> simp_all +decide

/-- Validation reads the last values only, and reports the first that is wrong. -/
private theorem ConnectRequest.parse_eq (hs : List Header) :
    ConnectRequest.parse hs =
      if lastValue (utf8 ":method") hs ≠ some (utf8 "CONNECT") then .error 405
      else if lastValue (utf8 ":protocol") hs ≠ some (utf8 "connect-udp") then .error 501
      else
        match lastText (utf8 ":authority") hs, lastText (utf8 ":path") hs with
        | some authority, some path => .ok ⟨authority, path⟩
        | _, _ => .error 400 := by
  have hm := fold_reads _ _ read_method hs {}
  have hp := fold_reads _ _ read_protocol hs {}
  have ha := fold_reads _ _ read_authority hs {}
  have hpath := fold_reads _ _ read_path hs {}
  simp only [Option.or_none] at hm hp ha hpath
  simp only [ConnectRequest.parse, hm, hp, ha, hpath, lastText]
  congr 2
  cases lastValue (utf8 ":authority") hs with
  | none => rfl
  | some a =>
    cases hta : fromUtf8 a with
    | none => simp [hta]
    | some authority =>
      cases lastValue (utf8 ":path") hs with
      | none => simp [hta]
      | some b => cases htb : fromUtf8 b <;> simp [hta, htb]

/-- A complete request line for an authority and a path. -/
structure RequestLine (hs : List Header) (authority path : String) : Prop where
  method : lastValue (utf8 ":method") hs = some (utf8 "CONNECT")
  protocol : lastValue (utf8 ":protocol") hs = some (utf8 "connect-udp")
  authority : lastText (utf8 ":authority") hs = some authority
  path : lastText (utf8 ":path") hs = some path

theorem RequestLine.parse {hs : List Header} {authority path : String}
    (h : RequestLine hs authority path) : ConnectRequest.parse hs = .ok ⟨authority, path⟩ := by
  rw [ConnectRequest.parse_eq, h.method, h.protocol, h.authority, h.path]
  rfl

theorem RequestLine.of_parse {hs : List Header} {req : ConnectRequest}
    (h : ConnectRequest.parse hs = .ok req) : RequestLine hs req.authority req.path := by
  rw [ConnectRequest.parse_eq] at h
  split_ifs at h with hm hp
  split at h
  · rename_i ha hpath
    cases h
    exact ⟨not_not.mp hm, not_not.mp hp, ha, hpath⟩
  · cases h

/-- The destination, marks and timeout of a flow that a rule opened: its socket
goes where the rule says, and every other flow is as before. -/
structure OpenedBy (rule : Rule) (conn : Scid) (stream : UInt64) (answers : Answers) (desk : Desk)
    (socket : TargetSocket) (result : Desk × List Effect) : Prop where
  target : socket.target = rule.target
  transparent : socket.transparent = rule.transparent
  fwmark : socket.fwmark = rule.fwmark
  spawned : result.2.filter (fun e => e matches .spawn ..) =
    [.spawn conn (stream / 4) desk.channels socket]
  answered : result.2.filter (fun e => e matches .respond ..) =
    [.respond conn stream [⟨utf8 ":status", utf8 "200"⟩, ⟨utf8 "capsule-protocol", utf8 "?1"⟩] false answers.sent]
  flow : result.1.flows.lookup (stream / 4) =
    if answers.sent then some ⟨desk.channels, desk.clock + answers.elapsed, rule.idleTimeout⟩ else none
  others : ∀ k, k ≠ stream / 4 → result.1.flows.lookup k = desk.flows.lookup k

/-- A request that is refused: the reply has the status as its only header and ends
the stream, and the desk is as before. -/
structure RefusedWith (status : String) (conn : Scid) (stream : UInt64) (answers : Answers) (desk : Desk)
    (result : Desk × List Effect) : Prop where
  answered : result.2 = [.respond conn stream [⟨utf8 ":status", utf8 status⟩] true answers.sent]
  unchanged : result.1 = desk

/-- Access control over one request: the checks in their order, and the first
fitting rule as the only source of a destination. -/
structure Pinned (rules : RuleTable) (client : SocketAddr) (conn : Scid) (stream : UInt64)
    (hs : List Header) (answers : Answers) (desk : Desk) (result : Desk × List Effect) : Prop where
  method : lastValue (utf8 ":method") hs ≠ some (utf8 "CONNECT") →
    RefusedWith "405" conn stream answers desk result
  protocol : lastValue (utf8 ":method") hs = some (utf8 "CONNECT") →
    lastValue (utf8 ":protocol") hs ≠ some (utf8 "connect-udp") →
    RefusedWith "501" conn stream answers desk result
  incomplete : lastValue (utf8 ":method") hs = some (utf8 "CONNECT") →
    lastValue (utf8 ":protocol") hs = some (utf8 "connect-udp") →
    lastText (utf8 ":authority") hs = none ∨ lastText (utf8 ":path") hs = none →
    RefusedWith "400" conn stream answers desk result
  unmatched : ∀ authority path, RequestLine hs authority path →
    (∀ r ∈ rules.rules, ¬ r.Fits authority path) →
    RefusedWith "404" conn stream answers desk result
  matched : ∀ authority path rule, RequestLine hs authority path →
    rules.First authority path rule →
    match bindTarget answers.os rule.target client rule.transparent rule.fwmark with
    | none => RefusedWith "502" conn stream answers desk result
    | some socket => OpenedBy rule conn stream answers desk socket result
  opensOnly : (∃ k, result.1.flows.lookup k ≠ desk.flows.lookup k) ∨
      (∃ e ∈ result.2, e matches .spawn ..) →
    ∃ authority path rule, RequestLine hs authority path ∧ rules.First authority path rule

/-- The two header lists differ at most in the query string, in overwritten
values, in other headers and in the order of names. -/
structure Agrees (hs hs' : List Header) : Prop where
  method : lastValue (utf8 ":method") hs = lastValue (utf8 ":method") hs'
  protocol : lastValue (utf8 ":protocol") hs = lastValue (utf8 ":protocol") hs'
  authority : lastValue (utf8 ":authority") hs = lastValue (utf8 ":authority") hs'
  path : (lastText (utf8 ":path") hs).map pathOnly = (lastText (utf8 ":path") hs').map pathOnly

/-- A bare status is a refusal with that status. -/
private theorem respondStatus_refusedWith {status : Nat} {text : String} (h : toString status = text) (conn : Scid)
    (stream : UInt64) (answers : Answers) (desk : Desk) :
    RefusedWith text conn stream answers desk (respondStatus conn stream status answers desk) := by
  subst h
  exact ⟨rfl, rfl⟩

private theorem openFlow_openedBy {rule : Rule} {client : SocketAddr} {answers : Answers}
    {socket : TargetSocket}
    (h : bindTarget answers.os rule.target client rule.transparent rule.fwmark = some socket)
    (conn : Scid) (stream : UInt64) (desk : Desk) :
    OpenedBy rule conn stream answers desk socket
      (openFlow conn stream rule.idleTimeout socket answers desk) := by
  obtain ⟨h1, h2, h3⟩ := bindTarget_spec h
  refine ⟨h1, h2, h3, ?_, ?_, ?_, ?_⟩
  · rw [openFlow_effects]
    cases answers.sent <;> rfl
  · rw [openFlow_effects]
    cases answers.sent <;> rfl
  · rw [lookup_openFlow, if_pos rfl]
  · intro k hk
    rw [lookup_openFlow, if_neg hk]

private theorem handleConnectRequest_of_line {rules : RuleTable} {hs : List Header}
    {authority path : String} (hl : RequestLine hs authority path) (client : SocketAddr) (conn : Scid)
    (stream : UInt64) (answers : Answers) (desk : Desk) :
    handleConnectRequest rules client conn stream hs answers desk =
      match rules.matchTarget authority path with
      | none => respondStatus conn stream 404 answers desk
      | some rule =>
        match bindTarget answers.os rule.target client rule.transparent rule.fwmark with
        | none => respondStatus conn stream 502 answers desk
        | some socket => openFlow conn stream rule.idleTimeout socket answers desk := by
  rewrite [handleConnectRequest, hl.parse]
  rfl

private theorem handleConnectRequest_of_refusal {rules : RuleTable} {hs : List Header} {status : Nat}
    (h : ConnectRequest.parse hs = .error status) (client : SocketAddr) (conn : Scid)
    (stream : UInt64) (answers : Answers) (desk : Desk) :
    handleConnectRequest rules client conn stream hs answers desk =
      respondStatus conn stream status answers desk := by
  rw [handleConnectRequest, h]

private theorem handleConnectRequest_refusedWith {rules : RuleTable} {hs : List Header} {status : Nat} {text : String}
    (h : ConnectRequest.parse hs = .error status) (htext : toString status = text) (client : SocketAddr) (conn : Scid)
    (stream : UInt64) (answers : Answers) (desk : Desk) :
    RefusedWith text conn stream answers desk
      (handleConnectRequest rules client conn stream hs answers desk) := by
  rw [handleConnectRequest_of_refusal h]
  exact respondStatus_refusedWith htext ..

private theorem handleConnectRequest_opensOnly (rules : RuleTable) (client : SocketAddr) (conn : Scid)
    (stream : UInt64) (hs : List Header) (answers : Answers) (desk : Desk) :
    (∃ status, handleConnectRequest rules client conn stream hs answers desk =
        respondStatus conn stream status answers desk) ∨
      ∃ authority path rule, RequestLine hs authority path ∧ rules.First authority path rule := by
  cases hp : ConnectRequest.parse hs with
  | error status => exact .inl ⟨status, handleConnectRequest_of_refusal hp ..⟩
  | ok req =>
    have hl := RequestLine.of_parse hp
    cases hm : rules.matchTarget req.authority req.path with
    | none =>
      refine .inl ⟨404, ?_⟩
      rw [handleConnectRequest_of_line hl, hm]
    | some m =>
      obtain ⟨rule, hfirst, -⟩ := (rules.matchTarget_eq_some_iff _ _ _).mp hm
      exact .inr ⟨_, _, rule, hl, hfirst⟩

private theorem handleConnectRequest_congr {hs hs' : List Header} (h : Agrees hs hs')
    (rules : RuleTable) (client : SocketAddr) (conn : Scid) (stream : UInt64) (answers : Answers)
    (desk : Desk) :
    handleConnectRequest rules client conn stream hs answers desk =
      handleConnectRequest rules client conn stream hs' answers desk := by
  have hauth : lastText (utf8 ":authority") hs = lastText (utf8 ":authority") hs' := by
    rw [lastText, lastText, h.authority]
  have hmatch (authority : String) {p q : String} (hpq : pathOnly p = pathOnly q) :
      rules.matchTarget authority p = rules.matchTarget authority q := by
    simp only [RuleTable.matchTarget, Endpoint.matchesPath_congr _ hpq]
  have hpath := h.path
  simp only [handleConnectRequest, ConnectRequest.parse_eq, h.method, h.protocol, hauth]
  cases hp : lastText (utf8 ":path") hs with
  | none =>
    cases hp' : lastText (utf8 ":path") hs' with
    | none => rfl
    | some q => simp [hp, hp'] at hpath
  | some p =>
    cases hp' : lastText (utf8 ":path") hs' with
    | none => simp [hp, hp'] at hpath
    | some q =>
      rw [hp, hp'] at hpath
      have hpq : pathOnly p = pathOnly q := by simpa using hpath
      cases lastText (utf8 ":authority") hs' with
      | none => rfl
      | some authority =>
        split_ifs <;> simp only [hmatch authority hpq]

/-- Every request is served as the rule table says, and requests that agree on
what the checks read are served alike: no client input selects the destination. -/
theorem handleConnectRequest_pinned (rules : RuleTable) (client : SocketAddr) (conn : Scid)
    (stream : UInt64) (hs : List Header) (answers : Answers) (desk : Desk) :
    Pinned rules client conn stream hs answers desk
        (handleConnectRequest rules client conn stream hs answers desk) ∧
      (∀ hs', Agrees hs hs' →
        handleConnectRequest rules client conn stream hs' answers desk =
          handleConnectRequest rules client conn stream hs answers desk) ∧
      ∀ path query : String, '?' ∉ path.toList → pathOnly path = path ∧ pathOnly (path ++ "?" ++ query) = path := by
  refine ⟨⟨?_, ?_, ?_, ?_, ?_, ?_⟩, fun hs' h => (handleConnectRequest_congr h ..).symm,
    fun path query h => pathOnly_query h query⟩
  · intro hm
    exact handleConnectRequest_refusedWith (by rw [ConnectRequest.parse_eq, if_pos hm]) (by decide) ..
  · intro hm hp
    refine handleConnectRequest_refusedWith ?_ (by decide : toString 501 = "501") ..
    rw [ConnectRequest.parse_eq, if_neg (not_not.mpr hm), if_pos hp]
  · intro hm hp hmissing
    refine handleConnectRequest_refusedWith ?_ (by decide : toString 400 = "400") ..
    rw [ConnectRequest.parse_eq, if_neg (not_not.mpr hm), if_neg (not_not.mpr hp)]
    rcases hmissing with h | h
    · rw [h]
    · rw [h]
      cases lastText (utf8 ":authority") hs <;> rfl
  · intro authority path hl hnone
    rw [handleConnectRequest_of_line hl, (rules.matchTarget_eq_none_iff authority path).mpr hnone]
    exact respondStatus_refusedWith (by decide) ..
  · intro authority path rule hl hfirst
    have hm := (rules.matchTarget_eq_some_iff authority path rule.decision).mpr ⟨rule, hfirst, rfl⟩
    rw [handleConnectRequest_of_line hl, hm]
    simp only [Rule.decision]
    cases hb : bindTarget answers.os rule.target client rule.transparent rule.fwmark with
    | none => exact respondStatus_refusedWith (by decide) ..
    | some socket => exact openFlow_openedBy hb conn stream desk
  · intro hopens
    rcases handleConnectRequest_opensOnly rules client conn stream hs answers desk with ⟨status, h⟩ | h
    · rw [h] at hopens
      rcases hopens with ⟨k, hk⟩ | ⟨e, he, hspawn⟩
      · exact absurd rfl hk
      · obtain rfl := List.mem_singleton.mp he
        cases hspawn
    · exact h

/-- The same request with a query that names another host, a value overwritten
later and a header the server does not know. -/
def decoratedRequest : List Header :=
  [⟨utf8 ":path", utf8 "/masque?h=10.0.0.1&p=22"⟩, ⟨utf8 ":authority", utf8 "other:1"⟩,
    ⟨utf8 ":authority", utf8 "proxy:4433"⟩, ⟨utf8 "x-target", utf8 "10.0.0.1:22"⟩,
    ⟨utf8 ":protocol", utf8 "connect-udp"⟩, ⟨utf8 ":method", utf8 "CONNECT"⟩]

theorem handleConnectRequest_pinned_decorated :
    let client : SocketAddr := .v4 0x01010101 4000
    let conn : Scid := ⟨List.replicate 16 7, rfl⟩
    let answers : Answers := ⟨⟨true, fun _ => .opened⟩, true, 5⟩
    let desk : Desk := ⟨∅, 100, 0⟩
    Agrees plainRequest decoratedRequest ∧
      handleConnectRequest shadowedRules client conn 8 decoratedRequest answers desk =
        handleConnectRequest shadowedRules client conn 8 plainRequest answers desk ∧
      OpenedBy ⟨⟨"proxy:4433", "/masque?h=x"⟩, .v4 0x7f000001 53, false, none, some (secs 30)⟩
        conn 8 answers desk ⟨.v4 0 0, .v4 0x7f000001 53, false, none⟩
        (handleConnectRequest shadowedRules client conn 8 plainRequest answers desk) := by
  intro client conn answers desk
  have hagree : Agrees plainRequest decoratedRequest :=
    ⟨by decide, by decide, by decide, by decide⟩
  obtain ⟨hpinned, hsame, -⟩ :=
    handleConnectRequest_pinned shadowedRules client conn 8 plainRequest answers desk
  refine ⟨hagree, hsame _ hagree, ?_⟩
  exact hpinned.matched "proxy:4433" "/masque" _ ⟨by decide, by decide, by decide, by decide⟩
    ⟨[], _, rfl, by decide, by simp⟩

end ZeroMasque.Server
