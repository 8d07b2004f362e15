import ZeroMasque.Client.Session
import ZeroMasque.Server.Connect

/-! Client and server agree on endpoints: a client whose endpoint names the
authority and the path component of a rule passes the server's SNI guard, and its
requests are well formed and get the decision of the first such rule. -/
namespace ZeroMasque
open Foundation Server

/-- The server name the client puts into its ClientHello. -/
def hostOf (authority : String) : String :=
  match (['['].isPrefixOf? authority.toList).bind fun rest =>
      (rest.findIdx? (· == ']')).map fun stop => rest.take stop with
  | some host => String.ofList host
  | none =>
    match rsplitOnce ':' authority.toList with
    | some (host, _) => String.ofList host
    | none => authority

/-- The callback of `install_sni_guard`: whether the handshake may go on. -/
def sniGuard (allowedHosts : List String) (servername : Option String) : Bool :=
  match servername with
  | none => false
  | some sni => allowedHosts.any fun h => eqIgnoreAsciiCase h sni

/-- The two readings of an authority differ in how they look for the bracket only. -/
theorem hostOf_eq_hostOfAuthority (authority : String) : hostOf authority = hostOfAuthority authority := by
  unfold hostOf hostOfAuthority
  cases ['['].isPrefixOf? authority.toList with
  | none => rfl
  | some rest =>
    rw [Option.bind_some, Option.bind_some, splitOnce_singleton]
    cases rest.findIdx? (· == ']') <;> rfl

/-- The guard lets a rule's host pass however its letters are cased. -/
theorem sniGuard_allowedSniHosts {t : RuleTable} {r : Rule} (hr : r ∈ t.rules) :
    sniGuard t.allowedSniHosts (some (hostOfAuthority r.endpoint.authority)) = true := by
  have hmem := (t.mem_allowedSniHosts _).mpr ⟨r, hr, rfl⟩
  refine List.any_eq_true.mpr ⟨_, hmem, ?_⟩
  rw [eqIgnoreAsciiCase, toAsciiLowercase_idem, beq_self_eq_true]

theorem connectHeaders_parse (d : Dialed) :
    ConnectRequest.parse (connectHeaders d) = .ok ⟨d.authority, d.path⟩ := by
  have hread : (connectHeaders d).foldl PseudoHeaders.read {} =
      ⟨some (utf8 "CONNECT"), some (utf8 "connect-udp"), some (utf8 d.authority), some (utf8 d.path)⟩ := by
    simp only [connectHeaders, List.foldl_cons, List.foldl_nil, PseudoHeaders.read]
    rfl
  rw [ConnectRequest.parse, hread]
  simp [fromUtf8_utf8]

/-- The first rule that fits exists as soon as one fits. -/
theorem RuleTable.exists_first {t : RuleTable} {r : Rule} {authority path : String} (hr : r ∈ t.rules)
    (hfit : r.Fits authority path) : ∃ first, t.First authority path first := by
  cases hm : t.matchTarget authority path with
  | none => exact absurd hfit ((t.matchTarget_eq_none_iff authority path).mp hm r hr)
  | some m =>
    obtain ⟨first, hfirst, -⟩ := (t.matchTarget_eq_some_iff authority path m).mp hm
    exact ⟨first, hfirst⟩

/-- Two endpoints with the same authority and path component: a client of the one
passes the guard of any table with a rule for the other, and its request gets the
decision of the first rule for that authority and path component. -/
theorem endpoints_agree {raw rawClient : String} {e eClient : Endpoint} (_he : Endpoint.parse raw = .ok e)
    (_hc : Endpoint.parse rawClient = .ok eClient) (hauthority : eClient.authority = e.authority)
    (hpath : pathOnly eClient.path = pathOnly e.path) {t : RuleTable} {r : Rule} (hr : r ∈ t.rules)
    (hrule : r.endpoint = e) :
    (∀ s, hostOf s = hostOfAuthority s) ∧
      sniGuard t.allowedSniHosts (some (hostOf eClient.authority)) = true ∧
      ∃ req first, ConnectRequest.parse (connectHeaders ⟨eClient.authority, eClient.path⟩) = .ok req ∧
        t.First e.authority e.path first ∧
        t.matchTarget req.authority req.path = some first.decision := by
  refine ⟨hostOf_eq_hostOfAuthority, ?_, ?_⟩
  · rw [hostOf_eq_hostOfAuthority, hauthority, ← hrule]
    exact sniGuard_allowedSniHosts hr
  · have hfit : r.Fits eClient.authority eClient.path := by
      rw [Rule.Fits, hrule, hauthority, hpath]
      exact ⟨rfl, rfl⟩
    obtain ⟨first, hfirst⟩ := RuleTable.exists_first hr hfit
    refine ⟨_, first, connectHeaders_parse _, ?_, (t.matchTarget_eq_some_iff _ _ _).mpr ⟨first, hfirst, rfl⟩⟩
    obtain ⟨before, after, hcut, hfits, hbefore⟩ := hfirst
    simp only [Rule.Fits, hauthority, hpath] at hfits hbefore
    exact ⟨before, after, hcut, hfits, hbefore⟩

/-- Two rules for different hosts. -/
def twoHosts : RuleTable :=
  ⟨[⟨⟨"proxy", "/masque"⟩, .v4 0x0a000001 22, false, none, none⟩,
    ⟨⟨"[fe80::A]:4433", "/masque?h=x"⟩, .v4 0x7f000001 53, true, none, some (secs 35)⟩]⟩

theorem endpoints_agree_bracketed :
    sniGuard twoHosts.allowedSniHosts (some (hostOf "[fe80::A]:4433")) = true ∧
      ∃ req first, ConnectRequest.parse (connectHeaders ⟨"[fe80::A]:4433", "/masque?h=y"⟩) = .ok req ∧
        twoHosts.First "[fe80::A]:4433" "/masque?h=x" first ∧
        twoHosts.matchTarget req.authority req.path = some first.decision := by
  have he : Endpoint.parse "https://[fe80::A]:4433/masque?h=x" = .ok ⟨"[fe80::A]:4433", "/masque?h=x"⟩ := by
    decide
  have hc : Endpoint.parse "https://[fe80::A]:4433/masque?h=y" = .ok ⟨"[fe80::A]:4433", "/masque?h=y"⟩ := by
    decide
  exact (endpoints_agree he hc rfl (by decide) (t := twoHosts) (List.mem_cons_of_mem _ List.mem_cons_self)
    rfl).2

end ZeroMasque
