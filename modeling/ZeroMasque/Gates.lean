import ZeroMasque.Agreement

/-! Two gates on one host name. The TLS handshake compares it without regard to
the case of letters, the match of a request does not. -/
namespace ZeroMasque
open Foundation Server

/-- The same text up to the case of ASCII letters. -/
def SameLetters (a b : String) : Prop := a.toList.map Char.toLower = b.toList.map Char.toLower

private theorem sameLetters_iff (a b : String) : SameLetters a b ↔ toAsciiLowercase a = toAsciiLowercase b :=
  ⟨congrArg String.ofList, fun h => String.ofList_injective h⟩

section Guard

private theorem sniGuard_iff (t : RuleTable) (sni : String) : sniGuard t.allowedSniHosts (some sni) = true ↔
    ∃ r ∈ t.rules, SameLetters (hostOfAuthority r.endpoint.authority) sni := by
  simp only [sniGuard, List.any_eq_true, eqIgnoreAsciiCase, beq_iff_eq, t.mem_allowedSniHosts, sameLetters_iff]
  constructor
  · rintro ⟨host, ⟨r, hr, rfl⟩, hsame⟩
    rw [toAsciiLowercase_idem] at hsame
    exact ⟨r, hr, hsame⟩
  · rintro ⟨r, hr, hsame⟩
    exact ⟨_, ⟨r, hr, rfl⟩, (toAsciiLowercase_idem _).trans hsame⟩

/-- The guard admits exactly the hosts of the rules, in whatever case, and never a
handshake without a name. A host is the authority without the brackets of an IPv6 literal
or without its port. The list the guard goes through names no host twice. -/
theorem sniGuard_exact (t : RuleTable) :
    (∀ sni, sniGuard t.allowedSniHosts (some sni) = true ↔
      ∃ r ∈ t.rules, SameLetters (hostOfAuthority r.endpoint.authority) sni) ∧
    (∀ host rest, ']' ∉ host.toList → hostOfAuthority ("[" ++ host ++ "]" ++ rest) = host) ∧
    (∀ host port, ':' ∉ port.toList → ¬ Bracketed (host ++ ":" ++ port) →
      hostOfAuthority (host ++ ":" ++ port) = host) ∧
    (∀ host, ':' ∉ host.toList → ¬ Bracketed host → hostOfAuthority host = host) ∧
    sniGuard t.allowedSniHosts none = false ∧
    t.allowedSniHosts.Pairwise fun host host' => ¬ SameLetters host host' := by
  refine ⟨sniGuard_iff t, fun _ rest h => hostOfAuthority_bracketed h rest, fun _ _ => hostOfAuthority_port,
    fun _ => hostOfAuthority_bare, rfl, ?_⟩
  have hlower : ∀ host ∈ t.allowedSniHosts, toAsciiLowercase host = host := by
    intro host hhost
    obtain ⟨r, -, rfl⟩ := (t.mem_allowedSniHosts host).mp hhost
    exact toAsciiLowercase_idem _
  apply t.nodup_allowedSniHosts.imp_of_mem
  intro host host' h h' hne
  rwa [sameLetters_iff, hlower host h, hlower host' h']

/-- Three rules with capital letters: a port, a literal in brackets and a bare name. -/
def threeHosts : RuleTable :=
  ⟨["Proxy.example:443", "[2001:DB8::1]:443", "Relay"].map fun authority =>
    ⟨⟨authority, "/masque"⟩, .v4 0x7f000001 53, false, none, some (secs 35)⟩⟩

theorem sniGuard_exact_threeHosts :
    sniGuard threeHosts.allowedSniHosts (some "proxy.EXAMPLE") = true ∧
    sniGuard threeHosts.allowedSniHosts (some "2001:db8::1") = true ∧
    sniGuard threeHosts.allowedSniHosts (some "relay") = true ∧
    sniGuard threeHosts.allowedSniHosts (some "relay:443") = false := by
  obtain ⟨hguard, hbracketed, hport, hbare, -⟩ := sniGuard_exact threeHosts
  have hp : hostOfAuthority "Proxy.example:443" = "Proxy.example" :=
    hport "Proxy.example" "443" (by decide) (by simp [Bracketed])
  have hb : hostOfAuthority "[2001:DB8::1]:443" = "2001:DB8::1" := hbracketed "2001:DB8::1" ":443" (by decide)
  have hr : hostOfAuthority "Relay" = "Relay" := hbare "Relay" (by decide) (by simp [Bracketed])
  refine ⟨(hguard _).mpr ⟨_, List.mem_cons_self, ?_⟩,
    (hguard _).mpr ⟨_, List.mem_cons_of_mem _ List.mem_cons_self, ?_⟩,
    (hguard _).mpr ⟨_, List.mem_cons_of_mem _ (List.mem_cons_of_mem _ List.mem_cons_self), ?_⟩, by decide⟩
  · rw [hp, SameLetters]
    decide
  · rw [hb, SameLetters]
    decide
  · rw [hr, SameLetters]
    decide

end Guard

section Letters

private theorem bracketed_lower (xs : List Char) :
    (['['].isPrefixOf? (xs.map Char.toLower)).bind (splitOnce [']']) =
      ((['['].isPrefixOf? xs).bind (splitOnce [']'])).map
        fun cut => (cut.1.map Char.toLower, cut.2.map Char.toLower) := by
  cases xs with
  | nil => rfl
  | cons x xs =>
    by_cases hx : x = '['
    · subst hx
      exact splitOnce_lower (by decide) xs
    · have hlow : ¬ '[' = x.toLower := fun h => hx (eq_of_toLower (by decide) h.symm)
      simp [List.isPrefixOf?, hlow, Ne.symm hx]

/-- Brackets and ports are found in any spelling. -/
private theorem hostOfAuthority_lower (authority : String) :
    hostOfAuthority (toAsciiLowercase authority) = toAsciiLowercase (hostOfAuthority authority) := by
  have hlist : (toAsciiLowercase authority).toList = authority.toList.map Char.toLower := String.toList_ofList
  rw [hostOfAuthority, hostOfAuthority, hlist, bracketed_lower, rsplitOnce_lower (by decide)]
  cases (['['].isPrefixOf? authority.toList).bind (splitOnce [']']) with
  | some cut => simp [toAsciiLowercase]
  | none =>
    cases rsplitOnce ':' authority.toList with
    | some cut => simp [toAsciiLowercase]
    | none => rfl

/-- A client that spells a rule's authority in another case passes the guard. -/
private theorem sniGuard_of_sameLetters {t : RuleTable} {r : Rule} (hr : r ∈ t.rules) {a : String}
    (h : SameLetters a r.endpoint.authority) : sniGuard t.allowedSniHosts (some (hostOf a)) = true := by
  refine (sniGuard_iff t _).mpr ⟨r, hr, ?_⟩
  rw [sameLetters_iff] at h ⊢
  rw [hostOf_eq_hostOfAuthority, ← hostOfAuthority_lower, ← hostOfAuthority_lower, h]

end Letters

section Match

/-- Two rules name one path, and authorities with the same letters. -/
def Rule.Alike (q r : Rule) : Prop :=
  SameLetters q.endpoint.authority r.endpoint.authority ∧ pathOnly q.endpoint.path = pathOnly r.endpoint.path

/-- No earlier rule has the same authority and path. -/
def RuleTable.Unshadowed (t : RuleTable) (r : Rule) : Prop :=
  ∃ before after, t.rules = before ++ r :: after ∧
    ∀ q ∈ before, ¬ (q.endpoint.authority = r.endpoint.authority ∧ pathOnly q.endpoint.path = pathOnly r.endpoint.path)

/-- The table lists every spelling of its authorities, and of the rules that differ in
spelling only, those not shadowed have one target, one mark and one timeout. -/
structure CaseClosed (t : RuleTable) : Prop where
  listed : ∀ r ∈ t.rules, ∀ a, SameLetters a r.endpoint.authority →
    ∃ q ∈ t.rules, q.endpoint.authority = a ∧ pathOnly q.endpoint.path = pathOnly r.endpoint.path
  alike : ∀ q r, t.Unshadowed q → t.Unshadowed r → q.Alike r →
    q.target = r.target ∧ q.transparent = r.transparent ∧ q.fwmark = r.fwmark ∧ q.idleTimeout = r.idleTimeout

/-- The rule found for a request is not shadowed. -/
private theorem RuleTable.First.unshadowed {t : RuleTable} {a path : String} {r : Rule} (h : t.First a path r) :
    t.Unshadowed r := by
  obtain ⟨before, after, hcut, ⟨hauthority, hpath⟩, hbefore⟩ := h
  refine ⟨before, after, hcut, fun q hq hsame => hbefore q hq ⟨hsame.1.trans hauthority, hsame.2.trans hpath⟩⟩

/-- A rule that is not shadowed is found under its own authority and path. -/
private theorem RuleTable.Unshadowed.matchTarget {t : RuleTable} {r : Rule} (h : t.Unshadowed r) :
    t.matchTarget r.endpoint.authority r.endpoint.path = some r.decision := by
  obtain ⟨before, after, hcut, hbefore⟩ := h
  exact (t.matchTarget_eq_some_iff ..).mpr ⟨r, ⟨before, after, hcut, ⟨rfl, rfl⟩, hbefore⟩, rfl⟩

/-- Only the path component of a request matters. -/
private theorem RuleTable.matchTarget_pathOnly (t : RuleTable) (a : String) {path path' : String}
    (h : pathOnly path = pathOnly path') : t.matchTarget a path = t.matchTarget a path' := by
  simp only [RuleTable.matchTarget, Endpoint.matchesPath, h]

private theorem CaseClosed.matchTarget {t : RuleTable} (h : CaseClosed t) {a b path : String} (hab : SameLetters a b)
    {m : RuleMatch} (hm : t.matchTarget a path = some m) : t.matchTarget b path = some m := by
  obtain ⟨r, hr, rfl⟩ := (t.matchTarget_eq_some_iff a path m).mp hm
  obtain ⟨before, after, hcut, ⟨hauthority, hpath⟩, -⟩ := id hr
  obtain ⟨q, hq, hqauthority, hqpath⟩ := h.listed r (hcut ▸ by simp) b (hauthority ▸ hab.symm)
  obtain ⟨first, hfirst⟩ := RuleTable.exists_first hq ⟨hqauthority, hqpath.trans hpath⟩
  refine (t.matchTarget_eq_some_iff b path _).mpr ⟨first, hfirst, ?_⟩
  obtain ⟨-, -, -, ⟨hfauthority, hfpath⟩, -⟩ := id hfirst
  have halike : first.Alike r := ⟨by rw [hfauthority, hauthority]; exact hab.symm, hfpath.trans hpath.symm⟩
  obtain ⟨htarget, htransparent, hfwmark, hidle⟩ := h.alike first r hfirst.unshadowed hr.unshadowed halike
  rw [Rule.decision, Rule.decision, htarget, htransparent, hfwmark, hidle]

/-- The guard admits every spelling of a rule's host. The request is decided alike
in every spelling only if the table lists them all. -/
theorem gates_agree_on_case (t : RuleTable) :
    (∀ r ∈ t.rules, ∀ a, SameLetters a r.endpoint.authority →
      sniGuard t.allowedSniHosts (some (hostOf a)) = true) ∧
    ((∀ path a a', SameLetters a a' → t.matchTarget a path = t.matchTarget a' path) ∧
      (∀ r ∈ t.rules, ∀ a, SameLetters a r.endpoint.authority → t.matchTarget a r.endpoint.path ≠ none) ↔
      CaseClosed t) := by
  refine ⟨fun r hr a => sniGuard_of_sameLetters hr, ?_, ?_⟩
  · rintro ⟨hsame, hfound⟩
    refine ⟨?_, ?_⟩
    · intro r hr a ha
      obtain ⟨m, hm⟩ := Option.ne_none_iff_exists'.mp (hfound r hr a ha)
      obtain ⟨q, ⟨before, after, hcut, hfits, -⟩, -⟩ := (t.matchTarget_eq_some_iff _ _ _).mp hm
      exact ⟨q, hcut ▸ by simp, hfits⟩
    · intro q r hq hr halike
      have hm := hq.matchTarget
      rw [hsame _ _ _ halike.1, t.matchTarget_pathOnly _ halike.2, hr.matchTarget] at hm
      cases q
      cases r
      cases Option.some.inj hm
      exact ⟨rfl, rfl, rfl, rfl⟩
  · intro h
    refine ⟨?_, ?_⟩
    · intro path a a' haa'
      ext m
      exact ⟨h.matchTarget haa', h.matchTarget haa'.symm⟩
    · intro r hr a ha hnone
      obtain ⟨q, hq, hauthority, hpath⟩ := h.listed r hr a ha
      exact (t.matchTarget_eq_none_iff a _).mp hnone q hq ⟨hauthority, hpath⟩

/-- A table of addresses has one spelling. -/
private theorem caseClosed_of_no_letters {t : RuleTable}
    (h : ∀ r ∈ t.rules, ∀ c ∈ r.endpoint.authority.toList, c.isAlpha = false) : CaseClosed t where
  listed r hr a ha := ⟨r, hr, (eq_of_toAsciiLowercase (h r hr) ((sameLetters_iff ..).mp ha)).symm, rfl⟩
  alike q r hq hr halike := by
    obtain ⟨before, after, hcut, hbefore⟩ := hr
    have hmem : r ∈ t.rules := hcut ▸ by simp
    have hone := eq_of_toAsciiLowercase (h r hmem) ((sameLetters_iff ..).mp halike.1)
    obtain ⟨before', after', hcut', hbefore'⟩ := hq
    have hfirst : t.First r.endpoint.authority r.endpoint.path q :=
      ⟨before', after', hcut', ⟨hone, halike.2⟩, fun p hp hfits =>
        hbefore' p hp ⟨hfits.1.trans hone.symm, hfits.2.trans halike.2.symm⟩⟩
    rw [hfirst.unique ⟨before, after, hcut, ⟨rfl, rfl⟩, hbefore⟩]
    exact ⟨rfl, rfl, rfl, rfl⟩

/-- One rule with a capital letter. -/
def capital : RuleTable :=
  ⟨[⟨⟨"Proxy.example:4433", "/masque"⟩, .v4 0x7f000001 53, false, none, some (secs 35)⟩]⟩

def addressOnly : RuleTable :=
  ⟨[⟨⟨"192.0.2.1:4433", "/masque"⟩, .v4 0x7f000001 53, false, none, some (secs 35)⟩]⟩

theorem gates_agree_on_address :
    ∀ a, SameLetters a "192.0.2.1:4433" → sniGuard addressOnly.allowedSniHosts (some (hostOf a)) = true ∧
      addressOnly.matchTarget a "/masque" = addressOnly.matchTarget "192.0.2.1:4433" "/masque" ∧
      addressOnly.matchTarget a "/masque" ≠ none := by
  have hclosed : CaseClosed addressOnly :=
    caseClosed_of_no_letters (List.forall_mem_singleton.mpr (List.all_iff_forall_prop.mp (by decide)))
  obtain ⟨hguard, hiff⟩ := gates_agree_on_case addressOnly
  obtain ⟨hsame, hfound⟩ := hiff.mpr hclosed
  intro a ha
  exact ⟨hguard _ List.mem_cons_self a ha, hsame _ a _ ha, hfound _ List.mem_cons_self a ha⟩

/-- A client that writes the host in small letters is admitted, and its request is
answered 404. -/
theorem small_letters_not_found :
    SameLetters "proxy.example:4433" "Proxy.example:4433" ∧
    sniGuard capital.allowedSniHosts (some (hostOf "proxy.example:4433")) = true ∧
    (capital.matchTarget "Proxy.example:4433" "/masque").isSome ∧
    ∀ client conn stream answers desk,
      handleConnectRequest capital client conn stream (connectHeaders ⟨"proxy.example:4433", "/masque"⟩)
        answers desk = (desk, [.respond conn stream [⟨utf8 ":status", utf8 "404"⟩] true answers.sent]) := by
  have hsame : SameLetters "proxy.example:4433" "Proxy.example:4433" := by
    rw [SameLetters]
    decide
  have hnone : capital.matchTarget "proxy.example:4433" "/masque" = none := by decide
  refine ⟨hsame, sniGuard_of_sameLetters List.mem_cons_self hsame, by decide, ?_⟩
  intro client conn stream answers desk
  simp only [handleConnectRequest, connectHeaders_parse, hnone]
  rfl

end Match

end ZeroMasque
