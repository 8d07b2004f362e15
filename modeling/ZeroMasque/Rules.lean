import ZeroMasque.Endpoint
import ZeroMasque.Foundation.Logs

/-! The server's rule table: the first rule for an authority and a path pins
the forwarding target. Durations and instants count nanoseconds. -/
namespace ZeroMasque

abbrev Duration := Nat
abbrev Instant := Nat

/-- `Duration::from_secs`. -/
def secs (n : Nat) : Duration := n * 1000000000

structure Rule where
  endpoint : Endpoint
  target : SocketAddr
  transparent : Bool
  fwmark : Option UInt32
  idleTimeout : Option Duration
  deriving DecidableEq

/-- The forwarding decision for a matched request. -/
structure RuleMatch where
  target : SocketAddr
  transparent : Bool
  fwmark : Option UInt32
  idleTimeout : Option Duration
  deriving DecidableEq

structure RuleTable where
  rules : List Rule

def Rule.decision (r : Rule) : RuleMatch := ⟨r.target, r.transparent, r.fwmark, r.idleTimeout⟩

/-- The rule's authority is exactly the given one and its path component agrees. -/
def Rule.Fits (r : Rule) (authority path : String) : Prop :=
  r.endpoint.authority = authority ∧ pathOnly r.endpoint.path = pathOnly path

instance (r : Rule) (authority path : String) : Decidable (r.Fits authority path) :=
  inferInstanceAs (Decidable (_ ∧ _))

/-- The first rule in table order that fits. -/
def RuleTable.First (t : RuleTable) (authority path : String) (r : Rule) : Prop :=
  ∃ before after, t.rules = before ++ r :: after ∧ r.Fits authority path ∧
    ∀ q ∈ before, ¬ q.Fits authority path

def RuleTable.matchTarget (t : RuleTable) (authority path : String) : Option RuleMatch :=
  (t.rules.find? fun r => r.endpoint.authority == authority && r.endpoint.matchesPath path).map
    Rule.decision

private theorem fits_test (r : Rule) (authority path : String) :
    (r.endpoint.authority == authority && r.endpoint.matchesPath path) = true ↔
      r.Fits authority path := by
  simp only [Bool.and_eq_true, beq_iff_eq, Endpoint.matchesPath, Rule.Fits]
  exact and_congr_right fun _ => eq_comm

theorem RuleTable.matchTarget_eq_some_iff (t : RuleTable) (authority path : String) (m : RuleMatch) :
    t.matchTarget authority path = some m ↔ ∃ r, t.First authority path r ∧ r.decision = m := by
  simp only [matchTarget, Option.map_eq_some_iff, List.find?_eq_some_iff_append]
  constructor
  · rintro ⟨r, ⟨hr, before, after, he, hb⟩, hm⟩
    refine ⟨r, ⟨before, after, he, (fits_test r authority path).mp hr, ?_⟩, hm⟩
    intro q hq hfit
    have hn := hb q hq
    rw [(fits_test q authority path).mpr hfit] at hn
    exact absurd hn (by decide)
  · rintro ⟨r, ⟨before, after, he, hr, hb⟩, hm⟩
    refine ⟨r, ⟨(fits_test r authority path).mpr hr, before, after, he, ?_⟩, hm⟩
    intro q hq
    rw [Bool.not_eq_true']
    exact Bool.eq_false_iff.mpr (mt (fits_test q authority path).mp (hb q hq))

theorem RuleTable.matchTarget_eq_none_iff (t : RuleTable) (authority path : String) :
    t.matchTarget authority path = none ↔ ∀ r ∈ t.rules, ¬ r.Fits authority path := by
  simp only [matchTarget, Option.map_eq_none_iff, List.find?_eq_none, fits_test]

/-- The host of an authority, without its port or the brackets of an IPv6 literal. -/
def hostOfAuthority (authority : String) : String :=
  match (['['].isPrefixOf? authority.toList).bind (Foundation.splitOnce [']']) with
  | some (host, _) => String.ofList host
  | none =>
    match Foundation.rsplitOnce ':' authority.toList with
    | some (host, _) => String.ofList host
    | none => authority

/-- The authority begins with an IPv6 literal in brackets. -/
def Bracketed (authority : String) : Prop := authority.toList.head? = some '[' ∧ ']' ∈ authority.toList

theorem hostOfAuthority_bracketed {host : String} (h : ']' ∉ host.toList) (rest : String) :
    hostOfAuthority ("[" ++ host ++ "]" ++ rest) = host := by
  have hlist : ("[" ++ host ++ "]" ++ rest).toList = '[' :: (host.toList ++ [']'] ++ rest.toList) := by simp
  rw [hostOfAuthority, hlist]
  simp only [List.isPrefixOf?, beq_self_eq_true, if_true, Option.bind_some, Foundation.splitOnce_append h,
    String.ofList_toList]

private theorem unbracketed_cut {authority : String} (h : ¬ Bracketed authority) :
    (['['].isPrefixOf? authority.toList).bind (Foundation.splitOnce [']']) = none := by
  cases hlist : authority.toList with
  | nil => rfl
  | cons c text =>
    by_cases hc : c = '['
    · subst hc
      have hclose : ']' ∉ text := fun hmem => h ⟨by rw [hlist]; rfl, hlist ▸ List.mem_cons_of_mem _ hmem⟩
      exact Foundation.splitOnce_eq_none hclose
    · simp [List.isPrefixOf?, Ne.symm hc]

theorem hostOfAuthority_port {host port : String} (hport : ':' ∉ port.toList) (h : ¬ Bracketed (host ++ ":" ++ port)) :
    hostOfAuthority (host ++ ":" ++ port) = host := by
  have hlist : (host ++ ":" ++ port).toList = host.toList ++ ':' :: port.toList := by simp
  rw [hostOfAuthority, unbracketed_cut h, hlist, Foundation.rsplitOnce_append hport]
  exact String.ofList_toList

theorem hostOfAuthority_bare {authority : String} (hport : ':' ∉ authority.toList) (h : ¬ Bracketed authority) :
    hostOfAuthority authority = authority := by
  rw [hostOfAuthority, unbracketed_cut h, Foundation.rsplitOnce_eq_none hport]

/-- The host names allowed in TLS SNI: those of the rules, once each. -/
def RuleTable.allowedSniHosts (t : RuleTable) : List String :=
  t.rules.foldl (fun hosts rule =>
    let host := Foundation.toAsciiLowercase (hostOfAuthority rule.endpoint.authority)
    if hosts.contains host then hosts else hosts ++ [host]) []

private theorem mem_foldl_once {α β : Type} [DecidableEq β] (g : α → β) (xs : List α) (ys : List β) (y : β) :
    y ∈ xs.foldl (fun ys x => if ys.contains (g x) then ys else ys ++ [g x]) ys ↔
      y ∈ ys ∨ ∃ x ∈ xs, g x = y := by
  induction xs generalizing ys with
  | nil => simp
  | cons x xs ih =>
    rw [List.foldl_cons, ih]
    by_cases hx : g x ∈ ys
    · rw [if_pos (by simpa using hx)]
      constructor
      · rintro (hy | ⟨x', hx', rfl⟩)
        · exact .inl hy
        · exact .inr ⟨x', List.mem_cons_of_mem _ hx', rfl⟩
      · rintro (hy | ⟨x', hx', rfl⟩)
        · exact .inl hy
        · rcases List.mem_cons.mp hx' with rfl | hx'
          · exact .inl hx
          · exact .inr ⟨x', hx', rfl⟩
    · rw [if_neg (by simpa using hx)]
      simp [or_assoc, eq_comm]

theorem RuleTable.mem_allowedSniHosts (t : RuleTable) (host : String) :
    host ∈ t.allowedSniHosts ↔
      ∃ r ∈ t.rules, Foundation.toAsciiLowercase (hostOfAuthority r.endpoint.authority) = host := by
  rw [allowedSniHosts]
  simpa using mem_foldl_once
    (fun r : Rule => Foundation.toAsciiLowercase (hostOfAuthority r.endpoint.authority)) t.rules [] host

private theorem nodup_foldl_once {α β : Type} [DecidableEq β] (g : α → β) (xs : List α) {ys : List β}
    (h : ys.Nodup) : (xs.foldl (fun ys x => if ys.contains (g x) then ys else ys ++ [g x]) ys).Nodup := by
  induction xs generalizing ys with
  | nil => exact h
  | cons x xs ih =>
    rw [List.foldl_cons]
    apply ih
    split
    · exact h
    · rename_i hnew
      refine List.nodup_append.mpr ⟨h, by simp, ?_⟩
      rintro y hy z hz rfl
      rw [List.mem_singleton.mp hz] at hy
      exact hnew (List.contains_iff_mem.mpr hy)

theorem RuleTable.nodup_allowedSniHosts (t : RuleTable) : t.allowedSniHosts.Nodup :=
  nodup_foldl_once (fun r : Rule => Foundation.toAsciiLowercase (hostOfAuthority r.endpoint.authority)) t.rules
    List.nodup_nil

/-- Two rules that are both first are the same. -/
theorem RuleTable.First.unique {t : RuleTable} {authority path : String} {r r' : Rule}
    (h : t.First authority path r) (h' : t.First authority path r') : r = r' := by
  obtain ⟨before, after, he, hf, hb⟩ := h
  obtain ⟨before', after', he', hf', hb'⟩ := h'
  have hcut := he.symm.trans he'
  obtain ⟨rfl, rfl⟩ := Foundation.first_unique hcut hb hf hb' hf'
  exact (List.cons.inj (List.append_cancel_left hcut)).1

end ZeroMasque
