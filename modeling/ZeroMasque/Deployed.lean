import ZeroMasque.Reload
import ZeroMasque.Server.Targets

/-! Where a running server sends, in terms of the files it was given: every target
socket goes back to an entry that the rule file had at the start or at a SIGHUP. -/
namespace ZeroMasque
open Foundation Server

/-- The rule that an entry of the rule file stands for at one moment. -/
structure RuleEntry (format : RuleFormat) (w : World) (path : Path) (spec : RuleSpec) (rule : Rule) : Prop where
  listed : ∃ data specs, w.readToString path = .ok data ∧ format.fromStr data = .ok specs ∧ spec ∈ specs
  endpoint : Endpoint.parse spec.endpoint = .ok rule.endpoint
  target : ∃ rest, w.toSocketAddrs spec.target = .ok (rule.target :: rest)
  transparent : rule.transparent = spec.transparent
  fwmark : rule.fwmark = spec.fwmark
  idleTimeout : rule.idleTimeout = if spec.idleTimeout = 0 then none else some (secs spec.idleTimeout.toNat)

private theorem resolve_eq_ok {w : World} {s : String} {addr : SocketAddr} (h : resolve w s = .ok addr) :
    ∃ rest, w.toSocketAddrs s = .ok (addr :: rest) := by
  obtain ⟨addrs, haddrs, hfirst⟩ := bind_eq_ok.mp h
  rw [context, mapError_eq_ok] at haddrs
  cases addrs with
  | nil => cases hfirst
  | cons a rest =>
    obtain rfl := pure_eq_ok.mp hfirst
    exact ⟨rest, haddrs⟩

section Loading
variable {format : RuleFormat} {w : World} {path : Path}

private theorem RuleTable.load_eq_ok {t : RuleTable} (h : RuleTable.load format w path = .ok t) :
    ∃ data specs, w.readToString path = .ok data ∧ format.fromStr data = .ok specs ∧
      specs.mapM (RuleSpec.load format w) = .ok t.rules := by
  simp only [RuleTable.load, bind_eq_ok, context, mapError_eq_ok, bail_eq_ok, pure_eq_ok] at h
  obtain ⟨data, hdata, specs, hspecs, -, rules, hrules, rfl⟩ := h
  exact ⟨data, specs, hdata, hspecs, hrules⟩

private theorem entry_of_load {data : String} {specs : List RuleSpec} {spec : RuleSpec} {rule : Rule}
    (hdata : w.readToString path = .ok data) (hspecs : format.fromStr data = .ok specs) (hspec : spec ∈ specs)
    (h : RuleSpec.load format w spec = .ok rule) : RuleEntry format w path spec rule := by
  simp only [RuleSpec.load, bind_eq_ok, context, withContext, mapError_eq_ok, pure_eq_ok] at h
  obtain ⟨endpoint, hendpoint, target, htarget, rfl⟩ := h
  refine ⟨⟨data, specs, hdata, hspecs, hspec⟩, hendpoint, resolve_eq_ok htarget, rfl, rfl, ?_⟩
  rw [ite_not]

/-- Every rule of a loaded table is an entry of the file. -/
private theorem RuleTable.load_entry {t : RuleTable} (h : RuleTable.load format w path = .ok t) {rule : Rule}
    (hr : rule ∈ t.rules) : ∃ spec, RuleEntry format w path spec rule := by
  obtain ⟨data, specs, hdata, hspecs, hrules⟩ := RuleTable.load_eq_ok h
  obtain ⟨spec, hspec, hload⟩ := exists_of_mem_mapM hrules hr
  exact ⟨spec, entry_of_load hdata hspecs hspec hload⟩

/-- Every entry of the file is a rule of the loaded table. -/
theorem RuleTable.entry_loaded {t : RuleTable} (h : RuleTable.load format w path = .ok t) {data : String}
    {specs : List RuleSpec} (hdata : w.readToString path = .ok data) (hspecs : format.fromStr data = .ok specs)
    {spec : RuleSpec} (hspec : spec ∈ specs) : ∃ rule ∈ t.rules, RuleEntry format w path spec rule := by
  obtain ⟨data', specs', hdata', hspecs', hrules⟩ := RuleTable.load_eq_ok h
  cases hdata.symm.trans hdata'
  cases hspecs.symm.trans hspecs'
  obtain ⟨rule, hrule, hload⟩ := exists_mem_of_mapM hrules hspec
  exact ⟨rule, hrule, entry_of_load hdata hspecs hspec hload⟩

end Loading

namespace Deployment
variable {lib : Libraries} {paths : ReloadPaths}

/-- The files that a log of a deployment saw after the start. -/
def signalled (log : List (Turn Deployment DeployAct DeployEvent)) : List World :=
  log.filterMap fun t =>
    match t.input with
    | .sighup w => some w
    | .host _ => none

private theorem host_eq_some {d d' : Deployment} {i : HostAct} {es : List DeployEvent}
    (h : step lib paths d (.host i) = some (d', es)) :
    ∃ host hes, d.host.step i = some (host, hes) ∧ d'.host = host := by
  have hno (rules : RuleTable) : i ≠ .server (.reload rules) := by
    rintro rfl
    cases h
  rw [step_host d hno] at h
  obtain ⟨⟨host, hes⟩, hstep, heq⟩ := Option.map_eq_some_iff.mp h
  cases heq
  exact ⟨host, hes, hstep, rfl⟩

private theorem mem_signalled {log : List (Turn Deployment DeployAct DeployEvent)} {w : World} :
    w ∈ signalled log ↔ ∃ t ∈ log, t.input = .sighup w := by
  simp only [signalled, List.mem_filterMap]
  refine exists_congr fun t => and_congr_right fun _ => ?_
  cases t.input <;> simp

/-- The rules are entries of the rule file, as it was in one of the worlds. -/
def Listed (lib : Libraries) (paths : ReloadPaths) (worlds : List World) (rules : RuleTable) : Prop :=
  ∃ w ∈ worlds, ∀ rule ∈ rules.rules, ∃ spec, RuleEntry lib.format w paths.rules spec rule

/-- A recorded step started the task for a request that a rule of a listed table grants. -/
def Sourced (lib : Libraries) (paths : ReloadPaths) (worlds : List World)
    (log : List (Turn Deployment DeployAct DeployEvent)) (t : Task) : Prop :=
  ∃ turn ∈ log, ∃ i, turn.input = .host i ∧ Host.Starts turn.before.host i t ∧
    Listed lib paths worlds turn.before.host.server.rules

private theorem Sourced.mono {worlds worlds' : List World} {log log' : List (Turn Deployment DeployAct DeployEvent)}
    {t t' : Task} (hs : Sourced lib paths worlds log t') (hw : worlds ⊆ worlds') (hl : log ⊆ log')
    (hsame : t.Same t') : Sourced lib paths worlds' log' t := by
  obtain ⟨turn, hturn, i, hi, ⟨a, ha, hgrants⟩, w, hmem, hentries⟩ := hs
  obtain ⟨hconn, hflow, hsocket⟩ := hsame
  refine ⟨turn, hl hturn, i, hi, ⟨a, ha, ?_⟩, w, hw hmem, hentries⟩
  rwa [hconn, hflow, hsocket]

private theorem listed_of_rebuild {w : World} {pair : Tls × RuleTable} {worlds : List World} (hw : w ∈ worlds)
    (h : rebuild lib paths w = .ok pair) : Listed lib paths worlds pair.2 := by
  obtain ⟨ech, -, hrules, -⟩ := rebuild_eq_ok.mp h
  exact ⟨w, hw, fun rule hrule => RuleTable.load_entry hrules hrule⟩

/-- At every moment the rules in force are listed. -/
private theorem DeployLog.listed {w : World} {started : Started} (hstart : serve lib paths w = .ok started)
    {clock : Instant} {log : List (Turn Deployment DeployAct DeployEvent)} {d : Deployment}
    (h : DeployLog lib paths (new started clock) log d) :
    Listed lib paths (w :: signalled log) d.host.server.rules := by
  have hpair : d.host.server.rules = ((latest (rebuiltBy lib paths) log).getD started.pair).2 :=
    congrArg Prod.snd (DeployLog.installed h)
  rw [hpair]
  cases hlast : latest (rebuiltBy lib paths) log with
  | none => exact listed_of_rebuild List.mem_cons_self (rebuild_of_serve hstart)
  | some pair =>
    obtain ⟨t, ht, hrebuilt⟩ := exists_of_latest hlast
    obtain ⟨w', hinput, hrebuild⟩ := rebuiltBy_eq_some hrebuilt
    exact listed_of_rebuild (List.mem_cons_of_mem w (mem_signalled.mpr ⟨t, ht, hinput⟩)) hrebuild

/-- Every task is sourced, whatever is signalled. -/
structure Accounted (lib : Libraries) (paths : ReloadPaths) (w : World)
    (log : List (Turn Deployment DeployAct DeployEvent)) (d : Deployment) : Prop where
  numbered : Host.Numbered d.host
  tasks : ∀ t ∈ d.host.tasks, Sourced lib paths (w :: signalled log) log t

private theorem signalled_subset (w : World) (log later : List (Turn Deployment DeployAct DeployEvent)) :
    w :: signalled log ⊆ w :: signalled (log ++ later) := by
  rw [signalled, signalled, List.filterMap_append]
  exact List.cons_subset_cons w (List.subset_append_left _ _)

private theorem Accounted.step {w : World} {log : List (Turn Deployment DeployAct DeployEvent)} {d d' : Deployment}
    {i : DeployAct} {es : List DeployEvent} (ha : Accounted lib paths w log d)
    (hlisted : Listed lib paths (w :: signalled log) d.host.server.rules)
    (hs : Deployment.step lib paths d i = some (d', es)) :
    Accounted lib paths w (log ++ [⟨d, i, d', es⟩]) d' := by
  have hlog := List.subset_append_left log [⟨d, i, d', es⟩]
  have hworlds := signalled_subset w log [⟨d, i, d', es⟩]
  cases i with
  | sighup files =>
    have hhost : d'.host.tasks = d.host.tasks ∧ d'.host.server.channels = d.host.server.channels := by
      rcases sighup_cases lib paths d files with ⟨pair, d'', es', -, hstep, -, hsame, -⟩ | ⟨chain, -, hstep⟩
      · cases hs.symm.trans hstep
        rw [hsame]
        exact ⟨rfl, rfl⟩
      · cases hs.symm.trans hstep
        exact ⟨rfl, rfl⟩
    refine ⟨?_, fun t ht => ?_⟩
    · rw [Host.Numbered, hhost.1, hhost.2]
      exact ha.numbered
    · exact (ha.tasks t (hhost.1 ▸ ht)).mono hworlds hlog (.refl t)
  | host i =>
    obtain ⟨host, hes, hstep, rfl⟩ := host_eq_some hs
    have htrans := Host.step_transition hstep
    refine ⟨htrans.numbered ha.numbered, fun t ht => ?_⟩
    rcases htrans.origin ha.numbered ht with ⟨t', ht', hsame⟩ | hstarts
    · exact (ha.tasks t' ht').mono hworlds hlog hsame
    · obtain ⟨files, hfiles, hentries⟩ := hlisted
      exact ⟨_, List.mem_append_right log (List.mem_singleton_self _), i, rfl, hstarts, files, hworlds hfiles,
        hentries⟩

/-- In every run of a deployment, through any SIGHUPs with any files, every target
socket is the one of the first rule for a request on its connection, and that rule is
an entry that the rule file had at the start or at one of the signals. -/
theorem targets_from_files {w : World} {started : Started} (hstart : serve lib paths w = .ok started)
    {clock : Instant} {log : List (Turn Deployment DeployAct DeployEvent)} {d : Deployment}
    (h : DeployLog lib paths (new started clock) log d) :
    ∀ t ∈ d.host.tasks, Sourced lib paths (w :: signalled log) log t := by
  have hacc : Accounted lib paths w log d := by
    refine Run.invariant ⟨rfl, nofun⟩ ?_ h
    intro log d i d' ts hr ih _ hs
    obtain ⟨es, hstep, rfl⟩ := logged_eq_some hs
    exact ih.step (DeployLog.listed hstart hr) hstep
  exact hacc.tasks

/-- A client of the example files and its request. -/
def resolver : Scid := ⟨List.replicate 16 3, rfl⟩

def dnsRequest : List HostAct :=
  [.server (.accept resolver [1] (.v4 0x01010101 4000) ⟨true, false, none⟩),
    .server (.poll resolver (.headers 0
      [⟨utf8 ":method", utf8 "CONNECT"⟩, ⟨utf8 ":protocol", utf8 "connect-udp"⟩,
        ⟨utf8 ":authority", utf8 "proxy:4433"⟩, ⟨utf8 ":path", utf8 "/dns"⟩]
      ⟨⟨true, fun _ => .opened⟩, true, 5⟩))]

theorem targets_from_files_dns :
    ∃ started log d t, serve exampleLibraries examplePaths (exampleFiles 1 exampleRules) = .ok started ∧
      DeployLog exampleLibraries examplePaths (new started 100) log d ∧ d.host.tasks = [t] ∧
      t.socket.target = .v4 0x7f000001 53 ∧
      Sourced exampleLibraries examplePaths [exampleFiles 1 exampleRules] log t := by
  obtain ⟨pair, hpair⟩ := rebuild_example (n := 1) (by omega) (by omega)
  obtain ⟨⟨config, rules, notices⟩, hstart, -⟩ :=
    serve_iff.mpr ⟨hpair, publishable_example (by omega) (by omega) (by omega) exampleRules⟩
  obtain ⟨ech, -, hload, -⟩ := rebuild_eq_ok.mp (rebuild_of_serve hstart)
  obtain rfl : exampleTable = rules := Except.ok.inj ((load_exampleTable 1).symm.trans hload)
  have hrun : DeployLog exampleLibraries examplePaths (new ⟨config, exampleTable, notices⟩ 100) _ _ :=
    Run.extend .init (dnsRequest.map .host) (fun _ _ _ _ => trivial) rfl
  exact ⟨_, _, _, _, hstart, hrun, rfl, rfl, targets_from_files hstart hrun _ List.mem_cons_self⟩

end Deployment
end ZeroMasque
