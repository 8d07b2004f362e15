import ZeroMasque.Client.Dial
import ZeroMasque.Ech.Keygen

/-! How an ECH key gets from the generator to the client: the bundle is saved for the
server, and the list that is printed for the DNS record is given to the client as an
argument or in a file. -/
namespace ZeroMasque
open Foundation Ech

/-- The text reaches the client, as an argument or as the contents of a file. -/
def Given (w : World) (args : ClientArgs) (s : String) : Prop :=
  args.echConfig = some s ∨
    args.echConfig = none ∧ ∃ path, args.echConfigFile = some path ∧ w.read path = .ok (utf8 s)

/-- The text, with white space around it. -/
def Spaced (s : String) (text : List Char) : Prop :=
  ∃ before after, (∀ c ∈ before, isWhitespace c) ∧ (∀ c ∈ after, isWhitespace c) ∧
    s.toList = before ++ text ++ after

section Reading
variable {b64 : Base64} {w : World} {args : ClientArgs} {s : String}

private theorem Given.echConfigText (h : Given w args s) : echConfigText w args = .ok (some (trim s.toList)) := by
  rcases h with harg | ⟨hnone, path, hfile, hread⟩
  · rw [ZeroMasque.echConfigText, harg]
  · rw [ZeroMasque.echConfigText, hnone, hfile]
    simp only [World.readToString, hread, Except.bind, fromUtf8_utf8]
    rfl

/-- The client decodes what was encoded, however it was pasted. -/
private theorem Given.loadEchConfig (h : Given w args s) (hb : b64.Standard) {list : Bytes}
    (hs : Spaced s (b64.encodeString list)) : loadEchConfig b64 w args = .ok (some list) := by
  obtain ⟨before, after, hbefore, hafter, hs⟩ := hs
  have htrim : trim s.toList = b64.encodeString list := by
    rw [hs, trim, stripWhile_pad hbefore hafter]
    exact trim_base64 (hb.alphabet list)
  rw [ZeroMasque.loadEchConfig, h.echConfigText, htrim]
  simp only [bind, Except.bind, Option.mapM_some, hb.decode_encode]
  rfl

end Reading

section Publishing
variable {lib : Libraries} {paths : ReloadPaths} {w : World} {started : Started} {path : Path}

/-- What a server that was given a key path publishes and installs. -/
private theorem serve_ech (h : serve lib paths w = .ok started) (hpath : paths.echKey = some path) :
    ∃ set list keys, EchKeySet.load lib.base64 w path = .ok set ∧ set.configListBytes = .ok list ∧
      publishNotice lib.base64 list ∈ started.notices ∧ started.config.echKeys = some keys ∧
      List.Forall₂ (Installed lib.boring) set.pairs keys := by
  simp only [serve, bind_eq_ok, option_mapM_eq_ok, orFail_eq_ok, orPanic_eq_ok, withContext_eq_ok, pure_eq_ok] at h
  obtain ⟨rules, -, ech, hech, config, hconfig, rfl⟩ := h
  rcases hech with ⟨hnone, -⟩ | ⟨_, _, hsome, ⟨set, hset, list, hlist, rfl⟩, rfl⟩
  · cases hnone.symm.trans hpath
  · cases hsome.symm.trans hpath
    have hinstall := echKeys_of_build hconfig
    simp only [Option.map_some, option_mapM_eq_ok, reduceCtorEq, false_and, false_or] at hinstall
    obtain ⟨_, keys, ⟨⟩, hkeys, hechKeys⟩ := hinstall
    have hnotice : publishNotice lib.base64 list ∈ echNotices lib.base64 set list :=
      List.mem_cons_of_mem _ List.mem_cons_self
    exact ⟨set, list, keys, hset, hlist, List.mem_append_right _ hnotice, hechKeys, installEchKeys_installed hkeys⟩

/-- What the server prints for publication is decoded by any client it is given to, and
reads as the configs whose keys the server installed: all of them, in their order. -/
theorem published_list_offered (hb : lib.base64.Standard) (h : serve lib paths w = .ok started)
    (hpath : paths.echKey = some path) :
    ∃ list keys configs, publishNotice lib.base64 list ∈ started.notices ∧ started.config.echKeys = some keys ∧
      (∀ wClient args s, Given wClient args s → Spaced s (lib.base64.encodeString list) →
        loadEchConfig lib.base64 wClient args = .ok (some list)) ∧
      (∀ stuck fuel, keys.length ≤ fuel →
        EchConfig.decodeFrom.untilEmpty stuck fuel (list.drop 2) = .ok configs) ∧
      List.Forall₂ (fun c k => EchConfig.decode (EchServerKey.config k) = .ok c) configs keys := by
  obtain ⟨set, list, keys, hset, hlist, hnotice, hkeys, hinstalled⟩ := serve_ech h hpath
  have hsuites := suites_of_load hset
  refine ⟨list, keys, set.pairs.map EchKeyPair.config, hnotice, hkeys, ?_, ?_, ?_⟩
  · exact fun _ _ _ hgiven hs => hgiven.loadEchConfig hb hs
  · intro stuck fuel hfuel
    apply (encodeList_reads hsuites hlist).2
    rwa [List.length_map, hinstalled.length_eq]
  · rw [List.forall₂_map_left_iff]
    have hboth := (List.forall₂_and_left _ _).mpr ⟨fun p hp => hsuites _ (List.mem_map_of_mem hp), hinstalled⟩
    exact hboth.imp fun p k hk => decode_of_encode hk.1 hk.2.config

/-- The two example keys, given to a client with a line end after them. -/
theorem published_list_offered_two :
    ∃ started list keys, serve exampleLibraries examplePaths (exampleFiles 1 exampleRules) = .ok started ∧
      started.config.echKeys = some keys ∧
      loadEchConfig rfc4648 (exampleFiles 1 exampleRules)
        { dnsClient with echConfig := some (String.ofList (rfc4648.encodeString list ++ ['\n'])) } =
          .ok (some list) := by
  obtain ⟨pair, hpair⟩ := rebuild_example (n := 1) (by decide) (by decide)
  obtain ⟨started, hserve, -⟩ :=
    serve_iff.mpr ⟨hpair, publishable_example (by decide) (by decide) (by decide) exampleRules⟩
  obtain ⟨list, keys, -, -, hkeys, hgiven, -, -⟩ := published_list_offered rfc4648_standard hserve rfl
  have hspace : ∀ c ∈ ['\n'], isWhitespace c := List.forall_mem_singleton.mpr rfl
  refine ⟨started, list, keys, hserve, hkeys, hgiven _ _ _ (.inl rfl) ⟨[], ['\n'], nofun, hspace, ?_⟩⟩
  rw [String.toList_ofList]
  rfl

end Publishing

section Generating
variable {b64 : Base64} {env : Surroundings} {name : String}

private theorem run_guidance (herr : ∀ n, env.stderr n = none) (lines : List String) (p : Printed) :
    (lines.forM (writeln env)).run.run p = (.ok (), { p with stderr := p.stderr ++ lines }) := by
  induction lines generalizing p with
  | nil =>
    rw [List.append_nil]
    rfl
  | cons line lines ih =>
    have hline : (writeln env line).run.run p = (.ok (), { p with stderr := p.stderr ++ [line] }) := by
      have hget : (get : Printing Printed).run.run p = (.ok p, p) := rfl
      rw [writeln, run_bind_ok hget, herr]
      rfl
    rw [List.forM, run_bind_ok hline, ih, List.append_assoc]
    rfl

/-- A run in which nothing fails prints the list of the config it generated. -/
private theorem stderr_printed {keys : { key : Bytes // key.length ≤ 32 } × Bytes} {pem : String} {list : Bytes}
    (hname : validatePublicName name = .ok ()) (hkeys : env.keypair = .ok keys) (hout : env.stdout = none)
    (herr : ∀ n, env.stderr n = none)
    (hpem : encodePairPem b64 keys.2 (generatedConfig env.randomByte keys.1 name) = .ok pem)
    (hlist : encodeList [generatedConfig env.randomByte keys.1 name] = .ok list) :
    (printed b64 env name).stderr = guidance name env.randomByte (String.ofList (b64.encodeString list)) := by
  have hdone : (writeAll env pem).run.run {} = (.ok (), ⟨utf8 pem, []⟩) := by
    rw [writeAll, hout]
    rfl
  rw [printed, Ech.run, hname, hkeys]
  simp only [orFail, orPanic, Except.mapError, run_lift_bind_ok, hpem, hlist]
  rw [run_bind_ok hdone, run_lift_bind_ok, run_guidance herr]
  rfl

/-- A key that was generated for a server, saved and loaded: generator and server print
the same list, the server installs the private key with the config of that list, and a
client that is given the list offers that config and no other. -/
theorem generated_key_offered {lib : Libraries} {paths : ReloadPaths} {w : World} {started : Started} {path : Path}
    {keys : { key : Bytes // key.length ≤ 32 } × Bytes} (hb : lib.base64.Standard)
    (hname : validatePublicName name = .ok ()) (hkeys : env.keypair = .ok keys) (hout : env.stdout = none)
    (herr : ∀ n, env.stderr n = none) (hpath : paths.echKey = some path) (hdir : w.isDir path = .ok false)
    (hsaved : w.read path = .ok (printed lib.base64 env name).stdout) (hserve : serve lib paths w = .ok started) :
    ∃ list installed,
      "  ech=\"" ++ String.ofList (lib.base64.encodeString list) ++ "\"" ∈ (printed lib.base64 env name).stderr ∧
      publishNotice lib.base64 list ∈ started.notices ∧ started.config.echKeys = some [installed] ∧
      lib.boring.hpkeKey keys.2 = .ok installed.key ∧
      EchConfig.decode installed.config = .ok (generatedConfig env.randomByte keys.1 name) ∧
      (∀ wClient args s, Given wClient args s → Spaced s (lib.base64.encodeString list) →
        loadEchConfig lib.base64 wClient args = .ok (some list)) ∧
      ∀ stuck fuel, 1 ≤ fuel → EchConfig.decodeFrom.untilEmpty stuck fuel (list.drop 2) =
        .ok [generatedConfig env.randomByte keys.1 name] := by
  obtain ⟨set, list, installed, hset, hlist, hnotice, hechKeys, hinstalled⟩ := serve_ech hserve hpath
  have hload := load_file hdir hsaved (bundle_printed hb hname hkeys hout) (List.cons_ne_nil _ _) rfl
  cases hload.symm.trans hset
  rcases hinstalled with _ | ⟨hpair, ⟨⟩⟩
  rename_i k
  have hsuites : ∀ c ∈ [generatedConfig env.randomByte keys.1 name], c.cipherSuites ≠ [] := by
    simp [generatedConfig]
  have hpem : ∃ pem, encodePairPem lib.base64 keys.2 (generatedConfig env.randomByte keys.1 name) = .ok pem :=
    ⟨_, bind_eq_ok.mpr ⟨k.config, hpair.config, pure_eq_ok.mpr rfl⟩⟩
  obtain ⟨pem, hpem⟩ := hpem
  refine ⟨list, k, ?_, hnotice, hechKeys, hpair.key, ?_, ?_, (encodeList_reads hsuites hlist).2⟩
  · rw [stderr_printed hname hkeys hout herr hpem hlist]
    simp only [guidance, List.mem_cons, true_or, or_true]
  · exact decode_of_encode (hsuites _ List.mem_cons_self) hpair.config
  · exact fun _ _ _ hgiven hs => hgiven.loadEchConfig hb hs

/-- The example files with a freshly generated key. -/
def generatedFiles : World :=
  { exampleFiles 1 exampleRules with
    read := fun path =>
      if path.display = "ech.pem" then .ok (printed rfc4648 smoothRun "public.example.com").stdout
      else (exampleFiles 1 exampleRules).read path }

/-- The key in it. -/
def generatedPair : EchKeyPair :=
  ⟨exampleKey, generatedConfig 7 examplePublicKey "public.example.com"⟩

private theorem valid_example : validatePublicName "public.example.com" = .ok () := by decide

private theorem read_generated : generatedFiles.read ⟨"ech.pem", some "ech.pem"⟩ =
    .ok (printed rfc4648 smoothRun "public.example.com").stdout := by
  simp only [generatedFiles, if_true]

private theorem read_unchanged {path : Path} (h : path.display ≠ "ech.pem") :
    generatedFiles.read path = (exampleFiles 1 exampleRules).read path := by
  simp only [generatedFiles, h, if_false]

private theorem keypair_smoothRun :
    smoothRun.keypair = .ok (⟨examplePublicKey, by decide⟩, exampleKey) := rfl

private theorem load_generated :
    EchKeySet.load rfc4648 generatedFiles ⟨"ech.pem", some "ech.pem"⟩ = .ok ⟨[generatedPair]⟩ :=
  load_file rfl read_generated (bundle_printed rfc4648_standard valid_example keypair_smoothRun rfl)
    (List.cons_ne_nil _ _) rfl

private theorem rules_generated :
    RuleTable.load exampleLibraries.format generatedFiles examplePaths.rules = .ok exampleTable := by
  have hread : generatedFiles.readToString examplePaths.rules = .ok exampleRules := by
    rw [World.readToString, read_unchanged (by decide)]
    exact readToString_exampleRules 1
  rw [RuleTable.load, hread]
  rfl

private theorem build_generated : ∃ tls, buildServerConfig exampleLibraries.boring generatedFiles examplePaths.cert
    examplePaths.key (some ⟨[generatedPair]⟩) exampleTable.allowedSniHosts = .ok tls := by
  have hinstall : ∃ keys, installEchKeys exampleLibraries.boring ⟨[generatedPair]⟩ = .ok keys := by
    obtain ⟨bytes, hbytes⟩ := encodes_of_load load_generated _ List.mem_cons_self
    simp only [installEchKeys, addKeys, hbytes]
    exact ⟨_, rfl⟩
  obtain ⟨keys, hkeys⟩ := hinstall
  rw [buildServerConfig, read_unchanged (by decide), read_unchanged (by decide)]
  simp only [Option.mapM_some, hkeys]
  exact ⟨_, rfl⟩

private theorem serve_generated :
    ∃ started, serve exampleLibraries examplePaths generatedFiles = .ok started := by
  obtain ⟨tls, htls⟩ := build_generated
  have hrebuild : rebuild exampleLibraries examplePaths generatedFiles = .ok (tls, exampleTable) :=
    rebuild_eq_ok.mpr ⟨_, .inr ⟨_, _, rfl, load_generated, rfl⟩, rules_generated, htls⟩
  have hpub : Publishable exampleLibraries examplePaths generatedFiles := by
    rintro path set ⟨⟩ hset
    cases load_generated.symm.trans hset
    decide
  obtain ⟨started, hserve, -⟩ := serve_iff.mpr ⟨hrebuild, hpub⟩
  exact ⟨started, hserve⟩

theorem generated_key_offered_smooth :
    ∃ started list, serve exampleLibraries examplePaths generatedFiles = .ok started ∧
      publishNotice rfc4648 list ∈ started.notices ∧
      EchConfig.decodeFrom.untilEmpty "" 1 (list.drop 2) = .ok [generatedPair.config] := by
  obtain ⟨started, hserve⟩ := serve_generated
  have hsaved : generatedFiles.read ⟨"ech.pem", some "ech.pem"⟩ =
      .ok (printed exampleLibraries.base64 smoothRun "public.example.com").stdout := by
    rw [show exampleLibraries.base64 = rfc4648 from rfl, read_generated]
  obtain ⟨list, -, -, hnotice, -, -, -, -, hread⟩ := generated_key_offered rfc4648_standard valid_example
    keypair_smoothRun rfl (fun _ => rfl) rfl rfl hsaved hserve
  exact ⟨started, list, hserve, hnotice, hread "" 1 (by decide)⟩

end Generating

end ZeroMasque
