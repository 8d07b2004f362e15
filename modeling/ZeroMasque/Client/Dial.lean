import ZeroMasque.Agreement
import ZeroMasque.Deployed

/-! Starting the client and dialing the proxy server. Where the packets go, which
name the handshake asks for and what the requests say are three separate things; only
the last two are tied to each other. -/
namespace ZeroMasque
open Foundation Ech

structure ClientArgs where
  endpoint : String
  listen : SocketAddr
  proxyAddr : Option SocketAddr
  insecure : Bool
  ca : Option Path
  echConfig : Option String
  echConfigFile : Option Path

/-- How the client verifies the proxy's certificate. -/
inductive Verify where
  | roots (caFile : Option Path)
  | insecure
  deriving DecidableEq

structure ConnectParams where
  endpoint : Endpoint
  proxyAddr : Option SocketAddr
  verify : Verify
  echConfigList : Option Bytes

structure ProxyOptions where
  conn : ConnectParams
  listen : SocketAddr

/-- The text of the ECHConfigList; the argument comes before the file. -/
def echConfigText (w : World) (args : ClientArgs) : Except Chain (Option (List Char)) :=
  match args.echConfig, args.echConfigFile with
  | some s, _ => .ok (some (trim s.toList))
  | none, some path => do
    let s ← context ("reading ECH config file " ++ path.display) (w.readToString path)
    return some (trim s.toList)
  | none, none => .ok none

def loadEchConfig (b64 : Base64) (w : World) (args : ClientArgs) : Except Chain (Option Bytes) := do
  let text ← echConfigText w args
  text.mapM fun cs => (b64.decodeVec cs).mapError fun e => ["invalid base64 ECHConfigList: " ++ e]

/-- `client`, up to the point where the proxy runs. -/
def client (b64 : Base64) (w : World) (args : ClientArgs) : Except Chain ProxyOptions := do
  let endpoint ← (Endpoint.parse args.endpoint).mapError fun e => [e]
  let verify := if args.insecure then .insecure else .roots args.ca
  let echConfigList ← loadEchConfig b64 w args
  return ⟨⟨endpoint, args.proxyAddr, verify, echConfigList⟩, args.listen⟩

/-- What a client's TLS configuration is made of, apart from constants. With
verification on, these CA files are trusted besides the library's default paths. -/
structure ClientTls where
  caFiles : Option (List Path)
  echConfigList : Option Bytes
  deriving DecidableEq

/-- The calls into the TLS and QUIC libraries and into the network. -/
structure Network where
  contextNew : Except String Unit
  setMinProtoVersion : Except String Unit
  setMaxProtoVersion : Except String Unit
  pathExists : Path → Bool
  setCaFile : Path → Except String Unit
  quicheConfig : ClientTls → Except String Unit
  setApplicationProtos : Except String Unit
  setCcAlgorithmName : Except String Unit
  -- `{}` of a socket address
  display : SocketAddr → String
  bind : SocketAddr → Except String Unit
  setNonblocking : SocketAddr → Except String Unit
  fromStd : SocketAddr → Except String Unit
  -- of a socket that is bound to this address
  localAddr : SocketAddr → Except String SocketAddr
  randomScid : Bytes
  -- server name, connection id, local address and peer
  connect : String → Bytes → SocketAddr → SocketAddr → ClientTls → Except String Unit

def caBundlePaths : List Path :=
  [⟨"/etc/ssl/certs/ca-certificates.crt", some "ca-certificates.crt"⟩,
    ⟨"/etc/pki/tls/certs/ca-bundle.crt", some "ca-bundle.crt"⟩,
    ⟨"/etc/ssl/cert.pem", some "cert.pem"⟩,
    ⟨"/etc/ssl/ca-bundle.pem", some "ca-bundle.pem"⟩]

/-- The bundle that is loaded: the first that exists and can be read. -/
def loadSystemRoots (net : Network) : Option Path :=
  caBundlePaths.find? fun path => net.pathExists path && (net.setCaFile path).isOk

/-- The CA files of a configuration that verifies. -/
def setVerify (net : Network) : Verify → Except Chain (Option (List Path))
  | .insecure => .ok none
  | .roots caFile => do
    let system := loadSystemRoots net
    let extra ← caFile.mapM fun ca => do
      context ("loading CA file " ++ ca.display) (net.setCaFile ca)
      return ca
    return some (system.toList ++ extra.toList)

def buildClientConfig (net : Network) (verify : Verify) (echConfigList : Option Bytes) :
    Except Chain ClientTls := do
  context "creating BoringSSL client context" net.contextNew
  context "min TLS version" net.setMinProtoVersion
  context "max TLS version" net.setMaxProtoVersion
  let caFiles ← setVerify net verify
  let tls : ClientTls := { caFiles, echConfigList }
  (net.quicheConfig tls).mapError fun e => ["quiche client config: " ++ e]
  context "setting ALPN h3" net.setApplicationProtos
  context "selecting BBRv2 congestion control" net.setCcAlgorithmName
  return tls

def resolveAuthority (w : World) (authority : String) : Except Chain SocketAddr := do
  let addrs ← context ("resolving proxy authority " ++ authority) (w.toSocketAddrs authority)
  match addrs with
  | addr :: _ => return addr
  | [] => throw ["no addresses for proxy authority " ++ authority]

/-- Where the packets go. -/
def proxyAddress (w : World) (p : ConnectParams) : Except Chain SocketAddr :=
  match p.proxyAddr with
  | some addr => .ok addr
  | none => resolveAuthority w p.endpoint.authority

/-- The address a socket is bound to. -/
def bindUdp (net : Network) (addr : SocketAddr) : Except Chain SocketAddr := do
  context ("binding UDP " ++ net.display addr) (net.bind addr)
  context ("setting UDP " ++ net.display addr ++ " nonblocking") (net.setNonblocking addr)
  context ("adopting UDP " ++ net.display addr ++ " into monoio") (net.fromStd addr)
  return addr

/-- What `quiche::connect` is given. -/
structure Connection where
  serverName : String
  scid : Bytes
  localAddr : SocketAddr
  peer : SocketAddr
  config : ClientTls

/-- The result of `dial`; `dialed` is the part that requests are made from. -/
structure Dialing where
  socket : SocketAddr
  conn : Connection
  localAddr : SocketAddr
  dialed : Dialed

def dial (net : Network) (w : World) (p : ConnectParams) : Except Chain Dialing := do
  let config ← buildClientConfig net p.verify p.echConfigList
  let proxyAddr ← proxyAddress w p
  let serverName := hostOf p.endpoint.authority
  let socket ← withContext "binding client UDP socket" (bindUdp net proxyAddr.unspecifiedFor)
  let localAddr ← context "client local addr" (net.localAddr socket)
  (net.connect serverName net.randomScid localAddr proxyAddr config).mapError fun e => ["quiche::connect: " ++ e]
  return ⟨socket, ⟨serverName, net.randomScid, localAddr, proxyAddr, config⟩, localAddr,
    ⟨p.endpoint.authority, p.endpoint.path⟩⟩

section Start
variable {b64 : Base64} {w : World} {args : ClientArgs} {net : Network}

private theorem client_eq_ok {opts : ProxyOptions} (h : client b64 w args = .ok opts) :
    Endpoint.parse args.endpoint = .ok opts.conn.endpoint ∧ opts.conn.proxyAddr = args.proxyAddr ∧
      opts.conn.verify = (if args.insecure then .insecure else .roots args.ca) ∧
      loadEchConfig b64 w args = .ok opts.conn.echConfigList ∧ opts.listen = args.listen := by
  simp only [client, bind_eq_ok, pure_eq_ok, mapError_eq_ok] at h
  obtain ⟨e, he, list, hlist, rfl⟩ := h
  exact ⟨he, rfl, rfl, hlist, rfl⟩

/-- What a configuration trusts, as far as the arguments and the system decide. -/
def trusted (net : Network) : Verify → Option (List Path)
  | .insecure => none
  | .roots caFile => some ((loadSystemRoots net).toList ++ caFile.toList)

/-- A CA file that was asked for is loaded, or there is no configuration. -/
private theorem setVerify_eq_ok {verify : Verify} {caFiles : Option (List Path)}
    (h : setVerify net verify = .ok caFiles) : caFiles = trusted net verify := by
  cases verify with
  | insecure =>
    cases h
    rfl
  | roots caFile =>
    simp only [setVerify, bind_eq_ok, pure_eq_ok, option_mapM_eq_ok] at h
    obtain ⟨extra, hextra, rfl⟩ := h
    rcases hextra with ⟨rfl, rfl⟩ | ⟨ca, _, rfl, ⟨-, -, rfl⟩, rfl⟩ <;> rfl

private theorem buildClientConfig_eq_ok {verify : Verify} {list : Option Bytes} {tls : ClientTls}
    (h : buildClientConfig net verify list = .ok tls) : tls = ⟨trusted net verify, list⟩ := by
  simp only [buildClientConfig, bind_eq_ok, pure_eq_ok] at h
  obtain ⟨-, -, -, -, -, -, caFiles, hfiles, -, -, -, -, -, -, rfl⟩ := h
  rw [setVerify_eq_ok hfiles]

/-- The packets go to the given address, or to the first one of the authority. -/
private theorem proxyAddress_eq_ok {p : ConnectParams} {peer : SocketAddr} (h : proxyAddress w p = .ok peer) :
    p.proxyAddr = some peer ∨
      p.proxyAddr = none ∧ ∃ rest, w.toSocketAddrs p.endpoint.authority = .ok (peer :: rest) := by
  rw [proxyAddress] at h
  split at h
  · rename_i addr hp
    cases h
    exact .inl hp
  · rename_i hp
    obtain ⟨addrs, haddrs, h⟩ := bind_eq_ok.mp h
    cases addrs with
    | nil => cases h
    | cons addr rest =>
      cases pure_eq_ok.mp h
      exact .inr ⟨hp, rest, mapError_eq_ok.mp haddrs⟩

private theorem dial_eq_ok {p : ConnectParams} {d : Dialing} (h : dial net w p = .ok d) :
    d.conn.serverName = hostOf p.endpoint.authority ∧ d.dialed = ⟨p.endpoint.authority, p.endpoint.path⟩ ∧
      d.conn.config = ⟨trusted net p.verify, p.echConfigList⟩ ∧ proxyAddress w p = .ok d.conn.peer ∧
      d.socket = d.conn.peer.unspecifiedFor ∧ net.localAddr d.socket = .ok d.conn.localAddr := by
  simp only [dial, bind_eq_ok, pure_eq_ok, withContext_eq_ok] at h
  obtain ⟨config, hconfig, peer, hpeer, socket, hsocket, addr, haddr, -, -, rfl⟩ := h
  simp only [bindUdp, bind_eq_ok, pure_eq_ok] at hsocket
  obtain ⟨-, -, -, -, -, -, rfl⟩ := hsocket
  exact ⟨rfl, rfl, buildClientConfig_eq_ok hconfig, hpeer, rfl, mapError_eq_ok.mp haddr⟩

end Start

section Served
variable {lib : Libraries} {paths : ReloadPaths} {w : World} {pair : Tls × RuleTable} {b64 : Base64}
  {wStart wDial : World} {args : ClientArgs} {opts : ProxyOptions} {net : Network} {d : Dialing}

/-- A client that is started with the endpoint of an entry of the rule file and gets to
dial asks for a name that the server's guard lets pass, and its requests get the decision
of the first rule for them, wherever its packets are sent. The server's certificate is
verified unless the client was told not to. -/
theorem client_served (hserver : rebuild lib paths w = .ok pair) {data : String} {specs : List RuleSpec}
    (hdata : w.readToString paths.rules = .ok data) (hspecs : lib.format.fromStr data = .ok specs)
    {spec : RuleSpec} (hspec : spec ∈ specs) (hsame : args.endpoint = spec.endpoint)
    (hclient : client b64 wStart args = .ok opts) (hdial : dial net wDial opts.conn = .ok d) :
    sniGuard pair.1.allowedSniHosts (some d.conn.serverName) = true ∧
      (∃ req first, Server.ConnectRequest.parse (connectHeaders d.dialed) = .ok req ∧
        pair.2.First req.authority req.path first ∧
        pair.2.matchTarget req.authority req.path = some first.decision) ∧
      (∀ addr ∈ args.proxyAddr, d.conn.peer = addr) ∧ d.socket.isIpv4 = d.conn.peer.isIpv4 ∧
      (d.conn.config.caFiles = none ↔ args.insecure = true) := by
  obtain ⟨ech, -, hrules, hconfig⟩ := rebuild_eq_ok.mp hserver
  obtain ⟨hendpoint, hproxy, hverify, -, -⟩ := client_eq_ok hclient
  obtain ⟨hname, hdialed, htls, hpeer, hsocket, -⟩ := dial_eq_ok hdial
  obtain ⟨rule, hrule, hentry⟩ := RuleTable.entry_loaded hrules hdata hspecs hspec
  have hsameEndpoint : rule.endpoint = opts.conn.endpoint := by
    rw [hsame] at hendpoint
    exact Except.ok.inj (hentry.endpoint.symm.trans hendpoint)
  refine ⟨?_, ?_, ?_, ?_, ?_⟩
  · rw [allowedSniHosts_of_build hconfig, hname, hostOf_eq_hostOfAuthority, ← hsameEndpoint]
    exact sniGuard_allowedSniHosts hrule
  · have hfit : rule.Fits d.dialed.authority d.dialed.path := by
      rw [hdialed, ← hsameEndpoint]
      exact ⟨rfl, rfl⟩
    obtain ⟨first, hfirst⟩ := RuleTable.exists_first hrule hfit
    exact ⟨_, first, connectHeaders_parse d.dialed, hfirst,
      (pair.2.matchTarget_eq_some_iff _ _ _).mpr ⟨first, hfirst, rfl⟩⟩
  · intro addr haddr
    rcases proxyAddress_eq_ok hpeer with hsome | ⟨hnone, -⟩
    · exact Option.some.inj (hsome.symm.trans (hproxy.trans haddr))
    · rw [hproxy, haddr] at hnone
      cases hnone
  · rw [hsocket, SocketAddr.isIpv4_unspecifiedFor]
  · rw [htls, hverify]
    cases args.insecure <;> simp [trusted]

/-- Libraries and a network in which nothing fails. -/
def smoothNetwork : Network where
  contextNew := .ok ()
  setMinProtoVersion := .ok ()
  setMaxProtoVersion := .ok ()
  pathExists path := path.display = "/etc/ssl/cert.pem"
  setCaFile _ := .ok ()
  quicheConfig _ := .ok ()
  setApplicationProtos := .ok ()
  setCcAlgorithmName := .ok ()
  display _ := ""
  bind _ := .ok ()
  setNonblocking _ := .ok ()
  fromStd _ := .ok ()
  localAddr _ := .ok (.v4 0 40000)
  randomScid := List.replicate 20 7
  connect _ _ _ _ _ := .ok ()

/-- A client of the example server that sends its packets elsewhere. -/
def dnsClient : ClientArgs where
  endpoint := "https://proxy:4433/dns"
  listen := .v4 0x7f000001 5353
  proxyAddr := some (.v4 0xc0000201 4433)
  insecure := false
  ca := none
  echConfig := none
  echConfigFile := none

theorem client_served_elsewhere : ∃ pair opts d,
    rebuild exampleLibraries examplePaths (exampleFiles 1 exampleRules) = .ok pair ∧
      client rfc4648 (exampleFiles 1 exampleRules) dnsClient = .ok opts ∧
      dial smoothNetwork (exampleFiles 1 exampleRules) opts.conn = .ok d ∧
      sniGuard pair.1.allowedSniHosts (some d.conn.serverName) = true ∧
      d.conn.peer = .v4 0xc0000201 4433 ∧ d.conn.config.caFiles ≠ none := by
  obtain ⟨pair, hpair⟩ := rebuild_example (n := 1) (by decide) (by decide)
  have hparse : Endpoint.parse dnsClient.endpoint = .ok ⟨"proxy:4433", "/dns"⟩ := by decide
  have hclient : ∃ opts, client rfc4648 (exampleFiles 1 exampleRules) dnsClient = .ok opts := by
    rw [client, hparse]
    exact ⟨_, rfl⟩
  obtain ⟨opts, hopts⟩ := hclient
  obtain ⟨-, hproxy, hverify, -, -⟩ := client_eq_ok hopts
  have hdial : ∃ d, dial smoothNetwork (exampleFiles 1 exampleRules) opts.conn = .ok d := by
    rw [dial, proxyAddress, hproxy, hverify]
    exact ⟨_, rfl⟩
  obtain ⟨d, hd⟩ := hdial
  obtain ⟨hguard, -, hpeer, -, htrust⟩ :=
    client_served hpair (readToString_exampleRules 1) rfl List.mem_cons_self rfl hopts hd
  exact ⟨pair, opts, d, hpair, hopts, hd, hguard, hpeer _ rfl, fun hnone => nomatch htrust.mp hnone⟩

end Served

end ZeroMasque
