import ZeroMasque.Files
import ZeroMasque.Foundation.Results
import ZeroMasque.Rules

/-! Loading the rule table from its file. -/
namespace ZeroMasque
open Foundation

/-- An entry of the rule file, with the defaults of the fields it may leave out. -/
structure RuleSpec where
  endpoint : String
  target : String
  transparent : Bool := false
  fwmark : Option UInt32 := none
  idleTimeout : UInt64 := 35

/-- JSON and `{:?}`, which belong to libraries. -/
structure RuleFormat where
  fromStr : String → Except String (List RuleSpec)
  debug : String → String

def resolve (w : World) (s : String) : Except Chain SocketAddr := do
  let addrs ← context ("resolving " ++ s) (w.toSocketAddrs s)
  match addrs with
  | addr :: _ => return addr
  | [] => throw ["no addresses for " ++ s]

def RuleSpec.load (format : RuleFormat) (w : World) (spec : RuleSpec) : Except Chain Rule := do
  let endpoint ← context ("rule endpoint " ++ format.debug spec.endpoint) (Endpoint.parse spec.endpoint)
  let target ← withContext ("rule target " ++ format.debug spec.target) (resolve w spec.target)
  return {
    endpoint, target
    transparent := spec.transparent
    fwmark := spec.fwmark
    idleTimeout := if spec.idleTimeout ≠ 0 then some (secs spec.idleTimeout.toNat) else none }

def RuleTable.load (format : RuleFormat) (w : World) (path : Path) : Except Chain RuleTable := do
  let data ← context ("reading rule table " ++ path.display) (w.readToString path)
  let specs ← context ("parsing rule table " ++ path.display) (format.fromStr data)
  if specs.isEmpty then throw ["rule table " ++ path.display ++ " is empty"]
  let rules ← specs.mapM (RuleSpec.load format w)
  return ⟨rules⟩

/-- Rules that need `CAP_NET_ADMIN`. -/
def RuleTable.privilegedCount (t : RuleTable) : Nat :=
  (t.rules.filter fun r => r.transparent || r.fwmark.isSome).length

end ZeroMasque
