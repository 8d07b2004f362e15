import ZeroMasque.Ech.Pem
import ZeroMasque.Files

/-! The ECH keys of a file or of all visible files of a directory. -/
namespace ZeroMasque.Ech
open Foundation

structure EchKeySet where
  pairs : List EchKeyPair

/-- The files of a directory that hold keys, in the order of their names. -/
def keyFiles (entries : List (Except String Path)) : List Path :=
  let visible := (entries.filterMap Except.toOption).filter fun p =>
    p.fileName.any fun n => !(['.'].isPrefixOf n.toList)
  visible.mergeSort fun p q => p.fileName.getD "" ≤ q.fileName.getD ""

/-- Read the bundles at a path, each with the path it came from. -/
def readBundles (w : World) (path : Path) : Except Chain (List (Path × Bytes)) := do
  let isDir ← context ("failed to stat ECH key path " ++ path.display) (w.isDir path)
  if isDir then
    let entries ← context ("failed to read ECH key dir " ++ path.display) (w.readDir path)
    let bundles ← ((keyFiles entries).filter w.isFile).mapM fun entry => do
      let bytes ← context ("failed to read ECH key file " ++ entry.display) (w.read entry)
      return (entry, bytes)
    if bundles.isEmpty then throw ["ECH key directory " ++ path.display ++ " is empty"]
    return bundles
  else
    let bytes ← context ("failed to read ECH key file " ++ path.display) (w.read path)
    return [(path, bytes)]

/-- The first config id that a later pair has too. -/
def duplicateId : List EchKeyPair → Option UInt8
  | [] => none
  | p :: ps => if ps.any (·.config.configId == p.config.configId) then some p.config.configId else duplicateId ps

def EchKeySet.load (b64 : Base64) (w : World) (path : Path) : Except Chain EchKeySet := do
  let bundles ← readBundles w path
  let files ← bundles.mapM fun (origin, bytes) => do
    let filePairs ← withContext ("parsing ECH PEM file " ++ origin.display) (parsePemBundle b64 bytes)
    if filePairs.isEmpty then throw ["no ECH key pairs found in " ++ origin.display]
    return filePairs
  let pairs := files.flatten
  match duplicateId pairs with
  | some id => throw ["duplicate ECH config_id 0x" ++ lowerHex 2 id.toNat ++ " across loaded keys"]
  | none => return ⟨pairs⟩

/-- All configs as one ECHConfigList, or the message of a panic. -/
def EchKeySet.configListBytes (set : EchKeySet) : Except String Bytes :=
  encodeList (set.pairs.map EchKeyPair.config)

theorem duplicateId_eq_none {ps : List EchKeyPair} :
    duplicateId ps = none ↔ (ps.map (·.config.configId)).Nodup := by
  induction ps with
  | nil => simp [duplicateId]
  | cons p ps ih =>
    rw [duplicateId, List.map_cons, List.nodup_cons]
    split
    · rename_i hdup
      obtain ⟨q, hq, hid⟩ := List.any_eq_true.mp hdup
      have hmem : p.config.configId ∈ ps.map (·.config.configId) :=
        List.mem_map.mpr ⟨q, hq, eq_of_beq hid⟩
      simp [hmem]
    · rename_i hnone
      have hmem : p.config.configId ∉ ps.map (·.config.configId) := by
        intro hmem
        obtain ⟨q, hq, hid⟩ := List.mem_map.mp hmem
        exact hnone (List.any_eq_true.mpr ⟨q, hq, beq_iff_eq.mpr hid⟩)
      simp [ih, hmem]

private theorem decoded_of_pairBlocks {blocks : List PemBlock} {pairs : List EchKeyPair}
    (h : pairBlocks blocks = .ok pairs) : ∀ p ∈ pairs, ∃ body, EchConfig.decode body = .ok p.config := by
  fun_induction pairBlocks blocks generalizing pairs with
  | case1 =>
    cases h
    simp
  | case5 first key block rest label config hdecode ih =>
    obtain ⟨pairs, hpairs, rfl⟩ := map_eq_ok.mp h
    intro p hp
    rcases List.mem_cons.mp hp with rfl | hp
    · exact ⟨block.body, hdecode⟩
    · exact ih hpairs p hp
  | _ => cases h

theorem decoded_of_parse {b64 : Base64} {bytes : Bytes} {pairs : List EchKeyPair}
    (h : parsePemBundle b64 bytes = .ok pairs) : ∀ p ∈ pairs, ∃ body, EchConfig.decode body = .ok p.config := by
  obtain ⟨blocks, -, hpairs⟩ := bind_eq_ok.mp h
  exact decoded_of_pairBlocks hpairs

/-- Every bundle holds pairs, and no two pairs of all bundles have the same id. -/
theorem load_eq_ok {b64 : Base64} {w : World} {path : Path} {set : EchKeySet} :
    EchKeySet.load b64 w path = .ok set ↔ ∃ bundles files, readBundles w path = .ok bundles ∧
      List.Forall₂ (fun bundle pairs => parsePemBundle b64 bundle.2 = .ok pairs ∧ pairs ≠ []) bundles files ∧
      duplicateId files.flatten = none ∧ set = ⟨files.flatten⟩ := by
  have hfile (bundle : Path × Bytes) (pairs : List EchKeyPair) :
      (do
        let filePairs ← withContext ("parsing ECH PEM file " ++ bundle.1.display) (parsePemBundle b64 bundle.2)
        if filePairs.isEmpty then throw ["no ECH key pairs found in " ++ bundle.1.display]
        return filePairs) = Except.ok pairs ↔ parsePemBundle b64 bundle.2 = .ok pairs ∧ pairs ≠ [] := by
    rw [bind_eq_ok]
    simp only [withContext_eq_ok, bail_eq_ok, pure_eq_ok, List.isEmpty_iff]
    constructor
    · rintro ⟨_, hparse, hne, rfl⟩
      exact ⟨hparse, hne⟩
    · rintro ⟨hparse, hne⟩
      exact ⟨pairs, hparse, hne, rfl⟩
  rw [EchKeySet.load, bind_eq_ok]
  simp only [bind_eq_ok, mapM_eq_ok, hfile]
  constructor
  · rintro ⟨bundles, hbundles, files, hfiles, hids⟩
    split at hids
    · cases hids
    · rename_i hnone
      exact ⟨bundles, files, hbundles, hfiles, hnone, pure_eq_ok.mp hids⟩
  · rintro ⟨bundles, files, hbundles, hfiles, hnone, rfl⟩
    refine ⟨bundles, hbundles, files, hfiles, ?_⟩
    rw [hnone]
    rfl

/-- Every config of a loaded set was decoded from a file. -/
theorem decoded_of_load {b64 : Base64} {w : World} {path : Path} {set : EchKeySet}
    (h : EchKeySet.load b64 w path = .ok set) : ∀ p ∈ set.pairs, ∃ body, EchConfig.decode body = .ok p.config := by
  obtain ⟨bundles, files, -, hfiles, -, rfl⟩ := load_eq_ok.mp h
  clear h
  induction hfiles with
  | nil => simp
  | cons hfile _ ih =>
    intro p hp
    rcases List.mem_append.mp hp with hp | hp
    · exact decoded_of_parse hfile.1 p hp
    · exact ih p hp

/-- Loading a single file. -/
theorem load_file {b64 : Base64} {w : World} {path : Path} {bytes : Bytes} {pairs : List EchKeyPair}
    (hdir : w.isDir path = .ok false) (hread : w.read path = .ok bytes)
    (hpairs : parsePemBundle b64 bytes = .ok pairs) (hne : pairs ≠ []) (hids : duplicateId pairs = none) :
    EchKeySet.load b64 w path = .ok ⟨pairs⟩ := by
  have hbundles : readBundles w path = .ok [(path, bytes)] := by
    simp only [readBundles, hdir, hread]
    rfl
  refine load_eq_ok.mpr ⟨_, [pairs], hbundles, .cons ⟨hpairs, hne⟩ .nil, ?_, ?_⟩
  · rwa [List.flatten_singleton]
  · rw [List.flatten_singleton]

end ZeroMasque.Ech
