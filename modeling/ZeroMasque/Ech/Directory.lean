import Mathlib.Data.List.Nodup
import Mathlib.Data.List.Perm.Subperm
import ZeroMasque.Ech.KeySet

/-! Key directories. The order in which a directory is listed does not matter: its
visible files are read in the order of their names. -/
namespace ZeroMasque.Ech
open Foundation

def isVisible (p : Path) : Bool := p.fileName.any fun n => !(['.'].isPrefixOf n.toList)

/-- A directory with distinct entries, all of whose names are text: the regular
files among them, and what those hold. -/
structure Directory where
  entries : List Path
  isFile : Path → Bool
  contents : Path → Bytes
  named : ∀ p ∈ entries, p.fileName.isSome
  distinct : (entries.map Path.fileName).Nodup

namespace Directory

/-- A regular file that is not hidden. -/
def isKeyFile (d : Directory) (p : Path) : Bool := isVisible p && d.isFile p

/-- The pairs of a file, none if it cannot be parsed. -/
def pairsOf (b64 : Base64) (d : Directory) (p : Path) : List EchKeyPair :=
  (parsePemBundle b64 (d.contents p)).toOption.getD []

end Directory

/-- The directory is there and can be read, its entries listed in some order. -/
structure Shows (w : World) (dir : Path) (d : Directory) (listed : List Path) : Prop where
  isDir : w.isDir dir = .ok true
  readDir : w.readDir dir = .ok (listed.map .ok)
  order : listed.Perm d.entries
  isFile : ∀ p ∈ d.entries, w.isFile p = d.isFile p
  read : ∀ p ∈ d.entries, d.isKeyFile p → w.read p = .ok (d.contents p)

private def byName (p q : Path) : Bool := p.fileName.getD "" ≤ q.fileName.getD ""

private theorem keyFiles_ok (entries : List Path) :
    keyFiles (entries.map .ok) = (entries.filter isVisible).mergeSort byName := by
  have hall : (entries.map Except.ok : List (Except String Path)).filterMap Except.toOption = entries := by
    rw [List.filterMap_map]
    exact List.filterMap_some
  rw [keyFiles, hall]
  rfl

private theorem keyFiles_perm (entries : List Path) : (keyFiles (entries.map .ok)).Perm (entries.filter isVisible) := by
  rw [keyFiles_ok]
  exact List.mergeSort_perm _ _

private theorem keyFiles_sorted (entries : List Path) :
    (keyFiles (entries.map .ok)).Pairwise fun p q => p.fileName.getD "" ≤ q.fileName.getD "" := by
  rw [keyFiles_ok]
  have htrans (p q r : Path) (hpq : byName p q) (hqr : byName q r) : byName p r :=
    decide_eq_true (String.le_trans (of_decide_eq_true hpq) (of_decide_eq_true hqr))
  have htotal (p q : Path) : (byName p q || byName q p) = true := by
    rw [byName, byName, Bool.or_eq_true, decide_eq_true_iff, decide_eq_true_iff]
    exact String.le_total _ _
  exact (List.pairwise_mergeSort htrans htotal _).imp fun h => of_decide_eq_true h

namespace Directory

/-- The files that are read, in the order of their names. -/
def files (d : Directory) : List Path := (keyFiles (d.entries.map .ok)).filter d.isFile

private theorem files_perm (d : Directory) : d.files.Perm (d.entries.filter d.isKeyFile) := by
  have h := (keyFiles_perm d.entries).filter d.isFile
  rw [List.filter_filter] at h
  have hpred : (fun p => d.isFile p && isVisible p) = d.isKeyFile := by
    funext p
    exact Bool.and_comm _ _
  rwa [hpred] at h

private theorem mem_files {d : Directory} {p : Path} : p ∈ d.files ↔ p ∈ d.entries ∧ d.isKeyFile p :=
  d.files_perm.mem_iff.trans List.mem_filter

/-- Distinct names make the sorted list unique. -/
private theorem keyFiles_of_perm (d : Directory) {listed : List Path} (h : listed.Perm d.entries) :
    keyFiles (listed.map .ok) = keyFiles (d.entries.map .ok) := by
  have hmem : ∀ p ∈ keyFiles (d.entries.map .ok), p ∈ d.entries := fun p hp =>
    List.mem_of_mem_filter ((keyFiles_perm d.entries).mem_iff.mp hp)
  have hperm : (keyFiles (listed.map .ok)).Perm (keyFiles (d.entries.map .ok)) :=
    (keyFiles_perm listed).trans ((h.filter isVisible).trans (keyFiles_perm d.entries).symm)
  refine List.Perm.eq_of_pairwise ?_ (keyFiles_sorted listed) (keyFiles_sorted d.entries) hperm
  intro p q hp hq hpq hqp
  have hp := hmem p (hperm.mem_iff.mp hp)
  have hq := hmem q hq
  obtain ⟨m, hm⟩ := Option.isSome_iff_exists.mp (d.named p hp)
  obtain ⟨n, hn⟩ := Option.isSome_iff_exists.mp (d.named q hq)
  rw [hm, hn, Option.getD_some, Option.getD_some] at hpq hqp
  apply List.inj_on_of_nodup_map d.distinct hp hq
  rw [hm, hn, String.le_antisymm hpq hqp]

private theorem pairsOf_ne_nil {b64 : Base64} {d : Directory} {p : Path} : d.pairsOf b64 p ≠ [] ↔
    ∃ pairs, parsePemBundle b64 (d.contents p) = .ok pairs ∧ pairs ≠ [] := by
  cases hpairs : parsePemBundle b64 (d.contents p) <;> simp [pairsOf, hpairs, Except.toOption]

/-- The files that all hold pairs, with those pairs. -/
private theorem forall₂_pairsOf {b64 : Base64} {d : Directory} {files : List Path} {lists : List (List EchKeyPair)} :
    List.Forall₂ (fun p pairs => parsePemBundle b64 (d.contents p) = .ok pairs ∧ pairs ≠ []) files lists ↔
      (∀ p ∈ files, d.pairsOf b64 p ≠ []) ∧ files.map (d.pairsOf b64) = lists := by
  have hfile (p : Path) (pairs : List EchKeyPair) :
      (parsePemBundle b64 (d.contents p) = .ok pairs ∧ pairs ≠ []) ↔
        d.pairsOf b64 p ≠ [] ∧ d.pairsOf b64 p = pairs := by
    rw [pairsOf]
    cases parsePemBundle b64 (d.contents p) with
    | error e => simp [Except.toOption]
    | ok found =>
      simp only [Except.toOption, Option.getD_some, Except.ok.injEq]
      constructor
      · rintro ⟨rfl, hne⟩
        exact ⟨hne, rfl⟩
      · rintro ⟨hne, rfl⟩
        exact ⟨rfl, hne⟩
  simp only [hfile, List.forall₂_and_left]
  rw [← List.forall₂_map_left_iff (R := Eq), List.forall₂_eq_eq_eq]

end Directory

section Loading
variable {b64 : Base64} {w : World} {dir : Path} {d : Directory} {listed : List Path}

private theorem Shows.readBundles_eq (h : Shows w dir d listed) : readBundles w dir =
    if d.files = [] then .error ["ECH key directory " ++ dir.display ++ " is empty"]
    else .ok (d.files.map fun p => (p, d.contents p)) := by
  have hfiles : (keyFiles (listed.map .ok)).filter w.isFile = d.files := by
    rw [d.keyFiles_of_perm h.order]
    apply List.filter_congr
    intro p hp
    exact h.isFile p (List.mem_of_mem_filter ((keyFiles_perm d.entries).mem_iff.mp hp))
  have hread : d.files.mapM (fun entry => do
      let bytes ← context ("failed to read ECH key file " ++ entry.display) (w.read entry)
      return (entry, bytes)) = .ok (d.files.map fun p => (p, d.contents p)) := by
    rw [mapM_eq_ok, List.forall₂_map_right_iff, List.forall₂_same]
    intro p hp
    obtain ⟨hentry, hkey⟩ := Directory.mem_files.mp hp
    rw [h.read p hentry hkey]
    rfl
  rw [readBundles, h.isDir, h.readDir]
  change (((keyFiles (listed.map .ok)).filter w.isFile).mapM (m := Except Chain) _ >>= _) = _
  rw [hfiles, hread]
  cases d.files with
  | nil => rfl
  | cons p files => rfl

/-- A directory is loaded if it has files, all of them hold pairs, and no id is
used twice. -/
private theorem Shows.load_eq_ok (h : Shows w dir d listed) {set : EchKeySet} :
    EchKeySet.load b64 w dir = .ok set ↔ d.files ≠ [] ∧ (∀ p ∈ d.files, d.pairsOf b64 p ≠ []) ∧
      ((d.files.flatMap (d.pairsOf b64)).map (·.config.configId)).Nodup ∧
      set = ⟨d.files.flatMap (d.pairsOf b64)⟩ := by
  rw [Ech.load_eq_ok, h.readBundles_eq]
  constructor
  · rintro ⟨bundles, lists, hbundles, hlists, hids, rfl⟩
    split at hbundles
    · cases hbundles
    · rename_i hne
      cases hbundles
      rw [List.forall₂_map_left_iff, Directory.forall₂_pairsOf] at hlists
      obtain ⟨hpairs, rfl⟩ := hlists
      rw [← List.flatMap_def] at hids ⊢
      exact ⟨hne, hpairs, duplicateId_eq_none.mp hids, rfl⟩
  · rintro ⟨hne, hpairs, hids, rfl⟩
    refine ⟨_, d.files.map (d.pairsOf b64), if_neg hne, ?_, ?_, ?_⟩
    · exact List.forall₂_map_left_iff.mpr (Directory.forall₂_pairsOf.mpr ⟨hpairs, rfl⟩)
    · exact duplicateId_eq_none.mpr hids
    · rfl

/-- There are no more ids than bytes. -/
private theorem length_le_of_nodup {pairs : List EchKeyPair} (h : (pairs.map (·.config.configId)).Nodup) :
    pairs.length ≤ 256 := by
  have hids : (pairs.map (·.config.configId.toNat)).Nodup := by
    have hinj := h.map (f := UInt8.toNat) fun _ _ => UInt8.toNat_inj.mp
    rwa [List.map_map] at hinj
  have hrange : pairs.map (·.config.configId.toNat) ⊆ List.range 256 := by
    intro n hn
    obtain ⟨p, -, rfl⟩ := List.mem_map.mp hn
    exact List.mem_range.mpr p.config.configId.toNat_lt
  have hlen := (hids.subperm hrange).length_le
  rwa [List.length_map, List.length_range] at hlen

/-- What `load` makes of a directory depends on what it holds, not on how it is
listed. Every visible file counts, no pair of them is lost, and no id is used twice. -/
theorem load_directory (h : Shows w dir d listed) :
    (∀ w' listed', Shows w' dir d listed' → EchKeySet.load b64 w' dir = EchKeySet.load b64 w dir) ∧
    ((∃ set, EchKeySet.load b64 w dir = .ok set) ↔ (∃ p ∈ d.entries, d.isKeyFile p) ∧
      (∀ p ∈ d.entries, d.isKeyFile p → ∃ pairs, parsePemBundle b64 (d.contents p) = .ok pairs ∧ pairs ≠ []) ∧
      (((d.entries.filter d.isKeyFile).flatMap (d.pairsOf b64)).map (·.config.configId)).Nodup) ∧
    ∀ set, EchKeySet.load b64 w dir = .ok set → ∃ files : List Path, files.Perm (d.entries.filter d.isKeyFile) ∧
      files.Pairwise (fun p q => p.fileName.getD "" ≤ q.fileName.getD "") ∧
      set.pairs = files.flatMap (d.pairsOf b64) ∧ (set.pairs.map (·.config.configId)).Nodup ∧
      set.pairs.length ≤ 256 := by
  refine ⟨?_, ?_, ?_⟩
  · intro w' listed' h'
    rw [EchKeySet.load, h'.readBundles_eq, EchKeySet.load, h.readBundles_eq]
  · have hkeys : d.files ≠ [] ↔ ∃ p ∈ d.entries, d.isKeyFile p := by
      rw [← List.isEmpty_eq_false_iff, List.isEmpty_eq_false_iff_exists_mem]
      simp only [Directory.mem_files]
    have hpairs : (∀ p ∈ d.files, d.pairsOf b64 p ≠ []) ↔ ∀ p ∈ d.entries, d.isKeyFile p →
        ∃ pairs, parsePemBundle b64 (d.contents p) = .ok pairs ∧ pairs ≠ [] := by
      simp only [Directory.mem_files, Directory.pairsOf_ne_nil, and_imp]
    have hids := ((d.files_perm.flatMap_right (d.pairsOf b64)).map (·.config.configId)).nodup_iff
    simp only [h.load_eq_ok, hkeys, hpairs, hids, exists_and_left, exists_eq, and_true]
  · intro set hset
    obtain ⟨-, -, hids, rfl⟩ := h.load_eq_ok.mp hset
    refine ⟨d.files, d.files_perm, ?_, rfl, hids, length_le_of_nodup hids⟩
    exact (keyFiles_sorted d.entries).filter _

end Loading

section Example

def sampleFile (id : UInt8) : Bytes :=
  utf8 (String.ofList (bundleText rfc4648 [⟨pemLabelKey, [id]⟩,
    ⟨pemLabelConfig, toBeBytes echConfigVersionV18 ++ vec16 ((sampleConfig id).fields ++ vec16 [])⟩]))

private theorem parse_sampleFile (id : UInt8) :
    parsePemBundle rfc4648 (sampleFile id) = .ok [⟨[id], sampleConfig id⟩] := by
  have hrendered : Rendered [⟨[id], sampleConfig id⟩] _ := .cons (encode_sampleConfig id) .nil
  rw [sampleFile, parsePemBundle_bundleText rfc4648_standard hrendered.labelled,
    pairBlocks_rendered hrendered (by simp [sampleConfig])]

def sampleId (p : Path) : UInt8 := if p.fileName = some "a.pem" then 1 else 2

/-- Two key files and a hidden copy of one. -/
def sampleDirectory : Directory where
  entries := [⟨"keys/b.pem", some "b.pem"⟩, ⟨"keys/.b.pem", some ".b.pem"⟩, ⟨"keys/a.pem", some "a.pem"⟩]
  isFile _ := true
  contents p := sampleFile (sampleId p)
  named := by decide
  distinct := by decide

def sampleWorld (listed : List Path) : World where
  isDir _ := .ok true
  readDir _ := .ok (listed.map .ok)
  isFile _ := true
  read p := .ok (sampleDirectory.contents p)
  toSocketAddrs _ := .error "failed to lookup address information"

theorem load_directory_two :
    let dir : Path := ⟨"keys", some "keys"⟩
    let listed := sampleDirectory.entries
    Shows (sampleWorld listed) dir sampleDirectory listed ∧
    EchKeySet.load rfc4648 (sampleWorld listed.reverse) dir = EchKeySet.load rfc4648 (sampleWorld listed) dir ∧
    ∃ set, EchKeySet.load rfc4648 (sampleWorld listed) dir = .ok set := by
  intro dir listed
  have hshows {order : List Path} (h : order.Perm listed) : Shows (sampleWorld order) dir sampleDirectory order :=
    ⟨rfl, rfl, h, fun _ _ => rfl, fun _ _ _ => rfl⟩
  have hpairs (p : Path) : sampleDirectory.pairsOf rfc4648 p = [⟨[sampleId p], sampleConfig (sampleId p)⟩] := by
    rw [Directory.pairsOf, sampleDirectory, parse_sampleFile]
    rfl
  obtain ⟨hsame, hloads, -⟩ := @load_directory rfc4648 _ _ _ _ (hshows (.refl listed))
  refine ⟨hshows (.refl listed), hsame _ _ (hshows listed.reverse_perm), hloads.mpr ⟨by decide, ?_, ?_⟩⟩
  · intro p _ _
    apply Directory.pairsOf_ne_nil.mp
    rw [hpairs]
    exact List.cons_ne_nil _ _
  · have hkeys : listed.filter sampleDirectory.isKeyFile =
        [⟨"keys/b.pem", some "b.pem"⟩, ⟨"keys/a.pem", some "a.pem"⟩] := by decide
    rw [hkeys, List.flatMap_cons, List.flatMap_cons, hpairs, hpairs]
    decide

end Example

end ZeroMasque.Ech
