import Mathlib.Data.Bool.AllAny
import ZeroMasque.Foundation.Text
import ZeroMasque.Net

/-! The proxy endpoint a request names: an authority and a path whose query is ignored. -/
namespace ZeroMasque

/-- The path component: everything before the first question mark. -/
def pathOnly (p : String) : String := String.ofList (p.toList.takeWhile (· ≠ '?'))

/-- A path without a question mark is its own component, whatever query follows it. -/
theorem pathOnly_query {path : String} (h : '?' ∉ path.toList) (query : String) :
    pathOnly path = path ∧ pathOnly (path ++ "?" ++ query) = path := by
  have hclean : ∀ c ∈ path.toList, decide (c ≠ '?') = true := by
    intro c hc
    rw [decide_eq_true_eq]
    rintro rfl
    exact h hc
  constructor
  · rw [pathOnly, List.takeWhile_eq_self_iff.mpr hclean, String.ofList_toList]
  · have hmark : "?".toList = ['?'] := rfl
    rw [pathOnly, String.toList_append, String.toList_append, hmark, List.append_assoc,
      List.takeWhile_append_of_pos hclean]
    simp

structure Endpoint where
  authority : String
  path : String
  deriving DecidableEq

/-- Cut an absolute URI into its authority and the rest, which is a slash if
there is none. -/
def Endpoint.parse (raw : String) : Except String Endpoint :=
  match Foundation.splitOnce "://".toList raw.toList with
  | none => .error ("endpoint must be an absolute https URI: " ++ raw)
  | some (_, afterScheme) =>
    let cut : List Char × List Char :=
      match afterScheme.findIdx? (· == '/') with
      | some idx => (afterScheme.take idx, afterScheme.drop idx)
      | none => (afterScheme, ['/'])
    if cut.1.isEmpty then .error ("endpoint has no authority: " ++ raw)
    else .ok ⟨String.ofList cut.1, String.ofList cut.2⟩

/-- `Endpoint::matches`: path components agree. -/
def Endpoint.matchesPath (e : Endpoint) (path : String) : Bool := pathOnly path == pathOnly e.path

theorem Endpoint.matchesPath_congr (e : Endpoint) {p q : String} (h : pathOnly p = pathOnly q) :
    e.matchesPath p = e.matchesPath q := by
  rw [matchesPath, matchesPath, h]

example : (Endpoint.mk "proxy:4433" "/masque?ignored=1").matchesPath "/masque?h=1&p=2" := by decide
example : ¬ (Endpoint.mk "proxy:4433" "/masque").matchesPath "/other?h=127.0.0.1&p=53" := by decide

/-- A URI in parts: after the authority a path, a query, both or neither. -/
structure Uri where
  scheme : List Char
  authority : List Char
  tail : List Char
  clean_scheme : ∀ c ∈ scheme, c ≠ ':' ∧ c ≠ '/'
  authority_ne_nil : authority ≠ []
  clean_authority : ∀ c ∈ authority, c ≠ '/' ∧ c ≠ '?' ∧ c ≠ '#'
  starts : ∀ c ∈ tail.head?, c = '/' ∨ c = '?'

namespace Uri

def text (u : Uri) : String := String.ofList (u.scheme ++ "://".toList ++ (u.authority ++ u.tail))

/-- The path to request: a slash is put in where the path is missing. -/
def requestPath (u : Uri) : List Char := if u.tail.head? = some '/' then u.tail else '/' :: u.tail

/-- The path of the tail, without the query. -/
def path (u : Uri) : List Char := u.tail.takeWhile (· ≠ '?')

/-- Where `parse` cuts: at the first slash after the scheme, even in the query. -/
private theorem parse_text (u : Uri) : Endpoint.parse u.text =
    .ok ⟨String.ofList (u.authority ++ u.tail.takeWhile (· ≠ '/')),
      String.ofList (if '/' ∈ u.tail then u.tail.dropWhile (· ≠ '/') else ['/'])⟩ := by
  have hsplit : Foundation.splitOnce "://".toList u.text.toList = some (u.scheme, u.authority ++ u.tail) := by
    have htext : u.text.toList = u.scheme ++ "://".toList ++ (u.authority ++ u.tail) := String.toList_ofList
    rw [htext]
    exact Foundation.splitOnce_append (fun h => (u.clean_scheme _ h).1 rfl) _ _
  have hnone : u.authority.findIdx? (· == '/') = none := by
    apply List.findIdx?_eq_none_iff.mpr
    intro c hc
    exact beq_eq_false_iff_ne.mpr (u.clean_authority c hc).1
  have hfind : (u.authority ++ u.tail).findIdx? (· == '/') =
      (u.tail.findIdx? (· == '/')).map (· + u.authority.length) := by
    rw [List.findIdx?_append, hnone, Option.none_or]
  rw [Endpoint.parse, hsplit]
  simp only [hfind]
  cases htail : u.tail.findIdx? (· == '/') with
  | none =>
    have hslash : ∀ c ∈ u.tail, c ≠ '/' := fun c hc =>
      beq_eq_false_iff_ne.mp (List.findIdx?_eq_none_iff.mp htail c hc)
    rw [if_neg fun h => hslash _ h rfl, List.takeWhile_eq_self_iff.mpr (by simpa using hslash)]
    simp [u.authority_ne_nil]
  | some i =>
    obtain ⟨hi, hidx⟩ := List.findIdx?_eq_some_iff_findIdx_eq.mp htail
    have hslash : '/' ∈ u.tail := by
      obtain ⟨c, hc, heq⟩ := List.findIdx_lt_length.mp (hidx ▸ hi)
      exact eq_of_beq heq ▸ hc
    have hpred : (fun c : Char => !decide (c ≠ '/')) = (· == '/') := by
      funext c
      rw [decide_not, Bool.not_not]
      rfl
    rw [if_pos hslash, List.takeWhile_eq_take_findIdx_not, List.dropWhile_eq_drop_findIdx_not, hpred, hidx]
    simp only [Option.map_some, Nat.add_comm i, List.take_length_add_append, List.drop_length_add_append]
    simp [u.authority_ne_nil]

private theorem tail_cases (u : Uri) : u.tail = [] ∨ (∃ t, u.tail = '/' :: t) ∨ ∃ t, u.tail = '?' :: t := by
  cases htail : u.tail with
  | nil => exact .inl rfl
  | cons c t =>
    rcases u.starts c (by rw [htail]; rfl) with rfl | rfl
    · exact .inr (.inl ⟨t, rfl⟩)
    · exact .inr (.inr ⟨t, rfl⟩)

private theorem parse_of_path (u : Uri) (h : u.tail.head? ≠ some '?') :
    Endpoint.parse u.text = .ok ⟨String.ofList u.authority, String.ofList u.requestPath⟩ := by
  rw [parse_text, requestPath]
  rcases u.tail_cases with htail | ⟨t, htail⟩ | ⟨t, htail⟩
  · simp [htail]
  · simp [htail]
  · exact absurd (by rw [htail]; rfl) h

/-- A query that follows the authority is taken for a part of it. -/
private theorem authority_of_query (u : Uri) (h : u.tail.head? = some '?') :
    ∃ e, Endpoint.parse u.text = .ok e ∧ e.authority ≠ String.ofList u.authority := by
  refine ⟨_, parse_text u, ?_⟩
  obtain ⟨t, htail⟩ := List.head?_eq_some_iff.mp h
  intro heq
  have hsame := String.ofList_injective heq
  rw [htail, List.takeWhile_cons_of_pos (by decide)] at hsame
  exact List.cons_ne_nil _ _ (List.append_right_eq_self.mp hsame)

private theorem head_of_path (u : Uri) : u.tail.head? = some '/' ↔ u.path ≠ [] := by
  rw [path]
  rcases u.tail_cases with htail | ⟨t, htail⟩ | ⟨t, htail⟩ <;> simp [htail]

private theorem pathOnly_requestPath (u : Uri) (h : u.tail.head? = some '/') :
    pathOnly (String.ofList u.requestPath) = String.ofList u.path := by
  rw [requestPath, if_pos h, pathOnly, String.toList_ofList, path]

end Uri

/-- A URI is cut as it is written if no query follows its authority directly. Only
with a path does the query make no difference to the endpoint. -/
theorem endpoint_of_uri (u : Uri) :
    (Endpoint.parse u.text = .ok ⟨String.ofList u.authority, String.ofList u.requestPath⟩ ↔
      u.tail.head? ≠ some '?') ∧
    ((∀ u' : Uri, u'.scheme = u.scheme → u'.authority = u.authority → u'.path = u.path →
      ∃ e e', Endpoint.parse u.text = .ok e ∧ Endpoint.parse u'.text = .ok e' ∧
        e'.authority = e.authority ∧ pathOnly e'.path = pathOnly e.path) ↔ u.tail.head? = some '/') := by
  refine ⟨⟨?_, u.parse_of_path⟩, ?_, ?_⟩
  · intro hparse hquery
    obtain ⟨e, he, hne⟩ := u.authority_of_query hquery
    rw [hparse] at he
    cases he
    exact hne rfl
  · intro hsame
    by_contra hhead
    have hpath : u.path = [] := by
      by_contra hne
      exact hhead (u.head_of_path.mpr hne)
    -- The same authority without a query and with one, which is taken for a part of it.
    let bare : Uri := { u with tail := [], starts := by simp }
    let asked : Uri := { u with tail := ['?'], starts := by simp }
    obtain ⟨e, e₁, he, he₁, hbare, -⟩ := hsame bare rfl rfl hpath.symm
    obtain ⟨e', e₂, he', he₂, hasked, -⟩ := hsame asked rfl rfl hpath.symm
    obtain ⟨e₃, he₃, hne⟩ := asked.authority_of_query rfl
    rw [bare.parse_of_path (by simp [bare])] at he₁
    rw [he₃] at he₂
    rw [he] at he'
    cases he₁
    cases he₂
    cases he'
    exact hne (hasked.trans hbare.symm)
  · intro hhead u' _ hauthority hpath
    have hhead' : u'.tail.head? = some '/' := by
      rw [u'.head_of_path, hpath]
      exact u.head_of_path.mp hhead
    refine ⟨_, _, u.parse_of_path (by simp [hhead]), u'.parse_of_path (by simp [hhead']), ?_, ?_⟩
    · rw [hauthority]
    · rw [u'.pathOnly_requestPath hhead', u.pathOnly_requestPath hhead, hpath]

example : Endpoint.parse "https://proxy:4433" = .ok ⟨"proxy:4433", "/"⟩ := by decide

/-- The URIs of an example, up to what follows the authority. -/
def exampleUri (c : Char) (hc : c = '/' ∨ c = '?') (tail : List Char) : Uri where
  scheme := "https".toList
  authority := "proxy:4433".toList
  tail := c :: tail
  clean_scheme := List.all_iff_forall_prop.mp (by decide)
  authority_ne_nil := by decide
  clean_authority := List.all_iff_forall_prop.mp (by decide)
  starts := by simpa using hc

theorem endpoint_of_uri_masque :
    Endpoint.parse "https://proxy:4433/masque?h=a/b" = .ok ⟨"proxy:4433", "/masque?h=a/b"⟩ ∧
    ∃ e e', Endpoint.parse "https://proxy:4433/masque?h=a/b" = .ok e ∧
      Endpoint.parse "https://proxy:4433/masque" = .ok e' ∧
      e'.authority = e.authority ∧ pathOnly e'.path = pathOnly e.path := by
  have htheorem := endpoint_of_uri (exampleUri '/' (.inl rfl) "masque?h=a/b".toList)
  exact ⟨htheorem.1.mpr (by decide),
    htheorem.2.mpr (by decide) (exampleUri '/' (.inl rfl) "masque".toList) rfl rfl (by decide)⟩

/-- The query of an endpoint without a path ends up in its authority, up to the
first slash in it. -/
theorem query_in_authority :
    (exampleUri '?' (.inr rfl) "h=a/b".toList).text = "https://proxy:4433?h=a/b" ∧
    Endpoint.parse "https://proxy:4433?h=a/b" = .ok ⟨"proxy:4433?h=a", "/b"⟩ ∧
    Endpoint.parse "https://proxy:4433?h=c" = .ok ⟨"proxy:4433?h=c", "/"⟩ := by
  exact ⟨rfl, by decide, by decide⟩

end ZeroMasque
