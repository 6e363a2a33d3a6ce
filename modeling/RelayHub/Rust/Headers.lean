import RelayHub.Lib.Text

/-! # RelayHub Rust backend — forwarded headers

Headers pass through `safe_headers` whenever they cross the relay: those of a request at the webhook and again at the
connector, those of a response on the way back. What it drops depends on the `Connection` headers of the list, and it
drops these as well, so that a second pass finds only the fixed names. -/

namespace RelayHub.Rust

open List

abbrev Headers := List (String × String)

def toAsciiLowercase (s : String) : String := String.ofList (s.toList.map Char.toLower)

/-- The names in the value of a `Connection` header. -/
def connectionNames (value : String) : List String :=
  (value.toList.splitOn ',').map fun name => Text.trimSpace (String.ofList name)

def nominated (headers : Headers) : List String :=
  (headers.filter fun h => toAsciiLowercase h.1 = "connection").flatMap fun h =>
    (connectionNames h.2).map toAsciiLowercase

/-- Hop-by-hop fields and credentials. -/
def droppedNames : List String :=
  ["connection", "keep-alive", "proxy-authenticate", "proxy-authorization", "te", "trailer", "transfer-encoding",
    "upgrade", "content-length", "authorization"]

def ingressNames : List String :=
  ["host", "cookie", "x-csrf-token", "x-api-key", "idempotency-key", "forwarded", "x-real-ip"]

def ingressPrefixes : List String := ["x-forwarded-", "x-relayhub-"]

/-- The condition of the filter. -/
def isSafe (headers : Headers) (ingress : Bool) (h : String × String) : Bool :=
  let name := toAsciiLowercase h.1
  name ∉ droppedNames && name ∉ nominated headers &&
    !(ingress && (decide (name ∈ ingressNames) || ingressPrefixes.any (Text.hasPrefix name)))

def safeHeaders (headers : Headers) (ingress : Bool) : Headers := headers.filter (isSafe headers ingress)

/-- The checks of the `http` crate. -/
structure HttpChecks where
  headerName : String → Bool
  headerValue : String → Bool

/-- Whether `validate_headers` succeeds. -/
def validateHeaders (H : HttpChecks) (headers : Headers) : Bool :=
  headers.all fun h => H.headerName h.1 && H.headerValue h.2

/-! ## What is dropped -/

/-- Equal, ignoring case. -/
def SameName (a b : String) : Prop := toAsciiLowercase a = toAsciiLowercase b

/-- The name is a fixed one, or one that a `Connection` header lists. -/
def Dropped (headers : Headers) (ingress : Bool) (name : String) : Prop :=
  (∃ n ∈ droppedNames, SameName name n) ∨
    (∃ h ∈ headers, SameName h.1 "connection" ∧ ∃ n ∈ connectionNames h.2, SameName name n) ∨
    ingress = true ∧ ((∃ n ∈ ingressNames, SameName name n) ∨
      ∃ p ∈ ingressPrefixes, p.toList <+: (toAsciiLowercase name).toList)

variable {headers : Headers} {name : String}

theorem exists_sameName_iff {names : List String} (hlower : names.map toAsciiLowercase = names) :
    (∃ n ∈ names, SameName name n) ↔ toAsciiLowercase name ∈ names := by
  conv_rhs => rw [← hlower, mem_map]
  simp only [SameName, eq_comm (a := toAsciiLowercase name)]

theorem mem_nominated_iff : toAsciiLowercase name ∈ nominated headers ↔
    ∃ h ∈ headers, SameName h.1 "connection" ∧ ∃ n ∈ connectionNames h.2, SameName name n := by
  have hlower : toAsciiLowercase "connection" = "connection" := by decide
  simp only [nominated, mem_flatMap, mem_filter, decide_eq_true_eq, mem_map, SameName, hlower, and_assoc,
    eq_comm (a := toAsciiLowercase name)]

theorem isSafe_iff {ingress : Bool} {h : String × String} :
    isSafe headers ingress h = true ↔ ¬ Dropped headers ingress h.1 := by
  have hprefix : ingressPrefixes.any (Text.hasPrefix (toAsciiLowercase h.1)) = true ↔
      ∃ p ∈ ingressPrefixes, p.toList <+: (toAsciiLowercase h.1).toList := by
    simp only [any_eq_true, Text.hasPrefix, isPrefixOf_iff_prefix]
  rw [Dropped, exists_sameName_iff (by decide), ← mem_nominated_iff, exists_sameName_iff (by decide), ← hprefix]
  simp only [isSafe, Bool.and_eq_true, decide_eq_true_eq, Bool.not_eq_true', ← Bool.not_eq_true,
    Bool.or_eq_true, not_or,
    and_assoc]

variable (headers)

/-- A pass leaves no `Connection` header. -/
theorem nominated_safeHeaders (ingress : Bool) : nominated (safeHeaders headers ingress) = [] := by
  rw [nominated, flatMap_eq_nil_iff]
  intro h hh
  obtain ⟨hsafe, hconnection⟩ := mem_filter.mp hh
  simp [safeHeaders, isSafe, of_decide_eq_true hconnection, droppedNames] at hsafe

/-- **Two passes are one**, on ingress if either is. -/
theorem safeHeaders_safeHeaders (ingress ingress' : Bool) :
    safeHeaders (safeHeaders headers ingress) ingress' = safeHeaders headers (ingress || ingress') := by
  rw [safeHeaders, safeHeaders, safeHeaders, filter_filter]
  refine filter_congr fun h _ => ?_
  have hnone := nominated_safeHeaders headers ingress
  rw [safeHeaders] at hnone
  simp only [isSafe, hnone]
  cases ingress <;> cases ingress' <;> simp <;> grind

/-- **Sanitising is a stable filter**: the headers that are not dropped, as often and in the order in
which they come. -/
theorem safeHeaders_stable (H : HttpChecks) (ingress : Bool) :
    safeHeaders headers ingress <+ headers ∧
    (∀ h, Dropped headers ingress h.1 → h ∉ safeHeaders headers ingress) ∧
    (∀ h, ¬ Dropped headers ingress h.1 → (safeHeaders headers ingress).count h = headers.count h) ∧
    safeHeaders (safeHeaders headers ingress) ingress = safeHeaders headers ingress ∧
    safeHeaders (safeHeaders headers true) false = safeHeaders headers true ∧
    safeHeaders (safeHeaders headers false) true = safeHeaders headers true ∧
    (validateHeaders H headers = true → validateHeaders H (safeHeaders headers ingress) = true) := by
  refine ⟨filter_sublist, fun h hdropped hmem => ?_, fun h hkept => count_filter (isSafe_iff.mpr hkept), ?_, ?_, ?_, ?_⟩
  · exact isSafe_iff.mp (mem_filter.mp hmem).2 hdropped
  · rw [safeHeaders_safeHeaders, Bool.or_self]
  · exact safeHeaders_safeHeaders headers true false
  · exact safeHeaders_safeHeaders headers false true
  · simp only [validateHeaders, all_eq_true]
    exact fun hvalid h hmem => hvalid h (mem_filter.mp hmem).1

/-- A request loses its idempotency key, which is neither a credential nor a proxy's header. -/
theorem idempotency_key_dropped : safeHeaders [("Idempotency-Key", "k")] true = [] := by
  decide

end RelayHub.Rust
