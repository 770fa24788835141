import Netramesh.Lib.Text

/-!
# The configuration from the environment

`GlobalConfigFromENV` reads everything the proxy can be told from environment
variables. A variable that is not set, or is empty, leaves its default. Numbers
are checked when they are read and the first that is wrong ends the call; the
HTTP ports are checked as numbers too, but kept as they were written.
-/

namespace Netramesh.Config

/-! ## `strconv` -/

/-- `strconv.ErrSyntax` and `strconv.ErrRange`. -/
inductive NumErr
  | badSyntax
  | outOfRange
  deriving DecidableEq

/-- `strconv.NumError`. -/
structure NumError where
  func : Bytes
  num : Bytes
  err : NumErr
  deriving DecidableEq

/-- The loop of `strconv.ParseUint` in base 10 over the digits. -/
def parseDigits (bits : Nat) : Nat → Bytes → Except NumErr Nat
  | n, [] => .ok n
  | n, c :: s =>
    match decVal c with
    | none => .error .badSyntax
    | some d => if n * 10 + d < 2 ^ bits then parseDigits bits (n * 10 + d) s
        else .error .outOfRange

/-- `strconv.ParseUint(s, 10, bits)`. -/
def parseUintBits (bits : Nat) (s : Bytes) : Except NumErr Nat :=
  if s = [] then .error .badSyntax else parseDigits bits 0 s

/-- `strconv.Atoi` on a 64-bit machine. -/
def atoi (s : Bytes) : Except NumErr Int :=
  let neg := s.head? = some 45
  let digits := if neg ∨ s.head? = some 43 then s.tail else s
  match parseUintBits 64 digits with
  | .error e => .error e
  | .ok n =>
    if neg then if n ≤ 2 ^ 63 then .ok (-(n : Int)) else .error .outOfRange
    else if n < 2 ^ 63 then .ok n else .error .outOfRange

/-! ## The variables -/

/-- What `GlobalConfigFromENV` sets and the handlers read. A map is the list of
its entries, a set the list of its keys. -/
structure Global where
  headersMap : List (Bytes × Bytes) := []
  cookiesMap : List (Bytes × Bytes) := []
  httpProtoPorts : List Bytes := []
  requestIdHeaderName : Bytes := lit "X-Request-Id"
  xSourceHeaderName : Bytes := lit "X-Source"
  xSourceValue : Bytes := lit "netra"
  routingEnabled : Bool := false
  routingHeaderName : Bytes := lit "X-Route"
  routingCookieEnabled : Bool := false
  routingCookieName : Bytes := lit "X-Route"

/-- An assignment to a key of a map. -/
def assign (m : List (Bytes × Bytes)) (k v : Bytes) : List (Bytes × Bytes) :=
  (k, v) :: m.filter fun e => e.1 ≠ k

/-- The loop over the pairs of a tag map. A pair without a colon is skipped; the
tag of another begins behind its first one. -/
def tagMap (v : Bytes) : List (Bytes × Bytes) :=
  if v = [] then []
  else
    (v.splitOn 44).foldl (fun m pair =>
      match cutByte 58 pair with
      | some (k, tag) => assign m k tag
      | none => m) []

/-- A variable that has to hold a 16-bit number if it is set. -/
def checkUint16 (v : Bytes) : Except NumError Unit :=
  if v = [] then .ok ()
  else
    match parseUintBits 16 v with
    | .ok _ => .ok ()
    | .error e => .error ⟨lit "ParseUint", v, e⟩

/-- A variable that has to hold an `int` if it is set. -/
def checkInt (v : Bytes) : Except NumError Unit :=
  if v = [] then .ok ()
  else
    match atoi v with
    | .ok _ => .ok ()
    | .error e => .error ⟨lit "Atoi", v, e⟩

/-- The loop over the elements of `NETRA_HTTP_PORTS`. -/
def loadPorts (ports : List Bytes) : List Bytes → Except NumError (List Bytes)
  | [] => .ok ports
  | port :: rest =>
    match parseUintBits 16 port with
    | .error e => .error ⟨lit "ParseUint", port, e⟩
    | .ok _ => loadPorts (if port ∈ ports then ports else ports ++ [port]) rest

/-- `NETRA_HTTP_PORTS`. -/
def httpPorts (v : Bytes) : Except NumError (List Bytes) :=
  if v = [] then .ok [] else loadPorts [] (v.splitOn 44)

/-- A variable with a default. -/
def orDefault (v dflt : Bytes) : Bytes := if v = [] then dflt else v

/-- `GlobalConfigFromENV`; `getenv` is `os.Getenv`. -/
def globalConfigFromENV (getenv : Bytes → Bytes) : Except NumError Global := do
  checkUint16 (getenv (lit "NETRA_PORT"))
  checkUint16 (getenv (lit "NETRA_PPROF_PORT"))
  checkUint16 (getenv (lit "NETRA_PROMETHEUS_PORT"))
  checkInt (getenv (lit "NETRA_TRACING_CONTEXT_EXPIRATION_MILLISECONDS"))
  checkInt (getenv (lit "NETRA_TRACING_CONTEXT_CLEANUP_INTERVAL"))
  checkInt (getenv (lit "NETRA_ROUTING_CONTEXT_EXPIRATION_MILLISECONDS"))
  checkInt (getenv (lit "NETRA_ROUTING_CONTEXT_CLEANUP_INTERVAL"))
  let ports ← httpPorts (getenv (lit "NETRA_HTTP_PORTS"))
  pure
    { headersMap := tagMap (getenv (lit "HTTP_HEADER_TAG_MAP"))
      cookiesMap := tagMap (getenv (lit "HTTP_COOKIE_TAG_MAP"))
      httpProtoPorts := ports
      requestIdHeaderName :=
        orDefault (getenv (lit "NETRA_HTTP_REQUEST_ID_HEADER_NAME"))
          (lit "X-Request-Id")
      xSourceHeaderName := orDefault
        (getenv (lit "NETRA_HTTP_X_SOURCE_HEADER_NAME")) (lit "X-Source")
      xSourceValue := orDefault (getenv (lit "NETRA_HTTP_X_SOURCE_VALUE"))
        (lit "netra")
      routingEnabled := getenv (lit "NETRA_HTTP_ROUTING_ENABLED") = lit "true"
      routingHeaderName := orDefault
        (getenv (lit "NETRA_HTTP_ROUTING_HEADER_NAME")) (lit "X-Route")
      routingCookieEnabled := getenv (lit "NETRA_HTTP_ROUTING_COOKIE_ENABLED") =
        lit "true"
      routingCookieName := orDefault
        (getenv (lit "NETRA_HTTP_ROUTING_COOKIE_NAME")) (lit "X-Route") }

/-! ## What is accepted -/

/-- A number that is accepted is the one its digits spell. -/
theorem parseDigits_eq_ok {bits : Nat} {s : Bytes} {n m : Nat} :
    n < 2 ^ bits → (parseDigits bits n s = .ok m ↔
      readDigits 10 decVal n s = some m ∧ m < 2 ^ bits) := by
  induction s generalizing n with
  | nil =>
      intro hn
      rw [parseDigits, readDigits]
      constructor
      · intro h
        cases h
        exact ⟨rfl, hn⟩
      · rintro ⟨h, _⟩
        cases h
        rfl
  | cons c s ih =>
      intro hn
      rw [parseDigits, readDigits]
      cases decVal c with
      | none => simp
      | some d =>
          dsimp only
          split
          · next hlt => exact ih hlt
          · next hge =>
              simp only [reduceCtorEq, false_iff, not_and]
              intro hread hm
              exact hge (Nat.lt_of_le_of_lt
                (le_of_readDigits (by decide) hread) hm)

theorem parseUintBits_eq_ok {bits : Nat} {s : Bytes} {n : Nat} :
    parseUintBits bits s = .ok n ↔ parseUint s = some n ∧ n < 2 ^ bits := by
  unfold parseUintBits parseUint
  split
  · simp
  · exact parseDigits_eq_ok (Nat.two_pow_pos bits)

theorem parseUintBits_itoa {bits n : Nat} (hn : n < 2 ^ bits) :
    parseUintBits bits (itoa n) = .ok n := by
  rw [parseUintBits_eq_ok, parseUint, if_neg (itoa_ne_nil n)]
  exact ⟨readDigits_itoa n, hn⟩

theorem loadPorts_eq_ok {ports elems loaded : List Bytes}
    (h : loadPorts ports elems = .ok loaded) :
    ∀ p, p ∈ loaded ↔ p ∈ ports ∨ p ∈ elems := by
  induction elems generalizing ports with
  | nil =>
      cases h
      simp
  | cons port rest ih =>
      rw [loadPorts] at h
      split at h
      · cases h
      · intro p
        rw [ih h p]
        split
        · next hmem => grind
        · grind

/-- The ports that are kept are the elements of the variable, as they are
written. -/
theorem mem_httpPorts {v : Bytes} {ports : List Bytes}
    (h : httpPorts v = .ok ports) (hv : v ≠ []) :
    ∀ p, p ∈ ports ↔ p ∈ v.splitOn 44 := by
  rw [httpPorts, if_neg hv] at h
  intro p
  rw [loadPorts_eq_ok h p]
  simp

/-- A map has one entry for a key. -/
theorem nodup_tagMap (v : Bytes) : ((tagMap v).map Prod.fst).Nodup := by
  have hassign : ∀ {m : List (Bytes × Bytes)} {k tag : Bytes},
    (m.map Prod.fst).Nodup →
      ((assign m k tag).map Prod.fst).Nodup := by
    intro m k tag hm
    rw [assign, List.map_cons, List.nodup_cons]
    refine ⟨by simp, ?_⟩
    exact hm.sublist (List.filter_sublist.map Prod.fst)
  unfold tagMap
  split
  · exact List.nodup_nil
  · refine List.foldlRecOn (motive :=
      fun m : List (Bytes × Bytes) => (m.map Prod.fst).Nodup)
      (v.splitOn 44) _ List.nodup_nil ?_
    intro m hm pair _
    split
    · exact hassign hm
    · exact hm

/-- A sequence of checks that succeeds has passed its first. -/
theorem exists_of_bind_ok {ε α β : Type} {x : Except ε α} {f : α → Except ε β}
    {b : β} (h : x >>= f = .ok b) : ∃ a, x = .ok a ∧ f a = .ok b := by
  cases x with
  | error e => cases h
  | ok a => exact ⟨a, rfl, h⟩

/-- What a call that returns without an error has loaded. -/
theorem globalConfigFromENV_eq_ok {getenv : Bytes → Bytes} {g : Global}
    (h : globalConfigFromENV getenv = .ok g) :
    httpPorts (getenv (lit "NETRA_HTTP_PORTS")) = .ok g.httpProtoPorts ∧
      g.headersMap = tagMap (getenv (lit "HTTP_HEADER_TAG_MAP")) ∧
      g.cookiesMap = tagMap (getenv (lit "HTTP_COOKIE_TAG_MAP")) := by
  unfold globalConfigFromENV at h
  -- the seven numbers come first
  obtain ⟨_, _, h⟩ := exists_of_bind_ok h
  obtain ⟨_, _, h⟩ := exists_of_bind_ok h
  obtain ⟨_, _, h⟩ := exists_of_bind_ok h
  obtain ⟨_, _, h⟩ := exists_of_bind_ok h
  obtain ⟨_, _, h⟩ := exists_of_bind_ok h
  obtain ⟨_, _, h⟩ := exists_of_bind_ok h
  obtain ⟨_, _, h⟩ := exists_of_bind_ok h
  obtain ⟨ports, hports, h⟩ := exists_of_bind_ok h
  cases h
  exact ⟨hports, rfl, rfl⟩

end Netramesh.Config
