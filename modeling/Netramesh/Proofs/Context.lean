import Netramesh.Transport.Sidecar
import Netramesh.Lib.System

/-!
# Routing values travel by request id

What the routing context holds under a request id is determined by the turns
that came before, on whichever connection: it is the routing value of the latest
inbound request with that id whose value `getRoutingDestination` accepts
(`stored`). That value may itself have been found in the context, so `stored`
goes back through the turns. The step lemma is about `routeRequest`, the only
action that reads or writes the context; the rest of a connection leaves it
alone.
-/

namespace Netramesh.Proofs

open Http Protocol Transport Lib

section Spec

variable (http : HTTPConfig) (rc : RoutingConfig)

/-- What was stored last under a request id, the turns given newest first: the
routing value of the latest inbound request with that id whose value was
accepted. -/
def stored : List Iteration → Bytes → Option Bytes
  | [], _ => none
  | t :: past, id =>
    let value :=
      if t.brought http rc ≠ [] then some (t.brought http rc)
      else stored past (t.id http)
    match value with
    | none => stored past id
    | some v =>
      if t.isInbound = true ∧ t.id http = id ∧ t.accepts v = true then some v
      else stored past id

/-- The routing value of a turn after those before it. -/
def effective (past : List Iteration) (t : Iteration) : Option Bytes :=
  if t.brought http rc ≠ [] then some (t.brought http rc)
  else stored http rc past (t.id http)

/-- Where a request goes that has this routing value. -/
def destination (t : Iteration) : Option Bytes → Bytes
  | none => t.originalDst
  | some v =>
    match getRoutingDestination v t.request.host t.originalDst with
    | .ok addr => addr
    | .error _ => t.originalDst

/-- A decision as the turns before it determine it. -/
structure Propagated (past : List Iteration) (d : Decision) : Prop where
  inbound : d.turn.isInbound = true → d.address = d.turn.originalDst
  outbound : d.turn.isInbound = false →
    d.address = destination d.turn (effective http rc past d.turn)
  brought : d.turn.brought http rc ≠ [] →
    d.routed = { d.turn.request with header := d.turn.header http }
  recalled : d.turn.brought http rc = [] →
    d.routed = { d.turn.request with
      header :=
        match stored http rc past (d.turn.id http) with
        | some v => (d.turn.header http).add rc.routingHeaderName.1 v
        | none => d.turn.header http }

end Spec

variable {http : HTTPConfig} {rc : RoutingConfig}

/-! ## What the past determines -/

/-- The value kept by a turn is its own routing value. -/
theorem stored_cons (t : Iteration) (past : List Iteration) (id : Bytes) :
    stored http rc (t :: past) id =
      match effective http rc past t with
      | none => stored http rc past id
      | some v =>
        if t.isInbound = true ∧ t.id http = id ∧ t.accepts v = true then some v
        else stored http rc past id := rfl

theorem effective_ne_nil {past : List Iteration} {t : Iteration} {v : Bytes}
    (hpast : ∀ id v, stored http rc past id = some v → v ≠ [])
    (h : effective http rc past t = some v) : v ≠ [] := by
  unfold effective at h
  split at h
  · next hne =>
      cases h
      exact hne
  · exact hpast _ _ h

/-- An empty value is never kept. -/
theorem stored_ne_nil (past : List Iteration) :
    ∀ id v, stored http rc past id = some v → v ≠ [] := by
  induction past with
  | nil =>
      intro id v h
      cases h
  | cons t past ih =>
      intro id v h
      rw [stored_cons] at h
      split at h
      · exact ih id v h
      · next w hw =>
          split at h
          · cases h
            exact effective_ne_nil ih hw
          · exact ih id v h

/-- An outbound turn leaves nothing behind. -/
theorem stored_outbound {t : Iteration} (h : t.isInbound = false)
    (past : List Iteration) (id : Bytes) :
    stored http rc (t :: past) id = stored http rc past id := by
  rw [stored_cons]
  split
  · rfl
  · rw [if_neg (by simp [h])]

/-! ## The routing decision -/

theorem Iteration.id_ne_nil {t : Iteration} (h : t.uuid ≠ []) :
    t.id http ≠ [] := by
  unfold Iteration.id Iteration.header
  split
  · rw [HTTPConfig.requestId, Header.get, Header.set, Header.first,
      Header.values_put_self]
    exact h
  · next hid => exact hid

/-- `routingValue` asks the context only for a request that brings no value. -/
theorem routingValue_header (t : Iteration) (context : Option Bytes) :
    routingValue rc context (t.header http) =
      if t.brought http rc ≠ [] then (t.brought http rc, t.header http)
      else
        match context with
        | some v => (v, (t.header http).add rc.routingHeaderName.1 v)
        | none => ([], t.header http) := by
  unfold routingValue Iteration.brought
  cases rc.routingCookieEnabled with
  | false => rfl
  | true =>
    cases readCookies (t.header http) rc.routingCookieName with
    | nil => rfl
    | cons c cs =>
      by_cases hc : c.2 = []
      · cases context <;> simp [hc]
      · simp [hc]

theorem routingValue_brought {t : Iteration} (h : t.brought http rc ≠ [])
    (context : Option Bytes) :
    (routingValue rc context (t.header http)).2 = t.header http := by
  rw [routingValue_header, if_pos h]

theorem routingValue_recalled {t : Iteration} (h : t.brought http rc = [])
    (context : Option Bytes) :
    (routingValue rc context (t.header http)).2 =
      match context with
      | some v => (t.header http).add rc.routingHeaderName.1 v
      | none => t.header http := by
  rw [routingValue_header, if_neg (not_not.mpr h)]
  cases context <;> rfl

/-- The value it finds is the one the past determines, and `[]` stands for
none. -/
theorem routingValue_fst (past : List Iteration) (t : Iteration) :
    (routingValue rc (stored http rc past (t.id http)) (t.header http)).1 =
      (effective http rc past t).getD [] := by
  rw [routingValue_header]
  unfold effective
  split
  · rfl
  · split
    · next v hv => rw [hv, Option.getD_some]
    · next hv => rw [hv, Option.getD_none]

theorem route_inbound (value host originalDst : Bytes) :
    (route true value host originalDst).1 = originalDst := by
  unfold route
  split
  · rfl
  · split <;> rfl

theorem route_outbound (t : Iteration) {value : Option Bytes}
    (hne : ∀ v, value = some v → v ≠ []) :
    route false (value.getD []) t.request.host t.originalDst =
      (destination t value, none) := by
  unfold route destination
  cases value with
  | none => rfl
  | some v =>
    rw [Option.getD_some, if_neg (hne v rfl)]
    dsimp only
    cases getRoutingDestination v t.request.host t.originalDst <;> rfl

/-- An inbound turn remembers its value if it is accepted. -/
theorem route_remembers (t : Iteration) {value : Option Bytes}
    (hne : ∀ v, value = some v → v ≠ []) :
    (route true (value.getD []) t.request.host t.originalDst).2 =
      value.filter fun v => t.accepts v := by
  unfold route Iteration.accepts
  cases value with
  | none => rfl
  | some v =>
    rw [Option.getD_some, if_neg (hne v rfl), Option.filter_some]
    cases getRoutingDestination v t.request.host t.originalDst <;> rfl

theorem header_of_brought {t : Iteration} (h : t.brought http rc = []) :
    (t.header http).get rc.routingHeaderName.1 = [] := by
  unfold Iteration.brought at h
  dsimp only at h
  generalize (if rc.routingCookieEnabled = true then _ else _ : Bytes) =
    cookie at h
  split at h
  · next hcookie => exact absurd h hcookie
  · exact h

/-- Adding the routing value to the headers leaves the request id alone: a
request whose id stands under the routing header brings a value. -/
theorem requestId_routingValue {t : Iteration} (huuid : t.uuid ≠ [])
    (context : Option Bytes) :
    http.requestId (routingValue rc context (t.header http)).2 = t.id http := by
  rw [routingValue_header]
  split
  · rfl
  · next hbrought =>
      split
      · next v =>
          have hkey : canonicalKey http.requestIdHeaderName.1 ≠
              canonicalKey rc.routingHeaderName.1 := by
            intro hkey
            refine absurd ?_ (Iteration.id_ne_nil huuid : t.id http ≠ [])
            rw [Iteration.id, HTTPConfig.requestId, Header.get, hkey]
            exact header_of_brought (not_not.mp hbrought)
          show ((t.header http).put _ _).first _ = (t.header http).first _
          rw [Header.first, Header.values_put_of_ne hkey, Header.first]
      · rfl

/-- The turn of connection `c` with this request. -/
def turnOf (c : Conf) (r : Request) (uuid : Bytes) : Iteration :=
  { isInbound := c.isInbound, originalDst := c.originalDst,
    request := r, uuid := uuid }

section Step

variable {c : Conf} {s : St} {past : List Iteration} (r : Request)
  {uuid : Bytes}

/-- A turn on a context that is what the past has left in it. -/
theorem routeRequest_eq (huuid : uuid ≠ [])
    (h : s.routingInfo.lookup ((turnOf c r uuid).id c.http) =
      stored c.http c.routing past ((turnOf c r uuid).id c.http)) :
    let t := turnOf c r uuid
    let value := (effective c.http c.routing past t).getD []
    let header :=
      (routingValue c.routing (stored c.http c.routing past (t.id c.http))
      (t.header c.http)).2
    routeRequest c s r uuid = { s with
      routingInfo :=
        match (route c.isInbound value r.host c.originalDst).2 with
        | some v => (t.id c.http, v) :: s.routingInfo
        | none => s.routingInfo
      requests := s.requests ++ [{ r with header := header }]
      routes := s.routes ++ [(route c.isInbound value r.host c.originalDst).1]
      reqPC := .sendAddr s.routes.length
        (toLower (header.get (lit "Connection")) = lit "upgrade")
        (route c.isInbound value r.host c.originalDst).1 } := by
  intro t value header
  have hid : c.http.requestId header = t.id c.http :=
    requestId_routingValue huuid _
  have hvalue :
    (routingValue c.routing (s.routingInfo.lookup (t.id c.http))
    (t.header c.http)) =
      (value, header) := by
    rw [h]
    exact Prod.ext (routingValue_fst past t) rfl
  have hstart : (if c.http.requestId r.header = [] then
      r.header.set c.http.requestIdHeaderName.1 uuid else r.header) =
        t.header c.http := rfl
  unfold routeRequest
  simp only [hstart]
  rw [show c.http.requestId (t.header c.http) = t.id c.http from rfl, hvalue]
  have hne : t.id c.http ≠ [] := Iteration.id_ne_nil huuid
  cases route c.isInbound value r.host c.originalDst with
  | mk addr remembered =>
    cases remembered with
    | none => rfl
    | some v =>
      dsimp only
      rw [hid, if_pos hne]

/-- The context afterwards is what the turn and its past leave in it. -/
theorem routeRequest_routingInfo (huuid : uuid ≠ [])
    (h : ∀ id, s.routingInfo.lookup id = stored c.http c.routing past id)
    (id : Bytes) :
    (routeRequest c s r uuid).routingInfo.lookup id =
      stored c.http c.routing (turnOf c r uuid :: past) id := by
  have hne : ∀ v, effective c.http c.routing past (turnOf c r uuid) = some v →
      v ≠ [] :=
    fun v hv => effective_ne_nil (stored_ne_nil past) hv
  rw [routeRequest_eq r huuid (h _)]
  dsimp only
  cases hin : c.isInbound with
  | false =>
    rw [stored_outbound (t := turnOf c r uuid) hin, ← h id]
    rw [show (route false _ r.host c.originalDst).2 = none from
      congrArg Prod.snd (route_outbound (turnOf c r uuid) hne)]
  | true =>
    have hrem := route_remembers (turnOf c r uuid) hne
    rw [show (route true _ r.host c.originalDst).2 = _ from hrem, stored_cons]
    cases heff : effective c.http c.routing past (turnOf c r uuid) with
    | none => exact h id
    | some v =>
      rw [Option.filter_some]
      dsimp only
      by_cases hacc : (turnOf c r uuid).accepts v = true
      · rw [if_pos hacc]
        by_cases hid : (turnOf c r uuid).id c.http = id
        · rw [if_pos ⟨hin, hid, hacc⟩, ← hid, List.lookup_cons_self]
        · rw [if_neg (fun hc => hid hc.2.1), ← h id]
          rw [List.lookup_cons, beq_false_of_ne (Ne.symm hid)]
      · rw [if_neg hacc, if_neg (fun hc => hacc hc.2.2)]
        exact h id

/-- The decision of the turn is the one its past determines. -/
theorem routeRequest_propagated (huuid : uuid ≠ [])
    (h : ∀ id, s.routingInfo.lookup id = stored c.http c.routing past id) :
    ∃ d, decided c (.parse (.request r uuid)) (routeRequest c s r uuid) = [d] ∧
      d.turn = turnOf c r uuid ∧ Propagated c.http c.routing past d := by
  have hne : ∀ v, effective c.http c.routing past (turnOf c r uuid) = some v →
      v ≠ [] :=
    fun v hv => effective_ne_nil (stored_ne_nil past) hv
  rw [routeRequest_eq r huuid (h _)]
  simp only [decided, List.getLast?_append, List.getLast?_singleton,
    Option.some_or]
  refine ⟨_, rfl, rfl, ⟨?_, ?_, ?_, ?_⟩⟩
  · intro hin
    dsimp only at hin ⊢
    rw [hin]
    exact route_inbound _ _ _
  · intro hin
    dsimp only at hin ⊢
    rw [hin]
    exact congrArg Prod.fst (route_outbound (turnOf c r uuid) hne)
  · intro hbrought
    exact congrArg (fun h => { r with header := h })
      (routingValue_brought hbrought _)
  · intro hbrought
    exact congrArg (fun h => { r with header := h })
      (routingValue_recalled hbrought _)

end Step

/-! ## The rest of a connection -/

theorem gotConn_routingInfo (s : St) (k : Nat) (raw : Bool)
    (target : Option Nat) :
    (gotConn s k raw target).routingInfo = s.routingInfo := by
  cases target <;> rfl

theorem reqStep_routingInfo {s t : St} (h : reqStep s = some t) :
    t.routingInfo = s.routingInfo := by
  unfold Transport.reqStep at h
  split at h
  case h_1 | h_8 => cases h
  case h_2 | h_3 =>
    split at h
    · cases h
      rfl
    · cases h
  case h_4 | h_5 | h_7 =>
    cases h
    rfl
  case h_6 =>
    split at h <;> (cases h; rfl)

theorem loopStep_routingInfo {s t : St} {ok : Bool}
    (h : loopStep s ok = some t) :
    t.routingInfo = s.routingInfo := by
  unfold loopStep at h
  split at h
  case h_1 | h_5 =>
    split at h
    · cases h
      rfl
    · cases h
  case h_2 | h_3 | h_6 | h_8 =>
    cases h
    rfl
  case h_4 | h_9 | h_10 =>
    split at h <;> (cases h; rfl)
  case h_7 =>
    split at h
    · cases h
      rfl
    · split at h
      · cases h
        rfl
      · cases h
  case h_11 => cases h

theorem callStep_routingInfo {s t : St} (h : callStep s = some t) :
    t.routingInfo = s.routingInfo := by
  unfold callStep at h
  split at h
  case h_1 =>
    split at h
    · cases h
      rfl
    · split at h
      · cases h
        rfl
      · cases h
  case h_2 =>
    cases h
    rfl
  case h_3 =>
    split at h <;> (cases h; rfl)
  case h_4 => cases h

/-- An action of a connection's own is a turn, or leaves the context alone and
decides nothing. -/
theorem step_own {c : Conf} {s t : St} {a : Act} (hown : a.own = true)
    (hstep : step c s a = some t) :
    (∃ r uuid, a = .parse (.request r uuid) ∧ uuid ≠ [] ∧
      t = routeRequest c s r uuid) ∨
      (t.routingInfo = s.routingInfo ∧ decided c a t = []) := by
  unfold Transport.step at hstep
  split at hstep
  · cases hstep
  · cases a with
    | parse p =>
      simp only [parse] at hstep
      split at hstep
      · cases p with
        | ended =>
          cases hstep
          exact .inr ⟨rfl, rfl⟩
        | failed =>
          simp only at hstep
          split at hstep <;> (cases hstep; exact .inr ⟨rfl, rfl⟩)
        | request r uuid =>
          cases hstep
          exact .inl ⟨r, uuid, rfl, of_decide_eq_true hown, rfl⟩
      · cases hstep
    | req => exact .inr ⟨reqStep_routingInfo hstep, rfl⟩
    | addr =>
      simp only [sendAddr] at hstep
      split at hstep
      · split at hstep
        · cases hstep
        · cases hstep
          exact .inr ⟨rfl, rfl⟩
      · cases hstep
    | conn =>
      simp only [sendConn] at hstep
      split at hstep
      · split at hstep
        · cases hstep
        · cases hstep
          exact .inr ⟨gotConn_routingInfo _ _ _ _, rfl⟩
      · cases hstep
    | loop ok => exact .inr ⟨loopStep_routingInfo hstep, rfl⟩
    | call => exact .inr ⟨callStep_routingInfo hstep, rfl⟩
    | emit b =>
      simp only [emit] at hstep
      split at hstep
      · split at hstep
        · cases hstep
          exact .inr ⟨rfl, rfl⟩
        · cases hstep
      · cases hstep
    | setRoute id value | expire id => cases hown

/-! ## Runs -/

/-- The turns of all connections so far, newest first. -/
def turns (s : Sidecar) : List Iteration := s.decisions.map Decision.turn

/-- Each decision follows from the turns before it. -/
def Follows (http : HTTPConfig) (rc : RoutingConfig)
    (decisions : List Decision) : Prop :=
  ∀ newer d older, decisions = newer ++ d :: older →
    Propagated http rc (older.map Decision.turn) d

theorem Follows.cons {d : Decision} {ds : List Decision}
    (h : Follows http rc ds)
    (hd : Propagated http rc (ds.map Decision.turn) d) :
    Follows http rc (d :: ds) := by
  intro newer e older heq
  cases newer with
  | nil =>
      cases heq
      exact hd
  | cons n newer =>
      cases heq
      exact h newer e older rfl

/-- The invariant of a sidecar. -/
structure Remembers (http : HTTPConfig) (rc : RoutingConfig) (s : Sidecar) :
    Prop where
  configs : ∀ e ∈ s.conns, e.1.http = http ∧ e.1.routing = rc
  context : ∀ id, s.routingInfo.lookup id = stored http rc (turns s) id
  follows : Follows http rc s.decisions

theorem remembers_init : Remembers http rc {} := by
  refine ⟨?_, fun id => rfl, ?_⟩
  · intro e he
    cases he
  · intro newer d older h
    cases newer <;> cases h

theorem remembers_step {s t : Sidecar} {a : SidecarAct}
    (h : Remembers http rc s) (hstep : sidecarStep http rc s a = some t) :
    Remembers http rc t := by
  cases a with
  | accept proto isInbound originalDst =>
    cases hstep
    refine ⟨?_, h.context, h.follows⟩
    intro e he
    rcases List.mem_append.mp he with he | he
    · exact h.configs e he
    · rw [List.mem_singleton.mp he]
      exact ⟨rfl, rfl⟩
  | act i a =>
    simp only [sidecarStep] at hstep
    split at hstep
    · next hown =>
        split at hstep
        · cases hstep
        · next c st hi =>
            obtain ⟨u, hu, rfl⟩ := Option.map_eq_some_iff.mp hstep
            obtain ⟨rfl, rfl⟩ := h.configs _ (List.mem_of_getElem? hi)
            have hconfigs : ∀ e ∈ s.conns.set i (c, u),
                e.1.http = c.http ∧ e.1.routing = c.routing := by
              intro e he
              rcases List.mem_or_eq_of_mem_set he with he | rfl
              · exact h.configs e he
              · exact ⟨rfl, rfl⟩
            rcases step_own hown hu with ⟨r, uuid, rfl, huuid, rfl⟩
              | ⟨hinfo, hdec⟩
            · obtain ⟨d, hd, hturn, hprop⟩ := routeRequest_propagated
                (s := { st with routingInfo := s.routingInfo }) r huuid
                  h.context
              refine ⟨hconfigs, ?_, ?_⟩
              · intro id
                rw [hd]
                show _ = stored c.http c.routing (d.turn :: turns s) id
                rw [hturn]
                exact routeRequest_routingInfo r huuid h.context id
              · rw [hd]
                exact h.follows.cons hprop
            · rw [hdec]
              exact ⟨hconfigs, fun id => by rw [hinfo]; exact h.context id,
                h.follows⟩
    · cases hstep

theorem remembers_reaches {s : Sidecar}
    (h : Reaches (Fires (sidecarStep http rc)) {} s) :
    Remembers http rc s :=
  Reaches.invariant (P := Remembers http rc)
    (fun _ _ ha ⟨_, hstep⟩ => remembers_step ha hstep)
    remembers_init h

/-- What an outbound connection does leaves the context as it is. -/
theorem outbound_keeps_context {s t : Sidecar} {i : Nat} {a : Act} {c : Conf}
    {st : St} (h : Remembers http rc s) (hi : s.conns[i]? = some (c, st))
    (hout : c.isInbound = false)
    (hstep : sidecarStep http rc s (.act i a) = some t) (id : Bytes) :
    t.routingInfo.lookup id = s.routingInfo.lookup id := by
  simp only [sidecarStep, hi] at hstep
  split at hstep
  · next hown =>
      obtain ⟨u, hu, rfl⟩ := Option.map_eq_some_iff.mp hstep
      obtain ⟨rfl, rfl⟩ := h.configs _ (List.mem_of_getElem? hi)
      rcases step_own hown hu with ⟨r, uuid, rfl, huuid, rfl⟩ | ⟨hinfo, _⟩
      · show (routeRequest c { st with
          routingInfo := s.routingInfo } r uuid).routingInfo.lookup id
          = _
        rw [routeRequest_routingInfo r huuid h.context id, stored_outbound hout,
          ← h.context id]
      · show u.routingInfo.lookup id = _
        rw [hinfo]
  · cases hstep

/-- In every run of a sidecar the context holds what the turns so far have left
in it, each decision is the one the turns before it determine, and an outbound
connection changes nothing for those that follow. -/
theorem routing_context_propagates {s : Sidecar}
    (h : Reaches (Fires (sidecarStep http rc)) {} s) :
    (∀ id, s.routingInfo.lookup id = stored http rc (turns s) id) ∧
    (∀ newer d older, s.decisions = newer ++ d :: older →
      Propagated http rc (older.map Decision.turn) d) ∧
    (∀ i a c st t, s.conns[i]? = some (c, st) → c.isInbound = false →
      sidecarStep http rc s (.act i a) = some t →
      ∀ id, t.routingInfo.lookup id = s.routingInfo.lookup id) := by
  have hs := remembers_reaches h
  refine ⟨hs.context, hs.follows, ?_⟩
  intro i a c st t hi hout hstep id
  exact outbound_keeps_context hs hi hout hstep id

/-- A request to `/a` that brings these headers. -/
def tagged (fields : List (Bytes × Bytes)) : Request :=
  { plainRequest (lit "/a") with
    header := fields.foldl (fun h f => h.set f.1 f.2) Header.empty }

/-- An inbound request leaves its routing value, and an outbound request of the
same id finds it. -/
def propagation : List SidecarAct :=
  [.accept .http true ⟨lit "10.0.0.1:80", by decide⟩,
   .accept .http false ⟨lit "10.0.0.2:80", by decide⟩,
   .act 0 (.parse (.request
      (tagged [(lit "X-Request-Id", lit "7"), (lit "X-Route", lit "shop=cart")])
        (lit "u1"))),
   .act 1
     (.parse (.request (tagged [(lit "X-Request-Id", lit "7")]) (lit "u2")))]

theorem routing_context_propagates_outbound :
    ∃ s inbound outbound,
      Reaches (Fires (sidecarStep HTTPConfig.default RoutingConfig.default))
        {} s ∧
      s.decisions = [outbound, inbound] ∧ outbound.address = lit "cart:80" ∧
      Propagated HTTPConfig.default RoutingConfig.default
        [inbound.turn] outbound := by
  have hex : ∃ s inbound outbound,
      exec (sidecarStep HTTPConfig.default RoutingConfig.default)
        {} propagation = some s ∧
      s.decisions = [outbound, inbound] ∧ outbound.address = lit "cart:80" :=
    ⟨_, _, _, rfl, rfl, by decide +kernel⟩
  obtain ⟨s, inbound, outbound, hs, hdec, haddr⟩ := hex
  exact ⟨s, inbound, outbound, reaches_of_exec hs, hdec, haddr,
    (routing_context_propagates (reaches_of_exec hs)).2.1 [] outbound
      [inbound] hdec⟩

end Netramesh.Proofs
