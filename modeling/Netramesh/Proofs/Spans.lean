import Netramesh.Proofs.Pairing

/-!
# Every started span is finished

A span is made by `StartRequest`, queued, and finished by the `StopRequest` that
takes it off the queue. `StopRequest` runs once for every response and nowhere
else: `CleanUp` leaves the queues as they are. So a request that is never
answered keeps its span open, and the branch for a request without a response
is never taken, since the response was pushed just before.

In every run the finished spans, the one in hand and the queue are the spans
that were made, in order (`Spans`); what can go wrong is only that some of them
stay in the queue. They do not if no `StopRequest` takes a request off its queue
whose span is still on its way, and if the goroutines end with every request
answered.
-/

namespace Netramesh.Proofs

open Http Protocol Lib

variable {C : Type} {cfg : HTTPConfig} {isInbound : Bool} {tr : Tracer C}

/-- Each span was finished exactly once; a span pushed for a request without a
final response carries the tags of a timeout, and exactly the requests without
one went through the branch of `StopRequest` without a response. -/
structure Accounted (s : St C) : Prop where
  once : ∀ n < s.made.length, (s.finished.filter fun f => f.span = n).length = 1
  timeout : ∀ k n f, s.pushed[k]? = some (some n) → f ∈ s.finished →
    f.span = n → s.finals ≤ k → (lit "error", .flag true) ∈ f.tags ∧
      (lit "timeout", .flag true) ∈ f.tags
  branch : ∀ f ∈ s.finished, f.response = none ↔ s.finals ≤ f.request

/-- Every request that was read has its final response, and was taken off the
queue. -/
def Answered (s : St C) : Prop :=
  s.httpRequests = [] ∧ s.requests.length ≤ s.finals

instance (s : St C) : Decidable (Answered s) :=
  inferInstanceAs (Decidable (_ ∧ _))

/-- `StopRequest` is about to pop the span of the request it has popped. -/
def atSpan : RespPC → Bool
  | .popSpan .. => true
  | _ => false

/-- The condition: a `StopRequest` that took a request finds a span, and the
second of the two goroutines returns only when every request is answered. -/
def Timely (s : Life C) : LifeAct C → Prop
  | .act .respStep => atSpan s.st.respPC = true → s.st.spans ≠ []
  | .reqReturn => s.respReturned = true → Answered s.st
  | .respReturn => s.reqReturned = true → Answered s.st
  | _ => True

instance (s : Life C) : DecidablePred (Timely s)
  | .act .respStep | .reqReturn | .respReturn =>
      inferInstanceAs (Decidable (_ → _))
  | .act (.readRequest ..) | .act .reqStep | .act (.readResponse _)
      | .act (.setCache ..)
  | .act (.expire _) | .cleanUp => inferInstanceAs (Decidable True)

/-! ## Where the spans are -/

/-- The span the request goroutine has made and not pushed. -/
def making : ReqPC → List Nat
  | .pushSpan _ span => [span]
  | _ => []

/-- The span the response goroutine has popped and not finished. -/
def spanInHand : RespPC → List Nat
  | .finish _ _ span => [span]
  | _ => []

/-- The request the response goroutine has popped. -/
def requestInHand : RespPC → Option Nat
  | .popResponse req => req
  | .popSpan k _ | .finish k _ _ => some k
  | _ => none

/-- Whether the request of the turn is still to be pushed, and its span. -/
def toPush : ReqPC → Nat
  | .push _ => 1
  | _ => 0

def toStart : ReqPC → Nat
  | .push _ | .peek _ | .start _ _ | .pushSpan _ _ => 1
  | _ => 0

/-- The response of a turn is in the queue from its push to its pop, and then in
hand: it is never missing. -/
def ResponseKept (queue : List Nat) : RespPC → Prop
  | .reading | .peek _ | .write _ _ | .push _ => queue = []
  | .popRequest | .popResponse _ => ∃ i, queue = [i]
  | .popSpan _ resp | .finish _ resp _ => resp ≠ none ∧ queue = []

/-- What holds in every run. -/
structure Spans (s : St C) : Prop where
  pushed : s.finished.map Finish.span ++ spanInHand s.respPC ++ s.spans =
    s.pushed.filterMap id
  made : s.pushed.filterMap id ++ making s.reqPC = List.range s.made.length
  turns : s.pushed.length + toStart s.reqPC = s.requests.length
  turn : ∀ k, s.reqPC.turn = some k → k < s.requests.length
  queued : ∀ k ∈ s.httpRequests, k < s.requests.length
  inHand : ∀ k ∈ requestInHand s.respPC, k < s.requests.length
  kept : ResponseKept s.httpResponses s.respPC
  answered : ∀ f ∈ s.finished, f.response ≠ none ∧ f.request < s.requests.length

theorem spans_read {s : St C} (h : Spans s) (hpc : s.reqPC = .reading)
    (r : Request) (addr : Bytes) : Spans { s with
      requests := s.requests ++ [r], reads := s.reads ++ [r]
      remoteAddr := addr, addrs := s.addrs ++ [addr]
      reqPC := .push s.requests.length } := by
  have hturns := h.turns
  have hmade := h.made
  rw [hpc] at hturns hmade
  have hgrow : ∀ k, k < s.requests.length → k < (s.requests ++ [r]).length := by
    intro k hk
    rw [List.length_append]
    omega
  exact {
    pushed := h.pushed
    made := hmade
    turns := by
      show s.pushed.length + 1 = (s.requests ++ [r]).length
      rw [List.length_append, ← hturns]
      rfl
    turn := by
      intro k hk
      cases hk
      show s.requests.length < (s.requests ++ [r]).length
      simp
    queued := fun k hk => hgrow k (h.queued k hk)
    inHand := fun k hk => hgrow k (h.inHand k hk)
    kept := h.kept
    answered := fun f hf => ⟨(h.answered f hf).1, hgrow _ (h.answered f hf).2⟩ }

theorem spans_reqStep {s t : St C} (h : Spans s)
    (hstep : reqStep cfg isInbound tr s = some t) :
    Spans t := by
  obtain ⟨hpushed, hmade, hturns, hturn, hqueued, hhand, hkept, hansw⟩ := h
  unfold reqStep at hstep
  split at hstep
  case h_1 => cases hstep
  case h_2 k hpc =>
    cases hstep
    rw [hpc] at hmade hturns hturn
    refine ⟨hpushed, hmade, hturns, hturn, ?_, hhand, hkept, hansw⟩
    intro j hj
    rcases List.mem_append.mp hj with hj | hj
    · exact hqueued j hj
    · rw [List.mem_singleton.mp hj]
      exact hturn k rfl
  case h_3 k hpc =>
    cases hstep
    rw [hpc] at hmade hturns hturn
    exact ⟨hpushed, hmade, hturns, hturn, hqueued, hhand, hkept, hansw⟩
  case h_4 k q hpc =>
    rw [hpc] at hmade hturns hturn
    unfold start at hstep
    split at hstep
    · -- the queue was empty: no span, and the turn is over
      cases hstep
      refine ⟨?_, ?_, ?_, hturn, hqueued, hhand, hkept, hansw⟩
      · simpa using hpushed
      · simpa [making] using hmade
      · simpa [toStart] using hturns
    · split at hstep
      · cases hstep
      · cases hstep
        have hmade' : s.pushed.filterMap id = List.range s.made.length := by
          simpa [making] using hmade
        refine ⟨hpushed, ?_, ?_, ?_, ?_, ?_, hkept, ?_⟩
        · show s.pushed.filterMap id ++ [s.made.length] =
            List.range (s.made ++ _).length
          rw [hmade', List.length_append, List.length_singleton,
            List.range_succ]
        · simpa [toStart] using hturns
        · simpa [ReqPC.turn] using hturn
        · simpa using hqueued
        · simpa using hhand
        · simpa using hansw
  case h_5 k span hpc =>
    cases hstep
    rw [hpc] at hmade hturns hturn
    refine ⟨?_, ?_, ?_, hturn, hqueued, hhand, hkept, hansw⟩
    · simp only [Queue.push, List.filterMap_append, ← hpushed,
        List.append_assoc]
      rfl
    · simpa [making] using hmade
    · simpa [toStart] using hturns
  case h_6 k hpc =>
    rw [hpc] at hmade hturns hturn
    split at hstep
    · cases hstep
    · cases hstep
      refine ⟨hpushed, hmade, hturns, ?_, hqueued, hhand, hkept, hansw⟩
      intro k hk
      cases hk

/-- `StopRequest` pops the response its own turn has pushed. -/
theorem pop_kept {queue : List Nat} {req : Option Nat}
    (h : ResponseKept queue (.popResponse req)) :
    ∃ i, Queue.pop queue = (some i, []) := by
  obtain ⟨i, rfl⟩ := h
  exact ⟨i, rfl⟩

theorem noRequest {n : Nat} : ∀ k ∈ requestInHand .reading, k < n := by
  intro k hk
  cases hk

theorem spans_respStep {s t : St C} (h : Spans s)
    (hstep : respStep cfg isInbound s = some t) :
    Spans t := by
  obtain ⟨hpushed, hmade, hturns, hturn, hqueued, hhand, hkept, hansw⟩ := h
  unfold respStep at hstep
  split at hstep
  case h_1 => cases hstep
  case h_2 i hpc | h_3 i _ hpc =>
    cases hstep
    rw [hpc] at hpushed hhand hkept
    exact ⟨hpushed, hmade, hturns, hturn, hqueued, hhand, hkept, hansw⟩
  case h_4 i hpc =>
    cases hstep
    rw [hpc] at hpushed hhand hkept
    refine ⟨hpushed, hmade, hturns, hturn, hqueued, hhand, ⟨i, ?_⟩, hansw⟩
    show s.httpResponses ++ [i] = [i]
    rw [show s.httpResponses = [] from hkept, List.nil_append]
  case h_5 hpc =>
    cases hstep
    rw [hpc] at hpushed hhand hkept
    refine ⟨hpushed, hmade, hturns, hturn, ?_, ?_, hkept, hansw⟩
    · exact fun k hk => hqueued k ((pop_suffix _).subset hk)
    · intro k hk
      refine hqueued k ?_
      show k ∈ s.httpRequests
      cases hq : s.httpRequests with
      | nil => simp [hq, requestInHand, Queue.pop] at hk
      | cons j q => simp_all [requestInHand, Queue.pop]
  case h_6 req hpc =>
    rw [hpc] at hpushed hhand hkept
    obtain ⟨i, hi⟩ := pop_kept hkept
    rw [hi] at hstep
    split at hstep
    · cases hstep
      exact ⟨hpushed, hmade, hturns, hturn, hqueued, noRequest, rfl, hansw⟩
    · cases hstep
      exact ⟨hpushed, hmade, hturns, hturn, hqueued, hhand,
        ⟨Option.some_ne_none _, rfl⟩, hansw⟩
  case h_7 k resp hpc =>
    rw [hpc] at hpushed hhand hkept
    split at hstep
    · cases hstep
      exact ⟨hpushed, hmade, hturns, hturn, hqueued, noRequest, hkept.2, hansw⟩
    · next span q hq =>
        cases hstep
        refine ⟨?_, hmade, hturns, hturn, hqueued, hhand, hkept, hansw⟩
        cases hs : s.spans with
        | nil =>
          rw [hs] at hq
          cases hq
        | cons v rest =>
          rw [hs] at hq hpushed
          cases hq
          simpa [spanInHand] using hpushed
  case h_8 k resp span hpc =>
    rw [hpc] at hpushed hhand hkept
    split at hstep
    · cases hstep
    · cases hstep
      refine ⟨?_, hmade, hturns, hturn, hqueued, noRequest, hkept.2, ?_⟩
      · simpa [spanInHand] using hpushed
      · intro f hf
        rcases List.mem_append.mp hf with hf | hf
        · exact hansw f hf
        · rw [List.mem_singleton.mp hf]
          exact ⟨hkept.1, hhand k rfl⟩

theorem spans_step {s t : St C} {a : Act C} (h : Spans s)
    (hstep : step cfg isInbound tr s a = some t) : Spans t := by
  cases a with
  | readRequest r addr uuid =>
    simp only [step] at hstep
    split at hstep
    · next hpc =>
        cases hstep
        exact spans_read h hpc _ _
    · cases hstep
  | reqStep => exact spans_reqStep h hstep
  | readResponse resp =>
    simp only [step] at hstep
    split at hstep
    · next hpc =>
        cases hstep
        obtain ⟨hpushed, hmade, hturns, hturn, hqueued, hhand, hkept, hansw⟩ :=
          h
        rw [hpc] at hpushed hhand hkept
        exact ⟨hpushed, hmade, hturns, hturn, hqueued, hhand, hkept, hansw⟩
    · cases hstep
  | respStep => exact spans_respStep h hstep
  | setCache key ctx | expire key =>
    cases hstep
    exact ⟨h.pushed, h.made, h.turns, h.turn, h.queued, h.inHand, h.kept,
      h.answered⟩

/-- When neither goroutine is in a turn, the finished spans and the queued ones
are all the spans there are. -/
theorem Spans.between_turns {s : St C} (h : Spans s) (hreq : s.reqPC = .reading)
    (hresp : s.respPC = .reading) :
    s.finished.map Finish.span ++ s.spans = List.range s.made.length := by
  have hpushed := h.pushed
  have hmade := h.made
  rw [hresp] at hpushed
  rw [hreq, ← hpushed] at hmade
  simpa [spanInHand, making] using hmade

/-! ## Counting the requests -/

/-- The requests that were read: on their way to the queue, in it, with a
finished span, or in the hands of the response goroutine. -/
def Counted (s : St C) : Prop :=
  s.requests.length = toPush s.reqPC + s.httpRequests.length +
    s.finished.length +
    (requestInHand s.respPC).toList.length

theorem counted_reqStep {s t : St C} (h : Counted s)
    (hstep : reqStep cfg isInbound tr s = some t) : Counted t := by
  unfold Counted at h
  unfold reqStep at hstep
  split at hstep
  case h_1 => cases hstep
  case h_2 k hpc =>
    cases hstep
    rw [hpc] at h
    simp only [Counted, Queue.push, toPush, List.length_append,
      List.length_singleton] at h ⊢
    omega
  case h_3 k hpc | h_5 k _ hpc =>
    cases hstep
    rw [hpc] at h
    exact h
  case h_4 k q hpc =>
    rw [hpc] at h
    unfold start at hstep
    split at hstep
    · cases hstep
      exact h
    · split at hstep
      · cases hstep
      · cases hstep
        simpa [Counted, toPush] using h
  case h_6 k hpc =>
    rw [hpc] at h
    split at hstep
    · cases hstep
    · cases hstep
      exact h

/-- The one step that loses count is a `StopRequest` with a request in hand and
no span to finish. -/
theorem counted_respStep {s t : St C} (h : Counted s)
    (hspan : ∀ k resp, s.respPC = .popSpan k resp → s.spans ≠ [])
    (hstep : respStep cfg isInbound s = some t) : Counted t := by
  unfold Counted at h
  unfold respStep at hstep
  split at hstep
  case h_1 => cases hstep
  case h_2 i hpc | h_3 i _ hpc | h_4 i hpc =>
    cases hstep
    rw [hpc] at h
    exact h
  case h_5 hpc =>
    cases hstep
    rw [hpc] at h
    cases hq : s.httpRequests with
    | nil => simpa [Counted, Queue.pop, requestInHand, hq] using h
    | cons j q =>
      simp only [Counted, Queue.pop, requestInHand, hq, Option.toList_some,
        Option.toList_none, List.length_cons, List.length_nil] at h ⊢
      omega
  case h_6 req hpc =>
    rw [hpc] at h
    split at hstep
    · cases hstep
      exact h
    · cases hstep
      exact h
  case h_7 k resp hpc =>
    rw [hpc] at h
    split at hstep
    · next hq =>
        refine absurd ?_ (hspan k resp hpc)
        cases hs : s.spans with
        | nil => rfl
        | cons v rest =>
          rw [hs] at hq
          cases hq
    · cases hstep
      exact h
  case h_8 k resp span hpc =>
    rw [hpc] at h
    split at hstep
    · cases hstep
    · cases hstep
      simp only [Counted, requestInHand, Option.toList_some, Option.toList_none,
        List.length_append, List.length_cons, List.length_nil] at h ⊢
      omega

theorem counted_step {s t : St C} {a : Act C} (h : Counted s)
    (hspan : a = .respStep → ∀ k resp,
      s.respPC = .popSpan k resp → s.spans ≠ [])
    (hstep : step cfg isInbound tr s a = some t) : Counted t := by
  cases a with
  | readRequest r addr uuid =>
    simp only [step] at hstep
    split at hstep
    · next hpc =>
        cases hstep
        unfold Counted at h
        rw [hpc] at h
        simp only [Counted, toPush, List.length_append,
          List.length_singleton] at h ⊢
        omega
    · cases hstep
  | reqStep => exact counted_reqStep h hstep
  | readResponse resp =>
    simp only [step] at hstep
    split at hstep
    · next hpc =>
        cases hstep
        unfold Counted at h
        rw [hpc] at h
        exact h
    · cases hstep
  | respStep => exact counted_respStep h (hspan rfl) hstep
  | setCache key ctx | expire key =>
    cases hstep
    exact h

/-! ## Runs -/

theorem reqStep_respPC {s t : St C} (h : reqStep cfg isInbound tr s = some t) :
    t.respPC = s.respPC := by
  unfold reqStep at h
  split at h
  case h_1 => cases h
  case h_2 | h_3 | h_5 =>
    cases h
    rfl
  case h_4 =>
    unfold start at h
    split at h
    · cases h
      rfl
    · split at h
      · cases h
      · cases h
        rfl
  case h_6 =>
    split at h
    · cases h
    · cases h
      rfl

theorem step_respPC {s t : St C} {a : Act C} (ha : a.ofResponses = false)
    (h : step cfg isInbound tr s a = some t) : t.respPC = s.respPC := by
  cases a with
  | readRequest r addr uuid =>
    simp only [step] at h
    split at h
    · cases h
      rfl
    · cases h
  | reqStep => exact reqStep_respPC h
  | readResponse resp | respStep => cases ha
  | setCache key ctx | expire key =>
    cases h
    rfl

theorem step_reqPC {s t : St C} {a : Act C} (ha : a.ofRequests = false)
    (h : step cfg isInbound tr s a = some t) : t.reqPC = s.reqPC := by
  cases a with
  | readRequest r addr uuid | reqStep => cases ha
  | readResponse resp =>
    simp only [step] at h
    split at h
    · cases h
      rfl
    · cases h
  | respStep => exact (respStep_frame h).reqPC
  | setCache key ctx | expire key =>
    cases h
    rfl

/-- With both goroutines gone, only the shared cache moves. -/
theorem Answered.step {s t : St C} {a : Act C} (h : Answered s)
    (hreq : a.ofRequests = false) (hresp : a.ofResponses = false)
    (hstep : step cfg isInbound tr s a = some t) :
    Answered t := by
  cases a with
  | readRequest r addr uuid | reqStep => cases hreq
  | readResponse resp | respStep => cases hresp
  | setCache key ctx | expire key =>
    cases hstep
    exact h

/-- The invariant of a timely run. -/
structure Concluded (s : Life C) : Prop where
  spans : Spans s.st
  counted : Counted s.st
  req : s.reqReturned = true → s.st.reqPC = .reading
  resp : s.respReturned = true → s.st.respPC = .reading
  answered : s.reqReturned = true → s.respReturned = true → Answered s.st

theorem concluded_init : Concluded ({} : Life C) := by
  refine ⟨⟨rfl, rfl, rfl, ?_, ?_, ?_, rfl, ?_⟩, rfl, ?_, ?_, ?_⟩
  · intro k hk
    cases hk
  · intro k hk
    cases hk
  · intro k hk
    cases hk
  · intro f hf
    cases hf
  · intro h
    cases h
  · intro h
    cases h
  · intro h
    cases h

theorem concluded_step {s t : Life C} {a : LifeAct C} (h : Concluded s)
    (htimely : Timely s a) (hstep : lifeStep cfg isInbound tr s a = some t) :
    Concluded t := by
  cases a with
  | act a =>
    simp only [lifeStep] at hstep
    split at hstep
    · cases hstep
    · next hlive =>
        obtain ⟨u, hu, rfl⟩ := Option.map_eq_some_iff.mp hstep
        simp only [Bool.or_eq_true, Bool.and_eq_true, not_or, not_and,
          Bool.not_eq_true] at hlive
        refine ⟨spans_step h.spans hu, counted_step h.counted ?_ hu, ?_, ?_, ?_⟩
        · rintro rfl k resp hpc
          refine htimely ?_
          rw [hpc]
          rfl
        · intro hr
          rw [← h.req hr]
          exact step_reqPC (hlive.1 hr) hu
        · intro hr
          rw [← h.resp hr]
          exact step_respPC (hlive.2 hr) hu
        · intro hreq hresp
          exact (h.answered hreq hresp).step (hlive.1 hreq) (hlive.2 hresp) hu
  | reqReturn =>
    simp only [lifeStep] at hstep
    split at hstep
    · next hpc =>
        cases hstep
        exact ⟨h.spans, h.counted, fun _ => hpc, h.resp, fun _ => htimely⟩
    · cases hstep
  | respReturn =>
    simp only [lifeStep] at hstep
    split at hstep
    · next hpc =>
        cases hstep
        exact ⟨h.spans, h.counted, h.req, fun _ => hpc,
          fun hreq _ => htimely hreq⟩
    · cases hstep
  | cleanUp =>
    cases hstep
    exact ⟨h.spans, h.counted, h.req, h.resp, h.answered⟩

theorem count_eq_one_of_range {finished : List Finish} {n m : Nat}
    (h : finished.map Finish.span = List.range m) (hn : n < m) :
    (finished.filter fun f => f.span = n).length = 1 := by
  have hcount : (finished.filter fun f => f.span = n).length =
      (finished.map Finish.span).count n := by
    rw [List.count, List.countP_map, ← List.countP_eq_length_filter]
    congr 1
  rw [hcount, h, List.count_eq_one_of_mem List.nodup_range
    (List.mem_range.mpr hn)]

/-- With every request answered, no span is left in the queue: the spans are at
most as many as the requests, and each request has had one finished. -/
theorem Concluded.accounted {s : Life C} (h : Concluded s)
    (hreq : s.reqReturned = true) (hresp : s.respReturned = true) :
    Accounted s.st := by
  have hreqPC := h.req hreq
  have hrespPC := h.resp hresp
  obtain ⟨hqueue, hfinals⟩ := h.answered hreq hresp
  have hspans := h.spans.between_turns hreqPC hrespPC
  have hpushed := h.spans.pushed
  have hturns := h.spans.turns
  have hcounted := h.counted
  unfold Counted at hcounted
  rw [hreqPC] at hturns
  rw [hreqPC, hrespPC, hqueue] at hcounted
  rw [hrespPC] at hpushed
  simp only [toStart, toPush, requestInHand, Option.toList_none,
    List.length_nil] at hturns hcounted
  have hlen : s.st.finished.length + s.st.spans.length ≤
      s.st.pushed.length := by
    have := congrArg List.length hpushed
    simp only [spanInHand, List.append_nil, List.length_append,
      List.length_map] at this
    rw [this]
    exact List.length_filterMap_le id s.st.pushed
  have hnil : s.st.spans = [] := List.eq_nil_of_length_eq_zero (by omega)
  rw [hnil, List.append_nil] at hspans
  refine ⟨fun n hn => count_eq_one_of_range hspans hn, ?_, ?_⟩
  · intro k n f hk _ _ hle
    have := (List.getElem?_eq_some_iff.mp hk).1
    omega
  · intro f hf
    obtain ⟨hsome, hlt⟩ := h.spans.answered f hf
    exact ⟨fun hnone => absurd hnone hsome, fun hle => by omega⟩

/-- In every run in which no `StopRequest` takes a request whose span is still
on its way, and at whose end every request has its answer, each span is finished
exactly once. -/
theorem answered_spans_finished {s : Life C}
    (h : Reaches (FiresIf (lifeStep cfg isInbound tr) Timely) {} s)
    (hended : s.ended) :
    Accounted s.st := by
  have hconc : Concluded s := by
    refine Reaches.invariant (P := Concluded) ?_ concluded_init h
    rintro a b ha ⟨act, hstep, htimely⟩
    exact concluded_step ha htimely hstep
  exact hconc.accounted hended.1 hended.2.1

/-- What is left to do once the peers are gone. -/
def goodbye : List (LifeAct Bytes) := [.reqReturn, .respReturn, .cleanUp]

/-- A request that the server never answers. -/
def unanswered : List (LifeAct Bytes) :=
  (requestTurn (lit "/a")).map .act ++ goodbye

theorem unanswered_request_keeps_span :
    ¬ ∀ s : Life Bytes, Reaches
      (Fires (lifeStep HTTPConfig.default true plainTracer)) {} s →
      s.ended → Accounted s.st := by
  intro h
  have hex : ∃ s, exec (lifeStep HTTPConfig.default true plainTracer)
    {} unanswered = some s ∧
      s.ended ∧ s.st.made.length = 1 ∧ s.st.finished = [] :=
    ⟨_, rfl, ⟨rfl, rfl, rfl⟩, rfl, rfl⟩
  obtain ⟨s, hs, hended, hmade, hfinished⟩ := hex
  have honce := (h s (reaches_of_exec hs) hended).once 0 (by omega)
  rw [hfinished] at honce
  cases honce

theorem answered_spans_finished_pipelined :
    ∃ s, Reaches (FiresIf (lifeStep HTTPConfig.default true plainTracer) Timely)
      {} s ∧ s.ended ∧ s.st.made.length = 2 ∧ Accounted s.st := by
  have hex : ∃ s, execIf (lifeStep HTTPConfig.default true plainTracer)
    Timely {}
      (pipelined.map .act ++ goodbye) = some s ∧ s.ended ∧
        s.st.made.length = 2 :=
    ⟨_, rfl, ⟨rfl, rfl, rfl⟩, rfl⟩
  obtain ⟨s, hs, hended, hmade⟩ := hex
  exact ⟨s, reaches_of_execIf hs, hended, hmade,
    answered_spans_finished (reaches_of_execIf hs) hended⟩

end Netramesh.Proofs
