import Netramesh.Lib.System
import Netramesh.Protocol.Trace

/-!
# Which request a span is made from

`StartRequest` does not receive the request it is called for. It looks at the
front of `httpRequests`, where that request stands only if every earlier one
has already been popped and it has not been popped itself. This file proves
that this is the whole story: along any run, the span of the `k`-th request is
made from the `k`-th request exactly if `StartRequest` saw a queue that holds
`k` and nothing else.

The run invariant is about one turn of the request loop. A request enters the
memory, the queue, the history of started spans and the history of written
requests in that order, so the lengths of these lists are determined by the
program counter; the queue is increasing, because it is fed in order and only
popped; and between its own `StartRequest` and its being written nobody else
touches a request's headers.
-/

namespace Netramesh.Proofs

open Http Protocol Lib

variable {C : Type} (cfg : HTTPConfig) (isInbound : Bool) (tr : Tracer C)

/-- One action of the connection, whichever it is. -/
abbrev Step : St C → St C → Prop := Fires (step cfg isInbound tr)

/-- What the record of a call says that found the request it was called for: the
span was made from it, and it was written with what the span put into it. -/
def OwnRecord (s : St C) (e : StartRec C) : Prop :=
  ∃ r, s.reads[e.request]? = some r ∧
    e.span = some (startSpan cfg isInbound tr e.seq r) ∧
    s.made[e.seq]? = some (startSpan cfg isInbound tr e.seq r) ∧
    ∀ w, s.written[e.request]? = some w →
      w = { r with
        header := injectHeader isInbound tr (startSpan cfg isInbound tr e.seq r)
          r.header }

/-- How many requests have gone through `SetHTTPRequest`. -/
def pushedCount (s : St C) : Nat :=
  match s.reqPC with
  | .push k => k
  | _ => s.requests.length

/-- How many turns are past `StartRequest`'s work. -/
def startedCount (s : St C) : Nat :=
  match s.reqPC with
  | .reading => s.requests.length
  | .push k | .peek k | .start k _ => k
  | .pushSpan k _ | .write k => k + 1

/-- How many requests are written. -/
def writtenCount (s : St C) : Nat :=
  match s.reqPC with
  | .reading => s.requests.length
  | .push k | .peek k | .start k _ | .pushSpan k _ | .write k => k

/-- What a record of `StartRequest` says about the call, whatever it found. -/
structure RecordOk (s : St C) (e : StartRec C) : Prop where
  sorted : e.queue.Pairwise (· < ·)
  le_request : ∀ j ∈ e.queue, j ≤ e.request
  used_eq : e.used = e.queue.head?
  own : e.used = some e.request → OwnRecord cfg isInbound tr s e

/-- The invariant of the request loop. -/
structure TurnInv (s : St C) : Prop where
  reads_length : s.reads.length = s.requests.length
  turn : ∀ k, s.reqPC.turn = some k → s.requests.length = k + 1
  starts_length : s.starts.length = startedCount s
  written_length : s.written.length = writtenCount s
  queue_sorted : s.httpRequests.Pairwise (· < ·)
  queue_lt : ∀ j ∈ s.httpRequests, j < pushedCount s
  seen : ∀ k q, s.reqPC = .start k q → q.Pairwise (· < ·) ∧ ∀ j ∈ q, j ≤ k
  untouched : ∀ k, s.reqPC.turn = some k → startedCount s = k →
    s.requests[k]? = s.reads[k]?
  request_eq : ∀ (i : Nat) (e : StartRec C), s.starts[i]? = some e →
    e.request = i
  records : ∀ e ∈ s.starts, RecordOk cfg isInbound tr s e
  current : ∀ (k : Nat) (e : StartRec C) (r : Request) (span : Span C),
    s.reqPC.turn = some k → s.starts[k]? = some e → e.used = some k →
    s.reads[k]? = some r → e.span = some span →
    s.requests[k]? = some { r with
      header := injectHeader isInbound tr span r.header }
  inHand : ∀ k n, s.reqPC = .pushSpan k n →
    ∃ e, s.starts[k]? = some e ∧ e.seq = n

variable {cfg isInbound tr}

/-! ## The response goroutine and the cache

Their actions leave everything alone that the invariant reads, except that the
front of the queue may go. -/

/-- What the invariant sees of an action that is not the request goroutine's. -/
structure Frame (s t : St C) : Prop where
  requests : t.requests = s.requests
  reads : t.reads = s.reads
  reqPC : t.reqPC = s.reqPC
  starts : t.starts = s.starts
  made : t.made = s.made
  written : t.written = s.written
  queue : t.httpRequests <:+ s.httpRequests

theorem pop_suffix {α : Type} (q : List α) : (Queue.pop q).2 <:+ q := by
  cases q with
  | nil => exact List.suffix_refl _
  | cons v q => exact List.suffix_cons v q

theorem respStep_frame {s t : St C} (h : respStep cfg isInbound s = some t) :
    Frame s t := by
  unfold respStep at h
  split at h
  case h_1 => cases h
  case h_5 =>
    cases h
    exact ⟨rfl, rfl, rfl, rfl, rfl, rfl, pop_suffix _⟩
  case h_2 | h_3 | h_4 =>
    cases h
    exact ⟨rfl, rfl, rfl, rfl, rfl, rfl, List.suffix_refl _⟩
  case h_6 =>
    split at h <;> (cases h; exact ⟨rfl, rfl, rfl, rfl, rfl, rfl,
      List.suffix_refl _⟩)
  case h_7 =>
    split at h <;> (cases h; exact ⟨rfl, rfl, rfl, rfl, rfl, rfl,
      List.suffix_refl _⟩)
  case h_8 =>
    split at h
    · cases h
    · cases h
      exact ⟨rfl, rfl, rfl, rfl, rfl, rfl, List.suffix_refl _⟩

theorem getElem?_of_prefix {α : Type} {l m : List α} (h : l <+: m) {i : Nat}
    {a : α} (hi : l[i]? = some a) : m[i]? = some a := by
  obtain ⟨r, rfl⟩ := h
  rw [List.getElem?_append_left (List.getElem?_eq_some_iff.mp hi).1, hi]

theorem RecordOk.congr {s t : St C} {e : StartRec C}
    (hreads : s.reads <+: t.reads) (hmade : s.made <+: t.made)
    (hwritten : t.written = s.written) (h : RecordOk cfg isInbound tr s e) :
    RecordOk cfg isInbound tr t e := by
  refine ⟨h.sorted, h.le_request, h.used_eq, fun hu => ?_⟩
  obtain ⟨r, hr, hspan, hn, hw⟩ := h.own hu
  refine ⟨r, getElem?_of_prefix hreads hr, hspan,
    getElem?_of_prefix hmade hn, ?_⟩
  rw [hwritten]
  exact hw

theorem TurnInv.frame {s t : St C} (h : TurnInv cfg isInbound tr s)
    (hf : Frame s t) :
    TurnInv cfg isInbound tr t := by
  have hpushed : pushedCount t = pushedCount s := by
    unfold pushedCount; rw [hf.reqPC, hf.requests]
  have hstarted : startedCount t = startedCount s := by
    unfold startedCount; rw [hf.reqPC, hf.requests]
  have hwritten : writtenCount t = writtenCount s := by
    unfold writtenCount; rw [hf.reqPC, hf.requests]
  have hrec : ∀ e ∈ t.starts, RecordOk cfg isInbound tr t e := fun e he =>
    (h.records e (hf.starts ▸ he)).congr (hf.reads ▸ List.prefix_refl _)
      (hf.made ▸ List.prefix_refl _) hf.written
  refine ⟨?_, ?_, ?_, ?_, ?_, ?_, ?_, ?_, ?_, hrec, ?_, ?_⟩
  · rw [hf.reads, hf.requests]; exact h.reads_length
  · rw [hf.reqPC, hf.requests]; exact h.turn
  · rw [hf.starts, hstarted]; exact h.starts_length
  · rw [hf.written, hwritten]; exact h.written_length
  · exact h.queue_sorted.sublist hf.queue.sublist
  · intro j hj; rw [hpushed]; exact h.queue_lt j (hf.queue.subset hj)
  · rw [hf.reqPC]; exact h.seen
  · rw [hf.reqPC, hstarted, hf.requests, hf.reads]; exact h.untouched
  · rw [hf.starts]; exact h.request_eq
  · rw [hf.reqPC, hf.starts, hf.reads, hf.requests]; exact h.current
  · rw [hf.reqPC, hf.starts]; exact h.inHand

/-- An entry of a list that has just grown is an old one or the new one. -/
theorem getElem?_concat {α : Type} {l : List α} {a b : α} {i : Nat}
    (h : (l ++ [a])[i]? = some b) : l[i]? = some b ∨ i = l.length ∧ b = a := by
  rcases Nat.lt_trichotomy i l.length with hi | hi | hi
  · rw [List.getElem?_append_left hi] at h
    exact .inl h
  · subst hi
    simp only [List.getElem?_concat_length, Option.some.injEq] at h
    exact .inr ⟨rfl, h.symm⟩
  · rw [List.getElem?_eq_none (by simp; omega)] at h
    cases h

/-! ## The request goroutine -/

theorem turnInv_read {s : St C} (h : TurnInv cfg isInbound tr s)
    (hpc : s.reqPC = .reading) (r : Request) (addr : Bytes) :
    TurnInv cfg isInbound tr { s with
      requests := s.requests ++ [r], reads :=
        s.reads ++ [r], remoteAddr := addr,
      addrs := s.addrs ++ [addr], reqPC := .push s.requests.length } := by
  have hs := h.starts_length
  have hw := h.written_length
  simp only [startedCount, writtenCount, hpc] at hs hw
  refine ⟨?_, ?_, ?_, ?_, h.queue_sorted, ?_, ?_, ?_, h.request_eq, ?_, ?_, ?_⟩
  · simp [h.reads_length]
  · intro k hk
    simp only [ReqPC.turn, Option.some.injEq] at hk
    simp [hk]
  · simpa [startedCount] using hs
  · simpa [writtenCount] using hw
  · intro j hj
    have := h.queue_lt j hj
    simpa [pushedCount, hpc] using this
  · intro k q hq
    cases hq
  · intro k hk _
    simp only [ReqPC.turn, Option.some.injEq] at hk
    subst hk
    simp [← h.reads_length]
  · exact fun e he =>
      RecordOk.congr (s := s) (List.prefix_append _ _) (List.prefix_refl _) rfl
      (h.records e he)
  · -- no `StartRequest` of the new turn has happened yet
    intro k e r' span hk he _ _ _
    simp only [ReqPC.turn, Option.some.injEq] at hk
    subst hk
    have := (List.getElem?_eq_some_iff.mp he).1
    dsimp only at this
    omega
  · intro k n hk
    cases hk

theorem turnInv_push {s : St C} (h : TurnInv cfg isInbound tr s) {k : Nat}
    (hpc : s.reqPC = .push k) :
    TurnInv cfg isInbound tr
      { s with
        httpRequests := Queue.push s.httpRequests k, reqPC := .peek k } := by
  have hturn := h.turn k (by rw [hpc]; rfl)
  have hlt : ∀ j ∈ s.httpRequests, j < k := by
    intro j hj
    simpa [pushedCount, hpc] using h.queue_lt j hj
  refine ⟨h.reads_length, ?_, ?_, ?_, ?_, ?_, ?_, ?_, h.request_eq, ?_, ?_,
    fun _ _ hk => by cases hk⟩
  · simpa [ReqPC.turn, hpc] using h.turn
  · simpa [startedCount, hpc] using h.starts_length
  · simpa [writtenCount, hpc] using h.written_length
  · rw [Queue.push, List.pairwise_append]
    refine ⟨h.queue_sorted, List.pairwise_singleton _ _, ?_⟩
    intro a ha b hb
    rw [List.mem_singleton] at hb
    exact hb ▸ hlt a ha
  · intro j hj
    simp only [Queue.push, List.mem_append, List.mem_singleton] at hj
    simp only [pushedCount, hturn]
    rcases hj with hj | rfl
    · have := hlt j hj; omega
    · omega
  · intro k' q hq
    cases hq
  · simpa [ReqPC.turn, startedCount, hpc] using h.untouched
  · exact fun e he =>
      RecordOk.congr (s := s) (List.prefix_refl _) (List.prefix_refl _) rfl
      (h.records e he)
  · simpa [ReqPC.turn, hpc] using h.current

theorem turnInv_peek {s : St C} (h : TurnInv cfg isInbound tr s) {k : Nat}
    (hpc : s.reqPC = .peek k) :
    TurnInv cfg isInbound tr { s with reqPC := .start k s.httpRequests } := by
  have hturn := h.turn k (by rw [hpc]; rfl)
  refine ⟨h.reads_length, ?_, ?_, ?_, h.queue_sorted, ?_, ?_, ?_, h.request_eq,
    ?_, ?_, fun _ _ hk => by cases hk⟩
  · simpa [ReqPC.turn, hpc] using h.turn
  · simpa [startedCount, hpc] using h.starts_length
  · simpa [writtenCount, hpc] using h.written_length
  · simpa [pushedCount, hpc] using h.queue_lt
  · intro k' q hq
    simp only [ReqPC.start.injEq] at hq
    obtain ⟨rfl, rfl⟩ := hq
    refine ⟨h.queue_sorted, fun j hj => ?_⟩
    have := h.queue_lt j hj
    simp only [pushedCount, hpc] at this
    omega
  · simpa [ReqPC.turn, startedCount, hpc] using h.untouched
  · exact fun e he =>
      RecordOk.congr (s := s) (List.prefix_refl _) (List.prefix_refl _) rfl
      (h.records e he)
  · simpa [ReqPC.turn, hpc] using h.current

theorem turnInv_start {s t : St C} (h : TurnInv cfg isInbound tr s) {k : Nat}
    {q : List Nat} (hpc : s.reqPC = .start k q)
    (hstep : start cfg isInbound tr s k q = some t) :
    TurnInv cfg isInbound tr t := by
  have hturn := h.turn k (by rw [hpc]; rfl)
  have hstarts := h.starts_length
  have hwritten := h.written_length
  have hsame := h.untouched k (by rw [hpc]; rfl) (by simp [startedCount, hpc])
  obtain ⟨hsorted, hle⟩ := h.seen k q hpc
  have hlt : ∀ j ∈ s.httpRequests, j < s.requests.length := by
    simpa [pushedCount, hpc] using h.queue_lt
  simp only [startedCount, writtenCount, hpc] at hstarts hwritten
  unfold start at hstep
  split at hstep
  · next hfront =>
      cases hstep
      refine ⟨h.reads_length, ?_, ?_, ?_, h.queue_sorted, ?_, ?_, ?_, ?_,
        ?_, ?_, fun _ _ hk => by cases hk⟩
      · simpa [ReqPC.turn] using hturn
      · simp [startedCount, hstarts]
      · simp [writtenCount, hwritten]
      · simpa [pushedCount] using hlt
      · intro k' q' hq'; cases hq'
      · intro k' hk' hc
        simp only [ReqPC.turn, startedCount, Option.some.injEq] at hk' hc
        omega
      · intro i e he
        rcases getElem?_concat he with he | ⟨rfl, rfl⟩
        · exact h.request_eq i e he
        · exact hstarts.symm
      · intro e he
        rcases List.mem_append.mp he with he | he
        · exact RecordOk.congr (s := s) (List.prefix_refl _)
            (List.prefix_refl _) rfl (h.records e he)
        · rw [List.mem_singleton] at he
          subst he
          exact ⟨hsorted, hle, hfront.symm, fun hu => by cases hu⟩
      · intro k' e r span hk' he hu _ _
        simp only [ReqPC.turn, Option.some.injEq] at hk'
        subst hk'
        rw [List.getElem?_append_right (by omega), hstarts] at he
        simp at he
        subst he
        cases hu
  · next j hfront =>
      split at hstep
      · cases hstep
      · next r hr =>
          cases hstep
          -- if the front is the request of this turn, it is still as it was
          -- read
          have hown : j = k → s.reads[k]? = some r := by
            rintro rfl
            rw [← hsame, hr]
          refine ⟨?_, ?_, ?_, ?_, h.queue_sorted, ?_, ?_, ?_, ?_, ?_, ?_, ?_⟩
          · simp [h.reads_length]
          · simpa [ReqPC.turn] using hturn
          · simp [startedCount, hstarts]
          · simp [writtenCount, hwritten]
          · simpa [pushedCount] using hlt
          · intro k' q' hq'; cases hq'
          · intro k' hk' hc
            simp only [ReqPC.turn, startedCount, Option.some.injEq] at hk' hc
            omega
          · intro i e he
            rcases getElem?_concat he with he | ⟨rfl, rfl⟩
            · exact h.request_eq i e he
            · exact hstarts.symm
          · intro e he
            rcases List.mem_append.mp he with he | he
            · exact RecordOk.congr (s := s) (List.prefix_refl _)
                (List.prefix_append _ _) rfl
                (h.records e he)
            · rw [List.mem_singleton] at he
              subst he
              refine ⟨hsorted, hle, hfront.symm, fun hu => ?_⟩
              simp only [Option.some.injEq] at hu
              subst hu
              refine ⟨r, hown rfl, rfl, List.getElem?_concat_length,
                fun w hw => ?_⟩
              have := (List.getElem?_eq_some_iff.mp hw).1
              dsimp only at this
              omega
          · intro k' e r' span hk' he hu hr' hspan
            simp only [ReqPC.turn, Option.some.injEq] at hk'
            subst hk'
            dsimp only at he
            rw [List.getElem?_append_right (by omega), hstarts] at he
            simp only [Nat.sub_self, List.getElem?_cons_zero,
              Option.some.injEq] at he
            subst he
            simp only [Option.some.injEq] at hu hspan
            subst hu hspan
            have hrr : r' = r := by
              have := hown rfl
              dsimp only at hr'
              rw [this] at hr'
              exact (Option.some.inj hr').symm
            subst hrr
            simp only [List.getElem?_set_self
              (by omega : j < s.requests.length)]
          · intro k' n hk'
            simp only [ReqPC.pushSpan.injEq] at hk'
            obtain ⟨rfl, rfl⟩ := hk'
            refine ⟨_, hstarts ▸ List.getElem?_concat_length, ?_⟩
            rfl

theorem turnInv_pushSpan {s : St C} (h : TurnInv cfg isInbound tr s)
    {k span : Nat} (hpc : s.reqPC = .pushSpan k span) :
    TurnInv cfg isInbound tr { s with
      spans := Queue.push s.spans span, pushed := s.pushed ++ [some span],
      reqPC := .write k } := by
  refine ⟨h.reads_length, ?_, ?_, ?_, h.queue_sorted, ?_, ?_, ?_, h.request_eq,
    ?_, ?_, fun _ _ hk => by cases hk⟩
  · simpa [ReqPC.turn, hpc] using h.turn
  · simpa [startedCount, hpc] using h.starts_length
  · simpa [writtenCount, hpc] using h.written_length
  · simpa [pushedCount, hpc] using h.queue_lt
  · intro k' q hq; cases hq
  · simp [ReqPC.turn, startedCount]
  · exact fun e he =>
      RecordOk.congr (s := s) (List.prefix_refl _) (List.prefix_refl _) rfl
      (h.records e he)
  · simpa [ReqPC.turn, hpc] using h.current

theorem turnInv_write {s : St C} (h : TurnInv cfg isInbound tr s) {k : Nat}
    {r : Request} (hpc : s.reqPC = .write k) (hr : s.requests[k]? = some r) :
    TurnInv cfg isInbound tr
      { s with written := s.written ++ [r], reqPC := .reading } := by
  have hturn := h.turn k (by rw [hpc]; rfl)
  have hstarts := h.starts_length
  have hwritten := h.written_length
  simp only [startedCount, writtenCount, hpc] at hstarts hwritten
  refine ⟨h.reads_length, ?_, ?_, ?_, h.queue_sorted, ?_, ?_, ?_, h.request_eq,
    ?_, ?_, fun _ _ hk => by cases hk⟩
  · intro k' hk'; cases hk'
  · simp [startedCount, hstarts, hturn]
  · simp [writtenCount, hwritten, hturn]
  · simpa [pushedCount, hpc] using h.queue_lt
  · intro k' q hq; cases hq
  · intro k' hk'; cases hk'
  · intro e he
    obtain ⟨hsorted, hle, hused, hown⟩ := h.records e he
    refine ⟨hsorted, hle, hused, fun hu => ?_⟩
    obtain ⟨i, hi⟩ := List.mem_iff_getElem?.mp he
    have hie := h.request_eq i e hi
    obtain ⟨r', hr', hspan, hn, hw⟩ := hown hu
    refine ⟨r', hr', hspan, hn, fun w hw' => ?_⟩
    rcases getElem?_concat hw' with hw' | ⟨hlen, rfl⟩
    · exact hw w hw'
    · -- the request written now is the one of the current turn
      rw [hlen, hwritten] at hr' hu
      have hk : i = k := by rw [← hie, hlen, hwritten]
      subst hk
      have := h.current i e r' _ (by rw [hpc]; rfl) hi hu hr' hspan
      rw [hr] at this
      exact Option.some.inj this
  · intro k' e r' span hk'; cases hk'

theorem turnInv_reqStep {s t : St C} (h : TurnInv cfg isInbound tr s)
    (hstep : reqStep cfg isInbound tr s = some t) :
    TurnInv cfg isInbound tr t := by
  unfold reqStep at hstep
  split at hstep
  · cases hstep
  · next k hpc => cases hstep; exact turnInv_push h hpc
  · next k hpc => cases hstep; exact turnInv_peek h hpc
  · next k q hpc => exact turnInv_start h hpc hstep
  · next k span hpc => cases hstep; exact turnInv_pushSpan h hpc
  · next k hpc =>
      split at hstep
      · cases hstep
      · next r hr => cases hstep; exact turnInv_write h hpc hr

/-- One action keeps the invariant. -/
theorem turnInv_step {s t : St C} (h : TurnInv cfg isInbound tr s)
    (hstep : Step cfg isInbound tr s t) : TurnInv cfg isInbound tr t := by
  obtain ⟨a, ha⟩ := hstep
  cases a with
  | readRequest r addr uuid =>
      simp only [step] at ha
      split at ha
      · next hpc => cases ha; exact turnInv_read h hpc _ addr
      · cases ha
  | reqStep => exact turnInv_reqStep h ha
  | readResponse resp =>
      simp only [step] at ha
      split at ha
      · cases ha
        exact h.frame ⟨rfl, rfl, rfl, rfl, rfl, rfl, List.suffix_refl _⟩
      · cases ha
  | respStep => exact h.frame (respStep_frame ha)
  | setCache key ctx =>
      cases ha
      exact h.frame ⟨rfl, rfl, rfl, rfl, rfl, rfl, List.suffix_refl _⟩
  | expire key =>
      cases ha
      exact h.frame ⟨rfl, rfl, rfl, rfl, rfl, rfl, List.suffix_refl _⟩

theorem turnInv_init : TurnInv cfg isInbound tr ({} : St C) := by
  refine ⟨rfl, ?_, rfl, rfl, List.Pairwise.nil, ?_, ?_, ?_, ?_, ?_, ?_, ?_⟩
  all_goals simp [ReqPC.turn]

/-- Every reachable state satisfies the invariant of the request loop. -/
theorem turnInv_reaches {s : St C} (h : Reaches (Step cfg isInbound tr) {} s) :
    TurnInv cfg isInbound tr s :=
  h.invariant (fun _ _ => turnInv_step) turnInv_init

/-! ## The theorem -/

/-- An increasing queue with nothing past `k` has `k` at its front only if `k`
is all it holds. -/
theorem eq_singleton_of_front {q : List Nat} {k : Nat}
    (hsorted : q.Pairwise (· < ·)) (hle : ∀ j ∈ q, j ≤ k)
    (hfront : q.head? = some k) : q = [k] := by
  cases q with
  | nil => cases hfront
  | cons a q =>
      simp only [List.head?_cons, Option.some.injEq] at hfront
      subst hfront
      rw [List.pairwise_cons] at hsorted
      cases q with
      | nil => rfl
      | cons b q =>
          have h1 := hsorted.1 b (by simp)
          have h2 := hle b (by simp)
          omega

/-! ## The moments of a run

What `StartRequest` does for a request spreads over three actions of the request
goroutine: it makes the span and writes the cache, it pushes the span, and
behind it the request is written. -/

/-- The histories only grow. -/
structure Extends (s t : St C) : Prop where
  reads : s.reads <+: t.reads
  starts : s.starts <+: t.starts
  made : s.made <+: t.made

theorem Extends.trans {s t u : St C} (h : Extends s t) (h' : Extends t u) :
    Extends s u :=
  ⟨h.reads.trans h'.reads, h.starts.trans h'.starts, h.made.trans h'.made⟩

theorem Extends.of_eq {s t : St C} (hr : t.reads = s.reads)
    (hs : t.starts = s.starts) (hm : t.made = s.made) : Extends s t :=
  ⟨hr ▸ List.prefix_refl _, hs ▸ List.prefix_refl _, hm ▸ List.prefix_refl _⟩

theorem reqStep_extends {s t : St C} (h : reqStep cfg isInbound tr s = some t) :
    Extends s t := by
  unfold reqStep at h
  split at h
  case h_1 => cases h
  case h_2 | h_3 | h_5 => cases h; exact .of_eq rfl rfl rfl
  case h_4 =>
    unfold start at h
    split at h
    · cases h; exact ⟨List.prefix_refl _, List.prefix_append _ _,
        List.prefix_refl _⟩
    · split at h
      · cases h
      · cases h; exact ⟨List.prefix_refl _, List.prefix_append _ _,
          List.prefix_append _ _⟩
  case h_6 =>
    split at h
    · cases h
    · cases h; exact .of_eq rfl rfl rfl

theorem step_extends {s t : St C} {a : Act C}
    (h : step cfg isInbound tr s a = some t) :
    Extends s t := by
  cases a with
  | readRequest r addr uuid =>
    simp only [step] at h
    split at h
    · cases h; exact ⟨List.prefix_append _ _, List.prefix_refl _,
        List.prefix_refl _⟩
    · cases h
  | reqStep => exact reqStep_extends h
  | readResponse resp =>
    simp only [step] at h
    split at h
    · cases h; exact .of_eq rfl rfl rfl
    · cases h
  | respStep =>
    have hf := respStep_frame h
    exact .of_eq hf.reads hf.starts hf.made
  | setCache key ctx => cases h; exact .of_eq rfl rfl rfl
  | expire key => cases h; exact .of_eq rfl rfl rfl

theorem extends_of_reaches {s t : St C}
    (h : Reaches (Step cfg isInbound tr) s t) :
    Extends s t := by
  refine h.invariant (P := Extends s) ?_ (.of_eq rfl rfl rfl)
  rintro t u ht ⟨a, ha⟩
  exact ht.trans (step_extends ha)

section Moments

variable (cfg isInbound tr)

/-- The `k`-th request read in the run is `r`; it was edited with the cache as
it stood then, and with `uuid` for an id if it brought none. -/
def ReadsAs (acts : List (Act C)) (k : Nat) (r : Request)
    (cache : List (Bytes × C)) (uuid : Bytes) : Prop :=
  ∃ s t addr, Takes (step cfg isInbound tr) {} acts s
    (.readRequest r addr uuid) t ∧ s.requests.length = k ∧ s.cache = cache

/-- In the run, `StartRequest` goes to work for the `k`-th request in the state
`s`, with the queue `q` as its `Peek` found it, and has made its span in the
state `t`. -/
structure Calls (acts : List (Act C)) (k : Nat) (q : List Nat) (s t : St C) :
    Prop where
  taken : Takes (step cfg isInbound tr) {} acts s .reqStep t
  pc : s.reqPC = .start k q

/-- What `StartRequest` found is the `k`-th request, and from it comes all it
does: the span that is created, which is the one that is pushed, the entry of
`tracingContextMapping` that an inbound connection writes, and the header fields
with which the request is written. -/
def MadeFromOwn (acts : List (Act C)) (k : Nat) (q : List Nat) (s t : St C) :
    Prop :=
  Queue.peek q = some k ∧
  ∃ r cache uuid span, ReadsAs cfg isInbound tr acts k r cache uuid ∧
    let r' := editRequest cfg isInbound tr cache uuid r
    t.made = s.made ++ [span] ∧
    span.operation = operation isInbound r' ∧
    span.parent = tr.extract s.made.length r'.header ∧
    t.cache = (if isInbound then (cfg.requestId r'.header,
      span.context) :: s.cache
      else s.cache) ∧
    (∀ u v n, Takes (step cfg isInbound tr) {} acts u .reqStep v →
      u.reqPC = .pushSpan k n →
      v.spans = u.spans ++ [n] ∧ v.made[n]? = some span) ∧
    ∀ u v, Takes (step cfg isInbound tr) {} acts u .reqStep v →
      u.reqPC = .write k → v.written =
        u.written ++
        [{ r' with header := injectHeader isInbound tr span r'.header }]

end Moments

section Runs

variable {acts : List (Act C)} {k : Nat} {q : List Nat} {s t e : St C}

/-- Only a read adds to the requests that were read. -/
theorem reads_cases {a : Act C} (h : step cfg isInbound tr s a = some t) :
    t.reads = s.reads ∨ ∃ r addr uuid, a = .readRequest r addr uuid ∧
      t.reads = s.reads ++ [editRequest cfg isInbound tr s.cache uuid r] := by
  cases a with
  | readRequest r addr uuid =>
    simp only [step] at h
    split at h
    · cases h; exact .inr ⟨r, addr, uuid, rfl, rfl⟩
    · cases h
  | reqStep =>
    refine .inl ?_
    replace h : reqStep cfg isInbound tr s = some t := h
    unfold reqStep start at h
    split at h
    case h_1 => cases h
    case h_2 | h_3 | h_5 => cases h; rfl
    case h_4 =>
      split at h
      · cases h; rfl
      · split at h
        · cases h
        · cases h; rfl
    case h_6 =>
      split at h
      · cases h
      · cases h; rfl
  | readResponse resp =>
    simp only [step] at h
    split at h
    · cases h; exact .inl rfl
    · cases h
  | respStep => exact .inl (respStep_frame h).reads
  | setCache key ctx => cases h; exact .inl rfl
  | expire key => cases h; exact .inl rfl

/-- Every request in the history was read at some moment of the run. -/
theorem readsAs_of_getElem
    (hrun : exec (step cfg isInbound tr) {} acts = some e) {r' : Request}
    (hr : e.reads[k]? = some r') :
    ∃ r cache uuid, ReadsAs cfg isInbound tr acts k r cache uuid ∧
      r' = editRequest cfg isInbound tr cache uuid r := by
  induction acts using List.reverseRecOn generalizing e with
  | nil =>
    cases hrun
    cases hr
  | append_singleton acts a ih =>
    obtain ⟨s, hs, ha⟩ := exec_concat hrun
    have hkeep : s.reads[k]? = some r' →
        ∃ r cache uuid, ReadsAs cfg isInbound tr (acts ++ [a]) k r cache uuid ∧
          r' = editRequest cfg isInbound tr cache uuid r := by
      intro hr
      obtain ⟨r, cache, uuid, ⟨u, v, addr, htakes, hread⟩, heq⟩ := ih hs hr
      exact ⟨r, cache, uuid, ⟨u, v, addr, htakes.concat a, hread⟩, heq⟩
    rcases reads_cases ha with hsame | ⟨r, addr, uuid, rfl, hgrown⟩
    · exact hkeep (hsame ▸ hr)
    · rw [hgrown] at hr
      rcases getElem?_concat hr with hr | ⟨hk, rfl⟩
      · exact hkeep hr
      · have hlength := (turnInv_reaches (reaches_of_exec hs)).reads_length
        exact ⟨r, _, uuid, ⟨s, e, addr,
          takes_last hs ha, by rw [hk, hlength], rfl⟩, rfl⟩

theorem ReadsAs.getElem {r : Request} {cache : List (Bytes × C)} {uuid : Bytes}
    (h : ReadsAs cfg isInbound tr acts k r cache uuid)
    (hrun : exec (step cfg isInbound tr) {} acts = some e) :
    e.reads[k]? = some (editRequest cfg isInbound tr cache uuid r) := by
  obtain ⟨u, v, addr, htakes, rfl, rfl⟩ := h
  refine getElem?_of_prefix (extends_of_reaches
    (htakes.remaining hrun)).reads ?_
  rw [← (turnInv_reaches htakes.reached).reads_length]
  have hv := htakes.next_eq
  simp only [step] at hv
  split at hv
  · cases hv
    exact List.getElem?_concat_length
  · cases hv

/-- The record that a call leaves. -/
theorem Calls.recorded (h : Calls cfg isInbound tr acts k q s t)
    (hrun : exec (step cfg isInbound tr) {} acts = some e) :
    ∃ rec, e.starts[k]? = some rec ∧ rec.request = k ∧ rec.queue = q ∧
      rec.used = Queue.peek q ∧ rec.seq = s.made.length := by
  have hinv := turnInv_reaches h.taken.reached
  have hlength : s.starts.length = k := by
    rw [hinv.starts_length, startedCount, h.pc]
  have hkeep : ∀ {rec}, t.starts[k]? = some rec → e.starts[k]? = some rec :=
    getElem?_of_prefix (extends_of_reaches (h.taken.remaining hrun)).starts
  have hstep : reqStep cfg isInbound tr s = some t := h.taken.next_eq
  rw [reqStep, h.pc] at hstep
  dsimp only at hstep
  unfold start at hstep
  split at hstep
  · next hpeek =>
      cases hstep
      exact ⟨_, hkeep (hlength ▸ List.getElem?_concat_length), rfl, rfl,
        hpeek.symm, rfl⟩
  · next j hpeek =>
      split at hstep
      · cases hstep
      · cases hstep
        exact ⟨_, hkeep (hlength ▸ List.getElem?_concat_length), rfl, rfl,
          hpeek.symm, rfl⟩

/-- A call that finds the request it is for makes everything from it. -/
theorem Calls.madeFromOwn (h : Calls cfg isInbound tr acts k q s t)
    (hrun : exec (step cfg isInbound tr) {} acts = some e)
    (hpeek : Queue.peek q = some k) :
    MadeFromOwn cfg isInbound tr acts k q s t := by
  obtain ⟨rec, hrec, hrequest, hqueue, hused, hseq⟩ := h.recorded hrun
  rw [hpeek] at hused
  have hend := turnInv_reaches (reaches_of_exec hrun)
  obtain ⟨r', hr', hspan, hmade, _⟩ :=
    (hend.records rec (List.mem_of_getElem? hrec)).own (by rw [hused, hrequest])
  rw [hrequest] at hr'
  rw [hseq] at hspan hmade
  obtain ⟨r, cache, uuid, hread, rfl⟩ := readsAs_of_getElem hrun hr'
  -- what the step itself does, with the request as it still stands in the
  -- memory
  have hs := turnInv_reaches h.taken.reached
  have hsame := hs.untouched k
    (by rw [h.pc]; rfl) (by simp [startedCount, h.pc])
  have hstep : reqStep cfg isInbound tr s = some t := h.taken.next_eq
  rw [reqStep, h.pc] at hstep
  dsimp only at hstep
  unfold start at hstep
  rw [hpeek] at hstep
  dsimp only at hstep
  split at hstep
  · cases hstep
  · next rk hk =>
      obtain rfl : rk = editRequest cfg isInbound tr cache uuid r := by
        have hgo : Extends s e :=
          (step_extends h.taken.next_eq).trans
            (extends_of_reaches (h.taken.remaining hrun))
        have hke := getElem?_of_prefix hgo.reads (hsame ▸ hk)
        rw [hr'] at hke
        exact (Option.some.inj hke).symm
      cases hstep
      refine ⟨hpeek, r, cache, uuid, _, hread, rfl, rfl, rfl, rfl, ?_, ?_⟩
      · intro u v n htakes hpc
        obtain ⟨rec', hrec', hn⟩ :=
          (turnInv_reaches htakes.reached).inHand k n hpc
        have hgo : Extends u e :=
          (step_extends htakes.next_eq).trans
            (extends_of_reaches (htakes.remaining hrun))
        have hke := getElem?_of_prefix hgo.starts hrec'
        rw [hrec] at hke
        cases hke
        have hv : reqStep cfg isInbound tr u = some v := htakes.next_eq
        rw [reqStep, hpc] at hv
        cases hv
        refine ⟨rfl, ?_⟩
        rw [← hn, hseq]
        obtain ⟨_, _, _, hm, _⟩ := ((turnInv_reaches htakes.reached).records rec
          (List.mem_of_getElem? hrec')).own (by rw [hused, hrequest])
        have hme := getElem?_of_prefix hgo.made hm
        rw [hseq, hmade] at hme
        rw [hseq] at hm
        rw [hm, ← hme]
      · intro u v htakes hpc
        have hu := turnInv_reaches htakes.reached
        have hgo : Extends u e :=
          (step_extends htakes.next_eq).trans
            (extends_of_reaches (htakes.remaining hrun))
        have hlt : k < u.starts.length := by
          rw [hu.starts_length, startedCount, hpc]
          exact Nat.lt_succ_self k
        have hrecu : u.starts[k]? = some rec := by
          have hke := getElem?_of_prefix hgo.starts
            (List.getElem?_eq_getElem hlt)
          rw [hrec] at hke
          rw [List.getElem?_eq_getElem hlt, hke]
        obtain ⟨ru, hru, hspanu, _, _⟩ :=
          (hu.records rec (List.mem_of_getElem? hrecu)).own
            (by rw [hused, hrequest])
        rw [hrequest] at hru
        have hre := getElem?_of_prefix hgo.reads hru
        rw [hr'] at hre
        cases hre
        rw [hseq] at hspanu
        have hcur :=
          hu.current k rec _ _ (by rw [hpc]; rfl) hrecu hused hru hspanu
        have hv : reqStep cfg isInbound tr u = some v := htakes.next_eq
        rw [reqStep, hpc] at hv
        dsimp only at hv
        rw [hcur] at hv
        cases hv
        rfl

/-- The whole span of a request that was found alone: it is made at the call,
and it stays. -/
theorem Calls.span_made (h : Calls cfg isInbound tr acts k [k] s t)
    (hrun : exec (step cfg isInbound tr) {} acts = some e) {r : Request}
    {cache : List (Bytes × C)} {uuid : Bytes}
    (hread : ReadsAs cfg isInbound tr acts k r cache uuid) :
    t.made = s.made ++ [startSpan cfg isInbound tr s.made.length
        (editRequest cfg isInbound tr cache uuid r)] ∧
      e.made[s.made.length]? = some (startSpan cfg isInbound tr s.made.length
        (editRequest cfg isInbound tr cache uuid r)) := by
  obtain ⟨rec, hrec, hrequest, _, hused, hseq⟩ := h.recorded hrun
  obtain ⟨r', hr', _, hmade, _⟩ :=
    ((turnInv_reaches (reaches_of_exec hrun)).records rec
    (List.mem_of_getElem? hrec)).own (by rw [hused, hrequest]; rfl)
  rw [hrequest, hread.getElem hrun] at hr'
  cases hr'
  rw [hseq] at hmade
  refine ⟨?_, hmade⟩
  obtain ⟨_, _, _, _, span, _, hspan, _⟩ := h.madeFromOwn hrun rfl
  have hlast := getElem?_of_prefix
    (extends_of_reaches (h.taken.remaining hrun)).made
    (i := s.made.length) (a :=
      span) (by rw [hspan]; exact List.getElem?_concat_length)
  rw [hmade] at hlast
  rw [hspan, ← Option.some.inj hlast]

/-- How it is written. -/
theorem Calls.written (h : Calls cfg isInbound tr acts k [k] s t)
    (hrun : exec (step cfg isInbound tr) {} acts = some e) {r w : Request}
    {cache : List (Bytes × C)} {uuid : Bytes}
    (hread : ReadsAs cfg isInbound tr acts k r cache uuid)
    (hw : e.written[k]? = some w) :
    w = { editRequest cfg isInbound tr cache uuid r with
      header := injectHeader isInbound tr
        (startSpan cfg isInbound tr s.made.length
          (editRequest cfg isInbound tr cache uuid r))
        (editRequest cfg isInbound tr cache uuid r).header } := by
  obtain ⟨rec, hrec, hrequest, _, hused, hseq⟩ := h.recorded hrun
  obtain ⟨r', hr', _, _, hwritten⟩ :=
    ((turnInv_reaches (reaches_of_exec hrun)).records rec
    (List.mem_of_getElem? hrec)).own (by rw [hused, hrequest]; rfl)
  rw [hrequest, hread.getElem hrun] at hr'
  cases hr'
  rw [hrequest, hseq] at hwritten
  exact hwritten w hw

/-- Along every run, all spans are made from their own requests exactly if
`StartRequest` always found the request it was called for alone in the queue:
every earlier request popped, its own not yet. -/
theorem spans_made_from_own_iff
    (hrun : exec (step cfg isInbound tr) {} acts = some e) :
    (∀ k q s t, Calls cfg isInbound tr acts k q s t →
        MadeFromOwn cfg isInbound tr acts k q s t) ↔
      ∀ k q s t, Calls cfg isInbound tr acts k q s t → q = [k] := by
  constructor
  · intro hown k q s t hcall
    obtain ⟨hsorted, hle⟩ :=
      (turnInv_reaches hcall.taken.reached).seen k q hcall.pc
    exact eq_singleton_of_front hsorted hle (hown k q s t hcall).1
  · intro hq k q s t hcall
    refine hcall.madeFromOwn hrun ?_
    rw [hq k q s t hcall]
    rfl

end Runs

/-- The first turn of a connection, from its read to its write. -/
theorem first_turn (cfg : HTTPConfig) (isInbound : Bool) (tr : Tracer C)
    (r : Request) (addr uuid : Bytes) :
    ∃ acts s t e, exec (step cfg isInbound tr) {} acts = some e ∧
      ReadsAs cfg isInbound tr acts 0 r [] uuid ∧
        Calls cfg isInbound tr acts 0 [0] s t ∧
      s.made = [] ∧
      e.written[0]? = some { editRequest cfg isInbound tr [] uuid r with
        header := injectHeader isInbound tr
          (startSpan cfg isInbound tr 0
            (editRequest cfg isInbound tr [] uuid r))
          (editRequest cfg isInbound tr [] uuid r).header } := by
  have hrun : ∃ s t e, exec (step cfg isInbound tr) {}
        (.readRequest r addr uuid :: List.replicate 5 .reqStep) = some e ∧
      exec (step cfg isInbound tr) {}
        (.readRequest r addr uuid :: List.replicate 2 .reqStep) =
        some s ∧
      step cfg isInbound tr s .reqStep = some t ∧ s.reqPC = .start 0 [0] ∧
        s.made = [] ∧
      e.written = [{ editRequest cfg isInbound tr [] uuid r with
        header := injectHeader isInbound tr
          (startSpan cfg isInbound tr 0
            (editRequest cfg isInbound tr [] uuid r))
          (editRequest cfg isInbound tr [] uuid r).header }] :=
    ⟨_, _, _, rfl, rfl, rfl, rfl, rfl, rfl⟩
  obtain ⟨s, t, e, hrun, hs, ht, hpc, hmade, hwritten⟩ := hrun
  refine ⟨_, s, t, e, hrun, ⟨{}, _, addr, ⟨[], _, rfl, rfl, rfl⟩, rfl, rfl⟩,
    ⟨?_, hpc⟩, hmade, ?_⟩
  · exact ⟨_, List.replicate 2 .reqStep, rfl, hs, ht⟩
  · rw [hwritten]
    rfl

/-! ## A client that waits for its answer

The response is flushed to the client before the request it answers is popped.
A client may send its second request in between. -/

/-- A tracer whose contexts are byte strings, carried as they stand. -/
def plainTracer : Tracer Bytes where
  extract _ h :=
    if h.get traceContextHeaderName = [] then none
      else some (h.get traceContextHeaderName)
  newContext n parent := parent.getD [] ++ lit "/" ++ itoa n
  text c := c

/-- One turn of the request loop, and one of the response loop,
uninterrupted. -/
def requestTurn (path : Bytes) : List (Act Bytes) :=
  [.readRequest (plainRequest path) (lit "10.0.0.1:80") (lit "id" ++ path)] ++
    List.replicate 5 .reqStep

def responseTurn (code : Nat) : List (Act Bytes) :=
  .readResponse (plainResponse code) :: List.replicate 7 .respStep

/-- The answer to `/a` has reached the client, which now sends `/b`; only then
is `/a` popped. -/
def eagerClient : List (Act Bytes) :=
  requestTurn (lit "/a") ++ (responseTurn 200).take 3 ++ requestTurn (lit "/b")

/-- The same exchange with the pop in time. -/
def patientClient : List (Act Bytes) :=
  requestTurn (lit "/a") ++ responseTurn 200 ++ requestTurn (lit "/b")

theorem eager_client_spoils_span :
    ¬ ∀ (acts : List (Act Bytes)) (e : St Bytes),
      exec (step HTTPConfig.default true plainTracer) {} acts = some e →
      ∀ k q s t, Calls HTTPConfig.default true plainTracer acts k q s t →
        MadeFromOwn HTTPConfig.default true plainTracer acts k q s t := by
  intro h
  have hex : ∃ e, exec (step HTTPConfig.default true plainTracer)
    {} eagerClient = some e ∧
      ∃ s, exec (step HTTPConfig.default true plainTracer) {}
        (eagerClient.take 12) = some s ∧ s.reqPC = .start 1 [0, 1] ∧
        ∃ t, step HTTPConfig.default true plainTracer s .reqStep = some t :=
    ⟨_, rfl, _, rfl, by decide +kernel, _, rfl⟩
  obtain ⟨e, hrun, s, hs, hpc, t, ht⟩ := hex
  have hcall : Calls HTTPConfig.default true plainTracer eagerClient 1 [0,
      1] s t :=
    ⟨⟨_, _, (List.take_append_drop 12 eagerClient).symm, hs, ht⟩, hpc⟩
  exact absurd (h eagerClient e hrun 1 _ s t hcall).1 (by decide)

/-- At its call, `StartRequest` has the request it is for alone before it. -/
def foundAlone : ReqPC → Bool
  | .start k q => q == [k]
  | _ => true

theorem spans_made_from_own_patient :
    ∃ e, exec (step HTTPConfig.default true plainTracer) {} patientClient =
      some e ∧ e.made.length = 2 ∧
      ∀ k q s t, Calls HTTPConfig.default true plainTracer patientClient k
        q s t →
        MadeFromOwn HTTPConfig.default true plainTracer patientClient k q s
          t := by
  have hex : ∃ e, exec (step HTTPConfig.default true plainTracer)
    {} patientClient = some e ∧
      e.made.length = 2 :=
    ⟨_, rfl, by decide +kernel⟩
  have halone : ∀ n < patientClient.length,
      ((exec (step HTTPConfig.default true plainTracer) {}
        (patientClient.take n)).all
        fun s => foundAlone s.reqPC) = true := by
    decide +kernel
  obtain ⟨e, hrun, hlen⟩ := hex
  refine ⟨e, hrun, hlen,
    (spans_made_from_own_iff hrun).mpr fun k q s t hcall => ?_⟩
  obtain ⟨n, hn, hs⟩ := hcall.taken.exec_take
  have hat := halone n hn
  rw [hs, Option.all_some, hcall.pc] at hat
  exact eq_of_beq hat

end Netramesh.Proofs
