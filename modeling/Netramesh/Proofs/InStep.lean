import Netramesh.Proofs.Broken
import Netramesh.Proofs.Moves

/-!
# The client keeps step

One goroutine runs the response routines of a client connection one after
another, and none of them says how it ended. As long as every routine but the
last one started has delivered a whole answer, this does no harm: the client has
received answers, in order, and then the beginning of one. A routine that was
cut off and is followed by another leaves the client in the middle of an answer,
and what comes next is read as the rest of it.
-/

namespace Netramesh.Proofs

open Http Protocol Transport Net Lib

/-! ## The condition -/

/-- The target sends a whole answer. -/
def Completes (t : Target) : Prop := ∃ ms f rest, Whole t ms f rest

/-- When a routine is started, every target before it has sent a whole answer,
and its own sends one, or one that breaks off. -/
def WholeBefore (targets : Nat → Target) (s : RoutedHttp) : RoutedHttpAct → Prop
  | .act .call => s.st.callPC = .recv → ∀ t rest, s.st.callCh = t :: rest →
      (∀ k ∈ s.st.ran, Completes (targets k)) ∧
        (Completes (targets t) ∨ Breaks (targets t))
  | _ => True

/-- Behind a routine that returned without having delivered an answer no other
writes anything; and what the client has received begins a sequence of answers,
one for each routine. -/
structure InStep (targets : Nat → Target) (s : RoutedHttp) : Prop where
  failed : ∀ k < s.st.ran.length, s.st.callPC ≠ .run k →
    ¬ Settles (targets k).method (s.st.emittedBy k) → ∀ j, k < j →
      s.st.emittedBy j = []
  wellFormed : ∃ more, AnswersTo
    ((List.range s.st.ran.length).map fun k => (targets k).method)
    (s.st.client ++ more)

/-! ## Answers in a row -/

/-- Whole answers and then the beginning of one begin a sequence of answers. -/
theorem answersTo_of_sent {method out sent : Nat → Bytes} {ks : List Nat}
    (hpair : ks.Pairwise fun i j => Settles (method i) (out i) ∧
      (sent j ≠ [] → sent i = out i))
    (hbegins : ∀ k ∈ ks, Begins (method k) (out k))
    (hsent : ∀ k ∈ ks, sent k <+: out k) :
    ∃ more, AnswersTo (ks.map method) (ks.flatMap sent ++ more) := by
  induction ks with
  | nil => exact ⟨[], .nil⟩
  | cons k ks ih =>
    obtain ⟨hk, hpair⟩ := List.pairwise_cons.mp hpair
    obtain ⟨more, hmore⟩ := ih hpair
      (fun j hj => hbegins j (List.mem_cons_of_mem _ hj))
      (fun j hj => hsent j (List.mem_cons_of_mem _ hj))
    rw [List.map_cons, List.flatMap_cons]
    cases ks with
    | nil =>
      obtain ⟨more, hmore⟩ := (hbegins k List.mem_cons_self).shorten
        (hsent k List.mem_cons_self)
      exact ⟨more, by rw [List.flatMap_nil,
        List.append_nil]; exact .cons hmore .nil⟩
    | cons j js =>
      have hsettles := (hk j List.mem_cons_self).1
      by_cases hfull : sent k = out k
      · refine ⟨more, .cons ?_ hmore⟩
        rw [hfull, List.append_assoc]
        exact hsettles _
      · -- nothing came behind it, so it may still be completed
        have hnil : (j :: js).flatMap sent = [] := by
          rw [List.flatMap_eq_nil_iff]
          intro i hi
          by_contra hne
          exact hfull ((hk i hi).2 hne)
        obtain ⟨x, hx⟩ := hsent k List.mem_cons_self
        rw [hnil, List.nil_append] at hmore
        refine ⟨x ++ more, .cons ?_ hmore⟩
        rw [hnil, List.append_nil, ← List.append_assoc, hx]
        exact hsettles _

/-! ## Runs -/

section Runs

variable {c : Conf} {targets : Nat → Target}

/-- What the routines have written, as long as the condition is met. -/
structure Orders (targets : Nat → Target) (s : RoutedHttp) : Prop where
  earlier : ∀ k, k + 1 < s.st.ran.length → Completes (targets k)
  each : ∀ k < s.st.ran.length, Completes (targets k) ∨ Breaks (targets k)
  sent : ∀ k, s.st.emittedBy k <+: (targets k).out
  full : s.gone = false → s.st.clientOpen = true →
    ∀ k < s.st.ran.length, s.st.callPC ≠ .run k →
    s.st.emittedBy k = (targets k).out
  behind : ∀ j k, j < k → s.st.emittedBy k ≠ [] →
    s.st.emittedBy j = (targets j).out

theorem orders_init : Orders targets { st := init c } := by
  have hran : (init c).ran = [] ∧ (init c).emitted = [] := by
    unfold init
    split <;> exact ⟨rfl, rfl⟩
  have hnone : ∀ k, (init c).emittedBy k = [] := by
    intro k
    rw [St.emittedBy, hran.2]
    rfl
  refine ⟨?_, ?_, ?_, ?_, ?_⟩
  · intro k hk
    rw [hran.1] at hk
    cases hk
  · intro k hk
    rw [hran.1] at hk
    cases hk
  · intro k
    rw [hnone]
    exact List.nil_prefix
  · intro _ _ k hk
    rw [hran.1] at hk
    cases hk
  · intro j k _ hne
    exact absurd (hnone k) hne

/-- Most actions write nothing and start nothing. -/
theorem Orders.frame {s t : RoutedHttp} (h : Orders targets s)
    (hran : t.st.ran = s.st.ran) (hemitted : t.st.emitted = s.st.emitted)
    (hfull : t.gone = false → t.st.clientOpen = true → ∀ k < s.st.ran.length,
      t.st.callPC ≠ .run k → s.st.emittedBy k = (targets k).out) :
    Orders targets t := by
  have hby : ∀ k, t.st.emittedBy k = s.st.emittedBy k := by
    intro k
    rw [St.emittedBy, hemitted]
    rfl
  refine ⟨?_, ?_, ?_, ?_, ?_⟩
  · rw [hran]
    exact h.earlier
  · rw [hran]
    exact h.each
  · intro k
    rw [hby]
    exact h.sent k
  · intro hgone hopen k hk hpc
    rw [hran] at hk
    rw [hby]
    exact hfull hgone hopen k hk hpc
  · intro j k hjk hne
    rw [hby] at hne ⊢
    exact h.behind j k hjk hne

/-- A routine that is started. -/
theorem Orders.start {s : RoutedHttp} {t : Nat} {rest : List Nat}
    (h : Orders targets s) (hq : Queued s.st) (hpc : s.st.callPC = .recv)
    (hch : s.st.callCh = t :: rest) (hor : WholeBefore targets s (.act .call)) :
    Orders targets { s with st := { s.st with
      callCh := rest, ran := s.st.ran ++ [t], callPC := .run t } } := by
  obtain ⟨hall, ht⟩ := hor hpc t rest hch
  have horder := hq.order
  rw [hch] at horder
  have hnum : ∀ k, k < s.st.ran.length → k ∈ s.st.ran := by
    intro k hk
    have hget : (s.st.ran ++ t :: rest)[k]? = some s.st.ran[k] := by
      rw [List.getElem?_append_left hk, List.getElem?_eq_getElem hk]
    rw [horder] at hget
    have hval := (List.getElem?_eq_some_iff.mp hget).2
    rw [List.getElem_range] at hval
    rw [hval]
    exact List.getElem_mem hk
  have hlast : t = s.st.ran.length := by
    have hget : (s.st.ran ++ t :: rest)[s.st.ran.length]? = some t := by simp
    rw [horder] at hget
    simpa using ((List.getElem?_eq_some_iff.mp hget).2).symm
  refine ⟨?_, ?_, h.sent, ?_, h.behind⟩
  · intro k hk
    rw [List.length_append, List.length_singleton] at hk
    exact hall k (hnum k (by omega))
  · intro k hk
    rw [List.length_append, List.length_singleton] at hk
    rcases Nat.lt_succ_iff_lt_or_eq.mp hk with hk | rfl
    · exact h.each k hk
    · rw [← hlast]
      exact ht
  · intro hgone hopen k hk hrun
    rw [List.length_append, List.length_singleton] at hk
    refine h.full hgone hopen k ?_ (by rw [hpc]; simp)
    have : k ≠ t := fun hkt => hrun (by rw [hkt])
    omega

/-- What the running routine writes. -/
theorem Orders.emit {s : RoutedHttp} {t : Nat} {b : Bytes}
    (h : Orders targets s) (hq : Queued s.st) (hl : Logged s.st)
    (hpc : s.st.callPC = .run t) (hopen : s.st.clientOpen = true)
    (hgets : s.gets targets (.emit b) = true) :
    Orders targets { s with
      st := { s.st with emitted := s.st.emitted ++ [(t, b)] } } := by
  rw [RoutedHttp.gets, hpc] at hgets
  simp only [Bool.and_eq_true, Bool.not_eq_true',
    List.isPrefixOf_iff_prefix] at hgets
  obtain ⟨hgone, hsent⟩ := hgets
  have hlen := hq.running t hpc
  have hself : entriesAt (s.st.emitted ++ [(t, b)]) t =
      s.st.emittedBy t ++ b := by
    rw [entriesAt_append]
    simp [entriesAt, St.emittedBy]
  have hother : ∀ k, k ≠ t → entriesAt (s.st.emitted ++ [(t, b)]) k =
      s.st.emittedBy k := by
    intro k hk
    rw [entriesAt_append]
    simp [entriesAt, St.emittedBy, Ne.symm hk]
  have hfull : ∀ j, j < t → s.st.emittedBy j = (targets j).out := fun j hj =>
    h.full hgone hopen j (by omega) (by rw [hpc]; intro heq; cases heq; omega)
  refine ⟨h.earlier, h.each, ?_, ?_, ?_⟩
  · intro k
    show entriesAt _ k <+: _
    by_cases hk : k = t
    · rw [hk, hself]
      exact hsent
    · rw [hother k hk]
      exact h.sent k
  · intro _ _ k hk hrun
    have hkt : k ≠ t := fun heq => hrun (by rw [heq]; exact hpc)
    show entriesAt _ k = _
    rw [hother k hkt]
    exact h.full hgone hopen k hk hrun
  · intro j k hjk hne
    change entriesAt _ k ≠ [] at hne
    show entriesAt _ j = _
    -- nothing was written under a later number
    have hle : k ≤ t := by
      by_contra hlt
      rw [hother k (by omega)] at hne
      exact hne (entriesAt_of_lt fun e he => by have := hl.started e he; omega)
    rw [hother j (by omega)]
    exact hfull j (by omega)

theorem orders_step {s t : RoutedHttp} {a : RoutedHttpAct} (hc : ChanInv s.st)
    (hq : Queued s.st) (hl : Logged s.st) (h : Orders targets s)
    (hstep : routedHttpStep c targets s a = some t)
    (hor : WholeBefore targets s a) : Orders targets t := by
  cases a with
  | leave =>
    cases hstep
    exact h.frame rfl rfl fun hgone => by cases hgone
  | act a =>
    rw [routedHttpStep] at hstep
    split at hstep
    · next hgets =>
        obtain ⟨u, hu, rfl⟩ := Option.map_eq_some_iff.mp hstep
        cases move_of_step hc hu with
        | start hpc hch => exact h.start hq hpc hch hor
        | emit hpc hopen => exact h.emit hq hl hpc hopen hgets
        | @finish t hpc =>
          refine h.frame rfl rfl fun hgone hopen k hk _ => ?_
          by_cases hkt : k = t
          · -- it has written everything, as the client is still there
            rw [RoutedHttp.gets, hpc] at hgets
            simp only [Bool.or_eq_true, Bool.not_eq_true', beq_iff_eq] at hgets
            dsimp only at hgone hopen
            rw [hkt]
            rcases hgets with (hg | hg) | hg
            · rw [hgone] at hg
              cases hg
            · rw [hopen] at hg
              cases hg
            · exact hg
          · exact h.full hgone hopen k hk
              (by rw [hpc]; intro heq; cases heq; exact hkt rfl)
        | drained hpc _ _ | next hpc =>
          exact h.frame rfl rfl fun hgone hopen k hk _ =>
            h.full hgone hopen k hk (by rw [hpc]; simp)
        | closeConns _ | closeClient _ =>
            exact h.frame rfl rfl fun _ hopen => by cases hopen
        | _ => exact h.frame rfl rfl h.full
    · cases hstep

theorem reaches_st {s : RoutedHttp}
    (h : Reaches (FiresIf (routedHttpStep c targets) (WholeBefore targets))
      { st := init c } s) :
    Reaches (Fires (step c)) (init c) s.st := by
  induction h with
  | refl => exact .refl
  | tail _ hstep ih =>
    obtain ⟨a, ha, _⟩ := hstep
    cases a with
    | leave =>
      cases ha
      exact ih
    | act a =>
      rw [routedHttpStep] at ha
      split at ha
      · obtain ⟨u, hu, rfl⟩ := Option.map_eq_some_iff.mp ha
        exact ih.tail ⟨a, hu⟩
      · cases ha

theorem Orders.inStep {s : RoutedHttp} (h : Orders targets s)
    (hl : Logged s.st) :
    InStep targets s := by
  have hnone : ∀ k, s.st.ran.length ≤ k → s.st.emittedBy k = [] := fun k hk =>
    entriesAt_of_lt fun e he => by have := hl.started e he; omega
  refine ⟨?_, ?_⟩
  · intro k _ _ hfailed j hkj
    by_contra hne
    have hj : j < s.st.ran.length := by
      by_contra hge
      exact hne (hnone j (by omega))
    obtain ⟨ms, f, rest, hwhole⟩ := h.earlier k (by omega)
    refine hfailed ?_
    rw [h.behind k j hkj hne]
    exact hwhole.settles
  · rw [show s.st.client = (List.range s.st.ran.length).flatMap s.st.emittedBy
      from
      flatMap_eq_grouped hl.sorted hl.started]
    refine answersTo_of_sent ?_ ?_ fun k _ => h.sent k
    · rw [List.pairwise_iff_getElem]
      intro i j hi hj hij
      rw [List.length_range] at hi hj
      rw [List.getElem_range, List.getElem_range]
      obtain ⟨ms, f, rest, hwhole⟩ := h.earlier i (by omega)
      exact ⟨hwhole.settles, h.behind i j hij⟩
    · intro k hk
      rcases h.each k (List.mem_range.mp hk) with ⟨ms, f, rest, hwhole⟩
        | hbreaks
      · exact hwhole.settles.begins
      · exact hbreaks.begins

/-- In every run in which only the last target to be heard breaks off, no
routine writes behind one that failed, and the client has received answers, in
the order of the requests, and the beginning of one. -/
theorem client_in_step {s : RoutedHttp}
    (h : Reaches (FiresIf (routedHttpStep c targets) (WholeBefore targets))
      { st := init c } s) :
    InStep targets s := by
  have horders : Orders targets s := by
    refine Reaches.invariant_of (Q :=
      fun s => Reaches (Fires (step c)) (init c) s.st)
      (fun _ ht => reaches_st ht) ?_ orders_init h
    intro s t hreach hs ⟨a, ha, hor⟩
    obtain ⟨hq, hl⟩ := queued_reaches hreach
    exact orders_step (chanInv_reaches hreach) hq hl hs ha hor
  exact horders.inStep (queued_reaches (reaches_st h)).2

end Runs

/-! ## Two targets

The first answer is cut off in its body, and the second is whole; then the other
way round. -/

/-- A target that answers a GET with these bytes. -/
def getTarget (data : Bytes) : Target where
  method := lit "GET"
  conn := { data := data }
  head _ := false
  sizes _ := []
  sizes_lt := by simp

def cutOk : Bytes := lit "HTTP/1.1 200 OK\r\nContent-Length: 5\r\n\r\nab"

/-- Two pipelined requests, and the routines of both run to their end. -/
def bothRoutines (first second : Bytes) : List RoutedHttpAct :=
  (forwardTurn (lit "/a") ++ forwardTurn (lit "/b") ++
    [Act.call, .emit first, .call, .call, .call, .emit second, .call]).map .act

def cutThenWhole (k : Nat) : Target :=
  getTarget (if k = 0 then cutOk else emptyOk)

def wholeThenCut (k : Nat) : Target :=
  getTarget (if k = 0 then emptyOk else cutOk)

/-- The head of the answer that is cut off, and what came of its body. -/
def isCutOk (f : Response) (u : Bytes) : Bool :=
  decide (f.statusCode = 200 ∧ responseFraming false f = .length 5 ∧
    u = lit "ab") &&
    !isUpgrade f.header && !chunked f.transferEncoding

theorem not_settles_cutOk : ¬ Settles (lit "GET") cutOk := by
  intro h
  obtain ⟨f, u, hparse, hf⟩ :=
    exists_parses (readResponse none) .eof cutOk isCutOk
    (by decide +kernel)
  simp only [isCutOk, Bool.and_eq_true] at hf
  obtain ⟨hstatus, hfr, hu⟩ := of_decide_eq_true hf.1.1
  have hne : lit "GET" ≠ methodHead := by decide
  have hanswer := h []
  rw [List.append_nil] at hanswer
  cases hanswer with
  | @final _ u' _ f' hparse' _ hends =>
    rw [readResponse_of_ne hne] at hparse'
    obtain ⟨rfl, rfl⟩ := hparse.unique hparse'
    rw [beq_false_of_ne hne, hfr, hu] at hends
    obtain ⟨data, hdr, hcarries⟩ := hends
    exact absurd hcarries.of_length.1 (by decide)
  | @interim _ u' _ m hparse' hinterim _ =>
    rw [readResponse_of_ne hne] at hparse'
    obtain ⟨rfl, rfl⟩ := hparse.unique hparse'
    rw [interim, hstatus] at hinterim
    cases hinterim

theorem answer_behind_cut :
    ¬ ∀ (c : Conf) (targets : Nat → Target) (s : RoutedHttp),
      Reaches (Fires (routedHttpStep c targets)) { st := init c } s →
        InStep targets s := by
  intro h
  have hany :
    (exec (routedHttpStep plainConf cutThenWhole) { st := init plainConf }
      (bothRoutines cutOk emptyOk)).any
        (fun s => s.st.ran.length == 2 && s.st.callPC == .done &&
        s.st.emittedBy 0 == cutOk && s.st.emittedBy 1 == emptyOk) = true := by
          decide +kernel
  obtain ⟨s, hs, hp⟩ := (Option.any_eq_true _ _).mp hany
  simp only [Bool.and_eq_true, beq_iff_eq] at hp
  obtain ⟨⟨⟨hran, hpc⟩, hfirst⟩, hsecond⟩ := hp
  have hstep := h plainConf cutThenWhole s (reaches_of_exec hs)
  have hnil := hstep.failed 0 (by omega) (by rw [hpc]; simp)
    (by rw [hfirst]; exact not_settles_cutOk) 1 (by decide)
  rw [hsecond] at hnil
  cases hnil

theorem completes_emptyOk : Completes (getTarget emptyOk) := by
  obtain ⟨f, u, hparse, hf⟩ := exists_parses (readResponse none) .eof emptyOk
    (fun f u => startsFinal [] f u && !chunked f.transferEncoding)
      (by decide +kernel)
  rw [Bool.and_eq_true, Bool.not_eq_true'] at hf
  have hstarts := hf.1
  rw [startsFinal, Bool.and_eq_true] at hstarts
  obtain ⟨_, hfr, _⟩ := of_decide_eq_true hstarts.1
  refine ⟨[], f, [], answers_final hparse hf.1, ⟨?_, ?_, ?_⟩, ?_, rfl, ?_, ?_⟩
  · intro m hm
    cases hm
  · intro s rd _ _ hhead
    cases hhead
  · intro t ht
    have hall :
      (afterRounds (getTarget emptyOk).handler 1
      (Loop.init (getTarget emptyOk).conn)).all
        (fun t => decide (Harmless t.rd.buf)) = true := by decide +kernel
    change afterRounds (getTarget emptyOk).handler 1
      (Loop.init (getTarget emptyOk).conn) = some t at ht
    rw [ht] at hall
    exact of_decide_eq_true hall
  · intro m hm hc
    rw [List.mem_singleton.mp hm, hf.2] at hc
    cases hc
  · intro _
    rw [hfr]
    simp
  · intro _ s _ u data hdr _ hcarries
    rw [hfr] at hcarries
    rw [hcarries.of_length.2.2.1]
    exact fits_none hparse.responseFacts.trailer

/-- An answer whose head is all there and whose body is not. -/
theorem breaks_of_cutOff {data u : Bytes} {f : Response}
    (hparse : Parses (readResponse none) .eof data f u)
    (hstatus : 200 ≤ f.statusCode) (hup : isUpgrade f.header = false)
    (halike : SeenAlike f) (hcut : CutOff (responseFraming false f) u) :
    Breaks (getTarget data) := by
  have hstart : Parses (readResponse none)
    (onTmp .start (Loop.init (getTarget data).conn).rd).fin
      (onTmp .start (Loop.init (getTarget data).conn).rd).view f u := hparse
  obtain ⟨rd, _, hread, _, hview⟩ := hstart.run
    (responseHandler_conserves (fun _ => false) (getTarget data).world).read rfl
  refine ⟨[], _, .nil, (fun m hm => by cases hm),
    .body hread hup hstatus halike
      (show lit "GET" ≠ methodHead by decide) rfl (.inl ?_)⟩
  rw [hview]
  exact hcut

theorem breaks_cutOk : Breaks (getTarget cutOk) := by
  obtain ⟨f, u, hparse, hf⟩ :=
    exists_parses (readResponse none) .eof cutOk isCutOk
    (by decide +kernel)
  simp only [isCutOk, Bool.and_eq_true, Bool.not_eq_true'] at hf
  obtain ⟨⟨hdec, hup⟩, hch⟩ := hf
  obtain ⟨hstatus, hfr, hu⟩ := of_decide_eq_true hdec
  refine breaks_of_cutOff hparse (by omega) hup ?_ ?_
  · intro hc
    rw [hch] at hc
    cases hc
  · rw [hfr, hu]
    exact .length (by decide)

theorem client_in_step_cut :
    ∃ s,
      Reaches (FiresIf (routedHttpStep plainConf wholeThenCut)
      (WholeBefore wholeThenCut))
        { st := init plainConf } s ∧
      s.st.client = emptyOk ++ cutOk ∧ InStep wholeThenCut s := by
  -- the second routine is the last one
  have hsome :
    (execIf (routedHttpStep plainConf wholeThenCut)
    (fun s _ => s.st.ran.all (· == 0) ∨
        s.st.callPC ≠ .recv) { st := init plainConf }
          (bothRoutines emptyOk cutOk)).any
      (fun s => s.st.client == emptyOk ++ cutOk) = true := by decide +kernel
  obtain ⟨s, hs, hclient⟩ := (Option.any_eq_true _ _).mp hsome
  have hreach :
    Reaches (FiresIf (routedHttpStep plainConf wholeThenCut)
    (WholeBefore wholeThenCut))
      { st := init plainConf } s := by
    refine (reaches_of_execIf hs).lift id ?_
    rintro s t ⟨a, ha, hran⟩
    refine ⟨a, ha, ?_⟩
    cases a with
    | leave => trivial
    | act a =>
      cases a with
      | call =>
        intro hpc k rest _
        have hzero := List.all_eq_true.mp (hran.resolve_right (fun h => h hpc))
        refine ⟨fun j hj => ?_, ?_⟩
        · rw [beq_iff_eq.mp (hzero j hj)]
          exact completes_emptyOk
        · unfold wholeThenCut
          split
          · exact .inl completes_emptyOk
          · exact .inr breaks_cutOk
      | _ => trivial
  exact ⟨s, hreach, beq_iff_eq.mp hclient, client_in_step hreach⟩

end Netramesh.Proofs
