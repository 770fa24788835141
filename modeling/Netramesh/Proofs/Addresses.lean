import Netramesh.Proofs.Pools

/-!
# Every connection finds its own destination

`HandleConnection` puts the original destination together in two slices out of
a pool. Its program has no choices, so what it will have seen in the end can be
read off at any point from what is left to do, what its slices hold and what it
has seen so far (`Prog.outcome`). No step changes that, neither its own nor, as
nobody else touches what it holds, anyone else's.
-/

namespace Netramesh.Pooled

open Lib Function Transport

/-- What is in the variables, and what was seen. -/
abbrev View := (Slot → Bytes) × Hist

/-- What an action on slices leads to. -/
def Atom.outcome : Atom → View → View
  | .get k, v | .put k, v => (update v.1 k [], v.2)
  | .op (.edit k (.append b)), v =>
      (update v.1 k (v.1 k ++ b v.2), .done :: v.2)
  | .op (.edit k .clear), v => (update v.1 k [], .done :: v.2)
  | .op (.edit k .look), v => (v.1, .bytes (v.1 k) :: v.2)
  | _, v => v

/-- An action on slices. -/
def Atom.plain : Atom → Bool
  | .get k | .put k => k.grows
  | .op (.edit _ (.append _)) | .op (.edit _ .clear)
      | .op (.edit _ .look) => true
  | _ => false

/-- What a program without choices leads to. -/
def outcome : Prog → View → View
  | .act a, v => a.outcome v
  | .seq a b, v => outcome b (outcome a v)
  | _, v => v

/-- A program without choices, which comes to its end. -/
def unbranched : Prog → Bool
  | .skip => true
  | .act a => a.plain
  | .seq a b => unbranched a && unbranched b
  | _ => false

/-- Such programs one after another, and then perhaps a return. -/
def strung : List Prog → Bool
  | [] => true
  | .ret :: cs => cs.isEmpty
  | c :: cs => unbranched c && strung cs

theorem strung_cons {c : Prog} {cs : List Prog} (hc : unbranched c = true)
    (hcs : strung cs = true) :
    strung (c :: cs) = true := by
  cases c with
  | skip => exact hcs
  | act a => exact Bool.and_eq_true_iff.mpr ⟨hc, hcs⟩
  | seq a b => exact Bool.and_eq_true_iff.mpr ⟨hc, hcs⟩
  | any | ite | loop | ret => cases hc

/-- The last thing seen before the second slice is cleared. -/
theorem outcome_connection (m : Multiaddr) :
    Hist.last (outcome (handleConnection m) (fun _ => [], [])).2.tail =
      m.originalDstAddr := by
  simp [handleConnection, buildAddr, Cmd.block, outcome, Atom.outcome, get,
    put, op, Multiaddr.originalDstAddr, Multiaddr.ipv4, Hist.last]

section Steps

variable {G : Type} {g h : G} {k : Slot} {l : Label} {s s' : State G}
  {Γ Δ : Ctx} {d : Prog}
  {n : Next Atom Hist}

/-- What the variables of `g` hold. -/
def contents (s : State G) (g : G) (k : Slot) : Bytes :=
  match (s.user g).held k with
  | none => []
  | some r => (s.store.heap r).win.live

/-- What `g` sees of the state. -/
def viewOf (s : State G) (g : G) : View := (contents s g, (s.user g).loc.seen)

theorem contents_of_held {r : Nat} (hr : (s.user g).held k = some r) :
    contents s g k = (s.store.heap r).win.live := by
  rw [contents, hr]

/-- The same objects in the same state. -/
theorem contents_congr (hheld : (s'.user g).held = (s.user g).held)
    (hheap : ∀ k r, (s.user g).held k = some r →
      s'.store.heap r = s.store.heap r) :
    contents s' g = contents s g := by
  funext k
  unfold contents
  rw [hheld]
  cases hk : (s.user g).held k with
  | none => rfl
  | some r =>
    dsimp only
    rw [hheap k r hk]

/-- One object is written. -/
theorem contents_setObj {r : Nat} (hs : Own g s)
    (hr : (s.user g).held k = some r) (o : Buffer G) :
    contents (s.setObj r o) g = update (contents s g) k o.win.live := by
  funext k'
  by_cases hk : k' = k
  · subst hk
    rw [update_self, contents_of_held (s := s.setObj r o) hr]
    show ((s.store.set r o).heap r).win.live = _
    rw [Store.set_heap_self]
  · rw [update_of_ne hk]
    unfold contents
    show (match (s.user g).held k' with
      | none => []
      | some q => ((s.store.set r o).heap q).win.live) = _
    cases hk' : (s.user g).held k' with
    | none => rfl
    | some q =>
      have hne : q ≠ r := fun heq => hk (hs.inj k' k q hk' (heq ▸ hr))
      dsimp only
      rw [Store.set_heap_of_ne hne]

variable [DecidableEq G]

theorem contents_setLoc (f : Loc → Loc) :
    contents (s.setLoc g f) g = contents s g :=
  contents_congr (by rw [user_setLoc]) fun _ _ _ => rfl

theorem live_ofMem (m : Bytes) : (Window.ofMem m).live = [] := by
  simp [Window.live, Window.ofMem]

theorem contents_take {todo : List Prog} (hs : Sound s) (hk : k.grows = true)
    (ha : s.take g l k todo = some s') :
    contents s' g = update (contents s g) k [] := by
  obtain ⟨_, _, _, hheap, r, hheld, hpool⟩ := take_spec hs ha
  funext k'
  unfold contents
  rw [hheld]
  by_cases hkk : k' = k
  · subst hkk
    rw [update_self, update_self]
    dsimp only
    cases k' <;> first
      | (obtain ⟨m, hm⟩ := hpool; rw [hm]; exact live_ofMem m)
      | cases hk
  · rw [update_of_ne hkk, update_of_ne hkk]
    cases hq : (s.user g).held k' with
    | none => rfl
    | some q =>
      dsimp only
      rw [hheap q (hs.owned.lt (g, k') q hq)]

theorem contents_release {todo : List Prog} {r : Nat} (hs : Sound s)
    (hr : (s.user g).held k = some r) (hpool : Poolable k.pool (s.store.heap r))
    (ha : s.release g k todo = some s') :
    contents s' g = update (contents s g) k [] := by
  obtain ⟨s₁, heq, _, _, _, hheap, hheld⟩ := release_spec todo hs hr hpool
  cases ha.symm.trans heq
  funext k'
  unfold contents
  rw [hheld, hheap]
  by_cases hkk : k' = k
  · rw [hkk, update_self, update_self]
  · rw [update_of_ne hkk, update_of_ne hkk]

theorem view_edit {e : Edit} {todo : List Prog} {r : Nat} (hs : Own g s)
    (hr : (s.user g).held k = some r)
    (ha : s.operate g l (.edit k e) todo = some s') :
    ((s'.user g).loc.todo = todo ∧ (s'.user g).loc.deferred =
      (s.user g).loc.deferred) ∧
    viewOf s' g = (update (contents s g) k
        (e.apply g (s.user g).loc.w (s.user g).loc.seen
          (s.store.heap r)).1.win.live,
      (e.apply g (s.user g).loc.w (s.user g).loc.seen (s.store.heap r)).2 ::
        (s.user g).loc.seen) := by
  rw [State.operate, Op.run, hs.var k r hr] at ha
  cases ha
  unfold viewOf State.observe
  rw [contents_setLoc, contents_setObj hs hr, user_setLoc]
  exact ⟨⟨rfl, rfl⟩, rfl⟩

omit [DecidableEq G] in
/-- What an edit of a slice leaves is what `outcome` says. -/
theorem view_plain {e : Edit} {r : Nat}
    (hplain : (Atom.op (.edit k e)).plain = true)
    (hr : (s.user g).held k = some r) :
    (update (contents s g) k
        (e.apply g (s.user g).loc.w (s.user g).loc.seen
          (s.store.heap r)).1.win.live,
      (e.apply g (s.user g).loc.w (s.user g).loc.seen (s.store.heap r)).2 ::
        (s.user g).loc.seen) =
      (Atom.op (.edit k e)).outcome (viewOf s g) := by
  cases e with
  | append b =>
      show (update (contents s g) k ((s.store.heap r).win.push _).live, _) =
        (update (contents s g) k (contents s g k ++ _), _)
      rw [Window.live_push, contents_of_held hr]
      rfl
  | clear =>
      show (update (contents s g) k (Window.ofMem _).live, _) =
        (update (contents s g) k [], _)
      rw [live_ofMem]
      rfl
  | look =>
      show (update (contents s g) k (s.store.heap r).win.live,
        Obs.bytes _ :: _) = (contents s g, Obs.bytes (contents s g k) :: _)
      rw [← contents_of_held hr, update_eq_self]
      rfl
  | _ => cases hplain

/-- An action on slices does what `outcome` says. -/
theorem advance_outcome {a : Atom} {todo : List Prog} (hs : Sound s)
    (h : Alike g Γ s s) (hplain : a.plain = true)
    (hgr : discipline.Granted d Γ (.act a todo) Δ)
    (ha : s.advance g l (.act a todo) = some s') :
    ((s'.user g).loc.todo = todo ∧ (s'.user g).loc.deferred =
      (s.user g).loc.deferred) ∧ viewOf s' g = a.outcome (viewOf s g) := by
  obtain ⟨⟨Ξ, hle, hpost⟩, _⟩ := hgr
  have h := h.mono (Ctx.le_iff.mp hle)
  cases a with
  | get k =>
      obtain ⟨_, _, hloc, _⟩ := take_spec hs ha
      rw [viewOf, contents_take hs hplain ha, hloc]
      exact ⟨⟨rfl, rfl⟩, rfl⟩
  | put k =>
      obtain ⟨r, _, hr, _, hpool, _⟩ :=
        h.due (Option.ite_none_right_eq_some.mp hpost).1
      obtain ⟨s₁, heq, _, _, hloc, _⟩ := release_spec todo hs hr hpool
      cases ha.symm.trans heq
      rw [viewOf, contents_release hs hr hpool ha, hloc]
      exact ⟨⟨rfl, rfl⟩, rfl⟩
  | op o =>
      cases o with
      | edit k e =>
          have hk : Ξ k ≠ .absent := by
            intro habs
            have hpost' : (Op.edit k e).post Ξ = some Δ := hpost
            rw [Op.post, habs] at hpost'
            cases e <;> simp [Edit.post, Status.rank] at hpost'
          obtain ⟨r, _, hr, _⟩ := h.obj k hk
          obtain ⟨hloc, hview⟩ := view_edit (hs.own g) hr ha
          exact ⟨hloc, hview.trans (view_plain hplain hr)⟩
      | _ => cases hplain

/-- What `g` will have seen in the end. -/
def foresight (s : State G) (g : G) : View :=
  (s.user g).loc.todo.foldl (fun v c => outcome c v) (viewOf s g)

/-- `g` has no choices left, and nothing deferred. -/
structure Unbranched (s : State G) (g : G) : Prop where
  deferred : (s.user g).loc.deferred = .skip
  todo : strung (s.user g).loc.todo = true

/-- `g` goes on with commands that lead to the same. -/
theorem unbranched_goto {todo : List Prog} (hst : Unbranched s g)
    (htodo : strung todo = true)
    (hsame : todo.foldl (fun v c => outcome c v) (viewOf s g) = foresight s g) :
    Unbranched (s.goto g todo) g ∧ foresight (s.goto g todo) g =
      foresight s g := by
  unfold State.goto
  refine ⟨⟨?_, ?_⟩, ?_⟩
  · rw [user_setLoc]
    exact hst.deferred
  · rw [user_setLoc]
    exact htodo
  · rw [← hsame]
    unfold foresight viewOf
    rw [contents_setLoc, user_setLoc]

/-- A step of its own changes nothing about it. -/
theorem own_step {Γ : G → Ctx} (hgood : Good Γ s) (hst : Unbranched s g)
    (hstep : step s (.run g l) = some s') :
    Unbranched s' g ∧ foresight s' g = foresight s g := by
  have hchecks := hgood.checks g
  have hstrung := hst.todo
  unfold step at hstep
  dsimp only at hstep
  cases htodo : (s.user g).loc.todo with
  | nil => rw [htodo] at hstep; cases hstep
  | cons c rest =>
      rw [htodo] at hstep hchecks hstrung
      dsimp only at hstep
      obtain ⟨Δ, hgr⟩ := hchecks.next (s.user g).loc.seen
      have hfore : foresight s g =
          rest.foldl (fun v c => outcome c v) (outcome c (viewOf s g)) := by
        rw [foresight, htodo, List.foldl_cons]
      cases c with
      | skip =>
          cases hstep
          exact unbranched_goto hst
            (by simpa [strung, unbranched] using hstrung) hfore.symm
      | seq a b =>
          cases hstep
          simp only [strung, unbranched, Bool.and_eq_true] at hstrung
          exact unbranched_goto hst (strung_cons hstrung.1.1
            (strung_cons hstrung.1.2 hstrung.2))
            hfore.symm
      | ret =>
          cases hstep
          rw [strung, List.isEmpty_iff] at hstrung
          refine ⟨⟨by rw [user_setLoc], ?_⟩, ?_⟩
          · rw [user_setLoc]
            show strung [(s.user g).loc.deferred] = true
            rw [hst.deferred]
            rfl
          · rw [hfore, hstrung]
            unfold foresight viewOf
            rw [contents_setLoc, user_setLoc]
            show outcome (s.user g).loc.deferred _ = _
            rw [hst.deferred]
            rfl
      | act a =>
          simp only [strung, unbranched, Bool.and_eq_true] at hstrung
          obtain ⟨⟨htodo', hdef'⟩, hview⟩ :=
            advance_outcome hgood.toSound (hgood.self g) hstrung.1 hgr hstep
          refine ⟨⟨hdef'.trans hst.deferred, by rw [htodo']; exact hstrung.2⟩,
            ?_⟩
          rw [foresight, htodo', hview, hfore]
          rfl
      | any | ite | loop => simp [strung, unbranched] at hstrung

omit [DecidableEq G] in
/-- Nor does a step of another goroutine. -/
theorem others_step (hne : h ≠ g) (hs : Sound s) (hunnoticed : Unnoticed g s s')
    (hst : Unbranched s h) :
    Unbranched s' h ∧ foresight s' h = foresight s h := by
  have huser := hunnoticed.user h hne
  refine ⟨⟨by rw [huser]; exact hst.deferred, by rw [huser]; exact hst.todo⟩,
    ?_⟩
  have hcontents : contents s' h = contents s h := by
    refine contents_congr (by rw [huser]) fun k r hr => ?_
    refine hunnoticed.heap r (hs.owned.lt (h, k) r hr) fun k' hk' => ?_
    exact hne (congrArg Prod.fst (hs.owned.inj (h, k) (g, k') r hr hk'))
  unfold foresight viewOf
  rw [huser, hcontents]

theorem run_unbranched {Γ : G → Ctx} {acts : List (Act G)} (hgood : Good Γ s)
    (hst : Unbranched s g) (hrun : exec step s acts = some s') :
    foresight s' g = foresight s g := by
  induction acts generalizing s Γ with
  | nil =>
      cases hrun
      rfl
  | cons act acts ih =>
      rw [exec] at hrun
      split at hrun
      · cases hrun
      · next t ht =>
          cases act with
          | drop p i =>
              cases ht
              have hst' : Unbranched { s with store := s.store.drop p i } g :=
                ⟨hst.deferred, hst.todo⟩
              have hfore := ih (hgood.drop p i) hst' hrun
              exact hfore
          | run h l =>
              obtain ⟨_, Ψ, _, hgood', _, _, hunnoticed, _⟩ :=
                hgood.step hgood rfl (hgood.self h) ht
              have hkept : Unbranched t g ∧ foresight t g = foresight s g := by
                by_cases hg : g = h
                · subst hg
                  exact own_step hgood hst ht
                · exact others_step hg hgood.toSound hunnoticed hst
              rw [ih hgood' hkept.1 hrun, hkept.2]

/-- Whatever the other goroutines do and whatever the pool of slices hands out,
a `HandleConnection` that has its destination has the one its socket names, and
so the protocol of the port that stands there. -/
theorem destination_found (task : G → Task) (input : G → Bytes)
    (acts : List (Act G)) (s : State G)
    (hrun : exec step (init task input) acts = some s) (g : G) (m : Multiaddr)
    (htask : task g = .connection m) (hdone : (s.user g).loc.todo = []) :
    Hist.last (s.user g).loc.seen.tail = m.originalDstAddr ∧
      ∀ httpPorts, Protocol.determine httpPorts
        (Hist.last (s.user g).loc.seen.tail) =
        some (if itoa m.port.toNat ∈ httpPorts then .http else .tcp) := by
  have hst : Unbranched (init task input) g := by
    refine ⟨?_, ?_⟩
    · show (task g).deferred = .skip
      rw [htask]
      rfl
    · show strung [(task g).body, .ret] = true
      rw [htask]
      rfl
  have hfore := run_unbranched (good_init task input) hst hrun
  have hinit : foresight (init task input) g =
      outcome (handleConnection m) (fun _ => [], []) := by
    show outcome .ret (outcome (task g).body _) = _
    rw [htask]
    rfl
  have hseen : (s.user g).loc.seen =
      (outcome (handleConnection m) (fun _ => [], [])).2 := by
    rw [← hinit, ← hfore, foresight, hdone]
    rfl
  have hdst : Hist.last (s.user g).loc.seen.tail = m.originalDstAddr := by
    rw [hseen]
    exact outcome_connection m
  exact ⟨hdst,
    fun httpPorts => by rw [hdst]; exact determine_originalDstAddr httpPorts m⟩

/-- The second of two connections, with the slice of the first. -/
theorem destination_found_reused :
    ∃ s, exec step twoConnections reusing = some s ∧
      Hist.last (s.user true).loc.seen.tail =
        (⟨31, 144, 10, 0, 0, 255⟩ : Multiaddr).originalDstAddr ∧
      Hist.last (s.user true).loc.seen.tail = lit "10.0.0.255:8080" := by
  have hsome : (exec step twoConnections reusing).any
    (fun s => (s.user true).loc.todo.isEmpty) =
      true := by decide +kernel
  obtain ⟨s, hs, hdone⟩ := (Option.any_eq_true _ _).mp hsome
  have hdst :=
    (destination_found _ _ reusing s hs true ⟨31, 144, 10, 0, 0, 255⟩ rfl
    (List.isEmpty_iff.mp hdone)).1
  exact ⟨s, hs, hdst, hdst.trans (by decide +kernel)⟩

end Steps

end Netramesh.Pooled
