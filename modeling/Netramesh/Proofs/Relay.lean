import Netramesh.Proofs.Boundary

/-!
# Streams of messages through a loop

A stream that is a sequence of complete messages leaves the loop as another
one, if every message does: it is forwarded, the loop goes on right behind it,
and what was written for it is read as one message like it, whatever comes
after. The induction is over the messages; at the end of the stream the loop
finds nothing to read and nothing in the temp writer.
-/

namespace Netramesh.Proofs

open Http Protocol Net Lib

/-- A message: its head, the bytes of its body and its trailer section. -/
structure Message (μ : Type) where
  head : μ
  data : Bytes
  trailer : Option Header

/-- The stream consists of the messages `ms`, the first of which is the
`k`-th. -/
inductive Messages {μ : Type} (read : Nat → Parser Tee Err μ)
    (framing : Nat → μ → Framing)
    (fin : Err) : Nat → List (Message μ) → Bytes → Prop
  | nil {k : Nat} : Messages read framing fin k [] []
  | cons {k : Nat} {v u rest : Bytes} {m : Message μ} {ms : List (Message μ)} :
      Parses (read k) fin v m.head u →
        Carries fin (framing k m.head) u m.data m.trailer rest →
      Messages read framing fin (k + 1) ms rest →
        Messages read framing fin k (m :: ms) v

/-! ## A stream is one sequence of messages -/

theorem Parses.unique {α : Type} {f : Parser Tee Err α} {fin : Err}
    {v u u' : Bytes} {a a' : α} (h : Parses f fin v a u)
    (h' : Parses f fin v a' u') : a = a' ∧ u = u' :=
  ⟨Except.ok.inj (h.1.symm.trans h'.1), h.2.symm.trans h'.2⟩

theorem Chunks.of_some {size : Nat} {v data r : Bytes}
    (h : Chunks size v data (some r)) :
    (chunkHead size v = some (0, r) ∧ data = []) ∨
      ∃ d t body, d ≠ [] ∧ chunkHead size v = some (d.length, d ++ crlf ++ t) ∧
        Chunks size t body (some r) ∧ data = d ++ body := by
  cases h with
  | last h => exact .inl ⟨h, rfl⟩
  | chunk hne h hrest => exact .inr ⟨_, _, _, hne, h, hrest, rfl⟩

theorem Chunks.unique {size : Nat} {v data r data' r' : Bytes}
    (h : Chunks size v data (some r)) (h' : Chunks size v data' (some r')) :
    data = data' ∧ r = r' := by
  generalize ho : some r = o at h
  induction h generalizing data' r' with
  | last hhead =>
    cases ho
    rcases h'.of_some with ⟨hhead', rfl⟩ | ⟨d, t, body, hne, hhead', _, _⟩
    · rw [hhead] at hhead'
      cases hhead'
      exact ⟨rfl, rfl⟩
    · rw [hhead] at hhead'
      have := (Prod.mk.inj (Option.some.inj hhead')).1
      exact absurd (List.length_eq_zero_iff.mp this.symm) hne
  | @chunk v d t body o hne hhead _ ih =>
    rcases h'.of_some with ⟨hhead', _⟩ | ⟨d', t', body', hne', hhead',
      hrest', rfl⟩
    · rw [hhead] at hhead'
      have := (Prod.mk.inj (Option.some.inj hhead')).1
      exact absurd (List.length_eq_zero_iff.mp this) hne
    · rw [hhead] at hhead'
      obtain ⟨hlen, heq⟩ := Prod.mk.inj (Option.some.inj hhead')
      rw [List.append_assoc, List.append_assoc] at heq
      obtain ⟨rfl, htail⟩ := List.append_inj heq hlen
      cases List.append_cancel_left htail
      obtain ⟨rfl, rfl⟩ := ih hrest' ho
      exact ⟨rfl, rfl⟩
  | cutLine _ _ => cases ho
  | cutData _ _ _ => cases ho

theorem Carries.unique {fin : Err} {fr : Framing}
    {v data data' rest rest' : Bytes} {hdr hdr' : Option Header}
    (h : Carries fin fr v data hdr rest)
    (h' : Carries fin fr v data' hdr' rest') :
    data = data' ∧ hdr = hdr' ∧ rest = rest' := by
  cases h with
  | length _ =>
    obtain ⟨_, rfl, rfl, rfl⟩ := h'.of_length
    exact ⟨rfl, rfl, rfl⟩
  | chunked hchunks hparse =>
    obtain ⟨r', hchunks', hparse'⟩ := h'.of_chunked
    obtain ⟨rfl, rfl⟩ := hchunks.unique hchunks'
    obtain ⟨rfl, rfl⟩ := hparse.unique hparse'
    exact ⟨rfl, rfl, rfl⟩
  | close =>
    obtain ⟨rfl, rfl, rfl⟩ := h'.of_close
    exact ⟨rfl, rfl, rfl⟩

theorem Messages.unique {μ : Type} {read : Nat → Parser Tee Err μ}
    {framing : Nat → μ → Framing} {fin : Err} {k : Nat}
    {ms ms' : List (Message μ)} {v : Bytes} (hread : ∀ k, Shrinks (read k))
    (h : Messages read framing fin k ms v)
    (h' : Messages read framing fin k ms' v) : ms = ms' := by
  induction h generalizing ms' with
  | nil =>
    generalize hv : ([] : Bytes) = v at h'
    cases h' with
    | nil => rfl
    | cons hparse _ _ =>
      subst hv
      exact absurd hparse.1 ((hread _).nil _ rfl _)
  | @cons k v u rest m ms hparse hcarries _ ih =>
    cases h' with
    | nil => exact absurd hparse.1 ((hread _).nil _ rfl _)
    | @cons _ _ u' rest' m' ms' hparse' hcarries' hrest' =>
      obtain ⟨hhead, rfl⟩ := hparse.unique hparse'
      rw [← hhead] at hcarries'
      obtain ⟨hdata, htrailer, rfl⟩ := hcarries.unique hcarries'
      rw [ih hrest']
      cases m
      cases m'
      cases hhead
      cases hdata
      cases htrailer
      rfl

/-- What the parser makes of a stream that is known. -/
theorem exists_parses {α : Type} (f : Parser Tee Err α) (fin : Err) (v : Bytes)
    (p : α → Bytes → Bool)
    (hp :
      (match f (standing fin v) with | (.ok a, rd) => p a rd.view | _ => false)
      = true) :
    ∃ a u, Parses f fin v a u ∧ p a u = true := by
  cases hr : f (standing fin v) with
  | mk r rd =>
    rw [hr] at hp
    cases r with
    | error e => cases hp
    | ok a => exact ⟨a, rd.view, ⟨by rw [hr], by rw [hr]⟩, hp⟩

/-! ## Through the loop -/

/-- The bytes `w` are the message `m`, whatever comes behind them; only a body
that lasts until the connection closes has to be the end. -/
def Stands {μ : Type} (read : Parser Tee Err μ) (framing : μ → Framing)
    (last : Bool) (m : Message μ) (w : Bytes) : Prop :=
  ∀ tail, (last = true → tail = []) → ∃ u,
    Parses read .eof (w ++ tail) m.head u ∧
    Carries .eof (framing m.head) u m.data m.trailer tail

variable {μ : Type} {H : Handler μ} {framing framing' : Nat → μ → Framing}
  {read' : Nat → Parser Tee Err μ} {Good : Nat → Message μ → Prop}
  {Same : Message μ → Message μ → Prop}

/-- The loop forwards every message that is good, and what it writes stands for
a message that is the same. -/
structure Relays (H : Handler μ) (framing : Nat → μ → Framing)
    (read' : Nat → Parser Tee Err μ) (framing' : Nat → μ → Framing)
    (Good : Nat → Message μ → Prop) (Same : Message μ → Message μ → Prop) :
    Prop where
  conserves : Conserves H
  shrinks : Shrinks H.read
  proceeds : ∀ {k m}, Good k m → H.isUpgrade m.head = false
  relays : ∀ {m rd₀ rd rest} {s : Loop}, H.read rd₀ = (.ok m.head, rd) →
    rd.size = 0xfff → NoFail (H.world.fails s.count) → Good s.count m →
    Carries rd.fin (framing s.count m.head) rd.view m.data m.trailer rest →
    (H.forward s.count m.head (s.copy H m.head rd)).2.rd.view = rest ∧
      ∃ w m', (H.forward s.count m.head (s.copy H m.head rd)).2.out.bytes =
        s.out ++ w ∧ Same m m' ∧ Stands (read' s.count) (framing' s.count)
          (framing s.count m.head = .close) m' w

/-- A round that forwards a message takes at least a byte. -/
theorem next_view_lt (hH : Conserves H) (hshrinks : Shrinks H.read) {s t : Loop}
    (h : turn H s = .next t) : t.rd.view.length < s.rd.view.length := by
  obtain ⟨m, rd, c, hread, _, rfl, rfl⟩ := turn_next h
  obtain ⟨x, hx⟩ := hH.forward s.count m (s.copy H m rd)
  have hlt := hshrinks _ _ _ hread
  rw [view_onTmp] at hlt
  have hle : rd.view = x ++ (H.forward s.count m (s.copy H m rd)).2.rd.view :=
    hx.view
  rw [hle, List.length_append] at hlt
  dsimp only
  omega

/-- The rounds of a call, one after another, are the call, if each of them takes
at least a byte. -/
theorem handle_of_shrinking
    (hlt : ∀ {s t : Loop}, turn H s = .next t →
      t.rd.view.length < s.rd.view.length)
    {s t u : Loop} (h : Reaches (Rounds H) s t)
    (hend : turn H t = .copied u ∨ turn H t = .returned u) :
    handle H s = u := by
  have hserve : ∀ fuel, s.rd.view.length < fuel → serve H fuel s = u := by
    induction h using Relation.ReflTransGen.head_induction_on with
    | refl =>
      intro fuel hfuel
      obtain ⟨fuel, rfl⟩ : ∃ n, fuel = n + 1 := ⟨fuel - 1, by omega⟩
      rcases hend with hend | hend <;> rw [serve, hend]
    | head hround _ ih =>
      intro fuel hfuel
      obtain ⟨fuel, rfl⟩ : ∃ n, fuel = n + 1 := ⟨fuel - 1, by omega⟩
      have hround' := hlt hround
      rw [serve, hround]
      exact ih fuel (by omega)
  exact hserve _ (Nat.lt_succ_self _)

theorem handle_of_rounds (hH : Conserves H) (hshrinks : Shrinks H.read)
    {s t u : Loop} (h : Reaches (Rounds H) s t)
    (hend : turn H t = .copied u ∨ turn H t = .returned u) :
    handle H s = u :=
  handle_of_shrinking (fun hturn => next_view_lt hH hshrinks hturn) h hend

theorem messages_nil {read : Parser Tee Err μ} {fin : Err} {k : Nat}
    {ms : List (Message μ)} (hread : Shrinks read)
    (h : Messages (fun _ => read) framing fin k ms []) : ms = [] := by
  cases h with
  | nil => rfl
  | cons hparse _ _ => exact absurd hparse.1 (hread.nil _ rfl _)

/-- At the end of the stream nothing more is written. -/
theorem serve_nil (hH : Conserves H) (hshrinks : Shrinks H.read) {s : Loop}
    (fuel : Nat) (hfails : NoFail (H.world.fails s.count))
    (hview : s.rd.view = []) (hempty : s.rd.src.tmp.buf = []) :
    (serve H (fuel + 1) s).out = s.out := by
  rw [serve, turn]
  cases hread : H.read (onTmp .start s.rd) with
  | mk r rd =>
    cases r with
    | ok m =>
        exact absurd (by rw [hread]) (hshrinks.nil (onTmp .start s.rd) hview m)
    | error e =>
      dsimp only
      by_cases he : e = .eof ∨ e.mentionsClosed = true
      · rw [if_pos he]
      · rw [if_neg he]
        dsimp only
        obtain ⟨c, hc⟩ := Reads.of_lawful hH.read hread
        have hdata : s.rd.src.conn.data = [] :=
          (List.append_eq_nil_iff.mp hview).2
        have heq : fetched s.rd rd = consumed s.rd rd := by
          rw [fetched, consumed, hview, hdata, List.take_nil, List.take_nil]
        rw [fallback_bytes hfails, (fallback_eq_iff hempty hc).mpr heq, hview,
          List.append_nil]

/-- The first of a stream of good messages goes through a round, and the loop is
at the second. -/
theorem relayed_step (hR : Relays H framing read' framing' Good Same) {s : Loop}
    {m : Message μ} {ms : List (Message μ)}
    (hfails : NoFail (H.world.fails s.count))
    (hms : Messages (fun _ => H.read) framing s.rd.fin s.count
      (m :: ms) s.rd.view)
    (hg : Good s.count m) (hsize : s.rd.size = 0xfff) :
    ∃ t u, turn H s = .next t ∧ t.count = s.count + 1 ∧ t.rd.fin = s.rd.fin ∧
      t.rd.size = 0xfff ∧ Parses H.read s.rd.fin s.rd.view m.head u ∧
      Carries s.rd.fin (framing s.count m.head) u m.data m.trailer t.rd.view ∧
      Messages (fun _ => H.read) framing s.rd.fin (s.count + 1) ms t.rd.view ∧
      ∃ w m', t.out = s.out ++ w ∧ Same m m' ∧
        Stands (read' s.count) (framing' s.count)
        (framing s.count m.head = .close) m' w := by
  generalize hv : s.rd.view = v at hms
  cases hms with
  | @cons _ _ u rest _ _ hparse hcarries hrest =>
    subst hv
    have hstart : Parses H.read (onTmp .start s.rd).fin
      (onTmp .start s.rd).view m.head u := hparse
    obtain ⟨rd, c, hread, hreads, hview⟩ := hstart.run hR.conserves.read hsize
    have hcopy := hcarries
    rw [← hview, show s.rd.fin = rd.fin from hreads.fin.symm] at hcopy
    obtain ⟨hnext, w, m', hout, hsame, hstands⟩ :=
      hR.relays hread (hreads.size.trans hsize) hfails hg hcopy
    obtain ⟨x, hx⟩ := hR.conserves.forward s.count m.head (s.copy H m.head rd)
    refine ⟨{ rd := (H.forward s.count m.head (s.copy H m.head rd)).2.rd
              out := (H.forward s.count m.head (s.copy H m.head rd)).2.out.bytes
              count := s.count + 1 }, u, ?_, rfl, hx.fin.trans hreads.fin,
      hx.size.trans (hreads.size.trans hsize), hparse, ?_, ?_, w, m', hout,
        hsame, hstands⟩
    · rw [turn, hread]
      dsimp only
      rw [hR.proceeds hg, if_neg (by simp)]
    · dsimp only
      rw [hnext]
      exact hcarries
    · dsimp only
      rw [hnext]
      exact hrest

/-- What one round does to one message, said for each of them, is what the
rounds do to the stream. -/
theorem relayed_serve_each {Same : Nat → Message μ → Message μ → Prop}
    (hR : ∀ k, Relays H framing read' framing' (fun j m => j = k ∧ Good j m)
      (Same k))
    (hfails : ∀ k, NoFail (H.world.fails k)) (ms : List (Message μ))
    (fuel : Nat) (s : Loop)
    (hms : Messages (fun _ => H.read) framing s.rd.fin s.count ms s.rd.view)
    (hgood : ∀ i m, ms[i]? = some m → Good (s.count + i) m)
    (hsize : s.rd.size = 0xfff) (hempty : s.rd.src.tmp.buf = [])
    (hfuel : s.rd.view.length < fuel) :
    ∃ w ms', (serve H fuel s).out = s.out ++ w ∧
      Messages read' framing' .eof s.count ms' w ∧
      List.Forall₂ (fun p m' => Same p.2 p.1 m') (ms.zipIdx s.count) ms' := by
  induction ms generalizing fuel s with
  | nil =>
    obtain ⟨fuel, rfl⟩ : ∃ n, fuel = n + 1 := ⟨fuel - 1, by omega⟩
    generalize hv : s.rd.view = v at hms
    cases hms
    refine ⟨[], [], ?_, .nil, .nil⟩
    rw [List.append_nil]
    exact serve_nil (hR s.count).conserves (hR s.count).shrinks fuel
      (hfails _) hv hempty
  | cons m ms ih =>
    have hk := hR s.count
    obtain ⟨fuel, rfl⟩ : ∃ n, fuel = n + 1 := ⟨fuel - 1, by omega⟩
    obtain ⟨t, u, hturn, hcount, hfin, hsize', _, hcarries, hrest, w, m', hout,
        hsame, hstands⟩ :=
      relayed_step hk (hfails _) hms ⟨rfl, hgood 0 m rfl⟩ hsize
    have htop := top_next hk.conserves ⟨hempty,
      List.suffix_refl s.rd.view⟩ hturn
    have hlt := next_view_lt hk.conserves hk.shrinks hturn
    obtain ⟨w', ms', hout', hms', hall⟩ :=
      ih fuel t (by rw [hfin, hcount]; exact hrest)
      (by
        intro i m' hi
        have := hgood (i + 1) m' hi
        rwa [show s.count + (i + 1) = t.count + i by omega] at this)
      hsize' htop.empty (by omega)
    rw [hcount] at hall
    refine ⟨w ++ w', m' :: ms', ?_, ?_, .cons hsame hall⟩
    · rw [serve, hturn]
      dsimp only
      rw [hout', hout, List.append_assoc]
    · -- a body that lasts to the end of the stream has nothing behind it
      have hlast : decide (framing s.count m.head = .close) = true →
          w' = [] := by
        intro hclose
        rw [of_decide_eq_true hclose] at hcarries
        rw [hcarries.of_close.2.2] at hrest
        have hnil := messages_nil hk.shrinks hrest
        subst hnil
        cases hall
        cases hms'
        rfl
      obtain ⟨u', hparse', hcarries'⟩ := hstands w' hlast
      rw [hcount] at hms'
      exact .cons hparse' hcarries' hms'

/-- A stream of good messages leaves the loop as a stream of messages, each what
its round makes of it. -/
theorem relayed_each {Same : Nat → Message μ → Message μ → Prop}
    (hR : ∀ k, Relays H framing read' framing' (fun j m => j = k ∧ Good j m)
      (Same k))
    (hfails : ∀ k, NoFail (H.world.fails k)) {conn : Conn}
    {ms : List (Message μ)}
    (hms : Messages (fun _ => H.read) framing conn.fin 0 ms conn.data)
    (hgood : ∀ k m, ms[k]? = some m → Good k m) :
    ∃ ms', Messages read' framing' .eof 0 ms' (handle H (Loop.init conn)).out ∧
      List.Forall₂ (fun p m' => Same p.2 p.1 m') ms.zipIdx ms' := by
  obtain ⟨w, ms', hout, hms', hall⟩ := relayed_serve_each hR hfails ms
    ((Loop.init conn).rd.view.length + 1) (Loop.init conn) hms
    (fun i m
      hi => by rw [show (Loop.init conn).count + i = i from
      Nat.zero_add i]; exact hgood i m hi)
    rfl rfl (Nat.lt_succ_self _)
  rw [show (Loop.init conn).out ++ w = w from rfl] at hout
  exact ⟨ms', by rw [handle, hout]; exact hms', hall⟩

/-- A stream of good messages leaves the loop as a stream of the same
messages. -/
theorem relayed (hR : Relays H framing read' framing' Good Same)
    (hfails : ∀ k, NoFail (H.world.fails k)) {conn : Conn}
    {ms : List (Message μ)}
    (hms : Messages (fun _ => H.read) framing conn.fin 0 ms conn.data)
    (hgood : ∀ k m, ms[k]? = some m → Good k m) :
    ∃ ms', Messages read' framing' .eof 0 ms' (handle H (Loop.init conn)).out ∧
      List.Forall₂ Same ms ms' := by
  have hone : ∀ k, Relays H framing read' framing'
      (fun j m => j = k ∧ Good j m) Same := fun k =>
    { hR with
      proceeds := fun hg => hR.proceeds hg.2
      relays := fun hread hsize hok hg => hR.relays hread hsize hok hg.2 }
  obtain ⟨ms', hms', hall⟩ := relayed_each hone hfails hms hgood
  refine ⟨ms', hms', ?_⟩
  have hfst := List.forall₂_map_left_iff.mpr hall
  rwa [List.zipIdx_map_fst] at hfst

end Netramesh.Proofs
