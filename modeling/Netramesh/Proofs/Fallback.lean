import Netramesh.Lib.System
import Netramesh.Proofs.Drain
import Netramesh.Proofs.Starts

/-!
# Falling back to plain forwarding

When a message cannot be parsed the handler writes the temp writer's content
and then what the reader still has. The temp writer holds the bytes that were
*fetched* in this round, the reader holds what is left after the bytes that
were *parsed*. Put together that is the rest of the stream exactly if the two
are the same. Bytes read ahead in an earlier round are parsed but not in the
temp writer, and are lost; bytes fetched and not parsed are in both, and are
sent twice.
-/

namespace Netramesh.Proofs

open Http Protocol Net Lib

variable {μ : Type}

/-- One forwarded message. -/
abbrev Rounds (H : Handler μ) (s t : Loop) : Prop := turn H s = .next t

/-- The round gives up parsing: the reader of the message fails, other than by
meeting the end of the stream with nothing before it, or the message is an
upgrade. -/
def GivesUp (H : Handler μ) (s : Loop) : Prop :=
  match (H.read (onTmp .start s.rd)).1 with
  | .error e => ¬ (e = .eof ∧ s.rd.view = [])
  | .ok m => H.isUpgrade m = true

/-- What the round writes. -/
def written (H : Handler μ) (s : Loop) : Bytes :=
  match turn H s with
  | .next t | .copied t | .returned t => t.out.drop s.out.length

/-- What was fetched from the connection, and what was taken off the view, on
the way from one reader to another. -/
def fetched (rd rd' : Reader Tee) : Bytes :=
  rd.src.conn.data.take (rd.src.conn.data.length - rd'.src.conn.data.length)

def consumed (rd rd' : Reader Tee) : Bytes :=
  rd.view.take (rd.view.length - rd'.view.length)

/-- The bytes the parser fetches in this round are the bytes it consumes; and it
does not fail with an error that makes the handler return at once while bytes
are pending. -/
def Aligned (H : Handler μ) (s : Loop) : Prop :=
  match H.read (onTmp .start s.rd) with
  | (.error e, rd) =>
    if e = .eof ∨ e.mentionsClosed then s.rd.view = [] else fetched s.rd rd =
      consumed s.rd rd
  | (.ok _, rd) => fetched s.rd rd = consumed s.rd rd

/-! ## The temp writer between rounds -/

theorem reads_fetched {rd rd' : Reader Tee} {c : Bytes} (h : Reads rd c rd') :
    consumed rd rd' = c ∧ rd'.src.tmp = rd.src.tmp.write (fetched rd rd') := by
  obtain ⟨_, p, ⟨hdata, _, htmp⟩, hbuf⟩ := id h
  have hf : fetched rd rd' = p := by
    unfold fetched
    rw [hdata, List.length_append, Nat.add_sub_cancel, List.take_left]
  refine ⟨?_, by rw [hf]; exact htmp⟩
  unfold consumed
  rw [h.view, List.length_append, Nat.add_sub_cancel, List.take_left]

theorem view_onTmp (f : TempWriter → TempWriter) (rd : Reader Tee) :
    (onTmp f rd).view = rd.view := rfl

/-- At the top of a round the temp writer is empty, and the reader stands
somewhere in the stream. -/
structure Top (stream : Bytes) (s : Loop) : Prop where
  empty : s.rd.src.tmp.buf = []
  suffix : s.rd.view <:+ stream

theorem top_init (conn : Conn) : Top conn.data (Loop.init conn) :=
  ⟨rfl, List.suffix_refl _⟩

theorem write_of_stopped {tw : TempWriter} (h : tw.stopped = true) (b : Bytes) :
    tw.write b = tw := by
  rw [TempWriter.write, if_pos h]

/-- A round that forwards a message, unfolded. -/
theorem turn_next {H : Handler μ} {s t : Loop} (h : turn H s = .next t) :
    ∃ m rd c, H.read (onTmp .start s.rd) = (.ok m, rd) ∧ H.isUpgrade m = false ∧
      (H.forward s.count m (s.copy H m rd)).2 = c ∧
      t = { rd := c.rd, out := c.out.bytes, count := s.count + 1 } := by
  unfold turn at h
  split at h
  · split at h <;> cases h
  · next m rd hread =>
      split at h
      · cases h
      · next hup =>
          cases h
          exact ⟨m, rd, _, hread, by simpa using hup, rfl, rfl⟩

/-- Forwarding leaves the temp writer empty and the reader further on in the
stream. -/
theorem top_forward {H : Handler μ} (hH : Conserves H) {stream : Bytes}
    {s : Loop} (hs : Top stream s) {r : Except Err μ} {rd : Reader Tee}
    (hread : H.read (onTmp .start s.rd) = (r, rd)) (m : μ) (out : Bytes)
    (count : Nat) :
    Top stream
      { rd := (H.forward s.count m
      (s.copy H m rd)).2.rd, out := out, count := count } := by
  obtain ⟨x, hx⟩ := Reads.of_lawful hH.read hread
  obtain ⟨y, hy⟩ := hH.forward s.count m (s.copy H m rd)
  refine ⟨?_, ?_⟩
  · rw [(reads_fetched hy).2]
    exact congrArg TempWriter.buf (write_of_stopped rfl _)
  · have h1 : (H.forward s.count m (s.copy H m rd)).2.rd.view <:+ rd.view :=
      ⟨y, hy.view.symm⟩
    have h2 : rd.view <:+ s.rd.view := ⟨x, hx.view.symm⟩
    exact (h1.trans h2).trans hs.suffix

theorem top_next {H : Handler μ} (hH : Conserves H) {stream : Bytes}
    {s t : Loop} (hs : Top stream s) (h : turn H s = .next t) :
    Top stream t := by
  obtain ⟨m, rd, c, hread, _, rfl, rfl⟩ := turn_next h
  exact top_forward hH hs hread m _ _

theorem top_reaches {H : Handler μ} (hH : Conserves H) {conn : Conn} {s : Loop}
    (h : Reaches (Rounds H) (Loop.init conn) s) : Top conn.data s :=
  Reaches.invariant (fun _ _ hs ht => top_next hH hs ht) (top_init conn) h

/-! ## The fallback -/

theorem fallback_bytes {H : Handler μ} {s : Loop}
    (h : NoFail (H.world.fails s.count)) (rd : Reader Tee) :
    (fallback H s rd).out = s.out ++ (rd.src.tmp.buf ++ rd.view) := by
  obtain ⟨_, hbytes, hfails⟩ := write_ok (o := s.sink H) h rd.src.tmp.buf
  unfold fallback
  dsimp only
  rw [(write_ok hfails rd.view).2.1, hbytes, List.append_assoc]
  rfl

/-- The temp writer holds what was fetched, and what was consumed comes before
what the reader still has. -/
theorem fetched_and_rest {s : Loop} {rd : Reader Tee} {c : Bytes}
    (hempty : s.rd.src.tmp.buf = []) (hreads : Reads (onTmp .start s.rd) c rd) :
    rd.src.tmp.buf = fetched s.rd rd ∧ s.rd.view =
      consumed s.rd rd ++ rd.view := by
  obtain ⟨hc, htmp⟩ := reads_fetched hreads
  refine ⟨?_, ?_⟩
  · rw [htmp]
    simp only [onTmp, TempWriter.start, TempWriter.write, Bool.false_eq_true,
      if_false, hempty, List.nil_append]
    rfl
  · have := hreads.view
    rw [view_onTmp, ← hc] at this
    exact this

/-- Copying gives back the stream exactly if what was fetched is what was
consumed. -/
theorem fallback_eq_iff {s : Loop} {rd : Reader Tee} {c : Bytes}
    (hempty : s.rd.src.tmp.buf = []) (hreads : Reads (onTmp .start s.rd) c rd) :
    rd.src.tmp.buf ++ rd.view = s.rd.view ↔ fetched s.rd rd =
      consumed s.rd rd := by
  obtain ⟨hbuf, hview⟩ := fetched_and_rest hempty hreads
  rw [hbuf, hview, List.append_left_inj]

theorem written_eq_iff {H : Handler μ} (hH : Conserves H) {stream : Bytes}
    {s : Loop} (hs : Top stream s) (hok : NoFail (H.world.fails s.count))
    (hg : GivesUp H s) :
    written H s = s.rd.view ↔ Aligned H s := by
  unfold written Aligned turn
  unfold GivesUp at hg
  cases hread : H.read (onTmp .start s.rd) with
  | mk r rd =>
    obtain ⟨c, hc⟩ := Reads.of_lawful hH.read hread
    have hiff := fallback_eq_iff hs.empty hc
    rw [hread] at hg
    cases r with
    | error e =>
      dsimp only
      by_cases he : e = .eof ∨ e.mentionsClosed = true
      · simp only [if_pos he, List.drop_length]
        exact eq_comm
      · simp only [if_neg he]
        rw [fallback_bytes hok, List.drop_left]
        exact hiff
    | ok m =>
      dsimp only at hg ⊢
      rw [if_pos hg]
      dsimp only
      rw [fallback_bytes hok, List.drop_left]
      exact hiff

/-! ## Concrete rounds -/

instance (H : Handler μ) (s : Loop) : Decidable (GivesUp H s) :=
  match h : (H.read (onTmp .start s.rd)).1 with
  | .error e => decidable_of_iff (¬ (e = .eof ∧ s.rd.view = []))
      (by simp [GivesUp, h])
  | .ok m => decidable_of_iff (H.isUpgrade m = true) (by simp [GivesUp, h])

instance (H : Handler μ) (s : Loop) : Decidable (Aligned H s) :=
  match h : H.read (onTmp .start s.rd) with
  | (.error e, rd) =>
    decidable_of_iff (if e = .eof ∨ e.mentionsClosed then s.rd.view = []
      else fetched s.rd rd = consumed s.rd rd) (by simp [Aligned, h])
  | (.ok _, rd) => decidable_of_iff (fetched s.rd rd = consumed s.rd rd)
      (by simp [Aligned, h])

/-- The state after a round that forwards a message. -/
def afterRound (H : Handler μ) (s : Loop) : Option Loop :=
  match turn H s with
  | .next t => some t
  | _ => none

theorem rounds_of_afterRound {H : Handler μ} {s t : Loop}
    (h : afterRound H s = some t) :
    Rounds H s t := by
  unfold afterRound at h
  split at h
  · next ht =>
      cases h
      exact ht
  · cases h

/-- The surroundings of a request that brings nothing along. -/
def plainTrip : Nat → Trip Bytes := fun _ =>
  { uuid := ⟨lit "id", by decide⟩, cache := [], injected := none }

/-- `HandleRequest` on an inbound connection, and `HandleResponse` where no
request is a HEAD. -/
def plainRequests (w : World) : Handler Request :=
  requestHandler HTTPConfig.default true plainTracer (fun _ => none) plainTrip w

def plainResponses (w : World) : Handler Response :=
  responseHandler false (fun _ => false) w

end Netramesh.Proofs
