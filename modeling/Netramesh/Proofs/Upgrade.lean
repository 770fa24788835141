import Netramesh.Proofs.Verbatim

/-!
# Both directions of a protocol upgrade

`HandleRequest` leaves HTTP behind when the request asks for another protocol,
`HandleResponse` when the response switches to one. Each decides by itself, by
comparing the first `Connection` value as a whole; `shouldClose` asks the same
header for a token of a list, and takes the `Connection` fields out of a
response that lists `close`. So the two agree with the exchange exactly if the
first value that came is `upgrade` and nothing else, and still there, on both
sides of an upgrade and on neither side of anything else, and what they copy
from then on is the stream exactly if the round is aligned.
-/

namespace Netramesh.Proofs

open Http Protocol Net Lib

/-- Some `Connection` field lists the token `upgrade`. -/
def listsUpgrade (h : Header) : Bool :=
  headerValuesContainsToken (h.values (lit "Connection")) (lit "upgrade")

/-- The first `Connection` value is `upgrade` as a whole. -/
def isUpgrade (h : Header) : Bool :=
  toLower (h.get (lit "Connection")) = lit "upgrade"

/-- A response with this head switches protocols. -/
def switches (l : StatusLine) (h : Header) : Bool :=
  l.statusCode = 101 && listsUpgrade h

/-- `shouldClose` takes the `Connection` fields out of a response with this
head. -/
def losesConnection (l : StatusLine) (h : Header) : Bool :=
  headerValuesContainsToken (h.values (lit "Connection")) (lit "close") &&
    !decide (l.major < 1 ∨ (l.major = 1 ∧ l.minor = 0))

/-- The round gives up parsing for good, and hands on the message and every
later byte as they came. -/
def HandsOver {μ : Type} (H : Handler μ) (s : Loop) : Prop :=
  (∃ t, turn H s = .copied t) ∧ written H s = s.rd.view

/-- The round forwards a message, and the loop goes on parsing. -/
def Continues {μ : Type} (H : Handler μ) (s : Loop) : Prop :=
  ∃ t, turn H s = .next t

/-- A round that reads a message which is not an upgrade forwards it, and one
that reads an upgrade does not. -/
theorem continues_iff {μ : Type} {H : Handler μ} {s : Loop} {m : μ}
    {rd : Reader Tee} (hread : H.read (onTmp .start s.rd) = (.ok m, rd)) :
    Continues H s ↔ H.isUpgrade m = false := by
  unfold Continues turn
  rw [hread]
  dsimp only
  cases H.isUpgrade m with
  | false => simp
  | true => simp

theorem handsOver_iff {μ : Type} {H : Handler μ} (hH : Conserves H)
    {conn : Conn} {s : Loop} (hs : Reaches (Rounds H) (Loop.init conn) s)
    (hok : NoFail (H.world.fails s.count)) {m : μ} {rd : Reader Tee}
    (hread : H.read (onTmp .start s.rd) = (.ok m, rd)) :
    HandsOver H s ↔ H.isUpgrade m = true ∧ Aligned H s := by
  unfold HandsOver
  cases hup : H.isUpgrade m with
  | false =>
    obtain ⟨t, ht⟩ := (continues_iff hread).mpr hup
    constructor
    · rintro ⟨⟨u, hu⟩, _⟩
      rw [ht] at hu
      cases hu
    · rintro ⟨h, _⟩
      cases h
  | true =>
    have hturn : turn H s = .copied (fallback H s rd) := by
      rw [turn, hread]
      dsimp only
      rw [if_pos hup]
    have hgives : GivesUp H s := by
      unfold GivesUp
      rw [hread]
      exact hup
    rw [written_eq_iff hH (top_reaches hH hs) hok hgives]
    exact ⟨fun h => ⟨rfl, h.2⟩, fun h => ⟨⟨_, hturn⟩, h.2⟩⟩

/-! ## The fields as they came -/

/-- A request keeps its `Connection` fields. -/
theorem finishRequest_connection {l : RequestLine} {h : Header} {r : Request}
    (hok : finishRequest l h = .ok r) :
    r.header.values (lit "Connection") = h.values (lit "Connection") := by
  unfold finishRequest at hok
  dsimp only at hok
  split at hok
  · cases hok
  · next t ht =>
      cases hok
      obtain ⟨st⟩ := readTransfer_eq_ok ht
      have hsame :
        (shouldClose l.major l.minor
        (fixPragmaCacheControl (h.delete (lit "Host"))) false).2 =
          fixPragmaCacheControl (h.delete (lit "Host")) := by
        unfold shouldClose
        split
        · rfl
        · dsimp only
          split
          · rfl
          · rw [Bool.and_false]
            rfl
      have hh₀ : st.h₀ = fixPragmaCacheControl (h.delete (lit "Host")) :=
        (congrArg Prod.snd st.closes).symm.trans hsame
      show t.header.values (lit "Connection") = _
      rw [(TransferSteps.reframed st).values (by decide), hh₀, Header.values,
        Header.values,
        fixPragma_lookup (by decide), Header.lookup_delete_of_ne (by decide)]

/-- A response keeps them unless they list `close`. -/
theorem finishResponse_connection {l : StatusLine} {h : Header} {r : Response}
    (hok : finishResponse none l h = .ok r) :
    r.header.values (lit "Connection") =
      if losesConnection l h then [] else h.values (lit "Connection") := by
  unfold finishResponse at hok
  dsimp only at hok
  split at hok
  · cases hok
  · next t ht =>
      cases hok
      obtain ⟨st⟩ := readTransfer_eq_ok ht
      have hpragma : (fixPragmaCacheControl h).values (lit "Connection") =
          h.values (lit "Connection") := by
        rw [Header.values, Header.values, fixPragma_lookup (by decide)]
      have hh₀ : (shouldClose l.major l.minor (fixPragmaCacheControl h) true).2
          = st.h₀ :=
        congrArg Prod.snd st.closes
      show t.header.values (lit "Connection") = _
      rw [(TransferSteps.reframed st).values (by decide), ← hh₀,
        losesConnection, ← hpragma]
      unfold shouldClose
      by_cases hmajor : l.major < 1
      · simp [hmajor]
      · by_cases hold : l.major = 1 ∧ l.minor = 0
        · simp [hold]
        · rw [if_neg hmajor]
          dsimp only
          rw [if_neg hold, Bool.and_true,
            decide_eq_false (by simp [hmajor, hold]), Bool.not_false,
            Bool.and_true]
          dsimp only
          split
          · exact Header.values_delete_self _ _
          · rfl

theorem isUpgrade_congr {h h' : Header} (heq : h'.values (lit "Connection") =
    h.values (lit "Connection")) : isUpgrade h' = isUpgrade h := by
  unfold isUpgrade Header.get Header.first
  rw [show canonicalKey (lit "Connection") = lit "Connection" by decide, heq]

/-- What `HandleRequest` decides by. -/
theorem isUpgrade_request {l : RequestLine} {h : Header} {r : Request}
    (hok : finishRequest l h = .ok r) : isUpgrade r.header = isUpgrade h :=
  isUpgrade_congr (finishRequest_connection hok)

/-- What `HandleResponse` decides by. -/
theorem isUpgrade_response {l : StatusLine} {h : Header} {r : Response}
    (hok : finishResponse none l h = .ok r) :
    isUpgrade r.header = (isUpgrade h && !losesConnection l h) := by
  have hvalues := finishResponse_connection hok
  cases hloses : losesConnection l h with
  | false =>
    rw [hloses, if_neg (by simp)] at hvalues
    rw [isUpgrade_congr hvalues, Bool.not_false, Bool.and_true]
  | true =>
    rw [hloses, if_pos rfl] at hvalues
    rw [Bool.not_true, Bool.and_false]
    unfold isUpgrade Header.get Header.first
    rw [show canonicalKey (lit "Connection") = lit "Connection" by decide,
      hvalues]
    decide

section Exchange

variable {C : Type} (cfg : HTTPConfig) (isInbound : Bool) (tr : Tracer C)
  (idna : Bytes → Option Bytes) (trips : Nat → Trip C) (head : Nat → Bool)
    (w w' : World)

/-- What the two directions should do with an exchange, in the states in which
they read its request, which has the fields `h`, and its final response, which
has the status line `l'` and the fields `h'`. -/
structure Agree (s t : Loop) (h : Header) (l' : StatusLine) (h' : Header) :
    Prop where
  upgrade : listsUpgrade h = true → switches l' h' = true →
    HandsOver (requestHandler cfg isInbound tr idna trips w) s ∧
      HandsOver (responseHandler false head w') t
  other : switches l' h' = false →
    Continues (requestHandler cfg isInbound tr idna trips w) s ∧
      Continues (responseHandler false head w') t

end Exchange

/-! ## Two handshakes

One that a browser sends next to `keep-alive`, and one on its own. -/

/-- What the parser makes of what is in front of it. -/
theorem exists_read {α : Type} (f : Parser Tee Err α) (rd : Reader Tee)
    (p : α → Bool)
    (h : (match f rd with | (.ok a, _) => p a | _ => false) = true) :
    ∃ a rd', f rd = (.ok a, rd') ∧ p a = true := by
  cases hr : f rd with
  | mk r rd' =>
    rw [hr] at h
    cases r with
    | error e => cases h
    | ok a => exact ⟨a, rd', rfl, h⟩

def handshake (connection : Bytes) : Conn where
  data := lit "GET /ws HTTP/1.1\r\nConnection: " ++ connection ++ lit "\r\n\r\n"

def switching : Conn where
  data := lit "HTTP/1.1 101 Switching Protocols\r\nConnection: Upgrade\r\n\r\n"

end Netramesh.Proofs
