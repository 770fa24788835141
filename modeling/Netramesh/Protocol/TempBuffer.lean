import Netramesh.Lib.Bufio
import Netramesh.Net.Err

/-!
# The connection and the copy kept of it

A peer's bytes arrive in pieces of any size. Everything read from the
connection passes a tee, which writes it to a `TempWriter` as well; while the
writer is started it keeps what it is given, so that the handler can go back to
plain forwarding when a message cannot be parsed.
-/

namespace Netramesh.Protocol

open Net Lib

/-- The receiving end of a connection: what the peer will have sent, how the
network cuts it (a cut of `k` delivers `k + 1` bytes, of which a later read gets
what the first has no room for; without cuts a read gets all it asks for), and
how it ends. -/
structure Conn where
  data : Bytes
  cuts : List Nat := []
  fin : Err := .eof

namespace Conn

/-- The cuts that are left behind a read into `n` bytes. -/
def cutsAfter (n : Nat) : List Nat → List Nat
  | [] => []
  | cut :: cuts => if cut < n then cuts else (cut - n) :: cuts

/-- `conn.Read` into `n` bytes. -/
def read (n : Nat) (c : Conn) : Option ({ p : Bytes // p.length ≤ n } × Conn) :=
  if c.data = [] then none
  else
    let k := match c.cuts with | [] => n | cut :: _ => min n (cut + 1)
    some (⟨c.data.take k, (List.length_take_le _ _).trans (by
        dsimp only [k]; split <;> omega)⟩,
      { c with data := c.data.drop k, cuts := cutsAfter n c.cuts })

theorem read_eq_none {c : Conn} {n : Nat} : c.read n = none ↔ c.data = [] := by
  unfold read
  split <;> simp_all

theorem read_eq_some {c c' : Conn} {n : Nat} {p : { p : Bytes // p.length ≤ n }}
    (hn : 0 < n) (h : c.read n = some (p, c')) :
    p.1 ≠ [] ∧ c.data = p.1 ++ c'.data ∧ c'.fin = c.fin := by
  unfold read at h
  split at h
  · cases h
  · next hne =>
      simp only [Option.some.injEq, Prod.mk.injEq] at h
      obtain ⟨rfl, rfl⟩ := h
      refine ⟨?_, (List.take_append_drop _ _).symm, rfl⟩
      have hk :
          0 < (match c.cuts with | [] => n | cut :: _ => min n (cut + 1)) := by
        split <;> omega
      intro hnil
      rcases List.take_eq_nil_iff.mp hnil with h | h
      · omega
      · exact hne h

end Conn

/-- `TempWriter`. -/
structure TempWriter where
  stopped : Bool := false
  buf : Bytes := []

namespace TempWriter

/-- `TempWriter.Write`. -/
def write (tw : TempWriter) (b : Bytes) : TempWriter :=
  if tw.stopped then tw else { tw with buf := tw.buf ++ b }

/-- `TempWriter.Stop`. -/
def stop (_ : TempWriter) : TempWriter := { stopped := true, buf := [] }

/-- `TempWriter.Start`. -/
def start (tw : TempWriter) : TempWriter := { tw with stopped := false }

@[simp] theorem write_nil (tw : TempWriter) : tw.write [] = tw := by
  unfold write
  split <;> simp

theorem write_append (tw : TempWriter) (a b : Bytes) :
    tw.write (a ++ b) = (tw.write a).write b := by
  unfold write
  split
  · next h => simp
  · next h => simp [h]

end TempWriter

/-- `io.TeeReader(r, tmpWriter)`. -/
structure Tee where
  conn : Conn
  tmp : TempWriter := {}

instance : Source Err Tee where
  read n s := (s.conn.read n).map fun (p, c) => (p, ⟨c, s.tmp.write p.1⟩)
  rest s := s.conn.data
  fin s := s.conn.fin
  Pulls s p t := s.conn.data = p ++ t.conn.data ∧ t.conn.fin = s.conn.fin ∧
    t.tmp = s.tmp.write p
  pulls_nil s := ⟨rfl, rfl, by simp⟩
  pulls_trans := by
    rintro s t u p q ⟨h1, h2, h3⟩ ⟨h1', h2', h3'⟩
    exact ⟨by rw [h1, h1', List.append_assoc], h2'.trans h2,
      by rw [h3', h3, TempWriter.write_append]⟩
  pulls_rest h := h.1
  pulls_fin h := h.2.1
  read_none := by
    intro s n _
    rw [Option.map_eq_none_iff]
    exact Conn.read_eq_none
  read_some := by
    intro s n p t hn h
    obtain ⟨⟨p', c'⟩, hread, heq⟩ := Option.map_eq_some_iff.mp h
    cases heq
    obtain ⟨hne, hdata, hfin⟩ := Conn.read_eq_some hn hread
    exact ⟨hne, hdata, hfin, rfl⟩

end Netramesh.Protocol
