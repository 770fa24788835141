import Netramesh.Lib.Text

/-!
# Where a connection was going

The kernel tells `HandleConnection` the original destination of a connection as
six bytes, two for the port and four for the address. They are written out as
`ip:port`, and the port is split off again to decide which handler the
connection gets.
-/

namespace Netramesh.Protocol

/-- `Proto`. -/
inductive Proto
  | http
  | tcp
  deriving DecidableEq

/-- `Determine`; `none` is an index out of range. -/
def determine (httpPorts : List Bytes) (addr : Bytes) : Option Proto :=
  ((addr.splitOn 58)[1]?).map fun port =>
    if httpPorts.elem port then .http else .tcp

end Netramesh.Protocol

namespace Netramesh.Transport

/-- `addr.Multiaddr[2:8]`, as `SO_ORIGINAL_DST` fills it. -/
structure Multiaddr where
  portHi : UInt8
  portLo : UInt8
  a : UInt8
  b : UInt8
  c : UInt8
  d : UInt8

namespace Multiaddr

/-- `ipv4`. -/
def ipv4 (m : Multiaddr) : Bytes :=
  itoa m.a.toNat ++ [46] ++ itoa m.b.toNat ++ [46] ++ itoa m.c.toNat ++ [46] ++
    itoa m.d.toNat

/-- `port`. -/
def port (m : Multiaddr) : UInt16 :=
  (m.portHi.toUInt16 <<< 8) + m.portLo.toUInt16

/-- `originalDstAddr`. -/
def originalDstAddr (m : Multiaddr) : Bytes :=
  m.ipv4 ++ [58] ++ itoa m.port.toNat

/-- `isInBoundConn`: the connection was for the address it arrived at. -/
def isInBoundConn (localAddr : Bytes) (m : Multiaddr) : Bool :=
  m.ipv4 = (localAddr.splitOn 58).headD []

theorem colon_notMem_itoa (n : Nat) : 58 ∉ itoa n := by
  intro h
  obtain ⟨d, hd, heq⟩ := mem_itoa h
  exact (by decide : ∀ d, d < 10 → (58 : UInt8) ≠ digit d) d hd heq

theorem colon_notMem_ipv4 (m : Multiaddr) : 58 ∉ m.ipv4 := by
  simp [ipv4, colon_notMem_itoa]

/-- The two sides of an original destination are split off again as they
were. -/
theorem splitOn_originalDstAddr (m : Multiaddr) :
    m.originalDstAddr.splitOn 58 = [m.ipv4, itoa m.port.toNat] := by
  rw [originalDstAddr, List.append_assoc, List.singleton_append,
    List.splitOn_append_cons_self_of_not_mem m.colon_notMem_ipv4,
    List.splitOn_eq_singleton (colon_notMem_itoa _)]

/-- Every port is the port of some destination. -/
theorem exists_port {n : Nat} (hn : n < 2 ^ 16) :
    ∃ m : Multiaddr, m.port.toNat = n := by
  refine ⟨⟨UInt8.ofNat (n / 256), UInt8.ofNat n, 10, 0, 0, 9⟩, ?_⟩
  simp [port, Nat.shiftLeft_eq]
  omega

end Multiaddr

theorem determine_originalDstAddr (httpPorts : List Bytes) (m : Multiaddr) :
    Protocol.determine httpPorts m.originalDstAddr
      = some (if itoa m.port.toNat ∈ httpPorts then .http else .tcp) := by
  rw [Protocol.determine, m.splitOn_originalDstAddr]
  simp only [List.elem_iff]
  rfl

end Netramesh.Transport
