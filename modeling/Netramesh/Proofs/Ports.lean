import Netramesh.Config.Global
import Netramesh.Transport.Destination

/-!
# Which ports are HTTP

Three places have to agree on how a port is spelt: the check of
`NETRA_HTTP_PORTS`, which reads numbers; the set of ports, which keeps what was
written; and the port of a connection, which is printed without leading zeros.
So `080` is accepted and never found. A list works exactly if every port in it
is there in its plain spelling.
-/

namespace Netramesh.Proofs

open Config Protocol Transport

/-- An element of the list denotes the port. -/
def Denotes (v : Bytes) (port : Nat) : Prop :=
  ∃ e ∈ v.splitOn 44, parseUintBits 16 e = .ok port

/-- Connections to the ports denoted by the list are HTTP, all others are
not. -/
def PortsEffective (v : Bytes) (g : Global) : Prop :=
  ∀ m : Multiaddr,
    (determine g.httpProtoPorts m.originalDstAddr = some .http ∧
      Denotes v m.port.toNat) ∨
      (determine g.httpProtoPorts m.originalDstAddr = some .tcp ∧
        ¬ Denotes v m.port.toNat)

/-- An element spelt as `Itoa` does; what is no number stays as it is. -/
def plainPort (e : Bytes) : Bytes :=
  match parseUintBits 16 e with
  | .ok n => itoa n
  | .error _ => e

/-- Every port of the list is listed in its plain spelling. -/
def PlainlySpelt (v : Bytes) : Prop :=
  ∀ e ∈ v.splitOn 44, plainPort e ∈ v.splitOn 44

instance (v : Bytes) : Decidable (PlainlySpelt v) :=
  inferInstanceAs (Decidable (∀ e ∈ v.splitOn 44, _))

theorem plainPort_of_ok {e : Bytes} {n : Nat} (h : parseUintBits 16 e = .ok n) :
    plainPort e = itoa n := by
  rw [plainPort, h]

/-- The plain spelling of a port is looked up in the list as it was written. -/
theorem itoa_mem_ports {v : Bytes} {ports : List Bytes}
    (h : httpPorts v = .ok ports) (n : Nat) :
    itoa n ∈ ports ↔ itoa n ∈ v.splitOn 44 := by
  by_cases hv : v = []
  · subst hv
    cases h
    simp [itoa_ne_nil n]
  · exact mem_httpPorts h hv (itoa n)

theorem denotes_of_mem {v : Bytes} {n : Nat} (hn : n < 2 ^ 16)
    (h : itoa n ∈ v.splitOn 44) :
    Denotes v n :=
  ⟨itoa n, h, parseUintBits_itoa hn⟩

/-- The accepted ports take effect exactly when each is spelt plainly somewhere
in the list. -/
theorem ports_effective_iff {getenv : Bytes → Bytes} {g : Global}
    (h : globalConfigFromENV getenv = .ok g) :
    PortsEffective (getenv (lit "NETRA_HTTP_PORTS")) g ↔
      PlainlySpelt (getenv (lit "NETRA_HTTP_PORTS")) := by
  obtain ⟨hports, -, -⟩ := globalConfigFromENV_eq_ok h
  generalize getenv (lit "NETRA_HTTP_PORTS") = v at hports
  constructor
  · intro heff e he
    cases hparse : parseUintBits 16 e with
    | error err =>
        rw [plainPort, hparse]
        exact he
    | ok n =>
        rw [plainPort_of_ok hparse]
        obtain ⟨m, hm⟩ := Multiaddr.exists_port
          (parseUintBits_eq_ok.mp hparse).2
        rcases heff m with ⟨hdet, _⟩ | ⟨_, hnot⟩
        · rw [determine_originalDstAddr, hm] at hdet
          by_contra hmem
          rw [if_neg (mt (itoa_mem_ports hports n).mp hmem)] at hdet
          cases hdet
        · exact absurd ⟨e, he, hm ▸ hparse⟩ hnot
  · intro hplain m
    rw [determine_originalDstAddr]
    by_cases hmem : itoa m.port.toNat ∈ g.httpProtoPorts
    · refine .inl ⟨by rw [if_pos hmem], ?_⟩
      exact denotes_of_mem m.port.toNat_lt ((itoa_mem_ports hports _).mp hmem)
    · refine .inr ⟨by rw [if_neg hmem], ?_⟩
      rintro ⟨e, he, hparse⟩
      have hin := hplain e he
      rw [plainPort_of_ok hparse] at hin
      exact hmem ((itoa_mem_ports hports _).mpr hin)

/-- An environment with nothing set but the ports. -/
def onlyPorts (v name : Bytes) : Bytes :=
  if name = lit "NETRA_HTTP_PORTS" then v else []

theorem ports_effective_plain :
    ∃ g, globalConfigFromENV (onlyPorts (lit "80,8080")) = .ok g ∧
      PortsEffective (onlyPorts (lit "80,8080") (lit "NETRA_HTTP_PORTS"))
        g := by
  refine ⟨_, rfl, (ports_effective_iff rfl).mpr ?_⟩
  decide +kernel

/-- `080` is accepted, and port 80 is not HTTP. -/
theorem padded_port_without_effect :
    ∃ g, globalConfigFromENV (onlyPorts (lit "080")) = .ok g ∧
      ¬ PortsEffective (onlyPorts (lit "080") (lit "NETRA_HTTP_PORTS")) g := by
  refine ⟨_, rfl, ?_⟩
  intro heff
  rcases heff ⟨0, 80, 10, 0, 0, 9⟩ with ⟨hdet, _⟩ | ⟨_, hnot⟩
  · exact absurd hdet (by decide +kernel)
  · exact hnot ⟨lit "080", by decide +kernel, by decide +kernel⟩

end Netramesh.Proofs
