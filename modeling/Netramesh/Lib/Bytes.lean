import Mathlib.Algebra.Group.Nat.Defs
import Mathlib.Algebra.Ring.Int.Defs
import Mathlib.Data.List.DropRight
import Mathlib.Data.List.Infix
import Mathlib.Data.List.Sort

/-!
# Byte strings

A Go string or byte slice is a list of bytes. This file holds the handful of
`strings`, `bytes` and `strconv` operations the proxy's parsers and writers
are built from, each under a name close to the one the Go library gives it,
with the equations the later proofs rewrite by.

Where the library works on runes the definitions here work on the bytes of
their UTF-8 encoding. Two places need care, and both are spelled out at the
definition: `trimSpace` knows the multi-byte white space runes, and `toLower`
knows the two non-ASCII runes whose lower case is ASCII.
-/

namespace Netramesh

/-- A byte string. -/
abbrev Bytes := List UInt8

/-- The bytes of an ASCII literal. -/
def lit (s : String) : Bytes := s.toList.map fun c => UInt8.ofNat c.toNat

/-- Line feed, carriage return, space, tab. -/
abbrev nl : UInt8 := 10
abbrev cr : UInt8 := 13
abbrev sp : UInt8 := 32
abbrev tab : UInt8 := 9

abbrev crlf : Bytes := [13, 10]

/-- A fact about all 256 bytes, in the form `decide` can check. -/
theorem forall_byte {P : UInt8 → Prop} (h : ∀ n, n < 256 → P (UInt8.ofNat n))
    (b : UInt8) :
    P b := by
  have hb := h b.toNat b.toNat_lt
  rwa [UInt8.ofNat_toNat] at hb

/-! ## Cutting at a byte -/

/-- `s` cut around the first `c`: what stands before it and what stands after
it. `none` is `strings.IndexByte` answering `-1`. -/
def cutByte (c : UInt8) : Bytes → Option (Bytes × Bytes)
  | [] => none
  | b :: s =>
    if b = c then some ([], s)
    else (cutByte c s).map fun p => (b :: p.1, p.2)

theorem cutByte_eq_some {c : UInt8} {s l r : Bytes} :
    cutByte c s = some (l, r) ↔ s = l ++ c :: r ∧ c ∉ l := by
  induction s generalizing l with
  | nil => simp [cutByte]
  | cons b s ih =>
      rw [cutByte]
      split
      · next hb =>
          subst hb
          constructor
          · intro h
            simp only [Option.some.injEq, Prod.mk.injEq] at h
            obtain ⟨rfl, rfl⟩ := h
            simp
          · rintro ⟨heq, hnot⟩
            cases l with
            | nil => simpa using heq
            | cons x xs =>
                simp only [List.cons_append, List.cons.injEq] at heq
                exact absurd (heq.1 ▸ List.mem_cons_self) hnot
      · next hb =>
          constructor
          · intro h
            obtain ⟨⟨l', r'⟩, hp, hlr⟩ := Option.map_eq_some_iff.mp h
            simp only [Prod.mk.injEq] at hlr
            obtain ⟨rfl, rfl⟩ := hlr
            obtain ⟨rfl, hnot⟩ := ih.mp hp
            simp [hnot, Ne.symm hb]
          · rintro ⟨heq, hnot⟩
            cases l with
            | nil =>
                simp only [List.nil_append, List.cons.injEq] at heq
                exact absurd heq.1 hb
            | cons x xs =>
                simp only [List.cons_append, List.cons.injEq] at heq
                obtain ⟨rfl, rfl⟩ := heq
                have hxs : c ∉ xs := fun h => hnot (List.mem_cons_of_mem _ h)
                rw [ih.mpr ⟨rfl, hxs⟩]
                rfl

theorem cutByte_eq_none {c : UInt8} {s : Bytes} :
    cutByte c s = none ↔ c ∉ s := by
  induction s with
  | nil => simp [cutByte]
  | cons b s ih =>
      rw [cutByte]
      split
      · next hb => simp [hb]
      · next hb => simp [ih, Ne.symm hb]

theorem cutByte_append {c : UInt8} {l r : Bytes} (h : c ∉ l) :
    cutByte c (l ++ c :: r) = some (l, r) :=
  cutByte_eq_some.mpr ⟨rfl, h⟩

/-! ## Trimming and letter case -/

/-- The bytes `textproto` and `httpguts` trim off a line or a list element. -/
def isOWS (b : UInt8) : Bool := b == sp || b == tab

/-- `textproto.TrimString`'s and the chunk reader's `isASCIISpace`. -/
def isASCIISpace (b : UInt8) : Bool := b == sp || b == tab || b == nl || b == cr

/-- Drop the bytes satisfying `p` from both ends. -/
def trimBy (p : UInt8 → Bool) (s : Bytes) : Bytes :=
  (s.dropWhile p).rdropWhile p

/-- The white space runes of `unicode.IsSpace`, in UTF-8. -/
def spaceRunes : List Bytes :=
  [[9], [10], [11], [12], [13], [32], [0xC2, 0x85], [0xC2, 0xA0],
   [0xE1, 0x9A, 0x80], [0xE2, 0x80, 0x80], [0xE2, 0x80, 0x81],
   [0xE2, 0x80, 0x82], [0xE2, 0x80, 0x83], [0xE2, 0x80, 0x84],
   [0xE2, 0x80, 0x85], [0xE2, 0x80, 0x86], [0xE2, 0x80, 0x87],
   [0xE2, 0x80, 0x88], [0xE2, 0x80, 0x89], [0xE2, 0x80, 0x8A],
   [0xE2, 0x80, 0xA8], [0xE2, 0x80, 0xA9], [0xE2, 0x80, 0xAF],
   [0xE2, 0x81, 0x9F], [0xE3, 0x80, 0x80]]

/-- Drop leading members of `rs` from `s`, at most `fuel` of them. -/
def dropRunes (rs : List Bytes) : Nat → Bytes → Bytes
  | 0, s => s
  | fuel + 1, s =>
    match rs.find? (·.isPrefixOf s) with
    | none => s
    | some r => dropRunes rs fuel (s.drop r.length)

/-- `strings.TrimSpace`. The right end is trimmed on the reversed string, where
each rune's bytes come reversed too. -/
def trimSpace (s : Bytes) : Bytes :=
  let t := dropRunes spaceRunes s.length s
  (dropRunes (spaceRunes.map List.reverse) t.length t.reverse).reverse

def lowerByte (b : UInt8) : UInt8 := if 65 ≤ b ∧ b ≤ 90 then b + 32 else b

/-- `strings.ToLower`, as far as a comparison with ASCII text can tell: the
Kelvin sign and the dotted capital I are the only runes outside ASCII whose
lower case is an ASCII letter; every other rune above ASCII is left alone. -/
def toLower : Bytes → Bytes
  | 0xE2 :: 0x84 :: 0xAA :: s => 107 :: toLower s
  | 0xC4 :: 0xB0 :: s => 105 :: toLower s
  | b :: s => lowerByte b :: toLower s
  | [] => []

/-- `strings.Contains`. -/
def contains (s sub : Bytes) : Bool := decide (sub <:+: s)

/-- `httpguts.tokenEqual`: equal up to ASCII letter case, nothing above
ASCII. -/
def tokenEqual (t₁ t₂ : Bytes) : Bool :=
  t₁.all (· < 128) && t₁.map lowerByte == t₂.map lowerByte

/-! ## Numbers -/

def digit (d : Nat) : UInt8 := UInt8.ofNat (if d < 10 then 48 + d else 87 + d)

/-- The digits of `n` in base `b`, most significant first. -/
def formatBase (b : Nat) : Nat → Nat → Bytes
  | 0, _ => []
  | fuel + 1, n =>
    if n < b then [digit n] else formatBase b fuel (n / b) ++ [digit (n % b)]

/-- `strconv.Itoa` and `FormatInt(_, 10)` of a natural number. -/
def itoa (n : Nat) : Bytes := formatBase 10 (n + 1) n

/-- The `%x` verb. -/
def hex (n : Nat) : Bytes := formatBase 16 (n + 1) n

/-- The digit a byte stands for, as `parseHexUint` reads it. -/
def hexVal (b : UInt8) : Option Nat :=
  if 48 ≤ b ∧ b ≤ 57 then some (b.toNat - 48)
  else if 97 ≤ b ∧ b ≤ 102 then some (b.toNat - 87)
  else if 65 ≤ b ∧ b ≤ 70 then some (b.toNat - 55)
  else none

def decVal (b : UInt8) : Option Nat :=
  if 48 ≤ b ∧ b ≤ 57 then some (b.toNat - 48) else none

/-- Read `s` as digits in base `b`, continuing from `acc`; `none` on a byte that
is no digit. -/
def readDigits (b : Nat) (val : UInt8 → Option Nat) : Nat → Bytes → Option Nat
  | acc, [] => some acc
  | acc, c :: s =>
    match val c with
    | none => none
    | some d => readDigits b val (acc * b + d) s

/-- `strconv.ParseUint(s, 10, 64)`, without its upper bound. -/
def parseUint (s : Bytes) : Option Nat :=
  if s = [] then none else readDigits 10 decVal 0 s

/-- `strconv.ParseInt(s, 10, 64)` and, on a 64-bit machine, `strconv.Atoi`. -/
def parseInt (s : Bytes) : Option Int :=
  match s with
  | 43 :: ds =>
    (parseUint ds).bind fun n => if n < 2 ^ 63 then some (n : Int) else none
  | 45 :: ds =>
    (parseUint ds).bind fun n => if n ≤ 2 ^ 63 then some (-(n : Int)) else none
  | ds =>
    (parseUint ds).bind fun n => if n < 2 ^ 63 then some (n : Int) else none

end Netramesh
