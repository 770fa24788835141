import Netramesh.Lib.Bytes

/-!
# Header maps

`Header` is the Go map from a field name to its values. A Go map has one entry
for each key and no order a program may rely on; the model keeps the entries
in a list and carries the uniqueness of the keys as a field, so a header with
two entries for one name cannot be built.

The raw operations (`values`, `put`, `delete`) take the key as it stands, the
way `h[k]` and `delete(h, k)` do. `Get`, `Set`, `Add` and `Del` first bring it
to canonical form.
-/

namespace Netramesh.Http

/-! ## Canonical field names -/

/-- The bytes of an RFC 7230 token: `textproto.validHeaderFieldByte` and
`httpguts.IsTokenRune` share this table. -/
def isTokenByte (b : UInt8) : Bool :=
  (97 ≤ b && b ≤ 122) || (65 ≤ b && b ≤ 90) || (48 ≤ b && b ≤ 57) ||
    (lit "!#$%&'*+-.^_`|~").contains b

/-- One byte of the casing pass: `upper` says that a word starts here. -/
def recase (upper : Bool) (c : UInt8) : UInt8 :=
  if upper && (97 ≤ c && c ≤ 122) then c - 32
  else if !upper && (65 ≤ c && c ≤ 90) then c + 32
  else c

/-- The casing pass of `canonicalMIMEHeaderKey`: a word starts after each
dash. -/
def capitalize : Bool → Bytes → Bytes
  | _, [] => []
  | upper, c :: s => recase upper c :: capitalize (recase upper c == 45) s

/-- `textproto.CanonicalMIMEHeaderKey`: a name with a byte that is no token
byte is returned unchanged. -/
def canonicalKey (k : Bytes) : Bytes :=
  if k.all isTokenByte then capitalize true k else k

theorem isTokenByte_recase (upper : Bool) :
    ∀ c, isTokenByte c = true → isTokenByte (recase upper c) = true :=
  forall_byte (by cases upper <;> decide +kernel)

theorem recase_idem (upper : Bool) :
    ∀ c, recase upper (recase upper c) = recase upper c :=
  forall_byte (by cases upper <;> decide +kernel)

theorem all_isTokenByte_capitalize {k : Bytes} (h : k.all isTokenByte = true) :
    ∀ upper, (capitalize upper k).all isTokenByte = true := by
  induction k with
  | nil => intro _; rfl
  | cons c s ih =>
      intro upper
      simp only [List.all_cons, Bool.and_eq_true] at h
      simp only [capitalize, List.all_cons, Bool.and_eq_true]
      exact ⟨isTokenByte_recase upper c h.1, ih h.2 _⟩

theorem capitalize_idem (k : Bytes) :
    ∀ upper, capitalize upper (capitalize upper k) = capitalize upper k := by
  induction k with
  | nil => intro _; rfl
  | cons c s ih =>
      intro upper
      simp only [capitalize, recase_idem, ih]

/-- Canonical names are left alone. -/
theorem canonicalKey_idem (k : Bytes) :
    canonicalKey (canonicalKey k) = canonicalKey k := by
  unfold canonicalKey
  split
  · next h => rw [if_pos (all_isTokenByte_capitalize h true), capitalize_idem]
  · next h => rfl

/-! ## The map -/

/-- `http.Header`. -/
structure Header where
  entries : List (Bytes × List Bytes)
  nodup : (entries.map Prod.fst).Nodup
  deriving DecidableEq

namespace Header

/-- `make(Header)`. -/
def empty : Header := ⟨[], List.nodup_nil⟩

instance : Inhabited Header := ⟨empty⟩

/-- `h[k]`: the values under exactly this key, none when it is absent. -/
def values (h : Header) (k : Bytes) : List Bytes := (h.entries.lookup k).getD []

/-- Whether the key is present, whatever its values. -/
def has (h : Header) (k : Bytes) : Bool := (h.entries.lookup k).isSome

/-- `delete(h, k)`. -/
def delete (h : Header) (k : Bytes) : Header :=
  ⟨h.entries.filter (fun e => e.1 ≠ k),
    (List.Sublist.map _ List.filter_sublist).nodup h.nodup⟩

/-- `h[k] = vs`. -/
def put (h : Header) (k : Bytes) (vs : List Bytes) : Header :=
  ⟨(h.delete k).entries ++ [(k, vs)], by
    rw [List.map_append, List.nodup_append]
    refine ⟨(h.delete k).nodup, by simp, ?_⟩
    intro a ha b hb
    simp only [delete, List.mem_map, List.mem_filter, decide_eq_true_eq] at ha
    obtain ⟨e, ⟨_, hne⟩, rfl⟩ := ha
    simp only [List.map_cons, List.map_nil, List.mem_singleton] at hb
    exact hb ▸ hne⟩

/-- `h.get(k)`: the first value under a key already in canonical form. -/
def first (h : Header) (k : Bytes) : Bytes := (h.values k).headD []

/-- `h.Get(k)`. -/
def get (h : Header) (k : Bytes) : Bytes := h.first (canonicalKey k)

/-- `h.Set(k, v)`. -/
def set (h : Header) (k v : Bytes) : Header := h.put (canonicalKey k) [v]

/-- `h.Add(k, v)`. -/
def add (h : Header) (k v : Bytes) : Header :=
  h.put (canonicalKey k) (h.values (canonicalKey k) ++ [v])

/-- `h.Del(k)`. -/
def del (h : Header) (k : Bytes) : Header := h.delete (canonicalKey k)

/-- `mergeSetHeader` on two maps that both exist: the entries of `src` replace
those of `dst`. -/
def merge (dst src : Header) : Header :=
  src.entries.foldl (fun h e => h.put e.1 e.2) dst

def keys (h : Header) : List Bytes := h.entries.map Prod.fst

theorem has_iff {h : Header} {k : Bytes} : h.has k = true ↔ k ∈ h.keys := by
  unfold has keys
  rw [Option.isSome_iff_exists, List.mem_map]
  constructor
  · rintro ⟨vs, hv⟩
    exact ⟨(k, vs), by
      obtain ⟨l₁, l₂, he, _⟩ := List.lookup_eq_some_iff.mp hv
      simp [he], rfl⟩
  · rintro ⟨⟨k', vs⟩, hmem, rfl⟩
    cases hl : h.entries.lookup k' with
    | some vs' => exact ⟨vs', rfl⟩
    | none =>
        exact absurd hmem (by simpa using List.lookup_eq_none_iff.mp hl _ hmem)

/-! ### What the operations leave -/

/-- Keys are not repeated, so an entry is what its key looks up. -/
theorem mem_iff_lookup {h : Header} {k : Bytes} {vs : List Bytes} :
    (k, vs) ∈ h.entries ↔ h.entries.lookup k = some vs := by
  have hn := h.nodup
  generalize h.entries = l at hn
  induction l with
  | nil => simp
  | cons e l ih =>
      rw [List.map_cons, List.nodup_cons] at hn
      rw [List.mem_cons, List.lookup_cons]
      by_cases hk : k = e.1
      · subst hk
        rw [beq_self_eq_true]
        dsimp only
        rw [Option.some.injEq]
        constructor
        · rintro (heq | hmem)
          · rw [← heq]
          · exact absurd (List.mem_map_of_mem hmem) hn.1
        · rintro rfl
          exact .inl rfl
      · rw [beq_false_of_ne hk]
        refine Iff.trans ?_ (ih hn.2)
        constructor
        · rintro (heq | hmem)
          · exact absurd (congrArg Prod.fst heq) hk
          · exact hmem
        · exact .inr

theorem lookup_ext {h h' : Header} {k : Bytes}
    (hmem : ∀ vs, (k, vs) ∈ h.entries ↔ (k, vs) ∈ h'.entries) :
    h.entries.lookup k = h'.entries.lookup k := by
  ext vs
  rw [← mem_iff_lookup, ← mem_iff_lookup]
  exact hmem vs

theorem mem_delete {h : Header} {k : Bytes} {e : Bytes × List Bytes} :
    e ∈ (h.delete k).entries ↔ e ∈ h.entries ∧ e.1 ≠ k := by
  simp [delete]

theorem mem_put {h : Header} {k : Bytes} {vs : List Bytes}
    {e : Bytes × List Bytes} :
    e ∈ (h.put k vs).entries ↔ (e ∈ h.entries ∧ e.1 ≠ k) ∨ e = (k, vs) := by
  rw [put, List.mem_append, List.mem_singleton, mem_delete]

theorem lookup_put_self (h : Header) (k : Bytes) (vs : List Bytes) :
    (h.put k vs).entries.lookup k = some vs :=
  mem_iff_lookup.mp (mem_put.mpr (.inr rfl))

theorem lookup_put_of_ne {h : Header} {k k' : Bytes} {vs : List Bytes}
    (hne : k' ≠ k) :
    (h.put k vs).entries.lookup k' = h.entries.lookup k' := by
  refine lookup_ext fun ws => ?_
  rw [mem_put]
  simp [hne]

theorem lookup_delete_self (h : Header) (k : Bytes) :
    (h.delete k).entries.lookup k = none := by
  cases hl : (h.delete k).entries.lookup k with
  | none => rfl
  | some vs => exact absurd rfl (mem_delete.mp (mem_iff_lookup.mpr hl)).2

theorem lookup_delete_of_ne {h : Header} {k k' : Bytes} (hne : k' ≠ k) :
    (h.delete k).entries.lookup k' = h.entries.lookup k' := by
  refine lookup_ext fun ws => ?_
  rw [mem_delete]
  simp [hne]

theorem values_of_mem {h : Header} {k : Bytes} {vs : List Bytes}
    (hm : (k, vs) ∈ h.entries) :
    h.values k = vs := by
  rw [values, mem_iff_lookup.mp hm, Option.getD_some]

theorem mem_of_mem_values {h : Header} {k v : Bytes} (hv : v ∈ h.values k) :
    ∃ vs, (k, vs) ∈ h.entries ∧ v ∈ vs := by
  unfold values at hv
  cases hl : h.entries.lookup k with
  | none => rw [hl] at hv; cases hv
  | some vs =>
    rw [hl] at hv
    exact ⟨vs, mem_iff_lookup.mpr hl, hv⟩

theorem values_put_self (h : Header) (k : Bytes) (vs : List Bytes) :
    (h.put k vs).values k = vs := by
  rw [values, lookup_put_self, Option.getD_some]

theorem values_put_of_ne {h : Header} {k k' : Bytes} {vs : List Bytes}
    (hne : k' ≠ k) :
    (h.put k vs).values k' = h.values k' := by
  rw [values, values, lookup_put_of_ne hne]

theorem values_delete_self (h : Header) (k : Bytes) :
    (h.delete k).values k = [] := by
  rw [values, lookup_delete_self, Option.getD_none]

theorem values_delete_of_ne {h : Header} {k k' : Bytes} (hne : k' ≠ k) :
    (h.delete k).values k' = h.values k' := by
  rw [values, values, lookup_delete_of_ne hne]

theorem has_put_self (h : Header) (k : Bytes) (vs : List Bytes) :
    (h.put k vs).has k = true := by
  rw [has, lookup_put_self, Option.isSome_some]

theorem has_put_of_ne {h : Header} {k k' : Bytes} {vs : List Bytes}
    (hne : k' ≠ k) :
    (h.put k vs).has k' = h.has k' := by
  rw [has, has, lookup_put_of_ne hne]

theorem has_delete_of_ne {h : Header} {k k' : Bytes} (hne : k' ≠ k) :
    (h.delete k).has k' = h.has k' := by
  rw [has, has, lookup_delete_of_ne hne]

theorem values_eq_nil_of_not_has {h : Header} {k : Bytes}
    (hk : h.has k = false) :
    h.values k = [] := by
  unfold has at hk
  rw [values, Option.isSome_eq_false_iff.mp hk |> Option.isNone_iff_eq_none.mp,
    Option.getD_none]

end Header

/-! ## Cookies -/

/-- `isCookieNameValid`. -/
def isCookieNameValid (raw : Bytes) : Bool := raw ≠ [] && raw.all isTokenByte

/-- `validCookieValueByte`. -/
def validCookieValueByte (b : UInt8) : Bool :=
  32 ≤ b && b < 127 && b != 34 && b != 59 && b != 92

/-- `parseCookieValue` with double quotes allowed. -/
def parseCookieValue (raw : Bytes) : Option Bytes :=
  let raw :=
    if 1 < raw.length && raw.head? = some 34 && raw.getLast? = some 34 then
      raw.tail.dropLast
    else raw
  if raw.all validCookieValueByte then some raw else none

/-- One attribute of a `Cookie` line. -/
def readCookie (filter part : Bytes) : Option (Bytes × Bytes) :=
  let part := trimSpace part
  if part = [] then none
  else
    let (name, val) := (cutByte 61 part).getD (part, [])
    if !isCookieNameValid name then none
    else if filter ≠ [] && filter ≠ name then none
    else (parseCookieValue val).map fun v => (name, v)

/-- `readCookies`: the cookies of the request as name and value, restricted to
the name `filter` unless that is empty. -/
def readCookies (h : Header) (filter : Bytes) : List (Bytes × Bytes) :=
  (h.values (lit "Cookie")).flatMap fun line =>
    ((trimSpace line).splitOn 59).filterMap (readCookie filter)

end Netramesh.Http
