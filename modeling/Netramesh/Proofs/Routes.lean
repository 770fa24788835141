import Netramesh.Lib.Text
import Netramesh.Protocol.Routing

/-!
# Routing values as tables

A routing value is documented as a table, `host1=host2,host3=host4`. On a value
that is one, `getRoutingDestination` is the lookup one expects: the first entry
that takes the host somewhere else decides, and entries for other hosts might
as well not be there.

What it does on other values is a different matter. The elements are checked on
the way to the answer and no further, so a bad element behind the entry that
decides is never seen; and an element with a second `=` is not bad at all.
-/

namespace Netramesh.Proofs

open Http Protocol

/-! ## The table -/

/-- An entry of a routing table. Neither side can hold a separator. -/
structure RouteEntry where
  key : Bytes
  val : Bytes
  key_plain : 44 ∉ key ∧ 61 ∉ key
  val_plain : 44 ∉ val ∧ 61 ∉ val

namespace RouteEntry

/-- The entry takes requests for `host` to another one. -/
def Routes (e : RouteEntry) (host : Bytes) : Prop :=
  e.key = host ∧ e.key ≠ e.val

instance (e : RouteEntry) (host : Bytes) : Decidable (e.Routes host) :=
  inferInstanceAs (Decidable (_ ∧ _))

/-- The address an entry leads to: port 80 unless it names one. -/
def address (e : RouteEntry) : Bytes :=
  if 58 ∈ e.val then e.val else e.val ++ lit ":80"

def text (e : RouteEntry) : Bytes := e.key ++ 61 :: e.val

theorem splitOn_text (e : RouteEntry) : e.text.splitOn 61 = [e.key, e.val] := by
  rw [text, List.splitOn_append_cons_self_of_not_mem e.key_plain.2,
    List.splitOn_eq_singleton e.val_plain.2]

theorem comma_notMem_text (e : RouteEntry) : 44 ∉ e.text := by
  simp [text, e.key_plain.1, e.val_plain.1]

end RouteEntry

/-- The table as a routing value. -/
def tableText (t : List RouteEntry) : Bytes :=
  List.intercalate [44] (t.map RouteEntry.text)

/-- Where the table takes a request: the first entry that routes its host
decides. -/
def lookupRoute (host originalDst : Bytes) (t : List RouteEntry) : Bytes :=
  ((t.find? fun e => e.Routes host).map RouteEntry.address).getD originalDst

theorem lookupRoute_cons_pos {host originalDst : Bytes} {e : RouteEntry}
    {t : List RouteEntry} (h : e.Routes host) :
    lookupRoute host originalDst (e :: t) = e.address := by
  simp [lookupRoute, h]

theorem lookupRoute_cons_neg {host originalDst : Bytes} {e : RouteEntry}
    {t : List RouteEntry} (h : ¬ e.Routes host) :
    lookupRoute host originalDst (e :: t) = lookupRoute host originalDst t := by
  simp [lookupRoute, h]

/-- The loop of `getRoutingDestination` over the elements of a table. -/
theorem destinationOf_table (value host originalDst : Bytes)
    (t : List RouteEntry) :
    destinationOf value host originalDst (t.map RouteEntry.text)
      = .ok (lookupRoute host originalDst t) := by
  induction t with
  | nil => rfl
  | cons e t ih =>
      rw [List.map_cons, destinationOf, e.splitOn_text]
      dsimp only
      by_cases hself : e.key = e.val
      · rw [if_pos hself, ih, lookupRoute_cons_neg fun h => h.2 hself]
      · rw [if_neg hself]
        by_cases hhost : host = e.key
        · rw [if_pos hhost, lookupRoute_cons_pos ⟨hhost.symm, hself⟩,
            RouteEntry.address]
          simp only [List.elem_eq_mem, decide_eq_true_eq]
        · rw [if_neg hhost, ih, lookupRoute_cons_neg fun h => hhost h.1.symm]

theorem getRoutingDestination_table {t : List RouteEntry} (ht : t ≠ [])
    (host originalDst : Bytes) :
    getRoutingDestination (tableText t) host originalDst
      = .ok (lookupRoute host originalDst t) := by
  have hsplit : (tableText t).splitOn 44 = t.map RouteEntry.text := by
    refine List.splitOn_intercalate 44 ?_ (by simpa using ht)
    intro p hp
    obtain ⟨e, _, rfl⟩ := List.mem_map.mp hp
    exact e.comma_notMem_text
  rw [getRoutingDestination, hsplit, destinationOf_table]

theorem lookupRoute_of_first {host originalDst : Bytes} {t : List RouteEntry}
    {i : Nat} {e : RouteEntry} (hi : t[i]? = some e) (he : e.Routes host)
    (hleast : ∀ j < i, ∀ e' : RouteEntry, t[j]? = some e' → ¬ e'.Routes host) :
    lookupRoute host originalDst t = e.address := by
  induction t generalizing i with
  | nil => cases hi
  | cons e₀ t ih =>
      cases i with
      | zero =>
          cases hi
          exact lookupRoute_cons_pos he
      | succ i =>
          rw [lookupRoute_cons_neg (hleast 0 (Nat.succ_pos i) e₀ rfl)]
          refine ih hi ?_
          intro j hj e' hj'
          exact hleast (j + 1) (by omega) e' hj'

theorem lookupRoute_of_none {host originalDst : Bytes} {t : List RouteEntry}
    (h : ∀ e ∈ t, ¬ e.Routes host) :
    lookupRoute host originalDst t = originalDst := by
  have hfind : t.find? (fun e => e.Routes host) = none := by
    rw [List.find?_eq_none]
    intro e he hr
    exact h e he (of_decide_eq_true hr)
  simp [lookupRoute, hfind]

/-- An entry that does not route the host can stand anywhere. -/
theorem lookupRoute_insert {host originalDst : Bytes} {e : RouteEntry}
    (h : ¬ e.Routes host) (l r : List RouteEntry) :
    lookupRoute host originalDst (l ++ e :: r) =
      lookupRoute host originalDst (l ++ r) := by
  simp [lookupRoute, List.find?_append, h]

/-- A routing value that is a table is looked up as one, and the entries that do
not route the host have no part in it. -/
theorem routing_table_lookup (t : List RouteEntry) (ht : t ≠ [])
    (host originalDst : Bytes) :
    (∃ addr, getRoutingDestination (tableText t) host originalDst = .ok addr) ∧
    (∀ (i : Nat) (e : RouteEntry), t[i]? = some e → e.Routes host →
      (∀ j < i, ∀ e' : RouteEntry, t[j]? = some e' → ¬ e'.Routes host) →
      getRoutingDestination (tableText t) host originalDst = .ok e.address) ∧
    ((∀ e ∈ t, ¬ e.Routes host) →
      getRoutingDestination (tableText t) host originalDst = .ok originalDst) ∧
    (∀ l r e, t = l ++ r → ¬ e.Routes host →
      getRoutingDestination (tableText (l ++ e :: r)) host originalDst
        = getRoutingDestination (tableText t) host originalDst) := by
  refine ⟨⟨_, getRoutingDestination_table ht host originalDst⟩, ?_, ?_, ?_⟩
  · intro i e hi he hleast
    rw [getRoutingDestination_table ht, lookupRoute_of_first hi he hleast]
  · intro hnone
    rw [getRoutingDestination_table ht, lookupRoute_of_none hnone]
  · rintro l r e rfl he
    rw [getRoutingDestination_table (by simp), getRoutingDestination_table ht,
      lookupRoute_insert he]

theorem routing_table_lookup_shop :
    getRoutingDestination (lit "a=a,shop=cart,shop=till:81") (lit "shop")
      (lit "10.0.0.9:8080")
      = .ok (lit "cart:80") := by
  let t : List RouteEntry :=
    [⟨lit "a", lit "a", by decide, by decide⟩,
      ⟨lit "shop", lit "cart", by decide, by decide⟩,
      ⟨lit "shop", lit "till:81", by decide, by decide⟩]
  refine (routing_table_lookup t (List.cons_ne_nil _ _) (lit "shop")
    (lit "10.0.0.9:8080")).2.1 1
    ⟨lit "shop", lit "cart", by decide, by decide⟩ rfl (by decide) ?_
  intro j hj e' he'
  obtain rfl : j = 0 := by omega
  cases he'
  decide

example :
    getRoutingDestination (lit "a=a,shop=cart") (lit "shop")
      (lit "10.0.0.9:8080")
    = .ok (lit "cart:80") := by
  rfl

/-! ## Values that are no table -/

/-- The documented form: every element has one `=`. -/
def Documented (value : Bytes) : Prop := ∀ p ∈ value.splitOn 44, p.count 61 = 1

instance (value : Bytes) : Decidable (Documented value) :=
  inferInstanceAs (Decidable (∀ p ∈ value.splitOn 44, p.count 61 = 1))

/-- `getRoutingDestination` returns an error. -/
def Rejected (value host originalDst : Bytes) : Prop :=
  ∃ err, getRoutingDestination value host originalDst = .error err

instance (value host originalDst : Bytes) :
    Decidable (Rejected value host originalDst) :=
  match h : getRoutingDestination value host originalDst with
  | .ok _ => .isFalse fun ⟨_, he⟩ => by rw [h] at he; cases he
  | .error err => .isTrue ⟨err, h⟩

/-- All hosts get the same verdict on the value, and it is an error exactly on a
value that is not of the documented form. -/
def RejectsMalformed (value : Bytes) : Prop :=
  ∀ host host' originalDst, (Rejected value host originalDst ↔
    Rejected value host' originalDst) ∧
    (Rejected value host originalDst ↔ ¬ Documented value)

/-- An element whose first two parts are equal; the loop passes over it. -/
def Passed (p : Bytes) : Prop := ∃ key rest, p.splitOn 61 = key :: key :: rest

/-- An element without `=` is reached for every host: nothing before it can end
the search. -/
def Reached (value : Bytes) : Prop :=
  ∃ l p r, value.splitOn 44 = l ++ p :: r ∧ 61 ∉ p ∧ ∀ q ∈ l, Passed q

theorem splitOn_of_mem {p : Bytes} (h : 61 ∈ p) :
    ∃ key val rest, p.splitOn 61 = key :: val :: rest := by
  have hlen := length_splitOn 61 p
  have hpos := List.count_pos_iff.mpr h
  match hs : p.splitOn 61 with
  | [] => exact absurd hs (List.splitOn_ne_nil _ _)
  | [_] =>
      rw [hs, List.length_singleton] at hlen
      omega
  | key :: val :: rest => exact ⟨key, val, rest, rfl⟩

/-- The loop over the elements stops with an error if it gets to one without
`=`. -/
theorem destinationOf_error_of_passed {value host originalDst p : Bytes}
    {l r : List Bytes} (hp : 61 ∉ p) (hl : ∀ q ∈ l, Passed q) :
    ∃ err, destinationOf value host originalDst (l ++ p :: r) = .error err := by
  induction l with
  | nil =>
      rw [List.nil_append, destinationOf, List.splitOn_eq_singleton hp]
      exact ⟨_, rfl⟩
  | cons q l ih =>
      obtain ⟨key, rest, hq⟩ := hl q List.mem_cons_self
      rw [List.cons_append, destinationOf, hq]
      simp only [if_true]
      exact ih fun q' hq' => hl q' (List.mem_cons_of_mem _ hq')

/-- Where every element has its `=` the loop never fails. -/
theorem destinationOf_ok_of_mem (value host originalDst : Bytes)
    {ps : List Bytes} (h : ∀ p ∈ ps, 61 ∈ p) :
    ∃ addr, destinationOf value host originalDst ps = .ok addr := by
  induction ps with
  | nil => exact ⟨_, rfl⟩
  | cons p ps ih =>
      obtain ⟨key, val, rest, hp⟩ := splitOn_of_mem (h p List.mem_cons_self)
      have ih' := ih fun q hq => h q (List.mem_cons_of_mem _ hq)
      rw [destinationOf, hp]
      dsimp only
      split
      · exact ih'
      · split
        · exact ⟨_, rfl⟩
        · exact ih'

/-- If all hosts are rejected, the elements before the first one without `=` are
passed over: any other would end the search for its own key. -/
theorem passed_of_rejected (value originalDst : Bytes) {ps : List Bytes}
    (h : ∀ host, ∃ err, destinationOf value host originalDst ps = .error err) :
    ∃ l p r, ps = l ++ p :: r ∧ 61 ∉ p ∧ ∀ q ∈ l, Passed q := by
  induction ps with
  | nil =>
      obtain ⟨err, he⟩ := h []
      cases he
  | cons p ps ih =>
      by_cases hmem : 61 ∈ p
      · obtain ⟨key, val, rest, hp⟩ := splitOn_of_mem hmem
        have hself : key = val := by
          by_contra hne
          obtain ⟨err, he⟩ := h key
          rw [destinationOf, hp] at he
          simp only [if_neg hne, if_true] at he
          cases he
        subst hself
        have hrest : ∀ host, ∃ err, destinationOf value host originalDst ps =
            .error err := by
          intro host
          obtain ⟨err, he⟩ := h host
          rw [destinationOf, hp] at he
          simp only [if_true] at he
          exact ⟨err, he⟩
        obtain ⟨l, q, r, rfl, hq, hl⟩ := ih hrest
        refine ⟨p :: l, q, r, rfl, hq, ?_⟩
        intro q' hq'
        rcases List.mem_cons.mp hq' with rfl | hq'
        · exact ⟨key, rest, hp⟩
        · exact hl q' hq'
      · exact ⟨[], p, ps, rfl, hmem, by simp⟩

theorem mem_of_documented {value : Bytes} (h : Documented value) :
    ∀ p ∈ value.splitOn 44, 61 ∈ p := by
  intro p hp
  have hcount := h p hp
  exact List.count_pos_iff.mp (by omega)

theorem not_rejected_of_documented {value : Bytes} (h : Documented value)
    (host originalDst : Bytes) : ¬ Rejected value host originalDst := by
  rintro ⟨err, he⟩
  obtain ⟨addr, ha⟩ := destinationOf_ok_of_mem value host originalDst
    (mem_of_documented h)
  rw [getRoutingDestination, ha] at he
  cases he

theorem not_documented_of_reached {value : Bytes} (h : Reached value) :
    ¬ Documented value := by
  obtain ⟨l, p, r, hsplit, hp, _⟩ := h
  intro hdoc
  exact hp (mem_of_documented hdoc p (by rw [hsplit]; simp))

/-- The malformed values are rejected, for every host alike, exactly when there
are none or when the search cannot end before an element without `=`. -/
theorem rejects_malformed_iff (value : Bytes) :
    RejectsMalformed value ↔ Documented value ∨ Reached value := by
  constructor
  · intro h
    by_cases hdoc : Documented value
    · exact .inl hdoc
    · refine .inr (passed_of_rejected value [] ?_)
      intro host
      exact (h host host []).2.mpr hdoc
  · rintro (hdoc | hreach) host host' originalDst
    · have hnot := not_rejected_of_documented hdoc
      exact ⟨iff_of_false (hnot _ _) (hnot _ _),
        iff_of_false (hnot _ _) (not_not_intro hdoc)⟩
    · have hall : ∀ host, Rejected value host originalDst := by
        intro host
        obtain ⟨l, p, r, hsplit, hp, hl⟩ := hreach
        rw [Rejected, getRoutingDestination, hsplit]
        exact destinationOf_error_of_passed hp hl
      exact ⟨iff_of_true (hall _) (hall _),
        iff_of_true (hall _) (not_documented_of_reached hreach)⟩

/-- `shop` does not get to see the element that makes the value malformed. -/
theorem malformed_value_accepted : ¬ ∀ value, RejectsMalformed value := by
  intro h
  have hbad := h (lit "shop=cart,oops") (lit "shop") (lit "till")
    (lit "10.0.0.9:8080")
  exact absurd hbad.1 (by decide +kernel)

end Netramesh.Proofs
