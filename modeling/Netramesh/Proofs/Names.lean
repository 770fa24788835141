import Netramesh.Proofs.Reread
import Netramesh.Protocol.Trace

/-!
# Fields by name

Two lists of header fields are the same up to order if they have the same values
under each name. A header holds its fields by name already, and so what is left
of it after a few edits is best said name by name.
-/

namespace Netramesh.Proofs

open Http Protocol

/-- A name that `Extract` takes for the trace header. -/
def isTraceKey (k : Bytes) : Bool := toLower k == traceContextHeaderName

/-! ## The fields of a header -/

/-- The fields of a header, entry by entry. -/
def fieldsOf (entries : List (Bytes × List Bytes)) : List (Bytes × Bytes) :=
  entries.flatMap fun e => e.2.map fun v => (e.1, v)

theorem fieldsOf_append (es es' : List (Bytes × List Bytes)) :
    fieldsOf (es ++ es') = fieldsOf es ++ fieldsOf es' :=
  List.flatMap_append

theorem fieldsOf_perm {es es' : List (Bytes × List Bytes)} (h : es.Perm es') :
    (fieldsOf es).Perm (fieldsOf es') :=
  h.flatMap_right _

/-- The fields whose names pass a test are those of the entries that do. -/
theorem filter_fieldsOf (p : Bytes → Bool) (es : List (Bytes × List Bytes)) :
    (fieldsOf es).filter (fun f => p f.1) =
      fieldsOf (es.filter fun e => p e.1) := by
  induction es with
  | nil => rfl
  | cons e es ih =>
      have hcons : fieldsOf (e :: es) = (e.2.map fun v => (e.1, v)) ++
        fieldsOf es := rfl
      rw [hcons, List.filter_append, ih, List.filter_map, List.filter_cons]
      cases hp : p e.1 with
      | true =>
        have hall :
            (e.2.filter ((fun f : Bytes × Bytes => p f.1) ∘ fun v => (e.1, v)))
            = e.2 :=
          List.filter_eq_self.mpr fun _ _ => hp
        rw [hall, if_pos rfl]
        rfl
      | false =>
        have hnone :
            (e.2.filter ((fun f : Bytes × Bytes => p f.1) ∘ fun v => (e.1, v)))
            = [] :=
          List.filter_eq_nil_iff.mpr fun _ _ => by simp [hp]
        rw [hnone, if_neg (by simp)]
        rfl

theorem filter_fieldsOf_key (h : Header) (k : Bytes) :
    (fieldsOf h.entries).filter (fun f => f.1 = k) =
      (h.values k).map fun v => (k, v) :=
  filter_grouped (fun v => v) h.nodup k

/-! ## The values under a name -/

/-- The values of the fields with this name. -/
def under (k : Bytes) (fs : List (Bytes × Bytes)) : List Bytes :=
  (fs.filter fun f => f.1 = k).map Prod.snd

theorem under_append (k : Bytes) (fs gs : List (Bytes × Bytes)) :
    under k (fs ++ gs) = under k fs ++ under k gs := by
  rw [under, List.filter_append, List.map_append]
  rfl

theorem under_filter (p : Bytes → Bool) (k : Bytes)
    (fs : List (Bytes × Bytes)) :
    under k (fs.filter fun f => p f.1) = if p k then under k fs else [] := by
  rw [under, List.filter_filter]
  split
  · next hp =>
      rw [under]
      congr 1
      refine List.filter_congr fun f _ => ?_
      by_cases hk : f.1 = k
      · rw [hk, hp, Bool.and_true]
      · rw [decide_eq_false hk, Bool.false_and]
  · next hp =>
      rw [List.filter_eq_nil_iff.mpr]
      · rfl
      · intro f _ hf
        rw [Bool.and_eq_true, decide_eq_true_eq] at hf
        rw [hf.1] at hf
        exact hp hf.2

theorem count_under (f : Bytes × Bytes) (fs : List (Bytes × Bytes)) :
    (under f.1 fs).count f.2 = fs.count f := by
  induction fs with
  | nil => rfl
  | cons g fs ih =>
      rw [under, List.filter_cons, List.count_cons]
      by_cases hk : g.1 = f.1
      · rw [if_pos (decide_eq_true hk), List.map_cons, List.count_cons]
        change (under f.1 fs).count f.2 + _ = _
        rw [ih]
        congr 1
        have hiff : (g.2 == f.2) = (g == f) := by
          rw [Bool.eq_iff_iff, beq_iff_eq, beq_iff_eq, Prod.ext_iff,
            and_iff_right hk]
        rw [hiff]
      · have hne : (g == f) = false := by
          rw [beq_eq_false_iff_ne]
          rintro rfl
          exact hk rfl
        rw [if_neg (by simpa using hk), hne]
        exact ih

/-- The same fields up to order are the same values under each name. -/
theorem perm_iff_under {fs gs : List (Bytes × Bytes)} :
    fs.Perm gs ↔ ∀ k, (under k fs).Perm (under k gs) := by
  constructor
  · intro h k
    exact (h.filter _).map _
  · intro h
    rw [List.perm_iff_count]
    intro f
    rw [← count_under, ← count_under]
    exact (h f.1).count_eq _

theorem under_fieldsOf (h : Header) (k : Bytes) :
    under k (fieldsOf h.entries) = h.values k := by
  rw [under, filter_fieldsOf_key, List.map_map]
  exact List.map_id _

theorem under_fieldLines (h : Header) {exclude : List Bytes} {k : Bytes}
    (hk : k ∉ exclude) :
    under k (fieldLines exclude h) = (h.values k).map sanitizeValue := by
  rw [under, filter_fieldLines h hk, List.map_map]
  rfl

theorem under_fieldLines_excluded (h : Header) {exclude : List Bytes}
    {k : Bytes} (hk : k ∈ exclude) : under k (fieldLines exclude h) = [] := by
  rw [under, List.filter_eq_nil_iff.mpr]
  · rfl
  · intro f hf hkey
    rw [decide_eq_true_eq] at hkey
    obtain ⟨_, _, hnot, _⟩ := mem_fieldLines.mp hf
    rw [hkey] at hnot
    exact hnot hk

/-! ## Values that are written as they are -/

/-- Values come back the same up to order exactly if each is left alone. -/
theorem perm_sanitize_iff {vs : List Bytes} :
    (vs.map sanitizeValue).Perm vs ↔ ∀ v ∈ vs, sanitizeValue v = v := by
  constructor
  · intro h v hv
    obtain ⟨w, _, rfl⟩ := List.mem_map.mp (h.mem_iff.mpr hv)
    exact sanitizeValue_idem w
  · intro h
    rw [List.map_congr_left h, List.map_id']

end Netramesh.Proofs
