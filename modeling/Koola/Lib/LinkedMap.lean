import Mathlib.Data.List.Nodup

/-!
# Linked maps

A map that remembers the order in which its keys came: a new key goes to the end, and a key that
is already there keeps its place. `get`, `has`, `put` and `keys`, and `ofEntries`, which puts
entries one after the other.
-/

structure LinkedMap (κ ν : Type) where
  entries : List (κ × ν)
  nodup : (entries.map Prod.fst).Nodup
  deriving DecidableEq

namespace LinkedMap

variable {κ ν : Type} [DecidableEq κ]

def empty : LinkedMap κ ν := ⟨[], List.nodup_nil⟩

def keys (m : LinkedMap κ ν) : List κ := m.entries.map Prod.fst

def get (m : LinkedMap κ ν) (k : κ) : Option ν := m.entries.lookup k

def has (m : LinkedMap κ ν) (k : κ) : Bool := (m.get k).isSome

/-- The entries with `k` bound to `v`. -/
def putIn (k : κ) (v : ν) : List (κ × ν) → List (κ × ν)
  | [] => [(k, v)]
  | e :: es => if e.1 = k then (k, v) :: es else e :: putIn k v es

theorem map_fst_putIn (k : κ) (v : ν) (es : List (κ × ν)) :
    (putIn k v es).map Prod.fst =
      if k ∈ es.map Prod.fst then es.map Prod.fst else es.map Prod.fst ++ [k] := by
  induction es with
  | nil => rfl
  | cons e es ih =>
    by_cases hk : e.1 = k
    · simp [putIn, hk]
    · have hk' : ¬ k = e.1 := fun h => hk h.symm
      simp only [putIn, if_neg hk, List.map_cons, ih, List.mem_cons, hk', false_or]
      split_ifs <;> rfl

def put (m : LinkedMap κ ν) (k : κ) (v : ν) : LinkedMap κ ν where
  entries := putIn k v m.entries
  nodup := by
    rw [map_fst_putIn]
    split_ifs with hk
    · exact m.nodup
    · exact m.nodup.append (List.nodup_singleton k) (by simpa using hk)

theorem lookup_cons_eq_ite (k : κ) (e : κ × ν) (es : List (κ × ν)) :
    (e :: es).lookup k = if k = e.1 then some e.2 else es.lookup k := by
  obtain ⟨k', v⟩ := e
  by_cases h : k = k'
  · simp [h]
  · have hb : (k == k') = false := beq_false_of_ne h
    rw [List.lookup_cons, hb, if_neg h]

theorem lookup_putIn (k : κ) (v : ν) (es : List (κ × ν)) (k' : κ) :
    (putIn k v es).lookup k' = if k' = k then some v else es.lookup k' := by
  induction es with
  | nil => exact lookup_cons_eq_ite k' (k, v) []
  | cons e es ih =>
    unfold putIn
    by_cases hk : e.1 = k
    · rw [if_pos hk, lookup_cons_eq_ite, lookup_cons_eq_ite, hk]
      split_ifs <;> rfl
    · rw [if_neg hk, lookup_cons_eq_ite, lookup_cons_eq_ite, ih]
      by_cases h : k' = e.1
      · rw [if_pos h, if_neg fun h' => hk (h.symm.trans h'), if_pos h]
      · rw [if_neg h, if_neg h]

@[simp] theorem get_put (m : LinkedMap κ ν) (k : κ) (v : ν) (k' : κ) :
    (m.put k v).get k' = if k' = k then some v else m.get k' :=
  lookup_putIn k v m.entries k'

theorem has_iff {m : LinkedMap κ ν} {k : κ} : m.has k ↔ ∃ v, m.get k = some v :=
  Option.isSome_iff_exists

theorem has_iff_mem {m : LinkedMap κ ν} {k : κ} : m.has k ↔ k ∈ m.keys := by
  unfold has get keys
  induction m.entries with
  | nil => simp
  | cons e es ih =>
    rw [lookup_cons_eq_ite, List.map_cons, List.mem_cons, ← ih]
    by_cases h : k = e.1 <;> simp [h]

/-- Put the entries one after the other. -/
def putAll (m : LinkedMap κ ν) (es : List (κ × ν)) : LinkedMap κ ν :=
  es.foldl (fun m e => m.put e.1 e.2) m

def ofEntries (es : List (κ × ν)) : LinkedMap κ ν := empty.putAll es

theorem entries_put_of_not_mem {m : LinkedMap κ ν} {k : κ} (h : k ∉ m.keys) (v : ν) :
    (m.put k v).entries = m.entries ++ [(k, v)] := by
  show putIn k v m.entries = _
  unfold keys at h
  generalize m.entries = es at h
  induction es with
  | nil => rfl
  | cons e es ih =>
    rw [List.map_cons, List.mem_cons, not_or] at h
    rw [putIn, if_neg fun he => h.1 he.symm, ih h.2, List.cons_append]

theorem entries_putAll {es : List (κ × ν)} {m : LinkedMap κ ν}
    (h : ((m.entries ++ es).map Prod.fst).Nodup) : (m.putAll es).entries = m.entries ++ es := by
  induction es generalizing m with
  | nil => simp [putAll]
  | cons e es ih =>
    have hnew : e.1 ∉ m.keys := by
      simp only [List.map_append, List.map_cons, List.nodup_append, List.mem_cons] at h
      exact fun hm => h.2.2 _ hm _ (.inl rfl) rfl
    have hput := entries_put_of_not_mem hnew e.2
    have hassoc : (m.put e.1 e.2).entries ++ es = m.entries ++ e :: es := by simp [hput]
    rw [putAll, List.foldl_cons, ← hassoc]
    exact ih (hassoc ▸ h)

/-- **The entries of a map give the map.** -/
theorem ofEntries_entries (m : LinkedMap κ ν) : ofEntries m.entries = m := by
  have h : (ofEntries m.entries).entries = m.entries :=
    entries_putAll (m := empty) (by simpa [empty] using m.nodup)
  obtain ⟨es, hes⟩ := m
  simp only [ofEntries] at h ⊢
  generalize empty.putAll es = m' at h
  cases m'
  subst h
  rfl

end LinkedMap
