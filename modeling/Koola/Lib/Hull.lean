import Mathlib.Order.Interval.Set.Disjoint
import Mathlib.Order.CompletePartialOrder
import Mathlib.Data.List.Pairwise

/-!
# The hull of a list of ranges

Ranges are pairs `(a, b)` in a linear order and stand for `Set.Ico a b`.

* `Ascending`: non-empty ranges, pairwise disjoint, in ascending order.
* `IsHull`: the smallest range that contains all of them.
* **`isHull_of_ascending`**: for an ascending list it runs from the first start to the last end.
-/

namespace Hull

variable {α : Type} [LinearOrder α]

/-- Non-empty ranges, pairwise disjoint and in ascending order of their starts. -/
structure Ascending (rs : List (α × α)) : Prop where
  nonempty : ∀ r ∈ rs, r.1 < r.2
  sorted : rs.Pairwise fun r s => r.1 < s.1
  disjoint : rs.Pairwise fun r s => Disjoint (Set.Ico r.1 r.2) (Set.Ico s.1 s.2)

/-- `(a, b)` is the smallest range that contains every range of `rs`. -/
structure IsHull (a b : α) (rs : List (α × α)) : Prop where
  contains : ∀ r ∈ rs, Set.Ico r.1 r.2 ⊆ Set.Ico a b
  smallest : ∀ c d, (∀ r ∈ rs, Set.Ico r.1 r.2 ⊆ Set.Ico c d) → Set.Ico a b ⊆ Set.Ico c d

theorem Ascending.sublist {rs ss : List (α × α)} (h : Ascending ss) (hs : rs.Sublist ss) :
    Ascending rs where
  nonempty r hr := h.nonempty r (hs.subset hr)
  sorted := h.sorted.sublist hs
  disjoint := h.disjoint.sublist hs

/-- Each range of an ascending list ends before the next ones start. -/
theorem Ascending.pairwise_le {rs : List (α × α)} (h : Ascending rs) :
    rs.Pairwise fun r s => r.2 ≤ s.1 := by
  refine (h.sorted.and h.disjoint).imp_of_mem fun {r s} hr hs ⟨hlt, hd⟩ => ?_
  rw [Set.Ico_disjoint_Ico, max_eq_right hlt.le] at hd
  rcases min_le_iff.mp hd with hd | hd
  · exact hd
  · exact absurd (h.nonempty s hs) hd.not_gt

theorem Ascending.head_le {r s : α × α} {rs : List (α × α)} (h : Ascending (r :: rs))
    (hs : s ∈ r :: rs) : r.1 ≤ s.1 := by
  rcases List.mem_cons.mp hs with rfl | hs
  · exact le_rfl
  · exact (List.rel_of_pairwise_cons h.sorted hs).le

theorem Ascending.le_last {s : α × α} {rs : List (α × α)} (h : Ascending rs) (hne : rs ≠ [])
    (hs : s ∈ rs) : s.2 ≤ (rs.getLast hne).2 := by
  obtain ⟨l, x, rfl⟩ := List.eq_nil_or_concat rs |>.resolve_left hne
  simp only [List.concat_eq_append] at h hs ⊢
  rw [List.getLast_concat]
  rcases List.mem_append.mp hs with hs | hs
  · have hle := (List.pairwise_append.mp h.pairwise_le).2.2 s hs x (by simp)
    exact hle.trans (h.nonempty x (by simp)).le
  · rw [List.mem_singleton.mp hs]

/-- **First start, last end.** They span the hull of an ascending list, and it is not empty. -/
theorem isHull_of_ascending {r : α × α} {rs : List (α × α)} (h : Ascending (r :: rs)) :
    r.1 < ((r :: rs).getLast (List.cons_ne_nil r rs)).2 ∧
      IsHull r.1 ((r :: rs).getLast (List.cons_ne_nil r rs)).2 (r :: rs) := by
  have hlm : (r :: rs).getLast (List.cons_ne_nil r rs) ∈ r :: rs := List.getLast_mem _
  have hr := h.nonempty r List.mem_cons_self
  refine ⟨hr.trans_le (h.le_last _ List.mem_cons_self), ⟨fun s hs => ?_, fun c d hcd => ?_⟩⟩
  · exact Set.Ico_subset_Ico (h.head_le hs) (h.le_last _ hs)
  · have h1 := (Set.Ico_subset_Ico_iff hr).mp (hcd r List.mem_cons_self)
    have h2 := (Set.Ico_subset_Ico_iff (h.nonempty _ hlm)).mp (hcd _ hlm)
    exact Set.Ico_subset_Ico h1.1 h2.2

end Hull
