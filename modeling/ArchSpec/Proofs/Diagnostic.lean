import Mathlib.Order.Defs.LinearOrder
import ArchSpec.Diagnostic

/-!
# Diagnostics in order

Places and diagnostics are compared by one part after the other, and each part is compared by a
total preorder; so the comparisons are total preorders too, and sorting puts diagnostics in order
without losing or adding one.

* `Position.order`, `Position.orderLast`, `Diagnostic.order` — as instances of `Std.TransCmp`.
* `Diagnostic.sort_perm`, `Diagnostic.pairwise_sort` — what sorting does.
-/

namespace ArchSpec

namespace Position

theorem order_eq : order =
    compareLex (compareOn file) (compareLex (compareOn line) (compareOn column)) := rfl

instance : Std.TransCmp order := by
  rw [order_eq]
  infer_instance

instance : Std.OrientedCmp orderLast where
  eq_swap {p q} := by
    cases p <;> cases q <;> try rfl
    rename_i p q
    show order p q = (order q p).swap
    exact Std.OrientedCmp.eq_swap

/-- Places remain in a total preorder when a missing one is put after all of them. -/
instance : Std.TransCmp orderLast where
  isLE_trans {p q r} hpq hqr := by
    cases p <;> cases q <;> cases r <;> try first | rfl | contradiction
    rename_i p q r
    show (order p r).isLE = true
    exact Std.TransCmp.isLE_trans hpq hqr

end Position

namespace Diagnostic

theorem orderFirst_eq : orderFirst = compare := by
  funext a b
  cases a <;> cases b <;> rfl

theorem order_eq : order = compareLex (Ordering.byKey component? compare)
    (compareLex (Ordering.byKey position? Position.orderLast) (compareOn message)) := by
  rw [← orderFirst_eq]
  rfl

instance : Std.TransCmp order := by
  rw [order_eq]
  infer_instance

theorem sort_perm (ds : List Diagnostic) : (sort ds).Perm ds := List.mergeSort_perm ds _

theorem sort_eq_nil_iff {ds : List Diagnostic} : sort ds = [] ↔ ds = [] := by
  rw [← List.length_eq_zero_iff, (sort_perm ds).length_eq, List.length_eq_zero_iff]

/-- **Sorted diagnostics are in order.** -/
theorem pairwise_sort (ds : List Diagnostic) :
    (sort ds).Pairwise fun a b => (order a b).isLE = true := by
  refine List.pairwise_mergeSort (fun a b c => Std.TransCmp.isLE_trans) (fun a b => ?_) ds
  have hswap : order b a = (order a b).swap := Std.OrientedCmp.eq_swap
  rw [hswap]
  cases order a b <;> rfl

end Diagnostic

end ArchSpec
