/-
Sorting issues. Issues at one position keep the order they came in, and so a sorted list
is settled by the lists of issues at each position: two lists are sorted alike just if
they have the same issues at every position, in the same order.
-/

import Reanalysis.Issue

namespace Reanalysis

namespace Issue

instance : Std.TransCmp Issue.order :=
  inferInstanceAs (Std.TransCmp (compareLex (compareOn Issue.file)
    (compareLex (compareOn Issue.line) (compareOn Issue.column))))

theorem order_trans (first second third : Issue) (before : (first.order second).isLE = true)
    (after : (second.order third).isLE = true) : (first.order third).isLE = true :=
  Std.TransCmp.isLE_trans before after

theorem order_self (issue : Issue) : issue.order issue = .eq := Std.ReflCmp.compare_self

theorem order_swap (left right : Issue) : left.order right = (right.order left).swap :=
  Std.OrientedCmp.eq_swap

theorem order_total (left right : Issue) :
    ((left.order right).isLE || (right.order left).isLE) = true := by
  rw [order_swap right left]
  cases left.order right <;> rfl

theorem same_file_of_order {left right : Issue} (equal : left.order right = .eq) :
    left.file.same right.file = true := by
  unfold order at equal
  exact decide_eq_true (Ordering.then_eq_eq.mp equal).1

def beside (place : Issue) (issues : List Issue) : List Issue :=
  issues.filter (fun issue => issue.order place = .eq)

theorem beside_append (place : Issue) (left right : List Issue) :
    place.beside (left ++ right) = place.beside left ++ place.beside right :=
  List.filter_append ..

theorem mem_beside {place issue : Issue} {issues : List Issue} :
    issue ∈ place.beside issues ↔ issue ∈ issues ∧ issue.order place = .eq := by
  unfold beside
  rw [List.mem_filter, decide_eq_true_iff]

theorem mem_beside_self {place : Issue} {issues : List Issue} :
    place ∈ place.beside issues ↔ place ∈ issues := by
  rw [mem_beside]
  exact ⟨And.left, fun member => ⟨member, Std.ReflCmp.compare_self⟩⟩

theorem beside_flatMap {α : Type} (place : Issue) (items : List α) (list : α → List Issue) :
    place.beside (items.flatMap list) = items.flatMap (fun item => place.beside (list item)) := by
  unfold beside
  rw [List.filter_flatMap]

theorem pairwise_beside (place : Issue) (issues : List Issue) :
    (place.beside issues).Pairwise (fun left right => (left.order right).isLE = true) := by
  rw [List.pairwise_iff_forall_sublist]
  intro left right within
  have atLeft := (mem_beside.mp (within.subset List.mem_cons_self)).2
  have atRight := (mem_beside.mp (within.subset (List.mem_cons_of_mem _ List.mem_cons_self))).2
  have equal : left.order right = .eq :=
    Std.TransCmp.eq_trans atLeft (Std.OrientedCmp.eq_symm atRight)
  rw [equal]
  rfl

/-- Sorting keeps the order of the issues at one position. -/
theorem beside_sort (place : Issue) (issues : List Issue) :
    place.beside (sort issues) = place.beside issues := by
  have within : (place.beside issues).Sublist (sort issues) :=
    List.sublist_mergeSort order_trans order_total (pairwise_beside place issues)
      List.filter_sublist
  have kept := within.filter (fun issue => issue.order place = .eq)
  have again : (place.beside issues).filter (fun issue => issue.order place = .eq) =
      place.beside issues := by
    unfold beside
    rw [List.filter_filter]
    simp
  rw [again] at kept
  have lengths : (place.beside issues).length = (place.beside (sort issues)).length :=
    ((List.mergeSort_perm issues _).filter _).length_eq.symm
  exact (kept.eq_of_length lengths).symm

theorem pairwise_sort (issues : List Issue) :
    (sort issues).Pairwise (fun left right => (left.order right).isLE = true) :=
  List.pairwise_mergeSort order_trans order_total issues

theorem mem_iff_of_beside {left right : List Issue}
    (agree : ∀ place : Issue, place.beside left = place.beside right) (issue : Issue) :
    issue ∈ left ↔ issue ∈ right := by
  rw [← mem_beside_self, agree, mem_beside_self]

theorem head_isLE {head issue : Issue} {rest : List Issue}
    (sorted : (head :: rest).Pairwise (fun first second => (first.order second).isLE = true))
    (member : issue ∈ head :: rest) : (head.order issue).isLE = true := by
  rcases List.mem_cons.mp member with here | inRest
  · rw [here, order_self]
    rfl
  · exact (List.pairwise_cons.mp sorted).1 issue inRest

private theorem eq_of_beside {left right : List Issue}
    (leftSorted : left.Pairwise (fun first second => (first.order second).isLE = true))
    (rightSorted : right.Pairwise (fun first second => (first.order second).isLE = true))
    (agree : ∀ place : Issue, place.beside left = place.beside right) : left = right := by
  induction left generalizing right with
  | nil =>
      symm
      rw [List.eq_nil_iff_forall_not_mem]
      intro issue member
      cases (mem_iff_of_beside agree issue).mpr member
  | cons head rest ih =>
      cases right with
      | nil => cases (mem_iff_of_beside agree head).mp List.mem_cons_self
      | cons other others =>
          have headFirst : (head.order other).isLE = true :=
            head_isLE leftSorted ((mem_iff_of_beside agree other).mpr List.mem_cons_self)
          have otherFirst : (other.order head).isLE = true :=
            head_isLE rightSorted ((mem_iff_of_beside agree head).mp List.mem_cons_self)
          have equal : other.order head = .eq := by
            rw [order_swap head other] at headFirst
            revert otherFirst headFirst
            cases other.order head <;> simp
          have heads : head = other := by
            have atHead := agree head
            unfold beside at atHead
            rw [List.filter_cons_of_pos (by simp [order_self]),
              List.filter_cons_of_pos (by simp [equal])] at atHead
            exact (List.cons.inj atHead).1
          subst heads
          congr 1
          apply ih (List.pairwise_cons.mp leftSorted).2 (List.pairwise_cons.mp rightSorted).2
          intro place
          have atPlace := agree place
          unfold beside at atPlace ⊢
          rw [List.filter_cons, List.filter_cons] at atPlace
          split at atPlace
          · exact (List.cons.inj atPlace).2
          · exact atPlace

theorem sort_eq_iff {left right : List Issue} :
    sort left = sort right ↔ ∀ place : Issue, place.beside left = place.beside right := by
  constructor
  · intro equal place
    rw [← beside_sort place left, ← beside_sort place right, equal]
  · intro agree
    apply eq_of_beside (pairwise_sort left) (pairwise_sort right)
    intro place
    rw [beside_sort, beside_sort]
    exact agree place

end Issue

end Reanalysis
