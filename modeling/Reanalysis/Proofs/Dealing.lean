/-
Work that is dealt out in turn. A share holds the items at the positions that leave its own number
as a remainder, in their order; so the hands that are dealt are the shares, and every item lies in
one hand, at a slot that its position settles.
-/

import Mathlib.Data.List.Induction
import Mathlib.Data.List.Perm.Basic
import Mathlib.Data.Nat.ModEq
import Reanalysis.Partition

namespace Reanalysis

theorem flatMap_range_single {α : Type} {chosen count : Nat} (inside : chosen < count)
    (list : List α) :
    (List.range count).flatMap (fun index => if chosen = index then list else []) = list := by
  have before (size : Nat) (outside : size ≤ chosen) :
      (List.range size).flatMap (fun index => if chosen = index then list else []) = [] := by
    rw [List.flatMap_eq_nil_iff]
    intro index member
    rw [List.mem_range] at member
    rw [if_neg (by omega)]
  induction count with
  | zero => omega
  | succ size ih =>
      rw [List.range_succ, List.flatMap_append, List.flatMap_singleton]
      by_cases here : chosen = size
      · rw [before size (by omega), if_pos here, List.nil_append]
      · rw [ih (by omega), if_neg here, List.append_nil]

theorem flatMap_range_filter_perm {α : Type} (count : Nat) (number : α → Nat) (items : List α)
    (numbered : ∀ item ∈ items, number item < count) :
    ((List.range count).flatMap fun index =>
      items.filter fun item => number item == index).Perm items := by
  induction items with
  | nil =>
      have nothing : ((List.range count).flatMap fun index =>
          ([] : List α).filter fun item => number item == index) = [] :=
        List.flatMap_eq_nil_iff.mpr fun index _ => rfl
      rw [nothing]
  | cons item rest ih =>
      have apart : (fun index => (item :: rest).filter fun item => number item == index) =
          fun index => (if number item = index then [item] else []) ++
            rest.filter fun item => number item == index := by
        funext index
        rw [List.filter_cons]
        by_cases here : number item = index
        · rw [if_pos here, if_pos (beq_iff_eq.mpr here)]
          rfl
        · rw [if_neg here, if_neg (mt beq_iff_eq.mp here)]
          rfl
      have single := flatMap_range_single (numbered item List.mem_cons_self) [item]
      have later := ih fun other member => numbered other (List.mem_cons_of_mem _ member)
      rw [apart]
      refine (List.flatMap_append_perm _ _ _).symm.trans ?_
      rw [single]
      exact later.cons item

namespace Partition

variable {α : Type}

private theorem selectFrom_eq (share : Partition) (position : Nat) (kept items : List α) :
    share.selectFrom position kept items =
      kept.reverse ++
        ((items.zipIdx position).filter (fun entry => share.contains entry.2)).map Prod.fst := by
  induction items generalizing position kept with
  | nil => exact (List.append_nil _).symm
  | cons item rest ih =>
      unfold selectFrom
      rw [ih, List.zipIdx_cons, List.filter_cons]
      cases share.contains position with
      | false => rfl
      | true =>
          rw [if_pos rfl, if_pos rfl, List.reverse_cons, List.append_assoc]
          rfl

theorem select_eq (share : Partition) (items : List α) :
    share.select items =
      (items.zipIdx.filter (fun entry => share.contains entry.2)).map Prod.fst :=
  selectFrom_eq share 0 [] items

theorem select_sublist (share : Partition) (items : List α) :
    (share.select items).Sublist items := by
  rw [select_eq]
  have within : ((items.zipIdx.filter (fun entry => share.contains entry.2)).map Prod.fst).Sublist
      (items.zipIdx.map Prod.fst) := List.filter_sublist.map Prod.fst
  rw [List.zipIdx_map_fst] at within
  exact within

theorem mem_select {share : Partition} {items : List α} {item : α} :
    item ∈ share.select items ↔
      ∃ position, items[position]? = some item ∧ share.contains position = true := by
  rw [select_eq, List.mem_map]
  constructor
  · rintro ⟨⟨found, position⟩, member, rfl⟩
    obtain ⟨inItems, contained⟩ := List.mem_filter.mp member
    exact ⟨position, List.mem_zipIdx_iff_getElem?.mp inItems, contained⟩
  · rintro ⟨position, found, contained⟩
    exact ⟨(item, position),
      List.mem_filter.mpr ⟨List.mem_zipIdx_iff_getElem?.mpr found, contained⟩, rfl⟩

theorem contains_of {index count : Nat} (position : Nat) (nonempty : 0 < count) :
    (of index count).contains position = true ↔ position % count = index := by
  unfold contains of
  dsimp only
  rw [beq_iff_eq, Nat.max_eq_left (by omega : 1 ≤ max count 1),
    Nat.max_eq_left (by omega : 1 ≤ count)]

theorem contains_iff {share : Partition} {position : Nat} :
    share.contains position = true ↔ position % max share.count 1 = share.index := beq_iff_eq

theorem workers_of (index count : Nat) : max (of index count).count 1 = max count 1 :=
  Nat.max_eq_left (Nat.le_max_right count 1)

theorem select_eq_nil {share : Partition} (beyond : max share.count 1 ≤ share.index)
    (items : List α) : share.select items = [] := by
  rw [List.eq_nil_iff_forall_not_mem]
  intro item member
  obtain ⟨position, _found, contained⟩ := mem_select.mp member
  have turn := contains_iff.mp contained
  have small := Nat.mod_lt position (by omega : max share.count 1 > 0)
  omega

private theorem turn_of_behind {count position ahead index : Nat} (near : ahead + 1 < count)
    (turn : (position + (ahead + 1)) % count = index) : position % count ≠ index := by
  intro here
  have same : Nat.ModEq count (position + (ahead + 1)) (position + 0) := turn.trans here.symm
  have zero : (ahead + 1) % count = 0 % count := Nat.ModEq.add_left_cancel' position same
  rw [Nat.mod_eq_of_lt near, Nat.zero_mod] at zero
  omega

/-- From a position on, the next item of a share is `ahead`, and the others follow it at steps of
the number of workers. -/
private theorem getElem?_from (share : Partition) (items : List α) (position ahead slot : Nat)
    (near : ahead < max share.count 1)
    (turn : (position + ahead) % max share.count 1 = share.index) :
    (((items.zipIdx position).filter fun entry => share.contains entry.2).map Prod.fst)[slot]? =
      items[ahead + slot * max share.count 1]? := by
  induction items generalizing position ahead slot with
  | nil => rw [List.getElem?_nil]; rfl
  | cons item rest ih =>
      rw [List.zipIdx_cons, List.filter_cons]
      cases ahead with
      | zero =>
          obtain ⟨others, count⟩ : ∃ others, max share.count 1 = others + 1 :=
            ⟨max share.count 1 - 1, by omega⟩
          have round : (position + 1 + others) % max share.count 1 = share.index := by
            rw [show position + 1 + others = position + 0 + max share.count 1 by omega,
              Nat.add_mod_right]
            exact turn
          have here : share.contains position = true := contains_iff.mpr turn
          rw [if_pos here, List.map_cons]
          cases slot with
          | zero => rw [Nat.zero_mul]; rfl
          | succ slot =>
              rw [List.getElem?_cons_succ, ih (position + 1) others slot (by omega) round,
                show 0 + (slot + 1) * max share.count 1 =
                  others + slot * max share.count 1 + 1 by rw [Nat.succ_mul]; omega,
                List.getElem?_cons_succ]
      | succ ahead =>
          have other : ¬share.contains position = true := fun here =>
            turn_of_behind near turn (contains_iff.mp here)
          rw [if_neg other, ih (position + 1) ahead slot (by omega)
              (by rw [show position + 1 + ahead = position + (ahead + 1) by omega]; exact turn),
            show ahead + 1 + slot * max share.count 1 = ahead + slot * max share.count 1 + 1 by omega,
            List.getElem?_cons_succ]

theorem getElem?_select {share : Partition} (inside : share.index < max share.count 1)
    (items : List α) (slot : Nat) :
    (share.select items)[slot]? = items[share.index + slot * max share.count 1]? := by
  rw [select_eq]
  apply getElem?_from share items 0 share.index slot inside
  rw [Nat.zero_add]
  exact Nat.mod_eq_of_lt inside

/-! ### All hands -/

theorem deal_concat (items : List α) (item : α) (count : Nat) :
    deal (items ++ [item]) count =
      (deal items count).modify (items.length % max count 1) (· ++ [item]) := by
  unfold deal
  dsimp only
  rw [List.zipIdx_append, List.foldl_append, Nat.zero_add]
  generalize items.zipIdx.foldl _ (List.replicate (max count 1) []) = hands
  apply List.ext_getElem?
  intro index
  change ((hands.modify (items.length % max count 1) (item :: ·)).map List.reverse)[index]? = _
  rw [List.getElem?_map, List.getElem?_modify, List.getElem?_modify, List.getElem?_map]
  cases hands[index]? with
  | none => rfl
  | some hand =>
      by_cases turn : items.length % max count 1 = index
      · simp [turn]
      · simp [turn]

theorem select_concat (share : Partition) (items : List α) (item : α) :
    share.select (items ++ [item]) =
      share.select items ++ if share.contains items.length then [item] else [] := by
  rw [select_eq, select_eq, List.zipIdx_append, List.filter_append, List.map_append, Nat.zero_add]
  rw [List.zipIdx_singleton, List.filter_singleton]
  cases share.contains items.length <;> rfl

/-- The hands that are dealt are the shares of the workers. -/
theorem deal_eq_select (items : List α) (count : Nat) :
    deal items count =
      (List.range (max count 1)).map fun index => (of index count).select items := by
  induction items using List.reverseRecOn with
  | nil =>
      have empty : (fun index => (of index count).select ([] : List α)) = fun _ => [] := by
        funext index
        exact select_eq (of index count) []
      unfold deal
      rw [empty, List.map_const', List.length_range]
      exact List.map_replicate
  | append_singleton items item ih =>
      rw [deal_concat, ih]
      apply List.ext_getElem?
      intro index
      rw [List.getElem?_modify, List.getElem?_map, List.getElem?_map]
      cases found : (List.range (max count 1))[index]? with
      | none => rfl
      | some number =>
          obtain ⟨inside, rfl⟩ := List.getElem?_eq_some_iff.mp found
          rw [List.getElem_range, Option.map_some, Option.map_some, select_concat]
          have turn : (of index count).contains items.length = true ↔
              items.length % max count 1 = index := by
            rw [contains_iff, workers_of]
            rfl
          change some (if _ then _ else _) = _
          by_cases here : items.length % max count 1 = index
          · rw [if_pos here, if_pos (turn.mpr here)]
          · rw [if_neg here, if_neg (mt turn.mp here), List.append_nil]

theorem getElem?_deal (items : List α) {count index : Nat} (inside : index < max count 1) :
    (deal items count)[index]? = some ((of index count).select items) := by
  rw [deal_eq_select, List.getElem?_map, List.getElem?_range inside]
  rfl

theorem getElem?_select_of (items : List α) {count index : Nat} (inside : index < max count 1)
    (slot : Nat) :
    ((of index count).select items)[slot]? = items[index + slot * max count 1]? := by
  rw [getElem?_select (by rw [workers_of]; exact inside), workers_of]
  rfl

theorem getElem?_of_turn (items : List α) (count position : Nat) :
    ((deal items count)[position % max count 1]?).bind (·[position / max count 1]?) =
      items[position]? := by
  have inside : position % max count 1 < max count 1 := Nat.mod_lt _ (by omega)
  rw [getElem?_deal items inside, Option.bind_some, getElem?_select_of items inside,
    Nat.mod_add_div']

theorem deal_perm (items : List α) (count : Nat) : (deal items count).flatten.Perm items := by
  have sorted := flatMap_range_filter_perm (max count 1)
    (fun entry : α × Nat => entry.2 % max count 1) items.zipIdx
    (fun entry _ => Nat.mod_lt _ (by omega))
  have hands : (deal items count).flatten = ((List.range (max count 1)).flatMap fun index =>
      items.zipIdx.filter fun entry => entry.2 % max count 1 == index).map Prod.fst := by
    rw [deal_eq_select, List.map_flatMap, ← List.flatMap_def]
    congr 1
    funext index
    rw [select_eq]
    congr 2
    funext entry
    unfold contains
    rw [workers_of]
    rfl
  rw [hands]
  have named := sorted.map Prod.fst
  rw [List.zipIdx_map_fst] at named
  exact named

theorem length_select_le (items : List α) {count first second : Nat}
    (inside : first < max count 1) (other : second < max count 1) :
    ((of first count).select items).length ≤ ((of second count).select items).length + 1 := by
  have last : ((of second count).select items)[((of second count).select items).length]? = none :=
    List.getElem?_eq_none (Nat.le_refl _)
  rw [getElem?_select_of items other, List.getElem?_eq_none_iff] at last
  rw [← List.getElem?_eq_none_iff, getElem?_select_of items inside, List.getElem?_eq_none_iff,
    Nat.succ_mul]
  omega

/-- Dealing loses, doubles and reorders nothing. The hands are the shares that the workers select
for themselves, also where a share is given as it stands; each item lies where its position says,
and the hands are of one size but for one item. A share of a number that no worker has is empty. -/
theorem deal_by_turns (items : List α) (count : Nat) :
    let hands := deal items count
    let workers := max count 1
    hands.length = workers ∧
      (∀ index < workers, hands[index]? = some ((of index count).select items) ∧
        hands[index]? = some (select ⟨index, workers⟩ items)) ∧
      (∀ position : Nat,
        (hands[position % workers]?).bind (·[position / workers]?) = items[position]?) ∧
      hands.flatten.Perm items ∧
      (∀ hand ∈ hands, hand.Sublist items) ∧
      (∀ first ∈ hands, ∀ second ∈ hands, first.length ≤ second.length + 1) ∧
      ∀ share : Partition, max share.count 1 ≤ share.index → share.select items = [] := by
  intro hands workers
  have shares {hand : List α} (member : hand ∈ hands) :
      ∃ index < workers, (of index count).select items = hand := by
    rw [show hands = deal items count from rfl, deal_eq_select] at member
    obtain ⟨index, inside, selected⟩ := List.mem_map.mp member
    exact ⟨index, List.mem_range.mp inside, selected⟩
  refine ⟨?_, fun index inside => ?_, getElem?_of_turn items count, deal_perm items count,
    fun hand member => ?_, fun first member second other => ?_,
    fun share beyond => select_eq_nil beyond items⟩
  · rw [show hands = deal items count from rfl, deal_eq_select, List.length_map, List.length_range]
  · exact ⟨getElem?_deal items inside, getElem?_deal items inside⟩
  · obtain ⟨index, _inside, rfl⟩ := shares member
    exact select_sublist _ items
  · obtain ⟨index, inside, rfl⟩ := shares member
    obtain ⟨number, otherInside, rfl⟩ := shares other
    exact length_select_le items inside otherInside

/-- Five items for two workers: the hands are uneven, and a third worker would get nothing. -/
theorem deal_by_turns_of_five :
    let items := ["a", "b", "c", "d", "e"]
    (1 < max 2 1 ∧ (deal items 2)[1]? = some ((of 1 2).select items)) ∧
      (["a", "c", "e"] ∈ deal items 2 ∧ ["a", "c", "e"].Sublist items) ∧
      (["b", "d"] ∈ deal items 2 ∧ ["a", "c", "e"].length ≤ ["b", "d"].length + 1) ∧
      max (of 2 2).count 1 ≤ (of 2 2).index ∧ (of 2 2).select items = [] := by
  intro items
  have longer : ["a", "c", "e"] ∈ deal items 2 := by decide
  have shorter : ["b", "d"] ∈ deal items 2 := by decide
  obtain ⟨_length, shares, _places, _perm, sublist, even, beyond⟩ := deal_by_turns items 2
  exact ⟨⟨by decide, (shares 1 (by decide)).1⟩, ⟨longer, sublist _ longer⟩,
    ⟨shorter, even _ longer _ shorter⟩, by decide, beyond _ (by decide)⟩

end Partition

end Reanalysis
