/-
What is clean. Matching delimiters with a stack of waiting openers finds no defect in exactly
those sequences that a grammar of nested pairs generates, so a file is clean if and only if the
delimiters in its code are well nested.
-/

import Reanalysis.Proofs.CodeReading

namespace Reanalysis.Delimiters

/-- Well-nested delimiters: none, or a pair with well-nested delimiters inside and behind it. -/
inductive Nested : List Char → Prop
  | nil : Nested []
  | pair (opener closer : Char) (inside rest : List Char) (fits : (opener, closer) ∈ pairs)
      (nested : Nested inside) (later : Nested rest) :
      Nested (opener :: (inside ++ closer :: rest))

/-- Delimiters that close waiting openers, the innermost first, and are well nested otherwise. -/
inductive Completes : List Char → List Char → Prop
  | done (word : List Char) (nested : Nested word) : Completes [] word
  | close (opener closer : Char) (outer inside rest : List Char)
      (fits : (opener, closer) ∈ pairs) (nested : Nested inside) (later : Completes outer rest) :
      Completes (opener :: outer) (inside ++ closer :: rest)

theorem mem_pairs {opener closer : Char} :
    (opener, closer) ∈ pairs ↔ isOpener opener = true ∧ closerOf opener = closer := by
  constructor
  · intro fits
    simp only [pairs, List.mem_cons, List.not_mem_nil, or_false, Prod.mk.injEq] at fits
    rcases fits with ⟨rfl, rfl⟩ | ⟨rfl, rfl⟩ | ⟨rfl, rfl⟩ <;> decide
  · rintro ⟨opens, rfl⟩
    simp only [isOpener, Bool.or_eq_true, decide_eq_true_eq] at opens
    rcases opens with (rfl | rfl) | rfl <;> decide

theorem isOpener_closer {opener closer : Char} (fits : (opener, closer) ∈ pairs) :
    isOpener closer = false := by
  simp only [pairs, List.mem_cons, List.not_mem_nil, or_false, Prod.mk.injEq] at fits
  rcases fits with ⟨_, rfl⟩ | ⟨_, rfl⟩ | ⟨_, rfl⟩ <;> decide

namespace Matching

variable {delimiter opener : Delimiter} {outer : List Delimiter}

theorem step_opener (state : Matching) (opens : isOpener delimiter.char = true) :
    state.step delimiter = { state with waiting := delimiter :: state.waiting } :=
  if_pos opens

theorem step_closer (defects : List Defect) (closes : isOpener delimiter.char = false)
    (fits : closerOf opener.char = delimiter.char) :
    step ⟨opener :: outer, defects⟩ delimiter = ⟨outer, defects⟩ := by
  unfold step
  rw [closes, if_neg Bool.false_ne_true]
  exact if_pos fits

theorem step_flawless {state next : Matching} (stepped : state.step delimiter = next)
    (flawless : next.defects = []) :
    state.defects = [] ∧
      ((isOpener delimiter.char = true ∧ next.waiting = delimiter :: state.waiting) ∨
        ∃ opener, state.waiting = opener :: next.waiting ∧
          closerOf opener.char = delimiter.char) := by
  subst stepped
  revert flawless
  unfold step
  split
  · rename_i opens
    exact fun flawless => ⟨flawless, .inl ⟨opens, rfl⟩⟩
  · split
    · nofun
    · rename_i opener outer waiting
      split
      · rename_i fits
        exact fun flawless => ⟨flawless, .inr ⟨opener, waiting, fits⟩⟩
      · nofun

end Matching

theorem Completes.of_cons {opener : Char} {outer word : List Char}
    (completes : Completes (opener :: outer) word) :
    ∃ closer inside rest, word = inside ++ closer :: rest ∧ (opener, closer) ∈ pairs ∧
      Nested inside ∧ Completes outer rest := by
  cases completes with
  | close _ closer _ inside rest fits nested later =>
      exact ⟨closer, inside, rest, rfl, fits, nested, later⟩

theorem Completes.around {waiting : List Char} {opener closer : Char} {inside rest : List Char}
    (fits : (opener, closer) ∈ pairs) (nested : Nested inside)
    (completes : Completes waiting rest) :
    Completes waiting (opener :: (inside ++ closer :: rest)) := by
  cases completes with
  | done rest later => exact .done _ (.pair opener closer inside rest fits nested later)
  | close outermost last outer between rest fitting later others =>
      have joined := Completes.close outermost last outer _ rest fitting
        (.pair opener closer inside between fits nested later) others
      simpa using joined

/-- Where matching ends without a defect and without an opener that waits, all openers that had
waited have been closed. -/
theorem completes_of_foldl {word : List Delimiter} {state : Matching}
    (openers : ∀ opener ∈ state.waiting, isOpener opener.char = true)
    (ended : word.foldl Matching.step state = ⟨[], []⟩) :
    state.defects = [] ∧
      Completes (state.waiting.map Delimiter.char) (word.map Delimiter.char) := by
  induction word generalizing state with
  | nil =>
      rw [List.foldl_nil] at ended
      subst ended
      exact ⟨rfl, .done [] .nil⟩
  | cons delimiter rest ih =>
      rw [List.foldl_cons] at ended
      generalize stepped : state.step delimiter = next at ended
      have opensNext (waits : ∀ opener ∈ next.waiting, isOpener opener.char = true) :=
        Matching.step_flawless stepped (ih waits ended).1
      have known : ∀ opener ∈ next.waiting, isOpener opener.char = true := by
        subst stepped
        intro opener member
        unfold Matching.step at member
        split at member
        · rename_i opens
          rcases List.mem_cons.mp member with rfl | before
          · exact opens
          · exact openers opener before
        · split at member
          · exact openers opener member
          · rename_i innermost outer waiting
            have before : opener ∈ outer := by
              split at member <;> exact member
            exact openers opener (waiting ▸ List.mem_cons_of_mem _ before)
      have completes := (ih known ended).2
      obtain ⟨flawless, ⟨opens, waits⟩ | ⟨opener, waits, fits⟩⟩ := opensNext known
      · refine ⟨flawless, ?_⟩
        rw [waits, List.map_cons] at completes
        obtain ⟨closer, inside, behind, cut, fits, nested, later⟩ := completes.of_cons
        rw [List.map_cons, cut]
        exact later.around fits nested
      · refine ⟨flawless, ?_⟩
        have opens := openers opener (waits ▸ List.mem_cons_self)
        rw [waits, List.map_cons, List.map_cons]
        exact .close opener.char delimiter.char _ [] _ (mem_pairs.mpr ⟨opens, fits⟩) .nil
          completes

theorem foldl_nested {chars : List Char} (nested : Nested chars) {word : List Delimiter}
    (same : word.map Delimiter.char = chars) (state : Matching) :
    word.foldl Matching.step state = state := by
  induction nested generalizing word state with
  | nil =>
      rw [List.map_eq_nil_iff] at same
      subst same
      rfl
  | pair opener closer inside rest fits nested later ihInside ihRest =>
      obtain ⟨first, others, rfl, rfl, cut⟩ := List.map_eq_cons_iff.mp same
      obtain ⟨inner, behind, rfl, sameInside, cut⟩ := List.map_eq_append_iff.mp cut
      obtain ⟨last, outside, rfl, rfl, sameRest⟩ := List.map_eq_cons_iff.mp cut
      obtain ⟨opens, closes⟩ := mem_pairs.mp fits
      calc (first :: (inner ++ last :: outside)).foldl Matching.step state
          = outside.foldl Matching.step
              ((inner.foldl Matching.step (state.step first)).step last) := by
            rw [List.foldl_cons, List.foldl_append, List.foldl_cons]
        _ = (Matching.step ⟨first :: state.waiting, state.defects⟩ last) := by
            rw [ihRest sameRest, ihInside sameInside, Matching.step_opener state opens]
        _ = state := Matching.step_closer state.defects (isOpener_closer fits) closes

theorem defects_eq_nil_iff (delimiters : List Delimiter) :
    defects delimiters = [] ↔ Nested (delimiters.map Delimiter.char) := by
  have empty : defects delimiters = [] ↔
      delimiters.foldl Matching.step ⟨[], []⟩ = ⟨[], []⟩ := by
    unfold defects
    dsimp only
    generalize delimiters.foldl Matching.step ⟨[], []⟩ = last
    obtain ⟨waiting, found⟩ := last
    simp [and_comm]
  rw [empty]
  constructor
  · intro ended
    cases (completes_of_foldl (fun _ waits => absurd waits List.not_mem_nil) ended).2 with
    | done word nested => exact nested
  · intro nested
    exact foldl_nested nested rfl _

/-- A text has one reading, and nothing is reported of it if and only if the delimiters in its
code are well nested. -/
theorem clean_iff_nested (file : SourcePath) (text : String) :
    ∃ delimiters, (∀ found, Reads text.toList found ↔ found = delimiters) ∧
      (analyze file text = [] ↔ Nested delimiters) := by
  refine ⟨(inCode text).map Delimiter.char, fun found => reads_iff, ?_⟩
  unfold analyze
  rw [List.map_eq_nil_iff]
  exact defects_eq_nil_iff (inCode text)

/-- The star of an opened comment does not close it, and an escaped quote does not close a
literal. -/
example : analyze ⟨"a.ts"⟩ "f(/*/)*/'\')')" = [] := by cbv

end Reanalysis.Delimiters
