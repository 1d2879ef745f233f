/-
Paths as they are written. A step is a component that may stand behind the front of a
path. Steps written one behind the other are read back as they are, and joining puts
them behind the components of the base.
-/

import Reanalysis.Proofs.PathLookup

namespace Reanalysis

theorem Text.pieces_eq_splitOn (mark : Char) (chars : List Char) :
    Text.pieces mark chars = chars.splitOn mark := by
  let step := fun (state : List Char × List (List Char)) (char : Char) =>
    if char = mark then ([], state.1.reverse :: state.2) else (char :: state.1, state.2)
  have general (open_ : List Char) (done : List (List Char)) :
      ((chars.foldl step (open_, done)).1.reverse :: (chars.foldl step (open_, done)).2).reverse =
        done.reverse ++ (chars.splitOn mark).modifyHead (open_.reverse ++ ·) := by
    induction chars generalizing open_ done with
    | nil => simp
    | cons char rest ih =>
        rw [List.foldl_cons, List.splitOn_cons_eq_if_modifyHead]
        by_cases isMark : char = mark
        · have next : step (open_, done) char = ([], open_.reverse :: done) := if_pos isMark
          rw [next, ih]
          simp only [isMark, List.reverse_nil, List.nil_append, List.reverse_cons,
            List.append_assoc, List.cons_append, BEq.rfl, if_true, List.modifyHead_cons,
            List.append_nil]
          congr 2
          exact congrFun List.modifyHead_id _
        · have next : step (open_, done) char = (char :: open_, done) := if_neg isMark
          rw [next, ih]
          simp [isMark, Function.comp_def]
  exact (general [] []).trans (congrFun List.modifyHead_id _)

namespace SourcePath

/-- Components that a piece of text between two separators stands for. -/
def IsStep (part : Component) : Prop :=
  component part.text.toList = some part ∧ '/' ∉ part.text.toList

theorem isStep_parent : IsStep .parent := by
  unfold IsStep
  decide

theorem isStep_of_component {piece : List Char} {part : Component}
    (read : component piece = some part) (clear : '/' ∉ piece) : IsStep part := by
  unfold component at read
  split at read
  · cases read
  · split at read
    · cases read
      exact isStep_parent
    · cases read
      unfold IsStep
      simp only [Component.text, String.toList_ofList]
      exact ⟨by simp_all [component], clear⟩

theorem isStep_names {names : List String} (each : ∀ name ∈ names, IsStep (.name name)) :
    ∀ part ∈ names.map Component.name, IsStep part := by
  intro part member
  obtain ⟨name, inNames, rfl⟩ := List.mem_map.mp member
  exact each name inNames

theorem IsStep.ne_root {part : Component} (step : IsStep part) : part ≠ .root := by
  rintro rfl
  exact step.2 (by decide)

theorem IsStep.ne_here {part : Component} (step : IsStep part) : part ≠ .here := by
  rintro rfl
  have read := step.1
  simp [component, Component.text] at read

private theorem not_mem_of_mem_splitOn {mark : Char} {chars piece : List Char}
    (member : piece ∈ chars.splitOn mark) : mark ∉ piece := by
  induction chars generalizing piece with
  | nil =>
      rw [List.splitOn_nil, List.mem_singleton] at member
      rw [member]
      exact List.not_mem_nil
  | cons char rest ih =>
      rw [List.splitOn_cons_eq_if_modifyHead] at member
      split at member
      · rcases List.mem_cons.mp member with empty | later
        · rw [empty]; exact List.not_mem_nil
        · exact ih later
      · rename_i notMark
        cases pieces : rest.splitOn mark with
        | nil => exact absurd pieces (List.splitOn_ne_nil mark rest)
        | cons head tail =>
            rw [pieces, List.modifyHead_cons] at member
            rcases List.mem_cons.mp member with first | later
            · rw [first, List.mem_cons, not_or]
              constructor
              · intro isMark
                exact notMark (by rw [isMark]; exact BEq.rfl)
              · exact ih (by rw [pieces]; exact List.mem_cons_self)
            · exact ih (by rw [pieces]; exact List.mem_cons_of_mem _ later)

def steps (chars : List Char) : List Component := (chars.splitOn '/').filterMap component

theorem isStep_of_mem_steps {chars : List Char} {part : Component}
    (member : part ∈ steps chars) : IsStep part := by
  obtain ⟨piece, present, read⟩ := List.mem_filterMap.mp member
  exact isStep_of_component read (not_mem_of_mem_splitOn present)

theorem components_eq (path : SourcePath) :
    path.components =
      (if path.isAbsolute then [.root]
        else if (path.text.toList.splitOn '/').head? = some ['.'] then [.here] else []) ++
      steps path.text.toList := by
  unfold components steps
  rw [Text.pieces_eq_splitOn]
  dsimp only
  split
  · rfl
  · split <;> rfl

theorem text_ofComponents {parts : List Component} (allSteps : ∀ part ∈ parts, IsStep part) :
    (ofComponents parts).text = String.intercalate "/" (parts.map Component.text) := by
  unfold ofComponents
  split
  · exact absurd rfl (allSteps .root List.mem_cons_self).ne_root
  · rfl

theorem pieces_ofComponents {parts : List Component} (allSteps : ∀ part ∈ parts, IsStep part)
    (nonempty : parts ≠ []) :
    (ofComponents parts).text.toList.splitOn '/' = parts.map (·.text.toList) := by
  rw [text_ofComponents allSteps, String.toList_intercalate, List.map_map]
  apply List.splitOn_intercalate
  · intro piece member
    obtain ⟨part, present, rfl⟩ := List.mem_map.mp member
    exact (allSteps part present).2
  · simpa using nonempty

private theorem filterMap_component {parts : List Component}
    (allSteps : ∀ part ∈ parts, IsStep part) :
    (parts.map (·.text.toList)).filterMap component = parts := by
  induction parts with
  | nil => rfl
  | cons part rest ih =>
      rw [List.map_cons, List.filterMap_cons, (allSteps part List.mem_cons_self).1]
      simp only
      rw [ih (fun other member => allSteps other (List.mem_cons_of_mem _ member))]

theorem steps_ofComponents {parts : List Component} (allSteps : ∀ part ∈ parts, IsStep part) :
    steps (ofComponents parts).text.toList = parts := by
  cases parts with
  | nil => decide
  | cons part rest =>
      unfold steps
      rw [pieces_ofComponents allSteps (List.cons_ne_nil _ _), filterMap_component allSteps]

theorem ofComponents_relative {parts : List Component} (allSteps : ∀ part ∈ parts, IsStep part) :
    (ofComponents parts).isAbsolute = false := by
  unfold isAbsolute
  rw [text_ofComponents allSteps, String.toList_intercalate, decide_eq_false_iff_not]
  cases parts with
  | nil => decide
  | cons part rest =>
      obtain ⟨read, clear⟩ := allSteps part List.mem_cons_self
      cases written : part.text.toList with
      | nil => rw [written] at read; cases read
      | cons first others =>
          have notMark : first ≠ '/' := by
            intro isMark
            apply clear
            rw [written, isMark]
            exact List.mem_cons_self
          cases rest <;> simp [written, notMark]

theorem components_ofComponents {parts : List Component}
    (allSteps : ∀ part ∈ parts, IsStep part) : (ofComponents parts).components = parts := by
  rw [components_eq, steps_ofComponents allSteps, ofComponents_relative allSteps,
    if_neg Bool.false_ne_true]
  cases parts with
  | nil => decide
  | cons part rest =>
      have front : (ofComponents (part :: rest)).text.toList.splitOn '/' =
          part.text.toList :: rest.map (·.text.toList) :=
        pieces_ofComponents allSteps (List.cons_ne_nil _ _)
      have notHere : part.text.toList ≠ ['.'] := by
        intro isHere
        have read := (allSteps part List.mem_cons_self).1
        rw [isHere] at read
        cases read
      rw [front, List.head?_cons, if_neg (fun equal => notHere (Option.some.inj equal)),
        List.nil_append]

/-! ### Joined paths -/

theorem isAbsolute_iff (path : SourcePath) :
    path.isAbsolute = true ↔ ∃ rest, path.text.toList = '/' :: rest := by
  unfold isAbsolute
  rw [decide_eq_true_iff]
  exact List.head?_eq_some_iff

def front (base : SourcePath) : String :=
  if base.text = "" then ""
  else if base.text.toList.getLast? = some '/' then base.text
  else base.text ++ "/"

theorem text_join (base : SourcePath) {path : SourcePath} (relative : path.isAbsolute = false) :
    (base.join path).text = base.front ++ path.text := by
  unfold join front
  rw [relative, if_neg Bool.false_ne_true]
  split
  · rw [String.empty_append]
  · split <;> rfl

theorem front_cases (base : SourcePath) :
    (base.text = "" ∧ base.front = "") ∨
      ∃ lead, base.front.toList = lead ++ ['/'] ∧
        (base.text.toList = lead ∨ base.text.toList = lead ++ ['/']) := by
  unfold front
  split
  · rename_i empty
    exact Or.inl ⟨empty, rfl⟩
  · split
    · rename_i ends
      obtain ⟨lead, written⟩ := List.getLast?_eq_some_iff.mp ends
      exact Or.inr ⟨lead, written, Or.inr written⟩
    · refine Or.inr ⟨base.text.toList, ?_, Or.inl rfl⟩
      rw [String.toList_append]
      rfl

theorem pieces_join (base : SourcePath) :
    ∃ lead : List (List Char), lead.filterMap component = steps base.text.toList ∧
      ∀ path : SourcePath, path.isAbsolute = false →
        (base.join path).text.toList.splitOn '/' = lead ++ path.text.toList.splitOn '/' := by
  rcases front_cases base with ⟨empty, nothing⟩ | ⟨lead, fronted, written⟩
  · refine ⟨[], ?_, ?_⟩
    · rw [empty]
      decide
    · intro path relative
      rw [text_join base relative, nothing, String.empty_append, List.nil_append]
  · refine ⟨lead.splitOn '/', ?_, ?_⟩
    · unfold steps
      rcases written with bare | ended
      · rw [bare]
      · rw [ended, List.splitOn_append_cons_self, List.filterMap_append]
        exact (List.append_nil _).symm
    · intro path relative
      rw [text_join base relative, String.toList_append, fronted, List.append_assoc]
      exact List.splitOn_append_cons_self lead path.text.toList

theorem join_isAbsolute {base path : SourcePath} (absolute : base.isAbsolute = true) :
    (base.join path).isAbsolute = true := by
  cases relative : path.isAbsolute with
  | true =>
      unfold join
      rw [relative, if_pos rfl]
      exact relative
  | false =>
      obtain ⟨rest, written⟩ := (isAbsolute_iff base).mp absolute
      rw [isAbsolute_iff, text_join base relative, String.toList_append]
      rcases front_cases base with ⟨empty, _nothing⟩ | ⟨lead, fronted, bare | ended⟩
      · rw [empty] at written
        cases written
      · rw [fronted, ← bare, written]
        exact ⟨_, rfl⟩
      · rw [fronted, ← ended, written]
        exact ⟨_, rfl⟩

theorem components_of_absolute {path : SourcePath} (absolute : path.isAbsolute = true) :
    path.components = .root :: steps path.text.toList := by
  rw [components_eq, absolute, if_pos rfl, List.singleton_append]

theorem components_join {base path : SourcePath} (absolute : base.isAbsolute = true)
    (relative : path.isAbsolute = false) :
    (base.join path).components = base.components ++ steps path.text.toList := by
  obtain ⟨lead, same, pieces⟩ := pieces_join base
  rw [components_of_absolute (join_isAbsolute absolute), components_of_absolute absolute,
    List.cons_append]
  congr 1
  unfold steps at same ⊢
  rw [pieces path relative, List.filterMap_append, same]

theorem IsStep.ne_nil {part : Component} (step : IsStep part) : part.text.toList ≠ [] := by
  intro empty
  have read := step.1
  rw [empty] at read
  cases read

theorem front_of_absolute {base : SourcePath} (absolute : base.isAbsolute = true) :
    ∃ lead, base.front.toList = lead ++ ['/'] := by
  rcases front_cases base with ⟨empty, _nothing⟩ | ⟨lead, fronted, _ends⟩
  · obtain ⟨rest, written⟩ := (isAbsolute_iff base).mp absolute
    rw [empty] at written
    cases written
  · exact ⟨lead, fronted⟩

theorem front_of_getLast? {base : SourcePath} {last : Char}
    (ends : base.text.toList.getLast? = some last) :
    base.front = if last = '/' then base.text else base.text ++ "/" := by
  have nonempty : base.text ≠ "" := by
    intro empty
    rw [empty] at ends
    cases ends
  unfold front
  rw [if_neg nonempty, ends]
  by_cases slash : last = '/'
  · rw [if_pos (congrArg some slash), if_pos slash]
  · rw [if_neg (fun same => slash (Option.some.inj same)), if_neg slash]

theorem intercalate_concat (texts : List String) (last : String) :
    ∃ lead, String.intercalate "/" (texts ++ [last]) = lead ++ last := by
  by_cases empty : texts = []
  · exact ⟨"", by rw [empty]; simp⟩
  · refine ⟨String.intercalate "/" texts ++ "/", ?_⟩
    rw [String.intercalate_append_of_ne_nil empty (by simp), String.intercalate_singleton]

theorem join_join_name {base : SourcePath} (absolute : base.isAbsolute = true)
    {above : List String} {name : String}
    (each : ∀ other ∈ above ++ [name], IsStep (.name other)) :
    (base.join (ofComponents (above.map .name))).join ⟨name⟩ =
      base.join (ofComponents ((above ++ [name]).map .name)) := by
  have aboveEach := fun other member => each other (List.mem_append_left [name] member)
  have relative : (SourcePath.mk name).isAbsolute = false :=
    ofComponents_relative (@isStep_names [name]
      (fun other member => each other (List.mem_append_right above member)))
  suffices text : ((base.join (ofComponents (above.map .name))).join ⟨name⟩).text =
      (base.join (ofComponents ((above ++ [name]).map .name))).text from
    congrArg SourcePath.mk text
  have aboveText := text_join base (ofComponents_relative (isStep_names aboveEach))
  rw [text_ofComponents (isStep_names aboveEach)] at aboveText
  rw [text_join _ relative, text_join base (ofComponents_relative (isStep_names each)),
    text_ofComponents (isStep_names each), List.map_append, List.map_append]
  rcases List.eq_nil_or_concat above with rfl | ⟨others, last, written⟩
  · obtain ⟨lead, fronted⟩ := front_of_absolute absolute
    have bare : (base.join (ofComponents (([] : List String).map .name))).text = base.front :=
      aboveText.trans String.append_empty
    have slash : (base.join (ofComponents (([] : List String).map .name))).text.toList.getLast? =
        some '/' := by
      rw [bare, fronted]
      simp
    rw [front_of_getLast? slash, if_pos rfl, bare]
    rfl
  · rw [List.concat_eq_append] at written
    subst written
    have step := aboveEach last (List.mem_append_right others List.mem_cons_self)
    obtain ⟨chars, char, ended⟩ := (List.eq_nil_or_concat last.toList).resolve_left step.ne_nil
    rw [List.concat_eq_append] at ended
    have ordinary : char ≠ '/' := by
      rintro rfl
      exact step.2 (by rw [Component.text, ended]; exact List.mem_concat_self)
    obtain ⟨lead, tail⟩ := intercalate_concat ((others.map Component.name).map Component.text) last
    have ends : (base.join (ofComponents ((others ++ [last]).map .name))).text.toList.getLast? =
        some char := by
      rw [aboveText, List.map_append, List.map_append]
      change (base.front ++ String.intercalate "/" (_ ++ [last])).toList.getLast? = _
      rw [tail, String.toList_append, String.toList_append, ended, ← List.append_assoc,
        ← List.append_assoc, List.getLast?_concat]
    rw [front_of_getLast? ends, if_neg ordinary, aboveText, List.map_append,
      String.intercalate_append_of_ne_nil (by simp) (by simp)]
    simp [String.append_assoc, Component.text]

theorem below_eq_some {path base : SourcePath} {parts : List Component} :
    path.below base = some parts ↔ path.components = base.components ++ parts := by
  unfold SourcePath.below startsWith
  constructor
  · intro under
    split at under
    · rename_i starts
      obtain ⟨rest, extended⟩ := List.isPrefixOf_iff_prefix.mp starts
      rw [← extended, List.drop_left] at under
      cases under
      exact extended.symm
    · cases under
  · intro extended
    rw [extended, List.isPrefixOf_iff_prefix.mpr (List.prefix_append _ _), if_pos rfl,
      List.drop_left]

theorem length_le_utf8ByteSize {names : List String} (each : ∀ name ∈ names, IsStep (.name name)) :
    names.length ≤ (ofComponents (names.map .name)).text.utf8ByteSize := by
  rw [text_ofComponents (isStep_names each), List.map_map]
  induction names with
  | nil => exact Nat.zero_le _
  | cons name rest ih =>
      have later := ih (fun other member => each other (List.mem_cons_of_mem _ member))
      have nonempty : 0 < name.utf8ByteSize := by
        refine Nat.pos_of_ne_zero fun none => (each name List.mem_cons_self).ne_nil ?_
        exact String.toList_eq_nil_iff.mpr (String.utf8ByteSize_eq_zero_iff.mp none)
      cases rest with
      | nil => simpa [Component.text] using Nat.succ_le_of_lt nonempty
      | cons next more =>
          have slash : "/".utf8ByteSize = 1 := by decide
          rw [List.map_cons, List.map_cons, String.intercalate_cons_cons,
            String.utf8ByteSize_append, String.utf8ByteSize_append, slash]
          rw [List.map_cons] at later
          change _ ≤ name.utf8ByteSize + 1 + _
          rw [List.length_cons]
          omega

theorem steps_of_same {path other : SourcePath} (alike : path.same other = true) :
    path.isAbsolute = other.isAbsolute ∧
      steps path.text.toList = steps other.text.toList := by
  have kept (chars : List Char) :
      (steps chars).filter (fun part => part ≠ .root && part ≠ .here) = steps chars := by
    rw [List.filter_eq_self]
    intro part member
    have step := isStep_of_mem_steps member
    simp [step.ne_root, step.ne_here]
  have stepsOf (path : SourcePath) :
      path.components.filter (fun part => part ≠ .root && part ≠ .here) =
        steps path.text.toList := by
    rw [components_eq, List.filter_append, kept]
    split
    · rfl
    · split <;> rfl
  have absoluteOf (path : SourcePath) :
      path.isAbsolute = true ↔ Component.root ∈ path.components := by
    rw [components_eq, List.mem_append]
    have noRoot : Component.root ∉ steps path.text.toList :=
      fun member => (isStep_of_mem_steps member).ne_root rfl
    cases path.isAbsolute with
    | true => simp
    | false =>
        rw [if_neg Bool.false_ne_true]
        split <;> simp [noRoot]
  have equal := same_iff.mp alike
  constructor
  · rw [Bool.eq_iff_iff, absoluteOf, absoluteOf, equal]
  · rw [← stepsOf, ← stepsOf, equal]

theorem steps_join_of_same {base path other : SourcePath} (alike : path.same other = true) :
    steps (base.join path).text.toList = steps (base.join other).text.toList := by
  obtain ⟨kinds, equal⟩ := steps_of_same alike
  cases relative : path.isAbsolute with
  | true =>
      unfold join
      rw [← kinds, relative, if_pos rfl, if_pos rfl]
      exact equal
  | false =>
      obtain ⟨lead, same, pieces⟩ := pieces_join base
      unfold steps at equal ⊢
      rw [pieces path relative, pieces other (kinds ▸ relative), List.filterMap_append,
        List.filterMap_append, equal]

def Written (path : SourcePath) : Prop :=
  ∃ parts : List Component, (∀ part ∈ parts, IsStep part) ∧ path = ofComponents parts

def Plain (path : SourcePath) : Prop :=
  ∃ names : List String, (∀ name ∈ names, IsStep (.name name)) ∧
    path = ofComponents (names.map Component.name)

theorem Plain.written {path : SourcePath} (plain : path.Plain) : path.Written := by
  obtain ⟨names, each, equal⟩ := plain
  exact ⟨names.map Component.name, isStep_names each, equal⟩

theorem Written.eq_of_same {first second : SourcePath} (written : first.Written)
    (other : second.Written) (alike : first.same second = true) : first = second := by
  obtain ⟨parts, allSteps, rfl⟩ := written
  obtain ⟨otherParts, otherSteps, rfl⟩ := other
  have equal := same_iff.mp alike
  rw [components_ofComponents allSteps, components_ofComponents otherSteps] at equal
  rw [equal]

end SourcePath

end Reanalysis
