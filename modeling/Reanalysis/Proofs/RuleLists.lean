/-
Rules that are silenced or sharpened. The two lists of an engine decide about its rules before
the rules look at a text. That comes to the same as a pass over what the rules find when both
lists are empty: the issues of allowed rules are dropped, and those of denied rules become
errors. So a rule in both lists is silent, and only the names of registered rules count.
-/

import Mathlib.Data.List.Basic
import Reanalysis.Engine.LineRules

namespace Reanalysis

namespace Issue

def sharpen (denied : List String) (issue : Issue) : Issue :=
  if denied.contains issue.code then { issue with severity := .error } else issue

def judge (allowed denied : List String) (issues : List Issue) : List Issue :=
  (issues.filter fun issue => !allowed.contains issue.code).map (sharpen denied)

theorem judge_flatMap {α : Type} (allowed denied : List String) (items : List α)
    (found : α → List Issue) :
    judge allowed denied (items.flatMap found) =
      items.flatMap fun item => judge allowed denied (found item) := by
  simp only [judge, List.filter_flatMap, List.map_flatMap]

end Issue

namespace LineRules

variable {rules : LineRules} {file : SourcePath} {text : String} {rule : LineRule}

def unlisted (rules : LineRules) : LineRules := { rules with allowed := [], denied := [] }

/-- The built-in rules and others behind them, under two lists. -/
def withCustom (limit : Nat) (customs : List LineRule) (allowed denied : List String) :
    LineRules :=
  customs.foldl register (of allowed denied limit)

/-- Whether two pairs of lists decide alike about a rule. -/
def DecideAlike (allowed denied otherAllowed otherDenied : List String) (rule : LineRule) :
    Prop :=
  (rule.name ∈ allowed ↔ rule.name ∈ otherAllowed) ∧
    (rule.name ∉ allowed → (rule.name ∈ denied ↔ rule.name ∈ otherDenied))

instance (allowed denied otherAllowed otherDenied : List String) (rule : LineRule) :
    Decidable (DecideAlike allowed denied otherAllowed otherDenied rule) :=
  inferInstanceAs (Decidable (_ ∧ _))

theorem apply_of_allowed (listed : rule.name ∈ rules.allowed) :
    rules.apply file text rule = [] := by
  unfold apply
  rw [if_pos (List.contains_iff_mem.mpr listed)]

theorem apply_of_heard (heard : rule.name ∉ rules.allowed) :
    rules.apply file text rule = (rule.check text).map fun violation =>
      { file := file
        line := violation.line
        column := violation.column
        severity := rules.severityOf rule
        code := rule.name
        message := violation.message
        source := .lint } := by
  unfold apply
  rw [if_neg (fun listed => heard (List.contains_iff_mem.mp listed))]

/-- All issues of a rule bear its name, so the lists hit all of them or none. -/
theorem code_of_mem_apply {issue : Issue} (found : issue ∈ rules.apply file text rule) :
    issue.code = rule.name := by
  by_cases listed : rule.name ∈ rules.allowed
  · rw [apply_of_allowed listed] at found
    exact absurd found List.not_mem_nil
  · rw [apply_of_heard listed] at found
    obtain ⟨violation, _member, rfl⟩ := List.mem_map.mp found
    rfl

theorem apply_eq_judge (rules : LineRules) (file : SourcePath) (text : String)
    (rule : LineRule) :
    rules.apply file text rule =
      Issue.judge rules.allowed rules.denied (rules.unlisted.apply file text rule) := by
  unfold Issue.judge
  by_cases listed : rule.name ∈ rules.allowed
  · rw [apply_of_allowed listed, List.filter_eq_nil_iff.mpr, List.map_nil]
    intro issue found
    rw [code_of_mem_apply found]
    simpa using listed
  · have heard : rule.name ∉ rules.unlisted.allowed := List.not_mem_nil
    rw [List.filter_eq_self.mpr]
    · rw [apply_of_heard listed, apply_of_heard heard, List.map_map]
      apply List.map_congr_left
      intro violation _member
      unfold Function.comp Issue.sharpen severityOf
      cases rules.denied.contains rule.name <;> rfl
    · intro issue found
      rw [code_of_mem_apply found]
      simpa using listed

theorem apply_congr {other : LineRules}
    (alike : DecideAlike rules.allowed rules.denied other.allowed other.denied rule) :
    rules.apply file text rule = other.apply file text rule := by
  by_cases listed : rule.name ∈ rules.allowed
  · rw [apply_of_allowed listed, apply_of_allowed (alike.1.mp listed)]
  · have sameSeverity : rules.severityOf rule = other.severityOf rule := by
      have sharpened : rules.denied.contains rule.name = other.denied.contains rule.name := by
        rw [Bool.eq_iff_iff, List.contains_iff_mem, List.contains_iff_mem]
        exact alike.2 listed
      unfold severityOf
      rw [sharpened]
    rw [apply_of_heard listed, apply_of_heard (fun otherwise => listed (alike.1.mpr otherwise)),
      sameSeverity]

theorem analyze_eq_judge (rules : LineRules) (file : SourcePath) (text : String) :
    rules.analyze file text =
      Issue.judge rules.allowed rules.denied (rules.unlisted.analyze file text) := by
  unfold analyze
  rw [Issue.judge_flatMap]
  apply List.flatMap_congr
  intro rule _member
  exact apply_eq_judge rules file text rule

theorem analyze_congr {all : List LineRule} {allowed denied otherAllowed otherDenied : List String}
    (alike : ∀ rule ∈ all, DecideAlike allowed denied otherAllowed otherDenied rule) :
    LineRules.analyze ⟨all, otherAllowed, otherDenied⟩ file text =
      LineRules.analyze ⟨all, allowed, denied⟩ file text := by
  unfold analyze
  apply List.flatMap_congr
  intro rule member
  exact (apply_congr (alike rule member)).symm

theorem foldl_register (rules : LineRules) (customs : List LineRule) :
    customs.foldl register rules = { rules with rules := rules.rules ++ customs } := by
  induction customs generalizing rules with
  | nil => simp
  | cons custom rest ih => simp [ih, register]

theorem withCustom_eq (limit : Nat) (customs : List LineRule) (allowed denied : List String) :
    withCustom limit customs allowed denied =
      ⟨LineRule.builtIn limit ++ customs, allowed, denied⟩ :=
  foldl_register (of allowed denied limit) customs

/-- Whatever rules there are: what they find under two lists is what they find under empty ones,
less the issues with allowed codes, those with denied codes as errors. And it is the same under
any other lists that hold the same names of registered rules, less those that are allowed. -/
theorem lists_judge_issues (limit : Nat) (customs : List LineRule) (file : SourcePath)
    (text : String) (allowed denied : List String) :
    (withCustom limit customs allowed denied).analyze file text =
        (((withCustom limit customs [] []).analyze file text).filter
          (fun issue => !allowed.contains issue.code)).map (Issue.sharpen denied) ∧
      ∀ otherAllowed otherDenied : List String,
        (∀ rule ∈ LineRule.builtIn limit ++ customs,
          DecideAlike allowed denied otherAllowed otherDenied rule) →
        (withCustom limit customs otherAllowed otherDenied).analyze file text =
          (withCustom limit customs allowed denied).analyze file text := by
  simp only [withCustom_eq]
  constructor
  · exact analyze_eq_judge _ file text
  · intro otherAllowed otherDenied alike
    exact analyze_congr alike

/-- Two rules share a name, and one name is in both lists, or twice in one, or that of no rule. -/
theorem lists_judge_issues_of_namesakes :
    let echo : LineRule :=
      { name := "no-tabs", severity := .warning, check := fun _ => [⟨1, 1, "seen"⟩] }
    let found := fun allowed denied =>
      (withCustom 3 [echo] allowed denied).analyze ⟨"src/a.ts"⟩ "\tlong \n"
    (∀ rule ∈ LineRule.builtIn 3 ++ [echo],
      DecideAlike ["max-line-length"] ["max-line-length", "no-tabs"]
        ["unknown", "max-line-length", "max-line-length"] ["no-tabs", "none"] rule) ∧
      found ["unknown", "max-line-length", "max-line-length"] ["no-tabs", "none"] =
        found ["max-line-length"] ["max-line-length", "no-tabs"] ∧
      (found ["max-line-length"] ["max-line-length", "no-tabs"]).map
          (fun issue => (issue.code, issue.severity)) =
        [("trailing-whitespace", .warning), ("no-tabs", .error), ("no-tabs", .error)] := by
  intro echo found
  have alike : ∀ rule ∈ LineRule.builtIn 3 ++ [echo],
      DecideAlike ["max-line-length"] ["max-line-length", "no-tabs"]
        ["unknown", "max-line-length", "max-line-length"] ["no-tabs", "none"] rule := by
    decide
  obtain ⟨judged, same⟩ := lists_judge_issues 3 [echo] ⟨"src/a.ts"⟩ "\tlong \n"
    ["max-line-length"] ["max-line-length", "no-tabs"]
  refine ⟨alike, same _ _ alike, ?_⟩
  rw [show found ["max-line-length"] ["max-line-length", "no-tabs"] = _ from judged]
  decide +kernel

end LineRules

end Reanalysis
