/-
The verdict on the replies of all engines. A signalled token outweighs all of them, and the first
engine that fails outweighs those that were cancelled; otherwise the issues that the filter keeps
are put together in the order of the engines.
-/

import Reanalysis.Proofs.LifecycleSteps

namespace Reanalysis

namespace Outcome

/-- A reply that does not make a cycle fail. -/
def Harmless (reply : Except Failure (List Issue)) : Prop :=
  ∀ failure, reply = .error failure → failure = .error .cancelled

/-- What is to come of the replies of engines, in their order, once the last of them is there. -/
inductive Verdict (filter : IssueFilter) :
    Bool → List (String × Except Failure (List Issue)) → Outcome → Prop
  | signalled (replies : List (String × Except Failure (List Issue))) :
      Verdict filter true replies .cancelled
  /-- The first engine that fails is named, though engines in front of it were cancelled. -/
  | errored (before after : List (String × Except Failure (List Issue))) (engine : String)
      (failure : Failure) (harmless : ∀ entry ∈ before, Harmless entry.2)
      (serious : failure ≠ .error .cancelled) :
      Verdict filter false (before ++ (engine, .error failure) :: after)
        (.errored ⟨engine, failure.toError engine⟩)
  | cancelled (replies : List (String × Except Failure (List Issue)))
      (harmless : ∀ entry ∈ replies, Harmless entry.2) (engine : String)
      (member : (engine, .error (.error .cancelled)) ∈ replies) :
      Verdict filter false replies .cancelled
  | resolved (reports : List (String × List Issue)) :
      Verdict filter false (reports.map fun report => (report.1, .ok report.2))
        (.resolved ((reports.flatMap (·.2)).filter filter.keeps))

def named (reply : String × Except Failure (List Issue)) :
    String × Except AnalysisError (List Issue) :=
  (reply.1, reply.2.mapError (Failure.toError reply.1))

variable {filter : IssueFilter} {signalled : Bool}
  {replies : List (String × Except Failure (List Issue))} {outcome : Outcome}

theorem firstError_of_harmless (harmless : ∀ entry ∈ replies, Harmless entry.2) :
    firstError (replies.map named) = none := by
  unfold firstError
  rw [List.findSome?_eq_none_iff]
  intro entry member
  obtain ⟨⟨engine, reply⟩, present, rfl⟩ := List.mem_map.mp member
  cases reply with
  | ok issues => rfl
  | error failure =>
      cases harmless _ present failure rfl
      rfl

theorem firstError_of_serious {before after : List (String × Except Failure (List Issue))}
    {engine : String} {failure : Failure} (harmless : ∀ entry ∈ before, Harmless entry.2)
    (serious : failure ≠ .error .cancelled) :
    firstError ((before ++ (engine, .error failure) :: after).map named) =
      some ⟨engine, failure.toError engine⟩ := by
  have nothing := firstError_of_harmless harmless
  unfold firstError at nothing ⊢
  rw [List.map_append, List.findSome?_append, nothing, Option.none_or, List.map_cons]
  cases failure with
  | broke thrown => rfl
  | error cause =>
      cases cause with
      | cancelled => exact absurd rfl serious
      | transportClosed reason => rfl
      | engine name message => rfl
      | configuration message => rfl
      | protocol message => rfl

theorem allIssues_of_error {engine : String} {failure : Failure}
    (member : (engine, .error failure) ∈ replies) : allIssues (replies.map named) = none := by
  induction replies with
  | nil => cases member
  | cons first rest ih =>
      obtain ⟨name, reply⟩ := first
      cases reply with
      | error cause => rfl
      | ok issues =>
          have later : (engine, .error failure) ∈ rest :=
            (List.mem_cons.mp member).resolve_left fun same => nomatch congrArg Prod.snd same
          exact congrArg (Option.map (issues ++ ·)) (ih later)

theorem allIssues_of_reports (reports : List (String × List Issue)) :
    allIssues ((reports.map fun report => (report.1, .ok report.2)).map named) =
      some (reports.flatMap (·.2)) := by
  induction reports with
  | nil => rfl
  | cons first rest ih => exact congrArg (Option.map (first.2 ++ ·)) ih

theorem Verdict.eq_of (verdict : Verdict filter signalled replies outcome) :
    outcome = Outcome.of filter signalled (replies.map named) := by
  unfold Outcome.of
  cases verdict with
  | signalled => rfl
  | errored before after engine failure harmless serious =>
      rw [if_neg Bool.false_ne_true, firstError_of_serious harmless serious]
  | cancelled replies harmless engine member =>
      rw [if_neg Bool.false_ne_true, firstError_of_harmless harmless, allIssues_of_error member]
  | resolved reports =>
      have harmless : ∀ entry ∈ reports.map (fun report => (report.1, .ok report.2)),
          Harmless entry.2 := by
        intro entry member
        obtain ⟨report, _, rfl⟩ := List.mem_map.mp member
        exact fun failure failed => nomatch failed
      rw [if_neg Bool.false_ne_true, firstError_of_harmless harmless, allIssues_of_reports]
      rfl

theorem harmless_or_serious (replies : List (String × Except Failure (List Issue))) :
    (∀ entry ∈ replies, Harmless entry.2) ∨
      ∃ before after engine failure, replies = before ++ (engine, .error failure) :: after ∧
        (∀ entry ∈ before, Harmless entry.2) ∧ failure ≠ .error .cancelled := by
  induction replies with
  | nil => exact Or.inl fun entry member => nomatch member
  | cons first rest ih =>
      obtain ⟨engine, reply⟩ := first
      by_cases harmless : Harmless reply
      · rcases ih with all | ⟨before, after, other, failure, rfl, front, serious⟩
        · exact Or.inl (List.forall_mem_cons.mpr ⟨harmless, all⟩)
        · exact Or.inr ⟨(engine, reply) :: before, after, other, failure, rfl,
            List.forall_mem_cons.mpr ⟨harmless, front⟩, serious⟩
      · unfold Harmless at harmless
        cases reply with
        | ok issues => exact absurd (fun failure failed => nomatch failed) harmless
        | error failure =>
            refine Or.inr ⟨[], rest, engine, failure, rfl, fun entry member => (nomatch member),
              fun same => harmless fun other equal => ?_⟩
            cases equal
            exact same

theorem cancelled_or_reports (harmless : ∀ entry ∈ replies, Harmless entry.2) :
    (∃ engine, (engine, .error (.error .cancelled)) ∈ replies) ∨
      ∃ reports : List (String × List Issue),
        replies = reports.map fun report => (report.1, .ok report.2) := by
  induction replies with
  | nil => exact Or.inr ⟨[], rfl⟩
  | cons first rest ih =>
      obtain ⟨engine, reply⟩ := first
      obtain ⟨here, later⟩ := List.forall_mem_cons.mp harmless
      cases reply with
      | error failure =>
          cases here failure rfl
          exact Or.inl ⟨engine, List.mem_cons_self⟩
      | ok issues =>
          rcases ih later with ⟨other, member⟩ | ⟨reports, rfl⟩
          · exact Or.inl ⟨other, List.mem_cons_of_mem _ member⟩
          · exact Or.inr ⟨(engine, issues) :: reports, rfl⟩

theorem verdict_of (filter : IssueFilter) (signalled : Bool)
    (replies : List (String × Except Failure (List Issue))) :
    Verdict filter signalled replies (Outcome.of filter signalled (replies.map named)) := by
  have found : ∃ outcome, Verdict filter signalled replies outcome := by
    cases signalled with
    | true => exact ⟨_, .signalled replies⟩
    | false =>
        rcases harmless_or_serious replies with
          harmless | ⟨before, after, engine, failure, rfl, harmless, serious⟩
        · rcases cancelled_or_reports harmless with ⟨engine, member⟩ | ⟨reports, rfl⟩
          · exact ⟨_, .cancelled replies harmless engine member⟩
          · exact ⟨_, .resolved reports⟩
        · exact ⟨_, .errored before after engine failure harmless serious⟩
  obtain ⟨outcome, verdict⟩ := found
  rw [← verdict.eq_of]
  exact verdict

/-- An error is that of an engine, and says what this engine failed with. -/
theorem Verdict.source {error : CycleError}
    (verdict : Verdict filter signalled replies (.errored error)) :
    ∃ failure, (error.engine, .error failure) ∈ replies ∧
      error.source = failure.toError error.engine := by
  cases verdict with
  | errored before after engine failure harmless serious =>
      exact ⟨failure, List.mem_append_right before List.mem_cons_self, rfl⟩

end Outcome

/-- A cycle goes on while answers are open, and then comes to the verdict on them. -/
theorem Lifecycle.judged_cases (life : Lifecycle) (cycle : Cycle)
    (answers : List (Option (Except Failure (List Issue)))) :
    life.judged cycle answers = .reporting answers ∨
      ∃ complete outcome, answers = complete.map some ∧
        life.judged cycle answers = .settled outcome ∧
        Outcome.Verdict life.filter cycle.signalled (life.engines.zip complete) outcome := by
  unfold judged
  cases all : answers.mapM id with
  | none => exact .inl rfl
  | some complete =>
      refine .inr ⟨complete, _, mapM_id_eq_some.mp all, rfl, ?_⟩
      have named : (life.engines.zip complete).map Outcome.named =
          life.engines.zipWith
            (fun engine reply => (engine, reply.mapError (Failure.toError engine))) complete :=
        List.map_uncurry_zip_eq_zipWith
          (f := fun engine reply => (engine, Except.mapError (Failure.toError engine) reply))
      rw [← named]
      exact Outcome.verdict_of _ _ _

end Reanalysis
