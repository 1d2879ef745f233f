/-
Errors that are sent. The name of a failing engine travels in front of its message and is cut
off again at the first colon with a space behind it. So an error comes back as it was unless
such a colon stands in the name of its engine, whatever its message holds, and what has come
back once comes back the same from then on.
-/

import Mathlib.Data.List.Infix
import Mathlib.Logic.Function.Iterate
import Reanalysis.Proofs.WireFormats

namespace Reanalysis

namespace AnalysisError

/-- The mark between the name of an engine and its message. -/
def mark : List Char := [':', ' ']

/-- Whether the name of the engine, if there is one, is free of the mark. -/
def Named : AnalysisError → Prop
  | .engine name _ => ¬mark <:+: name.toList
  | _ => True

theorem not_mark_infix_cons {char : Char} {rest : List Char} :
    ¬mark <:+: char :: rest ↔ ¬(char = ':' ∧ rest.head? = some ' ') ∧ ¬mark <:+: rest := by
  rw [List.infix_cons_iff, not_or, mark, List.cons_prefix_cons]
  cases rest with
  | nil => simp
  | cons next others => simp [eq_comm]

theorem cutName_behind {name : List Char} (clear : ¬mark <:+: name)
    (before message : List Char) :
    cutName before (name ++ ':' :: ' ' :: message) = some (before.reverse ++ name, message) := by
  induction name generalizing before with
  | nil => rw [List.nil_append, cutName, List.append_nil]
  | cons char rest ih =>
      obtain ⟨apart, later⟩ := not_mark_infix_cons.mp clear
      rw [List.cons_append, cutName, ih later, List.reverse_cons, List.append_assoc]
      · rfl
      · intro after isColon isSpace
        apply apart
        refine ⟨isColon, ?_⟩
        cases rest with
        | nil => cases isSpace
        | cons next others =>
            cases isSpace
            rfl

theorem cutName_eq_some {before chars name message : List Char}
    (cut : cutName before chars = some (name, message)) :
    ∃ front, name = before.reverse ++ front ∧ chars = front ++ ':' :: ' ' :: message ∧
      ¬mark <:+: front := by
  induction before, chars using cutName.induct with
  | case1 before rest =>
      rw [cutName] at cut
      cases cut
      exact ⟨[], (List.append_nil _).symm, rfl, by decide⟩
  | case2 before char rest apart ih =>
      rw [cutName] at cut
      · obtain ⟨front, named, split, clear⟩ := ih cut
        refine ⟨char :: front, ?_, congrArg (char :: ·) split, not_mark_infix_cons.mpr ⟨?_, clear⟩⟩
        · rw [named, List.reverse_cons, List.append_assoc, List.singleton_append]
        · rintro ⟨isColon, spaced⟩
          obtain ⟨others, rfl⟩ := List.head?_eq_some_iff.mp spaced
          exact apart _ isColon split
      · exact apart
  | case3 before => cases cut

theorem named_ofFault (fault : Fault) : (ofFault fault).Named := by
  obtain ⟨kind, message⟩ := fault
  cases kind with
  | engine =>
      unfold ofFault
      dsimp only
      split
      · rename_i name rest cut
        obtain ⟨front, rfl, _split, clear⟩ := cutName_eq_some cut
        simpa [Named] using clear
      · change ¬mark <:+: "worker".toList
        decide
  | _ => trivial

theorem ofFault_toFault_of_named {error : AnalysisError} (named : error.Named) :
    ofFault error.toFault = error := by
  cases error with
  | engine name message =>
      have sent : (name ++ ": " ++ message).toList = name.toList ++ ':' :: ' ' :: message.toList := by
        simp [String.toList_append]
      simp only [toFault, ofFault, kind, sent, cutName_behind named [] message.toList]
      rw [List.reverse_nil, List.nil_append, String.ofList_toList, String.ofList_toList]
  | _ => rfl

theorem ofFault_toFault_iff (error : AnalysisError) :
    ofFault error.toFault = error ↔ error.Named := by
  constructor
  · intro same
    rw [← same]
    exact named_ofFault error.toFault
  · exact ofFault_toFault_of_named

theorem kind_ofFault (fault : Fault) : (ofFault fault).kind = fault.kind := by
  obtain ⟨kind, message⟩ := fault
  cases kind with
  | engine =>
      unfold ofFault
      dsimp only
      split <;> rfl
  | _ => rfl

/-- A fault as it is sent on by one who received it. -/
def forward (fault : Fault) : Fault := (ofFault fault).toFault

theorem ofFault_forward (fault : Fault) : ofFault (forward fault) = ofFault fault :=
  ofFault_toFault_of_named (named_ofFault fault)

theorem ofFault_forwarded (hops : Nat) (fault : Fault) :
    ofFault (forward^[hops] fault) = ofFault fault := by
  induction hops with
  | zero => rfl
  | succ hops ih => rw [Function.iterate_succ_apply', ofFault_forward, ih]

/-- Exactly the errors whose engine names are free of the mark come back as they were sent; all
are sent with their kind, and in a text from which they are read back. Whatever is received is
received alike after any number of hops, all of the same kind, of which only the first may
change how it is worded. -/
theorem errors_survive_sending :
    (∀ error : AnalysisError, ofFault error.toFault = error ↔ error.Named) ∧
      (∀ error : AnalysisError, error.toFault.kind = error.kind ∧
        (Document.read error.toFault.toJson.render).bind Fault.ofDocument? =
          some error.toFault) ∧
      ∀ (fault : Fault) (hops : Nat),
        ofFault (forward^[hops] fault) = ofFault fault ∧
          (ofFault fault).kind = fault.kind ∧ (forward^[hops] fault).kind = fault.kind ∧
          forward^[hops + 1] fault = forward fault := by
  refine ⟨ofFault_toFault_iff, fun error => ⟨rfl, error.toFault.travels.text⟩, ?_⟩
  intro fault hops
  have received := ofFault_forwarded hops fault
  refine ⟨received, kind_ofFault fault, ?_, ?_⟩
  · rw [← kind_ofFault, received, kind_ofFault]
  · rw [Function.iterate_succ_apply', forward, received]
    rfl

end AnalysisError

end Reanalysis
