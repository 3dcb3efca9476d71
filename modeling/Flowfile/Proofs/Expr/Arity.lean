import Flowfile.Expr.Eval
import Flowfile.Proofs.Expr.Formation

/-! Every call in a parsed expression has as many arguments as its function takes, and a function
fails on them with errors of expressions only. -/

namespace Flowfile

/-- Hover catches the errors of expressions and no others. -/
def EvalError.Escapes (error : EvalError) : Prop := ∀ problem, error ≠ .expression problem

theorem EvalError.not_escapes_iff (error : EvalError) :
    ¬error.Escapes ↔ ∃ problem, error = .expression problem := by
  constructor
  · intro caught
    cases error with
    | expression problem => exact ⟨problem, rfl⟩
    | _ => exact absurd (fun problem same => by cases same) caught
  · rintro ⟨problem, rfl⟩ escapes
    exact escapes problem rfl

theorem EvalError.integerTooLarge_escapes : integerTooLarge.Escapes := by
  intro problem same
  cases same

theorem EvalError.tooManyDigits_escapes : tooManyDigits.Escapes := by
  intro problem same
  cases same

theorem EvalError.noSuchStep_escapes : noSuchStep.Escapes := by
  intro problem same
  cases same

def Contained {α : Type} (outcome : Except EvalError α) : Prop :=
  ∀ error, outcome = .error error → ∃ problem, error = .expression problem

theorem contained_iff {α : Type} (outcome : Except EvalError α) :
    Contained outcome ↔ ∀ error, error.Escapes → outcome ≠ .error error := by
  constructor
  · intro contained error escapes failed
    exact error.not_escapes_iff.mpr (contained error failed) escapes
  · intro unfailing error failed
    exact error.not_escapes_iff.mp fun escapes => unfailing error escapes failed

theorem map_eq_error {α : Type} {first : Except EvalError α} {next : α → α} {error : EvalError}
    (failed : (do return next (← first)) = .error error) : first = .error error := by
  rcases (bind_eq_error first _ error).mp failed with failed | ⟨a, -, done⟩
  · exact failed
  · cases done

theorem formatFrom_eq_error (template : Text) (args : List Text) (skip : Nat) (rest : Text)
    (error : EvalError) (failed : formatFrom template args skip rest = .error error) :
    ∃ message, error = .failure message := by
  fun_induction formatFrom template args skip rest with
  | case1 => cases failed
  | case2 skip c rest ih => exact ih failed
  | case3 rest doubled ih => exact ih (map_eq_error failed)
  | case4 rest single missing =>
      cases failed
      exact ⟨_, rfl⟩
  | case5 rest single index size found missing =>
      cases failed
      exact ⟨_, rfl⟩
  | case6 rest single index size found text present ih => exact ih (map_eq_error failed)
  | case7 rest closes doubled ih => exact ih (map_eq_error failed)
  | case8 rest closes single =>
      cases failed
      exact ⟨_, rfl⟩
  | case9 c rest opens closes ih => exact ih (map_eq_error failed)

theorem fromJson_eq_error (value : Value) (error : EvalError)
    (failed : fromJson value = .error error) : ∃ message, error = .failure message := by
  rw [fromJson] at failed
  split at failed
  · cases failed
  · split at failed
    · cases failed
    · cases failed
      exact ⟨_, rfl⟩

namespace Function

theorem apply_not_escapes (function : Function) (args : List Value) (error : EvalError)
    (admitted : function.admits args.length = true)
    (failed : function.apply args = .error error) : ¬error.Escapes := by
  intro escapes
  obtain ⟨least, greatest⟩ := (admits_iff function args.length).mp admitted
  cases function with
  | contains | startsWith | endsWith =>
      have two : args.length = 2 := Nat.le_antisymm (greatest 2 rfl) least
      obtain ⟨search, rest, rfl⟩ := List.exists_cons_of_length_eq_add_one two
      obtain ⟨item, rfl⟩ := List.length_eq_one_iff.mp (Nat.succ.inj two)
      cases failed
  | format =>
      obtain ⟨template, rest, rfl⟩ := List.exists_cons_of_length_pos least
      rcases (bind_eq_error _ _ error).mp failed with inner | ⟨text, -, done⟩
      · obtain ⟨message, same⟩ := formatFrom_eq_error _ _ _ _ error inner
        exact escapes _ same
      · cases done
  | join =>
      match args, least with
      | [value], _ => cases failed
      | [value, separator], _ => cases failed
      | _ :: _ :: _ :: _, _ => exact absurd (greatest 2 rfl) (by simp)
  | toJson =>
      obtain ⟨value, rfl⟩ := List.length_eq_one_iff.mp (Nat.le_antisymm (greatest 1 rfl) least)
      cases failed
  | fromJson =>
      obtain ⟨value, rfl⟩ := List.length_eq_one_iff.mp (Nat.le_antisymm (greatest 1 rfl) least)
      obtain ⟨message, same⟩ := fromJson_eq_error value error failed
      exact escapes _ same
  | success | always | failure | cancelled =>
      obtain rfl := List.length_eq_zero_iff.mp (Nat.le_zero.mp (greatest 0 rfl))
      cases failed
  | hashFiles => cases failed

end Function

namespace Expr

inductive Admitted : Expr → Prop
  | literal (value : Value) : Admitted (.literal value)
  | context (name : Text) : Admitted (.context name)
  | property {target : Expr} {name : Text} (inner : Admitted target) :
      Admitted (.property target name)
  | index {target key : Expr} (inner : Admitted target) (computed : Admitted key) :
      Admitted (.index target key)
  | not {operand : Expr} (inner : Admitted operand) : Admitted (.not operand)
  | binary {op : BinaryOp} {left right : Expr} (first : Admitted left) (second : Admitted right) :
      Admitted (.binary op left right)
  | call {function : Function} {args : List Expr} (fits : function.admits args.length = true)
      (inner : ∀ arg ∈ args, Admitted arg) : Admitted (.call function args)

theorem admitted_of_wellFormed {names : Text → Prop} {values : Value → Prop} {e : Expr}
    (formed : WellFormed names values e) : e.Admitted := by
  induction formed with
  | literal _ => exact .literal _
  | context _ _ => exact .context _
  | property _ _ ih => exact .property ih
  | index _ _ ih ih' => exact .index ih ih'
  | not _ ih => exact .not ih
  | binary _ _ ih ih' => exact .binary ih ih'
  | call fits _ ih => exact .call fits ih

theorem parse_admitted (source : Text) (e : Expr) (parsed : parse source = .ok e) :
    e.Admitted := by
  obtain ⟨tokens, used, rest, p, -, -, -, rfl⟩ := exists_phrase_of_parse parsed
  have formed : p.expr.Formed fun _ => True := phrase_formed p fun _ _ => trivial
  exact admitted_of_wellFormed formed

end Expr

end Flowfile
