import Flowfile.Expr.Template
import Flowfile.Proofs.Expr.Arity
import Flowfile.Proofs.Number.Range

/-! What an evaluation cannot do without, and what its failures come from.

An evaluation needs the truth of a value, an integer as a key, or the answer of its context. It
fails with an error that is none of expressions just where it comes to one of these that there is
not. -/

namespace Flowfile

theorem Traced.result_bind {α β : Type} (first : Traced α) (next : α → Traced β) :
    (first >>= next).result = first.result >>= fun a => (next a).result := by
  rcases first with ⟨asked, _ | a⟩ <;> rfl

def Answers (resolve : Resolver) (path : Text) : Prop :=
  Contained (resolve path)

inductive Demand
  | truth (value : Value)
  | key (i : Int)
  | answer (path : Text)

namespace Demand

/-- There is what is demanded, given which paths have an answer. -/
def Met (answered : Text → Prop) : Demand → Prop
  | .truth value => ∀ i, value = .int i → i.natAbs < Double.overflow
  | .key i => i.natAbs < 10 ^ digitLimit
  | .answer path => answered path

def Unmet (error : EvalError) (unanswered : Text → Prop) : Demand → Prop
  | .truth value =>
    error = .integerTooLarge ∧ ∃ i, value = .int i ∧ Double.overflow ≤ i.natAbs
  | .key i => error = .tooManyDigits ∧ 10 ^ digitLimit ≤ i.natAbs
  | .answer path => unanswered path

def Fails (resolve : Resolver) (error : EvalError) (demand : Demand) : Prop :=
  demand.Unmet error fun path => resolve path = .error error

theorem escapes_of_unmet {error : EvalError} {unanswered : Text → Prop} {demand : Demand}
    (unmet : demand.Unmet error unanswered) (outer : ∀ path, unanswered path → error.Escapes) :
    error.Escapes := by
  cases demand with
  | truth value =>
      obtain ⟨rfl, -⟩ := unmet
      exact EvalError.integerTooLarge_escapes
  | key i =>
      obtain ⟨rfl, -⟩ := unmet
      exact EvalError.tooManyDigits_escapes
  | answer path => exact outer path unmet

theorem met_iff {answered : Text → Prop} {unanswered : EvalError → Text → Prop}
    (same : ∀ path, answered path ↔ ∀ error, error.Escapes → ¬unanswered error path)
    (demand : Demand) :
    demand.Met answered ↔
      ∀ error, error.Escapes → ¬demand.Unmet error (unanswered error) := by
  cases demand with
  | truth value =>
      constructor
      · rintro met error - ⟨-, i, held, large⟩
        exact absurd (met i held) (Nat.not_lt.mpr large)
      · intro met i held
        refine Nat.lt_of_not_le fun large => ?_
        exact met _ EvalError.integerTooLarge_escapes ⟨rfl, i, held, large⟩
  | key i =>
      constructor
      · rintro met error - ⟨-, large⟩
        exact absurd met (Nat.not_lt.mpr large)
      · intro met
        refine Nat.lt_of_not_le fun large => ?_
        exact met _ EvalError.tooManyDigits_escapes ⟨rfl, large⟩
  | answer path => exact same path

theorem met_answers_iff (resolve : Resolver) (demand : Demand) :
    demand.Met (Answers resolve) ↔ ∀ error, error.Escapes → ¬demand.Fails resolve error := by
  exact met_iff (fun path => contained_iff (resolve path)) demand

end Demand

namespace Expr

inductive StaticKey : Expr → Int → Prop
  | here {target base i} (reached : staticPath target = .ok (some base)) :
      StaticKey (.index target (.literal (.int i))) i
  | property {target name i} (inner : StaticKey target i) : StaticKey (.property target name) i
  | index {target value key i} (keyed : literalKey? value = some key)
      (inner : StaticKey target i) : StaticKey (.index target (.literal value)) i

/-- An operator goes on to its right operand after a left one of this value. -/
def Continues (op : BinaryOp) (value : Value) : Prop :=
  (op = .and → value.truthy = .ok true) ∧ (op = .or → value.truthy = .ok false)

/-- The evaluation of the expression comes to the demand. -/
inductive Demands (resolve : Resolver) : Expr → Demand → Prop
  | chain {e path} (static : staticPath e = .ok (some path)) :
      Demands resolve e (.answer (Text.dotted path))
  | chainKey {e i} (key : StaticKey e i) : Demands resolve e (.key i)
  | property {target name demand} (computed : staticPath (.property target name) = .ok none)
      (inner : Demands resolve target demand) : Demands resolve (.property target name) demand
  | target {target key demand} (computed : staticPath (.index target key) = .ok none)
      (inner : Demands resolve target demand) : Demands resolve (.index target key) demand
  | index {target key value demand} (computed : staticPath (.index target key) = .ok none)
      (reached : (evaluate resolve target).result = .ok value)
      (inner : Demands resolve key demand) : Demands resolve (.index target key) demand
  | entry {target key origin entries i} (computed : staticPath (.index target key) = .ok none)
      (reached : (evaluate resolve target).result = .ok (.map origin entries))
      (keyed : (evaluate resolve key).result = .ok (.int i)) :
      Demands resolve (.index target key) (.key i)
  | operand {operand demand} (inner : Demands resolve operand demand) :
      Demands resolve (.not operand) demand
  | negated {operand value} (reached : (evaluate resolve operand).result = .ok value) :
      Demands resolve (.not operand) (.truth value)
  | left {op left right demand} (inner : Demands resolve left demand) :
      Demands resolve (.binary op left right) demand
  | decided {op left right value} (logical : op = .and ∨ op = .or)
      (reached : (evaluate resolve left).result = .ok value) :
      Demands resolve (.binary op left right) (.truth value)
  | right {op left right value demand}
      (reached : (evaluate resolve left).result = .ok value) (continues : Continues op value)
      (inner : Demands resolve right demand) : Demands resolve (.binary op left right) demand
  | argument {function before arg after demand}
      (reached : ∀ earlier ∈ before, ∃ value, (evaluate resolve earlier).result = .ok value)
      (inner : Demands resolve arg demand) :
      Demands resolve (.call function (before ++ arg :: after)) demand

section

variable {resolve : Resolver}

theorem literalKey?_eq_error {value : Value} {error : EvalError}
    (keyed : literalKey? value = some (.error error)) :
    ∃ i, value = .int i ∧ error = .tooManyDigits ∧ 10 ^ digitLimit ≤ i.natAbs := by
  rw [literalKey?.eq_def] at keyed
  split at keyed
  · cases keyed
  · rename_i i
    exact ⟨i, rfl, (integerKey_eq_error i error).mp (Option.some.inj keyed)⟩
  · cases keyed

theorem staticPath_eq_error (e : Expr) (error : EvalError) :
    staticPath e = .error error ↔
      error = .tooManyDigits ∧ ∃ i, StaticKey e i ∧ 10 ^ digitLimit ≤ i.natAbs := by
  constructor
  · intro failed
    fun_induction staticPath e with
    | case1 => cases failed
    | case2 target name ih =>
        rcases (bind_eq_error _ _ error).mp failed with inner | ⟨base, -, done⟩
        · obtain ⟨same, i, key, many⟩ := ih inner
          exact ⟨same, i, .property key, many⟩
        · split at done <;> cases done
    | case3 target value unkeyed => cases failed
    | case4 target value key keyed ih =>
        rcases (bind_eq_error _ _ error).mp failed with inner | ⟨base, reached, rest⟩
        · obtain ⟨same, i, chained, many⟩ := ih inner
          exact ⟨same, i, .index keyed chained, many⟩
        · split at rest
          · rcases (bind_eq_error _ _ error).mp rest with bad | ⟨_, -, done⟩
            · rw [bad] at keyed
              obtain ⟨i, rfl, same, many⟩ := literalKey?_eq_error keyed
              exact ⟨same, i, .here reached, many⟩
            · cases done
          · cases rest
    | case5 => cases failed
  · rintro ⟨rfl, i, key, many⟩
    have bad := (integerKey_eq_error i .tooManyDigits).mpr ⟨rfl, many⟩
    induction key with
    | @here target base i reached =>
        have keyed : literalKey? (.int i) = some (integerKey i) := rfl
        rw [staticPath, keyed]
        dsimp only
        rw [reached, bad]
        rfl
    | property inner ih =>
        rw [staticPath, ih many bad]
        rfl
    | index keyed inner ih =>
        rw [staticPath, keyed]
        dsimp only
        rw [ih many bad]
        rfl

section

attribute [local simp] evaluate

theorem evaluate_context (name : Text) :
    (evaluate resolve (.context name)).result = resolve name := by
  simp [Traced.ask]

end

theorem evaluate_chain {e : Expr} {path : List Text} (static : staticPath e = .ok (some path)) :
    (evaluate resolve e).result = resolve (Text.dotted path) := by
  cases e with
  | context name =>
      cases static
      rfl
  | property target name =>
      rw [evaluate, static]
      rfl
  | index target key =>
      rw [evaluate, static]
      rfl
  | literal value => cases static
  | not operand => cases static
  | binary op left right => cases static
  | call function args => cases static

theorem evaluate_chain_error {e : Expr} {error : EvalError}
    (failed : staticPath e = .error error) : (evaluate resolve e).result = .error error := by
  cases e with
  | property target name =>
      rw [evaluate, failed]
      rfl
  | index target key =>
      rw [evaluate, failed]
      rfl
  | context name => cases failed
  | literal value => cases failed
  | not operand => cases failed
  | binary op left right => cases failed
  | call function args => cases failed

theorem evaluate_property {target : Expr} {name : Text}
    (computed : staticPath (.property target name) = .ok none) :
    (evaluate resolve (.property target name)).result =
      (evaluate resolve target).result >>= fun value => value.access (.str name) := by
  rw [evaluate, computed, Traced.result_bind]
  exact Traced.result_bind _ _

theorem evaluate_index {target key : Expr} (computed : staticPath (.index target key) = .ok none) :
    (evaluate resolve (.index target key)).result =
      (evaluate resolve target).result >>= fun value =>
        (evaluate resolve key).result >>= fun keyValue => value.access keyValue := by
  rw [evaluate, computed, Traced.result_bind]
  refine (Traced.result_bind _ _).trans ?_
  congr 1
  funext value
  exact Traced.result_bind _ _

theorem evaluate_not (operand : Expr) :
    (evaluate resolve (.not operand)).result =
      (evaluate resolve operand).result >>= fun value =>
        value.truthy >>= fun holds => .ok (.bool !holds) := by
  rw [evaluate, Traced.result_bind]
  congr 1
  funext value
  exact Traced.result_bind _ _

theorem evaluate_and (left right : Expr) :
    (evaluate resolve (.binary .and left right)).result =
      (evaluate resolve left).result >>= fun value =>
        value.truthy >>= fun holds =>
          if holds then (evaluate resolve right).result else .ok value := by
  rw [evaluate, Traced.result_bind]
  congr 1
  funext value
  refine (Traced.result_bind _ _).trans ?_
  congr 1
  funext holds
  cases holds <;> rfl

theorem evaluate_or (left right : Expr) :
    (evaluate resolve (.binary .or left right)).result =
      (evaluate resolve left).result >>= fun value =>
        value.truthy >>= fun holds =>
          if holds then .ok value else (evaluate resolve right).result := by
  rw [evaluate, Traced.result_bind]
  congr 1
  funext value
  refine (Traced.result_bind _ _).trans ?_
  congr 1
  funext holds
  cases holds <;> rfl

theorem evaluate_strict (op : BinaryOp) (left right : Expr) (conjoins : op ≠ .and)
    (disjoins : op ≠ .or) :
    (evaluate resolve (.binary op left right)).result =
      (evaluate resolve left).result >>= fun leftValue =>
        (evaluate resolve right).result >>= fun rightValue =>
          .ok (.bool (op.apply leftValue rightValue)) := by
  rw [evaluate, Traced.result_bind]
  · congr 1
    funext value
    exact Traced.result_bind _ _
  · exact conjoins
  · exact disjoins

theorem evaluate_call (function : Function) (args : List Expr) :
    (evaluate resolve (.call function args)).result =
      (evaluateAll resolve args).result >>= function.apply := by
  rw [evaluate, Traced.result_bind]
  rfl

theorem evaluateAll_cons (e : Expr) (rest : List Expr) :
    (evaluateAll resolve (e :: rest)).result =
      (evaluate resolve e).result >>= fun value =>
        (evaluateAll resolve rest).result >>= fun values => .ok (value :: values) := by
  rw [evaluateAll, Traced.result_bind]
  congr 1
  funext value
  exact Traced.result_bind _ _

theorem evaluateAll_length (args : List Expr) (values : List Value)
    (reached : (evaluateAll resolve args).result = .ok values) : values.length = args.length := by
  induction args generalizing values with
  | nil =>
      cases reached
      rfl
  | cons e rest ih =>
      rw [evaluateAll_cons] at reached
      obtain ⟨value, -, inner⟩ := (bind_eq_ok _ _ _).mp reached
      obtain ⟨others, found, done⟩ := (bind_eq_ok _ _ _).mp inner
      cases done
      rw [List.length_cons, List.length_cons, ih others found]

theorem evaluateAll_eq_error (args : List Expr) (error : EvalError) :
    (evaluateAll resolve args).result = .error error ↔
      FirstFails (fun arg => (evaluate resolve arg).result) args error := by
  induction args with
  | nil =>
      refine ⟨fun failed => (by cases failed), fun failed => absurd failed (firstFails_nil _ error)⟩
  | cons e rest ih =>
      rw [evaluateAll_cons, bind_eq_error, firstFails_cons, ← ih]
      refine or_congr_right (exists_congr fun value => and_congr_right fun _ => ?_)
      exact bind_wrap_eq_error _ _ error

theorem evaluate_left {op : BinaryOp} {left right : Expr} {error : EvalError}
    (failed : (evaluate resolve left).result = .error error) :
    (evaluate resolve (.binary op left right)).result = .error error := by
  by_cases conjoins : op = .and
  · subst conjoins
    rw [evaluate_and, failed, error_bind]
  by_cases disjoins : op = .or
  · subst disjoins
    rw [evaluate_or, failed, error_bind]
  rw [evaluate_strict op left right conjoins disjoins, failed, error_bind]

theorem evaluate_right {op : BinaryOp} {left right : Expr} {value : Value} {error : EvalError}
    (reached : (evaluate resolve left).result = .ok value) (continues : Continues op value)
    (failed : (evaluate resolve right).result = .error error) :
    (evaluate resolve (.binary op left right)).result = .error error := by
  by_cases conjoins : op = .and
  · subst conjoins
    rw [evaluate_and, reached, ok_bind, continues.1 rfl, ok_bind, if_pos rfl, failed]
  by_cases disjoins : op = .or
  · subst disjoins
    rw [evaluate_or, reached, ok_bind, continues.2 rfl, ok_bind, if_neg Bool.false_ne_true, failed]
  rw [evaluate_strict op left right conjoins disjoins, reached, ok_bind, failed, error_bind]

theorem binary_error_cases {op : BinaryOp} {left right : Expr} {error : EvalError}
    (failed : (evaluate resolve (.binary op left right)).result = .error error) :
    (evaluate resolve left).result = .error error ∨
      ∃ value, (evaluate resolve left).result = .ok value ∧
        ((op = .and ∨ op = .or) ∧ value.truthy = .error error ∨
          Continues op value ∧ (evaluate resolve right).result = .error error) := by
  by_cases conjoins : op = .and
  · subst conjoins
    rw [evaluate_and] at failed
    rcases (bind_eq_error _ _ error).mp failed with failed | ⟨value, reached, failed⟩
    · exact .inl failed
    refine .inr ⟨value, reached, ?_⟩
    rcases (bind_eq_error _ _ error).mp failed with untold | ⟨holds, told, failed⟩
    · exact .inl ⟨.inl rfl, untold⟩
    cases holds with
    | false => cases failed
    | true => exact .inr ⟨⟨fun _ => told, fun other => by cases other⟩, failed⟩
  by_cases disjoins : op = .or
  · subst disjoins
    rw [evaluate_or] at failed
    rcases (bind_eq_error _ _ error).mp failed with failed | ⟨value, reached, failed⟩
    · exact .inl failed
    refine .inr ⟨value, reached, ?_⟩
    rcases (bind_eq_error _ _ error).mp failed with untold | ⟨holds, told, failed⟩
    · exact .inl ⟨.inr rfl, untold⟩
    cases holds with
    | false => exact .inr ⟨⟨fun other => (by cases other), fun _ => told⟩, failed⟩
    | true => cases failed
  rw [evaluate_strict op left right conjoins disjoins] at failed
  rcases (bind_eq_error _ _ error).mp failed with failed | ⟨value, reached, failed⟩
  · exact .inl failed
  refine .inr ⟨value, reached, .inr ⟨⟨fun same => absurd same conjoins,
    fun same => absurd same disjoins⟩, ?_⟩⟩
  rcases (bind_eq_error _ _ error).mp failed with failed | ⟨other, -, done⟩
  · exact failed
  · cases done

theorem access_eq_error (value key : Value) (error : EvalError) :
    value.access key = .error error ↔
      ∃ origin entries i, value = .map origin entries ∧ key = .int i ∧
        integerKey i = .error error := by
  constructor
  · intro failed
    rw [Value.access.eq_def] at failed
    split at failed
    · split at failed <;> cases failed
    · rename_i origin entries
      split at failed
      · cases failed
      · rename_i i
        rcases (bind_eq_error _ _ error).mp failed with many | ⟨text, -, done⟩
        · exact ⟨origin, entries, i, rfl, rfl, many⟩
        · cases done
      · cases failed
    · cases failed
  · rintro ⟨origin, entries, i, rfl, rfl, many⟩
    rw [Value.access, many, error_bind]

theorem evaluate_error_of_demands {e : Expr} {demand : Demand} {error : EvalError}
    (demands : Demands resolve e demand) (fails : demand.Fails resolve error) :
    (evaluate resolve e).result = .error error := by
  induction demands with
  | chain static => rw [evaluate_chain static, fails]
  | chainKey key =>
      exact evaluate_chain_error ((staticPath_eq_error _ error).mpr ⟨fails.1, _, key, fails.2⟩)
  | property computed inner ih =>
      rw [evaluate_property computed, ih fails, error_bind]
  | target computed inner ih =>
      rw [evaluate_index computed, ih fails, error_bind]
  | index computed reached inner ih =>
      rw [evaluate_index computed, reached, ok_bind, ih fails, error_bind]
  | entry computed reached keyed =>
      rw [evaluate_index computed, reached, ok_bind, keyed, ok_bind]
      exact (access_eq_error ..).mpr ⟨_, _, _, rfl, rfl, (integerKey_eq_error _ error).mpr fails⟩
  | operand inner ih =>
      rw [evaluate_not, ih fails, error_bind]
  | negated reached =>
      rw [evaluate_not, reached, ok_bind, (Value.truthy_eq_error _ error).mpr fails, error_bind]
  | left inner ih => exact evaluate_left (ih fails)
  | decided logical reached =>
      have untold := (Value.truthy_eq_error _ error).mpr fails
      rcases logical with rfl | rfl
      · rw [evaluate_and, reached, ok_bind, untold, error_bind]
      · rw [evaluate_or, reached, ok_bind, untold, error_bind]
  | right reached continues inner ih => exact evaluate_right reached continues (ih fails)
  | argument reached inner ih =>
      rw [evaluate_call, (evaluateAll_eq_error _ error).mpr ⟨_, _, _, rfl, reached, ih fails⟩,
        error_bind]

theorem demands_of_evaluate_error {e : Expr} {error : EvalError} (admitted : e.Admitted)
    (escapes : error.Escapes) (failed : (evaluate resolve e).result = .error error) :
    ∃ demand, Demands resolve e demand ∧ demand.Fails resolve error := by
  -- An access is a static chain, which asks the context at once, or has a target of its own.
  induction admitted with
  | literal value => cases failed
  | context name => exact ⟨_, .chain rfl, failed⟩
  | @property target name inner ih =>
      rcases static : staticPath (.property target name) with bad | _ | path
      · rw [evaluate_chain_error static] at failed
        cases failed
        obtain ⟨same, i, key, many⟩ := (staticPath_eq_error _ error).mp static
        exact ⟨_, .chainKey key, same, many⟩
      · rw [evaluate_property static] at failed
        rcases (bind_eq_error _ _ error).mp failed with failed | ⟨value, -, failed⟩
        · obtain ⟨demand, demands, fails⟩ := ih failed
          exact ⟨demand, .property static demands, fails⟩
        · obtain ⟨_, _, _, -, keyed, -⟩ := (access_eq_error ..).mp failed
          cases keyed
      · rw [evaluate_chain static] at failed
        exact ⟨_, .chain static, failed⟩
  | @index target key inner computed ih ih' =>
      rcases static : staticPath (.index target key) with bad | _ | path
      · rw [evaluate_chain_error static] at failed
        cases failed
        obtain ⟨same, i, key, many⟩ := (staticPath_eq_error _ error).mp static
        exact ⟨_, .chainKey key, same, many⟩
      · rw [evaluate_index static] at failed
        rcases (bind_eq_error _ _ error).mp failed with failed | ⟨value, reached, failed⟩
        · obtain ⟨demand, demands, fails⟩ := ih failed
          exact ⟨demand, .target static demands, fails⟩
        rcases (bind_eq_error _ _ error).mp failed with failed | ⟨keyValue, keyed, failed⟩
        · obtain ⟨demand, demands, fails⟩ := ih' failed
          exact ⟨demand, .index static reached demands, fails⟩
        obtain ⟨origin, entries, i, rfl, rfl, many⟩ := (access_eq_error ..).mp failed
        exact ⟨_, .entry static reached keyed, (integerKey_eq_error i error).mp many⟩
      · rw [evaluate_chain static] at failed
        exact ⟨_, .chain static, failed⟩
  | @not operand inner ih =>
      rw [evaluate_not] at failed
      rcases (bind_eq_error _ _ error).mp failed with failed | ⟨value, reached, failed⟩
      · obtain ⟨demand, demands, fails⟩ := ih failed
        exact ⟨demand, .operand demands, fails⟩
      rcases (bind_eq_error _ _ error).mp failed with untold | ⟨holds, -, done⟩
      · exact ⟨_, .negated reached, (Value.truthy_eq_error value error).mp untold⟩
      · cases done
  | @binary op left right first second ih ih' =>
      rcases binary_error_cases failed with failed | ⟨value, reached, ⟨logical, untold⟩ | rest⟩
      · obtain ⟨demand, demands, fails⟩ := ih failed
        exact ⟨demand, .left demands, fails⟩
      · exact ⟨_, .decided logical reached, (Value.truthy_eq_error value error).mp untold⟩
      · obtain ⟨demand, demands, fails⟩ := ih' rest.2
        exact ⟨demand, .right reached rest.1 demands, fails⟩
  | @call function args fits inner ih =>
      rw [evaluate_call] at failed
      rcases (bind_eq_error _ _ error).mp failed with failed | ⟨values, reached, failed⟩
      · obtain ⟨before, arg, after, rfl, earlier, failed⟩ := (evaluateAll_eq_error _ error).mp failed
        obtain ⟨demand, demands, fails⟩ := ih arg (by simp) failed
        exact ⟨demand, .argument earlier demands, fails⟩
      · rw [← evaluateAll_length args values reached] at fits
        exact absurd escapes (function.apply_not_escapes values error fits failed)

theorem evaluate_eq_error {e : Expr} {error : EvalError} (admitted : e.Admitted)
    (escapes : error.Escapes) :
    (evaluate resolve e).result = .error error ↔
      ∃ demand, Demands resolve e demand ∧ demand.Fails resolve error := by
  constructor
  · exact demands_of_evaluate_error admitted escapes
  · rintro ⟨demand, demands, fails⟩
    exact evaluate_error_of_demands demands fails

theorem evaluate_contained_iff {e : Expr} (admitted : e.Admitted) :
    Contained (evaluate resolve e).result ↔
      ∀ demand, Demands resolve e demand → demand.Met (Answers resolve) := by
  rw [contained_iff]
  constructor
  · intro unfailing demand demands
    refine (Demand.met_answers_iff resolve demand).mpr fun error escapes fails => ?_
    exact unfailing error escapes (evaluate_error_of_demands demands fails)
  · intro met error escapes failed
    obtain ⟨demand, demands, fails⟩ := demands_of_evaluate_error admitted escapes failed
    exact (Demand.met_answers_iff resolve demand).mp (met demand demands) error escapes fails

end

def SourceDemands (resolve : Resolver) (source : Text) (demand : Demand) : Prop :=
  ∃ e, parse source = .ok e ∧ Demands resolve e demand

theorem evaluateSource_eq_error (resolve : Resolver) (source : Text) (error : EvalError)
    (escapes : error.Escapes) :
    (evaluateSource resolve source).result = .error error ↔
      ∃ demand, SourceDemands resolve source demand ∧ demand.Fails resolve error := by
  rw [evaluateSource]
  rcases parsed : parse source with problem | e
  · constructor
    · intro failed
      cases failed
      exact absurd rfl (escapes problem)
    · rintro ⟨demand, ⟨e, accepted, -⟩, -⟩
      rw [parsed] at accepted
      cases accepted
  · dsimp only
    rw [evaluate_eq_error (parse_admitted source e parsed) escapes]
    constructor
    · rintro ⟨demand, demands, fails⟩
      exact ⟨demand, ⟨e, parsed, demands⟩, fails⟩
    · rintro ⟨demand, ⟨e', accepted, demands⟩, fails⟩
      cases parsed.symm.trans accepted
      exact ⟨demand, demands, fails⟩

end Expr

namespace Template

def Demands (resolve : Resolver) (text : Text) (demand : Demand) : Prop :=
  ∃ before span after, closedSpans text = before ++ span :: after ∧
    (∀ earlier ∈ before, ∃ value, (Expr.evaluateSource resolve earlier.source).result = .ok value) ∧
      Expr.SourceDemands resolve span.source demand

theorem splice_eq_error (resolve : Resolver) (text : Text) (cursor : Nat) (spans : List Span)
    (error : EvalError) :
    (splice resolve text cursor spans).result = .error error ↔
      FirstFails (fun span => (Expr.evaluateSource resolve span.source).result) spans error := by
  induction spans generalizing cursor with
  | nil =>
      refine ⟨fun failed => (by cases failed), fun failed => absurd failed (firstFails_nil _ error)⟩
  | cons span rest ih =>
      rw [splice, Traced.result_bind, bind_eq_error, firstFails_cons, ← ih span.stop]
      refine or_congr_right (exists_congr fun value => and_congr_right fun _ => ?_)
      rw [Traced.result_bind]
      exact bind_wrap_eq_error _ _ error

theorem evaluate_eq_error (resolve : Resolver) (text : Text) (error : EvalError)
    (escapes : error.Escapes) :
    (evaluate resolve text).result = .error error ↔
      ∃ demand, Demands resolve text demand ∧ demand.Fails resolve error := by
  have first : (evaluate resolve text).result = .error error ↔
      FirstFails (fun span => (Expr.evaluateSource resolve span.source).result)
        (closedSpans text) error := by
    have spliced : (do return Value.str (← splice resolve text 0 (closedSpans text)) :
        Traced Value).result = .error error ↔ FirstFails
          (fun span => (Expr.evaluateSource resolve span.source).result) (closedSpans text) error := by
      rw [Traced.result_bind, ← splice_eq_error resolve text 0]
      exact bind_wrap_eq_error _ _ error
    rw [evaluate]
    split
    · rename_i span only
      split
      · rw [only, firstFails_cons]
        refine ⟨.inl, ?_⟩
        rintro (failed | ⟨value, -, failed⟩)
        · exact failed
        · exact absurd failed (firstFails_nil _ error)
      · exact spliced
    · exact spliced
  rw [first]
  constructor
  · rintro ⟨before, span, after, same, earlier, failed⟩
    obtain ⟨demand, demands, fails⟩ :=
      (Expr.evaluateSource_eq_error resolve span.source error escapes).mp failed
    exact ⟨demand, ⟨before, span, after, same, earlier, demands⟩, fails⟩
  · rintro ⟨demand, ⟨before, span, after, same, earlier, demands⟩, fails⟩
    refine ⟨before, span, after, same, earlier, ?_⟩
    exact (Expr.evaluateSource_eq_error resolve span.source error escapes).mpr
      ⟨demand, demands, fails⟩

end Template

end Flowfile
