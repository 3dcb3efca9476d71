import Flowfile.Proofs.Expr.Asked
import Flowfile.Proofs.Expr.Demand

/-! Which paths an evaluation asks for, and in which order.

The static access chains of an expression are asked for from left to right, each as often as it
stands there. What is left out are the right operands that a left operand makes superfluous, and
what comes after an error. -/

namespace Flowfile

namespace Traced

variable {α β : Type}

/-- The run asks for these paths in order; it stops before the last one only if it fails. -/
structure Asks (run : Traced α) (wanted : List Text) : Prop where
  begins : run.asked <+: wanted
  all : ∀ a, run.result = .ok a → run.asked = wanted

theorem asks_lift (result : Except EvalError α) : Asks (lift result) [] :=
  ⟨List.prefix_refl _, fun _ _ => rfl⟩

theorem asks_ask (resolve : Resolver) (path : Text) : Asks (ask resolve path) [path] :=
  ⟨List.prefix_refl _, fun _ _ => rfl⟩

theorem asks_bind {first : Traced α} {next : α → Traced β} {wanted more : List Text}
    (begins : Asks first wanted) (goes : ∀ a, first.result = .ok a → Asks (next a) more) :
    Asks (first >>= next) (wanted ++ more) := by
  rcases done : first.result with error | a
  · rw [bind_error done]
    exact ⟨begins.begins.trans (List.prefix_append _ _), fun _ reached => by cases reached⟩
  · rw [bind_ok done, begins.all a done]
    obtain ⟨front, whole⟩ := goes a done
    exact ⟨(List.prefix_append_right_inj wanted).mpr front,
      fun b reached => by rw [whole b reached]⟩

theorem asks_lift_bind {result : Except EvalError α} {next : α → Traced β} {wanted : List Text}
    (goes : ∀ a, result = .ok a → Asks (next a) wanted) : Asks (lift result >>= next) wanted :=
  asks_bind (asks_lift result) goes

end Traced

namespace Expr

def wholeChain? (e : Expr) : Option Text :=
  match staticPath e with
  | .ok (some path) => some (Text.dotted path)
  | _ => none

mutual

/-- The dotted paths of the static access chains in an expression, from left to right: its own one
if it is a chain, and otherwise those of its parts. -/
def chains (e : Expr) : List Text :=
  match wholeChain? e with
  | some path => [path]
  | none =>
    match e with
    | .literal _ | .context _ => []
    | .property target _ => chains target
    | .index target key => chains target ++ chains key
    | .not operand => chains operand
    | .binary _ left right => chains left ++ chains right
    | .call _ args => chainsAll args

def chainsAll : List Expr → List Text
  | [] => []
  | e :: es => chains e ++ chainsAll es

end

/-- The left operand decides the result, so the right one is not evaluated. -/
def decides (op : BinaryOp) (left : Except EvalError Value) : Bool :=
  match op, left >>= Value.truthy with
  | .and, .ok false | .or, .ok true => true
  | _, _ => false

mutual

/-- The chains that are left when the right operands are dropped whose left operand decides. -/
def needed (resolve : Resolver) (e : Expr) : List Text :=
  match wholeChain? e with
  | some path => [path]
  | none =>
    match e with
    | .literal _ | .context _ => []
    | .property target _ => needed resolve target
    | .index target key => needed resolve target ++ needed resolve key
    | .not operand => needed resolve operand
    | .binary op left right =>
      needed resolve left ++
        if decides op (evaluate resolve left).result then [] else needed resolve right
    | .call _ args => neededAll resolve args

def neededAll (resolve : Resolver) : List Expr → List Text
  | [] => []
  | e :: es => needed resolve e ++ neededAll resolve es

end

mutual

def Strict : Expr → Prop
  | .literal _ | .context _ => True
  | .property target _ => Strict target
  | .index target key => Strict target ∧ Strict key
  | .not operand => Strict operand
  | .binary op left right => op ≠ .and ∧ op ≠ .or ∧ Strict left ∧ Strict right
  | .call _ args => StrictAll args

def StrictAll : List Expr → Prop
  | [] => True
  | e :: es => Strict e ∧ StrictAll es

end

section

variable {resolve : Resolver}

theorem asks_chain {e : Expr} {path : Text} (whole : wholeChain? e = some path) :
    Traced.Asks (evaluate resolve e) [path] := by
  rw [wholeChain?] at whole
  split at whole
  · rename_i segments static
    cases whole
    cases e with
    | context name =>
        cases static
        exact Traced.asks_ask resolve name
    | property target name =>
        rw [evaluate, static]
        exact Traced.asks_ask resolve _
    | index target key =>
        rw [evaluate, static]
        exact Traced.asks_ask resolve _
    | literal value => cases static
    | not operand => cases static
    | binary op left right => cases static
    | call function args => cases static
  · cases whole

theorem not_static {e : Expr} (computed : wholeChain? e = none) {path : List Text} :
    staticPath e ≠ .ok (some path) := by
  intro static
  rw [wholeChain?, static] at computed
  cases computed

theorem decides_and {value : Value} {holds : Bool} (truth : value.truthy = .ok holds) :
    decides .and (.ok value) = !holds := by
  rw [decides.eq_def, ok_bind, truth]
  cases holds <;> rfl

theorem decides_or {value : Value} {holds : Bool} (truth : value.truthy = .ok holds) :
    decides .or (.ok value) = holds := by
  rw [decides.eq_def, ok_bind, truth]
  cases holds <;> rfl

theorem decides_strict {op : BinaryOp} (conjoins : op ≠ .and) (disjoins : op ≠ .or)
    (left : Except EvalError Value) : decides op left = false := by
  cases op <;> first | contradiction | rfl

mutual

theorem evaluate_asks (e : Expr) : Traced.Asks (evaluate resolve e) (needed resolve e) := by
  rcases whole : wholeChain? e with _ | path
  · rw [needed.eq_def, whole]
    dsimp only
    cases e with
    | literal value =>
        rw [evaluate]
        exact Traced.asks_lift (.ok value)
    | context name => cases whole
    | property target name =>
        dsimp only
        rw [evaluate, ← List.append_nil (needed resolve target)]
        refine Traced.asks_lift_bind fun static reached => ?_
        cases static with
        | some path => exact absurd reached (not_static whole)
        | none => exact Traced.asks_bind (evaluate_asks target) fun _ _ => Traced.asks_lift _
    | index target key =>
        dsimp only
        rw [evaluate, ← List.append_nil (needed resolve key)]
        refine Traced.asks_lift_bind fun static reached => ?_
        cases static with
        | some path => exact absurd reached (not_static whole)
        | none =>
            refine Traced.asks_bind (evaluate_asks target) fun value _ => ?_
            exact Traced.asks_bind (evaluate_asks key) fun keyValue _ => Traced.asks_lift _
    | not operand =>
        dsimp only
        rw [evaluate, ← List.append_nil (needed resolve operand)]
        refine Traced.asks_bind (evaluate_asks operand) fun value _ => ?_
        exact Traced.asks_lift_bind fun _ _ => Traced.asks_lift (.ok _)
    | binary op left right =>
        by_cases conjoins : op = .and
        · subst conjoins
          rw [evaluate]
          refine Traced.asks_bind (evaluate_asks left) fun value reached => ?_
          refine Traced.asks_lift_bind fun holds truth => ?_
          rw [reached, decides_and truth]
          cases holds with
          | true => exact evaluate_asks right
          | false => exact Traced.asks_lift (.ok value)
        by_cases disjoins : op = .or
        · subst disjoins
          rw [evaluate]
          refine Traced.asks_bind (evaluate_asks left) fun value reached => ?_
          refine Traced.asks_lift_bind fun holds truth => ?_
          rw [reached, decides_or truth]
          cases holds with
          | true => exact Traced.asks_lift (.ok value)
          | false => exact evaluate_asks right
        · dsimp only
          rw [decides_strict conjoins disjoins, if_neg Bool.false_ne_true,
            ← List.append_nil (needed resolve right), evaluate]
          · refine Traced.asks_bind (evaluate_asks left) fun leftValue _ => ?_
            exact Traced.asks_bind (evaluate_asks right) fun _ _ => Traced.asks_lift (.ok _)
          · exact conjoins
          · exact disjoins
    | call function args =>
        dsimp only
        rw [evaluate, ← List.append_nil (neededAll resolve args)]
        exact Traced.asks_bind (evaluateAll_asks args) fun values _ => Traced.asks_lift _
  · rw [needed.eq_def, whole]
    exact asks_chain whole

theorem evaluateAll_asks (es : List Expr) :
    Traced.Asks (evaluateAll resolve es) (neededAll resolve es) := by
  match es with
  | [] => exact Traced.asks_lift (.ok [])
  | e :: rest =>
      rw [evaluateAll, neededAll, ← List.append_nil (neededAll resolve rest)]
      refine Traced.asks_bind (evaluate_asks e) fun value _ => ?_
      exact Traced.asks_bind (evaluateAll_asks rest) fun values _ => Traced.asks_lift (.ok _)

end

mutual

theorem needed_sublist (e : Expr) : (needed resolve e).Sublist (chains e) := by
  rcases whole : wholeChain? e with _ | path
  · rw [needed.eq_def, chains.eq_def, whole]
    cases e with
    | literal value | context name => exact .slnil
    | property target name => exact needed_sublist target
    | index target key => exact (needed_sublist target).append (needed_sublist key)
    | not operand => exact needed_sublist operand
    | binary op left right =>
        refine (needed_sublist left).append ?_
        split
        · exact List.nil_sublist _
        · exact needed_sublist right
    | call function args => exact neededAll_sublist args
  · have same : needed resolve e = chains e := by rw [needed.eq_def, chains.eq_def, whole]
    simp only [same, List.Sublist.refl]

theorem neededAll_sublist (es : List Expr) : (neededAll resolve es).Sublist (chainsAll es) := by
  match es with
  | [] => exact .slnil
  | e :: rest => exact (needed_sublist e).append (neededAll_sublist rest)

end

mutual

theorem needed_of_strict (e : Expr) (strict : Strict e) : needed resolve e = chains e := by
  rcases whole : wholeChain? e with _ | path
  · rw [needed.eq_def, chains.eq_def, whole]
    cases e with
    | literal value | context name => rfl
    | property target name => exact needed_of_strict target strict
    | index target key =>
        dsimp only
        rw [needed_of_strict target strict.1, needed_of_strict key strict.2]
    | not operand => exact needed_of_strict operand strict
    | binary op left right =>
        obtain ⟨conjoins, disjoins, first, second⟩ := strict
        dsimp only
        rw [decides_strict conjoins disjoins, if_neg Bool.false_ne_true,
          needed_of_strict left first, needed_of_strict right second]
    | call function args => exact neededAll_of_strict args strict
  · rw [needed.eq_def, chains.eq_def, whole]

theorem neededAll_of_strict (es : List Expr) (strict : StrictAll es) :
    neededAll resolve es = chainsAll es := by
  match es with
  | [] => rfl
  | e :: rest =>
      rw [neededAll, chainsAll, needed_of_strict e strict.1, neededAll_of_strict rest strict.2]

end

end

/-- An evaluation asks for the chains that are needed, in order, and for all of them unless it
fails. What is needed are the chains of the expression without those that a left operand makes
superfluous, and the outcome depends on the answers to the chains only. -/
theorem evaluate_asks_chains (resolve : Resolver) (e : Expr) :
    let run := evaluate resolve e
    run.asked.Sublist (chains e) ∧ (needed resolve e).Sublist (chains e) ∧
    run.asked <+: needed resolve e ∧
    (∀ value, run.result = .ok value →
      run.asked = needed resolve e ∧ (Strict e → run.asked = chains e)) ∧
    ∀ other : Resolver, (∀ path ∈ chains e, other path = resolve path) →
      evaluate other e = run := by
  intro run
  have asks : run.Asks (needed resolve e) := evaluate_asks e
  have fewer : (needed resolve e).Sublist (chains e) := needed_sublist e
  have within : run.asked.Sublist (chains e) := asks.begins.sublist.trans fewer
  refine ⟨within, fewer, asks.begins, ?_, ?_⟩
  · intro value reached
    have all := asks.all value reached
    exact ⟨all, fun strict => all.trans (needed_of_strict e strict)⟩
  · intro other agree
    exact evaluate_local e resolve other fun path member => agree path (within.subset member)

/-- A chain is left out after a false left operand, and only then. -/
theorem evaluate_asks_chains_conjunction :
    let a : Text := ['a']
    let bc : Text := ['b', '.', 'c']
    let x : Text := ['x']
    let inner : Expr := .index (.context x) (.not (.context a))
    let e : Expr := .binary .or (.binary .and (.context a) (.property (.context ['b']) ['c'])) inner
    let resolve : Resolver := fun path => .ok (.bool (path = x))
    let other : Resolver := fun path => if path = ['y'] then .error .noSuchStep else resolve path
    chains e = [a, bc, x, a] ∧ (evaluate resolve e).result = .ok .undefined ∧
      (evaluate resolve e).asked = [a, x, a] ∧
      Strict inner ∧ (evaluate resolve inner).asked = chains inner ∧
      evaluate other e = evaluate resolve e := by
  intro a bc x inner e resolve other
  have paths : chains e = [a, bc, x, a] := by rfl
  have reached : (evaluate resolve e).result = .ok .undefined := by rfl
  have strict : Strict inner := ⟨trivial, trivial⟩
  have asks := evaluate_asks_chains resolve e
  refine ⟨paths, reached, (asks.2.2.2.1 _ reached).1, strict, ?_, ?_⟩
  · exact ((evaluate_asks_chains resolve inner).2.2.2.1 .undefined rfl).2 strict
  · refine asks.2.2.2.2 other fun path member => ?_
    rw [paths] at member
    simp only [List.mem_cons, List.not_mem_nil, or_false] at member
    rcases member with rfl | rfl | rfl | rfl <;> rfl

end Expr

end Flowfile
