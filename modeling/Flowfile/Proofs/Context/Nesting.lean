import Mathlib.Logic.ExistsUnique
import Flowfile.Proofs.Context.Answer
import Flowfile.Proofs.Expr.Asked

/-! How variables are expanded in one another. Every run of a context ends, and one that the limit
on the nesting has not cut off is the same under each larger limit. -/

namespace Flowfile

namespace Scope

variable {scope : Scope} {expand other : Text → Except EvalError Value} {path : Text}

theorem expandWith_congr {value : Value}
    (agree : ∀ text, value = .str text → Template.hasExpression text = true →
      other text = expand text) : expandWith other value = expandWith expand value := by
  cases value with
  | str text =>
      rw [expandWith, expandWith]
      split
      · rename_i embedded
        exact agree text rfl embedded
      · rfl
  | _ => rfl

theorem item_of_expands {env : List (Text × Value)} (held : scope.env = .ok env)
    {first name found : Text} {rest : List Text} (split : pathSegments path = first :: name :: rest)
    {item : Value} (declared : declaredName? env name = some (found, item)) {text : Text}
    (expands : scope.Expands expand path text) :
    item = .str text ∧ Template.hasExpression text = true := by
  obtain ⟨segments, env', ⟨first', split', -⟩, held', embedded, place⟩ := expands
  cases split.symm.trans split'
  cases held.symm.trans held'
  rcases place with ⟨whole, -⟩ | ⟨name', rest', found', same, declared'⟩
  · cases whole
  · cases same
    cases declared.symm.trans declared'
    exact ⟨rfl, embedded⟩

section

variable (agree : ∀ text, scope.Expands expand path text → other text = expand text)

include agree

theorem expandWith_entry {env : List (Text × Value)} (held : scope.env = .ok env)
    (asks : AsksEnv path []) (before : List (Text × Value)) (entry : Text × Value)
    (after : List (Text × Value)) (whole : env = before ++ entry :: after)
    (reached : ∀ earlier ∈ before, ∃ value, expandWith expand earlier.2 = .ok value) :
    expandWith other entry.2 = expandWith expand entry.2 := by
  refine expandWith_congr fun text same embedded => agree text ?_
  refine ⟨[], env, asks, held, embedded, .inl ⟨rfl, before, entry.1, after, ?_, reached⟩⟩
  rw [whole, ← same]

theorem expands_congr (text : Text) :
    scope.Expands other path text ↔ scope.Expands expand path text := by
  refine exists_congr fun segments => exists_congr fun env => and_congr_right fun asks =>
    and_congr_right fun held => and_congr_right fun embedded => or_congr_left ?_
  refine and_congr_right fun all => ?_
  subst all
  refine exists_congr fun before => exists_congr fun name => exists_congr fun after =>
    and_congr_right fun whole => ?_
  exact reached_congr (expandWith_entry agree held asks) whole

theorem resolveWith_local (settings : Settings) (secrets : List Text) :
    scope.resolveWith settings secrets other path =
      scope.resolveWith settings secrets expand path := by
  rw [resolveWith, resolveWith]
  rcases split : pathSegments path with _ | ⟨first, rest⟩
  · rfl
  dsimp only
  split
  · rename_i named
    have asks : AsksEnv path rest := ⟨first, split, named⟩
    rw [resolveEnv, resolveEnv]
    rcases held : scope.env with error | env
    · rfl
    · rw [ok_bind, ok_bind]
      cases rest with
      | nil =>
          refine congrArg (· >>= fun expanded => Except.ok (Value.record expanded)) ?_
          refine mapM_congr_reached fun before entry after whole reached => ?_
          have same := expandWith_entry agree held asks before entry after whole
            fun earlier member => by
              obtain ⟨result, done⟩ := reached earlier member
              obtain ⟨value, given, -⟩ := (bind_eq_ok ..).mp done
              exact ⟨value, given⟩
          dsimp only
          rw [same]
      | cons name rest =>
          dsimp only
          rcases declared : declaredName? env name with _ | ⟨found, item⟩
          · rfl
          · have same : expandWith other item = expandWith expand item := by
              refine expandWith_congr fun text same embedded => agree text ?_
              subst same
              exact ⟨_, env, asks, held, embedded, .inr ⟨name, rest, found, rfl, declared⟩⟩
            dsimp only
            rw [same]
  · rfl

end

/-- A context that answers the path asks one level deeper for another path, where what is asked for
there has the answers of `inner`. -/
def Calls (scope : Scope) (inner : Resolver) (path asked : Text) : Prop :=
  ∃ text, scope.Expands (expandTemplate inner) path text ∧
    asked ∈ (Template.evaluate inner text).asked

/-- At a depth of nesting a context comes to an outcome for a path, each path that it asks for on
the way having been answered one level deeper. The flag tells whether a variable was not expanded
since the depth had reached the limit, here or on one of the levels below. -/
inductive Run (scope : Scope) (settings : Settings) (secrets : List Text) (limit : Int) :
    (depth : Nat) → Text → Except EvalError Value → (cut : Bool) → Prop
  | atLimit {depth : Nat} {path cut} (deep : limit ≤ depth)
      (flag : cut = true ↔ ∃ text, scope.Expands (fun _ => .ok .undefined) path text) :
      Run scope settings secrets limit depth path
        (scope.resolveWith settings secrets (fun _ => .ok .undefined) path) cut
  | within {depth : Nat} {path cut} (shallow : depth < limit) (inner : Resolver) (cuts : Text → Bool)
      (runs : ∀ asked, scope.Calls inner path asked →
        Run scope settings secrets limit (depth + 1) asked (inner asked) (cuts asked))
      (flag : cut = true ↔ ∃ asked, scope.Calls inner path asked ∧ cuts asked = true) :
      Run scope settings secrets limit depth path
        (scope.resolveWith settings secrets (expandTemplate inner) path) cut

def answer (scope : Scope) (settings : Settings) (secrets : List Text) (limit : Int)
    (depth : Nat) : Resolver :=
  scope.resolveWithin settings secrets (limit - depth).toNat

section

variable {settings : Settings} {secrets : List Text} {limit : Int} {depth : Nat}

theorem answer_of_le (deep : limit ≤ depth) :
    scope.answer settings secrets limit depth =
      scope.resolveWith settings secrets fun _ => .ok .undefined := by
  have spent : (limit - depth).toNat = 0 := by omega
  rw [answer, spent, resolveWithin]

theorem answer_of_lt (shallow : depth < limit) :
    scope.answer settings secrets limit depth = scope.resolveWith settings secrets
      (expandTemplate (scope.answer settings secrets limit (depth + 1))) := by
  have more : (limit - depth).toNat = (limit - (depth + 1 : Nat)).toNat + 1 := by omega
  rw [answer, more, resolveWithin, ← answer]

section

variable {inner agreeing : Resolver}
  (agree : ∀ asked, scope.Calls inner path asked → agreeing asked = inner asked)

include agree

theorem evaluate_of_agree {text : Text} (expands : scope.Expands (expandTemplate inner) path text) :
    Template.evaluate agreeing text = Template.evaluate inner text :=
  Template.evaluate_local text inner agreeing fun asked member =>
    agree asked ⟨text, expands, member⟩

theorem expandTemplate_of_agree (text : Text)
    (expands : scope.Expands (expandTemplate inner) path text) :
    expandTemplate agreeing text = expandTemplate inner text := by
  rw [expandTemplate, expandTemplate, evaluate_of_agree agree expands]

theorem calls_congr (asked : Text) :
    scope.Calls agreeing path asked ↔ scope.Calls inner path asked := by
  refine exists_congr fun text => ?_
  rw [expands_congr (expandTemplate_of_agree agree)]
  exact and_congr_right fun expands => by rw [evaluate_of_agree agree expands]

theorem resolveWith_of_agree (settings : Settings) (secrets : List Text) :
    scope.resolveWith settings secrets (expandTemplate agreeing) path =
      scope.resolveWith settings secrets (expandTemplate inner) path :=
  resolveWith_local (expandTemplate_of_agree agree) settings secrets

end

theorem eq_answer_of_run {outcome : Except EvalError Value} {cut : Bool}
    (run : scope.Run settings secrets limit depth path outcome cut) :
    outcome = scope.answer settings secrets limit depth path := by
  induction run with
  | atLimit deep flag => rw [answer_of_le deep]
  | within shallow inner cuts runs flag ih =>
      rw [answer_of_lt shallow]
      exact (resolveWith_of_agree (fun asked calls => (ih asked calls).symm) settings secrets).symm

theorem calls_of_runs {inner : Resolver} {cuts : Text → Bool}
    (runs : ∀ asked, scope.Calls inner path asked →
      scope.Run settings secrets limit depth asked (inner asked) (cuts asked)) (asked : Text) :
    scope.Calls (scope.answer settings secrets limit depth) path asked ↔
      scope.Calls inner path asked :=
  calls_congr (fun asked calls => (eq_answer_of_run (runs asked calls)).symm) asked

theorem cut_unique {outcome outcome' : Except EvalError Value} {cut cut' : Bool}
    (run : scope.Run settings secrets limit depth path outcome cut)
    (run' : scope.Run settings secrets limit depth path outcome' cut') : cut = cut' := by
  induction run generalizing outcome' cut' with
  | atLimit deep flag =>
      cases run' with
      | atLimit deep' flag' => exact Bool.eq_iff_iff.mpr (flag.trans flag'.symm)
      | within shallow => exact absurd shallow (Int.not_lt.mpr deep)
  | @within depth path cut shallow inner cuts runs flag ih =>
      cases run' with
      | atLimit deep => exact absurd shallow (Int.not_lt.mpr deep)
      | within shallow' inner' cuts' runs' flag' =>
          have same (asked : Text) :
              (scope.Calls inner path asked ∧ cuts asked = true) ↔
                (scope.Calls inner' path asked ∧ cuts' asked = true) := by
            rw [← calls_of_runs runs, ← calls_of_runs runs']
            refine and_congr_right fun calls => ?_
            have first := (calls_of_runs runs asked).mp calls
            have second := (calls_of_runs runs' asked).mp calls
            rw [ih asked first (runs' asked second)]
          exact Bool.eq_iff_iff.mpr (flag.trans ((exists_congr same).trans flag'.symm))

theorem exists_run (scope : Scope) (settings : Settings) (secrets : List Text) (limit : Int)
    (depth : Nat) (path : Text) :
    ∃ cut, scope.Run settings secrets limit depth path
      (scope.answer settings secrets limit depth path) cut := by
  have flagged (holds : Prop) : ∃ cut : Bool, cut = true ↔ holds := by
    classical exact ⟨decide holds, decide_eq_true_iff⟩
  induction levels : (limit - depth).toNat generalizing depth path with
  | zero =>
      have deep : limit ≤ depth := by omega
      obtain ⟨cut, flag⟩ :=
        flagged (∃ text, scope.Expands (fun _ => .ok .undefined) path text)
      rw [answer_of_le deep]
      exact ⟨cut, .atLimit deep flag⟩
  | succ levels ih =>
      have shallow : depth < limit := by omega
      have below (asked : Text) := ih (depth + 1) asked (by omega)
      obtain ⟨cuts, runs⟩ := Classical.skolem.mp below
      obtain ⟨cut, flag⟩ := flagged (∃ asked,
        scope.Calls (scope.answer settings secrets limit (depth + 1)) path asked ∧
          cuts asked = true)
      rw [answer_of_lt shallow]
      exact ⟨cut, .within shallow _ cuts (fun asked _ => runs asked) flag⟩

theorem run_of_plain (plain : ∀ text, ¬scope.Expands (fun _ => .ok .undefined) path text) :
    scope.Run settings secrets limit depth path
      (scope.resolveWith settings secrets (fun _ => .ok .undefined) path) false := by
  have agree (expand : Text → Except EvalError Value) (text : Text)
      (expands : scope.Expands (fun _ => .ok .undefined) path text) :
      expand text = .ok .undefined := absurd expands (plain text)
  by_cases deep : limit ≤ depth
  · exact .atLimit deep (by simp [plain])
  · have unasked (asked : Text) : ¬scope.Calls (fun _ => .ok .undefined) path asked := by
      rintro ⟨text, expands, -⟩
      exact plain text ((expands_congr (agree _) text).mp expands)
    rw [← resolveWith_local (agree (expandTemplate fun _ => .ok .undefined)) settings secrets]
    refine .within (Int.not_le.mp deep) _ (fun _ => false) (fun asked calls => ?_) (by simp)
    exact absurd calls (unasked asked)

theorem run_of_le {larger : Int} (more : limit ≤ larger) {outcome : Except EvalError Value}
    (run : scope.Run settings secrets limit depth path outcome false) :
    scope.Run settings secrets larger depth path outcome false := by
  generalize uncut : false = cut at run ⊢
  induction run with
  | atLimit deep flag =>
      subst uncut
      refine run_of_plain fun text expands => ?_
      exact Bool.false_ne_true (flag.mpr ⟨text, expands⟩)
  | within shallow inner cuts runs flag ih =>
      refine .within (Int.lt_of_lt_of_le shallow more) inner cuts (fun asked calls => ?_) flag
      refine ih asked calls ?_
      rcases passed : cuts asked with _ | _
      · rfl
      · rw [← uncut] at flag
        exact flag.mpr ⟨asked, calls, passed⟩

end

/-- The limit is counted down and not looked at again. -/
theorem resolveWithin_limit (scope : Scope) (settings : Settings) (secrets : List Text)
    (limit : Int) (levels : Nat) :
    scope.resolveWithin { settings with maxContextDepth := limit } secrets levels =
      scope.resolveWithin settings secrets levels := by
  induction levels with
  | zero => rfl
  | succ levels ih =>
      rw [resolveWithin, resolveWithin, ih]
      rfl

end Scope

theorem Context.edit_resolve_eq_answer (settings : Settings) (secrets : List Text)
    (workflow : Value) (place : Path) (limit : Int) :
    (Context.edit { settings with maxContextDepth := limit } secrets workflow place).resolve =
      (Scope.of workflow place).answer settings secrets limit 0 := by
  have levels : (limit - (0 : Nat)).toNat = limit.toNat := by simp
  rw [Scope.answer, levels, ← Scope.resolveWithin_limit _ settings secrets limit]
  rfl

/-- At every depth and under every limit a context comes to one outcome, and in one way. The context
of an edited workflow gives the outcome at depth zero; where the limit has cut off nothing on the
way to it, each larger limit gives the same outcome and cuts off nothing either. -/
theorem Context.edit_resolve_stable (settings : Settings) (secrets : List Text) (workflow : Value)
    (place : Path) (path : Text) :
    let scope := Scope.of workflow place
    let resolve (limit : Int) : Except EvalError Value :=
      (Context.edit { settings with maxContextDepth := limit } secrets workflow place).resolve path
    (∀ limit depth asked, ∃! run : Except EvalError Value × Bool,
      scope.Run settings secrets limit depth asked run.1 run.2) ∧
    (∀ limit, ∃ cut, scope.Run settings secrets limit 0 path (resolve limit) cut) ∧
    ∀ limit larger, scope.Run settings secrets limit 0 path (resolve limit) false →
      limit ≤ larger → resolve larger = resolve limit ∧
        scope.Run settings secrets larger 0 path (resolve larger) false := by
  intro scope resolve
  have answered (limit : Int) : resolve limit = scope.answer settings secrets limit 0 path :=
    congrFun (Context.edit_resolve_eq_answer settings secrets workflow place limit) path
  refine ⟨fun limit depth asked => ?_, fun limit => ?_, fun limit larger run more => ?_⟩
  · obtain ⟨cut, run⟩ := Scope.exists_run scope settings secrets limit depth asked
    refine ⟨(scope.answer settings secrets limit depth asked, cut), run, ?_⟩
    rintro ⟨outcome, other⟩ run'
    exact Prod.ext (Scope.eq_answer_of_run run') (Scope.cut_unique run' run)
  · rw [answered]
    exact Scope.exists_run scope settings secrets limit 0 path
  · have later := Scope.run_of_le more run
    have same : resolve larger = resolve limit := by
      rw [answered larger]
      exact (Scope.eq_answer_of_run later).symm
    exact ⟨same, same ▸ later⟩

/-- A variable that refers to another one needs one level, and has the same value with more. -/
theorem Context.edit_resolve_stable_nested :
    let declared : List (Text × Value) :=
      [(Text.of "A", .text "${{ env.B }}!"), (Text.of "B", .text "x")]
    let workflow : Value := .record [(Text.of "env", .record declared)]
    let resolve (limit : Int) : Except EvalError Value :=
      (Context.edit { maxContextDepth := limit } [] workflow []).resolve (Text.of "env.A")
    (Scope.of workflow []).Run {} [] 1 0 (Text.of "env.A") (resolve 1) false ∧
      resolve 7 = resolve 1 ∧ (resolve 7).toOption.map Value.toText = some (Text.of "x!") := by
  intro declared workflow resolve
  have held : (Scope.of workflow []).env = .ok declared := rfl
  have outer : Scope.declaredName? declared (Text.of "A") =
      some (Text.of "A", .text "${{ env.B }}!") := rfl
  have inner : Scope.declaredName? declared (Text.of "B") = some (Text.of "B", .text "x") :=
    rfl
  have run : (Scope.of workflow []).Run {} [] 1 0 (Text.of "env.A") (resolve 1) false := by
    have answered : resolve 1 = (Scope.of workflow []).answer {} [] 1 0 (Text.of "env.A") :=
      congrFun (Context.edit_resolve_eq_answer {} [] workflow [] 1) _
    rw [answered, Scope.answer_of_lt (by decide)]
    refine .within (by decide) _ (fun _ => false) ?_ (by simp)
    rintro asked ⟨text, expands, member⟩
    obtain ⟨same, -⟩ := Scope.item_of_expands held rfl outer expands
    obtain rfl := Value.str.inj same
    have only : (Template.evaluate ((Scope.of workflow []).answer {} [] 1 (0 + 1))
        (Text.of "${{ env.B }}!")).asked = [Text.of "env.B"] := by
      decide +kernel
    rw [only, List.mem_singleton] at member
    subst member
    rw [Scope.answer_of_le (by decide)]
    refine Scope.run_of_plain fun text expands => ?_
    obtain ⟨same, embedded⟩ := Scope.item_of_expands held rfl inner expands
    obtain rfl := Value.str.inj same
    exact absurd embedded (by decide)
  have stable := (Context.edit_resolve_stable {} [] workflow [] (Text.of "env.A")).2.2 1 7 run
    (by decide)
  exact ⟨run, stable.1, by decide +kernel⟩

end Flowfile
