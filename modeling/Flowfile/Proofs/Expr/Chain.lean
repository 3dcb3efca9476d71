import Flowfile.Context.Basic
import Flowfile.Proofs.Expr.Access
import Flowfile.Proofs.Expr.Demand
import Flowfile.Proofs.Text.Line

/-! Chains of accessors after a top-level name: asked for in one piece, and step by step.

A context with fixed values is asked for a whole chain by its dotted path, which it takes apart
again. The result is that of single steps unless a key has a dot in it, or is a text that stands for
a position of a list in another way than by its digits. -/

namespace Flowfile

namespace Expr

abbrev Identifier := { name : Text // Grammar.IsIdentifier name }

inductive Accessor
  | property (name : Identifier)
  | text (key : Text)
  | position (i : Int)

namespace Accessor

def value : Accessor → Value
  | .property name => .str name
  | .text key => .str key
  | .position i => .int i

def key : Accessor → Except EvalError Text
  | .property name => .ok name
  | .text key => .ok key
  | .position i => integerKey i

def apply (target : Expr) : Accessor → Expr
  | .property name => .property target name
  | .text key => .index target (.literal (.str key))
  | .position i => .index target (.literal (.int i))

/-- A single step and a segment come to the same, whatever they lead into. -/
def Plain : Accessor → Prop
  | .property _ => True
  | .text key => '.' ∉ key ∧ (key.IsPosition ∨
      ∀ n : Nat, n < 2 ^ 53 → (Value.str key).toNumber.toInt? ≠ some (n : Int))
  | .position i => i.natAbs < 10 ^ digitLimit

end Accessor

def chain (context : Identifier) (accessors : List Accessor) : Expr :=
  accessors.foldl Accessor.apply (.context context)

def accessAll (v : Value) (accessors : List Accessor) : Except EvalError Value :=
  accessors.foldlM (fun value accessor => value.access accessor.value) v

def stepwise (resolve : Resolver) (context : Identifier) (accessors : List Accessor) :
    Except EvalError Value := do
  let value ← (evaluate resolve (.context context)).result
  accessAll value accessors

theorem accessAll_cons (v : Value) (accessor : Accessor) (accessors : List Accessor) :
    accessAll v (accessor :: accessors) =
      v.access accessor.value >>= fun next => accessAll next accessors := by
  rw [accessAll, List.foldlM_cons]
  rfl

theorem accessAll_concat (v : Value) (accessors : List Accessor) (last : Accessor) :
    accessAll v (accessors ++ [last]) =
      accessAll v accessors >>= fun value => value.access last.value := by
  rw [accessAll, List.foldlM_append]
  congr 1
  funext value
  rw [List.foldlM_cons]
  exact bind_pure _

abbrev Keyed : List Accessor → List Text → Prop :=
  List.Forall₂ fun accessor key => accessor.key = .ok key

theorem staticPath_apply {target : Expr} {base : List Text}
    (reached : staticPath target = .ok (some base)) (accessor : Accessor) :
    staticPath (accessor.apply target) = accessor.key.map fun key => some (base ++ [key]) := by
  cases accessor with
  | property name =>
      rw [Accessor.apply, staticPath, reached]
      rfl
  | text key =>
      rw [Accessor.apply, staticPath, reached]
      rfl
  | position i =>
      rw [Accessor.apply, staticPath, reached]
      rw [literalKey?, Accessor.key]
      cases integerKey i <;> rfl

theorem staticPath_apply_error {target : Expr} {error : EvalError}
    (failed : staticPath target = .error error) (accessor : Accessor) :
    staticPath (accessor.apply target) = .error error := by
  cases accessor with
  | property name =>
      rw [Accessor.apply, staticPath, failed]
      rfl
  | text key =>
      rw [Accessor.apply, staticPath, failed]
      rfl
  | position i =>
      rw [Accessor.apply, staticPath, failed]
      rfl

theorem staticPath_foldl_error {target : Expr} {error : EvalError}
    (failed : staticPath target = .error error) (accessors : List Accessor) :
    staticPath (accessors.foldl Accessor.apply target) = .error error := by
  induction accessors generalizing target with
  | nil => exact failed
  | cons accessor accessors ih => exact ih (staticPath_apply_error failed accessor)

theorem staticPath_foldl {target : Expr} {base : List Text}
    (reached : staticPath target = .ok (some base)) (accessors : List Accessor) :
    (∃ keys, Keyed accessors keys ∧
        staticPath (accessors.foldl Accessor.apply target) = .ok (some (base ++ keys))) ∨
      (∃ accessor ∈ accessors, ∃ error, accessor.key = .error error) ∧
        ∃ error, staticPath (accessors.foldl Accessor.apply target) = .error error := by
  induction accessors generalizing target base with
  | nil => exact .inl ⟨[], .nil, by rw [List.append_nil]; exact reached⟩
  | cons accessor accessors ih =>
      have first := staticPath_apply reached accessor
      rcases keyed : accessor.key with error | key
      · rw [keyed] at first
        exact .inr ⟨⟨accessor, List.mem_cons_self, error, keyed⟩, error,
          staticPath_foldl_error first accessors⟩
      · rw [keyed] at first
        rcases ih first with ⟨keys, others, path⟩ | ⟨⟨other, member, long⟩, failed⟩
        · refine .inl ⟨key :: keys, .cons keyed others, ?_⟩
          rw [List.append_assoc] at path
          exact path
        · exact .inr ⟨⟨other, List.mem_cons_of_mem _ member, long⟩, failed⟩

theorem not_mem_integerKey {i : Int} {key : Text} (keyed : integerKey i = .ok key) :
    '.' ∉ key := by
  have digits : '.' ∉ Nat.toDigits 10 i.natAbs := by
    intro member
    exact absurd (Text.isAsciiDigit_of_mem_toDigits member) (by decide)
  rw [integerKey] at keyed
  split at keyed
  · cases keyed
  · cases keyed
    split
    · simp [digits]
    · exact digits

theorem Accessor.Plain.keyed {accessor : Accessor} (plain : accessor.Plain) :
    ∃ key, accessor.key = .ok key ∧ '.' ∉ key := by
  cases accessor with
  | property name =>
      exact ⟨name, rfl, fun member => (Grammar.mem_identifier name.2 member).2 rfl⟩
  | text key => exact ⟨key, rfl, plain.1⟩
  | position i =>
      rcases keyed : integerKey i with error | key
      · have large := ((integerKey_eq_error i error).mp keyed).2
        exact absurd plain (Nat.not_lt.mpr large)
      · exact ⟨key, keyed, not_mem_integerKey keyed⟩

theorem access_map {accessor : Accessor} {key : Text} (keyed : accessor.key = .ok key)
    (origin : Origin) (entries : List (Text × Value)) :
    (Value.map origin entries).access accessor.value =
      .ok ((Value.map origin entries).step key) := by
  cases accessor with
  | property name =>
      cases keyed
      rfl
  | text text =>
      cases keyed
      rfl
  | position i =>
      rw [Accessor.value, Value.access, show integerKey i = .ok key from keyed]
      rfl

/-- The step lemma: a plain accessor and its segment lead to one value. -/
theorem access_eq_step {v : Value} (indexable : v.Indexable) {accessor : Accessor}
    (plain : accessor.Plain) {key : Text} (keyed : accessor.key = .ok key) :
    v.access accessor.value = .ok (v.step key) := by
  cases indexable with
  | simple simple => rw [Value.access_of_simple simple, Value.step_of_simple simple]
  | @list origin items few inside =>
      refine Value.access_list origin items ?_
      cases accessor with
      | property name =>
          cases keyed
          exact Grammar.position?_identifier name.2 items.length
      | text text =>
          cases keyed
          by_cases position : key.IsPosition
          · exact Value.position?_str few position
          · exact Value.position?_other few position (plain.2.resolve_left position)
      | position i => exact Value.position?_int few keyed
  | @map origin entries inside => exact access_map keyed origin entries

/-- The run lemma: plain accessors lead step by step to where their segments do. -/
theorem accessAll_of_plain {accessors : List Accessor} {keys : List Text}
    (keyed : Keyed accessors keys) (plain : ∀ accessor ∈ accessors, accessor.Plain) {v : Value}
    (indexable : v.Indexable) :
    accessAll v accessors = .ok (v.lookup keys) := by
  induction keyed generalizing v with
  | nil => rfl
  | @cons accessor key accessors keys first others ih =>
      obtain ⟨plainFirst, plainOthers⟩ := List.forall_mem_cons.mp plain
      rw [accessAll_cons, access_eq_step indexable plainFirst first]
      exact ih plainOthers (Value.indexable_step indexable key)

section

variable (values : Value) (suggestions : List (Text × List Text)) (context : Identifier)

theorem resolve_dotted (keys : List Text) :
    (Context.fixed values suggestions).resolve (Text.dotted (context.val :: keys)) =
      .ok ((values.located.step context.val).lookup (keys.flatMap (Text.splitOn '.'))) := by
  have unbroken : Text.splitOn '.' context.val = [context.val] :=
    Text.splitOn_unbroken _ _ fun member => (Grammar.mem_identifier context.2 member).2 rfl
  have nonempty : (Text.dotted (context.val :: keys)).isEmpty = false := by
    obtain ⟨c, rest, name, -⟩ := context.2
    cases keys <;> simp [Text.dotted, Text.joinWith, name]
  change Except.ok (values.located.lookup (pathSegments (Text.dotted (context.val :: keys)))) = _
  rw [pathSegments, nonempty, Text.dotted, if_neg (by decide), Text.splitOn_joinWith,
    List.flatMap_cons, unbroken]
  rfl

theorem stepwise_fixed (accessors : List Accessor) :
    stepwise (Context.fixed values suggestions).resolve context accessors =
      accessAll (values.located.step context.val) accessors := by
  have start : (Context.fixed values suggestions).resolve context.val =
      .ok (values.located.step context.val) := resolve_dotted values suggestions context []
  rw [stepwise, evaluate_context, start, ok_bind]

end

theorem pieces_of_plain {accessors : List Accessor} {keys : List Text}
    (keyed : Keyed accessors keys) (plain : ∀ accessor ∈ accessors, accessor.Plain) :
    keys.flatMap (Text.splitOn '.') = keys := by
  induction keyed with
  | nil => rfl
  | @cons accessor key accessors keys first others ih =>
      obtain ⟨plainFirst, plainOthers⟩ := List.forall_mem_cons.mp plain
      obtain ⟨same, segment, unbroken⟩ := plainFirst.keyed
      rw [first] at segment
      cases segment
      rw [List.flatMap_cons, Text.splitOn_unbroken _ _ unbroken, ih plainOthers]
      rfl

theorem evaluate_chain_of_plain {values : Value} (indexable : values.Indexable)
    (suggestions : List (Text × List Text)) (context : Identifier) {accessors : List Accessor}
    (plain : ∀ accessor ∈ accessors, accessor.Plain) :
    (evaluate (Context.fixed values suggestions).resolve (chain context accessors)).result =
      stepwise (Context.fixed values suggestions).resolve context accessors := by
  have start : staticPath (.context context) = .ok (some [context.val]) := rfl
  rcases staticPath_foldl start accessors with ⟨keys, keyed, path⟩ | ⟨⟨accessor, member, long⟩, -⟩
  · rw [chain, evaluate_chain path, List.singleton_append, resolve_dotted,
      pieces_of_plain keyed plain, stepwise_fixed]
    have inside : (values.located.step context.val).Indexable :=
      Value.indexable_step (Value.indexable_locateAt indexable []) context.val
    exact (accessAll_of_plain keyed plain inside).symm
  · obtain ⟨error, long⟩ := long
    obtain ⟨key, keyed, -⟩ := (plain accessor member).keyed
    rw [keyed] at long
    cases long

theorem step_record (key : Text) (v : Value) (place : List Nat) :
    ((Value.record [(key, v)]).locateAt place).step key = v.locateAt (place ++ [0]) := by
  simp [Value.locateAt, Value.locateEntries, Value.step]

theorem access_record {accessor : Accessor} {key : Text} (keyed : accessor.key = .ok key)
    (v : Value) (place : List Nat) :
    ((Value.record [(key, v)]).locateAt place).access accessor.value =
      .ok (v.locateAt (place ++ [0])) := by
  rw [← step_record key]
  exact access_map keyed _ _

theorem exists_reached {accessors : List Accessor} {keys : List Text}
    (keyed : Keyed accessors keys) :
    ∃ v : Value, v.Indexable ∧ ∀ place,
      accessAll (v.locateAt place) accessors = .ok (.bool true) := by
  induction keyed with
  | nil => exact ⟨.bool true, .simple rfl, fun _ => rfl⟩
  | @cons accessor key accessors keys first others ih =>
      obtain ⟨v, indexable, reached⟩ := ih
      refine ⟨.record [(key, v)], .map none (by simpa using indexable), ?_⟩
      intro place
      rw [accessAll_cons, access_record first]
      exact reached _

theorem lookup_undefined (keys : List Text) : Value.undefined.lookup keys = .undefined := by
  induction keys with
  | nil => rfl
  | cons key keys ih => exact ih

theorem accessAll_undefined (accessors : List Accessor) :
    accessAll .undefined accessors = .ok .undefined := by
  induction accessors with
  | nil => rfl
  | cons accessor accessors ih => exact ih

/-- A value around another one, which is reached by a step with the accessor and missed by the
pieces of its segment, wherever the two stand. -/
structure Parts (accessor : Accessor) (key : Text) (around v : Value) : Prop where
  indexable : around.Indexable
  reached (place : List Nat) :
    ∃ inner, (around.locateAt place).access accessor.value = .ok (v.locateAt inner)
  missed (place : List Nat) (more : List Text) :
    (around.locateAt place).lookup (Text.splitOn '.' key ++ more) = .undefined

theorem exists_parting_dot {key : Text} (dotted : '.' ∈ key) {v : Value}
    (indexable : v.Indexable) :
    ∃ around, Parts (.text key) key around v := by
  obtain ⟨left, right, rfl⟩ := List.append_of_mem dotted
  obtain ⟨first, front, pieces⟩ :=
    List.exists_cons_of_ne_nil (Text.splitOn_ne_nil '.' left)
  obtain ⟨second, back, pieces'⟩ :=
    List.exists_cons_of_ne_nil (List.append_ne_nil_of_right_ne_nil front
      (Text.splitOn_ne_nil '.' right))
  have split : Text.splitOn '.' (left ++ '.' :: right) = first :: second :: back := by
    rw [Text.splitOn_append, pieces, List.cons_append, pieces']
  have unbroken : '.' ∉ first :=
    Text.not_mem_of_mem_splitOn '.' (pieces ▸ List.mem_cons_self)
  have apart : first ≠ left ++ '.' :: right := by
    rintro rfl
    exact unbroken dotted
  -- The first piece is a key of its own, with nothing behind it.
  refine ⟨.record [(left ++ '.' :: right, v), (first, .null)], .map none ?_,
    fun place => ⟨place ++ [0], ?_⟩, fun place more => ?_⟩
  · simp only [List.forall_mem_cons, List.not_mem_nil, false_implies, implies_true, and_true]
    exact ⟨indexable, .simple rfl⟩
  · simp [Value.locateAt, Value.locateEntries, Accessor.value, Value.access, Value.step]
  · have nothing : ((Value.record [(left ++ '.' :: right, v), (first, .null)]).locateAt
        place).step first = .null := by
      have different : (first == left ++ '.' :: right) = false := beq_false_of_ne apart
      simp [Value.locateAt, Value.locateEntries, Value.step, List.lookup_cons, different]
    rw [split, List.cons_append, List.cons_append, Value.lookup, List.foldl_cons, nothing]
    exact lookup_undefined (back ++ more)

theorem exists_parting_number {key : Text} (unbroken : '.' ∉ key) (other : ¬key.IsPosition)
    {n : Nat} (small : n < 2 ^ 53) (whole : (Value.str key).toNumber.toInt? = some (n : Int))
    {v : Value} (indexable : v.Indexable) :
    ∃ around, Parts (.text key) key around v := by
  refine ⟨.list none (List.replicate n .null ++ [v]), .list none ?_ ?_,
    fun place => ⟨place ++ [0 + n], ?_⟩, fun place more => ?_⟩
  · rw [List.length_append, List.length_replicate, List.length_singleton]
    exact small
  · intro item member
    rcases List.mem_append.mp member with early | last
    · rw [List.eq_of_mem_replicate early]
      exact .simple rfl
    · rw [List.mem_singleton.mp last]
      exact indexable
  · have held : (List.replicate n Value.null ++ [v])[n]? = some v := by simp
    rw [Value.locateAt, Accessor.value, Value.access, whole]
    change Except.ok (List.getD _ n Value.undefined) = _
    rw [List.getD_eq_getElem?_getD, Value.getElem?_locateItems, held]
    rfl
  · have missed : ((Value.list none (List.replicate n Value.null ++ [v])).locateAt place).step
        key = .undefined := by
      rw [Value.locateAt, Value.step, Value.listIndex?_of_not other]
    rw [Text.splitOn_unbroken _ _ unbroken, List.singleton_append, Value.lookup,
      List.foldl_cons, missed]
    exact lookup_undefined more

theorem exists_parting {accessor : Accessor} {key : Text} (keyed : accessor.key = .ok key)
    (apart : ¬accessor.Plain) {v : Value} (indexable : v.Indexable) :
    ∃ around, Parts accessor key around v := by
  cases accessor with
  | property name => exact absurd trivial apart
  | position i =>
      refine absurd (Nat.lt_of_not_le fun large => ?_) apart
      have failed := (integerKey_eq_error i .tooManyDigits).mpr ⟨rfl, large⟩
      rw [show integerKey i = .ok key from keyed] at failed
      cases failed
  | text text =>
      cases keyed
      by_cases dotted : '.' ∈ key
      · exact exists_parting_dot dotted indexable
      · rw [Accessor.Plain, and_iff_right dotted, not_or] at apart
        obtain ⟨other, named⟩ := apart
        obtain ⟨n, named⟩ := not_forall.mp named
        obtain ⟨small, whole⟩ := Classical.not_imp.mp named
        exact exists_parting_number dotted other small (not_not.mp whole) indexable

theorem exists_missed {accessors : List Accessor} {keys : List Text}
    (keyed : Keyed accessors keys) (apart : ¬∀ accessor ∈ accessors, accessor.Plain) :
    ∃ v : Value, v.Indexable ∧ ∀ place,
      (v.locateAt place).lookup (keys.flatMap (Text.splitOn '.')) = .undefined ∧
        accessAll (v.locateAt place) accessors = .ok (.bool true) := by
  induction keyed with
  | nil => exact absurd (fun _ member => by cases member) apart
  | @cons accessor key accessors keys first others ih =>
      by_cases plain : accessor.Plain
      · rw [List.forall_mem_cons, and_iff_right plain] at apart
        obtain ⟨v, indexable, missed⟩ := ih apart
        obtain ⟨same, segment, unbroken⟩ := plain.keyed
        rw [first] at segment
        cases segment
        refine ⟨.record [(key, v)], .map none (by simpa using indexable), fun place => ?_⟩
        obtain ⟨nothing, reached⟩ := missed (place ++ [0])
        rw [List.flatMap_cons, Text.splitOn_unbroken _ _ unbroken, List.singleton_append,
          Value.lookup, List.foldl_cons, step_record, accessAll_cons, access_record first]
        exact ⟨nothing, reached⟩
      · obtain ⟨v, indexable, reached⟩ := exists_reached others
        obtain ⟨around, parts⟩ := exists_parting first plain indexable
        refine ⟨around, parts.indexable, fun place => ?_⟩
        obtain ⟨inner, entered⟩ := parts.reached place
        rw [List.flatMap_cons, accessAll_cons, entered]
        exact ⟨parts.missed place _, reached inner⟩

/-- In a context of fixed values, a chain asked for in one piece has the value of its single steps
for all values just where each accessor is plain. A computed last index is always a single step. -/
theorem evaluate_chain_stepwise_iff (context : Identifier) (accessors : List Accessor) :
    ((∀ (entries : List (Text × Value)) (suggestions : List (Text × List Text)),
        (Value.record entries).Indexable →
          (evaluate (Context.fixed (.record entries) suggestions).resolve
              (chain context accessors)).result =
            stepwise (Context.fixed (.record entries) suggestions).resolve context accessors) ↔
      ∀ accessor ∈ accessors, accessor.Plain) ∧
    ∀ (entries : List (Text × Value)) (suggestions : List (Text × List Text)),
      (Value.record entries).Indexable → (∀ accessor ∈ accessors, accessor.Plain) →
        ∀ (last : Accessor) (computed : Expr), (∀ value, computed ≠ .literal value) →
          (evaluate (Context.fixed (.record entries) suggestions).resolve computed).result =
              .ok last.value →
            (evaluate (Context.fixed (.record entries) suggestions).resolve
                (.index (chain context accessors) computed)).result =
              stepwise (Context.fixed (.record entries) suggestions).resolve context
                (accessors ++ [last]) := by
  refine ⟨⟨fun agrees => ?_, fun plain entries suggestions indexable =>
    evaluate_chain_of_plain indexable suggestions context plain⟩, ?_⟩
  · by_contra apart
    have start : staticPath (.context context) = .ok (some [context.val]) := rfl
    rcases staticPath_foldl start accessors with ⟨keys, keyed, path⟩ | ⟨-, error, failed⟩
    · obtain ⟨v, indexable, missed⟩ := exists_missed keyed apart
      obtain ⟨nothing, reached⟩ := missed [0]
      have same := agrees [(context.val, v)] [] (.map none (by simpa using indexable))
      have entered : ((Value.record [(context.val, v)]).located).step context.val =
          v.locateAt [0] := step_record context.val v []
      rw [chain, evaluate_chain path, List.singleton_append, resolve_dotted, entered, nothing,
        stepwise_fixed, entered, reached] at same
      cases same
    · have same := agrees [] [] (.map none (by simp))
      have nothing : (Value.record []).located.step context.val = .undefined := rfl
      rw [chain, evaluate_chain_error failed, stepwise_fixed, nothing, accessAll_undefined] at same
      cases same
  · intro entries suggestions indexable plain last computed other reached
    have static : staticPath (.index (chain context accessors) computed) = .ok none := by
      cases computed with
      | literal value => exact absurd rfl (other value)
      | _ => rfl
    rw [evaluate_index static, evaluate_chain_of_plain indexable suggestions context plain, reached,
      stepwise_fixed, stepwise_fixed, accessAll_concat]
    rfl

theorem evaluate_chain_stepwise_iff_commits :
    let resolve := (Context.fixed (.record [(Text.of "github", .record [(Text.of "commits",
      .list none [.text "a", .text "b"])])]) []).resolve
    let context : Identifier := ⟨Text.of "github", Grammar.isIdentifier_of_all rfl rfl⟩
    let accessors : List Accessor := [.text (Text.of "commits")]
    (evaluate resolve (chain context (accessors ++ [.position 1]))).result =
        stepwise resolve context (accessors ++ [.position 1]) ∧
      (evaluate resolve (.index (chain context accessors)
          (.call .format [.literal (.text "1")]))).result =
        stepwise resolve context (accessors ++ [.text (Text.of "1")]) := by
  intro resolve context accessors
  have indexable : (Value.record [(Text.of "github", .record [(Text.of "commits",
      .list none [.text "a", .text "b"])])]).Indexable := by
    refine .map none (List.forall_mem_singleton.mpr (.map none (List.forall_mem_singleton.mpr
      (.list none (by decide) ?_))))
    intro item member
    simp only [List.mem_cons, List.not_mem_nil, or_false] at member
    rcases member with rfl | rfl <;> exact .simple rfl
  have apart : ∀ n : Nat, n < 2 ^ 53 →
      (Value.text "commits").toNumber.toInt? ≠ some (n : Int) := by
    intro n _ whole
    cases whole
  have plain : (Accessor.text (Text.of "commits")).Plain := ⟨by decide, .inr apart⟩
  have position : (Accessor.position 1).Plain := by
    change (1 : Int).natAbs < 10 ^ digitLimit
    exact Nat.one_lt_pow (by decide) (by decide)
  refine ⟨(evaluate_chain_stepwise_iff context (accessors ++ [.position 1])).1.mpr ?_ _ _ indexable,
    (evaluate_chain_stepwise_iff context accessors).2 _ _ indexable ?_ (.text (Text.of "1")) _ ?_ rfl⟩
  · simp [accessors, plain, position]
  · simp [accessors, plain]
  · intro value same
    cases same

/-- A key with a dot in it is missed where it is written out, and found where it is computed. -/
theorem dotted_key_differs :
    let resolve := (Context.fixed (.record [(Text.of "x", .record [(Text.of "a.b",
      .text "dotted")])]) []).resolve
    (evaluateSource resolve (Text.of "x['a.b']")).result.toOption.map Value.kind =
        some .undefined ∧
      (evaluateSource resolve (Text.of "x[format('a.b')]")).result.toOption.map Value.toText =
        some (Text.of "dotted") := by
  decide +kernel

end Expr

end Flowfile
