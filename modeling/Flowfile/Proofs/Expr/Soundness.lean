import Flowfile.Proofs.Expr.Grammar
import Flowfile.Proofs.Outcome

/-! What the parser finds has a derivation, however many steps it takes. -/

namespace Flowfile

namespace Function

theorem find?_eq_some (name : Text) (function : Function) :
    find? name = some function ↔ function.name.lower = name.lower := by
  constructor
  · intro found
    simpa [find?] using List.find?_some found
  · intro named
    rw [find?, ← named]
    cases function <;> decide

theorem admits_iff (function : Function) (count : Nat) :
    function.admits count = true ↔
      function.leastArgs ≤ count ∧ ∀ bound ∈ function.greatestArgs?, count ≤ bound := by
  unfold admits
  cases function.greatestArgs? <;> simp

end Function

namespace Expr

open Grammar

theorem checkedCall_eq_ok (function : Function) (args : List Expr) (position : Nat) (e : Expr) :
    checkedCall function args position = .ok e ↔
      function.admits args.length = true ∧ .call function args = e := by
  unfold checkedCall
  split <;> simp_all

theorem unexpected_ne_ok {α : Type} (message : String) (tokens : List Token) (a : α) :
    unexpected message tokens ≠ .ok a := by
  cases tokens <;> simp [unexpected]

theorem expect_eq_ok (symbol : Symbol) (tokens rest : List Token) :
    expect symbol tokens = .ok rest ↔ Spells tokens [.symbol symbol] rest := by
  unfold expect
  split
  · split <;> simp_all [word?, unexpected_ne_ok]
  · rename_i other
    constructor
    · intro impossible
      exact absurd impossible (unexpected_ne_ok _ _ _)
    · intro spelled
      obtain ⟨text, start, more, rfl, -⟩ := spells_symbol spelled
      exact absurd rfl (other _ _ _ _)

theorem operatorOf?_eq_some (level : List BinaryOp) (tokens rest : List Token) (op : BinaryOp) :
    operatorOf? level tokens = some (op, rest) ↔
      op ∈ level ∧ Spells tokens [.symbol op.symbol] rest := by
  constructor
  · intro found
    unfold operatorOf? at found
    split at found
    · rename_i symbol text start more
      split at found
      · rename_i present known
        rw [BinaryOp.ofSymbol?_eq_some] at known
        subst known
        split at found
        · rename_i member
          cases found
          exact ⟨by simpa using member, (word?_eq_symbol _ _).mpr rfl, by simp⟩
        · cases found
      · cases found
    · cases found
  · rintro ⟨member, spelled⟩
    obtain ⟨text, start, more, rfl, tail⟩ := spells_symbol spelled
    rw [spells_nil] at tail
    subst tail
    simp [operatorOf?, (BinaryOp.ofSymbol?_eq_some _ op).mpr rfl, member]

theorem ofName_constant (name : Text) (value : Value) (known : (name, value) ∈ constants) :
    ofName name = .literal value := by
  simp only [constants, List.mem_cons, Prod.mk.injEq, List.not_mem_nil, or_false] at known
  rcases known with ⟨rfl, rfl⟩ | ⟨rfl, rfl⟩ | ⟨rfl, rfl⟩ <;> rfl

theorem ofName_context (name : Text) (free : ∀ value, (name, value) ∉ constants) :
    ofName name = .context name := by
  have unequal (spelling : Text) (value : Value) (known : (spelling, value) ∈ constants) :
      name ≠ spelling := by
    rintro rfl
    exact free value known
  simp [ofName, unequal (Text.of "true") (.bool true) (by simp [constants]),
    unequal (Text.of "false") (.bool false) (by simp [constants]),
    unequal (Text.of "null") .null (by simp [constants])]

structure SoundWithin (fuel : Nat) : Prop where
  phrase : ∀ levels tokens e rest, parseLevels fuel levels tokens = .ok (e, rest) →
    ∃ p : Phrase levels, p.expr = e ∧ Spells tokens p.words rest
  operands : ∀ level tighter left tokens e rest,
    parseOperands fuel level tighter left tokens = .ok (e, rest) →
      ∃ p : Operands level tighter, p.applyTo left = e ∧ Spells tokens p.words rest
  unary : ∀ tokens e rest, parseUnary fuel tokens = .ok (e, rest) →
    ∃ p : Phrase [], p.expr = e ∧ Spells tokens p.words rest
  accessors : ∀ target tokens e rest, parseAccess fuel target tokens = .ok (e, rest) →
    ∃ p : Accessors, p.applyTo target = e ∧ Spells tokens p.words rest
  primary : ∀ tokens e rest, parsePrimary fuel tokens = .ok (e, rest) →
    ∃ p : Primary, p.expr = e ∧ Spells tokens p.words rest
  arguments : ∀ tokens args rest, parseArgs fuel tokens = .ok (args, rest) →
    ∃ p : Arguments args.length, p.exprs = args ∧
      Spells tokens (p.words ++ [.symbol .closeParen]) rest
  moreArguments : ∀ tokens args rest, parseMoreArgs fuel tokens = .ok (args, rest) →
    ∃ p : MoreArguments args.length, p.exprs = args ∧
      Spells tokens (p.words ++ [.symbol .closeParen]) rest

theorem phrase_sound (fuel : Nat) (sound : SoundWithin fuel) (levels : List (List BinaryOp))
    (tokens : List Token) (e : Expr) (rest : List Token)
    (parsed : parseLevels (fuel + 1) levels tokens = .ok (e, rest)) :
    ∃ p : Phrase levels, p.expr = e ∧ Spells tokens p.words rest := by
  cases levels with
  | nil => exact sound.unary tokens e rest (by simpa only [parseLevels] using parsed)
  | cons level tighter =>
      simp only [parseLevels, bind_eq_ok] at parsed
      obtain ⟨⟨left, middle⟩, head, tail⟩ := parsed
      obtain ⟨first, rfl, front⟩ := sound.phrase tighter tokens left middle head
      obtain ⟨more, rfl, back⟩ := sound.operands level tighter _ middle e rest tail
      exact ⟨.chain first more, rfl, (spells_append _ _ _ _).mpr ⟨middle, front, back⟩⟩

theorem operands_sound (fuel : Nat) (sound : SoundWithin fuel) (level : List BinaryOp)
    (tighter : List (List BinaryOp)) (left : Expr) (tokens : List Token) (e : Expr)
    (rest : List Token)
    (parsed : parseOperands (fuel + 1) level tighter left tokens = .ok (e, rest)) :
    ∃ p : Operands level tighter, p.applyTo left = e ∧ Spells tokens p.words rest := by
  simp only [parseOperands] at parsed
  split at parsed
  · cases parsed
    exact ⟨.done, rfl, by simp [Operands.words]⟩
  · rename_i op afterOp found
    simp only [bind_eq_ok] at parsed
    obtain ⟨⟨right, middle⟩, head, tail⟩ := parsed
    obtain ⟨operand, rfl, front⟩ := sound.phrase tighter afterOp right middle head
    obtain ⟨more, rfl, back⟩ := sound.operands level tighter _ middle e rest tail
    obtain ⟨member, first⟩ := (operatorOf?_eq_some level tokens afterOp op).mp found
    refine ⟨.more op member operand more, rfl, ?_⟩
    exact (spells_append _ _ [.symbol op.symbol] _).mpr
      ⟨afterOp, first, (spells_append _ _ _ _).mpr ⟨middle, front, back⟩⟩

theorem unary_sound (fuel : Nat) (sound : SoundWithin fuel) (tokens : List Token) (e : Expr)
    (rest : List Token) (parsed : parseUnary (fuel + 1) tokens = .ok (e, rest)) :
    ∃ p : Phrase [], p.expr = e ∧ Spells tokens p.words rest := by
  simp only [parseUnary] at parsed
  split at parsed
  · simp only [bind_eq_ok] at parsed
    obtain ⟨⟨inner, middle⟩, head, tail⟩ := parsed
    cases tail
    obtain ⟨operand, rfl, spelled⟩ := sound.unary _ inner middle head
    exact ⟨.not operand, rfl, (word?_eq_symbol _ _).mpr rfl, spelled⟩
  · simp only [bind_eq_ok] at parsed
    obtain ⟨⟨target, middle⟩, head, tail⟩ := parsed
    obtain ⟨primary, rfl, front⟩ := sound.primary tokens target middle head
    obtain ⟨steps, rfl, back⟩ := sound.accessors _ middle e rest tail
    exact ⟨.access primary steps, rfl, (spells_append _ _ _ _).mpr ⟨middle, front, back⟩⟩

theorem accessors_sound (fuel : Nat) (sound : SoundWithin fuel) (target : Expr)
    (tokens : List Token) (e : Expr) (rest : List Token)
    (parsed : parseAccess (fuel + 1) target tokens = .ok (e, rest)) :
    ∃ p : Accessors, p.applyTo target = e ∧ Spells tokens p.words rest := by
  simp only [parseAccess] at parsed
  split at parsed
  · split at parsed
    · rename_i name start after
      obtain ⟨steps, rfl, back⟩ := sound.accessors _ after e rest parsed
      exact ⟨.property name steps, rfl, (word?_eq_symbol _ _).mpr rfl, rfl, back⟩
    · exact absurd parsed (unexpected_ne_ok _ _ _)
  · rename_i inner
    simp only [bind_eq_ok] at parsed
    obtain ⟨⟨value, closed⟩, head, after, expected, tail⟩ := parsed
    obtain ⟨key, rfl, front⟩ := sound.phrase _ inner value closed head
    obtain ⟨steps, rfl, back⟩ := sound.accessors _ after e rest tail
    refine ⟨.index key steps, rfl, (word?_eq_symbol _ _).mpr rfl, ?_⟩
    rw [expect_eq_ok] at expected
    exact (spells_append _ _ _ _).mpr
      ⟨closed, front, (spells_append _ _ [.symbol .closeBracket] _).mpr ⟨after, expected, back⟩⟩
  · cases parsed
    exact ⟨.done, rfl, by simp [Accessors.words]⟩

theorem ofName_sound (token : Token) (rest : List Token) (name : Text)
    (named : word? token = some (.name name)) :
    ∃ p : Primary, p.expr = ofName name ∧ Spells (token :: rest) p.words rest := by
  by_cases known : ∃ value, (name, value) ∈ constants
  · obtain ⟨value, known⟩ := known
    exact ⟨.constant name value known, (ofName_constant name value known).symm, named, by simp⟩
  · have free : ∀ value, (name, value) ∉ constants := fun value h => known ⟨value, h⟩
    exact ⟨.context name free, (ofName_context name free).symm, named, by simp⟩

theorem primary_sound (fuel : Nat) (sound : SoundWithin fuel) (tokens : List Token) (e : Expr)
    (rest : List Token) (parsed : parsePrimary (fuel + 1) tokens = .ok (e, rest)) :
    ∃ p : Primary, p.expr = e ∧ Spells tokens p.words rest := by
  simp only [parsePrimary] at parsed
  split at parsed
  · cases parsed
    exact ⟨.number _, rfl, rfl, by simp⟩
  · cases parsed
    exact ⟨.string _, rfl, rfl, by simp⟩
  · rename_i name start after
    split at parsed
    · split at parsed
      · cases parsed
      · rename_i _ _ _ inner _ function found
        simp only [bind_eq_ok] at parsed
        obtain ⟨⟨args, middle⟩, head, call, checked, result⟩ := parsed
        cases result
        obtain ⟨arguments, same, spelled⟩ := sound.arguments inner args middle head
        rw [checkedCall_eq_ok, Function.admits_iff] at checked
        obtain ⟨⟨least, greatest⟩, rfl⟩ := checked
        rw [Function.find?_eq_some] at found
        refine ⟨.call name function found least greatest arguments, by rw [Primary.expr, same], ?_⟩
        exact ⟨rfl, (word?_eq_symbol _ _).mpr rfl, spelled⟩
    · cases parsed
      exact ofName_sound _ _ name rfl
  · rename_i inner
    simp only [bind_eq_ok] at parsed
    obtain ⟨⟨value, closed⟩, head, after, expected, result⟩ := parsed
    cases result
    obtain ⟨phrase, rfl, front⟩ := sound.phrase _ inner value closed head
    rw [expect_eq_ok] at expected
    exact ⟨.group phrase, rfl, (word?_eq_symbol _ _).mpr rfl,
      (spells_append _ _ _ _).mpr ⟨closed, front, expected⟩⟩
  · exact absurd parsed (unexpected_ne_ok _ _ _)

theorem arguments_sound (fuel : Nat) (sound : SoundWithin fuel) (tokens : List Token)
    (args : List Expr) (rest : List Token)
    (parsed : parseArgs (fuel + 1) tokens = .ok (args, rest)) :
    ∃ p : Arguments args.length, p.exprs = args ∧
      Spells tokens (p.words ++ [.symbol .closeParen]) rest := by
  simp only [parseArgs] at parsed
  split at parsed
  · cases parsed
    exact ⟨.none, rfl, (word?_eq_symbol _ _).mpr rfl, by simp⟩
  · simp only [bind_eq_ok] at parsed
    obtain ⟨⟨value, middle⟩, head, ⟨others, after⟩, tail, result⟩ := parsed
    cases result
    obtain ⟨first, rfl, front⟩ := sound.phrase _ tokens value middle head
    obtain ⟨more, same, back⟩ := sound.moreArguments middle others after tail
    refine ⟨.some first more, by rw [Arguments.exprs, same], ?_⟩
    rw [Arguments.words, List.append_assoc]
    exact (spells_append _ _ _ _).mpr ⟨middle, front, back⟩

theorem moreArguments_sound (fuel : Nat) (sound : SoundWithin fuel) (tokens : List Token)
    (args : List Expr) (rest : List Token)
    (parsed : parseMoreArgs (fuel + 1) tokens = .ok (args, rest)) :
    ∃ p : MoreArguments args.length, p.exprs = args ∧
      Spells tokens (p.words ++ [.symbol .closeParen]) rest := by
  simp only [parseMoreArgs] at parsed
  split at parsed
  · simp only [bind_eq_ok] at parsed
    obtain ⟨⟨value, middle⟩, head, ⟨others, after⟩, tail, result⟩ := parsed
    cases result
    obtain ⟨next, rfl, front⟩ := sound.phrase _ _ value middle head
    obtain ⟨more, same, back⟩ := sound.moreArguments middle others after tail
    refine ⟨.more next more, by rw [MoreArguments.exprs, same], ?_⟩
    rw [MoreArguments.words, List.cons_append, List.append_assoc]
    exact ⟨(word?_eq_symbol _ _).mpr rfl, (spells_append _ _ _ _).mpr ⟨middle, front, back⟩⟩
  · simp only [bind_eq_ok] at parsed
    obtain ⟨after, expected, result⟩ := parsed
    cases result
    exact ⟨.done, rfl, (expect_eq_ok _ _ _).mp expected⟩

theorem sound_within (fuel : Nat) : SoundWithin fuel := by
  induction fuel with
  | zero =>
      constructor <;> intros <;> rename_i parsed <;>
        exact absurd parsed (unexpected_ne_ok _ _ _)
  | succ fuel sound =>
      exact {
        phrase := phrase_sound fuel sound
        operands := operands_sound fuel sound
        unary := unary_sound fuel sound
        accessors := accessors_sound fuel sound
        primary := primary_sound fuel sound
        arguments := arguments_sound fuel sound
        moreArguments := moreArguments_sound fuel sound }

end Expr

end Flowfile
