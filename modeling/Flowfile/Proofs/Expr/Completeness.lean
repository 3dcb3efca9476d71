import Flowfile.Proofs.Expr.Soundness

/-! What has a derivation is found, given enough steps.

A derivation has to end where nothing can go on from it. Each word takes up at most ten steps, and
each level of operators one. -/

namespace Flowfile.Expr

open Grammar

theorem expect_complete {symbol : Symbol} {tokens rest : List Token} {words : List Word}
    (spelled : Spells tokens (words ++ [.symbol symbol]) rest) :
    ∃ closed, Spells tokens words closed ∧ Spells closed [.symbol symbol] rest ∧
      expect symbol closed = .ok rest := by
  obtain ⟨closed, front, back⟩ := (spells_append _ _ _ _).mp spelled
  exact ⟨closed, front, back, (expect_eq_ok _ _ _).mpr back⟩

theorem name_complete (name : Text) (tokens rest : List Token)
    (spelled : Spells tokens [.name name] rest) (bare : Bare rest) (fuel : Nat)
    (enough : 10 ≤ fuel) : parsePrimary fuel tokens = .ok (ofName name, rest) := by
  obtain ⟨fuel, rfl⟩ : ∃ left, fuel = left + 1 := ⟨fuel - 1, by omega⟩
  obtain ⟨start, more, rfl, tail⟩ := spells_name spelled
  rw [spells_nil] at tail
  subst tail
  simp only [parsePrimary]
  split
  · exact absurd rfl (bare _ rfl)
  · rfl

theorem parseUnary_access (fuel : Nat) (head : Primary) (words : List Word)
    (tokens rest : List Token) (spelled : Spells tokens (head.words ++ words) rest) :
    parseUnary (fuel + 1) tokens = (do
      let (primary, rest) ← parsePrimary fuel tokens
      parseAccess fuel primary rest) := by
  obtain ⟨word, others, same, opening, -⟩ := primary_opening head
  rw [same, List.cons_append] at spelled
  obtain ⟨token, more, rfl, first, -⟩ := (spells_cons_iff _ _ _ _).mp spelled
  rw [parseUnary]
  rintro _ _ _ ⟨rfl, rfl⟩
  exact opening (Option.some.inj first).symm

theorem parseArgs_phrase (fuel : Nat) (first : Phrase BinaryOp.levels) (words : List Word)
    (tokens rest : List Token) (spelled : Spells tokens (first.words ++ words) rest) :
    parseArgs (fuel + 1) tokens = (do
      let (first, rest) ← parseLevels fuel BinaryOp.levels tokens
      let (others, after) ← parseMoreArgs fuel rest
      return (first :: others, after)) := by
  obtain ⟨word, others, same, opening⟩ := phrase_opening first
  rw [same, List.cons_append] at spelled
  obtain ⟨token, more, rfl, head, -⟩ := (spells_cons_iff _ _ _ _).mp spelled
  rw [parseArgs]
  rintro _ _ _ ⟨rfl, rfl⟩
  exact opening (Option.some.inj head).symm

mutual

theorem phrase_complete {levels : List (List BinaryOp)} :
    (p : Phrase levels) → levels <:+ BinaryOp.levels → (tokens rest : List Token) →
      Spells tokens p.words rest → Stops levels rest → (fuel : Nat) →
      10 * p.words.length + levels.length + 2 ≤ fuel →
      parseLevels fuel levels tokens = .ok (p.expr, rest)
  | @Phrase.chain level tighter first more => by
      intro suffix tokens rest spelled stops fuel enough
      obtain ⟨fuel, rfl⟩ : ∃ left, fuel = left + 1 := ⟨fuel - 1, by omega⟩
      obtain ⟨middle, front, back⟩ := (spells_append _ _ _ _).mp spelled
      have positive := phrase_words_pos first
      simp only [Phrase.words, List.length_append, List.length_cons] at enough
      have found := phrase_complete first ((List.suffix_cons _ _).trans suffix) tokens middle front
        (operands_stops more suffix back stops) fuel (by omega)
      have further := operands_complete more suffix first.expr middle rest back stops fuel
        (by omega)
      rw [parseLevels, found]
      exact further
  | .not operand => by
      intro suffix tokens rest spelled stops fuel enough
      simp only [Phrase.words, List.length_cons, List.length_nil] at enough
      obtain ⟨fuel, rfl⟩ : ∃ left, fuel = left + 2 := ⟨fuel - 2, by omega⟩
      obtain ⟨text, start, more, rfl, tail⟩ := spells_symbol spelled
      have found := phrase_complete operand suffix more rest tail stops (fuel + 1)
        (by simp only [List.length_nil]; omega)
      rw [parseLevels] at found
      rw [parseLevels, parseUnary, found]
      rfl
  | .access head steps => by
      intro suffix tokens rest spelled stops fuel enough
      simp only [Phrase.words, List.length_append, List.length_nil] at enough
      obtain ⟨fuel, rfl⟩ : ∃ left, fuel = left + 2 := ⟨fuel - 2, by omega⟩
      rw [parseLevels, parseUnary_access fuel head steps.words tokens rest spelled]
      obtain ⟨middle, front, back⟩ := (spells_append _ _ _ _).mp spelled
      have positive := primary_words_pos head
      have found := primary_complete head tokens middle front (accessors_bare steps back stops) fuel
        (by omega)
      rw [found]
      exact accessors_complete steps head.expr middle rest back stops fuel (by omega)

theorem operands_complete {level : List BinaryOp} {tighter : List (List BinaryOp)} :
    (p : Operands level tighter) → level :: tighter <:+ BinaryOp.levels → (left : Expr) →
      (tokens rest : List Token) → Spells tokens p.words rest → Stops (level :: tighter) rest →
      (fuel : Nat) → 10 * p.words.length + 1 ≤ fuel →
      parseOperands fuel level tighter left tokens = .ok (p.applyTo left, rest)
  | .done => by
      intro suffix left tokens rest spelled stops fuel enough
      obtain ⟨fuel, rfl⟩ : ∃ left, fuel = left + 1 := ⟨fuel - 1, by omega⟩
      simp only [Operands.words, spells_nil] at spelled
      subst spelled
      have ended : operatorOf? level tokens = none := by
        cases found : operatorOf? level tokens with
        | none => rfl
        | some next =>
            obtain ⟨member, first⟩ := (operatorOf?_eq_some level tokens next.2 next.1).mp found
            exact absurd stops
              (not_stops_of_spells first (operator_mem_continuations member tighter))
      simp only [parseOperands, ended, Operands.applyTo]
  | .more op member operand others => by
      intro suffix left tokens rest spelled stops fuel enough
      obtain ⟨fuel, rfl⟩ : ∃ left, fuel = left + 1 := ⟨fuel - 1, by omega⟩
      simp only [Operands.words, List.length_cons, List.length_append] at enough
      have short : tighter.length + 1 ≤ 4 := suffix.length_le
      obtain ⟨afterOp, first, spelled⟩ := (spells_append _ _ [.symbol op.symbol] _).mp spelled
      obtain ⟨middle, front, back⟩ := (spells_append _ _ _ _).mp spelled
      have positive := phrase_words_pos operand
      have found := phrase_complete operand ((List.suffix_cons _ _).trans suffix) afterOp middle
        front (operands_stops others suffix back stops) fuel (by omega)
      have further := operands_complete others suffix (.binary op left operand.expr) middle rest
        back stops fuel (by omega)
      simp only [parseOperands, (operatorOf?_eq_some level tokens afterOp op).mpr ⟨member, first⟩,
        found]
      exact further

theorem primary_complete :
    (p : Primary) → (tokens rest : List Token) → Spells tokens p.words rest → Bare rest →
      (fuel : Nat) → 10 * p.words.length ≤ fuel → parsePrimary fuel tokens = .ok (p.expr, rest)
  | .number value => by
      intro tokens rest spelled bare fuel enough
      simp only [Primary.words, List.length_singleton] at enough
      obtain ⟨fuel, rfl⟩ : ∃ left, fuel = left + 1 := ⟨fuel - 1, by omega⟩
      obtain ⟨text, start, more, rfl, tail⟩ := spells_number spelled
      rw [spells_nil] at tail
      subst tail
      rfl
  | .string value => by
      intro tokens rest spelled bare fuel enough
      simp only [Primary.words, List.length_singleton] at enough
      obtain ⟨fuel, rfl⟩ : ∃ left, fuel = left + 1 := ⟨fuel - 1, by omega⟩
      obtain ⟨text, start, more, rfl, tail⟩ := spells_string spelled
      rw [spells_nil] at tail
      subst tail
      rfl
  | .constant name value known => by
      intro tokens rest spelled bare fuel enough
      rw [Primary.expr, ← ofName_constant name value known]
      exact name_complete name tokens rest spelled bare fuel (by simpa [Primary.words] using enough)
  | .context name free => by
      intro tokens rest spelled bare fuel enough
      rw [Primary.expr, ← ofName_context name free]
      exact name_complete name tokens rest spelled bare fuel (by simpa [Primary.words] using enough)
  | .call name function named least greatest args => by
      intro tokens rest spelled bare fuel enough
      simp only [Primary.words, List.length_cons, List.length_append, List.length_nil] at enough
      obtain ⟨fuel, rfl⟩ : ∃ left, fuel = left + 1 := ⟨fuel - 1, by omega⟩
      obtain ⟨start, more, rfl, tail⟩ := spells_name spelled
      obtain ⟨text, opened, inner, rfl, enclosed⟩ := spells_symbol tail
      have found := arguments_complete args inner rest enclosed fuel (by omega)
      have admitted : function.admits args.exprs.length = true := by
        rw [Function.admits_iff, args.exprs_length]
        exact ⟨least, greatest⟩
      have checked := (checkedCall_eq_ok function args.exprs start _).mpr ⟨admitted, rfl⟩
      simp only [parsePrimary, (Function.find?_eq_some _ _).mpr named, found]
      change (checkedCall function args.exprs start >>= _) = _
      rw [checked]
      rfl
  | .group inner => by
      intro tokens rest spelled bare fuel enough
      simp only [Primary.words, List.length_cons, List.length_append, List.length_nil] at enough
      obtain ⟨fuel, rfl⟩ : ∃ left, fuel = left + 1 := ⟨fuel - 1, by omega⟩
      obtain ⟨text, start, more, rfl, tail⟩ := spells_symbol spelled
      obtain ⟨closed, front, back, expected⟩ := expect_complete tail
      have found := phrase_complete inner (List.suffix_refl _) more closed front
        (stops_of_spells back (by decide)) fuel (by change _ + 4 + 2 ≤ fuel; omega)
      simp only [parsePrimary, found]
      change (expect .closeParen closed >>= _) = _
      rw [expected]
      rfl

theorem accessors_complete :
    (p : Accessors) → (target : Expr) → (tokens rest : List Token) →
      Spells tokens p.words rest → Stops [] rest → (fuel : Nat) →
      10 * p.words.length + 1 ≤ fuel →
      parseAccess fuel target tokens = .ok (p.applyTo target, rest)
  | .done => by
      intro target tokens rest spelled stops fuel enough
      obtain ⟨fuel, rfl⟩ : ∃ left, fuel = left + 1 := ⟨fuel - 1, by omega⟩
      simp only [Accessors.words, spells_nil] at spelled
      subst spelled
      rw [parseAccess]
      · rfl
      · rintro _ _ rest rfl
        exact stops _ rfl .dot (by decide) rfl
      · rintro _ _ rest rfl
        exact stops _ rfl .openBracket (by decide) rfl
  | .property name others => by
      intro target tokens rest spelled stops fuel enough
      simp only [Accessors.words, List.length_cons] at enough
      obtain ⟨fuel, rfl⟩ : ∃ left, fuel = left + 1 := ⟨fuel - 1, by omega⟩
      obtain ⟨text, start, more, rfl, tail⟩ := spells_symbol spelled
      obtain ⟨opened, after, rfl, back⟩ := spells_name tail
      exact accessors_complete others (.property target name) after rest back stops fuel (by omega)
  | .index key others => by
      intro target tokens rest spelled stops fuel enough
      simp only [Accessors.words, List.length_cons, List.length_append] at enough
      obtain ⟨fuel, rfl⟩ : ∃ left, fuel = left + 1 := ⟨fuel - 1, by omega⟩
      obtain ⟨text, start, more, rfl, tail⟩ := spells_symbol spelled
      rw [← List.singleton_append, ← List.append_assoc] at tail
      obtain ⟨after, inside, back⟩ := (spells_append _ _ _ _).mp tail
      obtain ⟨closed, front, bracket, expected⟩ := expect_complete inside
      have found := phrase_complete key (List.suffix_refl _) more closed front
        (stops_of_spells bracket (by decide)) fuel (by change _ + 4 + 2 ≤ fuel; omega)
      simp only [parseAccess, found]
      change (expect .closeBracket closed >>= _) = _
      rw [expected]
      exact accessors_complete others (.index target key.expr) after rest back stops fuel (by omega)

theorem arguments_complete {count : Nat} :
    (p : Arguments count) → (tokens rest : List Token) →
      Spells tokens (p.words ++ [.symbol .closeParen]) rest → (fuel : Nat) →
      10 * p.words.length + 7 ≤ fuel → parseArgs fuel tokens = .ok (p.exprs, rest)
  | .none => by
      intro tokens rest spelled fuel enough
      obtain ⟨fuel, rfl⟩ : ∃ left, fuel = left + 1 := ⟨fuel - 1, by omega⟩
      obtain ⟨text, start, more, rfl, tail⟩ := spells_symbol spelled
      rw [spells_nil] at tail
      subst tail
      rfl
  | .some first others => by
      intro tokens rest spelled fuel enough
      simp only [Arguments.words, List.length_append] at enough
      obtain ⟨fuel, rfl⟩ : ∃ left, fuel = left + 1 := ⟨fuel - 1, by omega⟩
      rw [Arguments.words, List.append_assoc] at spelled
      rw [parseArgs_phrase fuel first _ tokens rest spelled]
      obtain ⟨middle, front, back⟩ := (spells_append _ _ _ _).mp spelled
      have found := phrase_complete first (List.suffix_refl _) tokens middle front
        (moreArguments_stops others back) fuel (by change _ + 4 + 2 ≤ fuel; omega)
      have further := moreArguments_complete others middle rest back fuel (by omega)
      rw [found]
      change (parseMoreArgs fuel middle >>= _) = _
      rw [further]
      rfl

theorem moreArguments_complete {count : Nat} :
    (p : MoreArguments count) → (tokens rest : List Token) →
      Spells tokens (p.words ++ [.symbol .closeParen]) rest → (fuel : Nat) →
      10 * p.words.length + 1 ≤ fuel → parseMoreArgs fuel tokens = .ok (p.exprs, rest)
  | .done => by
      intro tokens rest spelled fuel enough
      obtain ⟨fuel, rfl⟩ : ∃ left, fuel = left + 1 := ⟨fuel - 1, by omega⟩
      obtain ⟨text, start, more, rfl, tail⟩ := spells_symbol spelled
      rw [spells_nil] at tail
      subst tail
      rfl
  | .more next others => by
      intro tokens rest spelled fuel enough
      simp only [MoreArguments.words, List.length_cons, List.length_append] at enough
      obtain ⟨fuel, rfl⟩ : ∃ left, fuel = left + 1 := ⟨fuel - 1, by omega⟩
      rw [MoreArguments.words, List.cons_append, List.append_assoc] at spelled
      obtain ⟨text, start, more, rfl, tail⟩ := spells_symbol spelled
      obtain ⟨middle, front, back⟩ := (spells_append _ _ _ _).mp tail
      have found := phrase_complete next (List.suffix_refl _) more middle front
        (moreArguments_stops others back) fuel (by change _ + 4 + 2 ≤ fuel; omega)
      have further := moreArguments_complete others middle rest back fuel (by omega)
      simp only [parseMoreArgs, found]
      change (parseMoreArgs fuel middle >>= _) = _
      rw [further]
      rfl

end

end Flowfile.Expr
