import Flowfile.Proofs.Expr.Completeness

/-! The parser accepts exactly what the grammar derives, and gives the expression of the only
derivation.

Where a part of a derivation ends is what the parser leaves over, so two derivations of the same
words end their parts at the same places. -/

namespace Flowfile.Expr

open Grammar

theorem phrase_end_unique {levels : List (List BinaryOp)} (p q : Phrase levels)
    (suffix : levels <:+ BinaryOp.levels) (tokens rest rest' : List Token)
    (first : Spells tokens p.words rest) (second : Spells tokens q.words rest')
    (stops : Stops levels rest) (stops' : Stops levels rest') : rest = rest' := by
  let fuel := 10 * (p.words.length + q.words.length) + levels.length + 2
  have found := phrase_complete p suffix tokens rest first stops fuel (by omega)
  have found' := phrase_complete q suffix tokens rest' second stops' fuel (by omega)
  rw [found, Except.ok.injEq, Prod.mk.injEq] at found'
  exact found'.2

theorem primary_end_unique (p q : Primary) (tokens rest rest' : List Token)
    (first : Spells tokens p.words rest) (second : Spells tokens q.words rest')
    (bare : Bare rest) (bare' : Bare rest') : rest = rest' := by
  let fuel := 10 * (p.words.length + q.words.length)
  have found := primary_complete p tokens rest first bare fuel (by omega)
  have found' := primary_complete q tokens rest' second bare' fuel (by omega)
  rw [found, Except.ok.injEq, Prod.mk.injEq] at found'
  exact found'.2

theorem arguments_count_unique {count count' : Nat} (p : Arguments count) (q : Arguments count')
    (tokens rest rest' : List Token)
    (first : Spells tokens (p.words ++ [.symbol .closeParen]) rest)
    (second : Spells tokens (q.words ++ [.symbol .closeParen]) rest') : count = count' := by
  let fuel := 10 * (p.words.length + q.words.length) + 7
  have found := arguments_complete p tokens rest first fuel (by omega)
  have found' := arguments_complete q tokens rest' second fuel (by omega)
  rw [found, Except.ok.injEq, Prod.mk.injEq] at found'
  rw [← p.exprs_length, found'.1, q.exprs_length]

/-- A phrase in brackets ends where its closing bracket stands. -/
theorem enclosed_unique (p q : Phrase BinaryOp.levels) (symbol : Symbol)
    (other : symbol ∉ continuations BinaryOp.levels) (tokens rest rest' : List Token)
    (words words' : List Word) (first : Spells tokens (p.words ++ .symbol symbol :: words) rest)
    (second : Spells tokens (q.words ++ .symbol symbol :: words') rest') :
    ∃ closed after, Spells tokens p.words closed ∧ Spells tokens q.words closed ∧
      Stops BinaryOp.levels closed ∧ Spells after words rest ∧ Spells after words' rest' := by
  obtain ⟨closed, front, back⟩ := (spells_append _ _ _ _).mp first
  obtain ⟨closed', front', back'⟩ := (spells_append _ _ _ _).mp second
  have stops := stops_of_spells back other
  have stops' := stops_of_spells back' other
  have same := phrase_end_unique p q (List.suffix_refl _) tokens closed closed' front front' stops
    stops'
  subst same
  obtain ⟨-, after, tail, tail'⟩ := spells_head_eq back back'
  exact ⟨closed, after, front, front', stops, tail, tail'⟩

theorem access_ne_not (head : Primary) (steps : Accessors) (operand : Phrase [])
    (tokens rest rest' : List Token) (first : Spells tokens (Phrase.access head steps).words rest)
    (second : Spells tokens (Phrase.not operand).words rest') : False := by
  obtain ⟨word, words, same, opening, -⟩ := primary_opening head
  rw [Phrase.words, same] at first
  exact opening (spells_head_eq first second).1

theorem constant_unique (name : Text) (value value' : Value) (known : (name, value) ∈ constants)
    (known' : (name, value') ∈ constants) : value = value' := by
  have same := ofName_constant name value known
  rw [ofName_constant name value' known'] at same
  cases same
  rfl

theorem function_unique (name : Text) (function function' : Function)
    (named : function.name.lower = name.lower) (named' : function'.name.lower = name.lower) :
    function = function' := by
  rw [← Function.find?_eq_some] at named named'
  rw [named] at named'
  exact Option.some.inj named'

theorem name_ne_call (name name' : Text) (tokens rest rest' : List Token) (words : List Word)
    (first : Spells tokens [.name name] rest) (bare : Bare rest)
    (second : Spells tokens (.name name' :: .symbol .openParen :: words) rest') : False := by
  obtain ⟨-, more, tail, tail'⟩ := spells_head_eq first second
  rw [spells_nil] at tail
  subst tail
  obtain ⟨text, start, after, rfl, -⟩ := spells_symbol tail'
  exact bare _ rfl rfl

mutual

theorem phrase_unique {levels : List (List BinaryOp)} :
    (p q : Phrase levels) → levels <:+ BinaryOp.levels → (tokens rest rest' : List Token) →
      Spells tokens p.words rest → Spells tokens q.words rest' → Stops levels rest →
      Stops levels rest' → p = q
  | @Phrase.chain level tighter first more, .chain first' more' => by
      intro suffix tokens rest rest' spelled spelled' stops stops'
      obtain ⟨middle, front, back⟩ := (spells_append _ _ _ _).mp spelled
      obtain ⟨middle', front', back'⟩ := (spells_append _ _ _ _).mp spelled'
      have inner : tighter <:+ BinaryOp.levels := (List.suffix_cons _ _).trans suffix
      have inside := operands_stops more suffix back stops
      have inside' := operands_stops more' suffix back' stops'
      have same := phrase_end_unique first first' inner tokens middle middle' front front' inside
        inside'
      subst same
      rw [phrase_unique first first' inner tokens middle middle front front' inside inside',
        operands_unique more more' suffix middle rest rest' back back' stops stops']
  | .not operand, .not operand' => by
      intro suffix tokens rest rest' spelled spelled' stops stops'
      obtain ⟨-, more, tail, tail'⟩ := spells_head_eq spelled spelled'
      rw [phrase_unique operand operand' suffix more rest rest' tail tail' stops stops']
  | .not operand, .access head steps => by
      intro _ tokens rest rest' spelled spelled' _ _
      exact (access_ne_not head steps operand tokens rest' rest spelled' spelled).elim
  | .access head steps, .not operand => by
      intro _ tokens rest rest' spelled spelled' _ _
      exact (access_ne_not head steps operand tokens rest rest' spelled spelled').elim
  | .access head steps, .access head' steps' => by
      intro _ tokens rest rest' spelled spelled' stops stops'
      obtain ⟨middle, front, back⟩ := (spells_append _ _ _ _).mp spelled
      obtain ⟨middle', front', back'⟩ := (spells_append _ _ _ _).mp spelled'
      have bare := accessors_bare steps back stops
      have bare' := accessors_bare steps' back' stops'
      have same := primary_end_unique head head' tokens middle middle' front front' bare bare'
      subst same
      rw [primary_unique head head' tokens middle middle front front' bare bare',
        accessors_unique steps steps' middle rest rest' back back' stops stops']
termination_by structural p => p

theorem operands_unique {level : List BinaryOp} {tighter : List (List BinaryOp)} :
    (p q : Operands level tighter) → level :: tighter <:+ BinaryOp.levels →
      (tokens rest rest' : List Token) → Spells tokens p.words rest →
      Spells tokens q.words rest' → Stops (level :: tighter) rest →
      Stops (level :: tighter) rest' → p = q
  | .done, .done => fun _ _ _ _ _ _ _ _ => rfl
  | .done, .more op member operand others => by
      intro _ tokens rest rest' spelled spelled' stops _
      simp only [Operands.words, spells_nil] at spelled
      exact absurd (spelled ▸ stops)
        (not_stops_of_spells spelled' (operator_mem_continuations member tighter))
  | .more op member operand others, .done => by
      intro _ tokens rest rest' spelled spelled' _ stops'
      simp only [Operands.words, spells_nil] at spelled'
      exact absurd (spelled' ▸ stops')
        (not_stops_of_spells spelled (operator_mem_continuations member tighter))
  | .more op member operand others, .more op' member' operand' others' => by
      intro suffix tokens rest rest' spelled spelled' stops stops'
      obtain ⟨same, afterOp, tail, tail'⟩ := spells_head_eq spelled spelled'
      cases BinaryOp.symbol_injective (Word.symbol.inj same)
      obtain ⟨middle, front, back⟩ := (spells_append _ _ _ _).mp tail
      obtain ⟨middle', front', back'⟩ := (spells_append _ _ _ _).mp tail'
      have inner : tighter <:+ BinaryOp.levels := (List.suffix_cons _ _).trans suffix
      have inside := operands_stops others suffix back stops
      have inside' := operands_stops others' suffix back' stops'
      have ended := phrase_end_unique operand operand' inner afterOp middle middle' front front'
        inside inside'
      subst ended
      rw [phrase_unique operand operand' inner afterOp middle middle front front' inside inside',
        operands_unique others others' suffix middle rest rest' back back' stops stops']
termination_by structural p => p

theorem primary_unique :
    (p q : Primary) → (tokens rest rest' : List Token) → Spells tokens p.words rest →
      Spells tokens q.words rest' → Bare rest → Bare rest' → p = q
  | .group inner, .group inner' => by
      intro tokens rest rest' spelled spelled' _ _
      obtain ⟨-, more, tail, tail'⟩ := spells_head_eq spelled spelled'
      obtain ⟨closed, _, front, front', stops, -, -⟩ :=
        enclosed_unique inner inner' .closeParen (by decide) more rest rest' [] [] tail tail'
      rw [phrase_unique inner inner' (List.suffix_refl _) more closed closed front front' stops
        stops]
  | @Primary.call count name function named least greatest args,
      @Primary.call count' name' function' named' least' greatest' args' => by
      intro tokens rest rest' spelled spelled' _ _
      obtain ⟨same, more, tail, tail'⟩ := spells_head_eq spelled spelled'
      cases same
      obtain ⟨-, inner, enclosed, enclosed'⟩ := spells_head_eq tail tail'
      cases arguments_count_unique args args' inner rest rest' enclosed enclosed'
      cases function_unique name function function' named named'
      rw [arguments_unique args args' inner rest rest' enclosed enclosed']
  | .number value, .number value' => by
      intro tokens rest rest' spelled spelled' _ _
      cases (spells_head_eq spelled spelled').1
      rfl
  | .string value, .string value' => by
      intro tokens rest rest' spelled spelled' _ _
      cases (spells_head_eq spelled spelled').1
      rfl
  | .constant name value known, .constant name' value' known' => by
      intro tokens rest rest' spelled spelled' _ _
      cases (spells_head_eq spelled spelled').1
      cases constant_unique name value value' known known'
      rfl
  | .context name free, .context name' free' => by
      intro tokens rest rest' spelled spelled' _ _
      cases (spells_head_eq spelled spelled').1
      rfl
  | .constant name value known, .context name' free' => by
      intro tokens rest rest' spelled spelled' _ _
      cases (spells_head_eq spelled spelled').1
      exact absurd known (free' value)
  | .context name free, .constant name' value' known' => by
      intro tokens rest rest' spelled spelled' _ _
      cases (spells_head_eq spelled spelled').1
      exact absurd known' (free value')
  | .constant name value known, .call _ _ _ _ _ _ | .context name free, .call _ _ _ _ _ _ =>
      fun tokens rest rest' spelled spelled' bare _ =>
        (name_ne_call _ _ tokens rest rest' _ spelled bare spelled').elim
  | .call _ _ _ _ _ _, .constant name value known | .call _ _ _ _ _ _, .context name free =>
      fun tokens rest rest' spelled spelled' _ bare' =>
        (name_ne_call _ _ tokens rest' rest _ spelled' bare' spelled).elim
  | .number _, .string _ | .number _, .constant _ _ _ | .number _, .context _ _
  | .number _, .call _ _ _ _ _ _ | .number _, .group _ | .string _, .number _
  | .string _, .constant _ _ _ | .string _, .context _ _ | .string _, .call _ _ _ _ _ _
  | .string _, .group _ | .constant _ _ _, .number _ | .constant _ _ _, .string _
  | .constant _ _ _, .group _ | .context _ _, .number _ | .context _ _, .string _
  | .context _ _, .group _ | .call _ _ _ _ _ _, .number _ | .call _ _ _ _ _ _, .string _
  | .call _ _ _ _ _ _, .group _ | .group _, .number _ | .group _, .string _
  | .group _, .constant _ _ _ | .group _, .context _ _ | .group _, .call _ _ _ _ _ _ => by
      intro tokens rest rest' spelled spelled' _ _
      cases (spells_head_eq spelled spelled').1
termination_by structural p => p

theorem accessors_unique :
    (p q : Accessors) → (tokens rest rest' : List Token) → Spells tokens p.words rest →
      Spells tokens q.words rest' → Stops [] rest → Stops [] rest' → p = q
  | .done, .done => fun _ _ _ _ _ _ _ => rfl
  | .property name others, .property name' others' => by
      intro tokens rest rest' spelled spelled' stops stops'
      obtain ⟨-, more, tail, tail'⟩ := spells_head_eq spelled spelled'
      obtain ⟨same, after, back, back'⟩ := spells_head_eq tail tail'
      cases same
      rw [accessors_unique others others' after rest rest' back back' stops stops']
  | .index key others, .index key' others' => by
      intro tokens rest rest' spelled spelled' stops stops'
      obtain ⟨-, more, tail, tail'⟩ := spells_head_eq spelled spelled'
      obtain ⟨closed, after, front, front', ended, back, back'⟩ :=
        enclosed_unique key key' .closeBracket (by decide) more rest rest' _ _ tail tail'
      rw [phrase_unique key key' (List.suffix_refl _) more closed closed front front' ended ended,
        accessors_unique others others' after rest rest' back back' stops stops']
  | .done, .property _ _ | .done, .index _ _ => by
      intro tokens rest rest' spelled spelled' stops _
      simp only [Accessors.words, spells_nil] at spelled
      exact absurd (spelled ▸ stops) (not_stops_of_spells spelled' (by decide))
  | .property _ _, .done | .index _ _, .done => by
      intro tokens rest rest' spelled spelled' _ stops'
      simp only [Accessors.words, spells_nil] at spelled'
      exact absurd (spelled' ▸ stops') (not_stops_of_spells spelled (by decide))
  | .property _ _, .index _ _ | .index _ _, .property _ _ => by
      intro tokens rest rest' spelled spelled' _ _
      cases (spells_head_eq spelled spelled').1
termination_by structural p => p

theorem arguments_unique {count : Nat} :
    (p q : Arguments count) → (tokens rest rest' : List Token) →
      Spells tokens (p.words ++ [.symbol .closeParen]) rest →
      Spells tokens (q.words ++ [.symbol .closeParen]) rest' → p = q
  | .none, .none => fun _ _ _ _ _ => rfl
  | .some first others, .some first' others' => by
      intro tokens rest rest' spelled spelled'
      rw [Arguments.words, List.append_assoc] at spelled spelled'
      obtain ⟨middle, front, back⟩ := (spells_append _ _ _ _).mp spelled
      obtain ⟨middle', front', back'⟩ := (spells_append _ _ _ _).mp spelled'
      have stops := moreArguments_stops others back
      have stops' := moreArguments_stops others' back'
      have same := phrase_end_unique first first' (List.suffix_refl _) tokens middle middle' front
        front' stops stops'
      subst same
      rw [phrase_unique first first' (List.suffix_refl _) tokens middle middle front front' stops
        stops', moreArguments_unique others others' middle rest rest' back back']
termination_by structural p => p

theorem moreArguments_unique {count : Nat} :
    (p q : MoreArguments count) → (tokens rest rest' : List Token) →
      Spells tokens (p.words ++ [.symbol .closeParen]) rest →
      Spells tokens (q.words ++ [.symbol .closeParen]) rest' → p = q
  | .done, .done => fun _ _ _ _ _ => rfl
  | .more next others, .more next' others' => by
      intro tokens rest rest' spelled spelled'
      rw [MoreArguments.words, List.cons_append, List.append_assoc] at spelled spelled'
      obtain ⟨-, more, tail, tail'⟩ := spells_head_eq spelled spelled'
      obtain ⟨middle, front, back⟩ := (spells_append _ _ _ _).mp tail
      obtain ⟨middle', front', back'⟩ := (spells_append _ _ _ _).mp tail'
      have stops := moreArguments_stops others back
      have stops' := moreArguments_stops others' back'
      have same := phrase_end_unique next next' (List.suffix_refl _) more middle middle' front
        front' stops stops'
      subst same
      rw [phrase_unique next next' (List.suffix_refl _) more middle middle front front' stops
        stops', moreArguments_unique others others' middle rest rest' back back']
termination_by structural p => p

end

theorem finish_last (before used more : List Token) (last found : Token)
    (inner : ∀ token ∈ before, token.lexeme ≠ .finish) (final : found.lexeme = .finish)
    (same : before ++ [last] = used ++ found :: more) : used = before ∧ found :: more = [last] := by
  rcases List.append_eq_append_iff.mp same with ⟨extra, longer, rest⟩ | ⟨extra, longer, rest⟩
  · cases extra with
    | nil => exact ⟨by simpa using longer, rest.symm⟩
    | cons token extra => simp at rest
  · cases extra with
    | nil => exact ⟨by simpa using longer.symm, rest⟩
    | cons token extra =>
        simp only [List.cons_append, List.cons.injEq] at rest
        refine absurd final (inner found ?_)
        simp [longer, rest.1]

theorem spelledBy_iff (p : Phrase BinaryOp.levels) (before : List Token) (last : Token) :
    p.SpelledBy before ↔ Spells (before ++ [last]) p.words [last] := by
  rw [spells_iff, Phrase.SpelledBy]
  constructor
  · intro same
    exact ⟨before, rfl, same⟩
  · rintro ⟨used, whole, same⟩
    rwa [List.append_cancel_right whole]

theorem ofTokens_eq_ok (tokens : List Token) (e : Expr)
    (several : ∀ text start, tokens ≠ [⟨.finish, text, start⟩]) :
    ofTokens tokens = .ok e ↔ ∃ token more,
      parseLevels (parseFuel tokens) BinaryOp.levels tokens = .ok (e, token :: more) ∧
        token.lexeme = .finish := by
  rw [ofTokens.eq_2 tokens several, bind_eq_ok]
  constructor
  · rintro ⟨⟨value, rest⟩, head, tail⟩
    dsimp only at tail
    split at tail
    · cases tail
      exact ⟨_, _, head, rfl⟩
    · exact absurd tail (unexpected_ne_ok _ _ _)
  · rintro ⟨⟨lexeme, text, start⟩, more, head, final⟩
    cases final
    exact ⟨_, head, rfl⟩

theorem ofTokens_sound (before : List Token) (last : Token) (e : Expr)
    (inner : ∀ token ∈ before, token.lexeme ≠ .finish)
    (parsed : ofTokens (before ++ [last]) = .ok e) :
    ∃ p : Phrase BinaryOp.levels, p.SpelledBy before ∧ p.expr = e := by
  have several : ∀ text start, before ++ [last] ≠ [⟨.finish, text, start⟩] := by
    intro text start only
    rw [only] at parsed
    cases parsed
  obtain ⟨token, more, head, final⟩ := (ofTokens_eq_ok _ e several).mp parsed
  obtain ⟨p, rfl, spelled⟩ := (sound_within _).phrase _ _ e _ head
  obtain ⟨used, whole, same⟩ := (spells_iff _ _ _).mp spelled
  obtain ⟨rfl, -⟩ := finish_last before used more last token inner final whole
  exact ⟨p, same, rfl⟩

theorem ofTokens_complete (before : List Token) (last : Token) (final : last.lexeme = .finish)
    (p : Phrase BinaryOp.levels) (spelled : p.SpelledBy before) :
    ofTokens (before ++ [last]) = .ok p.expr := by
  have length : before.length = p.words.length := by simpa using congrArg List.length spelled
  have positive := phrase_words_pos p
  have several : ∀ text start, before ++ [last] ≠ [⟨.finish, text, start⟩] := by
    intro text start only
    have short := congrArg List.length only
    simp only [List.length_append, List.length_singleton] at short
    omega
  have stops : Stops BinaryOp.levels [last] := by
    intro token first symbol _ same
    cases first
    rw [final] at same
    cases same
  have found := phrase_complete p (List.suffix_refl _) (before ++ [last]) [last]
    ((spelledBy_iff p before last).mp spelled) stops (parseFuel (before ++ [last]))
    (by simp only [parseFuel, List.length_append, List.length_singleton]
        change _ + 4 + 2 ≤ _
        omega)
  exact (ofTokens_eq_ok _ p.expr several).mpr ⟨last, [], found, final⟩

/-- Tokens that end with the only end of the source are accepted if and only if those before the
end have a derivation; it is the only one, and the result is its expression. -/
theorem ofTokens_iff_derivation (before : List Token) (last : Token)
    (inner : ∀ token ∈ before, token.lexeme ≠ .finish) (final : last.lexeme = .finish) :
    (∀ e, ofTokens (before ++ [last]) = .ok e ↔
      ∃ p : Phrase BinaryOp.levels, p.SpelledBy before ∧ p.expr = e) ∧
    ((∃ e, ofTokens (before ++ [last]) = .ok e) ↔
      ∃ p : Phrase BinaryOp.levels, p.SpelledBy before ∧ ∀ q, q.SpelledBy before → q = p) := by
  have stops : Stops BinaryOp.levels [last] := by
    intro token first symbol _ same
    cases first
    rw [final] at same
    cases same
  have unique (p q : Phrase BinaryOp.levels) (spelled : p.SpelledBy before)
      (spelled' : q.SpelledBy before) : q = p :=
    phrase_unique q p (List.suffix_refl _) (before ++ [last]) [last] [last]
      ((spelledBy_iff q before last).mp spelled') ((spelledBy_iff p before last).mp spelled) stops
      stops
  refine ⟨fun e => ⟨ofTokens_sound before last e inner, ?_⟩, ?_, ?_⟩
  · rintro ⟨p, spelled, rfl⟩
    exact ofTokens_complete before last final p spelled
  · rintro ⟨e, parsed⟩
    obtain ⟨p, spelled, -⟩ := ofTokens_sound before last e inner parsed
    exact ⟨p, spelled, fun q spelled' => unique p q spelled spelled'⟩
  · rintro ⟨p, spelled, -⟩
    exact ⟨p.expr, ofTokens_complete before last final p spelled⟩

theorem ofTokens_iff_derivation_disjunction :
    let before : List Token :=
      [⟨.operator .not, ['!'], 0⟩, ⟨.identifier, Text.of "Always", 1⟩,
        ⟨.operator .openParen, ['('], 7⟩, ⟨.operator .closeParen, [')'], 8⟩,
        ⟨.operator .or, ['|', '|'], 10⟩, ⟨.identifier, Text.of "env", 13⟩]
    let last : Token := ⟨.finish, [], 16⟩
    (∀ token ∈ before, token.lexeme ≠ .finish) ∧ last.lexeme = .finish ∧
      ofTokens (before ++ [last]) =
        .ok (.binary .or (.not (.call .always [])) (.context (Text.of "env"))) := by
  intro before last
  have inner : ∀ token ∈ before, token.lexeme ≠ .finish := by decide
  have free : ∀ value, (Text.of "env", value) ∉ constants := by
    intro value known
    simp only [constants, List.mem_cons, Prod.mk.injEq, List.not_mem_nil, or_false] at known
    rcases known with ⟨same, -⟩ | ⟨same, -⟩ | ⟨same, -⟩ <;> exact absurd same (by decide)
  let called : Primary :=
    .call (Text.of "Always") .always (by decide) (by decide) (by decide) .none
  let left : Phrase [[.and], [.eq, .ne], [.lt, .le, .gt, .ge]] :=
    .chain (.chain (.chain (.not (.access called .done)) .done) .done) .done
  let right : Phrase [[.and], [.eq, .ne], [.lt, .le, .gt, .ge]] :=
    .chain (.chain (.chain (.access (.context (Text.of "env") free) .done) .done) .done) .done
  let derivation : Phrase BinaryOp.levels := .chain left (.more .or (by decide) right .done)
  refine ⟨inner, rfl, ((ofTokens_iff_derivation before last inner rfl).1 _).mpr ?_⟩
  exact ⟨derivation, rfl, rfl⟩

end Flowfile.Expr
