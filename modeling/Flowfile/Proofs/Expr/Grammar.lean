import Flowfile.Expr.Parser

/-! The grammar of expressions, as derivations.

A derivation spells words and builds an expression. Levels of binary operators, loosest first, come
before `!`, accessors and primaries. A name before an opening parenthesis has to be that of a
function that takes as many arguments. -/

namespace Flowfile

namespace BinaryOp

def symbol : BinaryOp → Symbol
  | .or => .or
  | .and => .and
  | .eq => .eq
  | .ne => .ne
  | .lt => .lt
  | .le => .le
  | .gt => .gt
  | .ge => .ge

theorem ofSymbol?_eq_some (found : Symbol) (op : BinaryOp) :
    ofSymbol? found = some op ↔ found = op.symbol := by
  cases found <;> cases op <;> decide

theorem symbol_injective {first second : BinaryOp} (same : first.symbol = second.symbol) :
    first = second := by
  have found := (ofSymbol?_eq_some second.symbol first).mpr same.symm
  rw [(ofSymbol?_eq_some second.symbol second).mpr rfl] at found
  exact (Option.some.inj found).symm

end BinaryOp

namespace Grammar

/-- A token without its place, and without its text unless it is a name. -/
inductive Word
  | number (value : Number)
  | string (value : Text)
  | name (text : Text)
  | symbol (symbol : Symbol)

def constants : List (Text × Value) :=
  [(Text.of "true", .bool true), (Text.of "false", .bool false), (Text.of "null", .null)]

mutual

/-- An expression whose binary operators outside brackets belong to the given levels. -/
inductive Phrase : List (List BinaryOp) → Type
  | chain {level tighter} (first : Phrase tighter) (more : Operands level tighter) :
      Phrase (level :: tighter)
  | not (operand : Phrase []) : Phrase []
  | access (head : Primary) (steps : Accessors) : Phrase []

inductive Operands : List BinaryOp → List (List BinaryOp) → Type
  | done {level tighter} : Operands level tighter
  | more {level tighter} (op : BinaryOp) (member : op ∈ level) (operand : Phrase tighter)
      (rest : Operands level tighter) : Operands level tighter

inductive Primary : Type
  | number (value : Number)
  | string (value : Text)
  | constant (name : Text) (value : Value) (known : (name, value) ∈ constants)
  | context (name : Text) (free : ∀ value, (name, value) ∉ constants)
  | call {count : Nat} (name : Text) (function : Function)
      (named : function.name.lower = name.lower) (least : function.leastArgs ≤ count)
      (greatest : ∀ bound ∈ function.greatestArgs?, count ≤ bound) (args : Arguments count)
  | group (inner : Phrase BinaryOp.levels)

inductive Accessors : Type
  | done
  | property (name : Text) (rest : Accessors)
  | index (key : Phrase BinaryOp.levels) (rest : Accessors)

inductive Arguments : Nat → Type
  | none : Arguments 0
  | some {count : Nat} (first : Phrase BinaryOp.levels) (rest : MoreArguments count) :
      Arguments (count + 1)

inductive MoreArguments : Nat → Type
  | done : MoreArguments 0
  | more {count : Nat} (next : Phrase BinaryOp.levels) (rest : MoreArguments count) :
      MoreArguments (count + 1)

end

variable {levels tighter : List (List BinaryOp)} {level : List BinaryOp} {count : Nat}

mutual

def Phrase.words {levels : List (List BinaryOp)} : Phrase levels → List Word
  | .chain first more => first.words ++ more.words
  | .not operand => .symbol .not :: operand.words
  | .access head steps => head.words ++ steps.words

def Operands.words {level : List BinaryOp} {tighter : List (List BinaryOp)} :
    Operands level tighter → List Word
  | .done => []
  | .more op _ operand rest => .symbol op.symbol :: (operand.words ++ rest.words)

def Primary.words : Primary → List Word
  | .number value => [.number value]
  | .string value => [.string value]
  | .constant name _ _ | .context name _ => [.name name]
  | .call name _ _ _ _ args =>
    .name name :: .symbol .openParen :: (args.words ++ [.symbol .closeParen])
  | .group inner => .symbol .openParen :: (inner.words ++ [.symbol .closeParen])

def Accessors.words : Accessors → List Word
  | .done => []
  | .property name rest => .symbol .dot :: .name name :: rest.words
  | .index key rest => .symbol .openBracket :: (key.words ++ .symbol .closeBracket :: rest.words)

def Arguments.words {count : Nat} : Arguments count → List Word
  | .none => []
  | .some first rest => first.words ++ rest.words

def MoreArguments.words {count : Nat} : MoreArguments count → List Word
  | .done => []
  | .more next rest => .symbol .comma :: (next.words ++ rest.words)

end

mutual

/-- The expression that a derivation builds. Binary operators group to the left. -/
def Phrase.expr {levels : List (List BinaryOp)} : Phrase levels → Expr
  | .chain first more => more.applyTo first.expr
  | .not operand => .not operand.expr
  | .access head steps => steps.applyTo head.expr

def Operands.applyTo {level : List BinaryOp} {tighter : List (List BinaryOp)} :
    Operands level tighter → Expr → Expr
  | .done, left => left
  | .more op _ operand rest, left => rest.applyTo (.binary op left operand.expr)

def Primary.expr : Primary → Expr
  | .number value => .literal (.number value)
  | .string value => .literal (.str value)
  | .constant _ value _ => .literal value
  | .context name _ => .context name
  | .call _ function _ _ _ args => .call function args.exprs
  | .group inner => inner.expr

def Accessors.applyTo : Accessors → Expr → Expr
  | .done, target => target
  | .property name rest, target => rest.applyTo (.property target name)
  | .index key rest, target => rest.applyTo (.index target key.expr)

def Arguments.exprs {count : Nat} : Arguments count → List Expr
  | .none => []
  | .some first rest => first.expr :: rest.exprs

def MoreArguments.exprs {count : Nat} : MoreArguments count → List Expr
  | .done => []
  | .more next rest => next.expr :: rest.exprs

end

theorem MoreArguments.exprs_length {count : Nat} :
    (args : MoreArguments count) → args.exprs.length = count
  | .done => rfl
  | .more next rest => by simp [MoreArguments.exprs, MoreArguments.exprs_length rest]

theorem Arguments.exprs_length (args : Arguments count) : args.exprs.length = count := by
  cases args with
  | none => rfl
  | some first rest => simp [Arguments.exprs, rest.exprs_length]

def word? (token : Token) : Option Word :=
  match token.lexeme with
  | .number value => some (.number value)
  | .string value => some (.string value)
  | .identifier => some (.name token.text)
  | .operator symbol => some (.symbol symbol)
  | .finish => none

/-- Whether the tokens start with the words, and the rest follows. -/
def Spells : List Token → List Word → List Token → Prop
  | tokens, [], rest => tokens = rest
  | [], _ :: _, _ => False
  | token :: tokens, word :: words, rest => word? token = some word ∧ Spells tokens words rest

@[simp] theorem spells_nil (tokens rest : List Token) : Spells tokens [] rest ↔ tokens = rest := by
  cases tokens <;> rfl

@[simp] theorem spells_cons (token : Token) (tokens rest : List Token) (word : Word)
    (words : List Word) : Spells (token :: tokens) (word :: words) rest ↔
      word? token = some word ∧ Spells tokens words rest := Iff.rfl

theorem spells_cons_iff (tokens rest : List Token) (word : Word) (words : List Word) :
    Spells tokens (word :: words) rest ↔
      ∃ token more, tokens = token :: more ∧ word? token = some word ∧ Spells more words rest := by
  cases tokens with
  | nil => simp [Spells]
  | cons token tokens => simp [and_assoc]

theorem spells_append (tokens rest : List Token) (front back : List Word) :
    Spells tokens (front ++ back) rest ↔
      ∃ middle, Spells tokens front middle ∧ Spells middle back rest := by
  induction front generalizing tokens with
  | nil => simp
  | cons word front ih =>
      cases tokens with
      | nil => simp [Spells]
      | cons token tokens => simp [ih, and_assoc]

theorem spells_iff (tokens rest : List Token) (words : List Word) :
    Spells tokens words rest ↔
      ∃ used, tokens = used ++ rest ∧ used.map word? = words.map some := by
  induction words generalizing tokens with
  | nil => simp
  | cons word words ih =>
      rw [spells_cons_iff]
      constructor
      · rintro ⟨token, more, rfl, head, tail⟩
        obtain ⟨used, rfl, same⟩ := (ih more).mp tail
        exact ⟨token :: used, rfl, by simp [head, same]⟩
      · rintro ⟨used, rfl, same⟩
        cases used with
        | nil => simp at same
        | cons token used =>
            simp only [List.map_cons, List.cons.injEq] at same
            exact ⟨token, used ++ rest, rfl, same.1, (ih _).mpr ⟨used, rfl, same.2⟩⟩

def Phrase.SpelledBy (p : Phrase levels) (tokens : List Token) : Prop :=
  tokens.map word? = p.words.map some

theorem word?_eq_symbol (token : Token) (symbol : Symbol) :
    word? token = some (.symbol symbol) ↔ token.lexeme = .operator symbol := by
  unfold word?
  split <;> simp_all

theorem spells_symbol {tokens rest : List Token} {symbol : Symbol} {words : List Word}
    (spelled : Spells tokens (.symbol symbol :: words) rest) :
    ∃ text start more, tokens = ⟨.operator symbol, text, start⟩ :: more ∧
      Spells more words rest := by
  obtain ⟨⟨lexeme, text, start⟩, more, rfl, head, tail⟩ := (spells_cons_iff _ _ _ _).mp spelled
  rw [word?_eq_symbol] at head
  subst head
  exact ⟨text, start, more, rfl, tail⟩

theorem spells_name {tokens rest : List Token} {name : Text} {words : List Word}
    (spelled : Spells tokens (.name name :: words) rest) :
    ∃ start more, tokens = ⟨.identifier, name, start⟩ :: more ∧ Spells more words rest := by
  obtain ⟨⟨lexeme, text, start⟩, more, rfl, head, tail⟩ := (spells_cons_iff _ _ _ _).mp spelled
  cases lexeme <;> simp only [word?, Option.some.injEq, reduceCtorEq, Word.name.injEq] at head
  subst head
  exact ⟨start, more, rfl, tail⟩

theorem spells_number {tokens rest : List Token} {value : Number} {words : List Word}
    (spelled : Spells tokens (.number value :: words) rest) :
    ∃ text start more, tokens = ⟨.number value, text, start⟩ :: more ∧ Spells more words rest := by
  obtain ⟨⟨lexeme, text, start⟩, more, rfl, head, tail⟩ := (spells_cons_iff _ _ _ _).mp spelled
  cases lexeme <;> simp only [word?, Option.some.injEq, reduceCtorEq, Word.number.injEq] at head
  subst head
  exact ⟨text, start, more, rfl, tail⟩

theorem spells_string {tokens rest : List Token} {value : Text} {words : List Word}
    (spelled : Spells tokens (.string value :: words) rest) :
    ∃ text start more, tokens = ⟨.string value, text, start⟩ :: more ∧ Spells more words rest := by
  obtain ⟨⟨lexeme, text, start⟩, more, rfl, head, tail⟩ := (spells_cons_iff _ _ _ _).mp spelled
  cases lexeme <;> simp only [word?, Option.some.injEq, reduceCtorEq, Word.string.injEq] at head
  subst head
  exact ⟨text, start, more, rfl, tail⟩

theorem spells_head_eq {tokens rest rest' : List Token} {word word' : Word}
    {words words' : List Word} (first : Spells tokens (word :: words) rest)
    (second : Spells tokens (word' :: words') rest') :
    word = word' ∧ ∃ more, Spells more words rest ∧ Spells more words' rest' := by
  obtain ⟨token, more, rfl, head, tail⟩ := (spells_cons_iff _ _ _ _).mp first
  obtain ⟨head', tail'⟩ := (spells_cons _ _ _ _ _).mp second
  rw [head] at head'
  exact ⟨Option.some.inj head', more, tail, tail'⟩

/-! What can follow an expression. -/

def continuations (levels : List (List BinaryOp)) : List Symbol :=
  [.dot, .openBracket, .openParen] ++ levels.flatten.map BinaryOp.symbol

def Stops (levels : List (List BinaryOp)) (rest : List Token) : Prop :=
  ∀ token ∈ rest.head?, ∀ symbol ∈ continuations levels, token.lexeme ≠ .operator symbol

/-- Whether no opening parenthesis comes first, which would turn a name into a call. -/
def Bare (rest : List Token) : Prop :=
  ∀ token ∈ rest.head?, token.lexeme ≠ .operator .openParen

theorem stops_tighter {level : List BinaryOp} {tighter : List (List BinaryOp)} {rest : List Token}
    (stops : Stops (level :: tighter) rest) : Stops tighter rest := by
  intro token first symbol member
  apply stops token first symbol
  simp only [continuations, List.flatten_cons, List.map_append, List.mem_append] at member ⊢
  rcases member with access | operator
  · exact Or.inl access
  · exact Or.inr (Or.inr operator)

theorem stops_of_spells {levels : List (List BinaryOp)} {tokens rest : List Token}
    {symbol : Symbol} {words : List Word} (spelled : Spells tokens (.symbol symbol :: words) rest)
    (other : symbol ∉ continuations levels) : Stops levels tokens := by
  obtain ⟨text, start, more, rfl, -⟩ := spells_symbol spelled
  intro token found later member same
  cases found
  cases same
  exact other member

theorem not_stops_of_spells {levels : List (List BinaryOp)} {tokens rest : List Token}
    {symbol : Symbol} {words : List Word} (spelled : Spells tokens (.symbol symbol :: words) rest)
    (member : symbol ∈ continuations levels) : ¬ Stops levels tokens := by
  obtain ⟨text, start, more, rfl, -⟩ := spells_symbol spelled
  intro stops
  exact stops _ rfl symbol member rfl

theorem operator_mem_continuations {level : List BinaryOp} {op : BinaryOp} (member : op ∈ level)
    (tighter : List (List BinaryOp)) : op.symbol ∈ continuations (level :: tighter) := by
  simp only [continuations, List.flatten_cons, List.map_append, List.mem_append]
  exact Or.inr (Or.inl (List.mem_map_of_mem member))

theorem operator_not_mem_continuations {level : List BinaryOp} {tighter : List (List BinaryOp)}
    (suffix : level :: tighter <:+ BinaryOp.levels) {op : BinaryOp} (member : op ∈ level) :
    op.symbol ∉ continuations tighter := by
  have distinct : (level :: tighter).flatten.Nodup := by
    obtain ⟨front, whole⟩ := suffix
    have all : BinaryOp.levels.flatten.Nodup := by decide
    rw [← whole, List.flatten_append] at all
    exact (List.nodup_append.mp all).2.1
  rw [List.flatten_cons, List.nodup_append] at distinct
  simp only [continuations, List.mem_append, List.mem_map, not_or, not_exists, not_and]
  constructor
  · cases op <;> decide
  · intro other later same
    exact distinct.2.2 op member other later (BinaryOp.symbol_injective same).symm

theorem operands_stops (p : Operands level tighter) (suffix : level :: tighter <:+ BinaryOp.levels)
    {tokens rest : List Token} (spelled : Spells tokens p.words rest)
    (stops : Stops (level :: tighter) rest) : Stops tighter tokens := by
  cases p with
  | done =>
      simp only [Operands.words, spells_nil] at spelled
      exact spelled ▸ stops_tighter stops
  | more op member operand others =>
      exact stops_of_spells spelled (operator_not_mem_continuations suffix member)

theorem accessors_bare (p : Accessors) {tokens rest : List Token}
    (spelled : Spells tokens p.words rest) (stops : Stops [] rest) : Bare tokens := by
  cases p with
  | done =>
      simp only [Accessors.words, spells_nil] at spelled
      subst spelled
      exact fun token first => stops token first .openParen (by decide)
  | property name others =>
      obtain ⟨text, start, more, rfl, -⟩ := spells_symbol spelled
      simp [Bare]
  | index key others =>
      obtain ⟨text, start, more, rfl, -⟩ := spells_symbol spelled
      simp [Bare]

theorem moreArguments_stops (p : MoreArguments count) {tokens rest : List Token}
    (spelled : Spells tokens (p.words ++ [.symbol .closeParen]) rest) :
    Stops BinaryOp.levels tokens := by
  cases p with
  | done => exact stops_of_spells spelled (by decide)
  | more next others => exact stops_of_spells spelled (by decide)

/-! With which words derivations begin. -/

theorem primary_opening (p : Primary) :
    ∃ word words, p.words = word :: words ∧ word ≠ .symbol .not ∧ word ≠ .symbol .closeParen := by
  cases p <;> exact ⟨_, _, rfl, by simp⟩

theorem phrase_opening {levels : List (List BinaryOp)} :
    (p : Phrase levels) → ∃ word words, p.words = word :: words ∧ word ≠ .symbol .closeParen
  | .chain first more => by
      obtain ⟨word, words, same, opening⟩ := phrase_opening first
      exact ⟨word, words ++ more.words, by simp [Phrase.words, same], opening⟩
  | .not operand => ⟨_, _, rfl, by simp⟩
  | .access head steps => by
      obtain ⟨word, words, same, -, opening⟩ := primary_opening head
      exact ⟨word, words ++ steps.words, by simp [Phrase.words, same], opening⟩

theorem primary_words_pos (p : Primary) : 0 < p.words.length := by
  obtain ⟨word, words, same, -⟩ := primary_opening p
  simp [same]

theorem phrase_words_pos (p : Phrase levels) : 0 < p.words.length := by
  obtain ⟨word, words, same, -⟩ := phrase_opening p
  simp [same]

end Grammar

end Flowfile
