import Flowfile.Proofs.Expr.Extent
import Flowfile.Proofs.Expr.Simulation

/-! Blanks between the tokens of a source make no difference.

A source may be spread out by gaps of blanks at any places that are not inside of a token. Then it
has the same tokens, each moved by the gaps before it, and so the parser comes to the same
expression or fails with the same message. The reason is that a token is found without a look at
what stands behind the next blank, and that the longest number and the first operator are taken. -/

namespace Flowfile

namespace Text

/-- The text with a gap before each of its characters and one at its end. The first gap is the one
at the position. -/
def spread (gaps : Nat → Text) (position : Nat) : Text → Text
  | [] => gaps position
  | c :: rest => gaps position ++ c :: spread gaps (position + 1) rest

def room (gaps : Nat → Text) : Nat → Nat
  | 0 => 0
  | count + 1 => room gaps count + (gaps count).length

def shifted (gaps : Nat → Text) (position : Nat) : Nat := position + room gaps (position + 1)

theorem shifted_eq (gaps : Nat → Text) (position : Nat) :
    position + room gaps position + (gaps position).length = shifted gaps position :=
  Nat.add_assoc position _ _

/-- Up to its first blank, the second text is a beginning of the first one. -/
def Loosened (text text' : Text) : Prop :=
  ∀ front : Text, (∀ c ∈ front, isBlank c = false) → front <+: text' → front <+: text

section

variable {rest rest' : Text} (loose : Loosened rest rest')

include loose

theorem Loosened.append (text : Text) : Loosened (text ++ rest) (text ++ rest') := by
  intro front solid leads
  induction text generalizing front with
  | nil => exact loose front solid leads
  | cons c text ih =>
      cases front with
      | nil => exact List.nil_prefix
      | cons d front =>
          rw [List.forall_mem_cons] at solid
          obtain ⟨same, leads⟩ := List.cons_prefix_cons.mp leads
          exact List.cons_prefix_cons.mpr ⟨same, ih front solid.2 leads⟩

theorem Loosened.next {kind : Char → Prop} (next : Grammar.Next kind rest)
    (blanks : ∀ c, isBlank c = true → kind c) : Grammar.Next kind rest' := by
  intro c first
  by_cases blank : isBlank c = true
  · exact blanks c blank
  · obtain ⟨more, rfl⟩ := List.head?_eq_some_iff.mp first
    have solid : ∀ d ∈ [c], isBlank d = false := by simpa using blank
    obtain ⟨others, rfl⟩ := loose [c] solid (by simp)
    exact next c rfl

end

section

variable {gaps : Nat → Text} (blank : ∀ position, ∀ c ∈ gaps position, isBlank c = true)

include blank

theorem loosened_gap {position : Nat} {text text' : Text} (loose : Loosened text text') :
    Loosened text (gaps position ++ text') := by
  intro front solid leads
  cases front with
  | nil => exact List.nil_prefix
  | cons d front =>
      cases gap : gaps position with
      | nil =>
          rw [gap] at leads
          exact loose _ solid leads
      | cons c more =>
          rw [gap] at leads
          obtain rfl : d = c := (List.cons_prefix_cons.mp leads).1
          have space := blank position d (by simp [gap])
          rw [solid d List.mem_cons_self] at space
          cases space

theorem loosened_spread (position : Nat) (text : Text) :
    Loosened text (spread gaps position text) := by
  induction text generalizing position with
  | nil =>
      rw [spread, ← List.append_nil (gaps position)]
      exact loosened_gap blank fun _ _ leads => leads
  | cons c rest ih =>
      rw [spread]
      exact loosened_gap blank ((ih (position + 1)).append [c])

end

theorem spread_append {gaps : Nat → Text} {position : Nat} {text : Text} (rest : Text)
    (gapless : ∀ i, position ≤ i → i < position + text.length → gaps i = []) :
    spread gaps position (text ++ rest) = text ++ spread gaps (position + text.length) rest := by
  induction text generalizing position with
  | nil => rfl
  | cons c text ih =>
      have here : gaps position = [] := gapless position (Nat.le_refl _) (by simp)
      have later : spread gaps (position + 1) (text ++ rest) =
          text ++ spread gaps (position + 1 + text.length) rest :=
        ih fun i after before => gapless i (by omega) (by rw [List.length_cons]; omega)
      rw [List.cons_append, spread, here, List.nil_append, later, List.length_cons,
        Nat.add_right_comm, Nat.add_assoc]
      rfl

theorem room_add {gaps : Nat → Text} {position count : Nat}
    (gapless : ∀ i, position ≤ i → i < position + count → gaps i = []) :
    room gaps (position + count) = room gaps position := by
  induction count with
  | zero => rfl
  | succ count ih =>
      have last : gaps (position + count) = [] := gapless _ (by omega) (by omega)
      rw [← Nat.add_assoc, room, last, ih fun i after before => gapless i after (by omega)]
      rfl

end Text

namespace Token

open Text Grammar

theorem readQuoted?_next {text value : Text} {size : Nat}
    (read : readQuoted? text = some (value, size)) : Next (· ≠ '\'') (text.drop size) := by
  fun_induction readQuoted? text generalizing value size with
  | case1 => cases read
  | case2 rest ih =>
      obtain ⟨⟨inner, length⟩, found, same⟩ := Option.map_eq_some_iff.mp read
      cases same
      exact ih found
  | case3 rest single =>
      cases read
      rintro c first rfl
      obtain ⟨more, rfl⟩ := List.head?_eq_some_iff.mp first
      exact single more rfl
  | case4 c rest double other ih =>
      obtain ⟨⟨inner, length⟩, found, same⟩ := Option.map_eq_some_iff.mp read
      cases same
      exact ih found

theorem numberLength_loosened {text text' : Text} (loose : Loosened text text') :
    numberLength text' ≤ numberLength text := by
  by_cases none : numberLength text' = 0
  · rw [none]
    exact Nat.zero_le _
  · have form := numberLength_form none
    obtain ⟨more, rfl⟩ := loose _ form.solid (List.take_prefix _ text')
    have longest := form.length_le more
    rwa [List.length_take, Nat.min_eq_left (numberLength_le_length text')] at longest

section

variable {rest rest' : Text} (loose : Loosened rest rest')

include loose

theorem readQuoted?_loosened {text value : Text}
    (read : readQuoted? (text ++ rest) = some (value, text.length)) :
    readQuoted? (text ++ rest') = some (value, text.length) := by
  have next := readQuoted?_next read
  have form := readQuoted?_take read
  rw [List.drop_left] at next
  rw [List.take_left] at form
  have next' : Next (· ≠ '\'') rest' := loose.next next fun c blank quote => by
    rw [quote] at blank
    cases blank
  rw [form, List.append_assoc, List.length_append]
  exact readQuoted?_doubled value next'

theorem numberLength_kept {text : Text} (nonempty : text ≠ [])
    (length : numberLength (text ++ rest) = text.length) :
    numberLength (text ++ rest') = text.length := by
  have present := List.length_pos_iff.mpr nonempty
  have form : IsNumeral ((text ++ rest).take (numberLength (text ++ rest))) :=
    numberLength_form (by omega)
  rw [length, List.take_left] at form
  have shortest := form.length_le rest'
  have longest := numberLength_loosened (loose.append text)
  omega

theorem takeWhile_kept {accepts : Char → Bool} (solid : ∀ c, accepts c = true → isBlank c = false)
    {text : Text} (length : ((text ++ rest).takeWhile accepts).length = text.length) :
    ((text ++ rest').takeWhile accepts).length = text.length := by
  have taken : (text ++ rest).takeWhile accepts = text := by
    have leads := List.prefix_of_prefix_length_le (List.takeWhile_prefix accepts)
      (List.prefix_append text rest) (Nat.le_of_eq length)
    exact leads.eq_of_length length
  have all : ∀ c ∈ text, accepts c = true := by
    rw [← taken]
    exact fun _ => List.mem_takeWhile_imp
  have next : Next (fun c => accepts c = false) rest := by
    rintro c first
    obtain ⟨more, rfl⟩ := List.head?_eq_some_iff.mp first
    rw [List.takeWhile_append_of_pos all, List.length_append] at length
    have zero : ((c :: more).takeWhile accepts).length = 0 := by omega
    rw [List.takeWhile_cons] at zero
    split at zero
    · cases zero
    · rename_i stops
      exact Bool.eq_false_iff.mpr stops
  have next' : Next (fun c => accepts c = false) rest' := loose.next next fun c blank => by
    rw [← Bool.not_eq_true]
    intro part
    rw [solid c part] at blank
    cases blank
  rw [takeWhile_stop all next']

end

theorem solid_of_symbol (symbol : Symbol) : ∀ c ∈ symbol.text, isBlank c = false := by
  have solid : symbol.text.all (fun c => !isBlank c) = true := by cases symbol <;> rfl
  simpa using solid

theorem find?_loosened {text text' : Text} (loose : Loosened text text') {symbol : Symbol}
    (found : Symbol.all.find? (fun symbol => symbol.text.isPrefixOf text) = some symbol)
    (leads : symbol.text <+: text') :
    Symbol.all.find? (fun symbol => symbol.text.isPrefixOf text') = some symbol := by
  obtain ⟨-, before, after, split, earlier⟩ := List.find?_eq_some_iff_append.mp found
  refine List.find?_eq_some_iff_append.mpr
    ⟨List.isPrefixOf_iff_prefix.mpr leads, before, after, split, ?_⟩
  intro other member
  have absent := earlier other member
  simp only [Bool.not_eq_true', ← Bool.not_eq_true, List.isPrefixOf_iff_prefix] at absent ⊢
  intro leads'
  exact absent (loose other.text (solid_of_symbol other) leads')

theorem numericLength_loosened {operandExpected : Bool} {c : Char} {rest rest' : Text}
    (loose : Loosened (c :: rest) (c :: rest')) (zero : numericLength operandExpected c rest = 0) :
    numericLength operandExpected c rest' = 0 := by
  have longest := numberLength_loosened loose
  rw [numericLength] at zero ⊢
  split at zero
  · rename_i starts
    rw [if_pos starts]
    omega
  · rename_i other
    rw [if_neg other]

theorem numericLength_kept {operandExpected : Bool} {c : Char} {text rest rest' : Text}
    (loose : Loosened rest rest')
    (length : numericLength operandExpected c (text ++ rest) = text.length + 1) :
    numericLength operandExpected c (text ++ rest') = text.length + 1 := by
  rw [numericLength] at length ⊢
  split at length
  · rename_i starts
    rw [if_pos starts]
    exact numberLength_kept loose (List.cons_ne_nil c text) length
  · cases length

theorem readLexeme_loosened {operandExpected : Bool} {c : Char} {text rest rest' : Text}
    {lexeme : Lexeme} (loose : Loosened rest rest')
    (read : readLexeme operandExpected c (text ++ rest) = .ok (lexeme, text.length + 1)) :
    readLexeme operandExpected c (text ++ rest') = .ok (lexeme, text.length + 1) := by
  have longer : Loosened (c :: (text ++ rest)) (c :: (text ++ rest')) := loose.append (c :: text)
  have whole (more : Text) : (c :: (text ++ more)).take (text.length + 1) = c :: text := by simp
  rw [readLexeme_iff] at read ⊢
  cases read with
  | string quote found => exact .string quote (readQuoted?_loosened loose found)
  | number bare length nonzero =>
      have number := LexemeAt.number bare (numericLength_kept loose length) nonzero
      rw [whole] at number ⊢
      exact number
  | identifier bare zero start length =>
      have kept : ((c :: text ++ rest').takeWhile isIdentifierPart).length = (c :: text).length :=
        takeWhile_kept loose (fun d part => (isIdentifierPart_apart part).1) length
      exact .identifier bare (numericLength_loosened longer zero) start kept
  | @operator symbol _ bare zero other found length =>
      have taken := List.find?_some found
      rw [List.isPrefixOf_iff_prefix] at taken
      have same : symbol.text = c :: text := by
        rw [List.prefix_iff_eq_take.mp taken, length, whole]
      have leads : symbol.text <+: c :: (text ++ rest') := by
        rw [same]
        exact List.prefix_append (c :: text) rest'
      have found' := find?_loosened longer found leads
      exact .operator bare (numericLength_loosened longer zero) other found' length

theorem Lexed.behind_blanks {blanks : Text} (blank : ∀ c ∈ blanks, isBlank c = true)
    {position : Nat} {before : Option Lexeme} {text : Text} {tokens : List Token}
    (later : Lexed (position + blanks.length) before text tokens) :
    Lexed position before (blanks ++ text) tokens := by
  induction blanks generalizing position with
  | nil => exact later
  | cons c blanks ih =>
      rw [List.forall_mem_cons] at blank
      rw [List.length_cons, Nat.add_comm blanks.length, ← Nat.add_assoc] at later
      exact .blank blank.1 (ih blank.2 later)

theorem readFrom_of_lexed {position : Nat} {before : Option Lexeme} {text : Text}
    {tokens : List Token} (lexed : Lexed position before text tokens) :
    readFrom position before 0 text = .ok tokens := by
  induction lexed with
  | finish => rw [readFrom]
  | @blank position before c rest tokens blank later ih =>
      have passed : readFrom position before 0 ([c] ++ rest) =
          readFrom (position + [c].length) before 0 rest :=
        readFrom_blanks (by simpa using blank) position rest
      exact passed.trans ih
  | token solid read later ih =>
      rw [readFrom_lexeme solid read, ih]
      rfl

section

variable {gaps : Nat → Text} (blank : ∀ position, ∀ c ∈ gaps position, isBlank c = true)

include blank

theorem lexed_spread {position : Nat} {before : Option Lexeme} {text : Text} {tokens : List Token}
    (lexed : Lexed position before text tokens)
    (apart : ∀ token ∈ tokens, ∀ i, token.start < i → i < token.stop → gaps i = []) :
    Lexed (position + room gaps position) before (spread gaps position text)
      (tokens.map (placed (shifted gaps))) := by
  induction lexed with
  | @finish position before =>
      rw [spread, ← List.append_nil (gaps position)]
      refine .behind_blanks (blank position) ?_
      rw [shifted_eq]
      exact .finish
  | @blank position before c rest tokens space later ih =>
      rw [spread]
      refine .behind_blanks (blank position) ?_
      have behind := ih apart
      rw [Nat.add_right_comm] at behind
      rw [shifted_eq]
      exact .blank space behind
  | @token position before lexeme c text rest tokens solid read later ih =>
      rw [List.forall_mem_cons] at apart
      obtain ⟨inside, apart⟩ := apart
      have stop : position + (c :: text).length = position + 1 + text.length := by
        rw [List.length_cons, Nat.add_comm text.length, Nat.add_assoc]
      have gapless : ∀ i, position + 1 ≤ i → i < position + 1 + text.length → gaps i = [] := by
        intro i after within
        rw [← stop] at within
        exact inside i after within
      have behind := ih apart
      have place : position + 1 + text.length + room gaps (position + 1 + text.length) =
          shifted gaps position + (c :: text).length := by
        rw [room_add gapless, shifted, List.length_cons]
        omega
      rw [stop, place] at behind
      have loose := loosened_spread blank (position + 1 + text.length) rest
      rw [spread, spread_append rest gapless]
      refine .behind_blanks (blank position) ?_
      rw [shifted_eq]
      exact .token solid (readLexeme_loosened loose read) behind

end

end Token

namespace Expr

theorem agree_eq_mapError {place : Nat → Nat} {α : Type} {first second : Except ExprError α}
    (agree : Agree place (· = ·) first second) :
    second = first.mapError fun error => { error with position := place error.position } := by
  cases agree with
  | ok same =>
      rw [same]
      rfl
  | error => rfl

/-- Where blanks are put between the tokens of a source, its tokens are the same and move. So the
expression is the same, or the message, at a position that moves. -/
theorem parse_spread (source : Text) (tokens : List Token) (gaps : Nat → Text)
    (read : Token.readAll source = .ok tokens)
    (blank : ∀ position, (gaps position).allBlank = true)
    (apart : ∀ token ∈ tokens, ∀ position, token.start < position → position < token.stop →
      gaps position = []) :
    Token.readAll (Text.spread gaps 0 source) =
      .ok (tokens.map (Token.placed (Text.shifted gaps))) ∧
    parse (Text.spread gaps 0 source) = (parse source).mapError fun error =>
      { error with position := Text.shifted gaps error.position } := by
  have blanks : ∀ position, ∀ c ∈ gaps position, Text.isBlank c = true :=
    fun position => List.all_eq_true.mp (blank position)
  have lexed := Token.lexed_of_readAll read
  have moved : Token.readAll (Text.spread gaps 0 source) =
      .ok (tokens.map (Token.placed (Text.shifted gaps))) :=
    Token.readFrom_of_lexed (Token.lexed_spread blanks lexed apart)
  refine ⟨moved, ?_⟩
  obtain ⟨front, whole, -⟩ := (Token.laid_of_lexed lexed).last
  have alike : Alike (Text.shifted gaps) [] front.length tokens
      (tokens.map (Token.placed (Text.shifted gaps)) ++ []) := by
    rw [whole]
    exact alike_placed front [] _
  rw [List.append_nil] at alike
  have parsed : parse source = ofTokens tokens := by
    rw [parse, read]
    rfl
  have parsed' : parse (Text.spread gaps 0 source) =
      ofTokens (tokens.map (Token.placed (Text.shifted gaps))) := by
    rw [parse, moved]
    rfl
  rw [parsed, parsed']
  exact agree_eq_mapError (ofTokens_agree alike)

/-- A comparison, with a blank on either side of its operator. -/
theorem parse_spread_comparison :
    let gaps (position : Nat) : Text := if position = 1 ∨ position = 3 then [' '] else []
    let tokens : List Token := [⟨.number (.int 1), ['1'], 0⟩, ⟨.operator .le, ['<', '='], 1⟩,
      ⟨.identifier, ['x'], 3⟩, ⟨.finish, [], 4⟩]
    Token.readAll ['1', '<', '=', 'x'] = .ok tokens ∧
    (∀ position, (gaps position).allBlank = true) ∧
    (∀ token ∈ tokens, ∀ position, token.start < position → position < token.stop →
      gaps position = []) ∧
    Text.spread gaps 0 ['1', '<', '=', 'x'] = ['1', ' ', '<', '=', ' ', 'x'] ∧
    Token.readAll ['1', ' ', '<', '=', ' ', 'x'] =
      .ok [⟨.number (.int 1), ['1'], 0⟩, ⟨.operator .le, ['<', '='], 2⟩, ⟨.identifier, ['x'], 5⟩,
        ⟨.finish, [], 6⟩] ∧
    parse ['1', ' ', '<', '=', ' ', 'x'] = (parse ['1', '<', '=', 'x']).mapError fun error =>
      { error with position := Text.shifted gaps error.position } := by
  intro gaps tokens
  have read : Token.readAll ['1', '<', '=', 'x'] = .ok tokens := by rfl
  have blank (position : Nat) : (gaps position).allBlank = true := by
    dsimp only [gaps]
    split <;> rfl
  have apart : ∀ token ∈ tokens, ∀ position, token.start < position → position < token.stop →
      gaps position = [] := by
    intro token member position after before
    dsimp only [gaps]
    refine if_neg ?_
    simp only [tokens, List.mem_cons, List.not_mem_nil, or_false] at member
    rcases member with rfl | rfl | rfl | rfl <;> simp [Token.stop] at after before <;> omega
  obtain ⟨moved, parsed⟩ := parse_spread ['1', '<', '=', 'x'] tokens gaps read blank apart
  exact ⟨read, blank, apart, rfl, moved, parsed⟩

end Expr

end Flowfile
