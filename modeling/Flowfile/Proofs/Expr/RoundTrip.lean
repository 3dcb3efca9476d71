import Flowfile.Proofs.Expr.Printing

/-! Expressions that come out of parsing, printed and parsed again. -/

namespace Flowfile

namespace Expr

open Grammar

theorem word?_eq_name {token : Token} {name : Text} (word : word? token = some (.name name)) :
    token.lexeme = .identifier ∧ token.text = name := by
  obtain ⟨lexeme, text, start⟩ := token
  cases lexeme with
  | identifier => exact ⟨rfl, by simpa [word?] using word⟩
  | _ => cases word

theorem parse_formed {source : Text} {e : Expr} (parsed : parse source = .ok e) :
    e.Formed IsIdentifier := by
  obtain ⟨tokens, used, rest, p, read, whole, spelled, rfl⟩ := exists_phrase_of_parse parsed
  refine phrase_formed p ?_
  intro name member
  have among : some (.name name) ∈ used.map word? := by
    rw [spelled]
    exact List.mem_map_of_mem member
  obtain ⟨token, present, word⟩ := List.mem_map.mp among
  obtain ⟨lexeme, rfl⟩ := word?_eq_name word
  have all : token ∈ tokens := by
    rw [whole]
    exact List.mem_append_left rest present
  exact identifiers_of_readFrom read token all lexeme

/-- An expression whose names are identifiers and whose literals are plain is parsed back from what
is printed. Of one that was parsed from some source only the literals have to be plain. -/
theorem parse_print :
    (∀ e : Expr, e.WellFormed IsIdentifier IsPlain → parse (print e) = .ok e) ∧
    (∀ source e, parse source = .ok e → (∀ value ∈ e.literals, IsPlain value) →
      parse (print e) = .ok e) := by
  have printed (e : Expr) (formed : e.WellFormed IsIdentifier IsPlain) :
      parse (print e) = .ok e :=
    parse_of_printed (printed_of_wellFormed formed)
  refine ⟨printed, ?_⟩
  intro source e parsed plain
  exact printed e (wellFormed_of_literals (parse_formed parsed) plain)

/-- A function under its own name, a name and a number with a dash, and a text with a quote. -/
theorem parse_print_dashes :
    let source := Text.of "!Always() || x-1['it''s'] < -5"
    let item : Expr := .index (.context (Text.of "x-1")) (.literal (.str (Text.of "it's")))
    let e : Expr :=
      .binary .or (.not (.call .always [])) (.binary .lt item (.literal (.number (.int (-5)))))
    print e = Text.of "((!(always()))||(((x-1)[('it''s')])<(-5)))" ∧
      item.WellFormed IsIdentifier IsPlain ∧ parse (print item) = .ok item ∧
      parse source = .ok e ∧ (∀ value ∈ e.literals, IsPlain value) ∧
      parse (print e) = .ok e := by
  intro source item e
  have read : (Token.readAll source).toOption = some [
      ⟨.operator .not, ['!'], 0⟩, ⟨.identifier, Text.of "Always", 1⟩,
      ⟨.operator .openParen, ['('], 7⟩, ⟨.operator .closeParen, [')'], 8⟩,
      ⟨.operator .or, ['|', '|'], 10⟩, ⟨.identifier, Text.of "x-1", 13⟩,
      ⟨.operator .openBracket, ['['], 16⟩,
      ⟨.string (Text.of "it's"), Text.of "'it''s'", 17⟩,
      ⟨.operator .closeBracket, [']'], 24⟩, ⟨.operator .lt, ['<'], 26⟩,
      ⟨.number (.int (-5)), ['-', '5'], 28⟩, ⟨.finish, [], 30⟩] := by decide +kernel
  have parsed : parse source = .ok e := by
    rw [parse]
    cases outcome : Token.readAll source with
    | error problem =>
        rw [outcome] at read
        cases read
    | ok tokens =>
        rw [outcome] at read
        cases read
        rfl
  have plain : ∀ value ∈ e.literals, IsPlain value := by
    intro value written
    rcases List.mem_cons.mp written with rfl | later
    · trivial
    · obtain rfl := List.mem_singleton.mp later
      change _ ≤ _
      decide
  have free (value : Value) : (Text.of "x-1", value) ∉ constants := by
    simp [constants, Text.of]
  have identifier : IsIdentifier (Text.of "x-1") := isIdentifier_of_all (by decide) (by decide)
  have formed : item.WellFormed IsIdentifier IsPlain :=
    .index (.context identifier free) (.literal trivial)
  exact ⟨rfl, formed, parse_print.1 item formed, parsed, plain, parse_print.2 source e parsed plain⟩

end Expr

end Flowfile
