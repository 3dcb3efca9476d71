import Flowfile.Proofs.Expr.Unambiguity

/-! What holds of the expression of every derivation, by the names among its words. -/

namespace Flowfile

namespace Expr

open Grammar

/-- Calls have as many arguments as their function takes, no context has the name of a constant,
and names and literals have the properties. -/
inductive WellFormed (names : Text → Prop) (values : Value → Prop) : Expr → Prop
  | literal {value : Value} (holds : values value) : WellFormed names values (.literal value)
  | context {name : Text} (named : names name) (free : ∀ value, (name, value) ∉ constants) :
      WellFormed names values (.context name)
  | property {target : Expr} {name : Text} (inner : WellFormed names values target)
      (named : names name) : WellFormed names values (.property target name)
  | index {target key : Expr} (inner : WellFormed names values target)
      (computed : WellFormed names values key) : WellFormed names values (.index target key)
  | not {operand : Expr} (inner : WellFormed names values operand) :
      WellFormed names values (.not operand)
  | binary {op : BinaryOp} {left right : Expr} (first : WellFormed names values left)
      (second : WellFormed names values right) : WellFormed names values (.binary op left right)
  | call {function : Function} {args : List Expr} (fits : function.admits args.length = true)
      (inner : ∀ arg ∈ args, WellFormed names values arg) :
      WellFormed names values (.call function args)

mutual

def literals : Expr → List Value
  | .literal value => [value]
  | .context _ => []
  | .property target _ => literals target
  | .index target key => literals target ++ literals key
  | .not operand => literals operand
  | .binary _ left right => literals left ++ literals right
  | .call _ args => literalsOfArgs args

def literalsOfArgs : List Expr → List Value
  | [] => []
  | first :: rest => literals first ++ literalsOfArgs rest

end

theorem literals_subset_of_mem {args : List Expr} {arg : Expr} (member : arg ∈ args) :
    literals arg ⊆ literalsOfArgs args := by
  induction args with
  | nil => cases member
  | cons first rest ih =>
      rw [literalsOfArgs]
      rcases List.mem_cons.mp member with rfl | later
      · exact List.subset_append_left _ _
      · exact List.subset_append_of_subset_right _ (ih later)

variable {names : Text → Prop} {values values' : Value → Prop}

theorem wellFormed_of_literals {e : Expr} (formed : WellFormed names values e)
    (holds : ∀ value ∈ e.literals, values' value) : WellFormed names values' e := by
  induction formed with
  | literal _ => exact .literal (holds _ (by simp [literals]))
  | context named free => exact .context named free
  | property _ named ih => exact .property (ih holds) named
  | index _ _ ih ih' =>
      rw [literals, List.forall_mem_append] at holds
      exact .index (ih holds.1) (ih' holds.2)
  | not _ ih => exact .not (ih holds)
  | binary _ _ ih ih' =>
      rw [literals, List.forall_mem_append] at holds
      exact .binary (ih holds.1) (ih' holds.2)
  | call fits _ ih =>
      refine .call fits fun arg member => ih arg member ?_
      intro value written
      exact holds value (literals_subset_of_mem member written)

def Named (names : Text → Prop) (words : List Word) : Prop :=
  ∀ name, .name name ∈ words → names name

abbrev Formed (names : Text → Prop) : Expr → Prop := WellFormed names fun _ => True

section

variable {word : Word} {front back : List Word}

theorem named_cons (named : Named names (word :: back)) : Named names back :=
  fun name member => named name (List.mem_cons_of_mem _ member)

theorem named_append (named : Named names (front ++ back)) :
    Named names front ∧ Named names back :=
  ⟨fun name member => named name (List.mem_append_left _ member),
    fun name member => named name (List.mem_append_right _ member)⟩

end

mutual

theorem phrase_formed {levels : List (List BinaryOp)} :
    (p : Phrase levels) → Named names p.words → p.expr.Formed names
  | .chain first more, named =>
      have parts := named_append named
      operands_formed more parts.2 first.expr (phrase_formed first parts.1)
  | .not operand, named => .not (phrase_formed operand (named_cons named))
  | .access head steps, named =>
      have parts := named_append named
      accessors_formed steps parts.2 head.expr (primary_formed head parts.1)
termination_by structural p => p

theorem operands_formed {level : List BinaryOp} {tighter : List (List BinaryOp)} :
    (p : Operands level tighter) → Named names p.words → (left : Expr) → left.Formed names →
      (p.applyTo left).Formed names
  | .done, _, _, formed => formed
  | .more op _ operand rest, named, left, formed =>
      have parts := named_append (named_cons named)
      operands_formed rest parts.2 (.binary op left operand.expr)
        (.binary formed (phrase_formed operand parts.1))
termination_by structural p => p

theorem primary_formed : (p : Primary) → Named names p.words → p.expr.Formed names
  | .number _, _ | .string _, _ | .constant _ _ _, _ => .literal trivial
  | .context name free, named => .context (named name List.mem_cons_self) free
  | .call name function _ least greatest args, named => by
      have inner := named_append (named_cons (named_cons named))
      refine .call ?_ (arguments_formed args inner.1)
      rw [args.exprs_length]
      exact (Function.admits_iff _ _).mpr ⟨least, greatest⟩
  | .group inner, named => phrase_formed inner (named_append (named_cons named)).1
termination_by structural p => p

theorem accessors_formed : (p : Accessors) → Named names p.words → (target : Expr) →
    target.Formed names → (p.applyTo target).Formed names
  | .done, _, _, formed => formed
  | .property name rest, named, target, formed =>
      have later := named_cons named
      accessors_formed rest (named_cons later) (.property target name)
        (.property formed (later name List.mem_cons_self))
  | .index key rest, named, target, formed =>
      have parts := named_append (named_cons named)
      accessors_formed rest (named_cons parts.2) (.index target key.expr)
        (.index formed (phrase_formed key parts.1))
termination_by structural p => p

theorem arguments_formed {count : Nat} :
    (p : Arguments count) → Named names p.words → ∀ arg ∈ p.exprs, arg.Formed names
  | .none, _ => by
      intro arg member
      cases member
  | .some first rest, named => by
      have parts := named_append named
      intro arg member
      rcases List.mem_cons.mp member with rfl | member
      · exact phrase_formed first parts.1
      · exact moreArguments_formed rest parts.2 arg member
termination_by structural p => p

theorem moreArguments_formed {count : Nat} :
    (p : MoreArguments count) → Named names p.words → ∀ arg ∈ p.exprs, arg.Formed names
  | .done, _ => by
      intro arg member
      cases member
  | .more next rest, named => by
      have parts := named_append (named_cons named)
      intro arg member
      rcases List.mem_cons.mp member with rfl | member
      · exact phrase_formed next parts.1
      · exact moreArguments_formed rest parts.2 arg member
termination_by structural p => p

end

theorem exists_phrase_of_parse {source : Text} {e : Expr} (parsed : parse source = .ok e) :
    ∃ (tokens used rest : List Token) (p : Phrase BinaryOp.levels),
      Token.readAll source = .ok tokens ∧ tokens = used ++ rest ∧ p.SpelledBy used ∧
      p.expr = e := by
  obtain ⟨tokens, read, accepted⟩ := (bind_eq_ok _ _ e).mp parsed
  have several : ∀ text start, tokens ≠ [⟨.finish, text, start⟩] := by
    intro text start only
    rw [only] at accepted
    cases accepted
  obtain ⟨token, more, head, -⟩ := (ofTokens_eq_ok tokens e several).mp accepted
  obtain ⟨p, rfl, spelled⟩ := (sound_within _).phrase _ _ e _ head
  obtain ⟨used, whole, same⟩ := (spells_iff _ _ _).mp spelled
  exact ⟨tokens, used, _, p, read, whole, same, rfl⟩

end Expr

end Flowfile
