import Flowfile.Expr.Template

/-! What an evaluation depends on its context by: the answers to the paths that it asks for, and
nothing else. -/

namespace Flowfile

namespace Traced

variable {α β : Type}

/-- A context that gives the same answers to what is asked for makes no difference. -/
def Local (run : Resolver → Traced α) : Prop :=
  ∀ resolve other : Resolver, (∀ path ∈ (run resolve).asked, other path = resolve path) →
    run other = run resolve

theorem local_const (outcome : Traced α) : Local fun _ => outcome := fun _ _ _ => rfl

theorem local_ask (path : Text) : Local fun resolve => ask resolve path := by
  intro resolve other agree
  have same := agree path List.mem_cons_self
  simp only [ask, same]

theorem bind_ok {first : Traced α} {a : α} (done : first.result = .ok a)
    (next : α → Traced β) :
    first >>= next = ⟨first.asked ++ (next a).asked, (next a).result⟩ := by
  obtain ⟨asked, result⟩ := first
  cases done
  rfl

theorem bind_error {first : Traced α} {error : EvalError} (failed : first.result = .error error)
    (next : α → Traced β) : first >>= next = ⟨first.asked, .error error⟩ := by
  obtain ⟨asked, result⟩ := first
  cases failed
  rfl

theorem local_bind {first : Resolver → Traced α} {next : α → Resolver → Traced β}
    (begins : Local first) (goes : ∀ a, Local (next a)) :
    Local fun resolve => first resolve >>= fun a => next a resolve := by
  intro resolve other agree
  dsimp only at agree ⊢
  rcases done : (first resolve).result with error | a
  · rw [bind_error done] at agree
    rw [begins resolve other agree, bind_error done, bind_error done]
  · rw [bind_ok done] at agree
    have same := begins resolve other fun path member => agree path (List.mem_append_left _ member)
    have rest := goes a resolve other fun path member => agree path (List.mem_append_right _ member)
    rw [same, bind_ok done, bind_ok done, rest]

end Traced

namespace Expr

open Traced

mutual

theorem evaluate_local : (e : Expr) → Local fun resolve => evaluate resolve e
  | .literal value => local_const _
  | .context name => local_ask name
  | .property target name => by
      simp only [evaluate]
      refine local_bind (local_const _) fun static => ?_
      cases static with
      | some path => exact local_ask _
      | none => exact local_bind (evaluate_local target) fun value => local_const _
  | .index target key => by
      simp only [evaluate]
      refine local_bind (local_const _) fun static => ?_
      cases static with
      | some path => exact local_ask _
      | none =>
          refine local_bind (evaluate_local target) fun value => ?_
          exact local_bind (evaluate_local key) fun keyValue => local_const _
  | .not operand => by
      simp only [evaluate]
      exact local_bind (evaluate_local operand) fun value => local_const _
  | .binary .and left right => by
      simp only [evaluate]
      refine local_bind (evaluate_local left) fun value => ?_
      refine local_bind (local_const _) fun holds => ?_
      cases holds with
      | true => exact evaluate_local right
      | false => exact local_const _
  | .binary .or left right => by
      simp only [evaluate]
      refine local_bind (evaluate_local left) fun value => ?_
      refine local_bind (local_const _) fun holds => ?_
      cases holds with
      | true => exact local_const _
      | false => exact evaluate_local right
  | .binary .eq left right | .binary .ne left right | .binary .lt left right
  | .binary .le left right | .binary .gt left right | .binary .ge left right => by
      simp only [evaluate]
      refine local_bind (evaluate_local left) fun leftValue => ?_
      exact local_bind (evaluate_local right) fun rightValue => local_const _
  | .call function args => by
      simp only [evaluate]
      exact local_bind (evaluateAll_local args) fun values => local_const _

theorem evaluateAll_local : (es : List Expr) → Local fun resolve => evaluateAll resolve es
  | [] => local_const _
  | e :: es => by
      simp only [evaluateAll]
      refine local_bind (evaluate_local e) fun value => ?_
      exact local_bind (evaluateAll_local es) fun values => local_const _

end

theorem evaluateSource_local (source : Text) :
    Local fun resolve => evaluateSource resolve source := by
  simp only [evaluateSource]
  split
  · exact evaluate_local _
  · exact local_const _

end Expr

namespace Template

open Traced

theorem splice_local (text : Text) (cursor : Nat) (spans : List Span) :
    Local fun resolve => splice resolve text cursor spans := by
  induction spans generalizing cursor with
  | nil => exact local_const _
  | cons span rest ih =>
      simp only [splice]
      refine local_bind (Expr.evaluateSource_local span.source) fun value => ?_
      exact local_bind (ih span.stop) fun after => local_const _

theorem evaluate_local (text : Text) : Local fun resolve => evaluate resolve text := by
  have splicing : Local fun resolve => splice resolve text 0 (closedSpans text) >>=
      fun spliced => Traced.pure (Value.str spliced) :=
    local_bind (splice_local text 0 _) fun spliced => local_const _
  simp only [evaluate]
  split
  · split
    · exact Expr.evaluateSource_local _
    · exact splicing
  · exact splicing

end Template

end Flowfile
