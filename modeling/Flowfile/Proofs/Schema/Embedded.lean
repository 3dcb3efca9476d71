import Flowfile.Proofs.Expr.Scanning
import Flowfile.Proofs.Schema.Acceptance
import Flowfile.Proofs.Tree.Contents

/-! Problems with embedded expressions.

A validation reports them after all others and whatever the schema is: one for each expression that
is not closed or that the parser rejects, in the order in which they stand in the tree. -/

namespace Flowfile

namespace Span

inductive Complaint (span : Span) : Text → Prop
  | unclosed (opened : span.closed = false) :
      Complaint span (Text.of "Expression is missing its closing '\x7d\x7d'")
  | rejected {error : ExprError} (closed : span.closed = true)
      (failed : Expr.parse span.source = .error error) :
      Complaint span (Text.of "Invalid expression: " ++ error.message)

end Span

namespace Node

def spans : Node → List Span
  | .scalar _ _ raw _ _ => Template.spans raw
  | _ => []

end Node

namespace Validation

def textProblems : Node → List Diagnostic
  | .scalar info _ raw _ style => checkSpans info raw style
  | _ => []

mutual

theorem checkExpressions_eq (node : Node) :
    checkExpressions node = node.nodes.flatMap textProblems := by
  cases node with
  | scalar info anchor raw value style =>
      rw [checkExpressions, Node.nodes, List.flatMap_singleton]
      rfl
  | map info anchor flow pairs =>
      rw [checkExpressions, Node.nodes, List.flatMap_cons, checkPairs_eq pairs]
      rfl
  | sequence info anchor flow items =>
      rw [checkExpressions, Node.nodes, List.flatMap_cons, checkItems_eq items]
      rfl
  | «alias» info name target => rw [checkExpressions]; rfl

theorem checkPairs_eq (pairs : List (Node × Node)) :
    checkPairs pairs = (Node.pairNodes pairs).flatMap textProblems := by
  match pairs with
  | [] => rfl
  | (key, value) :: rest =>
      rw [checkPairs, Node.pairNodes, List.flatMap_append, List.flatMap_append, List.append_assoc,
        checkExpressions_eq key, checkExpressions_eq value, checkPairs_eq rest]

theorem checkItems_eq (items : List Node) :
    checkItems items = (Node.itemNodes items).flatMap textProblems := by
  match items with
  | [] => rfl
  | item :: rest =>
      rw [checkItems, Node.itemNodes, List.flatMap_append, checkExpressions_eq item,
        checkItems_eq rest]

end

end Validation

end Flowfile
