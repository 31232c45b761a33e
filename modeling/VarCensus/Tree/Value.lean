import VarCensus.Tree
import VarCensus.Kind

/-!
# Values in a syntax tree

The kind and the text of an initial value. Parentheses around a single expression do not count, and the
text of a template string is what stands between its backticks, with a placeholder for each expression.
-/

namespace VarCensus

/-- What a template string shows in the place of an expression. -/
def templatePlaceholder : String :=
  "$\x7b...\x7d"

namespace Tree

/-- The stretches of a template string between its expressions, from position `pos` to `stop`. -/
def segmentsFrom (src : Source) (stop pos : Nat) : List Tree → List String
  | [] => [src.slice pos (max stop pos)]
  | tree :: more =>
    if tree.label.named && tree.label.kind == "template_substitution" then
      src.slice pos tree.label.start :: segmentsFrom src stop tree.label.stop more
    else segmentsFrom src stop pos more

/-- The stretches of a template string between its expressions, the backticks left out. -/
def templateSegments (src : Source) (tree : Tree) : List String :=
  segmentsFrom src (tree.label.stop - 1) (tree.label.start + 1) tree.children

/-- Whether a node is a function expression. -/
def isFunctionKind (kind : String) : Bool :=
  kind == "arrow_function" || kind == "function_expression" || kind == "function" ||
    kind == "generator_function"

/-- Whether a child counts as an expression inside parentheses. -/
def isOperand (tree : Tree) : Bool :=
  tree.label.named && tree.label.kind != "comment"

mutual

/-- The kind and the text of a value. -/
def valueOf (src : Source) : Tree → Kind × String
  | .node label children =>
    let text := label.text src
    if label.kind == "string" then (.string, text)
    else if label.kind == "number" then (.number, text)
    else if label.kind == "true" then (.boolean, "true")
    else if label.kind == "false" then (.boolean, "false")
    else if label.kind == "array" then (.array, text)
    else if label.kind == "object" then (.object, text)
    else if isFunctionKind label.kind then (.function, text)
    else if label.kind == "identifier" then (.reference, text)
    else if label.kind == "template_string" then
      (.templateString, templatePlaceholder.intercalate (templateSegments src (.node label children)))
    else if label.kind == "parenthesized_expression" then
      (soleValue? src children).getD (.unknown, text)
    else (.unknown, text)

/-- The kind and the text of the only expression among some children, if there is just one. -/
def soleValue? (src : Source) : List Tree → Option (Kind × String)
  | [] => none
  | tree :: more =>
    if isOperand tree then if more.any isOperand then none else some (valueOf src tree)
    else soleValue? src more

end

end Tree
end VarCensus
