import Expunge.Json.Token

/-!
# JSON documents

Tokens are put together to a tree by a machine with a stack of open arrays and objects. Every text
has a tree. Where the text stops being JSON, the arrays that are open there keep the items before
that place and end in `malformed`, so that a reader who refuses an earlier item does so for the
reason it finds there; an open object is malformed as a whole.
-/

namespace Expunge.Json

/-- An open array or object that waits for a value: the items or members before the value, in
reverse, and the name of the member it is the value of. -/
inductive Frame
  | item (reversed : List Json)
  | member (reversed : List (Option String × Json)) (name : Option String)

/-- What may come next: a value; a value or the end of an array just opened; a comma or the end of
an array; a name or the end of an object just opened; a name; a colon; a comma or the end of an
object; or nothing more. -/
inductive State
  | value (stack : List Frame)
  | firstItem (stack : List Frame)
  | afterItem (reversed : List Json) (stack : List Frame)
  | firstName (stack : List Frame)
  | name (reversed : List (Option String × Json)) (stack : List Frame)
  | colon (reversed : List (Option String × Json)) (name : Option String) (stack : List Frame)
  | afterMember (reversed : List (Option String × Json)) (stack : List Frame)
  | complete (root : Json)

namespace State

/-- A value put into the innermost open array or object. -/
def place (tree : Json) : List Frame → State
  | [] => .complete tree
  | .item reversed :: stack => .afterItem (tree :: reversed) stack
  | .member reversed key :: stack => .afterMember ((key, tree) :: reversed) stack

/-- The state after a token that starts or is a value; none if the token does neither. -/
def startValue (stack : List Frame) : Token → Option State
  | .openArray => some (.firstItem stack)
  | .openObject => some (.firstName stack)
  | .string text => some (place (.string text) stack)
  | .word tree => some (place tree stack)
  | _ => none

/-- The state after a token; none if the token may not come here. -/
def step : State → Token → Option State
  | .value stack, token => startValue stack token
  | .firstItem stack, .closeArray => some (place (.array []) stack)
  | .firstItem stack, token => startValue (.item [] :: stack) token
  | .afterItem reversed stack, .comma => some (.value (.item reversed :: stack))
  | .afterItem reversed stack, .closeArray => some (place (.array reversed.reverse) stack)
  | .firstName stack, .closeObject => some (place (.object []) stack)
  | .firstName stack, .string key => some (.colon [] key stack)
  | .name reversed stack, .string key => some (.colon reversed key stack)
  | .colon reversed key stack, .colon => some (.value (.member reversed key :: stack))
  | .afterMember reversed stack, .comma => some (.name reversed stack)
  | .afterMember reversed stack, .closeObject => some (place (.object reversed.reverse) stack)
  | _, _ => none

/-- The tree around a value after which the text stops being JSON. -/
def cutAround (tree : Json) : List Frame → Json
  | [] => tree
  | .item reversed :: stack => cutAround (.array (tree :: reversed).reverse) stack
  | .member _ _ :: stack => cutAround .malformed stack

/-- The tree of a text that stops being JSON in a state. -/
def cut : State → Json
  | .value stack => cutAround .malformed stack
  | .firstItem stack => cutAround (.array [.malformed]) stack
  | .afterItem reversed stack => cutAround (.array (.malformed :: reversed).reverse) stack
  | .firstName stack => cutAround .malformed stack
  | .name _ stack => cutAround .malformed stack
  | .colon _ _ stack => cutAround .malformed stack
  | .afterMember _ stack => cutAround .malformed stack
  | .complete root => root

end State

/-- A text as a tree, and whether anything but white space follows the text of the tree. -/
structure Document where
  root : Json
  trailing : Bool
deriving Repr

/-- The document that tokens form from a state on. -/
def documentFrom : State → List Token → Document
  | .complete root, tokens => ⟨root, !tokens.isEmpty⟩
  | state, [] => ⟨state.cut, false⟩
  | state, token :: rest =>
    match state.step token with
    | some next => documentFrom next rest
    | none => ⟨state.cut, false⟩

/-- The document of a text. -/
def Document.ofSymbols (text : List Text.Symbol) : Document :=
  documentFrom (.value []) (tokens text)

end Expunge.Json
