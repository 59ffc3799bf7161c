import Expunge.Json.Decode

/-!
# Refused documents

A document is refused because it has not the shape that its reader asks for, or because an entry of
a deletion queue breaks one of the rules about what it has to say. Of several faults the first one
in the order of the document counts.
-/

namespace Expunge

/-- The rules about the identifier and the type of a queue entry. -/
inductive EntryRule
  /-- A composite match names at least one column. -/
  | someColumn
  /-- An entry of composite type gives a list. -/
  | compositeList
  /-- An entry of simple type gives a single value. -/
  | simpleValue
deriving DecidableEq, Repr

namespace EntryRule

/-- The text that reports a breach of a rule. -/
def message : EntryRule → String
  | someColumn => "composite match must name at least one column"
  | compositeList => "composite match must provide a list of column values"
  | simpleValue => "simple match must provide a single value"

end EntryRule

/-- Why a document is refused. -/
inductive Refusal
  | shape
  | entry (rule : EntryRule)
deriving DecidableEq, Repr

namespace Refusal

/-- The text of a refusal, for those that the rules of queue entries cause. -/
def message? : Refusal → Option String
  | shape => none
  | entry rule => some rule.message

/-- The refusal of a value that has not the shape asked for. -/
def unlessSome {α : Type} : Option α → Except Refusal α
  | some value => .ok value
  | none => .error .shape

end Refusal

/-- Reads a document that nothing follows. -/
def Json.Document.read {α : Type} (decode : Json → Except Refusal α) (document : Json.Document) :
    Except Refusal α := do
  let value ← decode document.root
  if document.trailing then .error .shape else .ok value

/-- Reads a document whose reader knows shapes only. -/
def Json.Document.readShape {α : Type} (decode? : Json → Option α) (document : Json.Document) :
    Except Refusal α :=
  document.read fun value => Refusal.unlessSome (decode? value)

end Expunge
