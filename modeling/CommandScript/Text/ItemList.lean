/-! Lists written as plain text, with a semicolon between two items. A semicolon inside square brackets, or behind a
backslash, is part of an item. -/

namespace CommandScript.Text.ItemList

/-- The items with a semicolon between any two. -/
def join (items : List String) : String := ";".intercalate items

/-- How deep a text stands in brackets behind one more character. A closing bracket that closes nothing counts for
nothing. -/
def depthAfter (depth : Nat) (c : Char) : Nat :=
  if c = '[' then depth + 1 else if c = ']' then depth - 1 else depth

/-- An item whose characters were all read, the last one first. An empty one counts only if such items are kept. -/
def finished (keepsEmpty : Bool) (pending : List Char) : List String :=
  if pending.isEmpty && !keepsEmpty then [] else [String.ofList pending.reverse]

/-- The items of a text, of which the first one was begun with `pending` and stands `depth` brackets deep. -/
def itemsFrom (keepsEmpty : Bool) (depth : Nat) (pending : List Char) : List Char → List String
  | [] => finished keepsEmpty pending
  | '\\' :: ';' :: cs => itemsFrom keepsEmpty depth (';' :: pending) cs
  | c :: cs =>
    if c = ';' ∧ depth = 0 then finished keepsEmpty pending ++ itemsFrom keepsEmpty 0 [] cs
    else itemsFrom keepsEmpty (depthAfter depth c) (c :: pending) cs

/-- All items of a list, empty ones too. -/
def splitAll (value : String) : List String := itemsFrom true 0 [] value.toList

/-- The items of a list that are not empty. -/
def split (value : String) : List String := itemsFrom false 0 [] value.toList

/-- Several values as one: a single one stays as it is, any other number is joined. -/
def flatten : List String → String
  | [value] => value
  | values => join values

end CommandScript.Text.ItemList
