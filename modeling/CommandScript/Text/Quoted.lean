/-! Values as they are shown to a reader: between double quotes, or, where space is short and the value is long, by
their length. -/

namespace CommandScript.Text

/-- A character of a value between quotes. Only a backslash, a quote and a line feed need another form. -/
def quoteChar (c : Char) : List Char :=
  if c = '\\' then ['\\', '\\']
  else if c = '"' then ['\\', '"']
  else if c = '\n' then ['\\', 'n']
  else [c]

def quoteValue (cs : List Char) : List Char := '"' :: (cs.flatMap quoteChar ++ ['"'])

def showValue (value : String) : String := String.ofList (quoteValue value.toList)

/-- The longest value that is shown in full where space is short. -/
def longestShown : Nat := 24

def showValueShort (value : String) : String :=
  if longestShown < value.length then "≪string:" ++ toString value.length ++ "≫" else showValue value

/-- Values in square brackets. -/
def showValues (values : List String) : String :=
  "[" ++ " ".intercalate (values.map showValue) ++ "]"

end CommandScript.Text
