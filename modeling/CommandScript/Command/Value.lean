import CommandScript.Text.Literal

/-! What a function gives back, and the results of the command it implements. -/

namespace CommandScript.Command

open Text

inductive Value where
  | nothing
  | flag (value : Bool)
  | number (value : Int)
  | text (value : String)
  | list (values : List Value)

namespace Value

mutual

/-- A value inside a list. -/
def renderItem : Value → String
  | nothing => "None"
  | flag true => "True"
  | flag false => "False"
  | number n => toString n
  | text s => literal s
  | list values => "[" ++ ", ".intercalate (renderItems values) ++ "]"

def renderItems : List Value → List String
  | [] => []
  | value :: values => renderItem value :: renderItems values

end

/-- A value as a text: a text is itself. -/
def render : Value → String
  | text s => s
  | value => renderItem value

/-- Nothing gives no result, a list gives one for each of its values, and anything else gives one. -/
def results : Value → List String
  | nothing => []
  | list values => values.map render
  | value => [render value]

end Value

end CommandScript.Command
