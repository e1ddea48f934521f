import MetricBridge.Decimal.Layout
import MetricBridge.Json.Basic
import MetricBridge.Text.Printable

namespace MetricBridge.Json

mutual

def inspect : Json → Text
  | .null => "None"
  | .bool true => "True"
  | .bool false => "False"
  | .int n => Text.ofInt n
  | .float x => Text.ofFloat x
  | .string t => t.inSingleQuotes
  | .array items => .scalar '[' :: inspectItems items ++ [.scalar ']']
  | .object fields => .scalar '{' :: inspectFields fields ++ [.scalar '}']
termination_by structural j => j

def inspectItems : List Json → Text
  | [] => []
  | item :: items =>
    inspect item ++ (if items.isEmpty then [] else lit ", ") ++ inspectItems items
termination_by structural items => items

def inspectFields : List (Text × Json) → Text
  | [] => []
  | (name, value) :: fields =>
    name.inSingleQuotes ++ lit ": " ++ inspect value ++
      (if fields.isEmpty then [] else lit ", ") ++ inspectFields fields
termination_by structural fields => fields

end

/-- The value as text: a text is itself, any other value is inspected. -/
def plain : Json → Text
  | .string t => t
  | j => j.inspect

end MetricBridge.Json
