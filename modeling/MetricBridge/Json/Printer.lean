import MetricBridge.Decimal.Layout
import MetricBridge.Json.Basic
import MetricBridge.Text.Quoted

namespace MetricBridge.Json

def floatText (x : Float) : Text := NumberLayout.json.float Binary.shortest x

mutual

def print : Json → Text
  | .null => "null"
  | .bool true => "true"
  | .bool false => "false"
  | .int n => Text.ofInt n
  | .float x => floatText x
  | .string t => t.quote
  | .array items => .scalar '[' :: printItems items ++ [.scalar ']']
  | .object fields => .scalar '{' :: printFields fields ++ [.scalar '}']
termination_by structural j => j

def printItems : List Json → Text
  | [] => []
  | item :: items =>
    print item ++ (if items.isEmpty then [] else lit ", ") ++ printItems items
termination_by structural items => items

def printFields : List (Text × Json) → Text
  | [] => []
  | (name, value) :: fields =>
    name.quote ++ lit ": " ++ print value ++ (if fields.isEmpty then [] else lit ", ") ++
      printFields fields
termination_by structural fields => fields

end

def newLine (level : Nat) : Text := .scalar '\n' :: List.replicate (2 * level) (.scalar ' ')

mutual

/-- The value with each item and field on a line of its own, other alphabets left as they are. -/
def printIndented (level : Nat) : Json → Text
  | .null => "null"
  | .bool true => "true"
  | .bool false => "false"
  | .int n => Text.ofInt n
  | .float x => floatText x
  | .string t => t.quotePlain
  | .array [] => "[]"
  | .array (item :: items) =>
    .scalar '[' :: newLine (level + 1) ++ printIndented (level + 1) item ++
      indentedItems (level + 1) items ++ newLine level ++ [.scalar ']']
  | .object [] => "\x7b\x7d"
  | .object ((name, value) :: fields) =>
    .scalar '{' :: newLine (level + 1) ++ name.quotePlain ++ lit ": " ++
      printIndented (level + 1) value ++ indentedFields (level + 1) fields ++
      newLine level ++ [.scalar '}']
termination_by structural j => j

def indentedItems (level : Nat) : List Json → Text
  | [] => []
  | item :: items =>
    .scalar ',' :: newLine level ++ printIndented level item ++ indentedItems level items
termination_by structural items => items

def indentedFields (level : Nat) : List (Text × Json) → Text
  | [] => []
  | (name, value) :: fields =>
    .scalar ',' :: newLine level ++ name.quotePlain ++ lit ": " ++ printIndented level value ++
      indentedFields level fields
termination_by structural fields => fields

end

end MetricBridge.Json
