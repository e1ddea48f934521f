import MetricBridge.Entries
import MetricBridge.Text.Basic

namespace MetricBridge

inductive Json where
  | null
  | bool (b : Bool)
  | int (n : Int)
  | float (x : Float)
  | string (t : Text)
  | array (items : List Json)
  | object (fields : List (Text × Json))
deriving Inhabited

namespace Json

instance : Coe Text Json := ⟨.string⟩

def field? (name : Text) : Json → Option Json
  | .object fields => Entries.find? name fields
  | _ => none

def text? : Json → Option Text
  | .string t => some t
  | _ => none

/-- Whether the value counts as empty: null, false, zero, or without any content. -/
def isEmptyValue : Json → Bool
  | .null => true
  | .bool b => !b
  | .int n => n == 0
  | .float x => x == 0.0
  | .string t => t.isEmpty
  | .array items => items.isEmpty
  | .object fields => fields.isEmpty

end Json
end MetricBridge
