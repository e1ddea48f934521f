import MetricBridge.Json.Shape

namespace MetricBridge

structure Site where
  id : Int
  name : Text
  currency : Text
deriving DecidableEq, Repr

structure Language where
  code : Text
  name : Text
deriving DecidableEq, Repr

structure Segment where
  name : Text
  definition : Text
deriving DecidableEq, Repr

structure Goal where
  site : Int
  id : Int
  name : Text
deriving DecidableEq, Repr

structure ServerVersion where
  major : Int
  minor : Int
deriving DecidableEq, Repr

def Site.ofJson (j : Json) : Except ShapeFault Site := do
  return ⟨← (← j.required "idsite").whole, ← j.optionalText "name", ← j.optionalText "currency"⟩

def Language.ofJson (j : Json) : Except ShapeFault Language := do
  return ⟨(← j.required "code").plain, ← j.optionalText "name"⟩

def Segment.ofJson (j : Json) : Except ShapeFault Segment := do
  return ⟨← j.optionalText "name", ← j.optionalText "definition"⟩

def Goal.ofJson (j : Json) : Except ShapeFault Goal := do
  return ⟨← (← j.required "idsite").whole, ← (← j.required "idgoal").whole,
    ← j.optionalText "name"⟩

namespace ServerVersion

def ofText (t : Text) : Except ShapeFault ServerVersion := do
  let parts := Text.pieces (.scalar '.') t
  let major ← (Json.string (parts.headD [])).whole
  let minor ← match parts with
    | _ :: part :: _ =>
      if !part.isEmpty && part.all CodePoint.isAnyDigit then (Json.string part).whole else pure 0
    | _ => pure 0
  return ⟨major, minor⟩

def isSupported (v : ServerVersion) : Bool := 4 < v.major || (v.major == 4 && 14 ≤ v.minor)

end ServerVersion
end MetricBridge
