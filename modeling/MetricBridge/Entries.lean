namespace MetricBridge

abbrev Entries (κ : Type) (α : Type) := List (κ × α)

namespace Entries

variable {κ α : Type} [DecidableEq κ]

def find? (k : κ) : Entries κ α → Option α
  | [] => none
  | (l, v) :: es => if l = k then some v else find? k es

def has (k : κ) (es : Entries κ α) : Bool := (es.find? k).isSome

def set (k : κ) (v : α) : Entries κ α → Entries κ α
  | [] => [(k, v)]
  | (l, w) :: es => if l = k then (l, v) :: es else (l, w) :: set k v es

def erase (k : κ) : Entries κ α → Entries κ α
  | [] => []
  | (l, w) :: es => if l = k then es else (l, w) :: erase k es

/-- The entries of a list of pairs; a repeated key keeps its first place and its last value. -/
def ofPairs (pairs : List (κ × α)) : Entries κ α :=
  pairs.foldl (fun es (k, v) => es.set k v) []

def merge (es more : Entries κ α) : Entries κ α :=
  more.foldl (fun es (k, v) => es.set k v) es

def keys (es : Entries κ α) : List κ := es.map Prod.fst

def values (es : Entries κ α) : List α := es.map Prod.snd

end Entries
end MetricBridge
