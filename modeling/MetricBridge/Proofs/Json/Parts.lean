import MetricBridge.Json.Basic
import Mathlib.Data.List.Basic

namespace MetricBridge.Json

/-- What holds of a value if it holds of its items and of the values of its fields holds of all values. -/
theorem induct {P : Json → Prop} (null : P .null) (bool : ∀ b, P (.bool b)) (int : ∀ n, P (.int n))
    (float : ∀ x, P (.float x)) (string : ∀ t, P (.string t))
    (array : ∀ items, (∀ item ∈ items, P item) → P (.array items))
    (object : ∀ fields, (∀ field ∈ fields, P field.2) → P (.object fields)) (j : Json) : P j :=
  @Json.rec P (fun items => ∀ item ∈ items, P item) (fun fields => ∀ field ∈ fields, P field.2)
    (fun field => P field.2) null bool int float string array object nofun
    (fun _ _ hitem hitems => List.forall_mem_cons.mpr ⟨hitem, hitems⟩) nofun
    (fun _ _ hfield hfields => List.forall_mem_cons.mpr ⟨hfield, hfields⟩) (fun _ _ hvalue => hvalue) j

mutual

def parts : Json → List Json
  | .array items => .array items :: partsOfItems items
  | .object fields => .object fields :: partsOfFields fields
  | j => [j]
termination_by structural j => j

def partsOfItems : List Json → List Json
  | [] => []
  | item :: items => parts item ++ partsOfItems items
termination_by structural items => items

def partsOfFields : List (Text × Json) → List Json
  | [] => []
  | (_, value) :: fields => parts value ++ partsOfFields fields
termination_by structural fields => fields

end

variable {v j item : Json} {items : List Json} {fields : List (Text × Json)} {field : Text × Json}

theorem partsOfItems_eq (items : List Json) : partsOfItems items = items.flatMap parts := by
  induction items with
  | nil => rfl
  | cons item items ih => rw [partsOfItems, ih, List.flatMap_cons]

theorem partsOfFields_eq (fields : List (Text × Json)) :
    partsOfFields fields = fields.flatMap fun field => parts field.2 := by
  induction fields with
  | nil => rfl
  | cons field fields ih => rw [partsOfFields, ih, List.flatMap_cons]

theorem mem_parts_self (j : Json) : j ∈ j.parts := by
  cases j <;> simp [parts]

theorem mem_parts_array : v ∈ (array items).parts ↔ v = array items ∨ ∃ i ∈ items, v ∈ i.parts := by
  simp [parts, partsOfItems_eq]

theorem mem_parts_object :
    v ∈ (object fields).parts ↔ v = object fields ∨ ∃ f ∈ fields, v ∈ f.2.parts := by
  simp [parts, partsOfFields_eq]

theorem mem_parts_of_item (h : item ∈ items) (hv : v ∈ item.parts) : v ∈ (array items).parts :=
  mem_parts_array.mpr (.inr ⟨item, h, hv⟩)

theorem mem_parts_of_field (h : field ∈ fields) (hv : v ∈ field.2.parts) :
    v ∈ (object fields).parts :=
  mem_parts_object.mpr (.inr ⟨field, h, hv⟩)

def objects (j : Json) : List (List (Text × Json)) :=
  j.parts.filterMap fun
    | .object fields => some fields
    | _ => none

def floats (j : Json) : List Float :=
  j.parts.filterMap fun
    | .float x => some x
    | _ => none

theorem mem_objects : fields ∈ j.objects ↔ .object fields ∈ j.parts := by
  unfold objects
  rw [List.mem_filterMap]
  constructor
  · rintro ⟨part, hpart, hfields⟩
    cases part <;> cases hfields
    exact hpart
  · exact fun h => ⟨_, h, rfl⟩

theorem mem_floats {x : Float} : x ∈ j.floats ↔ .float x ∈ j.parts := by
  unfold floats
  rw [List.mem_filterMap]
  constructor
  · rintro ⟨part, hpart, hx⟩
    cases part <;> cases hx
    exact hpart
  · exact fun h => ⟨_, h, rfl⟩

end MetricBridge.Json
