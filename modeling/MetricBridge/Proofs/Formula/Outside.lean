import MetricBridge.Proofs.Formula.Walk

namespace MetricBridge.Formula.Expr

def isAccessor : Expr → Bool
  | accessor .. => true
  | _ => false

/-- The nodes of a pre-order that are not below an accessor, after a number of nodes that are. The
nodes below a node stand directly after it. -/
def outsideFrom : Nat → List Expr → List Expr
  | _, [] => []
  | skip + 1, _ :: es => outsideFrom skip es
  | 0, e :: es => e :: outsideFrom (if e.isAccessor then e.size - 1 else 0) es

/-- The nodes of the walk that are not below an accessor. -/
def outside (e : Expr) : List Expr := outsideFrom 0 e.walk

variable {e : Expr} {es rest : List Expr}

theorem outsideFrom_sublist (skip : Nat) (es : List Expr) : (outsideFrom skip es).Sublist es := by
  fun_induction outsideFrom skip es with
  | case1 => exact .slnil
  | case2 skip e es ih => exact ih.cons e
  | case3 e es ih => exact ih.cons_cons e

/-- The nodes stand in the order of the walk. -/
theorem outside_sublist (e : Expr) : e.outside.Sublist e.walk := outsideFrom_sublist 0 e.walk

theorem outsideFrom_length (es rest : List Expr) :
    outsideFrom es.length (es ++ rest) = outsideFrom 0 rest := by
  induction es with
  | nil => rfl
  | cons e es ih => exact ih

theorem length_walkStack {fuel : Nat} {stack : List Expr} (h : sizes stack ≤ fuel) :
    (walkStack fuel stack).length = sizes stack := by
  induction fuel generalizing stack with
  | zero => exact (Nat.le_zero.mp h).symm
  | succ fuel ih =>
      cases stack with
      | nil => rfl
      | cons e stack =>
          have hsize := e.size_eq
          rw [sizes] at h ⊢
          have hrest : sizes (e.children ++ stack) ≤ fuel := by
            rw [sizes_append]
            omega
          rw [walkStack, List.length_cons, ih hrest, sizes_append]
          omega

theorem length_flatMap_walk (es : List Expr) : (es.flatMap walk).length = sizes es := by
  rw [← walkStack_eq (Nat.le_refl _), length_walkStack (Nat.le_refl _)]

theorem outsideFrom_walk_append (e : Expr) (rest : List Expr) : outsideFrom 0 (e.walk ++ rest) =
    e :: if e.isAccessor then outsideFrom 0 rest
      else outsideFrom 0 (e.children.flatMap walk ++ rest) := by
  rw [walk_eq, List.cons_append, outsideFrom]
  split
  · have hlength : e.size - 1 = (e.children.flatMap walk).length := by
      rw [length_flatMap_walk, size_eq, Nat.add_sub_cancel_left]
    rw [hlength, outsideFrom_length]
  · rfl

def outsideBelow (e : Expr) : List Expr :=
  if e.isAccessor then [] else e.children.flatMap outside

theorem outside_eq_of_children
    (h : outsideFrom 0 (e.children.flatMap walk) = e.children.flatMap outside) :
    e.outside = e :: e.outsideBelow := by
  have hwalk := outsideFrom_walk_append e []
  rw [List.append_nil, List.append_nil, h] at hwalk
  exact hwalk

theorem outsideFrom_flatMap_walk {n : Nat} (h : sizes es ≤ n) (rest : List Expr) :
    outsideFrom 0 (es.flatMap walk ++ rest) = es.flatMap outside ++ outsideFrom 0 rest := by
  induction n using Nat.strongRecOn generalizing es rest with
  | ind n ih =>
    cases es with
    | nil => rfl
    | cons e es =>
        have hsize := e.size_eq
        rw [sizes] at h
        have hbelow : outsideFrom 0 (e.children.flatMap walk) = e.children.flatMap outside := by
          have hchildren := ih (sizes e.children) (by omega) (Nat.le_refl _) []
          rwa [List.append_nil, outsideFrom, List.append_nil] at hchildren
        rw [List.flatMap_cons, List.flatMap_cons, List.append_assoc, outsideFrom_walk_append,
          outside_eq_of_children hbelow, outsideBelow, List.append_assoc, List.cons_append]
        congr 1
        split
        · exact ih (sizes es) (by omega) (Nat.le_refl _) rest
        · have hall : sizes (e.children ++ es) < n := by
            rw [sizes_append]
            omega
          have happend := ih (sizes (e.children ++ es)) hall (Nat.le_refl _) rest
          rwa [List.flatMap_append, List.flatMap_append, List.append_assoc,
            List.append_assoc] at happend

theorem outside_eq (e : Expr) : e.outside = e :: e.outsideBelow := by
  refine outside_eq_of_children ?_
  have h := outsideFrom_flatMap_walk (Nat.le_refl (sizes e.children)) []
  rwa [List.append_nil, outsideFrom, List.append_nil] at h

end MetricBridge.Formula.Expr
