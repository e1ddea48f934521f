import MetricBridge.Formula.Expr
import Mathlib.Data.List.Basic

namespace MetricBridge.Formula.Expr

theorem sizes_append (es es' : List Expr) : sizes (es ++ es') = sizes es + sizes es' := by
  induction es with
  | nil => simp [sizes]
  | cons e es ih => simp [sizes, ih, Nat.add_assoc]

theorem propertySizes_eq (properties : List (Text × Expr)) :
    propertySizes properties = sizes (properties.map Prod.snd) := by
  induction properties with
  | nil => rfl
  | cons p properties ih => simp [propertySizes, sizes, ih]

theorem size_eq (e : Expr) : e.size = 1 + sizes e.children := by
  cases e with
  | object properties => simp [size, children, propertySizes_eq]
  | range first step last => cases step <;> simp [size, children, sizes, stepSize]
  | _ => simp [size, children, sizes]

theorem size_lt_of_mem_children {e c : Expr} (h : c ∈ e.children) : c.size < e.size := by
  have hle : ∀ es : List Expr, c ∈ es → c.size ≤ sizes es := by
    intro es hc
    induction es with
    | nil => cases hc
    | cons d es ih =>
        rw [sizes]
        rcases List.mem_cons.mp hc with rfl | hc
        · exact Nat.le_add_right _ _
        · exact Nat.le_trans (ih hc) (Nat.le_add_left _ _)
  rw [size_eq e]
  exact Nat.lt_of_le_of_lt (hle _ h) (by omega)

@[elab_as_elim]
theorem children_induction {motive : Expr → Prop}
    (node : ∀ e, (∀ c ∈ e.children, motive c) → motive e) (e : Expr) : motive e := by
  induction hn : e.size using Nat.strongRecOn generalizing e with
  | ind n ih =>
    subst hn
    exact node e fun c hc => ih c.size (size_lt_of_mem_children hc) c rfl

theorem walk_eq_of_children {e : Expr}
    (h : walkStack (sizes e.children) e.children = e.children.flatMap walk) :
    e.walk = e :: e.children.flatMap walk := by
  rw [walk, e.size_eq, Nat.add_comm, walkStack, List.append_nil, h]

theorem walkStack_eq {fuel : Nat} {stack : List Expr} (h : sizes stack ≤ fuel) :
    walkStack fuel stack = stack.flatMap walk := by
  -- the walk of the first tree has its own fuel, less than that of the stack
  induction fuel using Nat.strongRecOn generalizing stack with
  | ind fuel ih =>
    cases stack with
    | nil => cases fuel <;> rfl
    | cons e stack =>
        have hsize := e.size_eq
        rw [sizes] at h
        cases fuel with
        | zero => omega
        | succ fuel =>
            have hrest : sizes (e.children ++ stack) ≤ fuel := by
              rw [sizes_append]
              omega
            have hwalk := walk_eq_of_children (ih (sizes e.children) (by omega) (Nat.le_refl _))
            rw [walkStack, ih fuel (Nat.lt_succ_self fuel) hrest, List.flatMap_cons, hwalk]
            simp

theorem walk_eq (e : Expr) : e.walk = e :: e.children.flatMap walk :=
  walk_eq_of_children (walkStack_eq (Nat.le_refl _))

theorem mem_walk_self (e : Expr) : e ∈ e.walk := by
  rw [walk_eq]
  exact List.mem_cons_self

theorem mem_walk_of_child {e c d : Expr} (hc : c ∈ e.children) (hd : d ∈ c.walk) : d ∈ e.walk := by
  rw [walk_eq]
  exact List.mem_cons_of_mem e (List.mem_flatMap.mpr ⟨c, hc, hd⟩)

def nodeAt? : Expr → List Nat → Option Expr
  | e, [] => some e
  | e, i :: address => e.children[i]?.bind fun c => c.nodeAt? address

def addresses (e : Expr) : List (List Nat) :=
  [] :: e.children.attach.zipIdx.flatMap fun c => (addresses c.1.1).map (c.2 :: ·)
termination_by e.size
decreasing_by exact size_lt_of_mem_children c.1.2

theorem addresses_eq (e : Expr) : e.addresses =
    [] :: e.children.zipIdx.flatMap fun c => c.1.addresses.map (c.2 :: ·) := by
  rw [addresses]
  conv_rhs => rw [← List.attach_map_subtype_val e.children, List.zipIdx_map, List.flatMap_map]
  rfl

variable {e c d : Expr} {i : Nat} {a : List Nat}

theorem nodeAt?_cons (h : e.children[i]? = some c) : e.nodeAt? (i :: a) = c.nodeAt? a := by
  rw [nodeAt?, h, Option.bind_some]

theorem mem_addresses : a ∈ e.addresses ↔ (e.nodeAt? a).isSome = true := by
  induction e using children_induction generalizing a with
  | node e ih =>
    rw [addresses_eq]
    cases a with
    | nil => simp [nodeAt?]
    | cons i a =>
        have hchild : ∀ c, e.children[i]? = some c →
            (a ∈ c.addresses ↔ (e.nodeAt? (i :: a)).isSome = true) := fun c hc => by
          rw [nodeAt?_cons hc]
          exact ih c (List.mem_of_getElem? hc)
        simp only [List.mem_cons, reduceCtorEq, false_or, List.mem_flatMap, List.mem_map,
          List.mem_zipIdx_iff_getElem?, List.cons.injEq]
        constructor
        · rintro ⟨⟨c, j⟩, hc, a', ha, rfl, rfl⟩
          exact (hchild c hc).mp ha
        · intro h
          cases hc : e.children[i]? with
          | none => simp [nodeAt?, hc] at h
          | some c => exact ⟨(c, i), hc, a, (hchild c hc).mpr h, rfl, rfl⟩

theorem walk_addresses (e : Expr) : e.walk.map some = e.addresses.map e.nodeAt? := by
  induction e using children_induction with
  | node e ih =>
    have hchild : ∀ x ∈ e.children.zipIdx, x.1.walk.map some =
        (x.1.addresses.map (x.2 :: ·)).map e.nodeAt? := by
      rintro ⟨c, i⟩ hx
      have hc := List.mem_zipIdx_iff_getElem?.mp hx
      rw [List.map_map, ih c (List.mem_of_getElem? hc)]
      exact List.map_congr_left fun a _ => (nodeAt?_cons hc).symm
    calc e.walk.map some
      _ = some e :: e.children.flatMap fun c => c.walk.map some := by
        rw [walk_eq, List.map_cons, List.map_flatMap]
      _ = some e :: e.children.zipIdx.flatMap fun x => x.1.walk.map some := by
        conv_lhs => rw [← List.zipIdx_map_fst 0 e.children, List.flatMap_map]
      _ = e.addresses.map e.nodeAt? := by
        rw [addresses_eq, List.map_cons, List.map_flatMap, List.flatMap_congr hchild]
        rfl

theorem pairwise_zipIdx (es : List Expr) (n : Nat) :
    (es.zipIdx n).Pairwise fun x y => x.2 < y.2 := by
  induction es generalizing n with
  | nil => exact .nil
  | cons c es ih =>
      exact List.pairwise_cons.mpr ⟨fun x hx => List.le_snd_of_mem_zipIdx hx, ih (n + 1)⟩

/-- No address stands again behind itself, or behind that of a descendant. -/
theorem pairwise_addresses (e : Expr) : e.addresses.Pairwise fun a b => ¬ b <+: a := by
  induction e using children_induction with
  | node e ih =>
    rw [addresses_eq, List.pairwise_cons, List.pairwise_flatMap]
    refine ⟨fun b hb => ?_, fun x hx => ?_, (pairwise_zipIdx e.children 0).imp ?_⟩
    · obtain ⟨x, -, hb⟩ := List.mem_flatMap.mp hb
      obtain ⟨b, -, rfl⟩ := List.mem_map.mp hb
      simp
    · rw [List.pairwise_map]
      have hc := List.mem_of_getElem? (List.mem_zipIdx_iff_getElem?.mp hx)
      exact (ih x.1 hc).imp fun hab h => hab (List.cons_prefix_cons.mp h).2
    · intro x y hxy a ha b hb h
      obtain ⟨a, -, rfl⟩ := List.mem_map.mp ha
      obtain ⟨b, -, rfl⟩ := List.mem_map.mp hb
      exact absurd (List.cons_prefix_cons.mp h).1 (Nat.ne_of_gt hxy)

end MetricBridge.Formula.Expr
