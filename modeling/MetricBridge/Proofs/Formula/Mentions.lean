import MetricBridge.Proofs.Formula.Offenders

namespace MetricBridge.Formula

inductive Mention where
  | symbol (metric : Text)
  /-- The flat name of a goal's column, and the metric by whose symbol the column is given, if it is
  given so. -/
  | column (flat : Text) (given : Option Text)
deriving DecidableEq, Repr

namespace Mention

def name : Mention → Text
  | symbol metric => metric
  | column flat _ => flat.tail

def listed? : Mention → Option Text
  | symbol metric => some metric
  | column _ given => given

end Mention

namespace Expr

def givenBy? : List Expr → Option Text
  | [symbol name] => metricName? name
  | _ => none

/-- The reference that a node stands for. -/
def mention? : Expr → Option Mention
  | symbol name => (metricName? name).map .symbol
  | accessor (accessor _ (index goal _)) (index column _) =>
    match goalOf goal, columnOf column with
    | .ok number, .ok name => some (.column (flatName number name) (givenBy? column))
    | _, _ => none
  | _ => none

def mentions (e : Expr) : List Mention := e.outside.filterMap mention?

variable {e base subscript : Expr} {es rest : List Expr} {based : Bool}

theorem mentions_eq (e : Expr) : e.mentions = e.mention?.toList ++
    if e.isAccessor then [] else e.children.flatMap mentions := by
  have hbelow : e.outsideBelow.filterMap mention? =
      if e.isAccessor then [] else e.children.flatMap mentions := by
    unfold outsideBelow
    split
    · rfl
    · exact List.filterMap_flatMap
  rw [mentions, outside_eq, List.filterMap_cons, hbelow]
  cases e.mention? <;> rfl

theorem mentions_symbol (name : Text) :
    (symbol name).mentions = ((metricName? name).map Mention.symbol).toList := by
  rw [mentions_eq, mention?]
  exact List.append_nil _

theorem mentions_accessor (base subscript : Expr) :
    (accessor base subscript).mentions = (accessor base subscript).mention?.toList := by
  rw [mentions_eq]
  exact List.append_nil _

theorem mentions_node (ha : e.isAccessor = false) (hm : e.mention? = none) :
    e.mentions = e.children.flatMap mentions := by
  rw [mentions_eq, ha, hm]
  rfl

def Unbases (e : Expr) : Prop := ∀ based rest,
  freeSymbols based (e.walk ++ rest) = freeSymbols based e.walk ++ freeSymbols false rest

theorem freeSymbols_flatMap (h : ∀ e ∈ es, e.Unbases) (rest : List Expr) :
    freeSymbols false (es.flatMap walk ++ rest) =
      es.flatMap (fun e => freeSymbols false e.walk) ++ freeSymbols false rest := by
  induction es with
  | nil => rfl
  | cons e es ih =>
      obtain ⟨he, hes⟩ := List.forall_mem_cons.mp h
      rw [List.flatMap_cons, List.append_assoc, he, ih hes, List.flatMap_cons, List.append_assoc]

theorem freeSymbols_node (hnode : ∀ based es, freeSymbols based (e :: es) = freeSymbols false es)
    (h : ∀ c ∈ e.children, c.Unbases) (based : Bool) (rest : List Expr) :
    freeSymbols based (e.walk ++ rest) =
      e.children.flatMap (fun c => freeSymbols false c.walk) ++ freeSymbols false rest := by
  rw [walk_eq, List.cons_append, hnode, freeSymbols_flatMap h]

theorem freeSymbols_accessor (hb : base.Unbases) (hs : subscript.Unbases) (based : Bool)
    (rest : List Expr) : freeSymbols based ((accessor base subscript).walk ++ rest) =
      freeSymbols true base.walk ++ (freeSymbols false subscript.walk ++ freeSymbols false rest) := by
  have hwalk : (accessor base subscript).walk ++ rest =
      .accessor base subscript :: (base.walk ++ (subscript.walk ++ rest)) := by
    rw [walk_eq]
    simp [children]
  rw [hwalk, freeSymbols, hb, hs]

/-- No walk ends with an accessor. -/
theorem unbases (e : Expr) : e.Unbases := by
  induction e using children_induction with
  | node e ih =>
    intro based rest
    have hnode : (∀ based es, freeSymbols based (e :: es) = freeSymbols false es) →
        freeSymbols based (e.walk ++ rest) =
          freeSymbols based e.walk ++ freeSymbols false rest := by
      intro hnode
      have halone := freeSymbols_node hnode ih based []
      rw [List.append_nil, freeSymbols, List.append_nil] at halone
      rw [freeSymbols_node hnode ih, halone]
    cases e with
    | symbol name => cases based <;> rfl
    | accessor base subscript =>
        obtain ⟨hb, hs⟩ := List.forall_mem_cons.mp ih
        have hs := List.forall_mem_singleton.mp hs
        have halone := freeSymbols_accessor hb hs based []
        rw [List.append_nil, freeSymbols, List.append_nil] at halone
        rw [freeSymbols_accessor hb hs, halone, List.append_assoc]
    | _ => exact hnode fun _ _ => rfl

theorem IsGoalColumn.exists_flat (h : (accessor base subscript).IsGoalColumn) :
    ∃ metric given, (accessor base subscript).mention? =
        some (.column (.scalar '$' :: metric) given) ∧
      (freeSymbols false (accessor base subscript).walk).filterMap metricName? = given.toList ∧
      ∀ n e, emitAccessor n e base subscript = .ok (.scalar '$' :: metric) := by
  obtain ⟨hgoal, hcolumn⟩ := h
  obtain ⟨number, hnumber⟩ := goalOf_eq_ok.mpr ⟨_, rfl, hgoal⟩
  cases hcolumn with
  | text t =>
      refine ⟨(flatName number t).tail, none, ?_, rfl, fun n e => ?_⟩
      · simp only [mention?, hnumber, columnOf]
        rfl
      · simp only [emitAccessor, dimensions?, hnumber, columnOf]
        rfl
  | symbol name =>
      refine ⟨(flatName number name).tail, metricName? name, ?_, ?_, fun n e => ?_⟩
      · simp only [mention?, hnumber, columnOf]
        rfl
      · show [name].filterMap metricName? = _
        rw [List.filterMap_cons]
        cases metricName? name <;> rfl
      · simp only [emitAccessor, dimensions?, hnumber, columnOf]
        rfl

/-- The walk lists the metrics that stand for the references, if nothing is refused. -/
theorem filterMap_freeSymbols (h : ∀ d ∈ e.outside, ¬ d.IsOffender) :
    (freeSymbols false e.walk).filterMap metricName? = e.mentions.filterMap Mention.listed? := by
  induction e using children_induction with
  | node e ih =>
    rw [outside_eq] at h
    obtain ⟨hself, hbelow⟩ := List.forall_mem_cons.mp h
    have hnode : e.isAccessor = false → e.mention? = none →
        (∀ based es, freeSymbols based (e :: es) = freeSymbols false es) →
        (freeSymbols false e.walk).filterMap metricName? =
          e.mentions.filterMap Mention.listed? := by
      intro haccessor hmention hfree
      have hchildren : ∀ c ∈ e.children, (freeSymbols false c.walk).filterMap metricName? =
          c.mentions.filterMap Mention.listed? := by
        intro c hc
        refine ih c hc fun d hd => hbelow d ?_
        rw [outsideBelow, haccessor]
        exact List.mem_flatMap.mpr ⟨c, hc, hd⟩
      have hwalk := freeSymbols_node hfree (fun c _ => c.unbases) false []
      rw [List.append_nil, freeSymbols, List.append_nil] at hwalk
      rw [hwalk, mentions_node haccessor hmention, List.filterMap_flatMap, List.filterMap_flatMap]
      exact List.flatMap_congr hchildren
    cases e with
    | symbol name =>
        rw [mentions_symbol]
        show [name].filterMap metricName? = _
        rw [List.filterMap_cons]
        cases metricName? name <;> rfl
    | accessor base subscript =>
        have hcolumn : (accessor base subscript).IsGoalColumn := by
          by_contra hnot
          exact hself (.accessor hnot)
        obtain ⟨metric, given, hmention, hfree, -⟩ := hcolumn.exists_flat
        rw [hfree, mentions_accessor, hmention]
        cases given <;> rfl
    | _ => exact hnode rfl rfl fun _ _ => rfl

theorem metrics_eq (h : ∀ d ∈ e.outside, ¬ d.IsOffender) :
    e.metrics = (e.mentions.filterMap Mention.listed?).eraseDups := by
  rw [metrics, filterMap_freeSymbols h]

end Expr
end MetricBridge.Formula
