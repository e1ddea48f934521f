import MetricBridge.Formula.Render
import MetricBridge.Proofs.Formula.Interleaving
import MetricBridge.Proofs.Formula.Slices
import MetricBridge.Proofs.Formula.Soundness

namespace MetricBridge.Formula

section

variable {α β : Type} [BEq α] [LawfulBEq α] [BEq β] [LawfulBEq β]

theorem eraseDups_append {as bs : List α} (h : as.Disjoint bs) :
    (as ++ bs).eraseDups = as.eraseDups ++ bs.eraseDups := by
  have hapart : bs.removeAll as = bs :=
    List.filter_eq_self.mpr fun b hb => by simpa using fun ha => h ha hb
  rw [List.eraseDups_append, hapart]

theorem eraseDups_map {f : α → β} (hf : Function.Injective f) (as : List α) :
    (as.map f).eraseDups = as.eraseDups.map f := by
  induction hn : as.length using Nat.strongRecOn generalizing as with
  | ind n ih =>
    cases as with
    | nil => rfl
    | cons a as =>
        have hother : (fun b => !b == f a) ∘ f = fun b => !b == a := by
          funext b
          rw [Function.comp_apply, Bool.eq_iff_iff]
          simp [hf.eq_iff]
        have hlength := List.length_filter_le (fun b => !b == a) as
        rw [List.map_cons, List.eraseDups_cons, List.eraseDups_cons, List.filter_map, hother,
          ih _ (by rw [List.length_cons] at hn; omega) _ rfl, List.map_cons]

end

namespace Expr

variable {e c d : Expr} {es : List Expr} {ms : List Terminal} {a : List Nat} {i n : Nat}
  {depths : Depths}

def isLeafAt (e : Expr) (a : List Nat) : Bool := (e.nodeAt? a).any fun d => d.children.isEmpty

/-- A symbol of a tree and the address of the node that it belongs to. -/
structure OwnedSymbol where
  symbol : Terminal
  owner : List Nat

def symbolsAt (a : List Nat) (symbols : List OwnedSymbol) : List Terminal :=
  (symbols.filter fun m => a <+: m.owner).map OwnedSymbol.symbol

/-- Each symbol belongs to a node of the tree, and those of a node and of the nodes below it are what the
node is written with. From left to right they lead to the leaves in the order of the walk. -/
structure Owns (e : Expr) (symbols : List OwnedSymbol) : Prop where
  owned : ∀ m ∈ symbols, m.owner ∈ e.addresses
  written : ∀ a d, e.nodeAt? a = some d → d.IsWrittenAs (symbolsAt a symbols)
  leaves : ((symbols.map OwnedSymbol.owner).filter e.isLeafAt).eraseDups =
    e.addresses.filter e.isLeafAt

def OwnedSymbol.under (i : Nat) (m : OwnedSymbol) : OwnedSymbol := ⟨m.symbol, i :: m.owner⟩

theorem symbolsAt_nil (symbols : List OwnedSymbol) :
    symbolsAt [] symbols = symbols.map OwnedSymbol.symbol := by
  simp [symbolsAt]

theorem symbolsAt_append (a : List Nat) (symbols symbols' : List OwnedSymbol) :
    symbolsAt a (symbols ++ symbols') = symbolsAt a symbols ++ symbolsAt a symbols' := by
  rw [symbolsAt, List.filter_append, List.map_append]
  rfl

theorem symbolsAt_map_under (i : Nat) (a : List Nat) (symbols : List OwnedSymbol) :
    symbolsAt (i :: a) (symbols.map (OwnedSymbol.under i)) = symbolsAt a symbols := by
  simp [symbolsAt, List.filter_map, Function.comp_def, OwnedSymbol.under, List.cons_prefix_cons]

theorem symbolsAt_apart {symbols : List OwnedSymbol} (h : ∀ m ∈ symbols, ¬ a <+: m.owner) :
    symbolsAt a symbols = [] := by
  rw [symbolsAt, List.filter_eq_nil_iff.mpr fun m hm => by simpa using h m hm]
  rfl

theorem isLeafAt_cons (h : e.children[i]? = some c) : e.isLeafAt (i :: a) = c.isLeafAt a := by
  rw [isLeafAt, nodeAt?_cons h]
  rfl

theorem filter_isLeafAt (h : e.children[i]? = some c) (as : List (List Nat)) :
    (as.map (i :: ·)).filter e.isLeafAt = (as.filter c.isLeafAt).map (i :: ·) := by
  have hchild : e.isLeafAt ∘ (i :: ·) = c.isLeafAt := funext fun a => isLeafAt_cons h
  rw [List.filter_map, hchild]

structure OwnsFrom (e : Expr) (n : Nat) (es : List Expr) (symbols : List OwnedSymbol) : Prop where
  owned : ∀ m ∈ symbols, m.owner = [] ∨ ∃ x ∈ es.zipIdx n, ∃ a ∈ x.1.addresses, m.owner = x.2 :: a
  written : ∀ x ∈ es.zipIdx n, ∀ a d, x.1.nodeAt? a = some d →
    d.IsWrittenAs (symbolsAt (x.2 :: a) symbols)
  leaves : ((symbols.map OwnedSymbol.owner).filter e.isLeafAt).eraseDups =
    ((es.zipIdx n).flatMap fun x => x.1.addresses.map (x.2 :: ·)).filter e.isLeafAt

namespace OwnsFrom

variable {symbols symbols' : List OwnedSymbol} {m : Terminal}

theorem nil : e.OwnsFrom n [] [] where
  owned := nofun
  written := nofun
  leaves := rfl

theorem own (hroot : e.isLeafAt [] = false) (h : e.OwnsFrom n es symbols) :
    e.OwnsFrom n es (⟨m, []⟩ :: symbols) where
  owned := List.forall_mem_cons.mpr ⟨.inl rfl, h.owned⟩
  written := h.written
  leaves := by rw [List.map_cons, List.filter_cons_of_neg (by simp [hroot]), h.leaves]

theorem not_prefix (h : e.OwnsFrom (n + 1) es symbols) (a : List Nat) :
    ∀ m ∈ symbols, ¬ n :: a <+: m.owner := by
  intro m hm hprefix
  rcases h.owned m hm with hnil | ⟨x, hx, a', -, ha⟩
  · simp [hnil] at hprefix
  · rw [ha] at hprefix
    exact Nat.ne_of_lt (List.le_snd_of_mem_zipIdx hx) (List.cons_prefix_cons.mp hprefix).1

theorem symbolsAt_under (h : e.OwnsFrom (n + 1) es symbols') :
    symbolsAt (n :: a) (symbols.map (OwnedSymbol.under n) ++ symbols') = symbolsAt a symbols := by
  have hapart : symbolsAt (n :: a) symbols' = [] := symbolsAt_apart (h.not_prefix a)
  rw [symbolsAt_append, symbolsAt_map_under, hapart, List.append_nil]

theorem symbolsAt_later (hi : n < i) :
    symbolsAt (i :: a) (symbols.map (OwnedSymbol.under n) ++ symbols') = symbolsAt (i :: a) symbols' := by
  have hapart : symbolsAt (i :: a) (symbols.map (OwnedSymbol.under n)) = [] :=
    symbolsAt_apart <| List.forall_mem_map.mpr fun m _ hprefix =>
      Nat.ne_of_gt hi (List.cons_prefix_cons.mp hprefix).1
  rw [symbolsAt_append, hapart, List.nil_append]

theorem disjoint (h : e.OwnsFrom (n + 1) es symbols') (as : List (List Nat)) :
    (as.map (n :: ·)).Disjoint (symbols'.map OwnedSymbol.owner) := by
  intro a ha ha'
  obtain ⟨a, -, rfl⟩ := List.mem_map.mp ha
  obtain ⟨m, hm, hm'⟩ := List.mem_map.mp ha'
  exact h.not_prefix a m hm (hm' ▸ List.prefix_rfl)

theorem tree (hc : e.children[n]? = some c) (hsymbols : c.Owns symbols)
    (h : e.OwnsFrom (n + 1) es symbols') :
    e.OwnsFrom n (c :: es) (symbols.map (OwnedSymbol.under n) ++ symbols') where
  owned := by
    rw [List.zipIdx_cons]
    refine List.forall_mem_append.mpr ⟨List.forall_mem_map.mpr fun m hm => ?_, fun m hm => ?_⟩
    · exact .inr ⟨(c, n), List.mem_cons_self, m.owner, hsymbols.owned m hm, rfl⟩
    · refine (h.owned m hm).imp_right ?_
      rintro ⟨x, hx, hm⟩
      exact ⟨x, List.mem_cons_of_mem _ hx, hm⟩
  written := by
    rw [List.zipIdx_cons]
    refine List.forall_mem_cons.mpr ⟨fun a d hd => ?_, fun x hx a d hd => ?_⟩
    · rw [h.symbolsAt_under]
      exact hsymbols.written a d hd
    · rw [symbolsAt_later (List.le_snd_of_mem_zipIdx hx)]
      exact h.written x hx a d hd
  leaves := by
    have hfirst : ((symbols.map (OwnedSymbol.under n)).map OwnedSymbol.owner).filter e.isLeafAt =
        ((symbols.map OwnedSymbol.owner).filter c.isLeafAt).map (n :: ·) := by
      rw [← filter_isLeafAt hc, List.map_map, List.map_map]
      rfl
    have hapart : (((symbols.map OwnedSymbol.owner).filter c.isLeafAt).map (n :: ·)).Disjoint
        ((symbols'.map OwnedSymbol.owner).filter e.isLeafAt) :=
      fun a ha ha' => h.disjoint _ ha (List.mem_of_mem_filter ha')
    rw [List.map_append, List.filter_append, hfirst, eraseDups_append hapart, h.leaves,
      eraseDups_map List.cons_injective, hsymbols.leaves, List.zipIdx_cons, List.flatMap_cons,
      List.filter_append, filter_isLeafAt hc]

theorem owns (h : e.OwnsFrom 0 e.children symbols) (hroot : e.isLeafAt [] = false)
    (hwritten : e.IsWrittenAs (symbols.map OwnedSymbol.symbol)) : e.Owns symbols where
  owned := by
    intro m hm
    rw [addresses_eq]
    rcases h.owned m hm with hnil | ⟨x, hx, a, ha, hm⟩
    · rw [hnil]
      exact List.mem_cons_self
    · rw [hm]
      exact List.mem_cons_of_mem _ (List.mem_flatMap.mpr ⟨x, hx, List.mem_map_of_mem ha⟩)
  written := by
    intro a d hd
    cases a with
    | nil =>
        cases hd
        rwa [symbolsAt_nil]
    | cons i a =>
        obtain ⟨c, hc, hd⟩ := Option.bind_eq_some_iff.mp hd
        exact h.written (c, i) (List.mem_zipIdx_iff_getElem?.mpr hc) a d hd
  leaves := by rw [h.leaves, addresses_eq, List.filter_cons_of_neg (by simp [hroot])]

end OwnsFrom

theorem Interleaved.exists_owned (h : Interleaved ms es) (hroot : e.isLeafAt [] = false)
    (hes : ∀ c ∈ es, ∀ part, c.IsWrittenAs part →
      ∃ symbols : List OwnedSymbol, symbols.map OwnedSymbol.symbol = part ∧ c.Owns symbols)
    (hchildren : ∀ x ∈ es.zipIdx n, e.children[x.2]? = some x.1) :
    ∃ symbols : List OwnedSymbol, symbols.map OwnedSymbol.symbol = ms ∧ e.OwnsFrom n es symbols := by
  induction h generalizing n with
  | nil => exact ⟨[], rfl, .nil⟩
  | own _ ih =>
      obtain ⟨symbols, rfl, howned⟩ := ih hes hchildren
      exact ⟨⟨_, []⟩ :: symbols, rfl, howned.own hroot⟩
  | @tree part ms c es hc _ ih =>
      obtain ⟨hself, hes⟩ := List.forall_mem_cons.mp hes
      rw [List.zipIdx_cons] at hchildren
      obtain ⟨hfirst, hchildren⟩ := List.forall_mem_cons.mp hchildren
      obtain ⟨symbols, rfl, howned⟩ := hself part hc
      obtain ⟨symbols', rfl, howned'⟩ := ih hes hchildren
      refine ⟨symbols.map (OwnedSymbol.under n) ++ symbols', ?_, .tree hfirst howned howned'⟩
      rw [List.map_append, List.map_map]
      rfl

theorem owns_leaf (hleaf : e.children = []) (he : e.IsComplete) (h : e.IsWrittenAs ms) :
    e.Owns (ms.map fun m => ⟨m, []⟩) where
  owned := List.forall_mem_map.mpr fun m _ => mem_addresses.mpr rfl
  written := by
    intro a d hd
    cases a with
    | nil =>
        cases hd
        simpa [symbolsAt_nil, Function.comp_def] using h
    | cons i a => simp [nodeAt?, hleaf] at hd
  leaves := by
    have hroot : e.isLeafAt [] = true := by simp [isLeafAt, nodeAt?, hleaf]
    obtain ⟨m, ms, rfl⟩ := List.exists_cons_of_ne_nil (h.ne_nil he hleaf)
    rw [addresses_eq, hleaf]
    simp [hroot, List.eraseDups_cons, List.filter_map]

theorem exists_owned (hcomplete : ∀ d ∈ e.walk, d.IsComplete) (h : e.IsWrittenAs ms) :
    ∃ symbols : List OwnedSymbol, symbols.map OwnedSymbol.symbol = ms ∧ e.Owns symbols := by
  induction e using children_induction generalizing ms with
  | node e ih =>
    have hself := hcomplete e (mem_walk_self e)
    by_cases hleaf : e.children = []
    · exact ⟨_, by simp [Function.comp_def], owns_leaf hleaf hself h⟩
    · have hroot : e.isLeafAt [] = false := by simp [isLeafAt, nodeAt?, hleaf]
      have hchild : ∀ c ∈ e.children, ∀ part, c.IsWrittenAs part →
          ∃ symbols : List OwnedSymbol, symbols.map OwnedSymbol.symbol = part ∧ c.Owns symbols :=
        fun c hc part hpart => ih c hc (fun d hd => hcomplete d (mem_walk_of_child hc hd)) hpart
      obtain ⟨symbols, rfl, howned⟩ := (h.children hself).exists_owned hroot hchild
        fun x hx => List.mem_zipIdx_iff_getElem?.mp hx
      exact ⟨symbols, rfl, howned.owns hroot h⟩

/-- The walk takes a node, then the walks of its children in their order. It meets the node at each
address once, and no node before one that it is below. The tokens of a formula, without separators of
statements, belong one by one to the nodes of its tree: those of a node and of the nodes below it spell the
node, and from left to right they lead to the leaves in the order of the walk. -/
theorem walk_preorder (e : Expr) :
    e.walk = e :: e.children.flatMap walk ∧
      e.walk.map some = e.addresses.map e.nodeAt? ∧
      (∀ a, a ∈ e.addresses ↔ (e.nodeAt? a).isSome = true) ∧
      e.addresses.Pairwise (fun a b => ¬ b <+: a) ∧
      ∀ t, parse depths t = .ok e → ∃ (ts : List Token) (symbols : List OwnedSymbol), tokenize t = .ok ts ∧
        ts.Pairwise (fun k k' => k.position < k'.position) ∧
        List.Forall₂ (fun k m => k.lexeme.Denotes m.symbol) (ts.filter (·.lexeme.isContent))
          (symbols.filter (!·.symbol.isSemicolon)) ∧
        symbols.map OwnedSymbol.symbol = e.terminals ∧ e.Owns symbols := by
  refine ⟨walk_eq e, walk_addresses e, fun a => mem_addresses, pairwise_addresses e, fun t h => ?_⟩
  obtain ⟨body, p, hts, hwrites⟩ := parse_reads h
  obtain ⟨slices, hslices, hincreasing⟩ := exists_slices hts
  obtain ⟨symbols, hterminals, howns⟩ := exists_owned hwrites.isFormula.complete (.plain e)
  have hcontent := hwrites.content
  rw [content, ← hterminals, List.filter_map, List.filter_map, List.forall₂_map_left_iff,
    List.forall₂_map_right_iff] at hcontent
  refine ⟨_, symbols, hts, ?_, ?_, hterminals, howns⟩
  · rw [← hslices, List.pairwise_map]
    exact hincreasing.increasing
  · -- the end of the formula is no content
    rw [List.filter_append, List.filter_cons_of_neg (by simp [Lexeme.isContent]),
      List.filter_nil, List.append_nil]
    exact hcontent

/-- A definition, a range with a step, a member, and an object with an empty array. -/
theorem walk_preorder_statements :
    ∃ e, parse .least "f(x) = a[1:2:3].b; -c! ? \x7bk: []\x7d : 0 < $d <= min(a)" = .ok e ∧
      (e.walk.filter (·.children.isEmpty)).map (render 1) =
        (["a", "1", "2", "3", "\"b\"", "c", "[]", "0", "$d", "min", "a"] : List Text).map .ok ∧
      ∃ ts symbols, tokenize "f(x) = a[1:2:3].b; -c! ? \x7bk: []\x7d : 0 < $d <= min(a)" = .ok ts ∧
        List.Forall₂ (fun k m => k.lexeme.Denotes m.symbol) (ts.filter (·.lexeme.isContent))
          (symbols.filter (!·.symbol.isSemicolon)) ∧
        e.Owns symbols := by
  have hleaves : (parse .least "f(x) = a[1:2:3].b; -c! ? \x7bk: []\x7d : 0 < $d <= min(a)").map
      (fun e => (e.walk.filter (·.children.isEmpty)).map (render 1)) =
        .ok ((["a", "1", "2", "3", "\"b\"", "c", "[]", "0", "$d", "min", "a"] : List Text).map .ok) := by
    decide +kernel
  obtain ⟨e, he, hleaves⟩ := map_eq_ok hleaves
  obtain ⟨-, -, -, -, hparsed⟩ := walk_preorder e
  obtain ⟨ts, symbols, hts, -, hcontent, -, howns⟩ := hparsed _ he
  exact ⟨e, he, hleaves, ts, symbols, hts, hcontent, howns⟩

end Expr
end MetricBridge.Formula
