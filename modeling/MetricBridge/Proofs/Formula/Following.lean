import MetricBridge.Proofs.Formula.Grammatical
import MetricBridge.Proofs.Formula.Spelling

namespace MetricBridge.Formula

namespace Level

def behind : Level → List Text
  | assignment => ["="]
  | conditional => ["?"]
  | range => [":"]
  | power => ["^", ".^"]
  | factorial => ["!"]
  | primary => ["(", "[", "."]
  | level => level.joining.map Prod.fst

def binding? (op : Text) : Option Level := all.find? fun level => level.behind.contains op

theorem binding?_of_mem {level : Level} {op : Text} (h : op ∈ level.behind) :
    binding? op = some level := by
  have hall : ∀ k ∈ all, ∀ op ∈ k.behind, binding? op = some k := by decide
  refine hall level ?_ op h
  cases level <;> decide

end Level

variable {n : Nat} {s : Surroundings} {ts rest : List Token} {m : Terminal} {ms : List Terminal}
variable {level level' : Level} {table : OperatorTable} {d : Delimiter} {op : Text}

theorem OperatorTable.find?_of_mem {fn : Operation} (hnodup : (table.map Prod.fst).Nodup)
    (h : (op, fn) ∈ table) : table.find? op = some fn := by
  induction table with
  | nil => cases h
  | cons entry table ih =>
      rw [List.map_cons, List.nodup_cons] at hnodup
      rcases List.mem_cons.mp h with rfl | h
      · simp [find?]
      · have hne : entry.1 ≠ op := by
          rintro rfl
          exact hnodup.1 (List.mem_map.mpr ⟨_, h, rfl⟩)
        have hrest := ih hnodup.2 h
        unfold find? at hrest ⊢
        rwa [List.find?_cons_of_neg (by simpa using hne)]

theorem Level.joining_nodup (level : Level) : (level.joining.map Prod.fst).Nodup := by
  cases level <;> decide

theorem Level.mem_behind (level : Level) : ∀ entry ∈ level.joining, entry.1 ∈ level.behind := by
  cases level <;> decide

def Stops (level : Level) (s : Surroundings) (ts : List Token) : Prop :=
  ∀ op k, (front (settle s ts)).lexeme.operator? = some op → Level.binding? op = some k →
    level.rank ≤ k.rank → k = .range ∧ s.awaitsColon = true

namespace Stops

theorem mono (h : Stops level s ts) (hr : level.rank ≤ level'.rank) : Stops level' s ts :=
  fun op k hop hk hrank => h op k hop hk (Nat.le_trans hr hrank)

theorem of_none (h : (front (settle s ts)).lexeme.operator? = none) : Stops level s ts := by
  intro op k hop
  rw [h] at hop
  cases hop

theorem of_operator (hop : (front (settle s ts)).lexeme.operator? = some op)
    (hb : ∀ k, Level.binding? op = some k → level.rank ≤ k.rank →
      k = .range ∧ s.awaitsColon = true) : Stops level s ts := by
  intro op' k hop' hk hrank
  rw [hop] at hop'
  cases hop'
  exact hb k hk hrank

theorem operatorAt?_eq_none (h : Stops level s ts) (hl : level ≠ .range)
    (ht : ∀ entry ∈ table, entry.1 ∈ level.behind) : operatorAt? s table ts = none := by
  unfold operatorAt?
  dsimp only
  split
  · rfl
  · rename_i op hop
    cases hfind : table.find? op with
    | none => rfl
    | some fn =>
        have hk := Level.binding?_of_mem (ht _ (OperatorTable.mem_of_find? hfind))
        exact absurd (h op level hop hk (Nat.le_refl _)).1 hl

theorem after?_eq_none (h : Stops level s ts) (hd : d.spelling ∈ level.behind)
    (hs : level = .range → s.awaitsColon = false) : after? s d ts = none := by
  unfold after?
  dsimp only
  split
  · rename_i hfront
    have hop : (front (settle s ts)).lexeme.operator? = some d.spelling := by rw [hfront]; rfl
    obtain ⟨hrange, hawaits⟩ := h _ level hop (Level.binding?_of_mem hd) (Nat.le_refl _)
    rw [hs hrange] at hawaits
    cases hawaits
  · rfl

theorem accessorsOnto_eq (h : Stops .primary s ts) (item : Rule) (fuel : Nat) (e : Expr) :
    Rule.accessorsOnto item s fuel e ts = .ok (e, ts) := by
  have hdelimiter : ∀ d : Delimiter, d.spelling ∈ Level.primary.behind →
      (front (settle s ts)).lexeme ≠ .delimiter d := by
    intro d hd hfront
    have hop : (front (settle s ts)).lexeme.operator? = some d.spelling := by rw [hfront]; rfl
    exact nomatch (h _ .primary hop (Level.binding?_of_mem hd) (Nat.le_refl _)).1
  cases fuel with
  | zero => rfl
  | succ fuel =>
      unfold Rule.accessorsOnto
      dsimp only
      split
      · rename_i hfront
        exact absurd hfront (hdelimiter .openParen (by decide))
      · rename_i hfront
        exact absurd hfront (hdelimiter .openBracket (by decide))
      · rename_i hfront
        exact absurd hfront (hdelimiter .dot (by decide))
      · rfl

end Stops

namespace Spells

theorem settled (h : Spells n ts (m :: ms)) (hg : s.grouped = decide (0 < n)) :
    ∃ t us, t.lexeme.Denotes m ∧ Spells (m.opened n) us ms ∧ us.length < ts.length ∧
      ∀ rest, settle s (ts ++ rest) = t :: (us ++ rest) := by
  obtain ⟨feeds, t, us, rfl, hfeeds, hnone, ht, hus⟩ := h.uncons
  refine ⟨t, us, ht, hus, by simp; omega, fun rest => ?_⟩
  have hne := ht.ne_newline
  unfold settle
  cases n with
  | zero => simp [hg, hnone rfl]
  | succ n =>
      have hall : ∀ f ∈ feeds, decide (f.lexeme = .newline) = true := by simpa using hfeeds
      simp [hg, List.dropWhile_append_of_pos hall, hne]

theorem after?_eq (h : Spells n ts (.mark d :: ms)) (hg : s.grouped = decide (0 < n)) :
    ∃ us, Spells (Terminal.opened (.mark d) n) us ms ∧ us.length < ts.length ∧
      ∀ rest, after? s d (ts ++ rest) = some (us ++ rest) := by
  obtain ⟨t, us, ht, hus, hlen, hsettle⟩ := h.settled hg
  refine ⟨us, hus, hlen, fun rest => ?_⟩
  unfold after?
  rw [hsettle]
  simp [front, passed, ht.of_mark]

theorem expect_eq (h : Spells n ts (.mark d :: ms)) (hg : s.grouped = decide (0 < n)) :
    ∃ us, Spells (Terminal.opened (.mark d) n) us ms ∧
      ∀ rest, expect s d (ts ++ rest) = .ok (us ++ rest) := by
  obtain ⟨us, hus, -, hafter⟩ := h.after?_eq hg
  refine ⟨us, hus, fun rest => ?_⟩
  unfold expect
  rw [hafter]

theorem after?_ne {d' : Delimiter} (h : Spells n ts (.mark d :: ms))
    (hg : s.grouped = decide (0 < n)) (hd : d ≠ d') : after? s d' (ts ++ rest) = none := by
  obtain ⟨t, us, ht, -, -, hsettle⟩ := h.settled hg
  unfold after?
  rw [hsettle]
  simp [front, ht.of_mark, hd]

theorem operatorAt?_eq {fn : Operation} (h : Spells n ts (.operator op :: ms))
    (hg : s.grouped = decide (0 < n)) (hfn : table.find? op = some fn) :
    ∃ us, Spells n us ms ∧ us.length < ts.length ∧
      ∀ rest, operatorAt? s table (ts ++ rest) = some (op, fn, us ++ rest) := by
  obtain ⟨t, us, ht, hus, hlen, hsettle⟩ := h.settled hg
  refine ⟨us, hus, hlen, fun rest => ?_⟩
  unfold operatorAt?
  rw [hsettle]
  simp [front, passed, ht.of_operator, hfn, ht.ne_finish]

theorem stops_mark (h : Spells n ts (.mark d :: ms)) (hg : s.grouped = decide (0 < n))
    (hb : ∀ k, Level.binding? d.spelling = some k → level.rank ≤ k.rank →
      k = .range ∧ s.awaitsColon = true) : Stops level s (ts ++ rest) := by
  obtain ⟨t, us, ht, -, -, hsettle⟩ := h.settled hg
  refine .of_operator ?_ hb
  rw [hsettle, front, ht.of_mark]
  rfl

theorem stops_operator (looser : Level) (h : Spells n ts (.operator op :: ms))
    (hg : s.grouped = decide (0 < n)) (hop : op ∈ looser.behind) (hr : looser.rank < level.rank) :
    Stops level s (ts ++ rest) := by
  obtain ⟨t, us, ht, -, -, hsettle⟩ := h.settled hg
  refine .of_operator (by rw [hsettle]; exact ht.of_operator) fun k hk hrank => ?_
  rw [Level.binding?_of_mem hop] at hk
  cases hk
  omega

theorem stops_looser (looser : Level) (h : Spells n ts (.mark d :: ms))
    (hg : s.grouped = decide (0 < n)) (hd : d.spelling ∈ looser.behind)
    (hr : looser.rank < level.rank) : Stops level s (ts ++ rest) := by
  refine h.stops_mark hg fun k hk hrank => ?_
  rw [Level.binding?_of_mem hd] at hk
  cases hk
  omega

theorem stops_closed (h : Spells n ts (.mark d :: ms)) (hg : s.grouped = decide (0 < n))
    (hd : Level.binding? d.spelling = none) : Stops level s (ts ++ rest) := by
  refine h.stops_mark hg fun k hk => ?_
  rw [hd] at hk
  cases hk

theorem stops_awaited (h : Spells n ts (.mark .colon :: ms)) (hg : s.grouped = decide (0 < n))
    (hs : s.awaitsColon = true) : Stops level s (ts ++ rest) := by
  refine h.stops_mark hg fun k hk _ => ⟨?_, hs⟩
  exact (Option.some.inj hk).symm

end Spells

end MetricBridge.Formula
