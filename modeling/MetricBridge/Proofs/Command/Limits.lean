import MetricBridge.Command.Arguments
import MetricBridge.Proofs.Decimal.Order

namespace MetricBridge

open Float.Model (UnpackedFloat)

def IsUsable (x : Float) : Prop := x.isFinite = true ∧ 0.0 ≤ x

instance (x : Float) : Decidable (IsUsable x) :=
  inferInstanceAs (Decidable (x.isFinite = true ∧ 0.0 ≤ x))

variable {x y : Float}

theorem isUsable_of_not_lt (h : x.isFinite = true) (hx : ¬ x < 0.0) : IsUsable x := by
  have hzero : (0.0 : Float).isNaN = false := by decide +kernel
  refine ⟨h, ?_⟩
  by_contra hle
  exact hx ((floatNot_le hzero (isNaN_of_isFinite h)).mp hle)

namespace Settings

variable {α : Type} {read : Text → Option α} {isNegative : α → Bool} {show_ : α → Text}
  {env : Environment} {name : Text} {default : α}

/-- A number from the environment is the default or one that was read and is not negative. -/
theorem number_spec {P : α → Prop} (hdefault : P default)
    (hread : ∀ t n, read t = some n → isNegative n = false → P n) :
    P (number read isNegative show_ env name default).1 := by
  unfold number
  split
  · exact hdefault
  · rename_i value _
    split
    · rename_i n hn
      obtain ⟨hvalue, hnegative⟩ := Option.filter_eq_some_iff.mp hn
      exact hread value n hvalue (by simpa using hnegative)
    · exact hdefault

theorem finite?_isFinite {t : Text} (h : finite? t = some x) : x.isFinite = true := by
  unfold finite? at h
  split at h
  · split at h
    · rename_i hfinite
      cases h
      exact hfinite
    · cases h
  · cases h

theorem seconds_isUsable {default : Float} (h : IsUsable default) :
    IsUsable (seconds env name default).1 :=
  number_spec h fun _ _ hread hnegative =>
    isUsable_of_not_lt (finite?_isFinite hread) (of_decide_eq_false hnegative)

theorem count_nonneg {default : Int} (h : 0 ≤ default) : 0 ≤ (count env name default).1 :=
  number_spec h fun _ _ _ hnegative => Int.not_lt.mp (of_decide_eq_false hnegative)

/-- The only headers that fail are JSON with an integer that has too many digits. -/
theorem headers_ok_iff : (∃ fields, (headers env name).1 = .ok fields) ↔
    ∀ value, Entries.find? name env = some value → value ≠ [] →
      Json.parse value ≠ .error .integerTooLong := by
  unfold headers
  rcases Entries.find? name env with _ | _ | ⟨c, value⟩
  · simp
  · simp
  · cases hparse : Json.parse (c :: value) with
    | ok j => cases j <;> simp [hparse]
    | error fault => cases fault <;> simp [hparse]

theorem ofEnvironment_ok_iff : (∃ s, (ofEnvironment env).1 = .ok s) ↔
    ∃ fields, (headers env "API_REQUEST_EXTRA_HEADERS").1 = .ok fields := by
  unfold ofEnvironment
  dsimp only
  split
  · rename_i hfault
    rw [hfault]
    exact ⟨nofun, nofun⟩
  · rename_i hfields
    rw [hfields]
    exact ⟨fun _ => ⟨_, rfl⟩, fun _ => ⟨_, rfl⟩⟩

theorem ofEnvironment_limits {s : Settings} (h : (ofEnvironment env).1 = .ok s) :
    IsUsable s.dispatch.retryLimit ∧ IsUsable s.dispatch.runtimeLimit ∧ 0 ≤ s.configTtl := by
  unfold ofEnvironment at h
  dsimp only at h
  split at h
  · cases h
  · cases h
    exact ⟨seconds_isUsable (by decide +kernel), seconds_isUsable (by decide +kernel),
      count_nonneg (Int.le_refl 0)⟩

theorem isUsable_getD {given : Option Float} (h : IsUsable x) :
    IsUsable (given.getD x) ↔ ∀ y, given = some y → IsUsable y := by
  cases given with
  | none => exact ⟨nofun, fun _ => h⟩
  | some y => exact ⟨fun hy _ heq => Option.some.inj heq ▸ hy, fun hall => hall y rfl⟩

end Settings

namespace Command

variable {table : Table} {s : Switch} {t : Text} (hs : s.kind = .value .float)
  (h : Text.readFloat t = .ok x)

include hs h

theorem apply_float (r : Table.Reading) : table.apply r [(s, some t)] =
    .ok { r with given := r.given ++ [(s.id, some (.float x))] } := by
  rw [Table.apply, hs]
  simp only [Option.getD_some, ValueKind.read, h]
  rfl

/-- Every text that denotes a float is taken as the value of a switch for floats. -/
theorem takeSwitch_float (name : Text) (rest : List Argument) :
    table.takeSwitch {} s name (some ⟨true, t⟩) rest =
      .ok ({ given := [(s.id, some (.float x))] }, rest) := by
  have hunpack : table.unpack s name true t = .ok ([(s, some t)], .nothing) := by
    have hvalue : s.takesValue = true := by rw [Switch.takesValue, hs]
    cases t <;> rw [Table.unpack, if_pos hvalue]
  simp only [Table.takeSwitch, hunpack]
  show (table.apply {} [(s, some t)] >>= _) = _
  rw [apply_float hs h]
  rfl

theorem read_float (hclass : mainTable.classifyAll [s.id ++ lit "=" ++ t, "sites"] =
      .ok [.switch (s.id ++ lit "=" ++ t) (some (s, s.id, some ⟨true, t⟩)), .word "sites"]) :
    mainTable.read [s.id ++ lit "=" ++ t, "sites"] =
      .ok { given := [(s.id, some (.float x))], words := ["sites"] } := by
  rw [Table.read, hclass]
  show (mainTable.takeAll _ _ _ >>= _) = _
  simp only [Table.takeAll, takeSwitch_float hs h]
  rfl

omit hs

theorem read_retryLimit : Invocation.read [lit "--retry-limit=" ++ t, "sites"] =
    .ok ⟨{ retryLimit := some x }, none, .sites⟩ := by
  have hread : mainTable.read [lit "--retry-limit=" ++ t, "sites"] =
      .ok { given := [("--retry-limit", some (.float x))], words := ["sites"] } :=
    read_float (s := ⟨["--retry-limit"], .value .float, false⟩) rfl h rfl
  show (mainTable.read _ >>= _) = _
  rw [hread]
  rfl

theorem read_runtimeLimit : Invocation.read [lit "--runtime-limit=" ++ t, "sites"] =
    .ok ⟨{ runtimeLimit := some x }, none, .sites⟩ := by
  have hread : mainTable.read [lit "--runtime-limit=" ++ t, "sites"] =
      .ok { given := [("--runtime-limit", some (.float x))], words := ["sites"] } :=
    read_float (s := ⟨["--runtime-limit"], .value .float, false⟩) rfl h rfl
  show (mainTable.read _ >>= _) = _
  rw [hread]
  rfl

end Command

namespace Dispatcher

variable {σ : Type} {d : Dispatcher σ Float} {state : RetryState Float} {now : Float}

theorem isOver_float : d.isOver state now = true ↔ state.start + d.settings.retryLimit ≤ now :=
  decide_eq_true_iff

theorem isOver_of_isUsable (hstart : state.start.isFinite = true)
    (hlimit : IsUsable d.settings.retryLimit) (hnow : now.isNaN = false) :
    d.isOver state now = false ↔ now < state.start + d.settings.retryLimit := by
  have hsum : (state.start + d.settings.retryLimit).isNaN = false :=
    isNaN_add (isNaN_of_isFinite hstart) (isNaN_of_isFinite hlimit.1) (isInf_of_isFinite hlimit.1)
  rw [← floatNot_le hsum hnow, ← isOver_float, Bool.not_eq_true]

/-- A limit that does not pass. -/
theorem isOver_of_endless (hstart : state.start.isFinite = true)
    (hlimit : d.settings.retryLimit.isNaN = true ∨
      d.settings.retryLimit.isInf = true ∧ 0.0 ≤ d.settings.retryLimit)
    (hnow : now.isFinite = true) : d.isOver state now = false := by
  rw [← Bool.not_eq_true, isOver_float]
  rcases hlimit with hnan | ⟨hinf, hpositive⟩
  · intro hle
    exact absurd (isNaN_add_right hnan) (Bool.eq_false_iff.mp (isNaN_of_le hle).1)
  · exact not_infinity_le (unpack_add_infinity hstart (unpack_of_isInf hinf hpositive)) hnow

end Dispatcher

namespace Command

/-- There are settings for every environment, unless its headers are JSON with an integer that has
too many digits. How long configuration is kept is never negative. A limit is usable if and only if
the command line gives none or a usable one; but the command line takes every text that denotes a
float. With a usable limit the time for retries is over or still to come; with a limit that is no
number or infinite it is over at no time. -/
theorem limits_as_given (env : Entries Text Text) :
    ((∃ s, (Settings.ofEnvironment env).1 = .ok s) ↔
      ∀ value, Entries.find? (lit "API_REQUEST_EXTRA_HEADERS") env = some value → value ≠ [] →
        Json.parse value ≠ .error .integerTooLong) ∧
    (∀ s, (Settings.ofEnvironment env).1 = .ok s → ∀ o, 0 ≤ (s.override o).configTtl ∧
      (IsUsable (s.override o).dispatch.retryLimit ↔ ∀ x, o.retryLimit = some x → IsUsable x) ∧
      (IsUsable (s.override o).dispatch.runtimeLimit ↔
        ∀ x, o.runtimeLimit = some x → IsUsable x)) ∧
    (∀ {t x}, Text.readFloat t = .ok x →
      Invocation.read [lit "--retry-limit=" ++ t, "sites"] =
        .ok ⟨{ retryLimit := some x }, none, .sites⟩ ∧
      Invocation.read [lit "--runtime-limit=" ++ t, "sites"] =
        .ok ⟨{ runtimeLimit := some x }, none, .sites⟩) ∧
    ∀ {σ} (d : Dispatcher σ Float) (state : RetryState Float), state.start.isFinite = true →
      (IsUsable d.settings.retryLimit → ∀ now, now.isNaN = false →
        (d.isOver state now = false ↔ now < state.start + d.settings.retryLimit)) ∧
      (d.settings.retryLimit.isNaN = true ∨
          d.settings.retryLimit.isInf = true ∧ 0.0 ≤ d.settings.retryLimit →
        ∀ now, now.isFinite = true → d.isOver state now = false) := by
  refine ⟨Settings.ofEnvironment_ok_iff.trans Settings.headers_ok_iff, fun s hs o => ?_,
    fun h => ⟨read_retryLimit h, read_runtimeLimit h⟩,
    fun d state hstart => ⟨fun hlimit _ => Dispatcher.isOver_of_isUsable hstart hlimit,
      fun hlimit _ => Dispatcher.isOver_of_endless hstart hlimit⟩⟩
  obtain ⟨hretry, hruntime, hkept⟩ := Settings.ofEnvironment_limits hs
  exact ⟨hkept, Settings.isUsable_getD hretry, Settings.isUsable_getD hruntime⟩

/-- A limit from the environment that is not used, and one from the command line that is. -/
theorem limits_as_given_infinite : ∃ s,
    (Settings.ofEnvironment [("API_REQUEST_RETRY_LIMIT_IN_SECS", "inf")]).1 = .ok s ∧
    IsUsable s.dispatch.retryLimit ∧
    Invocation.read ["--retry-limit=inf", "sites"] =
      .ok ⟨{ retryLimit := some (1.0 / 0.0) }, none, .sites⟩ ∧
    ¬ IsUsable (s.override { retryLimit := some (1.0 / 0.0) }).dispatch.retryLimit ∧
    let d : Dispatcher Unit Float :=
      { settings := (s.override { retryLimit := some (1.0 / 0.0) }).dispatch
        fetcher := fun _ batch => ⟨0.0, .ok (batch.map fun _ => ⟨503, none⟩)⟩
        store := none
        credentials := none
        maxRounds := 100 }
    d.isOver ⟨[], 1.0, 1000.0, 1, []⟩ 1000000.0 = false := by
  obtain ⟨hok, hlimits, hread, hover⟩ :=
    limits_as_given [("API_REQUEST_RETRY_LIMIT_IN_SECS", "inf")]
  obtain ⟨s, hs⟩ := hok.mpr nofun
  have hunset := (hlimits s hs {}).2.1.mpr nofun
  have hinfinite : ¬ IsUsable (1.0 / 0.0) := by decide +kernel
  refine ⟨s, hs, hunset, (hread (t := "inf") rfl).1, fun hlimit => ?_, ?_⟩
  · exact hinfinite ((hlimits s hs { retryLimit := some (1.0 / 0.0) }).2.1.mp hlimit _ rfl)
  · intro d
    have hlimit : d.settings.retryLimit = 1.0 / 0.0 := rfl
    refine (hover d ⟨[], 1.0, 1000.0, 1, []⟩ (by decide +kernel)).2 ?_ 1000000.0 (by decide +kernel)
    rw [hlimit]
    exact .inr (by decide +kernel)

end Command

end MetricBridge
