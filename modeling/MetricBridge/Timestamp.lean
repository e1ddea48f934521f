import MetricBridge.Decimal.Placed

namespace MetricBridge.Timestamp

inductive Fault where
  | notANumber
  /-- The year is not one of the years 1 to 9999. -/
  | outOfCalendar
  | yearTooLarge
  | tooLarge
deriving DecidableEq, Repr

structure Instant where
  seconds : Int
  micros : Nat
deriving DecidableEq, Repr

def roundEven (x : Float) : Float :=
  let n := x.floor
  let d := x - n
  if d < 0.5 then n
  else if d > 0.5 then n + 1.0
  else if n - 2.0 * (n / 2.0).floor == 0.0 then n else n + 1.0

def wholeOf (x : Float) : Int :=
  let n : Int := (Binary.ofFloat x).floor
  if x < 0.0 then -n else n

def Instant.ofSeconds (x : Float) : Except Fault Instant :=
  if x.isNaN then .error .notANumber
  else if x ≥ 9223372036854775808.0 || x < -9223372036854775808.0 then .error .tooLarge
  else
    let whole := if x < 0.0 then x.ceil else x.floor
    let micros := roundEven ((x - whole) * 1000000.0)
    let (whole, micros) :=
      if micros ≥ 1000000.0 then (whole + 1.0, micros - 1000000.0)
      else if micros < 0.0 then (whole - 1.0, micros + 1000000.0)
      else (whole, micros)
    .ok ⟨wholeOf whole, (wholeOf micros).toNat⟩

def dateOfDay (day : Int) : Int × Nat × Nat :=
  -- years begin in March here, so that leap days come last
  let z := day + 719468
  let era := z.fdiv 146097
  let doe := (z - era * 146097).toNat
  let yoe := (doe - doe / 1460 + doe / 36524 - doe / 146096) / 365
  let doy := doe - (365 * yoe + yoe / 4 - yoe / 100)
  let mp := (5 * doy + 2) / 153
  let d := doy - (153 * mp + 2) / 5 + 1
  let m := if mp < 10 then mp + 3 else mp - 9
  ((yoe : Int) + era * 400 + (if m ≤ 2 then 1 else 0), m, d)

def padded (n : Nat) (value : Nat) : Text := Text.padLeft '0' n (Text.ofNat value)

def Instant.text (i : Instant) : Except Fault Text :=
  let day := i.seconds.fdiv 86400
  let second := (i.seconds - day * 86400).toNat
  let (y, m, d) := dateOfDay day
  if y < -2147481748 || 2147485547 < y then .error .yearTooLarge
  else if y < 1 || 9999 < y then .error .outOfCalendar
  else
    let fraction := if i.micros = 0 then [] else .scalar '.' :: padded 6 i.micros
    .ok (padded 4 y.toNat ++ lit "-" ++ padded 2 m ++ lit "-" ++ padded 2 d ++ lit "T" ++
      padded 2 (second / 3600) ++ lit ":" ++ padded 2 (second / 60 % 60) ++ lit ":" ++
      padded 2 (second % 60) ++ fraction ++ lit "+00:00")

end MetricBridge.Timestamp
