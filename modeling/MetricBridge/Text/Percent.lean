import MetricBridge.Text.Quoted
import MetricBridge.Text.Utf8

namespace MetricBridge.Text

def isUnreserved (c : Char) : Bool :=
  c.isAlphanum || c == '_' || c == '.' || c == '-' || c == '~'

def percentByte (b : UInt8) : Text :=
  let digit := fun n : Nat => CodePoint.scalar (Nat.digitChar n).toUpper
  [.scalar '%', digit (b.toNat / 16), digit (b.toNat % 16)]

def percentEncode (safe : Char → Bool) (t : Text) : Text :=
  t.flatMap fun c =>
    if c.satisfies fun c => isUnreserved c || safe c then [c] else c.utf8.flatMap percentByte

def hexPair? (a b : CodePoint) : Option UInt8 := do
  return (16 * (← hexValue? a) + (← hexValue? b)).toUInt8

def takePercentBytes : Text → Bytes × Text
  | .scalar '%' :: a :: b :: t => match hexPair? a b with
    | some byte => let (bytes, rest) := takePercentBytes t; (byte :: bytes, rest)
    | none => ([], .scalar '%' :: a :: b :: t)
  | t => ([], t)

def decodePieces : Nat → Text → Text
  | 0, t => t
  | _ + 1, [] => []
  | fuel + 1, c :: t =>
    let (bytes, rest) := takePercentBytes (c :: t)
    if bytes.isEmpty then c :: decodePieces fuel t else ofUtf8Lossy bytes ++ decodePieces fuel rest

/-- The text with encoded bytes decoded as UTF-8. Percent signs without two digits stay. -/
def percentDecode (t : Text) : Text := decodePieces t.length t

end MetricBridge.Text
