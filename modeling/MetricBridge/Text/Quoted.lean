import MetricBridge.Text.Basic

namespace MetricBridge

def hexDigit (n : Nat) : CodePoint := .scalar (Nat.digitChar (n % 16))

def unitEscape (n : Nat) : Text :=
  [.scalar '\\', .scalar 'u', hexDigit (n / 4096), hexDigit (n / 256), hexDigit (n / 16), hexDigit n]

namespace CodePoint

/-- The escapes of a number: one unit, or a surrogate pair from `0x10000` on. -/
def numericEscape (c : CodePoint) : Text :=
  let n := c.val
  if n < 0x10000 then unitEscape n
  else
    let m := n - 0x10000
    unitEscape (0xD800 + m / 0x400) ++ unitEscape (0xDC00 + m % 0x400)

def quotedPlain (c : CodePoint) : Text :=
  if c = .scalar '"' then [.scalar '\\', .scalar '"']
  else if c = .scalar '\\' then [.scalar '\\', .scalar '\\']
  else if c = .scalar '\n' then [.scalar '\\', .scalar 'n']
  else if c = .scalar '\r' then [.scalar '\\', .scalar 'r']
  else if c = .scalar '\t' then [.scalar '\\', .scalar 't']
  else if c = .scalar '\x0C' then [.scalar '\\', .scalar 'f']
  else if c = .scalar '\x08' then [.scalar '\\', .scalar 'b']
  else if c.val < 0x20 then c.numericEscape
  else [c]

def quotedAscii (c : CodePoint) : Text :=
  if c.val < 0x7F then c.quotedPlain else c.numericEscape

end CodePoint

namespace Text

def quote (t : Text) : Text :=
  .scalar '"' :: t.flatMap CodePoint.quotedAscii ++ [.scalar '"']

def quotePlain (t : Text) : Text :=
  .scalar '"' :: t.flatMap CodePoint.quotedPlain ++ [.scalar '"']

def hexValue? : CodePoint → Option Nat
  | .surrogate _ => none
  | .scalar c =>
    if '0' ≤ c ∧ c ≤ '9' then some (c.toNat - 0x30)
    else if 'a' ≤ c ∧ c ≤ 'f' then some (c.toNat - 0x57)
    else if 'A' ≤ c ∧ c ≤ 'F' then some (c.toNat - 0x37)
    else none

def unitOfHex? (a b c d : CodePoint) : Option Nat := do
  return 4096 * (← hexValue? a) + 256 * (← hexValue? b) + 16 * (← hexValue? c) + (← hexValue? d)

end Text
end MetricBridge
