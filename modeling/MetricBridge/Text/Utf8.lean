import MetricBridge.Text.Basic

namespace MetricBridge

abbrev Bytes := List UInt8

namespace CodePoint

/-- The bytes of the code point. A lone surrogate gets the three bytes of its number. -/
def utf8 (c : CodePoint) : Bytes :=
  let n := c.val
  if n < 0x80 then [n.toUInt8]
  else if n < 0x800 then [(0xC0 + n / 0x40).toUInt8, (0x80 + n % 0x40).toUInt8]
  else if n < 0x10000 then
    [(0xE0 + n / 0x1000).toUInt8, (0x80 + n / 0x40 % 0x40).toUInt8, (0x80 + n % 0x40).toUInt8]
  else
    [(0xF0 + n / 0x40000).toUInt8, (0x80 + n / 0x1000 % 0x40).toUInt8,
      (0x80 + n / 0x40 % 0x40).toUInt8, (0x80 + n % 0x40).toUInt8]

end CodePoint

namespace Text

def utf8 (t : Text) : Bytes := t.flatMap CodePoint.utf8

def utf8? (t : Text) : Option Bytes :=
  if t.all (CodePoint.satisfies fun _ => true) then some t.utf8 else none

inductive Utf8Step where
  | read (c : CodePoint) (rest : Bytes)
  | skip (rest : Bytes)

/-- The range of the second byte after a leading byte, with the number of bytes that follow the
leading byte. Overlong forms, surrogates and numbers beyond U+10FFFF are excluded. -/
def utf8Lead (b : Nat) : Option (Nat × Nat × Nat) :=
  if 0xC2 ≤ b ∧ b < 0xE0 then some (1, 0x80, 0xBF)
  else if b = 0xE0 then some (2, 0xA0, 0xBF)
  else if b = 0xED then some (2, 0x80, 0x9F)
  else if 0xE1 ≤ b ∧ b < 0xF0 then some (2, 0x80, 0xBF)
  else if b = 0xF0 then some (3, 0x90, 0xBF)
  else if 0xF1 ≤ b ∧ b < 0xF4 then some (3, 0x80, 0xBF)
  else if b = 0xF4 then some (3, 0x80, 0x8F)
  else none

def utf8Tail : Nat → Nat → Nat → Nat → Bytes → Utf8Step
  | 0, _, _, n, rest => .read (.ofNat n) rest
  | _ + 1, _, _, _, [] => .skip []
  | count + 1, low, high, n, b :: rest =>
    if low ≤ b.toNat ∧ b.toNat ≤ high then
      utf8Tail count 0x80 0xBF (0x40 * n + b.toNat % 0x40) rest
    else .skip (b :: rest)

def utf8Step (b : UInt8) (rest : Bytes) : Utf8Step :=
  let n := b.toNat
  if n < 0x80 then .read (.ofNat n) rest
  else match utf8Lead n with
    | none => .skip rest
    | some (count, low, high) =>
      let bits := if count = 1 then n % 0x20 else if count = 2 then n % 0x10 else n % 8
      utf8Tail count low high bits rest

def readUtf8 : Nat → Bytes → Option Text
  | 0, _ => some []
  | _ + 1, [] => some []
  | fuel + 1, b :: rest => match utf8Step b rest with
    | .read c rest => (readUtf8 fuel rest).map (c :: ·)
    | .skip _ => none

def ofUtf8? (bytes : Bytes) : Option Text := readUtf8 bytes.length bytes

/-- Reads at most `fuel` steps with U+FFFD for malformed pieces. -/
def readUtf8Lossy : Nat → Bytes → Text
  | 0, _ => []
  | _ + 1, [] => []
  | fuel + 1, b :: rest => match utf8Step b rest with
    | .read c rest => c :: readUtf8Lossy fuel rest
    | .skip rest => .scalar '\uFFFD' :: readUtf8Lossy fuel rest

def ofUtf8Lossy (bytes : Bytes) : Text := readUtf8Lossy bytes.length bytes

end Text
end MetricBridge
