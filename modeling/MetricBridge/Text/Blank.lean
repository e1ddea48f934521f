import MetricBridge.Text.Basic

namespace MetricBridge

namespace CodePoint

/-- White space and the separators U+001C to U+001F. The zero width space and the byte order mark
are not blank. -/
def isBlank (c : CodePoint) : Bool :=
  let n := c.val
  (9 ≤ n && n ≤ 13) || (0x1C ≤ n && n ≤ 0x20) || n == 0x85 || n == 0xA0 || n == 0x1680 ||
    (0x2000 ≤ n && n ≤ 0x200A) || n == 0x2028 || n == 0x2029 || n == 0x202F || n == 0x205F ||
    n == 0x3000

end CodePoint

namespace Text

def trim (t : Text) : Text := stripWhere CodePoint.isBlank t

def trimRight (t : Text) : Text := stripRightWhere CodePoint.isBlank t

end Text
end MetricBridge
