import MetricBridge.Text.Basic

namespace MetricBridge

namespace CodePoint

/-- The lower-case Latin letter that the code point stands for when case is ignored. The dotted and
the dotless i count as `i`, the long s as `s`, the Kelvin sign as `k`. Other code points stay. -/
def fold : CodePoint → CodePoint
  | .surrogate n => .surrogate n
  | .scalar c =>
    if c = '\u0130' ∨ c = '\u0131' then .scalar 'i'
    else if c = '\u017F' then .scalar 's'
    else if c = '\u212A' then .scalar 'k'
    else .scalar c.toLower

def foldsToLetter (c : CodePoint) : Bool := c.fold.satisfies fun d => 'a' ≤ d && d ≤ 'z'

end CodePoint

namespace Text

def beginsFolded (start : Text) (t : Text) : Bool := begins start (t.map CodePoint.fold)

/-- Lower case, in so far as ASCII letters come out of it: the Kelvin sign is lowered to `k` and the
dotted capital I to `i` with a combining dot. -/
def lowerLatin (t : Text) : Text :=
  t.flatMap fun
    | .surrogate n => [.surrogate n]
    | .scalar c =>
      if c = '\u212A' then [.scalar 'k']
      else if c = '\u0130' then [.scalar 'i', .scalar '\u0307']
      else [.scalar c.toLower]

def upperLatin (t : Text) : Text :=
  t.map fun
    | .surrogate n => .surrogate n
    | .scalar c => if c = '\u0131' then .scalar 'I' else .scalar c.toUpper

end Text
end MetricBridge
