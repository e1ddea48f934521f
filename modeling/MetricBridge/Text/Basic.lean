namespace MetricBridge

/-- A Unicode code point: a scalar value, or the surrogate `0xD800 + n`. -/
inductive CodePoint where
  | scalar (c : Char)
  | surrogate (n : Fin 0x800)
deriving DecidableEq, Repr, Inhabited

namespace CodePoint

instance : Coe Char CodePoint := ⟨.scalar⟩

def val : CodePoint → Nat
  | .scalar c => c.toNat
  | .surrogate n => 0xD800 + n

def ofNat (n : Nat) : CodePoint :=
  if h : 0xD800 ≤ n ∧ n < 0xE000 then .surrogate ⟨n - 0xD800, by omega⟩ else .scalar (Char.ofNat n)

/-- The character itself; a lone surrogate becomes U+FFFD, for outputs that cannot carry it. -/
def toChar : CodePoint → Char
  | .scalar c => c
  | .surrogate _ => '\uFFFD'

def satisfies (p : Char → Bool) : CodePoint → Bool
  | .scalar c => p c
  | .surrogate _ => false

end CodePoint

/-- A sequence of code points; positions and lengths count code points. -/
abbrev Text := List CodePoint

def lit (s : String) : Text := s.toList.map .scalar

instance : Coe String Text := ⟨lit⟩

namespace Text

def toString (t : Text) : String := String.ofList (t.map CodePoint.toChar)

def ofNat (n : Nat) : Text := (Nat.toDigits 10 n).map .scalar

def ofInt : Int → Text
  | .ofNat n => ofNat n
  | .negSucc n => .scalar '-' :: ofNat (n + 1)

def joinWith (separator : Text) : List Text → Text
  | [] => []
  | [part] => part
  | part :: parts => part ++ separator ++ joinWith separator parts

def begins (start : Text) (t : Text) : Bool := start.isPrefixOf t

def le : Text → Text → Bool
  | [], _ => true
  | _ :: _, [] => false
  | a :: s, b :: t => a.val < b.val || (a.val == b.val && le s t)

def occursIn (part : Text) : Text → Bool
  | [] => part.isEmpty
  | c :: t => begins part (c :: t) || occursIn part t

def stripWhere (p : CodePoint → Bool) (t : Text) : Text :=
  ((t.dropWhile p).reverse.dropWhile p).reverse

def stripRightWhere (p : CodePoint → Bool) (t : Text) : Text := (t.reverse.dropWhile p).reverse

def cutAt (c : CodePoint) : Text → Option (Text × Text)
  | [] => none
  | d :: t => if d = c then some ([], t) else (cutAt c t).map fun (a, b) => (d :: a, b)

def pieces (c : CodePoint) : Text → List Text
  | [] => [[]]
  | d :: t =>
    if d = c then [] :: pieces c t
    else match pieces c t with
      | [] => [[d]]
      | piece :: rest => (d :: piece) :: rest

end Text
end MetricBridge
