import MetricBridge.Dispatch.Request
import MetricBridge.Text.Base64

namespace MetricBridge.Endpoint

/-- What stands after an optional `index.php` at the end of a text; the end may be a line feed. -/
def afterIndex? (t : Text) : Option Text :=
  let candidates := [lit "index.php?", lit "index.php", []].filterMap fun name =>
    if Text.begins name t then some (t.drop name.length) else none
  candidates.find? fun rest => rest.isEmpty || rest == [.scalar '\n']

def trimIndex : Text → Text
  | [] => []
  | c :: t =>
    if c = .scalar '/' then
      match afterIndex? (t.dropWhile (· == .scalar '/')) with
      | some rest => rest
      | none => c :: trimIndex t
    else c :: trimIndex t

def normalize (base : Text) : Text := trimIndex base ++ lit "/index.php?"

structure UserInfo where
  user : Text
  password : Text
  rest : Text
deriving DecidableEq, Repr

def lineAfter? (t : Text) : Option Text :=
  let line := t.takeWhile (· ≠ .scalar '\n')
  if line.isEmpty then none else some line

/-- A user up to the first colon and a password up to the first `@` after it. -/
def userAndPassword? (t : Text) : Option UserInfo := do
  let (user, t) ← Text.cutAt (.scalar ':') t
  let (password, t) ← Text.cutAt (.scalar '@') t
  let rest ← lineAfter? t
  if user.isEmpty then none else some ⟨user, password, rest⟩

/-- A user without a password, up to the last `@` before the first colon that does not end the
line. -/
def userOnly? : Text → Option UserInfo
  | [] => none
  | c :: t =>
    if c = .scalar ':' then none
    else match userOnly? t with
      | some info => some { info with user := c :: info.user }
      | none => match t with
        | d :: t => if d = .scalar '@' then (lineAfter? t).map fun rest => ⟨[c], [], rest⟩ else none
        | [] => none

def userInfo? (t : Text) : Option UserInfo := (userAndPassword? t).orElse fun _ => userOnly? t

def basic? (user password : Text) : Option Text :=
  (user.percentDecode ++ lit ":" ++ password.percentDecode).utf8?.map fun bytes =>
    lit "Basic " ++ Text.base64 bytes

/-- The address without its credentials, and the header that carries them. Nothing if the credentials
cannot be encoded. -/
def splitUserInfo (address : Text) : Option (Entries Text Text × Text) :=
  let scheme? := [lit "https", lit "http"].find? fun s => Text.begins (s ++ lit "://") address
  match scheme?.bind fun s =>
      (userInfo? (address.drop (s.length + 3))).map fun info => (s, info) with
  | none => some ([], address)
  | some (scheme, info) => (basic? info.user info.password).map fun value =>
    ([("Authorization", value)], scheme ++ lit "://" ++ info.rest)

end MetricBridge.Endpoint
