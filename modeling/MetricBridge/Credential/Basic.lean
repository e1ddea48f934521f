import MetricBridge.Log.Basic

namespace MetricBridge

structure Credentials where
  address : Option Text
  token : Option Text
deriving DecidableEq, Repr

inductive CredentialFault where
  /-- No source has all of them. -/
  | notFound
  | notText
  | integerTooLong
deriving DecidableEq, Repr

structure CredentialLookup where
  result : Except CredentialFault Credentials
  log : List LogEntry

def CredentialLookup.fixed (address token : Option Text) : CredentialLookup :=
  ⟨.ok ⟨address, token⟩, []⟩

end MetricBridge
