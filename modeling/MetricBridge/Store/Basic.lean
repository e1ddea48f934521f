import MetricBridge.Files
import MetricBridge.Log.Basic
import MetricBridge.Seconds

namespace MetricBridge

inductive StoreFault where
  | file (fault : FileFault) (path : Path)
  | device (message : Text)
  | notText
  | integerTooLong
  | timeOutOfRange
  | broken (message : Text)
deriving DecidableEq, Repr

namespace StoreFault

def message : StoreFault → Text
  | file fault path => fault.message path
  | device message => message
  | notText => "invalid text encoding"
  | integerTooLong => "integer with too many digits"
  | timeOutOfRange => "time out of range"
  | broken message => message

def isRefusal : StoreFault → Bool
  | file .. | device _ => true
  | notText | integerTooLong | timeOutOfRange | broken _ => false

/-- Whether a value that cannot be stored for this reason may be dropped. -/
def isTolerable : StoreFault → Bool
  | file .. | device _ | notText | integerTooLong => true
  | timeOutOfRange | broken _ => false

end StoreFault

structure StoreAnswer (σ α : Type) where
  result : Except StoreFault α
  state : σ
  log : List LogEntry

/-- A store with states in `σ` and times in `τ`. -/
structure Store (σ τ : Type) where
  get : τ → Text → σ → StoreAnswer σ (Option Text)
  put : τ → Text → Text → Int → σ → StoreAnswer σ Unit

def Store.withClock {σ τ : Type} (clock : τ → τ) (s : Store σ τ) : Store σ τ where
  get now := s.get (clock now)
  put now := s.put (clock now)

end MetricBridge
