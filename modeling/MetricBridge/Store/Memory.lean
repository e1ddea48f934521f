import MetricBridge.Store.Basic

namespace MetricBridge

structure MemoryStore (τ : Type) where
  capacity : Int
  /-- The value of a key and the time when it expires. -/
  values : Entries Text (Text × τ)
  /-- The time when a key was last used. -/
  uses : Entries Text τ
  hits : Nat
  misses : Nat
  evictions : Nat

namespace MemoryStore

variable {τ : Type} [Seconds τ]

def empty (capacity : Int) : MemoryStore τ := ⟨capacity, [], [], 0, 0, 0⟩

def debug (message : Text) : LogEntry := ⟨.debug, .cache, message⟩

/-- The key with the earliest use; of several, the first. -/
def oldest? : Entries Text τ → Option (Text × τ)
  | [] => none
  | (k, t) :: uses => match oldest? uses with
    | some (l, u) => if Seconds.lt u t then some (l, u) else some (k, t)
    | none => some (k, t)

def get (now : τ) (key : Text) (s : MemoryStore τ) : StoreAnswer (MemoryStore τ) (Option Text) :=
  match Entries.find? key s.values with
  | none => ⟨.ok none, { s with misses := s.misses + 1 }, []⟩
  | some (value, expires) =>
    if Seconds.le expires now then
      ⟨.ok none, { s with
          values := Entries.erase key s.values
          uses := Entries.erase key s.uses
          misses := s.misses + 1 },
        [debug (lit "Cache EXPIRED: " ++ key)]⟩
    else
      ⟨.ok (some value), { s with uses := Entries.set key now s.uses, hits := s.hits + 1 }, []⟩

def evict (s : MemoryStore τ) : MemoryStore τ × List LogEntry :=
  match oldest? s.uses with
  | none => (s, [])
  | some (key, _) =>
    ({ s with
        values := Entries.erase key s.values
        uses := Entries.erase key s.uses
        evictions := s.evictions + 1 },
      [debug (lit "Cache EVICT: LRU entry removed (total evictions: " ++
        Text.ofNat (s.evictions + 1) ++ lit ")")])

def makeRoom (key : Text) (s : MemoryStore τ) : MemoryStore τ × List LogEntry :=
  if s.capacity ≤ s.values.length ∧ !Entries.has key s.values then s.evict else (s, [])

def put (now : τ) (key value : Text) (ttl : Int) (s : MemoryStore τ) :
    StoreAnswer (MemoryStore τ) Unit :=
  if ttl ≤ 0 then ⟨.ok (), s, []⟩
  else
    let (s, log) := s.makeRoom key
    match Seconds.ofInt? ttl with
    | none => ⟨.error .timeOutOfRange, s, log⟩
    | some (seconds : τ) =>
      ⟨.ok (), { s with
          values := Entries.set key (value, Seconds.add now seconds) s.values
          uses := Entries.set key now s.uses },
        log ++ [debug (lit "Cache STORE: " ++ key ++ lit " (ttl " ++ Text.ofInt ttl ++ lit "s)")]⟩

def clear (s : MemoryStore τ) : MemoryStore τ := { s with values := [], uses := [] }

def size (s : MemoryStore τ) : Nat := s.values.length

def requests (s : MemoryStore τ) : Nat := s.hits + s.misses

def hitRate? (s : MemoryStore τ) : Option Float :=
  if s.requests = 0 then none
  else some (Float.ofNat s.hits / Float.ofNat s.requests * 100.0)

def store : Store (MemoryStore τ) τ := ⟨get, put⟩

end MemoryStore
end MetricBridge
