import MetricBridge.Proofs.Decimal.Order
import MetricBridge.Proofs.Store.Disk
import MetricBridge.Settings

namespace MetricBridge

/-- From the time on, whatever is looked up is found in both states or in none, with the same value. -/
def Store.Agrees {σ τ : Type} [Seconds τ] (s : Store σ τ) (since : τ) (y y' : σ) : Prop :=
  ∀ later key, Seconds.le since later = true →
    (s.get later key y').result = (s.get later key y).result

theorem MemoryStore.agrees_get {τ : Type} [Seconds τ] {y : MemoryStore τ} (h : y.InOrder)
    (htrans : ∀ {a b c : τ}, Seconds.le a b = true → Seconds.le b c = true → Seconds.le a c = true)
    (now : τ) (other : Text) : store.Agrees now y (get now other y).state := by
  intro later key hlater
  refine (result_get later key _).trans ((congrArg Except.ok ?_).trans (result_get later key y).symm)
  rcases values_get now other y with heq | ⟨heq, value, expires, hfind, hexpired⟩
  · rw [heq]
  · rw [heq]
    by_cases hkey : other = key
    · subst hkey
      rw [Entries.find?_erase_self h, hfind]
      simp [htrans hexpired hlater]
    · rw [Entries.find?_erase_of_ne hkey]

namespace StoreChoice

variable {key : Text}

def State : StoreChoice → Type
  | disk _ => Files
  | memory _ => MemoryStore Float

def store : (choice : StoreChoice) → Store choice.State Float
  | disk folder => DiskStore.store folder
  | memory _ => MemoryStore.store

def Sound : (choice : StoreChoice) → choice.State → Prop
  | disk _, _ => True
  | memory _, y => MemoryStore.InOrder y

def InOrder : (choice : StoreChoice) → choice.State → Prop
  | disk folder, files => DiskStore.InOrder folder files
  | memory _, y => MemoryStore.InOrder y

def Same : (choice : StoreChoice) → choice.State → choice.State → Prop
  | disk folder => DiskStore.Same folder
  | memory _ => Eq

def Admits (key : Text) : StoreChoice → Prop
  | disk _ => key.IsJoined
  | memory _ => True

theorem keeps {choice : StoreChoice} (h : choice.Admits key) :
    choice.store.Keeps key choice.Sound choice.InOrder choice.Same := by
  cases choice with
  | disk folder => exact DiskStore.keeps folder h
  | memory capacity => exact MemoryStore.keeps key

theorem agrees_get (choice : StoreChoice) {y : choice.State} (h : choice.Sound y) (now : Float)
    (key : Text) : choice.store.Agrees now y (choice.store.get now key y).state := by
  cases choice with
  | disk folder =>
      intro later other _
      have hstate : (DiskStore.get folder now key y).state = y := (DiskStore.get_eq now key y).1
      exact congrArg (fun files => (DiskStore.get folder later other files).result) hstate
  | memory capacity =>
      refine MemoryStore.agrees_get h (fun {a b c} hab hbc => ?_) now key
      exact decide_eq_true (floatLe_trans (of_decide_eq_true hab) (of_decide_eq_true hbc))

end StoreChoice
end MetricBridge
