import SasLayout.Event

set_option autoImplicit false

/-! Computations that log: a value together with the events on the way to it. The value of a
sequence of computations does not depend on their events. -/
namespace SasLayout

structure Logged (α : Type) where
  value : α
  events : Array Event := #[]

namespace Logged

variable {α β : Type}

@[inline] protected def pure (a : α) : Logged α :=
  ⟨a, #[]⟩

@[inline] protected def bind (x : Logged α) (f : α → Logged β) : Logged β :=
  let y := f x.value
  ⟨y.value, x.events ++ y.events⟩

instance : Monad Logged where
  pure := Logged.pure
  bind := Logged.bind

instance : LawfulMonad Logged := LawfulMonad.mk' Logged
  (by intro α x; cases x; simp [Functor.map, Logged.bind, Logged.pure])
  (by intro α β x f; simp [Bind.bind, Pure.pure, Logged.bind, Logged.pure])
  (by intro α β γ x f g; simp [Bind.bind, Logged.bind, Array.append_assoc])

/-- One event and no value. -/
def log (e : Event) : Logged Unit :=
  ⟨(), #[e]⟩

@[simp] theorem value_pure (a : α) : (pure a : Logged α).value = a := rfl

@[simp] theorem value_bind (x : Logged α) (f : α → Logged β) :
    (x >>= f).value = (f x.value).value := rfl

@[simp] theorem value_map (f : α → β) (x : Logged α) : (f <$> x).value = f x.value := rfl

@[simp] theorem events_pure (a : α) : (pure a : Logged α).events = #[] := rfl

@[simp] theorem events_bind (x : Logged α) (f : α → Logged β) :
    (x >>= f).events = x.events ++ (f x.value).events := rfl

@[simp] theorem events_map (f : α → β) (x : Logged α) : (f <$> x).events = x.events :=
  Array.append_empty

end Logged
end SasLayout
