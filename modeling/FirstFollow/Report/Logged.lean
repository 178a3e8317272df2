import FirstFollow.Report.Event

/-!
# Logged results

A logged computation gives the events it reported beside its result, also when it failed half
way. Computations are chained like those that may fail, and their events add up
(`Logged.events_bind`).
-/

namespace FirstFollow

/-- A result, and the events reported before it was reached. -/
structure Logged (α : Type) where
  events : List Event
  result : Except Error α

namespace Logged

variable {α β : Type}

/-- A result without events. -/
def ofExcept (result : Except Error α) : Logged α := ⟨[], result⟩

/-- Goes on with the result, unless there is none, and reports the events of both. -/
def bind (first : Logged α) (next : α → Logged β) : Logged β :=
  match first.result with
  | .ok a => ⟨first.events ++ (next a).events, (next a).result⟩
  | .error e => ⟨first.events, .error e⟩

instance : Monad Logged where
  pure a := ofExcept (.ok a)
  bind := bind

instance : MonadLift (Except Error) Logged := ⟨ofExcept⟩

/-- Reports one event. -/
def report (event : Event) : Logged Unit := ⟨[event], .ok ()⟩

@[simp] theorem result_pure (a : α) : (pure a : Logged α).result = .ok a := rfl

@[simp] theorem events_pure (a : α) : (pure a : Logged α).events = [] := rfl

@[simp] theorem result_ofExcept (result : Except Error α) : (ofExcept result).result = result := rfl

@[simp] theorem events_ofExcept (result : Except Error α) : (ofExcept result).events = [] := rfl

theorem result_bind (first : Logged α) (next : α → Logged β) :
    (first >>= next).result = first.result >>= fun a => (next a).result := by
  obtain ⟨events, result⟩ := first
  cases result <;> rfl

/-- A failed computation is the last to report. -/
theorem events_bind (first : Logged α) (next : α → Logged β) :
    (first >>= next).events = first.events ++
      match first.result with
      | .ok a => (next a).events
      | .error _ => [] := by
  obtain ⟨events, result⟩ := first
  cases result with
  | ok a => rfl
  | error e => exact (List.append_nil events).symm

end Logged

end FirstFollow
