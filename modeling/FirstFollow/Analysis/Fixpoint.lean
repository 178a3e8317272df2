/-!
# Passes to a fixed point

A computation that repeats a pass over its state until a pass reports no change. The number of
passes is limited by `fuel`; its users give more than their passes can need.
-/

namespace FirstFollow

/-- The passes that were completed, each with whether it changed the state, and the last state
    or the error that ended the last pass. -/
structure PassRun (ε σ : Type) where
  flags : List Bool
  result : Except ε σ

/-- Repeats `pass` until it changes nothing. -/
def runPasses {ε σ : Type} (pass : σ → Except ε (σ × Bool)) : Nat → σ → PassRun ε σ
  | 0, s => ⟨[], .ok s⟩
  | fuel + 1, s =>
    match pass s with
    | .error e => ⟨[], .error e⟩
    | .ok (next, false) => ⟨[false], .ok next⟩
    | .ok (next, true) =>
      let rest := runPasses pass fuel next
      ⟨true :: rest.flags, rest.result⟩

end FirstFollow
