import FirstFollow.Analysis.Fixpoint

/-!
# Loops of passes

`Runs` is the loop that repeats a pass until one changes nothing, with no limit on the number of
passes. When every changing pass moves a measure up, and the measure is bounded, a limited loop
with enough fuel is that loop (`runs_runPasses`).
-/

namespace FirstFollow

/-- Repeating `pass` from a state reports these changes and ends with this result. -/
inductive Runs {ε σ : Type} (pass : σ → Except ε (σ × Bool)) :
    σ → List Bool → Except ε σ → Prop where
  | stable {s next : σ} (h : pass s = .ok (next, false)) : Runs pass s [false] (.ok next)
  | failed {s : σ} {e : ε} (h : pass s = .error e) : Runs pass s [] (.error e)
  | changed {s next : σ} {flags : List Bool} {result : Except ε σ} (h : pass s = .ok (next, true))
      (rest : Runs pass next flags result) : Runs pass s (true :: flags) result

variable {ε σ : Type} {pass : σ → Except ε (σ × Bool)}

/-- The passes that a loop begins: those that it completes, and the one that fails if one does. -/
def PassRun.begun (run : PassRun ε σ) : Nat :=
  match run.result with
  | .ok _ => run.flags.length
  | .error _ => run.flags.length + 1

section

variable (Inv : σ → Prop) (measure : σ → Nat) (bound : Nat)
  (step : ∀ s next flag, Inv s → pass s = .ok (next, flag) →
    Inv next ∧ (flag = true → measure s < measure next))
  (bounded : ∀ s, Inv s → measure s ≤ bound)

include step bounded

/-- A limited loop does not run out of fuel when the measure cannot climb that often. -/
theorem runs_runPasses (fuel : Nat) {s : σ} (hs : Inv s) (enough : bound < measure s + fuel) :
    Runs pass s (runPasses pass fuel s).flags (runPasses pass fuel s).result := by
  induction fuel generalizing s with
  | zero =>
    have := bounded s hs
    omega
  | succ fuel ih =>
    unfold runPasses
    split
    · exact .failed ‹_›
    · exact .stable ‹_›
    · rename_i next h
      obtain ⟨hnext, climbs⟩ := step s next true hs h
      have := climbs rfl
      exact .changed h (ih hnext (by omega))

/-- A loop begins at most one pass more than the measure can climb. -/
theorem Runs.begun_le {s : σ} {flags : List Bool} {result : Except ε σ}
    (run : Runs pass s flags result) (hs : Inv s) :
    measure s + (PassRun.mk flags result).begun ≤ bound + 1 := by
  induction run with
  | @stable s next _ =>
    have := bounded s hs
    simp only [PassRun.begun, List.length_singleton]
    omega
  | @failed s e _ =>
    have := bounded s hs
    simp only [PassRun.begun, List.length_nil]
    omega
  | @changed s next flags result h _ ih =>
    obtain ⟨hnext, climbs⟩ := step s next true hs h
    have hrest := ih hnext
    have := climbs rfl
    cases result <;> simp only [PassRun.begun, List.length_cons] at hrest ⊢ <;> omega

end

/-- A loop succeeds when its passes keep a property of states from which none of them fails. -/
theorem Runs.exists_ok {s : σ} {flags : List Bool} {result : Except ε σ}
    (run : Runs pass s flags result) (Inv : σ → Prop) (hs : Inv s)
    (step : ∀ s, Inv s → ∃ next flag, pass s = .ok (next, flag) ∧ Inv next) :
    ∃ t, result = .ok t := by
  induction run with
  | stable => exact ⟨_, rfl⟩
  | @failed s e hpass =>
    obtain ⟨next, flag, hnext, -⟩ := step s hs
    rw [hpass] at hnext
    cases hnext
  | @changed s next flags result hpass _ ih =>
    obtain ⟨next', flag, hnext, hinv⟩ := step s hs
    rw [hpass] at hnext
    cases hnext
    exact ih hinv

/-- A loop that fails ends with a pass that fails, from a state that satisfies all that the passes
    keep. -/
theorem Runs.failing_pass {s : σ} {e : ε} {flags : List Bool} (run : Runs pass s flags (.error e))
    (Inv : σ → Prop) (hs : Inv s) (step : ∀ s next, Inv s → pass s = .ok (next, true) → Inv next) :
    ∃ u, Inv u ∧ pass u = .error e := by
  generalize hresult : Except.error e = result at run
  induction run with
  | stable => cases hresult
  | failed h =>
    cases hresult
    exact ⟨_, hs, h⟩
  | changed h _ ih => exact ih (step _ _ hs h) hresult

/-- A loop that succeeds ends with a pass that changes nothing, from a state that satisfies all
    that the passes keep. -/
theorem Runs.last_pass {s t : σ} {flags : List Bool} (run : Runs pass s flags (.ok t))
    (Inv : σ → Prop) (hs : Inv s) (step : ∀ s next, Inv s → pass s = .ok (next, true) → Inv next) :
    ∃ u, Inv u ∧ pass u = .ok (t, false) := by
  generalize hresult : Except.ok t = result at run
  induction run with
  | stable h =>
    cases hresult
    exact ⟨_, hs, h⟩
  | failed => cases hresult
  | changed h _ ih => exact ih (step _ _ hs h) hresult

end FirstFollow
