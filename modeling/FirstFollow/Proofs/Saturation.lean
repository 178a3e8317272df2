import Mathlib.Order.Bounds.Basic
import FirstFollow.Proofs.Growth
import FirstFollow.Proofs.Passes

/-!
# Saturation

A pass saturates towards a property of relations when it only grows tables, never leaves a
relation with the property, and adds nothing to a table only when the table has it. Passes that
stay among finitely many keys and symbols come to an end (`Saturates.runs`), at the least
relation with the property that contains the first table (`Saturates.isLeast`).
-/

namespace FirstFollow

/-- A pass moves tables towards the relations with a property. -/
structure Saturates (pass : SetTable → Except Error (SetTable × Bool))
    (Closed : SymbolRelation → Prop) : Prop where
  grows {table next : SetTable} {grew : Bool} (h : pass table = .ok (next, grew)) :
    table.Grows next grew
  le {table next : SetTable} {grew : Bool} {R : SymbolRelation}
    (h : pass table = .ok (next, grew)) (hle : table.rel ≤ R) (hR : Closed R) : next.rel ≤ R
  closed {table next : SetTable} (h : pass table = .ok (next, false)) : Closed table.rel

namespace Saturates

variable {pass : SetTable → Except Error (SetTable × Bool)} {Closed : SymbolRelation → Prop}
  {start table : SetTable} {flags : List Bool}

section

variable (h : Saturates pass Closed) {keys : List NonterminalId} {symbols : List Symbol}
  (hkeys : ∀ table next grew, pass table = .ok (next, grew) →
    (∀ id ∈ table, id ∈ keys) → ∀ id ∈ next, id ∈ keys)
  (hsymbols : Closed fun _ x => x ∈ symbols) (hmem : ∀ id ∈ start, id ∈ keys)
  (hrel : start.rel ≤ fun _ x => x ∈ symbols)

include h hkeys hsymbols

/-- Passes stay among the keys and symbols, and climb in weight. -/
theorem step_among (next : SetTable) (grew : Bool)
    (hamong : (∀ id ∈ table, id ∈ keys) ∧ table.rel ≤ fun _ x => x ∈ symbols)
    (hpass : pass table = .ok (next, grew)) :
    ((∀ id ∈ next, id ∈ keys) ∧ next.rel ≤ fun _ x => x ∈ symbols) ∧
      (grew = true → table.weight < next.weight) := by
  obtain ⟨hids, hle⟩ := hamong
  refine ⟨⟨hkeys table next grew hpass hids, h.le hpass hle hsymbols⟩, ?_⟩
  rintro rfl
  exact (h.grows hpass).weight

include hmem hrel

/-- A loop ends by itself when its limit exceeds the number of pairs of a key and a symbol. -/
theorem runs {fuel : Nat} (enough : keys.length * symbols.length < fuel) :
    Runs pass start (runPasses pass fuel start).flags (runPasses pass fuel start).result :=
  runs_runPasses _ SetTable.weight _ (fun _ => h.step_among hkeys hsymbols)
    (fun _ ⟨hids, hle⟩ => SetTable.weight_le hids hle) fuel ⟨hmem, hrel⟩
    (Nat.lt_add_left _ enough)

/-- A loop begins at most one pass for each pair of a key and a symbol, and one more. -/
theorem begun_le {result : Except Error SetTable} (run : Runs pass start flags result) :
    (PassRun.mk flags result).begun ≤ keys.length * symbols.length + 1 := by
  have hbegun := run.begun_le _ SetTable.weight _ (fun _ => h.step_among hkeys hsymbols)
    (fun _ ⟨hids, hle⟩ => SetTable.weight_le hids hle) ⟨hmem, hrel⟩
  exact (Nat.le_add_left ..).trans hbegun

end

/-- Where a loop ends is the least relation with the property above its start. -/
theorem isLeast (h : Saturates pass Closed) (run : Runs pass start flags (.ok table)) :
    IsLeast {R | start.rel ≤ R ∧ Closed R} table.rel := by
  -- The passes keep the table between its start and every closed relation above that.
  let Inv (table : SetTable) : Prop :=
    start.rel ≤ table.rel ∧ ∀ R, start.rel ≤ R → Closed R → table.rel ≤ R
  have hstep : ∀ table next, Inv table → pass table = .ok (next, true) → Inv next := by
    intro table next ⟨hge, hleast⟩ hpass
    refine ⟨hge.trans (h.grows hpass).le, fun R hR hclosed => ?_⟩
    exact h.le hpass (hleast R hR hclosed) hclosed
  obtain ⟨last, ⟨hge, hleast⟩, hpass⟩ := run.last_pass Inv ⟨le_rfl, fun R hR _ => hR⟩ hstep
  rw [(h.grows hpass).rel_eq]
  refine ⟨⟨hge, h.closed hpass⟩, ?_⟩
  intro R ⟨hR, hclosed⟩
  exact hleast R hR hclosed

end Saturates

end FirstFollow
