import Mathlib.Data.Int.Cast.Lemmas
import FirstFollow.Lowering.Plan

/-!
# What steps add

The steps of a plan add productions to nonterminals and make helpers. Of all steps, the productions
of one nonterminal (`emitted`) and the helpers (`helpersMade`) are told apart, each in the order in
which they come.
-/

namespace FirstFollow

/-! ## The productions of one nonterminal -/

/-- The production that a step adds to a nonterminal. -/
def Step.productionOf? (id : NonterminalId) : Step → Option Production
  | .emit owner production => if owner = id then some production else none
  | _ => none

/-- The productions that steps add to a nonterminal, in order. -/
def emitted (id : NonterminalId) (steps : List Step) : List Production :=
  steps.filterMap (Step.productionOf? id)

section

variable {id owner : NonterminalId} {production : Production} {steps more : List Step}

@[simp] theorem emitted_nil (id : NonterminalId) : emitted id [] = [] := rfl

@[simp] theorem emitted_append :
    emitted id (steps ++ more) = emitted id steps ++ emitted id more :=
  List.filterMap_append

@[simp] theorem emitted_emit_cons :
    emitted id (.emit owner production :: steps) =
      (if owner = id then [production] else []) ++ emitted id steps := by
  by_cases h : owner = id <;> simp [emitted, Step.productionOf?, h]

@[simp] theorem emitted_helper_cons {kind : HelperKind} {definition : String} :
    emitted id (.helper owner kind definition :: steps) = emitted id steps := rfl

@[simp] theorem emitted_announce_cons {name : String} :
    emitted id (.announce name owner :: steps) = emitted id steps := rfl

theorem mem_emitted : production ∈ emitted id steps ↔ .emit id production ∈ steps := by
  unfold emitted
  rw [List.mem_filterMap]
  constructor
  · intro ⟨step, hstep, h⟩
    cases step with
    | emit owner added =>
      obtain ⟨rfl, rfl⟩ : owner = id ∧ added = production := by simpa [Step.productionOf?] using h
      exact hstep
    | _ => cases h
  · intro h
    exact ⟨_, h, if_pos rfl⟩

end

/-- The terminal texts that a step adds. -/
def Step.texts : Step → List String
  | .emit _ production => terminalTexts production
  | _ => []

/-- The terminal texts that steps add. -/
def textsAdded (steps : List Step) : List String :=
  steps.flatMap Step.texts

section

variable {id : NonterminalId} {steps more : List Step}

@[simp] theorem textsAdded_nil : textsAdded [] = [] := rfl

@[simp] theorem textsAdded_append :
    textsAdded (steps ++ more) = textsAdded steps ++ textsAdded more :=
  List.flatMap_append

@[simp] theorem textsAdded_emit_cons {production : Production} :
    textsAdded (.emit id production :: steps) = terminalTexts production ++ textsAdded steps :=
  List.flatMap_cons

@[simp] theorem textsAdded_helper_cons {kind : HelperKind} {definition : String} :
    textsAdded (.helper id kind definition :: steps) = textsAdded steps := rfl

@[simp] theorem textsAdded_announce_cons {name : String} :
    textsAdded (.announce name id :: steps) = textsAdded steps := rfl

end

/-! ## The helpers that steps make -/

/-- The helper that a step makes. -/
def Step.helperId? : Step → Option NonterminalId
  | .helper id _ _ => some id
  | _ => none

/-- The helpers that steps make, in order. -/
def helpersMade (steps : List Step) : List NonterminalId :=
  steps.filterMap Step.helperId?

/-- Numbers counted up from `n`. -/
def numbersFrom (n : NonterminalId) (count : Nat) : List NonterminalId :=
  (List.range count).map fun i : Nat => n + i

section

variable {id n : NonterminalId} {steps more : List Step} {j k : Nat}

theorem numbersFrom_add : numbersFrom n (j + k) = numbersFrom n j ++ numbersFrom (n + j) k := by
  simp [numbersFrom, List.range_add, Function.comp_def, add_assoc]

theorem numbersFrom_succ : numbersFrom n (k + 1) = n :: numbersFrom (n + 1) k := by
  rw [add_comm, numbersFrom_add]
  simp [numbersFrom]

@[simp] theorem length_numbersFrom : (numbersFrom n k).length = k := by
  simp [numbersFrom]

theorem mem_numbersFrom : id ∈ numbersFrom n k ↔ ∃ i < k, id = n + (i : Nat) := by
  simp [numbersFrom, eq_comm]

theorem mem_numbersFrom_iff_lt : id ∈ numbersFrom n k ↔ n ≤ id ∧ id < n + k := by
  rw [mem_numbersFrom]
  constructor
  · rintro ⟨i, hi, rfl⟩
    lia
  · intro ⟨hlow, hhigh⟩
    exact ⟨(id - n).toNat, by lia, by lia⟩

/-- Numbers that are counted up ascend. -/
theorem pairwise_numbersFrom : (numbersFrom n k).Pairwise (· < ·) := by
  rw [numbersFrom, List.pairwise_map]
  exact List.pairwise_lt_range.imp fun hlt => by lia

theorem mem_helpersMade :
    id ∈ helpersMade steps ↔ ∃ kind definition, .helper id kind definition ∈ steps := by
  unfold helpersMade
  rw [List.mem_filterMap]
  constructor
  · intro ⟨step, hstep, h⟩
    cases step with
    | helper owner kind definition =>
      cases h
      exact ⟨kind, definition, hstep⟩
    | _ => cases h
  · intro ⟨kind, definition, h⟩
    exact ⟨_, h, rfl⟩

@[simp] theorem helpersMade_nil : helpersMade [] = [] := rfl

@[simp] theorem helpersMade_append :
    helpersMade (steps ++ more) = helpersMade steps ++ helpersMade more :=
  List.filterMap_append

@[simp] theorem helpersMade_helper_cons {kind : HelperKind} {definition : String} :
    helpersMade (.helper n kind definition :: steps) = n :: helpersMade steps := rfl

@[simp] theorem helpersMade_emit_cons {production : Production} :
    helpersMade (.emit n production :: steps) = helpersMade steps := rfl

@[simp] theorem helpersMade_announce_cons {name : String} :
    helpersMade (.announce name n :: steps) = helpersMade steps := rfl

end

end FirstFollow
