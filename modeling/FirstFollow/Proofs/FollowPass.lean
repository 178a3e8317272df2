import FirstFollow.Proofs.FollowSolution

/-!
# One pass over FOLLOW sets

A pass over FOLLOW sets is a step towards the least solution of the merging rules, whatever table
it starts from: it takes nothing away, adds nothing that some solution does without, and reports a
change exactly when a set grew. A pass that reports none has started from a solution. From larger
sets it ends with larger sets, since a visit merges whatever its owner has by then
(`Store.followPass_exact`).
-/

namespace FirstFollow

/-! ## Passes from larger tables -/

section

variable {firsts lower upper next next' last last' : SetTable}
  {outcome outcome' : Except Error Bool} {grew grew' : Bool}

theorem Occurrence.visit_mono {occurrence : Occurrence}
    (h : occurrence.visit firsts lower = (next, outcome))
    (h' : occurrence.visit firsts upper = (next', outcome')) (hle : lower.rel ≤ upper.rel) :
    next.rel ≤ next'.rel := by
  intro id x hx
  apply (rel_visit h').2
  apply ((rel_visit h).1 hx).imp (hle id x)
  intro ⟨hid, hadds⟩
  exact ⟨hid, hadds.mono hle⟩

/-- The tables of two passes stay one inside the other from visit to visit. -/
theorem visitAll_mono {occurrences : List Occurrence}
    (h : visitAll firsts occurrences lower = (last, .ok grew))
    (h' : visitAll firsts occurrences upper = (last', .ok grew')) (hle : lower.rel ≤ upper.rel) :
    last.rel ≤ last'.rel := by
  induction occurrences generalizing lower upper grew grew' with
  | nil =>
    cases h
    cases h'
    exact hle
  | cons occurrence rest ih =>
    obtain ⟨next, _, _, hvisit, hrest, _⟩ := visitAll_cons_eq_ok h
    obtain ⟨next', _, _, hvisit', hrest', _⟩ := visitAll_cons_eq_ok h'
    exact ih hrest hrest' (Occurrence.visit_mono hvisit hvisit' hle)

end

/-! ## Entries -/

namespace SetTable

variable {table next : SetTable}

/-- One table is inside another when each of its entries is. -/
theorem rel_le_iff :
    table.rel ≤ next.rel ↔ ∀ entry ∈ table.entries, entry.2 ⊆ next.setOf entry.1 := by
  constructor
  · intro hle ⟨id, set⟩ hentry x hx
    apply hle id x
    have hset := Table.get?_eq_some_iff.2 hentry
    simpa only [rel, setOf, hset, Option.getD_some] using hx
  · intro h id x hx
    have hid : id ∈ table := by_contra fun hid => not_rel_of_not_mem hid x hx
    exact h _ (Table.get?_eq_some_iff.1 (get?_of_mem hid)) x hx

/-- A table whose sets are as before differs at most by new entries with empty sets. -/
theorem get?_of_rel_eq (hmem : ∀ id ∈ table, id ∈ next) (hrel : next.rel = table.rel)
    (id : NonterminalId) :
    next.get? id = table.get? id ∨ table.get? id = none ∧ next.get? id = some ∅ := by
  have hsets := setOf_eq_of_rel_eq hrel id
  by_cases hid : id ∈ table
  · left
    rw [get?_of_mem hid, get?_of_mem (hmem id hid), hsets]
  · have hnone : table.get? id = none := Table.get?_eq_none_iff.2 hid
    by_cases hnew : id ∈ next
    · right
      have hempty : table.setOf id = ∅ := by
        unfold setOf
        rw [hnone]
        rfl
      exact ⟨hnone, by rw [get?_of_mem hnew, hsets, hempty]⟩
    · left
      rw [hnone, Table.get?_eq_none_iff.2 hnew]

end SetTable

/-! ## What a pass does -/

namespace Store

variable {store : Store} {firsts follows table next : SetTable} {grew : Bool}

/-- A pass led from one table to the next, and reported whether a set grew. -/
structure PassedTo (store : Store) (firsts table next : SetTable) (grew : Bool) : Prop where
  /-- No set loses a symbol. -/
  ge : table.rel ≤ next.rel
  /-- Every solution that contains the first table contains the next one. -/
  le : ∀ R, table.rel ≤ R → FollowClosed store firsts R → next.rel ≤ R
  grew_iff : grew = true ↔ ∃ id, ¬ next.setOf id ⊆ table.setOf id
  closed_iff : grew = false ↔ FollowClosed store firsts table.rel
  /-- Without a change the sets stay, and new entries have empty ones. -/
  unchanged : grew = false → ∀ id,
    next.get? id = table.get? id ∨ table.get? id = none ∧ next.get? id = some ∅

theorem passedTo_of_followStep (h : store.followStep firsts table = .ok (next, grew)) :
    store.PassedTo firsts table next grew := by
  have saturates := store.saturates_followStep firsts
  have hgrows : table.Grows next grew := saturates.grows h
  have hle : ∀ R, table.rel ≤ R → FollowClosed store firsts R → next.rel ≤ R := fun R =>
    saturates.le h
  refine ⟨hgrows.le, hle, ?_, ⟨?_, ?_⟩, ?_⟩
  · rw [hgrows.grew_iff]
    exact not_forall
  · rintro rfl
    exact saturates.closed h
  · -- A pass that starts from a solution cannot leave it, so none of its merges adds anything.
    intro hclosed
    have hback : next.rel ≤ table.rel := hle _ le_rfl hclosed
    exact Bool.eq_false_iff.2 fun htrue => hgrows.grew_iff.1 htrue hback
  · rintro rfl
    apply SetTable.get?_of_rel_eq _ hgrows.rel_eq
    exact fun id hid => mem_of_visitAll (followStep_eq_ok.1 h) (.inl hid)

/-- When a pass succeeds from some table, passes succeed from all. Each is exact about change and
    stays below every solution of the merging rules, and larger tables lead to larger ones. -/
theorem followPass_exact (h : (store.followPass firsts follows).2 = .ok grew) :
    (∀ table, ∃ next grew, store.followPass firsts table = (next, .ok grew) ∧
      store.PassedTo firsts table next grew) ∧
    ∀ lower upper : SetTable, lower.rel ≤ upper.rel →
      (store.followPass firsts lower).1.rel ≤ (store.followPass firsts upper).1.rel := by
  have hsucceeds : ∀ table, ∃ next grew, store.followPass firsts table = (next, .ok grew) ∧
      store.PassedTo firsts table next grew := by
    intro table
    obtain ⟨next, grew, hstep⟩ := exists_followStep h table
    exact ⟨next, grew, followStep_eq_ok.1 hstep, passedTo_of_followStep hstep⟩
  refine ⟨hsucceeds, fun lower upper hle => ?_⟩
  obtain ⟨next, _, hlower, _⟩ := hsucceeds lower
  obtain ⟨next', _, hupper, _⟩ := hsucceeds upper
  rw [hlower, hupper]
  exact visitAll_mono hlower hupper hle

/-- A store whose productions end with their own nonterminal, or with one that ends with it. -/
def ownTails : Store :=
  let rules := [(0, [[.terminal "a", .nonterminal 1], [.nonterminal 0, .nonterminal 2]]),
    (1, [[.terminal "b", .nonterminal 1], [.nonterminal 0]]),
    (2, [[.empty], [.terminal "c", .nonterminal 2]])]
  ⟨⟨rules, by decide⟩, ∅, ∅, .ofList ["a", "b", "c"], false⟩

/-- Passes over `ownTails` from a table that is not closed, and from a larger one that is. -/
theorem followPass_exact_ownTails :
    let firsts : SetTable := .ofList [(2, .ofList [.empty, .terminal "c"])]
    let lower : SetTable := .ofList [(0, {.endOfInput})]
    let all : SymbolSet := .ofList [.endOfInput, .terminal "c"]
    let upper : SetTable := .ofList [(0, all), (1, all), (2, all), (7, ∅)]
    (ownTails.followPass firsts ∅).2 = .ok true ∧
      (∃ next, ownTails.followPass firsts lower = (next, .ok true) ∧
        ownTails.PassedTo firsts lower next true) ∧
      (∃ next, ownTails.followPass firsts upper = (next, .ok false) ∧
        ownTails.PassedTo firsts upper next false) ∧
      lower.rel ≤ upper.rel ∧
      (ownTails.followPass firsts lower).1.rel ≤ (ownTails.followPass firsts upper).1.rel := by
  intro firsts lower all upper
  have hpass : (ownTails.followPass firsts ∅).2 = .ok true := by decide +kernel
  have hlower : (ownTails.followPass firsts lower).2 = .ok true := by decide +kernel
  have hupper : (ownTails.followPass firsts upper).2 = .ok false := by decide +kernel
  have hentries : ∀ entry ∈ lower.entries, entry.2 ⊆ upper.setOf entry.1 := by decide +kernel
  have hle : lower.rel ≤ upper.rel := SetTable.rel_le_iff.2 hentries
  obtain ⟨hexact, hmono⟩ := followPass_exact hpass
  refine ⟨hpass, ?_, ?_, hle, hmono lower upper hle⟩
  · obtain ⟨next, grew, hnext, passed⟩ := hexact lower
    obtain rfl : true = grew := by simpa [hnext] using hlower.symm
    exact ⟨next, hnext, passed⟩
  · obtain ⟨next, grew, hnext, passed⟩ := hexact upper
    obtain rfl : false = grew := by simpa [hnext] using hupper.symm
    exact ⟨next, hnext, passed⟩

end Store

end FirstFollow
