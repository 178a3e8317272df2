import FirstFollow.Lowering.Identifiers
import FirstFollow.Lowering.Plan
import FirstFollow.Proofs.Meaning

/-!
# The numbers of names and helpers

Names get the numbers from 0 up (`numberNames_spec`). Lowering a rule hands out one number to
each node that gets a helper, in the order of `Rule.sugar` (`Rule.next_lower`), and the steps of
a rule contain those that lower each such node by itself, from its own number
(`Rule.numbered_lower`). So do the steps of a whole plan (`placed_planAll`).
-/

namespace FirstFollow

/-! ## The numbers of names -/

/-- Names get the numbers from the size of the table up. -/
theorem numberNames_spec {table numbers : Table String NonterminalId} {names : List String}
    (h : numberNames table names = .ok numbers) :
    numbers.size = table.size + names.length ∧
      ∀ name id, numbers.get? name = some id ↔
        table.get? name = some id ∨
          ∃ i : Nat, names[i]? = some name ∧ id = table.size + i := by
  induction names generalizing table with
  | nil =>
    cases h
    simp
  | cons first rest ih =>
    unfold numberNames at h
    split at h
    · cases h
    · rename_i hfirst
      obtain ⟨hsize, hget⟩ := ih h
      have hnext := table.size_insert_of_not_mem (table.size : NonterminalId) hfirst
      -- A name that has a number is refused, so numbers are never overwritten.
      have habsent : table.get? first = none := Table.get?_eq_none_iff.2 hfirst
      refine ⟨by rw [hsize, hnext, List.length_cons]; omega, fun name id => ?_⟩
      have hrest : (∃ i : Nat, (first :: rest)[i]? = some name ∧ id = table.size + i) ↔
          first = name ∧ id = table.size ∨
            ∃ i : Nat, rest[i]? = some name ∧ id = (table.size + 1 : Nat) + i := by
        constructor
        · rintro ⟨_ | i, hi, rfl⟩
          · exact .inl ⟨by simpa using hi, by simp⟩
          · exact .inr ⟨i, hi, by push_cast; lia⟩
        · rintro (⟨rfl, rfl⟩ | ⟨i, hi, rfl⟩)
          · exact ⟨0, rfl, by simp⟩
          · exact ⟨i + 1, hi, by push_cast; lia⟩
      rw [hget, hnext, hrest, Table.get?_insert, ← or_assoc]
      refine or_congr_left ?_
      by_cases hname : first = name
      · subst hname
        simp [habsent, eq_comm]
      · simp [hname]

/-- A step that can be carried out. -/
def Step.Succeeds : Step → Prop
  | .fail _ => False
  | _ => True

namespace Rule

variable {names : Table String NonterminalId} {definition : String} {C : Step → Prop}

/-! ## The next number -/

mutual

theorem next_lower (scope : Scope) :
    ∀ (rule : Rule) (n : NonterminalId), (rule.lower scope n).next = n + rule.sugar.length
  | .character c, n => (Int.add_zero n).symm
  | .reference name, n => by
    unfold lower
    split
    · exact (Int.add_zero n).symm
    · exact (Int.add_zero n).symm
  | .strayReference value, n => (Int.add_zero n).symm
  | .sequence rules, n => next_lowerAll scope rules n
  | .alternative first rest, n => by
    have htail := next_emitAll scope n rest (first.lower scope (n + 1)).next
    rw [next_lower scope first] at htail
    simp only [lower, sugar, List.length_cons, List.length_append, next_lower scope first]
    lia
  | .repetition rule, n => by
    simp only [lower, sugar, List.length_cons, next_lower scope rule]
    lia
  | .option rule, n => by
    simp only [lower, sugar, List.length_cons, next_lower scope rule]
    lia
  | .group rule, n => by
    simp only [lower, sugar, List.length_cons, next_lower scope rule]
    lia
  | .exclude source excluded, n => (Int.add_zero n).symm
  | .foreign value, n => (Int.add_zero n).symm

theorem next_lowerAll (scope : Scope) :
    ∀ (rules : List Rule) (n : NonterminalId),
      (lowerAll scope rules n).next = n + (sugarAll rules).length
  | [], n => (Int.add_zero n).symm
  | rule :: rest, n => by
    simp only [lowerAll, sugarAll, List.length_append, next_lowerAll scope rest,
      next_lower scope rule]
    lia

theorem next_emitAll (scope : Scope) (owner : NonterminalId) :
    ∀ (rules : List Rule) (n : NonterminalId),
      (emitAll scope owner rules n).2 = n + (sugarAll rules).length
  | [], n => (Int.add_zero n).symm
  | rule :: rest, n => by
    simp only [emitAll, sugarAll, List.length_append, next_emitAll scope owner rest,
      next_lower scope rule]
    lia

end

/-! ## The steps of a node -/

/-- The nonterminal is made the helper of the node, by steps that all satisfy a predicate. -/
def Placed (names : Table String NonterminalId) (C : Step → Prop) (id : NonterminalId)
    (node : Rule) : Prop :=
  ∃ kind definition, (node.lower ⟨names, definition⟩ id).symbols = [.nonterminal id] ∧
    .helper id kind definition ∈ (node.lower ⟨names, definition⟩ id).steps ∧
    ∀ step ∈ (node.lower ⟨names, definition⟩ id).steps, C step

/-- A node makes its helper first, and then lowers its body. -/
theorem numbered_cons {node : Rule} {nodes : List Rule} {id : NonterminalId} {kind : HelperKind}
    {body last : List Step}
    (hsymbols : (node.lower ⟨names, definition⟩ id).symbols = [.nonterminal id])
    (hsteps : (node.lower ⟨names, definition⟩ id).steps =
      .helper id kind definition :: body ++ last)
    (h : ∀ step ∈ (node.lower ⟨names, definition⟩ id).steps, C step)
    (hbody : (∀ step ∈ body, C step) → Numbered (Placed names C) nodes (id + 1)) :
    Numbered (Placed names C) (node :: nodes) id := by
  refine ⟨⟨kind, definition, hsymbols, ?_, h⟩, hbody fun step hstep => h step ?_⟩
  · rw [hsteps]
    exact List.mem_append_left _ List.mem_cons_self
  · rw [hsteps]
    exact List.mem_append_left _ (List.mem_cons_of_mem _ hstep)

mutual

theorem numbered_lower :
    ∀ (rule : Rule) (n : NonterminalId),
      (∀ step ∈ (rule.lower ⟨names, definition⟩ n).steps, C step) →
        Numbered (Placed names C) rule.sugar n
  | .character _, _, _ => trivial
  | .reference _, _, _ => trivial
  | .strayReference _, _, _ => trivial
  | .sequence rules, n, h => numbered_lowerAll rules n h
  | .alternative first rest, n, h => by
    refine ⟨⟨.alternative, definition, rfl, List.mem_cons_self, h⟩, ?_⟩
    simp only [lower, List.cons_append, List.forall_mem_cons, List.forall_mem_append] at h
    obtain ⟨-, hfirst, -, hrest⟩ := h
    refine numbered_append.2 ⟨numbered_lower first (n + 1) hfirst, ?_⟩
    rw [← next_lower]
    exact numbered_emitAll rest _ hrest
  | .repetition rule, n, h => numbered_cons rfl rfl h (numbered_lower rule (n + 1))
  | .option rule, n, h => numbered_cons rfl rfl h (numbered_lower rule (n + 1))
  | .group rule, n, h => numbered_cons rfl rfl h (numbered_lower rule (n + 1))
  | .exclude _ _, _, _ => trivial
  | .foreign _, _, _ => trivial

theorem numbered_lowerAll :
    ∀ (rules : List Rule) (n : NonterminalId),
      (∀ step ∈ (lowerAll ⟨names, definition⟩ rules n).steps, C step) →
        Numbered (Placed names C) (sugarAll rules) n
  | [], _, _ => trivial
  | rule :: rest, n, h => by
    simp only [lowerAll, List.forall_mem_append] at h
    obtain ⟨hrule, hrest⟩ := h
    refine numbered_append.2 ⟨numbered_lower rule n hrule, ?_⟩
    rw [← next_lower]
    exact numbered_lowerAll rest _ hrest

theorem numbered_emitAll {owner : NonterminalId} :
    ∀ (rules : List Rule) (n : NonterminalId),
      (∀ step ∈ (emitAll ⟨names, definition⟩ owner rules n).1, C step) →
        Numbered (Placed names C) (sugarAll rules) n
  | [], _, _ => trivial
  | rule :: rest, n, h => by
    simp only [emitAll, List.forall_mem_cons, List.forall_mem_append] at h
    obtain ⟨hrule, -, hrest⟩ := h
    refine numbered_append.2 ⟨numbered_lower rule n hrule, ?_⟩
    rw [← next_lower]
    exact numbered_emitAll rest _ hrest

end

end Rule

/-! ## The steps of definitions -/

variable {names : Table String NonterminalId} {definition : Definition}
  {definitions rest : List Definition} {id n : NonterminalId} {C : Step → Prop}

/-- A definition with a number is announced and lowered, and the plan goes on with the numbers
    that it leaves. -/
theorem planAll_cons (h : names.get? definition.name = some id) :
    planAll names (definition :: rest) n =
      .announce definition.name id ::
        (Rule.emitAll ⟨names, definition.name⟩ id definition.rule.choices n).1 ++
        planAll names rest (n + (Rule.sugarAll definition.rule.choices).length) := by
  rw [planAll, Definition.lower, h, ← Rule.next_emitAll ⟨names, definition.name⟩ id]

/-- A plan without a failure has a number for each definition. -/
theorem exists_number (h : ∀ step ∈ planAll names (definition :: rest) n, step.Succeeds) :
    ∃ id, names.get? definition.name = some id := by
  cases hget : names.get? definition.name with
  | some id => exact ⟨id, rfl⟩
  | none =>
    simp only [planAll, Definition.lower, hget] at h
    exact (h _ List.mem_cons_self).elim

/-- When all steps of a plan satisfy a predicate, so do those of each definition and of each
    helper. -/
theorem placed_planAll (hC : ∀ step, C step → step.Succeeds)
    (h : ∀ step ∈ planAll names definitions n, C step) :
    (∀ d ∈ definitions, ∃ id m, names.get? d.name = some id ∧
      ∀ step ∈ (Rule.emitAll ⟨names, d.name⟩ id d.rule.choices m).1, C step) ∧
    Numbered (Rule.Placed names C) (helperNodes definitions) n := by
  induction definitions generalizing n with
  | nil => exact ⟨List.forall_mem_nil _, trivial⟩
  | cons first rest ih =>
    obtain ⟨id, hget⟩ := exists_number fun step hstep => hC step (h step hstep)
    rw [planAll_cons hget, List.cons_append, List.forall_mem_cons, List.forall_mem_append] at h
    obtain ⟨-, hfirst, hrest⟩ := h
    obtain ⟨hlater, hnumbered⟩ := ih hrest
    refine ⟨List.forall_mem_cons.2 ⟨⟨id, n, hget, hfirst⟩, hlater⟩, ?_⟩
    exact numbered_append.2 ⟨Rule.numbered_emitAll _ n hfirst, hnumbered⟩

end FirstFollow
