import FirstFollow.Proofs.Meaning

/-!
# Walks of rule trees

A walk visits the nodes of a rule depth first, from the left, and does not enter the operands of a
difference (`Rule.nodes`). The nodes that get helpers come in the order of the walk
(`Rule.sugar_eq_filter`), and what is inside a visited node is visited too
(`Rule.nodes_subset`).
-/

namespace FirstFollow

namespace Rule

mutual

/-- The nodes that a walk visits, in order. -/
def nodes : Rule → List Rule
  | .sequence rules => .sequence rules :: nodesAll rules
  | .alternative first rest => .alternative first rest :: (first.nodes ++ nodesAll rest)
  | .repetition rule => .repetition rule :: rule.nodes
  | .option rule => .option rule :: rule.nodes
  | .group rule => .group rule :: rule.nodes
  | rule => [rule]

/-- The nodes of rules one after another. -/
def nodesAll : List Rule → List Rule
  | [] => []
  | rule :: rest => rule.nodes ++ nodesAll rest

end

/-- Whether a node gets a helper, unless it is a choice at the top of a definition. -/
def hasHelper : Rule → Bool
  | .alternative _ _ | .repetition _ | .option _ | .group _ => true
  | _ => false

theorem mem_nodes_self (rule : Rule) : rule ∈ rule.nodes := by
  cases rule <;> simp [nodes]

theorem mem_nodesAll {rules : List Rule} {node : Rule} :
    node ∈ nodesAll rules ↔ ∃ rule ∈ rules, node ∈ rule.nodes := by
  induction rules with
  | nil => simp [nodesAll]
  | cons rule rest ih => simp [nodesAll, ih]

mutual

/-- The nodes with helpers come in the order of the walk. -/
theorem sugar_eq_filter : ∀ rule : Rule, rule.sugar = rule.nodes.filter hasHelper
  | .character _ => rfl
  | .reference _ => rfl
  | .strayReference _ => rfl
  | .sequence rules => sugarAll_eq_filter rules
  | .alternative first rest => by
    have hrest := sugarAll_eq_filter rest
    have hfirst := sugar_eq_filter first
    rw [sugar, nodes, List.filter_cons_of_pos rfl, List.filter_append, hfirst, hrest]
  | .repetition rule => congrArg (List.cons _) (sugar_eq_filter rule)
  | .option rule => congrArg (List.cons _) (sugar_eq_filter rule)
  | .group rule => congrArg (List.cons _) (sugar_eq_filter rule)
  | .exclude _ _ => rfl
  | .foreign _ => rfl

theorem sugarAll_eq_filter : ∀ rules : List Rule, sugarAll rules = (nodesAll rules).filter hasHelper
  | [] => rfl
  | rule :: rest => by
    rw [sugarAll, nodesAll, List.filter_append, sugar_eq_filter rule, sugarAll_eq_filter rest]

end

/-- What is inside a visited node is visited, when that holds of all but the first node. -/
theorem nodes_subset_of_cons {whole node : Rule} {inner : List Rule}
    (hwhole : whole.nodes = whole :: inner) (hinner : node ∈ inner → node.nodes ⊆ inner)
    (h : node ∈ whole.nodes) : node.nodes ⊆ whole.nodes := by
  rw [hwhole] at h
  rcases List.mem_cons.1 h with rfl | h
  · exact List.Subset.refl _
  · rw [hwhole]
    exact List.subset_cons_of_subset _ (hinner h)

mutual

/-- What is inside a visited node is visited. -/
theorem nodes_subset {node : Rule} : ∀ rule : Rule, node ∈ rule.nodes → node.nodes ⊆ rule.nodes
  | .sequence rules => nodes_subset_of_cons rfl (nodes_subset_nodesAll rules)
  | .alternative first rest => by
    refine nodes_subset_of_cons rfl fun h => ?_
    rcases List.mem_append.1 h with h | h
    · exact List.subset_append_of_subset_left _ (nodes_subset first h)
    · exact List.subset_append_of_subset_right _ (nodes_subset_nodesAll rest h)
  | .repetition rule => nodes_subset_of_cons rfl (nodes_subset rule)
  | .option rule => nodes_subset_of_cons rfl (nodes_subset rule)
  | .group rule => nodes_subset_of_cons rfl (nodes_subset rule)
  | .character _ => nodes_subset_of_cons rfl fun h => absurd h List.not_mem_nil
  | .reference _ => nodes_subset_of_cons rfl fun h => absurd h List.not_mem_nil
  | .strayReference _ => nodes_subset_of_cons rfl fun h => absurd h List.not_mem_nil
  | .exclude _ _ => nodes_subset_of_cons rfl fun h => absurd h List.not_mem_nil
  | .foreign _ => nodes_subset_of_cons rfl fun h => absurd h List.not_mem_nil

theorem nodes_subset_nodesAll {node : Rule} :
    ∀ rules : List Rule, node ∈ nodesAll rules → node.nodes ⊆ nodesAll rules
  | [], h => absurd h List.not_mem_nil
  | rule :: rest, h => by
    rcases List.mem_append.1 h with h | h
    · exact List.subset_append_of_subset_left _ (nodes_subset rule h)
    · exact List.subset_append_of_subset_right _ (nodes_subset_nodesAll rest h)

end

/-- The walk of a rule visits its choices, after the rule itself if it is an alternative. -/
theorem nodes_eq_choices (rule : Rule) :
    rule.nodes = nodesAll rule.choices ∨
      rule.hasHelper = true ∧ rule.nodes = rule :: nodesAll rule.choices := by
  cases rule with
  | alternative first rest => exact .inr ⟨rfl, rfl⟩
  | _ => exact .inl (List.append_nil _).symm

theorem nodesAll_choices_subset (rule : Rule) : nodesAll rule.choices ⊆ rule.nodes := by
  rcases rule.nodes_eq_choices with h | ⟨-, h⟩
  · rw [h]
    exact List.Subset.refl _
  · rw [h]
    exact List.subset_cons_self _ _

/-- The nodes that get helpers in a definition are visited by the walk of its rule. -/
theorem mem_sugarAll_choices {rule node : Rule} (h : node ∈ sugarAll rule.choices) :
    node.hasHelper = true ∧ node ∈ rule.nodes := by
  rw [sugarAll_eq_filter] at h
  obtain ⟨hvisited, hhelper⟩ := List.mem_filter.1 h
  exact ⟨hhelper, rule.nodesAll_choices_subset hvisited⟩

end Rule

variable {definitions : List Definition} {node : Rule}

theorem exists_of_mem_helperNodes (h : node ∈ helperNodes definitions) :
    node.hasHelper = true ∧ ∃ d ∈ definitions, node ∈ d.rule.nodes := by
  obtain ⟨d, hd, hnode⟩ := List.mem_flatMap.1 h
  obtain ⟨hhelper, hvisited⟩ := Rule.mem_sugarAll_choices hnode
  exact ⟨hhelper, d, hd, hvisited⟩

end FirstFollow
