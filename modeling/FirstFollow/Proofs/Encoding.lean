import FirstFollow.Proofs.Emission
import FirstFollow.Proofs.Numbering

/-!
# What nodes are lowered to

A rule adds a flat list of symbols to the production at hand: sequences are spliced in, and a node
that gets a helper adds the helper alone (`Rule.symbols_lower`). The helper has productions of its
own, which depend on nothing but the node and its number (`Rule.encoding`). The steps of a rule
add to each nonterminal exactly the productions of the node whose helper it is, in their order
(`Rule.emitted_lower`), although those of nested nodes come in between.
-/

namespace FirstFollow

namespace Rule

/-! ## The encoding of rules and nodes -/

mutual

/-- The symbols that a rule adds to a production, with `n` the number of its first node that gets
    a helper. -/
def flat (names : Table String NonterminalId) : Rule → NonterminalId → List Symbol
  | .character c, _ => [.terminal c.toString]
  | .reference name, _ => ((names.get? name).map Symbol.nonterminal).toList
  | .sequence rules, n => flatAll names rules n
  | .alternative _ _, n => [.nonterminal n]
  | .repetition _, n => [.nonterminal n]
  | .option _, n => [.nonterminal n]
  | .group _, n => [.nonterminal n]
  | _, _ => []

/-- The symbols that rules add one after another. -/
def flatAll (names : Table String NonterminalId) : List Rule → NonterminalId → List Symbol
  | [], _ => []
  | rule :: rest, n => rule.flat names n ++ flatAll names rest (n + rule.sugar.length)

end

/-- The productions of a choice between rules: one for each. -/
def choiceProductions (names : Table String NonterminalId) :
    List Rule → NonterminalId → List Production
  | [], _ => []
  | rule :: rest, n =>
    spell (rule.flat names n) :: choiceProductions names rest (n + rule.sugar.length)

/-- The productions of the helper `n` of a node. The nodes inside are numbered from `n + 1` on. -/
def encoding (names : Table String NonterminalId) (n : NonterminalId) : Rule → List Production
  | .alternative first rest => choiceProductions names (first :: rest) (n + 1)
  | .repetition rule => [rule.flat names (n + 1) ++ [.nonterminal n], [.empty]]
  | .option rule =>
    if rule.flat names (n + 1) = [] then [[.empty]] else [rule.flat names (n + 1), [.empty]]
  | .group rule => [spell (rule.flat names (n + 1))]
  | _ => []

/-- The productions of the nonterminal `id` when it is the helper of one of the nodes, which are
    numbered from `n` on. -/
def encodings (names : Table String NonterminalId) (id : NonterminalId) :
    List Rule → NonterminalId → List Production
  | [], _ => []
  | node :: rest, n =>
    (if n = id then node.encoding names n else []) ++ encodings names id rest (n + 1)

section

variable {names : Table String NonterminalId} {id n : NonterminalId} {a b nodes : List Rule}
  {node rule : Rule}

theorem encodings_append :
    encodings names id (a ++ b) n =
      encodings names id a n ++ encodings names id b (n + a.length) := by
  induction a generalizing n with
  | nil => simp [encodings]
  | cons node rest ih =>
    have hn : n + 1 + (rest.length : Int) = n + (node :: rest).length := by
      rw [List.length_cons]
      lia
    rw [List.cons_append, encodings, encodings, ih, hn, List.append_assoc]

/-- Nodes with larger numbers give nothing. -/
theorem encodings_of_lt (h : id < n) : encodings names id nodes n = [] := by
  induction nodes generalizing n with
  | nil => rfl
  | cons node rest ih =>
    rw [encodings, if_neg (by lia), ih (by lia), List.append_nil]

theorem encodings_add {i : Nat} (h : nodes[i]? = some node) :
    encodings names (n + i) nodes n = node.encoding names (n + i) := by
  induction nodes generalizing n i with
  | nil => cases h
  | cons first rest ih =>
    rw [encodings]
    cases i with
    | zero =>
      obtain rfl : first = node := by simpa using h
      simp [encodings_of_lt (Int.lt_succ n)]
    | succ i =>
      have hi : n + ((i + 1 : Nat) : Int) = n + 1 + i := by
        push_cast
        lia
      rw [if_neg (by lia), hi, ih h, List.nil_append]

theorem exists_of_encodings_ne_nil (h : encodings names id nodes n ≠ []) :
    ∃ (i : Nat) (node : Rule), nodes[i]? = some node ∧ id = n + i := by
  induction nodes generalizing n with
  | nil => exact absurd rfl h
  | cons first rest ih =>
    rw [encodings] at h
    by_cases hn : n = id
    · exact ⟨0, first, rfl, by simp [hn]⟩
    · rw [if_neg hn, List.nil_append] at h
      obtain ⟨i, node, hi, rfl⟩ := ih h
      exact ⟨i + 1, node, hi, by push_cast; lia⟩

/-! ## Lowering encodes -/

mutual

theorem symbols_lower (scope : Scope) :
    ∀ (rule : Rule) (n : NonterminalId), (rule.lower scope n).symbols = rule.flat scope.names n
  | .character _, _ => rfl
  | .reference name, n => by
    rw [lower, flat]
    cases scope.names.get? name <;> rfl
  | .strayReference _, _ => rfl
  | .sequence rules, n => symbols_lowerAll scope rules n
  | .alternative _ _, _ => rfl
  | .repetition _, _ => rfl
  | .option _, _ => rfl
  | .group _, _ => rfl
  | .exclude _ _, _ => rfl
  | .foreign _, _ => rfl

theorem symbols_lowerAll (scope : Scope) :
    ∀ (rules : List Rule) (n : NonterminalId),
      (lowerAll scope rules n).symbols = flatAll scope.names rules n
  | [], _ => rfl
  | rule :: rest, n => by
    rw [lowerAll, flatAll, ← symbols_lower scope rule, ← symbols_lowerAll scope rest, next_lower]

end

mutual

/-- A rule adds nothing empty. -/
theorem empty_not_mem_flat (names : Table String NonterminalId) :
    ∀ (rule : Rule) (n : NonterminalId), .empty ∉ rule.flat names n
  | .character _, _ => by simp [flat]
  | .reference name, _ => by
    rw [flat]
    cases names.get? name <;> simp
  | .strayReference _, _ => by simp [flat]
  | .sequence rules, n => empty_not_mem_flatAll names rules n
  | .alternative _ _, _ => by simp [flat]
  | .repetition _, _ => by simp [flat]
  | .option _, _ => by simp [flat]
  | .group _, _ => by simp [flat]
  | .exclude _ _, _ => by simp [flat]
  | .foreign _, _ => by simp [flat]

theorem empty_not_mem_flatAll (names : Table String NonterminalId) :
    ∀ (rules : List Rule) (n : NonterminalId), .empty ∉ flatAll names rules n
  | [], _ => List.not_mem_nil
  | rule :: rest, n => by
    rw [flatAll, List.mem_append, not_or]
    exact ⟨empty_not_mem_flat names rule n, empty_not_mem_flatAll names rest _⟩

end

theorem spell_of_ne_nil {symbols : List Symbol} (h : symbols ≠ []) : spell symbols = symbols := by
  cases symbols with
  | nil => exact absurd rfl h
  | cons s rest => rfl

theorem spell_flat_eq_iff : spell (rule.flat names n) = [.empty] ↔ rule.flat names n = [] := by
  constructor
  · intro h
    by_contra hflat
    rw [spell_of_ne_nil hflat] at h
    exact empty_not_mem_flat names rule n (h ▸ List.mem_cons_self)
  · intro h
    rw [h]
    rfl

/-- A node makes its helper, lowers its body and then adds its own productions: both kinds of
    productions are told apart by their numbers. -/
theorem emitted_node {body last : List Step} {kind : HelperKind} {definition : String}
    (hbody : emitted id body = encodings names id nodes (n + 1))
    (hlast : emitted id last = if n = id then node.encoding names n else []) :
    emitted id (.helper n kind definition :: body ++ last) =
      encodings names id (node :: nodes) n := by
  rw [List.cons_append, emitted_helper_cons, emitted_append, hbody, hlast, encodings]
  split
  · rename_i hn
    rw [encodings_of_lt (by lia), List.nil_append, List.append_nil]
  · rw [List.append_nil, List.nil_append]

mutual

/-- The steps of a rule add to each nonterminal what the node that it is the helper of is encoded
    by, and nothing to others. -/
theorem emitted_lower (scope : Scope) (id : NonterminalId) :
    ∀ (rule : Rule) (n : NonterminalId),
      emitted id (rule.lower scope n).steps = encodings scope.names id rule.sugar n
  | .character _, _ => rfl
  | .reference name, n => by
    rw [lower]
    cases scope.names.get? name <;> rfl
  | .strayReference _, _ => rfl
  | .sequence rules, n => emitted_lowerAll scope id rules n
  | .alternative first rest, n => by
    have hchoices := emitted_emitAll scope id (first :: rest) (n + 1) (Int.lt_succ n)
    have hsteps : ((alternative first rest).lower scope n).steps =
        .helper n .alternative scope.definition ::
          (emitAll scope n (first :: rest) (n + 1)).1 := rfl
    rw [hsteps, emitted_helper_cons, hchoices, sugar, encodings, encoding, sugarAll]
    split
    · rename_i hn
      rw [encodings_of_lt (by lia), List.append_nil]
    · rw [List.nil_append]
  | .repetition rule, n => by
    refine emitted_node (emitted_lower scope id rule (n + 1)) ?_
    simp only [emitted_emit_cons, emitted_nil, symbols_lower, encoding]
    split <;> rfl
  | .option rule, n => by
    refine emitted_node (emitted_lower scope id rule (n + 1)) ?_
    simp only [emitted_emit_cons, symbols_lower, encoding, spell_flat_eq_iff]
    -- A body that adds nothing is spelled as the empty production, and needs no second one.
    by_cases hflat : rule.flat scope.names (n + 1) = []
    · simp [hflat, spell]
    · rw [if_neg hflat, if_neg hflat, emitted_emit_cons, emitted_nil, spell_of_ne_nil hflat]
      split <;> rfl
  | .group rule, n => by
    refine emitted_node (emitted_lower scope id rule (n + 1)) ?_
    simp only [emitted_emit_cons, emitted_nil, symbols_lower, encoding, List.append_nil]
  | .exclude _ _, _ => rfl
  | .foreign _, _ => rfl

theorem emitted_lowerAll (scope : Scope) (id : NonterminalId) :
    ∀ (rules : List Rule) (n : NonterminalId),
      emitted id (lowerAll scope rules n).steps = encodings scope.names id (sugarAll rules) n
  | [], _ => rfl
  | rule :: rest, n => by
    rw [lowerAll, sugarAll, encodings_append, emitted_append, emitted_lower scope id rule,
      emitted_lowerAll scope id rest, next_lower]

/-- Rules that are the choices of a nonterminal add a production to it, each. -/
theorem emitted_emitAll (scope : Scope) (id : NonterminalId) :
    ∀ (rules : List Rule) (n : NonterminalId) {owner : NonterminalId}, owner < n →
      emitted id (emitAll scope owner rules n).1 =
        if owner = id then choiceProductions scope.names rules n
        else encodings scope.names id (sugarAll rules) n
  | [], n, owner, _ => by
    rw [emitAll, sugarAll, choiceProductions, encodings, ite_self, emitted_nil]
  | rule :: rest, n, owner, howner => by
    have hnext : owner < (rule.lower scope n).next := by
      rw [next_lower]
      lia
    have hrest := emitted_emitAll scope id rest _ hnext
    rw [next_lower] at hrest
    simp only [emitAll, emitted_append, emitted_emit_cons, emitted_lower scope id rule,
      symbols_lower, next_lower, hrest, choiceProductions, sugarAll, encodings_append]
    split
    · rename_i howned
      rw [encodings_of_lt (by lia)]
      rfl
    · rfl

end

end

/-! ## Helpers in order -/

mutual

/-- Lowering a rule makes one helper after another, in the order of their numbers. -/
theorem helpersMade_lower (scope : Scope) :
    ∀ (rule : Rule) (n : NonterminalId),
      helpersMade (rule.lower scope n).steps = numbersFrom n rule.sugar.length
  | .character _, _ => rfl
  | .reference name, _ => by
    rw [lower]
    cases scope.names.get? name <;> rfl
  | .strayReference _, _ => rfl
  | .sequence rules, n => helpersMade_lowerAll scope rules n
  | .alternative first rest, n => by
    have hchoices := helpersMade_emitAll scope n (first :: rest) (n + 1)
    rw [sugar, List.length_cons, numbersFrom_succ]
    exact congrArg (List.cons n) hchoices
  | .repetition rule, n => by
    have hbody := helpersMade_lower scope rule (n + 1)
    simpa [lower, sugar, numbersFrom_succ] using hbody
  | .option rule, n => by
    have hbody := helpersMade_lower scope rule (n + 1)
    simp only [lower, sugar, List.cons_append, helpersMade_helper_cons, helpersMade_append,
      helpersMade_emit_cons, List.length_cons, numbersFrom_succ, hbody]
    split <;> simp [helpersMade, Step.helperId?]
  | .group rule, n => by
    have hbody := helpersMade_lower scope rule (n + 1)
    simpa [lower, sugar, numbersFrom_succ] using hbody
  | .exclude _ _, _ => rfl
  | .foreign _, _ => rfl

theorem helpersMade_lowerAll (scope : Scope) :
    ∀ (rules : List Rule) (n : NonterminalId),
      helpersMade (lowerAll scope rules n).steps = numbersFrom n (sugarAll rules).length
  | [], _ => rfl
  | rule :: rest, n => by
    rw [lowerAll, sugarAll, List.length_append, numbersFrom_add, helpersMade_append,
      helpersMade_lower scope rule, helpersMade_lowerAll scope rest, next_lower]

theorem helpersMade_emitAll (scope : Scope) (owner : NonterminalId) :
    ∀ (rules : List Rule) (n : NonterminalId),
      helpersMade (emitAll scope owner rules n).1 = numbersFrom n (sugarAll rules).length
  | [], _ => rfl
  | rule :: rest, n => by
    simp only [emitAll, sugarAll, List.length_append, numbersFrom_add, helpersMade_append,
      helpersMade_emit_cons, helpersMade_lower scope rule, helpersMade_emitAll scope owner rest,
      next_lower]

end

end Rule

/-! ## Whole plans -/

section

variable {names : Table String NonterminalId} {front rest definitions : List Definition}
  {definition : Definition} {id n : NonterminalId}

theorem helperNodes_cons :
    helperNodes (definition :: rest) =
      Rule.sugarAll definition.rule.choices ++ helperNodes rest :=
  List.flatMap_cons

/-- Behind a definition, numbers go on by one, and those of helpers by the count of its nodes. -/
theorem add_length_cons : n + (definition :: rest).length = n + 1 + rest.length := by
  rw [List.length_cons]
  lia

theorem add_length_helperNodes_cons :
    n + (helperNodes (definition :: rest)).length =
      n + (Rule.sugarAll definition.rule.choices).length + (helperNodes rest).length := by
  rw [helperNodes_cons, List.length_append]
  lia

theorem planAll_append (h : ∀ d ∈ front, ∃ id, names.get? d.name = some id) :
    planAll names (front ++ rest) n =
      planAll names front n ++ planAll names rest (n + (helperNodes front).length) := by
  induction front generalizing n with
  | nil => simp [planAll, helperNodes]
  | cons first front ih =>
    obtain ⟨⟨id, hget⟩, hfront⟩ := List.forall_mem_cons.1 h
    rw [List.cons_append, planAll_cons hget, planAll_cons hget, ih hfront,
      add_length_helperNodes_cons, List.append_assoc]

/-- The helpers of a plan are numbered in the order in which they are made. -/
theorem helpersMade_planAll (h : ∀ d ∈ definitions, ∃ id, names.get? d.name = some id) :
    helpersMade (planAll names definitions n) =
      numbersFrom n (helperNodes definitions).length := by
  induction definitions generalizing n with
  | nil => rfl
  | cons first rest ih =>
    obtain ⟨⟨id, hget⟩, hrest⟩ := List.forall_mem_cons.1 h
    rw [planAll_cons hget, helperNodes_cons, List.length_append, numbersFrom_add,
      helpersMade_append, helpersMade_announce_cons, Rule.helpersMade_emitAll, ih hrest]

/-- A plan adds to a nonterminal that is no definition's own what its node is encoded by. -/
theorem emitted_planAll
    (h : ∀ d ∈ definitions, ∃ own, names.get? d.name = some own ∧ own < n ∧ own ≠ id) :
    emitted id (planAll names definitions n) =
      Rule.encodings names id (helperNodes definitions) n := by
  induction definitions generalizing n with
  | nil => rfl
  | cons first rest ih =>
    obtain ⟨⟨own, hget, hlt, hne⟩, hrest⟩ := List.forall_mem_cons.1 h
    have hown := Rule.emitted_emitAll ⟨names, first.name⟩ id first.rule.choices n hlt
    rw [if_neg hne] at hown
    rw [planAll_cons hget, helperNodes_cons, Rule.encodings_append, emitted_append,
      emitted_announce_cons, hown, ih fun d hd => ?_]
    obtain ⟨other, hother, hlt, hne⟩ := hrest d hd
    exact ⟨other, hother, by lia, hne⟩

/-- A plan adds to the number of a definition a production for each choice of its rule. -/
theorem emitted_planAll_own (hget : names.get? definition.name = some id) (hid : id < n)
    (h : ∀ d ∈ front ++ rest, ∃ own, names.get? d.name = some own ∧ own < n ∧ own ≠ id) :
    emitted id (planAll names (front ++ definition :: rest) n) =
      Rule.choiceProductions names definition.rule.choices (n + (helperNodes front).length) := by
  obtain ⟨hfront, hrest⟩ := List.forall_mem_append.1 h
  have hnumbers : ∀ d ∈ front, ∃ own, names.get? d.name = some own := fun d hd =>
    let ⟨own, hown, _⟩ := hfront d hd
    ⟨own, hown⟩
  have hlt : id < n + (helperNodes front).length := by lia
  have hown := Rule.emitted_emitAll ⟨names, definition.name⟩ id definition.rule.choices _ hlt
  rw [if_pos rfl] at hown
  rw [planAll_append hnumbers, planAll_cons hget, emitted_append, emitted_append,
    emitted_announce_cons, hown, emitted_planAll hfront, Rule.encodings_of_lt hid,
    emitted_planAll fun d hd => ?_, Rule.encodings_of_lt (by lia), List.nil_append,
    List.append_nil]
  obtain ⟨other, hother, hlt', hne⟩ := hrest d hd
  exact ⟨other, hother, by lia, hne⟩

end

end FirstFollow
