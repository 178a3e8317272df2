import Mathlib.Data.Int.Cast.Lemmas
import FirstFollow.Rule.Sugar

/-!
# What rules mean

The strings that a rule matches, among definitions that may refer to each other and to themselves
(`Matches`), and what nonterminals stand for when definitions are lowered: the definitions are
numbered from 0 up, and one number is skipped before the nodes that get helpers
(`StandsFor`).
-/

namespace FirstFollow

/-! ## Matching -/

/-- The strings that a rule matches. It is the least relation with these rules, so a reference
    matches only what can be matched in finitely many steps. -/
inductive Matches (definitions : List Definition) : Rule → List Char → Prop where
  | character (c : Char) : Matches definitions (.character c) [c]
  | reference {definition : Definition} {w : List Char} (hd : definition ∈ definitions)
      (h : Matches definitions definition.rule w) :
      Matches definitions (.reference definition.name) w
  | nil : Matches definitions (.sequence []) []
  | cons {rule : Rule} {rules : List Rule} {u v : List Char} (hu : Matches definitions rule u)
      (hv : Matches definitions (.sequence rules) v) :
      Matches definitions (.sequence (rule :: rules)) (u ++ v)
  | choice {first rule : Rule} {rest : List Rule} {w : List Char} (hr : rule ∈ first :: rest)
      (h : Matches definitions rule w) : Matches definitions (.alternative first rest) w
  | stop (rule : Rule) : Matches definitions (.repetition rule) []
  | again {rule : Rule} {u v : List Char} (hu : Matches definitions rule u)
      (hv : Matches definitions (.repetition rule) v) :
      Matches definitions (.repetition rule) (u ++ v)
  | absent (rule : Rule) : Matches definitions (.option rule) []
  | present {rule : Rule} {w : List Char} (h : Matches definitions rule w) :
      Matches definitions (.option rule) w
  | group {rule : Rule} {w : List Char} (h : Matches definitions rule w) :
      Matches definitions (.group rule) w

variable {definitions : List Definition} {rule other node : Rule} {id n : NonterminalId}
  {a b nodes : List Rule} {P Q : NonterminalId → Rule → Prop} {w : List Char}

/-- A rule matches what its choices match. -/
theorem matches_of_mem_choices (hr : other ∈ rule.choices) (h : Matches definitions other w) :
    Matches definitions rule w := by
  cases rule with
  | alternative first rest => exact .choice hr h
  | _ =>
    obtain rfl := List.mem_singleton.1 hr
    exact h

/-! ## Nodes that get helpers -/

mutual

/-- The nodes of a rule that get helpers, in the order in which a walk from the left enters
    them. -/
def Rule.sugar : Rule → List Rule
  | .sequence rules => sugarAll rules
  | .alternative first rest => .alternative first rest :: (first.sugar ++ sugarAll rest)
  | .repetition rule => .repetition rule :: rule.sugar
  | .option rule => .option rule :: rule.sugar
  | .group rule => .group rule :: rule.sugar
  | _ => []

/-- The nodes of rules one after another. -/
def Rule.sugarAll : List Rule → List Rule
  | [] => []
  | rule :: rest => rule.sugar ++ sugarAll rest

end

/-- The nodes of definitions that get helpers. A choice at the top of a definition gets none. -/
def helperNodes (definitions : List Definition) : List Rule :=
  definitions.flatMap fun definition => Rule.sugarAll definition.rule.choices

/-- The nonterminal is the helper of the node. -/
def Helps (definitions : List Definition) (id : NonterminalId) (node : Rule) : Prop :=
  ∃ i : Nat, (helperNodes definitions)[i]? = some node ∧ id = definitions.length + 1 + i

/-- The nonterminal is the number of a definition with the rule, or the helper of the rule. -/
def StandsFor (definitions : List Definition) (id : NonterminalId) (rule : Rule) : Prop :=
  (∃ (i : Nat) (definition : Definition), definitions[i]? = some definition ∧ id = i ∧
    definition.rule = rule) ∨ Helps definitions id rule

/-- A nonterminal stands for one rule at most. -/
theorem StandsFor.unique (h : StandsFor definitions id rule)
    (h' : StandsFor definitions id other) : rule = other := by
  rcases h with ⟨i, d, hd, rfl, rfl⟩ | ⟨i, hi, rfl⟩
  · obtain ⟨hlt, -⟩ := List.getElem?_eq_some_iff.1 hd
    rcases h' with ⟨j, e, he, hij, rfl⟩ | ⟨j, -, hij⟩
    · obtain rfl : i = j := Int.ofNat.inj hij
      rw [Option.some.inj (hd.symm.trans he)]
    -- Definitions are numbered below their count, helpers above it.
    · have hij : (i : Int) = definitions.length + 1 + j := hij
      omega
  · rcases h' with ⟨j, e, he, hij, -⟩ | ⟨j, hj, hij⟩
    · obtain ⟨hlt, -⟩ := List.getElem?_eq_some_iff.1 he
      have hij : (definitions.length + 1 + i : Int) = j := hij
      omega
    · obtain rfl : i = j := Int.ofNat.inj (add_left_cancel hij)
      exact Option.some.inj (hi.symm.trans hj)

/-! ## Numbered nodes -/

/-- Each node, with its number counted up from `n`, satisfies a predicate. -/
def Numbered (P : NonterminalId → Rule → Prop) : List Rule → NonterminalId → Prop
  | [], _ => True
  | node :: rest, n => P n node ∧ Numbered P rest (n + 1)

theorem numbered_append :
    Numbered P (a ++ b) n ↔ Numbered P a n ∧ Numbered P b (n + a.length) := by
  induction a generalizing n with
  | nil => simp [Numbered]
  | cons node rest ih =>
    have hn : n + 1 + rest.length = n + (node :: rest).length := by
      rw [List.length_cons, Nat.cast_add_one, add_assoc, add_comm 1]
    rw [List.cons_append, Numbered, Numbered, ih, hn, and_assoc]

theorem numbered_iff :
    Numbered P nodes n ↔ ∀ (i : Nat) (node : Rule), nodes[i]? = some node → P (n + i) node := by
  induction nodes generalizing n with
  | nil => simp [Numbered]
  | cons first rest ih =>
    rw [Numbered, ih]
    constructor
    · intro ⟨hfirst, hrest⟩ i node hi
      cases i with
      | zero =>
        obtain rfl : first = node := by simpa using hi
        simpa using hfirst
      | succ i =>
        rw [Nat.cast_add_one, add_comm (i : NonterminalId), ← add_assoc]
        exact hrest i node hi
    · intro h
      refine ⟨by simpa using h 0 first rfl, fun i node hi => ?_⟩
      rw [add_assoc, add_comm 1, ← Nat.cast_add_one]
      exact h (i + 1) node hi

theorem Numbered.mono (hle : ∀ id node, P id node → Q id node) (h : Numbered P nodes n) :
    Numbered Q nodes n :=
  numbered_iff.2 fun i node hi => hle _ _ (numbered_iff.1 h i node hi)

theorem numbered_helps (definitions : List Definition) :
    Numbered (Helps definitions) (helperNodes definitions) (definitions.length + 1) :=
  numbered_iff.2 fun i _ hi => ⟨i, hi, rfl⟩

/-- What holds of all nodes with their numbers holds of each helper and its node. -/
theorem Numbered.of_helps (h : Numbered P (helperNodes definitions) (definitions.length + 1))
    (hid : Helps definitions id node) : P id node := by
  obtain ⟨i, hi, rfl⟩ := hid
  exact numbered_iff.1 h i node hi

end FirstFollow
