import FirstFollow.Rule.Expr
import FirstFollow.Proofs.Outcome

/-!
# Brackets do not matter to the operators

Both operators splice: of a sequence that becomes part of a sequence only its rules are left, and
likewise of an alternative. An operand is spliced once wherever it stands, since what an operator
gives is spliced in turn when it is joined with more. So all ways to bracket operands that are
joined by one operator give the tree that the building function makes of them at once
(`Bracketing.eval_agreement`). Two plain texts are the exception: they make a longer text, which
stands for the same sequence, but no choice.

An expression that joins operands without brackets reads them from the left, which is one
bracketing among others (`Bracketing.chain`).
-/

namespace FirstFollow

theorem forall_mem_pair {α : Type} {p : α → Prop} {a b : α} (ha : p a) (hb : p b) :
    ∀ c ∈ [a, b], p c :=
  List.forall_mem_cons.2 ⟨ha, List.forall_mem_singleton.2 hb⟩

/-! ## Operands -/

namespace Rule

/-- A rule, or a plain text. -/
def IsOperand : Rule → Prop
  | .foreign (.text _) => True
  | .foreign _ => False
  | _ => True

/-- The rule that an operand stands for. -/
def promoted : Rule → Rule
  | .foreign (.text s) => string s
  | rule => rule

/-- What an operand contributes to a sequence. -/
def promotedSequents (operand : Rule) : List Rule := operand.promoted.sequents

/-- What an operand contributes to an alternative. -/
def promotedChoices (operand : Rule) : List Rule := operand.promoted.choices

variable {left right operand : Rule} {operands : List Rule}

theorem promote_eq_ok (h : operand.IsOperand) : operand.promote = .ok operand.promoted := by
  cases operand with
  | foreign value =>
    cases value with
    | text s => rfl
    | _ => exact h.elim
  | _ => rfl

theorem mapM_promote (h : ∀ operand ∈ operands, operand.IsOperand) :
    operands.mapM promote = .ok (operands.map promoted) := by
  induction operands with
  | nil => rfl
  | cons operand rest ih =>
    have hfirst := promote_eq_ok (h operand List.mem_cons_self)
    have hrest := ih fun r hr => h r (List.mem_cons_of_mem _ hr)
    rw [List.mapM_cons, hfirst, hrest]
    rfl

theorem seq_eq_ok (h : ∀ operand ∈ operands, operand.IsOperand) :
    seq operands = .ok (.sequence (operands.flatMap promotedSequents)) := by
  unfold seq
  rw [mapM_promote h]
  change Except.ok (Rule.sequence ((operands.map promoted).flatMap sequents)) = _
  rw [List.flatMap_map]
  rfl

theorem alt_eq_choice (h : ∀ operand ∈ operands, operand.IsOperand) :
    alt operands = choice (operands.flatMap promotedChoices) := by
  unfold alt
  rw [mapM_promote h]
  change choice ((operands.map promoted).flatMap choices) = _
  rw [List.flatMap_map]
  rfl

theorem promotedChoices_ne_nil (operand : Rule) : operand.promotedChoices ≠ [] :=
  choices_ne_nil _

/-- Spliced in, an alternative gives back the choices that it was made of. -/
theorem choice_eq_ok {rules : List Rule} (h : rules ≠ []) :
    ∃ rule, choice rules = .ok rule ∧ rule.IsOperand ∧ rule.text? = none ∧
      rule.promotedChoices = rules := by
  cases rules with
  | nil => exact absurd rfl h
  | cons first rest => exact ⟨_, rfl, trivial, rfl, rfl⟩

/-! ## One operator -/

theorem text?_eq_some_iff {s : String} : operand.text? = some s ↔ operand = .foreign (.text s) := by
  cases operand with
  | foreign value => cases value <;> simp [text?]
  | _ => simp [text?]

/-- Joined operands stand for the sequence of what each contributes. -/
theorem plus_spec (hleft : left.IsOperand) (hright : right.IsOperand) :
    ∃ value, plus left right = .ok value ∧ value.IsOperand ∧
      value.promoted = .sequence (left.promotedSequents ++ right.promotedSequents) := by
  have hseq := seq_eq_ok (forall_mem_pair hleft hright)
  unfold plus
  split
  · rename_i s t hs ht
    cases text?_eq_some_iff.1 hs
    cases text?_eq_some_iff.1 ht
    refine ⟨_, rfl, trivial, ?_⟩
    simp [promoted, promotedSequents, string, sequents]
  · refine ⟨_, hseq, trivial, ?_⟩
    simp [promoted]

/-- Two operands of which one is a rule make a choice of what each contributes. -/
theorem or_eq_choice (hleft : left.IsOperand) (hright : right.IsOperand)
    (htexts : left.text? = none ∨ right.text? = none) :
    or left right = choice (left.promotedChoices ++ right.promotedChoices) := by
  have halt := alt_eq_choice (forall_mem_pair hleft hright)
  unfold or
  split
  · rename_i s t hs ht
    simp [hs, ht] at htexts
  · simpa using halt

end Rule

/-! ## Brackets -/

/-- A way to put operands that are joined by one operator in brackets. -/
inductive Bracketing where
  | operand (value : Rule)
  | join (left right : Bracketing)
  deriving Repr

namespace Bracketing

/-- The operands, from left to right. -/
def operands : Bracketing → List Rule
  | .operand value => [value]
  | .join left right => left.operands ++ right.operands

/-- The value when the operator is carried out at each pair of brackets, the left side first. -/
def eval (operator : Rule → Rule → Except Error Rule) : Bracketing → Except Error Rule
  | .operand value => .ok value
  | .join left right => do
    let l ← left.eval operator
    let r ← right.eval operator
    operator l r

/-- Two plain texts are joined directly. -/
inductive JoinsTexts : Bracketing → Prop where
  | here (s t : String) :
      JoinsTexts (.join (.operand (.foreign (.text s))) (.operand (.foreign (.text t))))
  | left {l r : Bracketing} (h : JoinsTexts l) : JoinsTexts (.join l r)
  | right {l r : Bracketing} (h : JoinsTexts r) : JoinsTexts (.join l r)

variable {l r t : Bracketing} {operator : Rule → Rule → Except Error Rule} {left right : Rule}

theorem eval_join (hleft : l.eval operator = .ok left) (hright : r.eval operator = .ok right) :
    (join l r).eval operator = operator left right := by
  rw [eval, hleft, hright]
  rfl

theorem forall_operands_join {p : Rule → Prop} (h : ∀ value ∈ (join l r).operands, p value) :
    (∀ value ∈ l.operands, p value) ∧ ∀ value ∈ r.operands, p value :=
  List.forall_mem_append.1 h

/-! ## Chains -/

/-- A chain without brackets, which the operators read from the left. -/
def chain (first : Rule) (rest : List Rule) : Bracketing :=
  rest.foldl (fun t value => .join t (.operand value)) (.operand first)

theorem operands_foldl_join (rest : List Rule) (t : Bracketing) :
    (rest.foldl (fun t value => join t (operand value)) t).operands = t.operands ++ rest := by
  induction rest generalizing t with
  | nil => simp
  | cons value rest ih => simp [ih, operands]

theorem eval_foldl_join (rest : List Rule) (t : Bracketing) :
    (rest.foldl (fun t value => join t (operand value)) t).eval operator =
      t.eval operator >>= fun value => rest.foldlM operator value := by
  induction rest generalizing t with
  | nil => simp
  | cons value rest ih =>
    rw [List.foldl_cons, ih, eval, bind_assoc]
    rfl

@[simp] theorem operands_chain (first : Rule) (rest : List Rule) :
    (chain first rest).operands = first :: rest :=
  operands_foldl_join rest (.operand first)

theorem eval_chain (first : Rule) (rest : List Rule) :
    (chain first rest).eval operator = rest.foldlM operator first :=
  eval_foldl_join rest (.operand first)

/-- An expression that joins operands as a sequence has the value of their chain. -/
theorem eval_plusExpr (first : Expr) (rest : List Expr) :
    (Expr.plus first rest).eval = (do
      let value ← first.eval
      let values ← Expr.evalAll rest
      (chain value values).eval Rule.plus) := by
  rw [Expr.eval]
  simp only [eval_chain]

/-- So has one that joins them as a choice. -/
theorem eval_orExpr (first : Expr) (rest : List Expr) :
    (Expr.or first rest).eval = (do
      let value ← first.eval
      let values ← Expr.evalAll rest
      (chain value values).eval Rule.or) := by
  rw [Expr.eval]
  simp only [eval_chain]

/-! ## Sequences -/

/-- However it is bracketed, a sequence contributes what its operands contribute. Unless it is a
    single operand it stands for their sequence. -/
theorem exists_eval_plus (h : ∀ value ∈ t.operands, value.IsOperand) :
    ∃ value, t.eval Rule.plus = .ok value ∧ value.IsOperand ∧
      value.promotedSequents = t.operands.flatMap Rule.promotedSequents ∧
      (Rule.seq t.operands = .ok value.promoted ∨ t = operand value) := by
  induction t with
  | operand value =>
    refine ⟨value, rfl, h value List.mem_cons_self, ?_, .inr rfl⟩
    simp [operands]
  | join l r ihl ihr =>
    obtain ⟨hl, hr⟩ := forall_operands_join h
    obtain ⟨left, hleft, hleftOperand, hleftParts, -⟩ := ihl hl
    obtain ⟨right, hright, hrightOperand, hrightParts, -⟩ := ihr hr
    obtain ⟨value, hvalue, hoperand, hpromoted⟩ := Rule.plus_spec hleftOperand hrightOperand
    have hparts : left.promotedSequents ++ right.promotedSequents =
        (join l r).operands.flatMap Rule.promotedSequents := by
      rw [operands, List.flatMap_append, hleftParts, hrightParts]
    rw [hparts] at hpromoted
    refine ⟨value, (eval_join hleft hright).trans hvalue, hoperand, ?_, .inl ?_⟩
    · rw [Rule.promotedSequents, hpromoted, Rule.sequents]
    · rw [Rule.seq_eq_ok h, hpromoted]

/-! ## Choices -/

theorem text?_eq_none_of_not_joinsTexts
    (htexts : ¬ (join (operand left) (operand right)).JoinsTexts) :
    left.text? = none ∨ right.text? = none := by
  cases hleft : left.text? with
  | none => exact .inl rfl
  | some s =>
    cases hright : right.text? with
    | none => exact .inr rfl
    | some t =>
      cases Rule.text?_eq_some_iff.1 hleft
      cases Rule.text?_eq_some_iff.1 hright
      exact absurd (.here s t) htexts

/-- A choice that joins no two plain texts contributes what its operands contribute. Unless it is
    a single operand it is a rule, their alternative. -/
theorem exists_eval_or (h : ∀ value ∈ t.operands, value.IsOperand) (htexts : ¬ t.JoinsTexts) :
    ∃ value, t.eval Rule.or = .ok value ∧ value.IsOperand ∧
      value.promotedChoices = t.operands.flatMap Rule.promotedChoices ∧
      (value.text? = none ∧ Rule.alt t.operands = .ok value ∨ t = operand value) := by
  induction t with
  | operand value =>
    refine ⟨value, rfl, h value List.mem_cons_self, ?_, .inr rfl⟩
    simp [operands]
  | join l r ihl ihr =>
    obtain ⟨hl, hr⟩ := forall_operands_join h
    obtain ⟨left, hleft, hleftOperand, hleftParts, hleftText⟩ := ihl hl (mt .left htexts)
    obtain ⟨right, hright, hrightOperand, hrightParts, hrightText⟩ := ihr hr (mt .right htexts)
    -- a side that is a plain text has no operator in it, so the two sides are not both texts
    have hrule : left.text? = none ∨ right.text? = none := by
      rcases hleftText with ⟨hnone, -⟩ | rfl
      · exact .inl hnone
      · rcases hrightText with ⟨hnone, -⟩ | rfl
        · exact .inr hnone
        · exact text?_eq_none_of_not_joinsTexts htexts
    have hparts : left.promotedChoices ++ right.promotedChoices =
        (join l r).operands.flatMap Rule.promotedChoices := by
      rw [operands, List.flatMap_append, hleftParts, hrightParts]
    have hne : (join l r).operands.flatMap Rule.promotedChoices ≠ [] := by
      rw [← hparts]
      exact List.append_ne_nil_of_left_ne_nil left.promotedChoices_ne_nil _
    obtain ⟨value, hvalue, hoperand, hnone, hchoices⟩ := Rule.choice_eq_ok hne
    refine ⟨value, ?_, hoperand, hchoices, .inl ⟨hnone, ?_⟩⟩
    · rw [eval_join hleft hright, Rule.or_eq_choice hleftOperand hrightOperand hrule, hparts,
        hvalue]
    · rw [Rule.alt_eq_choice h, hvalue]

/-- A choice is refused when two plain texts are joined directly. -/
theorem eval_or_of_joinsTexts (h : ∀ value ∈ t.operands, value.IsOperand)
    (htexts : t.JoinsTexts) : t.eval Rule.or = .error .choiceOfTexts := by
  induction t with
  | operand value => cases htexts
  | join l r ihl ihr =>
    obtain ⟨hl, hr⟩ := forall_operands_join h
    by_cases hleft : l.JoinsTexts
    · rw [eval, ihl hl hleft]
      rfl
    · cases htexts with
      | here s t => rfl
      | left hjoins => exact absurd hjoins hleft
      | right hright =>
        obtain ⟨left, hvalue, -, -, -⟩ := exists_eval_or hl hleft
        rw [eval, hvalue, ihr hr hright]
        rfl

/-! ## Agreement -/

/-- However two or more operands are bracketed, joined as a sequence they stand for their sequence,
    and joined as a choice they make their alternative, unless two plain texts are joined
    directly. -/
theorem eval_agreement {values : List Rule} (hcount : 2 ≤ values.length)
    (hvalues : ∀ value ∈ values, value.IsOperand) (t : Bracketing) (ht : t.operands = values) :
    (∃ value rule, t.eval Rule.plus = .ok value ∧ value.promote = .ok rule ∧
      Rule.seq values = .ok rule) ∧
    (¬ t.JoinsTexts → ∃ rule, t.eval Rule.or = .ok rule ∧ Rule.alt values = .ok rule) ∧
    (t.JoinsTexts → t.eval Rule.or = .error .choiceOfTexts) := by
  subst ht
  have hjoined : ∀ value, t ≠ operand value := by
    rintro value rfl
    simp [operands] at hcount
  refine ⟨?_, fun htexts => ?_, eval_or_of_joinsTexts hvalues⟩
  · obtain ⟨value, hvalue, hoperand, -, hseq⟩ := exists_eval_plus hvalues
    exact ⟨value, value.promoted, hvalue, Rule.promote_eq_ok hoperand,
      hseq.resolve_right (hjoined value)⟩
  · obtain ⟨value, hvalue, -, -, halt⟩ := exists_eval_or hvalues htexts
    exact ⟨value, hvalue, (halt.resolve_right (hjoined value)).2⟩

/-- A text, an alternative with an alternative inside, a text, and a sequence with a sequence
    inside. -/
def mixedOperands : List Rule :=
  [.foreign (.text "ab"),
    .alternative (.character 'x') [.alternative (.character 'y') []],
    .foreign (.text ""),
    .sequence [.sequence [.reference "A"], .character 'z']]

/-- The outer operands are joined first on either side. -/
def mixedBrackets : Bracketing :=
  .join
    (.join (.operand (.foreign (.text "ab")))
      (.operand (.alternative (.character 'x') [.alternative (.character 'y') []])))
    (.join (.operand (.foreign (.text "")))
      (.operand (.sequence [.sequence [.reference "A"], .character 'z'])))

theorem eval_agreement_mixed :
    (2 ≤ mixedOperands.length ∧ (∀ value ∈ mixedOperands, value.IsOperand) ∧
      mixedBrackets.operands = mixedOperands ∧ ¬ mixedBrackets.JoinsTexts) ∧
    (∃ value rule, mixedBrackets.eval Rule.plus = .ok value ∧ value.promote = .ok rule ∧
      Rule.seq mixedOperands = .ok rule) ∧
    ∃ rule, mixedBrackets.eval Rule.or = .ok rule ∧ Rule.alt mixedOperands = .ok rule := by
  have hvalues : ∀ value ∈ mixedOperands, value.IsOperand := by
    simp [mixedOperands, Rule.IsOperand]
  have htexts : ¬ mixedBrackets.JoinsTexts := by
    rintro (_ | ⟨⟨⟩⟩ | ⟨⟨⟩⟩) <;> contradiction
  obtain ⟨hplus, hor, -⟩ := eval_agreement (by decide) hvalues mixedBrackets rfl
  exact ⟨⟨by decide, hvalues, rfl, htexts⟩, hplus, hor htexts⟩

end Bracketing

end FirstFollow
