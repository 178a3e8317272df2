import FirstFollow.Proofs.Bracketing
import FirstFollow.Proofs.Refusal

/-!
# Flat trees

The building functions and the operators splice one level deep, but what they splice was built by
them too. So trees that are built from texts without the plain constructors are flat: no sequence
stands directly in a sequence, no alternative directly in an alternative, and every node is a rule
(`Expr.Sugared.tidy`). Lowering such trees may meet an unknown name or a difference, but nothing
that is not a rule (`sugared_flatness`).
-/

namespace FirstFollow

namespace Rule

/-! ## Flat trees -/

/-- Anything but a value that stands where a rule belongs. -/
def IsRule : Rule → Prop
  | .foreign _ => False
  | _ => True

/-- The nodes directly below a node. -/
def children : Rule → List Rule
  | .strayReference value => [value]
  | .sequence rules => rules
  | .alternative first rest => first :: rest
  | .repetition rule => [rule]
  | .option rule => [rule]
  | .group rule => [rule]
  | .exclude source excluded => [source, excluded]
  | _ => []

/-- A sequence in a sequence, or an alternative in an alternative. -/
inductive Nests : Rule → Rule → Prop where
  | sequence {rules inner : List Rule} : Nests (.sequence rules) (.sequence inner)
  | alternative {first inner : Rule} {rest others : List Rule} :
      Nests (.alternative first rest) (.alternative inner others)

/-- A node of a flat tree: a rule, with a choice if it is an alternative, and with no child of
    its own kind if it is a sequence or an alternative. -/
structure FlatNode (rule : Rule) : Prop where
  isRule : rule.IsRule
  choices : ∀ first rest, rule = .alternative first rest → rule.children ≠ []
  notNested : ∀ child ∈ rule.children, ¬ Nests rule child

/-- A tree with flat nodes only. -/
inductive Flat : Rule → Prop where
  | intro {rule : Rule} (node : rule.FlatNode) (below : ∀ child ∈ rule.children, Flat child) :
      Flat rule

variable {rule node part child tree value left right : Rule} {values args : List Rule}

theorem Flat.flatNode (h : rule.Flat) : rule.FlatNode := by
  cases h with
  | intro node below => exact node

theorem Flat.of_mem_children (h : rule.Flat) (hchild : child ∈ rule.children) : child.Flat := by
  cases h with
  | intro node below => exact below child hchild

theorem flat_of_children (hrule : rule.IsRule)
    (h : ∀ child ∈ rule.children, child.Flat ∧ ¬ Nests rule child) : rule.Flat := by
  refine .intro ⟨hrule, ?_, fun child hchild => (h child hchild).2⟩ fun child hchild =>
    (h child hchild).1
  rintro first rest rfl
  exact List.cons_ne_nil first rest

theorem flat_leaf (hrule : rule.IsRule) (h : rule.children = []) : rule.Flat := by
  refine flat_of_children hrule fun child hchild => ?_
  rw [h] at hchild
  exact absurd hchild List.not_mem_nil

theorem flat_above (hrule : rule.IsRule) (h : rule.children = [child]) (hchild : child.Flat)
    (hnests : ¬ Nests rule child) : rule.Flat := by
  refine flat_of_children hrule fun other hother => ?_
  rw [h, List.mem_singleton] at hother
  exact hother ▸ ⟨hchild, hnests⟩

/-! ## Splicing -/

/-- What has a child of its own kind is of that child's kind. -/
theorem Nests.iff_of_nests (h : Nests node rule) : Nests rule part ↔ Nests node part := by
  cases h with
  | sequence =>
    constructor <;> rintro ⟨⟩ <;> exact .sequence
  | alternative =>
    constructor <;> rintro ⟨⟩ <;> exact .alternative

/-- Spliced into a node of its kind, a flat tree leaves parts that are of other kinds. Any other
    flat tree is a part itself. -/
theorem Flat.spliced {parts : List Rule} (h : rule.Flat)
    (hparts : Nests node rule ∧ parts = rule.children ∨ ¬ Nests node rule ∧ parts = [rule])
    (hpart : part ∈ parts) : part.Flat ∧ ¬ Nests node part := by
  rcases hparts with ⟨hnests, rfl⟩ | ⟨hnests, rfl⟩
  · exact ⟨h.of_mem_children hpart, mt hnests.iff_of_nests.2 (h.flatNode.notNested part hpart)⟩
  · obtain rfl := List.mem_singleton.1 hpart
    exact ⟨h, hnests⟩

theorem sequents_cases (rules : List Rule) (rule : Rule) :
    Nests (.sequence rules) rule ∧ rule.sequents = rule.children ∨
      ¬ Nests (.sequence rules) rule ∧ rule.sequents = [rule] := by
  cases rule with
  | sequence inner => exact .inl ⟨.sequence, rfl⟩
  | _ => exact .inr ⟨nofun, rfl⟩

theorem choices_cases (first : Rule) (rest : List Rule) (rule : Rule) :
    Nests (.alternative first rest) rule ∧ rule.choices = rule.children ∨
      ¬ Nests (.alternative first rest) rule ∧ rule.choices = [rule] := by
  cases rule with
  | alternative inner others => exact .inl ⟨.alternative, rfl⟩
  | _ => exact .inr ⟨nofun, rfl⟩

/-! ## What may become part of a flat tree -/

/-- A text, or a flat tree. -/
structure Tidy (value : Rule) : Prop where
  isOperand : value.IsOperand
  flat : value.promoted.Flat

theorem flat_string (s : String) : (string s).Flat := by
  refine flat_of_children trivial fun child hchild => ?_
  obtain ⟨c, -, rfl⟩ := List.mem_map.1 hchild
  exact ⟨flat_leaf trivial rfl, nofun⟩

theorem tidy_text (s : String) : Tidy (.foreign (.text s)) :=
  ⟨trivial, flat_string s⟩

theorem Flat.tidy (h : tree.Flat) : tree.Tidy := by
  cases tree with
  | foreign value => exact h.flatNode.isRule.elim
  | _ => exact ⟨trivial, h⟩

theorem promoted_eq_self (h : rule.IsRule) : rule.promoted = rule := by
  cases rule with
  | foreign value => exact h.elim
  | _ => rfl

theorem Tidy.flat_of_isRule (h : value.Tidy) (hrule : value.IsRule) : value.Flat :=
  promoted_eq_self hrule ▸ h.flat

theorem Tidy.flat_of_promote (h : value.Tidy) (heval : value.promote = .ok tree) : tree.Flat := by
  rw [promote_eq_ok h.isOperand] at heval
  cases heval
  exact h.flat

/-! ## Building functions -/

/-- A node above the parts of tidy values is flat if of the values of its own kind only the
    children are left. -/
theorem flat_of_parts {parts : Rule → List Rule} (hrule : node.IsRule)
    (hchildren : node.children = values.flatMap fun value => parts value.promoted)
    (hparts : ∀ rule, Nests node rule ∧ parts rule = rule.children ∨
      ¬ Nests node rule ∧ parts rule = [rule])
    (hvalues : ∀ value ∈ values, value.Tidy) : node.Flat := by
  refine flat_of_children hrule fun part hpart => ?_
  rw [hchildren] at hpart
  obtain ⟨value, hvalue, hpart⟩ := List.mem_flatMap.1 hpart
  exact (hvalues value hvalue).flat.spliced (hparts value.promoted) hpart

theorem flat_sequence (h : ∀ value ∈ values, value.Tidy) :
    (sequence (values.flatMap promotedSequents)).Flat :=
  flat_of_parts trivial rfl (sequents_cases _) h

theorem flat_of_seq (hargs : ∀ arg ∈ args, arg.Tidy) (h : seq args = .ok tree) : tree.Flat := by
  rw [seq_eq_ok fun arg harg => (hargs arg harg).isOperand] at h
  cases h
  exact flat_sequence hargs

theorem flat_of_alt (hargs : ∀ arg ∈ args, arg.Tidy) (h : alt args = .ok tree) : tree.Flat := by
  rw [alt_eq_choice fun arg harg => (hargs arg harg).isOperand] at h
  -- the alternative holds its first choice apart, so the parts are split up to build it
  cases hparts : args.flatMap promotedChoices with
  | nil =>
    rw [hparts] at h
    cases h
  | cons first rest =>
    rw [hparts] at h
    cases h
    exact flat_of_parts trivial hparts.symm (choices_cases first rest) hargs

theorem flat_of_char (h : char value = .ok tree) : tree.Flat := by
  unfold char at h
  split at h
  · split at h
    · cases h
      exact flat_leaf trivial rfl
    · cases h
  · cases h

theorem flat_of_spellOut (h : spellOut value = .ok tree) : tree.Flat := by
  unfold spellOut at h
  split at h
  · cases h
    exact flat_string _
  · cases h

theorem Tidy.flat_ref (h : value.Tidy) : (ref value).Flat := by
  unfold ref
  cases value with
  | foreign v =>
    cases v with
    | text name => exact flat_leaf trivial rfl
    | _ => exact h.isOperand.elim
  | _ => exact flat_above trivial rfl (h.flat_of_isRule trivial) nofun

theorem flat_of_body (hargs : ∀ arg ∈ args, arg.Tidy) (h : body args = .ok tree) : tree.Flat := by
  unfold body at h
  split at h
  · exact (hargs _ List.mem_cons_self).flat_of_promote h
  · exact flat_of_seq hargs h

/-- A repetition, an option and a group are flat above a flat body. -/
theorem flat_of_body_map {above : Rule → Rule}
    (habove : above = repetition ∨ above = option ∨ above = group)
    (hargs : ∀ arg ∈ args, arg.Tidy) (h : above <$> body args = .ok tree) : tree.Flat := by
  obtain ⟨rule, hbody, rfl⟩ := map_eq_ok.1 h
  have hflat := flat_of_body hargs hbody
  rcases habove with rfl | rfl | rfl
  · exact flat_above trivial rfl hflat nofun
  · exact flat_above trivial rfl hflat nofun
  · exact flat_above trivial rfl hflat nofun

theorem flat_of_difference (hleft : left.Tidy) (hright : right.Tidy)
    (h : difference left right = .ok tree) : tree.Flat := by
  obtain ⟨source, hsource, h⟩ := bind_eq_ok.1 h
  obtain ⟨excluded, hexcluded, h⟩ := bind_eq_ok.1 h
  cases h
  refine flat_of_children trivial (forall_mem_pair ?_ ?_)
  · exact ⟨hleft.flat_of_promote hsource, nofun⟩
  · exact ⟨hright.flat_of_promote hexcluded, nofun⟩

/-! ## Operators -/

theorem tidy_of_plus (hleft : left.Tidy) (hright : right.Tidy)
    (h : plus left right = .ok value) : value.Tidy := by
  obtain ⟨joined, hjoined, hoperand, hpromoted⟩ := plus_spec hleft.isOperand hright.isOperand
  rw [hjoined] at h
  cases h
  refine ⟨hoperand, ?_⟩
  have hpair : ∀ value ∈ [left, right], value.Tidy := forall_mem_pair hleft hright
  have hflat := flat_sequence hpair
  rw [hpromoted]
  simpa using hflat

theorem tidy_of_or (hleft : left.Tidy) (hright : right.Tidy)
    (h : or left right = .ok value) : value.Tidy := by
  unfold or at h
  split at h
  · cases h
  · exact (flat_of_alt (forall_mem_pair hleft hright) h).tidy

end Rule

/-- An operator that keeps values tidy does so in any brackets. -/
theorem Bracketing.tidy_of_eval {operator : Rule → Rule → Except Error Rule} {t : Bracketing}
    {value : Rule}
    (hoperator : ∀ left right value, left.Tidy → right.Tidy → operator left right = .ok value →
      value.Tidy) (hoperands : ∀ value ∈ t.operands, value.Tidy)
    (h : t.eval operator = .ok value) : value.Tidy := by
  induction t generalizing value with
  | operand first =>
    cases h
    exact hoperands first (List.mem_singleton_self first)
  | join l r ihl ihr =>
    obtain ⟨hl, hr⟩ := forall_operands_join hoperands
    obtain ⟨left, hleft, h⟩ := bind_eq_ok.1 h
    obtain ⟨right, hright, h⟩ := bind_eq_ok.1 h
    exact hoperator left right value (ihl hl hleft) (ihr hr hright) h

/-! ## Expressions -/

/-- An expression of texts, building functions and operators, without a plain constructor. -/
inductive Expr.Sugared : Expr → Prop where
  | text (s : String) : Sugared (.value (.text s))
  | char {arg : Expr} (h : Sugared arg) : Sugared (.char arg)
  | string {arg : Expr} (h : Sugared arg) : Sugared (.string arg)
  | ref {arg : Expr} (h : Sugared arg) : Sugared (.ref arg)
  | seq {args : List Expr} (h : ∀ arg ∈ args, Sugared arg) : Sugared (.seq args)
  | alt {args : List Expr} (h : ∀ arg ∈ args, Sugared arg) : Sugared (.alt args)
  | rep {args : List Expr} (h : ∀ arg ∈ args, Sugared arg) : Sugared (.rep args)
  | opt {args : List Expr} (h : ∀ arg ∈ args, Sugared arg) : Sugared (.opt args)
  | group {args : List Expr} (h : ∀ arg ∈ args, Sugared arg) : Sugared (.group args)
  | exclude {source excluded : Expr} (hsource : Sugared source) (hexcluded : Sugared excluded) :
      Sugared (.exclude source excluded)
  | plus {first : Expr} {rest : List Expr} (hfirst : Sugared first)
      (hrest : ∀ arg ∈ rest, Sugared arg) : Sugared (.plus first rest)
  | or {first : Expr} {rest : List Expr} (hfirst : Sugared first)
      (hrest : ∀ arg ∈ rest, Sugared arg) : Sugared (.or first rest)

namespace Expr

variable {e : Expr} {args : List Expr} {value : Rule} {values : List Rule}

theorem evalAll_eq_mapM (args : List Expr) : evalAll args = args.mapM eval := by
  induction args with
  | nil =>
    rw [evalAll]
    rfl
  | cons arg rest ih => rw [evalAll, ih, List.mapM_cons]

/-- Expressions with tidy values have them together. -/
theorem tidy_of_evalAll (h : ∀ arg ∈ args, ∀ {value}, arg.eval = .ok value → value.Tidy)
    (heval : evalAll args = .ok values) : ∀ value ∈ values, value.Tidy := by
  rw [evalAll_eq_mapM] at heval
  exact forall_of_mapM_eq_ok (fun arg harg value => h arg harg) heval

/-- Operands with tidy values make a chain with tidy operands. -/
theorem tidy_of_mem_chain {first : Rule}
    (hrest : ∀ arg ∈ args, ∀ {value}, arg.eval = .ok value → value.Tidy)
    (hfirst : first.Tidy) (heval : evalAll args = .ok values) :
    ∀ value ∈ (Bracketing.chain first values).operands, value.Tidy := by
  rw [Bracketing.operands_chain]
  exact List.forall_mem_cons.2 ⟨hfirst, tidy_of_evalAll hrest heval⟩

/-- Without plain constructors nothing but texts and flat trees comes out. -/
theorem Sugared.tidy (h : e.Sugared) (heval : e.eval = .ok value) : value.Tidy := by
  -- each form splices one level only, which is enough because its operands are tidy already
  induction h generalizing value with
  | text s =>
    rw [eval] at heval
    cases heval
    exact Rule.tidy_text s
  | char _ _ =>
    rw [eval] at heval
    obtain ⟨arg, -, heval⟩ := bind_eq_ok.1 heval
    exact (Rule.flat_of_char heval).tidy
  | string _ _ =>
    rw [eval] at heval
    obtain ⟨arg, -, heval⟩ := bind_eq_ok.1 heval
    exact (Rule.flat_of_spellOut heval).tidy
  | ref _ ih =>
    rw [eval] at heval
    obtain ⟨arg, harg, heval⟩ := bind_eq_ok.1 heval
    cases heval
    exact (ih harg).flat_ref.tidy
  | seq _ ih =>
    rw [eval] at heval
    obtain ⟨args, hargs, heval⟩ := bind_eq_ok.1 heval
    exact (Rule.flat_of_seq (tidy_of_evalAll ih hargs) heval).tidy
  | alt _ ih =>
    rw [eval] at heval
    obtain ⟨args, hargs, heval⟩ := bind_eq_ok.1 heval
    exact (Rule.flat_of_alt (tidy_of_evalAll ih hargs) heval).tidy
  | rep _ ih =>
    rw [eval] at heval
    obtain ⟨args, hargs, heval⟩ := bind_eq_ok.1 heval
    exact (Rule.flat_of_body_map (.inl rfl) (tidy_of_evalAll ih hargs) heval).tidy
  | opt _ ih =>
    rw [eval] at heval
    obtain ⟨args, hargs, heval⟩ := bind_eq_ok.1 heval
    exact (Rule.flat_of_body_map (.inr (.inl rfl)) (tidy_of_evalAll ih hargs) heval).tidy
  | group _ ih =>
    rw [eval] at heval
    obtain ⟨args, hargs, heval⟩ := bind_eq_ok.1 heval
    exact (Rule.flat_of_body_map (.inr (.inr rfl)) (tidy_of_evalAll ih hargs) heval).tidy
  | exclude _ _ ihsource ihexcluded =>
    rw [eval] at heval
    obtain ⟨source, hsource, heval⟩ := bind_eq_ok.1 heval
    obtain ⟨excluded, hexcluded, heval⟩ := bind_eq_ok.1 heval
    exact (Rule.flat_of_difference (ihsource hsource) (ihexcluded hexcluded) heval).tidy
  | plus _ _ ihfirst ihrest =>
    rw [Bracketing.eval_plusExpr] at heval
    obtain ⟨first, hfirst, heval⟩ := bind_eq_ok.1 heval
    obtain ⟨values, hvalues, heval⟩ := bind_eq_ok.1 heval
    exact Bracketing.tidy_of_eval (fun _ _ _ => Rule.tidy_of_plus)
      (tidy_of_mem_chain ihrest (ihfirst hfirst) hvalues) heval
  | or _ _ ihfirst ihrest =>
    rw [Bracketing.eval_orExpr] at heval
    obtain ⟨first, hfirst, heval⟩ := bind_eq_ok.1 heval
    obtain ⟨values, hvalues, heval⟩ := bind_eq_ok.1 heval
    exact Bracketing.tidy_of_eval (fun _ _ _ => Rule.tidy_of_or)
      (tidy_of_mem_chain ihrest (ihfirst hfirst) hvalues) heval

end Expr

/-- A definition takes a flat tree as it is, and a text promoted unless it is a plain one. -/
theorem DefinitionExpr.flat_of_eval {expr : DefinitionExpr} {definition : Definition}
    (h : expr.rule.Sugared) (heval : expr.eval = .ok definition)
    (hrule : definition.rule.IsRule) : definition.rule.Flat := by
  obtain ⟨value, hvalue, heval⟩ := bind_eq_ok.1 heval
  have htidy := h.tidy hvalue
  split at heval
  · cases heval
    exact htidy.flat_of_isRule hrule
  · obtain ⟨tree, htree, heval⟩ := bind_eq_ok.1 heval
    cases heval
    exact htidy.flat_of_promote htree

/-! ## Building from flat trees -/

/-- An error about a value of the wrong kind. -/
def Error.IsTypeError : Error → Prop
  | .notRuleOrText _ | .notRule _ | .notSpellable _ | .choiceOfTexts | .incomparable .. => True
  | _ => False

namespace Rule

variable {rule node : Rule}

/-- A walk visits the tree itself, and goes on below it. -/
theorem mem_nodes (h : node ∈ rule.nodes) :
    node = rule ∨ ∃ child ∈ rule.children, node ∈ child.nodes := by
  cases rule with
  | sequence rules => exact (List.mem_cons.1 h).imp_right mem_nodesAll.1
  | alternative first rest =>
    have hall : node ∈ nodesAll (first :: rest) → ∃ rule ∈ first :: rest, node ∈ rule.nodes :=
      mem_nodesAll.1
    exact (List.mem_cons.1 h).imp_right hall
  | repetition rule | option rule | group rule =>
    exact (List.mem_cons.1 h).imp_right fun h => ⟨rule, List.mem_singleton_self rule, h⟩
  | _ => exact .inl (List.mem_singleton.1 h)

/-- All nodes that a walk of a flat tree visits are rules. -/
theorem Flat.isRule_of_mem_nodes (h : rule.Flat) (hnode : node ∈ rule.nodes) : node.IsRule := by
  induction h with
  | intro flat _ ih =>
    rcases mem_nodes hnode with rfl | ⟨child, hchild, hnode⟩
    · exact flat.isRule
    · exact ih child hchild hnode

theorem not_isTypeError_of_offence? {defined : List String} {definition : String} {e : Error}
    (h : node.IsRule) (hoffence : node.offence? defined definition = some e) : ¬ e.IsTypeError := by
  -- a value that is no rule is the only node whose offence is a type error
  cases node with
  | foreign value => exact h.elim
  | reference name =>
    rw [offence?] at hoffence
    split at hoffence <;> cases hoffence
    exact id
  | strayReference value | exclude source excluded =>
    cases hoffence
    exact id
  | _ => cases hoffence

end Rule

variable {builder : Builder} {definitions : List Definition} {e : Error}

/-- A builder fails with a defect of its store, or because a definition has no number or its rule
    an offence. -/
theorem Builder.build_eq_error (h : builder.build.2.result = .error e) :
    (∃ d, e = .defect d) ∨ ∃ d ∈ builder.definitions, e = .unknownIdentifier d.name ∨
      ∃ node ∈ d.rule.nodes, node.offence? builder.ids.names.keys d.name = some e := by
  cases hperform : (builder.performAll builder.plan).2.result with
  | error e' =>
    rw [(build_of_error hperform).1] at h
    cases h
    exact (performAll_eq_error hperform).symm.imp_right exists_of_firstFailure?_planAll
  | ok =>
    rw [(build_of_ok hperform).1] at h
    exact .inl (Store.freeze_eq_error h)

/-- From flat trees no builder fails with a type error, in whatever state it is. -/
theorem Builder.not_isTypeError_of_flat (hflat : ∀ d ∈ builder.definitions, d.rule.Flat)
    (h : builder.build.2.result = .error e) : ¬ e.IsTypeError := by
  rcases build_eq_error h with ⟨d, rfl⟩ | ⟨d, hd, rfl | ⟨node, hnode, hoffence⟩⟩
  · exact id
  · exact id
  · exact Rule.not_isTypeError_of_offence? ((hflat d hd).isRule_of_mem_nodes hnode) hoffence

theorem not_isTypeError_of_flat (hflat : ∀ d ∈ definitions, d.rule.Flat)
    (h : (build definitions).result = .error e) : ¬ e.IsTypeError := by
  rw [result_build, bind_eq_error, ofDefinitions_eq_error_iff, numberNames_eq_error_iff] at h
  rcases h with ⟨_, _, _, _, _, _, _, rfl⟩ | ⟨builder, hbuilder, h⟩
  · exact id
  · obtain ⟨names, -, rfl⟩ := ofDefinitions_eq_ok_iff.1 hbuilder
    exact Builder.not_isTypeError_of_flat hflat h

/-! ## Sugar alone -/

/-- Every rule that an expression without plain constructors gives is a flat tree. Definitions by
    such expressions, as long as they have rules, never lead to a type error when they are built,
    whatever has been done to the builder before. -/
theorem sugared_flatness :
    (∀ e : Expr, e.Sugared → ∀ tree, e.eval = .ok tree → tree.IsRule → tree.Flat) ∧
    ∀ exprs : List DefinitionExpr, (∀ expr ∈ exprs, expr.rule.Sugared) →
      ∀ definitions, DefinitionExpr.evalAll exprs = .ok definitions →
        (∀ d ∈ definitions, d.rule.IsRule) →
          (∀ e, (build definitions).result = .error e → ¬ e.IsTypeError) ∧
          ∀ builder : Builder, builder.definitions = definitions →
            ∀ e, builder.build.2.result = .error e → ¬ e.IsTypeError := by
  refine ⟨fun e h tree heval => (h.tidy heval).flat_of_isRule, ?_⟩
  intro exprs hexprs definitions heval hrules
  have hflat : ∀ d ∈ definitions, d.rule.IsRule → d.rule.Flat :=
    forall_of_mapM_eq_ok (fun expr hexpr _ => expr.flat_of_eval (hexprs expr hexpr)) heval
  have hflat : ∀ d ∈ definitions, d.rule.Flat := fun d hd => hflat d hd (hrules d hd)
  refine ⟨fun e => not_isTypeError_of_flat hflat, ?_⟩
  rintro builder rfl e
  exact builder.not_isTypeError_of_flat hflat

/-- Operators below building functions, nested sequences and alternatives, and a text where a rule
    belongs. -/
def nestedExpr : Expr :=
  .group [
    .or (.plus (.value (.text "ab")) [.ref (.value (.text "B"))])
      [.alt [.or (.char (.value (.text "x"))) [.value (.text "y")], .value (.text "")]],
    .seq [.value (.text ""), .seq [.value (.text "c"),
      .rep [.exclude (.value (.text "d")) (.ref (.value (.text "A")))]]]]

/-- The tree of `nestedExpr`. -/
def nestedTree : Rule :=
  .group (.sequence [
    .alternative (.sequence [.character 'a', .character 'b', .reference "B"])
      [.character 'x', .sequence [.character 'y'], .sequence []],
    .character 'c',
    .repetition (.exclude (.sequence [.character 'd']) (.reference "A"))])

/-- Building with that tree fails, but only because of the difference in it. -/
theorem sugared_flatness_nestedExpr :
    let exprs : List DefinitionExpr :=
      [⟨"A", nestedExpr, true⟩, ⟨"B", .value (.text "b"), false⟩]
    let definitions : List Definition :=
      [⟨"A", nestedTree⟩, ⟨"B", .sequence [.character 'b']⟩]
    let error : Error := .unsupported "Set difference (exclude)" (some "A")
    (nestedExpr.Sugared ∧ nestedExpr.eval = .ok nestedTree ∧ nestedTree.IsRule ∧
      nestedTree.Flat) ∧
    (∀ expr ∈ exprs, expr.rule.Sugared) ∧ DefinitionExpr.evalAll exprs = .ok definitions ∧
    (∀ d ∈ definitions, d.rule.IsRule) ∧ (build definitions).result = .error error ∧
    ¬ error.IsTypeError := by
  intro exprs definitions error
  have hsugared : nestedExpr.Sugared := by
    refine .group (forall_mem_pair (.or ?_ ?_) (.seq (forall_mem_pair (.text "") (.seq ?_))))
    · exact .plus (.text "ab") (List.forall_mem_singleton.2 (.ref (.text "B")))
    · have hor := Expr.Sugared.or (.char (.text "x")) (List.forall_mem_singleton.2 (.text "y"))
      exact List.forall_mem_singleton.2 (.alt (forall_mem_pair hor (.text "")))
    · have hexclude := Expr.Sugared.exclude (.text "d") (.ref (.text "A"))
      exact forall_mem_pair (.text "c") (.rep (List.forall_mem_singleton.2 hexclude))
  have hexprs : ∀ expr ∈ exprs, expr.rule.Sugared := forall_mem_pair hsugared (.text "b")
  have hrules : ∀ d ∈ definitions, d.rule.IsRule := forall_mem_pair trivial trivial
  obtain ⟨hflat, hbuild⟩ := sugared_flatness
  exact ⟨⟨hsugared, rfl, trivial, hflat nestedExpr hsugared nestedTree rfl trivial⟩, hexprs, rfl,
    hrules, rfl, (hbuild exprs hexprs definitions rfl hrules).1 error rfl⟩

end FirstFollow
