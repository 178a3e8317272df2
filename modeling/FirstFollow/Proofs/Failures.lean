import FirstFollow.Proofs.Build
import FirstFollow.Proofs.Walk

/-!
# The first failure of a plan

Carrying out steps ends with the first failure among them (`Builder.result_performAll`). In the
steps that rules are lowered to, failures come in the order in which a walk visits the nodes that
cannot be lowered: the first failure of a plan is the first offence of its definitions
(`firstFailure?_planAll`).
-/

namespace FirstFollow

/-! ## Failures among steps -/

/-- The failure that a step is, if it is one. -/
def Step.failure? : Step → Option Error
  | .fail e => some e
  | _ => none

/-- The first failure among steps. -/
def firstFailure? (steps : List Step) : Option Error :=
  steps.findSome? Step.failure?

section

variable {id : NonterminalId} {steps more body last : List Step}

@[simp] theorem firstFailure?_nil : firstFailure? [] = none := rfl

@[simp] theorem firstFailure?_append :
    firstFailure? (steps ++ more) = (firstFailure? steps).or (firstFailure? more) :=
  List.findSome?_append

@[simp] theorem firstFailure?_emit_cons {production : Production} :
    firstFailure? (.emit id production :: steps) = firstFailure? steps := rfl

@[simp] theorem firstFailure?_helper_cons {kind : HelperKind} {definition : String} :
    firstFailure? (.helper id kind definition :: steps) = firstFailure? steps := rfl

@[simp] theorem firstFailure?_announce_cons {name : String} :
    firstFailure? (.announce name id :: steps) = firstFailure? steps := rfl

theorem Step.failure?_eq_none_iff {step : Step} : step.failure? = none ↔ step.Succeeds := by
  cases step <;> simp [Step.failure?, Step.Succeeds]

theorem firstFailure?_eq_none_iff :
    firstFailure? steps = none ↔ ∀ step ∈ steps, step.Succeeds := by
  simp only [firstFailure?, List.findSome?_eq_none_iff, Step.failure?_eq_none_iff]

end

/-! ## Carrying out steps -/

namespace Builder

variable {builder last next : Builder} {step : Step} {steps : List Step}

/-- What a builder keeps when it carries out steps, whether they succeed or not. -/
structure Keeps (builder last : Builder) : Prop where
  definitions : last.definitions = builder.definitions
  names : last.ids.names = builder.ids.names
  frozen : last.store.frozen = builder.store.frozen

theorem Keeps.refl (builder : Builder) : builder.Keeps builder := ⟨rfl, rfl, rfl⟩

theorem Keeps.trans (h : builder.Keeps next) (h' : next.Keeps last) : builder.Keeps last where
  definitions := h'.definitions.trans h.definitions
  names := h'.names.trans h.names
  frozen := h'.frozen.trans h.frozen

theorem keeps_perform (builder : Builder) (step : Step) :
    builder.Keeps (builder.perform step).1 := by
  obtain ⟨hdefinitions, hnames, hstore⟩ := builder.perform_spec step
  refine ⟨hdefinitions, hnames, ?_⟩
  rcases hstore with hsame | ⟨id, hmark⟩ | ⟨id, production, hadd⟩
  · rw [hsame]
  · rw [Store.markSynthetic_eq_ok hmark]
  · exact (Store.added_of_add hadd).frozen

theorem keeps_performAll (builder : Builder) (steps : List Step) :
    builder.Keeps (builder.performAll steps).1 :=
  performAll_induction Keeps.refl (fun _ _ _ => Keeps.trans) keeps_perform builder steps

/-- The result of a computation with nothing to answer, by its failure if there is one. -/
def unlessFailed : Option Error → Except Error Unit
  | some e => .error e
  | none => .ok ()

/-- On an open store a step only fails when it says so. -/
theorem result_perform (hopen : builder.store.frozen = false) (step : Step) :
    (builder.perform step).2.result = unlessFailed step.failure? := by
  cases step with
  | announce name id => rfl
  | fail e => rfl
  | helper id kind definition =>
    obtain ⟨store, hmark⟩ := Store.exists_markSynthetic hopen id
    simp only [perform, hmark]
    rfl
  | emit id production =>
    obtain ⟨store, hadd⟩ := Store.exists_add hopen id production
    simp only [perform, hadd]
    rfl

/-- On an open store the first failure among steps ends them. -/
theorem result_performAll (hopen : builder.store.frozen = false) (steps : List Step) :
    (builder.performAll steps).2.result = unlessFailed (firstFailure? steps) := by
  induction steps generalizing builder with
  | nil => rfl
  | cons step rest ih =>
    have hstep := result_perform hopen step
    have hkeeps := builder.keeps_perform step
    unfold performAll
    rw [firstFailure?, List.findSome?_cons]
    -- The step fails exactly when it is a failure, and only then the rest is left out.
    rcases hnext : builder.perform step with ⟨next, events, e | ⟨⟩⟩
    · rw [hnext] at hstep
      cases hfailure : step.failure? with
      | none =>
        rw [hfailure] at hstep
        cases hstep
      | some e' =>
        rw [hfailure] at hstep
        exact hstep
    · rw [hnext] at hstep hkeeps
      cases hfailure : step.failure? with
      | none => exact ih (hkeeps.frozen.trans hopen)
      | some e' =>
        rw [hfailure] at hstep
        cases hstep

/-- Whatever its store is like, a step fails because it says so or because the store refuses
    it. -/
theorem perform_eq_error {e : Error} (h : (builder.perform step).2.result = .error e) :
    step.failure? = some e ∨ ∃ d, e = .defect d := by
  cases step with
  | announce name id => cases h
  | fail e' =>
    cases h
    exact .inl rfl
  | helper id kind definition =>
    simp only [perform, Store.markSynthetic] at h
    cases hfrozen : builder.store.frozen <;> rw [hfrozen] at h <;> cases h
    exact .inr ⟨_, rfl⟩
  | emit id production =>
    simp only [perform, Store.add] at h
    cases hfrozen : builder.store.frozen <;> rw [hfrozen] at h <;> cases h
    exact .inr ⟨_, rfl⟩

/-- So do steps one after another, and what they say is the first failure among them. -/
theorem performAll_eq_error {e : Error} (h : (builder.performAll steps).2.result = .error e) :
    firstFailure? steps = some e ∨ ∃ d, e = .defect d := by
  induction steps generalizing builder with
  | nil => cases h
  | cons step rest ih =>
    have hstep : (builder.perform step).2.result = .error e →
        step.failure? = some e ∨ ∃ d, e = .defect d := perform_eq_error
    have hsuccess : (builder.perform step).2.result = .ok () → step.failure? = none := fun h =>
      Step.failure?_eq_none_iff.2 ((performed_perform h).succeeds step List.mem_cons_self)
    unfold performAll at h
    rw [firstFailure?, List.findSome?_cons]
    rcases hnext : builder.perform step with ⟨next, events, e' | ⟨⟩⟩
    · rw [hnext] at h hstep
      cases h
      rcases hstep rfl with hfailure | hdefect
      · exact .inl (by rw [hfailure])
      · exact .inr hdefect
    · rw [hnext] at h hsuccess
      rw [hsuccess rfl]
      exact ih h

end Builder

/-! ## Offences of rules -/

/-- Why a node cannot be lowered, where only some names are defined. -/
def Rule.offence? (defined : List String) (definition : String) : Rule → Option Error
  | .reference name => if name ∈ defined then none else some (.unknownIdentifier name)
  | .strayReference value => some (.strayReference value)
  | .exclude _ _ => some (.unsupported "Set difference (exclude)" (some definition))
  | .foreign value => some (.notRule value)
  | _ => none

/-- The first offence of definitions, in the order in which walks of their rules visit nodes. -/
def firstOffence? (defined : List String) (definitions : List Definition) : Option Error :=
  definitions.findSome? fun d => d.rule.nodes.findSome? (Rule.offence? defined d.name)

namespace Rule

variable {scope : Scope} {defined : List String}

/-- A node that makes a helper, lowers its body and then adds productions fails as its body
    does. -/
theorem firstFailure?_node {body last : List Step} {n : NonterminalId} {kind : HelperKind}
    {definition : String} {failure : Option Error} (hbody : firstFailure? body = failure)
    (hlast : firstFailure? last = none) :
    firstFailure? (.helper n kind definition :: body ++ last) = failure := by
  rw [List.cons_append, firstFailure?_helper_cons, firstFailure?_append, hbody, hlast,
    Option.or_none]

mutual

/-- The first failure in the steps of a rule is the first offence that a walk meets. -/
theorem firstFailure?_lower
    (hdefined : ∀ name, name ∈ defined ↔ ∃ id, scope.names.get? name = some id) :
    ∀ (rule : Rule) (n : NonterminalId),
      firstFailure? (rule.lower scope n).steps =
        rule.nodes.findSome? (offence? defined scope.definition)
  | .character _, _ => rfl
  | .reference name, _ => by
    have hname := hdefined name
    have hnodes : (reference name).nodes = [reference name] := rfl
    rw [lower, hnodes, List.findSome?_singleton, offence?]
    cases hget : scope.names.get? name with
    | none =>
      rw [if_neg (by simp [hname, hget])]
      rfl
    | some id =>
      rw [if_pos (hname.2 ⟨id, hget⟩)]
      rfl
  | .sequence rules, n => firstFailure?_lowerAll hdefined rules n
  | .alternative first rest, n => firstFailure?_emitAll hdefined n (first :: rest) (n + 1)
  | .repetition rule, n => firstFailure?_node (firstFailure?_lower hdefined rule (n + 1)) rfl
  | .option rule, n => by
    refine firstFailure?_node (firstFailure?_lower hdefined rule (n + 1)) ?_
    rw [firstFailure?_emit_cons]
    split <;> rfl
  | .group rule, n => firstFailure?_node (firstFailure?_lower hdefined rule (n + 1)) rfl
  | .strayReference _, _ => rfl
  | .exclude _ _, _ => rfl
  | .foreign _, _ => rfl

theorem firstFailure?_lowerAll
    (hdefined : ∀ name, name ∈ defined ↔ ∃ id, scope.names.get? name = some id) :
    ∀ (rules : List Rule) (n : NonterminalId),
      firstFailure? (lowerAll scope rules n).steps =
        (nodesAll rules).findSome? (offence? defined scope.definition)
  | [], _ => rfl
  | rule :: rest, n => by
    rw [lowerAll, nodesAll, firstFailure?_append, List.findSome?_append,
      firstFailure?_lower hdefined rule, firstFailure?_lowerAll hdefined rest]

theorem firstFailure?_emitAll
    (hdefined : ∀ name, name ∈ defined ↔ ∃ id, scope.names.get? name = some id)
    (owner : NonterminalId) :
    ∀ (rules : List Rule) (n : NonterminalId),
      firstFailure? (emitAll scope owner rules n).1 =
        (nodesAll rules).findSome? (offence? defined scope.definition)
  | [], _ => rfl
  | rule :: rest, n => by
    simp only [emitAll, nodesAll, firstFailure?_append, firstFailure?_emit_cons,
      List.findSome?_append]
    rw [firstFailure?_lower hdefined rule, firstFailure?_emitAll hdefined owner rest]

end

/-- A choice at the top of a definition is no offence. -/
theorem findSome?_choices (rule : Rule) (definition : String) :
    (nodesAll rule.choices).findSome? (offence? defined definition) =
      rule.nodes.findSome? (offence? defined definition) := by
  cases rule with
  | alternative first rest => rfl
  | _ => exact congrArg (List.findSome? _) (List.append_nil _)

end Rule

variable {names : Table String NonterminalId} {defined : List String}
  {definitions : List Definition} {n : NonterminalId}

/-- The first failure of a plan is the first offence of the definitions. -/
theorem firstFailure?_planAll
    (hdefined : ∀ name, name ∈ defined ↔ ∃ id, names.get? name = some id)
    (h : ∀ d ∈ definitions, ∃ id, names.get? d.name = some id) :
    firstFailure? (planAll names definitions n) = firstOffence? defined definitions := by
  induction definitions generalizing n with
  | nil => rfl
  | cons first rest ih =>
    obtain ⟨⟨id, hget⟩, hrest⟩ := List.forall_mem_cons.1 h
    have hfirst : firstFailure? (Rule.emitAll ⟨names, first.name⟩ id first.rule.choices n).1 =
        first.rule.nodes.findSome? (Rule.offence? defined first.name) := by
      rw [Rule.firstFailure?_emitAll hdefined, Rule.findSome?_choices]
    rw [planAll_cons hget, firstFailure?_append, firstFailure?_announce_cons, hfirst, ih hrest,
      firstOffence?, firstOffence?, List.findSome?_cons]
    cases first.rule.nodes.findSome? (Rule.offence? defined first.name) <;> rfl

/-- Whatever names are numbered, a plan only fails for a definition without a number, or for an
    offence of its rule. -/
theorem exists_of_firstFailure?_planAll {e : Error}
    (h : firstFailure? (planAll names definitions n) = some e) :
    ∃ d ∈ definitions, e = .unknownIdentifier d.name ∨
      ∃ node ∈ d.rule.nodes, node.offence? names.keys d.name = some e := by
  have hdefined : ∀ name, name ∈ names.keys ↔ ∃ id, names.get? name = some id := fun name => by
    rw [← Table.mem_iff_mem_keys, ← Table.isSome_get?_iff, Option.isSome_iff_exists]
  induction definitions generalizing n with
  | nil => cases h
  | cons first rest ih =>
    cases hget : names.get? first.name with
    | none =>
      rw [planAll, Definition.lower, hget] at h
      cases h
      exact ⟨first, List.mem_cons_self, .inl rfl⟩
    | some id =>
      rw [planAll_cons hget, firstFailure?_append, firstFailure?_announce_cons,
        Rule.firstFailure?_emitAll hdefined, Rule.findSome?_choices, Option.or_eq_some_iff] at h
      rcases h with hfirst | ⟨-, hrest⟩
      · exact ⟨first, List.mem_cons_self, .inr (List.exists_of_findSome?_eq_some hfirst)⟩
      · obtain ⟨d, hd, hfailure⟩ := ih hrest
        exact ⟨d, List.mem_cons_of_mem _ hd, hfailure⟩

/-- Definitions that have been lowered have no offence. -/
theorem Filled.offence?_eq_none {store : Store} {d : Definition} {node : Rule}
    (h : Filled definitions store) (hd : d ∈ definitions) (hnode : node ∈ d.rule.nodes) :
    node.offence? (definitions.map Definition.name) d.name = none := by
  have hdefined := mem_names_iff h.named
  have hplan := firstFailure?_planAll (n := definitions.length + 1) hdefined fun d hd =>
    (hdefined d.name).1 (List.mem_map_of_mem hd)
  rw [firstFailure?_eq_none_iff.2 h.succeeds, firstOffence?, eq_comm,
    List.findSome?_eq_none_iff] at hplan
  exact List.findSome?_eq_none_iff.1 (hplan d hd) node hnode

end FirstFollow
