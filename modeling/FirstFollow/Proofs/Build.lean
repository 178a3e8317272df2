import FirstFollow.Lowering.Builder
import FirstFollow.Proofs.Emission
import FirstFollow.Proofs.Numbering
import FirstFollow.Proofs.Outcome

/-!
# What a builder leaves in its store

A builder that succeeds has carried out its whole plan: its store holds the productions and the
helpers of the plan's steps and nothing else (`Builder.performed_performAll`). So does the store
that definitions are built into (`Filled.of_build`).
-/

namespace FirstFollow

variable {store next : Store} {id owner : NonterminalId} {production added : Production}

/-- The productions of a nonterminal, none if it is no key. -/
def Store.productionsOf (store : Store) (id : NonterminalId) : List Production :=
  (store.rules.get? id).getD []

theorem Store.mem_alternatives_iff :
    (id, production) ∈ store.alternatives ↔ production ∈ store.productionsOf id := by
  unfold productionsOf
  rw [mem_alternatives]
  cases store.rules.get? id <;> simp

/-- Adding a production puts it behind those of its nonterminal, and its terminal texts into the
    alphabet. -/
structure Store.Added (store : Store) (owner : NonterminalId) (added : Production)
    (next : Store) : Prop where
  productions : ∀ id, next.productionsOf id =
    store.productionsOf id ++ if owner = id then [added] else []
  keys : ∀ id, id ∈ next.keys ↔ id ∈ store.keys ∨ id = owner
  alphabet : ∀ text, text ∈ next.alphabet ↔ text ∈ store.alphabet ∨ text ∈ terminalTexts added
  synthetic : next.synthetic = store.synthetic
  names : next.names = store.names
  frozen : next.frozen = store.frozen

theorem Store.added_of_add (h : store.add owner added = .ok next) :
    store.Added owner added next := by
  unfold Store.add at h
  split at h
  · cases h
  · cases h
    refine ⟨fun id => ?_, fun id => ?_, fun text => SortedSet.mem_insertMany, rfl, rfl, rfl⟩
    · unfold productionsOf
      dsimp only
      rw [Table.alter, Table.get?_insert]
      by_cases hid : owner = id
      · subst hid
        simp
      · simp [hid]
    · unfold Store.keys
      rw [← Table.mem_iff_mem_keys, ← Table.mem_iff_mem_keys, Table.alter, Table.mem_insert,
        or_comm]

/-- An open store takes every production. -/
theorem Store.exists_add (h : store.frozen = false) (owner : NonterminalId)
    (added : Production) : ∃ next, store.add owner added = .ok next := by
  unfold Store.add
  rw [h]
  exact ⟨_, rfl⟩

theorem Store.markSynthetic_eq_ok (h : store.markSynthetic id = .ok next) :
    next = { store with synthetic := store.synthetic.insert id } := by
  unfold Store.markSynthetic at h
  split at h
  · cases h
  · cases h
    rfl

theorem Store.exists_markSynthetic (h : store.frozen = false) (id : NonterminalId) :
    ∃ next, store.markSynthetic id = .ok next := by
  unfold Store.markSynthetic
  rw [h]
  exact ⟨_, rfl⟩

/-- A store that can be frozen is the same store, frozen. -/
theorem Store.freeze_eq_ok (h : store.freeze.result = .ok next) :
    next = { store with frozen := true } := by
  unfold Store.freeze at h
  split at h
  · rename_i hfrozen
    cases h
    rw [← hfrozen]
  · split at h
    · cases h
    · cases h
      rfl

/-- A store that cannot be frozen has a defect. -/
theorem Store.freeze_eq_error {e : Error} (h : store.freeze.result = .error e) :
    ∃ d, e = .defect d := by
  unfold Store.freeze at h
  split at h
  · cases h
  · split at h
    · cases h
      exact ⟨_, rfl⟩
    · cases h

namespace Builder

variable {builder last : Builder} {step : Step} {steps more : List Step}

/-- A step makes at most one edit, whether it succeeds or not. -/
theorem perform_spec (builder : Builder) (step : Step) :
    (builder.perform step).1.definitions = builder.definitions ∧
      (builder.perform step).1.ids.names = builder.ids.names ∧
      ((builder.perform step).1.store = builder.store ∨
        (∃ id, builder.store.markSynthetic id = .ok (builder.perform step).1.store) ∨
        ∃ id production, builder.store.add id production = .ok (builder.perform step).1.store) := by
  cases step with
  | announce name id => exact ⟨rfl, rfl, .inl rfl⟩
  | fail e => exact ⟨rfl, rfl, .inl rfl⟩
  | helper id kind definition =>
    simp only [perform]
    cases hmark : builder.store.markSynthetic id with
    | error e => exact ⟨rfl, rfl, .inl rfl⟩
    | ok store => exact ⟨rfl, rfl, .inr (.inl ⟨id, hmark⟩)⟩
  | emit id production =>
    simp only [perform]
    cases hadd : builder.store.add id production with
    | error e => exact ⟨rfl, rfl, .inl rfl⟩
    | ok store => exact ⟨rfl, rfl, .inr (.inr ⟨id, production, hadd⟩)⟩

/-- What every step keeps, steps one after another keep, up to the first that fails. -/
theorem performAll_induction {R : Builder → Builder → Prop} (refl : ∀ a, R a a)
    (trans : ∀ a b c, R a b → R b c → R a c)
    (perform : ∀ builder step, R builder (builder.perform step).1) (builder : Builder)
    (steps : List Step) : R builder (builder.performAll steps).1 := by
  induction steps generalizing builder with
  | nil => exact refl builder
  | cons step rest ih =>
    have hstep := perform builder step
    unfold performAll
    rcases hnext : builder.perform step with ⟨next, events, e | ⟨⟩⟩
    · rw [hnext] at hstep
      exact hstep
    · rw [hnext] at hstep
      exact trans _ _ _ hstep (ih next)

/-- From one builder to another, all that some steps add has come in. -/
structure Performed (builder : Builder) (steps : List Step) (last : Builder) : Prop where
  productions : ∀ id, last.store.productionsOf id =
    builder.store.productionsOf id ++ emitted id steps
  keys : ∀ id, id ∈ last.store.keys ↔ id ∈ builder.store.keys ∨ emitted id steps ≠ []
  alphabet : ∀ text, text ∈ last.store.alphabet ↔
    text ∈ builder.store.alphabet ∨ text ∈ textsAdded steps
  synthetic : ∀ id, id ∈ last.store.synthetic ↔
    id ∈ builder.store.synthetic ∨ id ∈ helpersMade steps
  names : last.store.names = builder.store.names
  /-- A number is handed out for each helper. -/
  issued : ∀ id, id ∈ last.ids.issued ↔ id ∈ builder.ids.issued ∨
    id ∈ numbersFrom builder.ids.counter (helpersMade steps).length
  counter : last.ids.counter = builder.ids.counter + (helpersMade steps).length
  succeeds : ∀ step ∈ steps, step.Succeeds

theorem Performed.refl (builder : Builder) : builder.Performed [] builder := by
  constructor <;> simp [numbersFrom]

theorem Performed.trans {middle : Builder} (h : builder.Performed steps middle)
    (h' : middle.Performed more last) : builder.Performed (steps ++ more) last where
  productions id := by
    rw [h'.productions, h.productions, List.append_assoc, emitted_append]
  keys id := by
    rw [h'.keys, h.keys, or_assoc, emitted_append, ne_eq, ne_eq, ne_eq, List.append_eq_nil_iff,
      not_and_or]
  alphabet text := by
    rw [h'.alphabet, h.alphabet, or_assoc, textsAdded_append, List.mem_append]
  synthetic id := by
    rw [h'.synthetic, h.synthetic, or_assoc, helpersMade_append, List.mem_append]
  names := h'.names.trans h.names
  issued id := by
    rw [h'.issued, h.issued, h.counter, or_assoc, helpersMade_append, List.length_append,
      numbersFrom_add, List.mem_append]
  counter := by
    rw [h'.counter, h.counter, helpersMade_append, List.length_append, Nat.cast_add, add_assoc]
  succeeds := List.forall_mem_append.2 ⟨h.succeeds, h'.succeeds⟩

/-- A step that succeeds does what it says. -/
theorem performed_perform (h : (builder.perform step).2.result = .ok ()) :
    builder.Performed [step] (builder.perform step).1 := by
  cases step with
  | announce name id =>
    constructor <;> simp [perform, Step.Succeeds, numbersFrom]
  | fail e => cases h
  | emit owner added =>
    cases hadd : builder.store.add owner added with
    | error e =>
      simp only [perform, hadd] at h
      cases h
    | ok store =>
      simp only [perform, hadd]
      obtain ⟨hproductions, hkeys, halphabet, hsynthetic, hnames, -⟩ := Store.added_of_add hadd
      constructor
      · intro id
        rw [hproductions, emitted_emit_cons, emitted_nil, List.append_nil]
      · intro id
        rw [hkeys, emitted_emit_cons, emitted_nil, List.append_nil, eq_comm]
        split <;> simp [*]
      · simp [halphabet]
      · simp [hsynthetic]
      · exact hnames
      · simp [numbersFrom]
      · simp
      · simp [Step.Succeeds]
  | helper id kind definition =>
    cases hmark : builder.store.markSynthetic id with
    | error e =>
      simp only [perform, hmark] at h
      cases h
    | ok store =>
      simp only [perform, hmark]
      obtain rfl := Store.markSynthetic_eq_ok hmark
      constructor <;>
        simp [Store.productionsOf, Store.keys, Step.Succeeds, Identifiers.next, numbersFrom,
          or_comm]

/-- A plan that succeeds has been carried out as a whole. -/
theorem performed_performAll (h : (builder.performAll steps).2.result = .ok ()) :
    builder.Performed steps (builder.performAll steps).1 := by
  induction steps generalizing builder with
  | nil => exact .refl builder
  | cons step rest ih =>
    have hstep : (builder.perform step).2.result = .ok () →
        builder.Performed [step] (builder.perform step).1 := performed_perform
    unfold performAll at h ⊢
    rcases hnext : builder.perform step with ⟨next, events, e | ⟨⟩⟩
    · rw [hnext] at h
      cases h
    · rw [hnext] at h hstep
      exact (hstep rfl).trans (ih h)

/-- A builder whose plan fails ends with that failure. -/
theorem build_of_error {e : Error} (h : (builder.performAll builder.plan).2.result = .error e) :
    builder.build.2.result = .error e ∧ builder.build.1 = (builder.performAll builder.plan).1 := by
  unfold build
  rcases hlast : builder.performAll builder.plan with ⟨last, events, e' | ⟨⟩⟩
  · rw [hlast] at h
    cases h
    exact ⟨rfl, rfl⟩
  · rw [hlast] at h
    cases h

/-- A builder that has carried out its plan freezes its store. -/
theorem build_of_ok (h : (builder.performAll builder.plan).2.result = .ok ()) :
    builder.build.2.result = (builder.performAll builder.plan).1.store.freeze.result ∧
      builder.build.1.ids = (builder.performAll builder.plan).1.ids := by
  unfold build
  rcases hlast : builder.performAll builder.plan with ⟨last, events, e' | ⟨⟩⟩
  · rw [hlast] at h
    cases h
  · exact ⟨rfl, rfl⟩

/-- A builder that succeeds has carried out its plan. -/
theorem performAll_of_build (h : builder.build.2.result = .ok store) :
    (builder.performAll builder.plan).2.result = .ok () := by
  cases hplan : (builder.performAll builder.plan).2.result with
  | ok => rfl
  | error e =>
    rw [(build_of_error hplan).1] at h
    cases h

end Builder

/-! ## Built stores -/

/-- A store that definitions have been lowered into. -/
structure Filled (definitions : List Definition) (store : Store) : Prop where
  /-- The names are those of the definitions, numbered in order. -/
  named : ∀ name id, store.names.get? name = some id ↔
    ∃ (i : Nat) (definition : Definition), definitions[i]? = some definition ∧
      definition.name = name ∧ id = i
  productions : ∀ id, store.productionsOf id =
    emitted id (planAll store.names definitions (definitions.length + 1))
  keys : ∀ id, id ∈ store.keys ↔
    emitted id (planAll store.names definitions (definitions.length + 1)) ≠ []
  alphabet : ∀ text, text ∈ store.alphabet ↔
    text ∈ textsAdded (planAll store.names definitions (definitions.length + 1))
  synthetic : ∀ id, id ∈ store.synthetic ↔
    id ∈ helpersMade (planAll store.names definitions (definitions.length + 1))
  succeeds : ∀ step ∈ planAll store.names definitions (definitions.length + 1), step.Succeeds

section

variable {definitions : List Definition} {names : Table String NonterminalId}

theorem Filled.alternatives (h : Filled definitions store) (id : NonterminalId)
    (production : Production) : (id, production) ∈ store.alternatives ↔
      .emit id production ∈ planAll store.names definitions (definitions.length + 1) := by
  rw [Store.mem_alternatives_iff, h.productions, mem_emitted]

/-- The numbers of names are their places. -/
theorem get?_of_numberNames
    (h : numberNames ∅ (definitions.map Definition.name) = .ok names) (name : String)
    (id : NonterminalId) : names.get? name = some id ↔
      ∃ (i : Nat) (definition : Definition), definitions[i]? = some definition ∧
        definition.name = name ∧ id = i := by
  obtain ⟨-, hget⟩ := numberNames_spec h
  rw [hget, Table.get?_empty, or_iff_right (by simp)]
  constructor
  · intro ⟨i, hi, hid⟩
    rw [List.getElem?_map] at hi
    obtain ⟨definition, hdefinition, rfl⟩ := Option.map_eq_some_iff.1 hi
    exact ⟨i, definition, hdefinition, rfl, hid.trans (Int.zero_add _)⟩
  · intro ⟨i, definition, hi, hname, hid⟩
    exact ⟨i, by simp [hi, hname], hid.trans (Int.zero_add _).symm⟩

/-- The names that have the numbers of definitions are the defined ones. -/
theorem mem_names_iff
    (h : ∀ name id, names.get? name = some id ↔ ∃ (i : Nat) (definition : Definition),
      definitions[i]? = some definition ∧ definition.name = name ∧ id = i) (name : String) :
    name ∈ definitions.map Definition.name ↔ ∃ id, names.get? name = some id := by
  constructor
  · intro hname
    obtain ⟨d, hd, rfl⟩ := List.mem_map.1 hname
    obtain ⟨i, hi⟩ := List.mem_iff_getElem?.1 hd
    exact ⟨i, (h _ _).2 ⟨i, d, hi, rfl, rfl⟩⟩
  · intro ⟨id, hget⟩
    obtain ⟨i, d, hi, rfl, -⟩ := (h _ _).1 hget
    exact List.mem_map_of_mem (List.mem_of_getElem? hi)

/-- Each definition has a number. -/
theorem size_of_numberNames
    (h : numberNames ∅ (definitions.map Definition.name) = .ok names) :
    names.size = definitions.length := by
  obtain ⟨hsize, -⟩ := numberNames_spec h
  rw [List.length_map] at hsize
  exact hsize.trans (Nat.zero_add _)

theorem Builder.plan_ofTable
    (h : numberNames ∅ (definitions.map Definition.name) = .ok names) :
    (Builder.ofIds definitions (.ofTable names)).plan =
      planAll names definitions (definitions.length + 1) := by
  rw [← size_of_numberNames h]
  rfl

/-- A new builder that carries out its plan fills its store. -/
theorem Builder.filled_of_performed {last : Builder}
    (hnames : numberNames ∅ (definitions.map Definition.name) = .ok names)
    (h : (Builder.ofIds definitions (.ofTable names)).Performed
      (planAll names definitions (definitions.length + 1)) last) :
    Filled definitions last.store := by
  have hstore : last.store.names = names := h.names
  constructor
  · intro name id
    rw [hstore]
    exact get?_of_numberNames hnames name id
  · intro id
    rw [h.productions, hstore]
    rfl
  · intro id
    rw [h.keys, hstore]
    exact or_iff_right List.not_mem_nil
  · intro text
    rw [h.alphabet, hstore]
    exact or_iff_right (SortedSet.not_mem_empty text)
  · intro id
    rw [h.synthetic, hstore]
    exact or_iff_right (SortedSet.not_mem_empty id)
  · rw [hstore]
    exact h.succeeds

/-- Freezing does not change what a store holds. -/
theorem Filled.freeze (h : Filled definitions store) :
    Filled definitions { store with frozen := true } where
  named := h.named
  productions := h.productions
  keys := h.keys
  alphabet := h.alphabet
  synthetic := h.synthetic
  succeeds := h.succeeds

/-- Definitions that are built have numbers for their names, and a builder that begins with these
    carries out its plan. -/
theorem performed_of_build (h : (build definitions).result = .ok store) :
    ∃ names last, numberNames ∅ (definitions.map Definition.name) = .ok names ∧
      Builder.ofDefinitions definitions = .ok (.ofIds definitions (.ofTable names)) ∧
      (Builder.ofIds definitions (.ofTable names)).build.2.result = .ok store ∧
      (Builder.ofIds definitions (.ofTable names)).build.1.ids = last.ids ∧
      (Builder.ofIds definitions (.ofTable names)).Performed
        (planAll names definitions (definitions.length + 1)) last ∧
      store = { last.store with frozen := true } := by
  unfold build at h
  rw [Logged.result_bind_eq_ok] at h
  obtain ⟨builder, hbuilder, h⟩ := h
  rw [Logged.result_lift] at hbuilder
  obtain ⟨ids, hids, rfl⟩ := map_eq_ok.1 hbuilder
  obtain ⟨names, hnames, rfl⟩ := map_eq_ok.1 hids
  have hplan := Builder.performAll_of_build h
  obtain ⟨hresult, hids'⟩ := Builder.build_of_ok hplan
  have performed := Builder.performed_performAll hplan
  rw [Builder.plan_ofTable hnames] at performed
  exact ⟨names, _, hnames, hbuilder, h, hids', Builder.plan_ofTable hnames ▸ performed,
    Store.freeze_eq_ok (hresult.symm.trans h)⟩

theorem Filled.of_build (h : (build definitions).result = .ok store) :
    Filled definitions store := by
  obtain ⟨names, last, hnames, -, -, -, performed, rfl⟩ := performed_of_build h
  exact (Builder.filled_of_performed hnames performed).freeze

end

end FirstFollow
