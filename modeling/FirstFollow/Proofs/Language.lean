import FirstFollow.Proofs.Completeness
import FirstFollow.Proofs.Productions
import FirstFollow.Proofs.Soundness

/-!
# Building preserves the language

In the store that definitions are built into, the nonterminal of each definition derives exactly
the strings that the definition matches, and each helper those that its node matches
(`build_language`).
-/

namespace FirstFollow

namespace Filled

variable {definitions : List Definition} {store : Store} {d : Definition} {id : NonterminalId}
  {node : Rule} {w : List Char}

/-- The number of a definition stands for its rule: no other definition has its name. -/
theorem standsFor (h : Filled definitions store) (hd : d ∈ definitions)
    (hget : store.names.get? d.name = some id) : StandsFor definitions id d.rule := by
  obtain ⟨i, hi⟩ := List.mem_iff_getElem?.1 hd
  have hself : store.names.get? d.name = some (i : NonterminalId) :=
    (h.named d.name i).2 ⟨i, d, hi, rfl, rfl⟩
  obtain rfl : id = i := Option.some.inj (hget.symm.trans hself)
  exact .inl ⟨i, d, hi, rfl, rfl⟩

theorem resolves (h : Filled definitions store) : Resolves definitions store.names := by
  intro name id hget
  obtain ⟨i, d, hi, rfl, rfl⟩ := (h.named name id).1 hget
  exact ⟨d, List.mem_of_getElem? hi, rfl, .inl ⟨i, d, hi, rfl, rfl⟩⟩

theorem sound (h : Filled definitions store) :
    ∀ step ∈ planAll store.names definitions (definitions.length + 1), step.Sound definitions :=
  sound_planAll h.resolves (fun _ hd _ hget => h.standsFor hd hget) (numbered_helps definitions)
    h.succeeds

/-- The nonterminals of a store that has been filled derive only what they stand for. -/
theorem meant_of_derives (h : Filled definitions store)
    (hd : store.Derives [.nonterminal id] (terminals w)) : Meant definitions id w := by
  -- A string reads itself, and what is read at the end of a derivation is read at its start.
  have hM : ∀ id production, (id, production) ∈ store.alternatives →
      ∀ w, Reads (Meant definitions) production w → Meant definitions id w :=
    fun id production hmem => h.sound _ ((h.alternatives id production).1 hmem)
  exact reads_nonterminal.1 (Store.reads_of_derives hM hd (reads_terminals w))

theorem carried (h : Filled definitions store) :
    ∀ step ∈ planAll store.names definitions (definitions.length + 1), step.Carried store := by
  intro step hstep
  cases step with
  | announce name id => trivial
  | helper id kind definition =>
    exact (h.synthetic id).2 (mem_helpersMade.2 ⟨kind, definition, hstep⟩)
  | emit id production => exact (h.alternatives id production).2 hstep
  | fail e => exact h.succeeds _ hstep

theorem placed (h : Filled definitions store) :
    (∀ d ∈ definitions, ∃ id m, store.names.get? d.name = some id ∧
      ∀ step ∈ (Rule.emitAll ⟨store.names, d.name⟩ id d.rule.choices m).1, step.Carried store) ∧
    Numbered (Rule.Placed store.names (Step.Carried store)) (helperNodes definitions)
      (definitions.length + 1) := by
  refine placed_planAll (fun step hstep => ?_) h.carried
  cases step with
  | fail e => exact hstep
  | _ => trivial

/-- A rule derives what it matches. -/
theorem derived (h : Filled definitions store) {rule : Rule} (hw : Matches definitions rule w) :
    Derived store store.names rule w :=
  derived_of_matches h.placed.1 hw

theorem matches_iff_derives (h : Filled definitions store) (hnode : Helps definitions id node) :
    Matches definitions node w ↔ store.Derives [.nonterminal id] (terminals w) := by
  constructor
  · intro hw
    obtain ⟨kind, definition, hsymbols, -, hcarried⟩ := h.placed.2.of_helps hnode
    have hd := (h.derived hw).inline definition id hcarried
    rw [hsymbols, visible_nonterminal_cons, visible_nil] at hd
    exact hd
  · intro hd
    exact h.meant_of_derives hd node (.inr hnode)

end Filled

variable {definitions : List Definition} {store : Store}

/-- Definitions are built into a store in which every name derives the strings that it matches,
    and so does every helper for its node. -/
theorem build_language (h : (build definitions).result = .ok store) :
    (∀ d ∈ definitions, ∃ id, store.identifier d.name = .ok id ∧
      ∀ w, Matches definitions (.reference d.name) w ↔
        store.Derives [.nonterminal id] (terminals w)) ∧
    (∀ id, id ∈ store.synthetic ↔ ∃ node, Helps definitions id node) ∧
    ∀ id node, Helps definitions id node →
      ∀ w, Matches definitions node w ↔ store.Derives [.nonterminal id] (terminals w) := by
  have filled := Filled.of_build h
  refine ⟨fun d hd => ?_, fun id => filled.mem_synthetic, fun id node hnode w =>
    filled.matches_iff_derives hnode⟩
  obtain ⟨id, m, hget, hsteps⟩ := filled.placed.1 d hd
  refine ⟨id, ?_, fun w => ⟨fun hw => ?_, fun hderives => ?_⟩⟩
  · unfold Store.identifier
    rw [hget]
  · have hplace := (filled.derived hw).inline d.name 0
    simp only [Rule.lower, hget, visible_nonterminal_cons, visible_nil] at hplace
    exact hplace (List.forall_mem_nil _)
  · have hrule := filled.meant_of_derives hderives d.rule (filled.standsFor hd hget)
    exact .reference hd hrule

/-- A definition that recurs from the left and ends with a repetition whose body may be empty, and
    one whose only choice is in brackets. -/
def nestedDefinitions : List Definition :=
  [⟨"list", .alternative (.sequence [.reference "list", .character 'a'])
      [.repetition (.option (.character 'b'))]⟩,
    ⟨"pair", .group (.alternative (.sequence []) [.sequence [.reference "list",
      .reference "pair"]])⟩]

/-- The language of `nestedDefinitions`, by name and for the helper of the repetition. -/
theorem build_language_nestedDefinitions :
    ∃ store, (build nestedDefinitions).result = .ok store ∧
      (∃ id, store.identifier "list" = .ok id ∧
        ∀ w, Matches nestedDefinitions (.reference "list") w ↔
          store.Derives [.nonterminal id] (terminals w)) ∧
      3 ∈ store.synthetic ∧
      ∀ w, Matches nestedDefinitions (.repetition (.option (.character 'b'))) w ↔
        store.Derives [.nonterminal 3] (terminals w) := by
  have hbuild : ∃ store, (build nestedDefinitions).result = .ok store := by decide +kernel
  obtain ⟨store, h⟩ := hbuild
  obtain ⟨hnamed, hsynthetic, hhelpers⟩ := build_language h
  have hhelps : Helps nestedDefinitions 3 (.repetition (.option (.character 'b'))) :=
    ⟨0, rfl, rfl⟩
  exact ⟨store, h, hnamed _ List.mem_cons_self, (hsynthetic 3).2 ⟨_, hhelps⟩, hhelpers 3 _ hhelps⟩

end FirstFollow
