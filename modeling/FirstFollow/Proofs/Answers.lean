import FirstFollow.Proofs.BuiltStores
import FirstFollow.Proofs.Failures
import FirstFollow.Proofs.Language

/-!
# What an analysis says about definitions

The FIRST sets of a built store answer questions about the definitions themselves: whether a rule
matches the empty string, and what the strings that it matches begin with. In a FIRST set there are
also terminals that begin no string, when what comes after them matches nothing; when each
definition matches some string, so does every node, and there are none of them
(`analysis_answers`).
-/

namespace FirstFollow

variable {definitions : List Definition} {store : Store} {d : Definition} {rule node : Rule}
  {id : NonterminalId} {w : List Char}

/-! ## Rules that match something -/

namespace Rule

variable {definition : String}

mutual

/-- When each definition matches some string, so does a rule without offences. -/
theorem exists_matches (hd : ∀ d ∈ definitions, ∃ w, Matches definitions d.rule w) :
    ∀ rule : Rule, (∀ node ∈ rule.nodes,
        node.offence? (definitions.map Definition.name) definition = none) →
      ∃ w, Matches definitions rule w
  | .character c, _ => ⟨[c], .character c⟩
  | .reference name, h => by
    have hname : name ∈ definitions.map Definition.name := by
      simpa [offence?] using h _ (mem_nodes_self _)
    obtain ⟨d, hmem, rfl⟩ := List.mem_map.1 hname
    obtain ⟨w, hw⟩ := hd d hmem
    exact ⟨w, .reference hmem hw⟩
  | .sequence rules, h => exists_matchesAll hd rules (List.forall_mem_cons.1 h).2
  | .alternative first rest, h => by
    have hfirst := (List.forall_mem_append.1 (List.forall_mem_cons.1 h).2).1
    obtain ⟨w, hw⟩ := exists_matches hd first hfirst
    exact ⟨w, .choice List.mem_cons_self hw⟩
  | .repetition rule, _ => ⟨[], .stop rule⟩
  | .option rule, _ => ⟨[], .absent rule⟩
  | .group rule, h => by
    obtain ⟨w, hw⟩ := exists_matches hd rule (List.forall_mem_cons.1 h).2
    exact ⟨w, .group hw⟩
  | .strayReference _, h => nomatch h _ (mem_nodes_self _)
  | .exclude _ _, h => nomatch h _ (mem_nodes_self _)
  | .foreign _, h => nomatch h _ (mem_nodes_self _)

theorem exists_matchesAll (hd : ∀ d ∈ definitions, ∃ w, Matches definitions d.rule w) :
    ∀ rules : List Rule, (∀ node ∈ nodesAll rules,
        node.offence? (definitions.map Definition.name) definition = none) →
      ∃ w, Matches definitions (.sequence rules) w
  | [], _ => ⟨[], .nil⟩
  | rule :: rest, h => by
    obtain ⟨hrule, hrest⟩ := List.forall_mem_append.1 h
    obtain ⟨u, hu⟩ := exists_matches hd rule hrule
    obtain ⟨v, hv⟩ := exists_matchesAll hd rest hrest
    exact ⟨u ++ v, .cons hu hv⟩

end

end Rule

/-! ## Forms that derive strings -/

/-- What a form derives is made of symbols that rules are lowered to, if the form is. -/
theorem isLowered_of_derives {a b : List Symbol}
    (hstore : ∀ rule ∈ store.alternatives, IsLowered store.keys rule.2)
    (hd : store.Derives a b) (h : ∀ s ∈ a, s.IsLowered store.keys) :
    ∀ s ∈ b, s.IsLowered store.keys := by
  induction hd with
  | refl => exact h
  | tail _ step ih =>
    cases step with
    | @replace id production front back mem =>
      obtain ⟨hfront, hback⟩ := List.forall_mem_append.1 ih
      have hproduction : ∀ s ∈ visible production, s.IsLowered store.keys := by
        rcases hstore _ mem with rfl | ⟨-, hsymbols⟩
        · exact List.forall_mem_nil _
        · exact fun s hs => hsymbols s (List.mem_filter.1 hs).1
      refine List.forall_mem_append.2 ⟨?_, (List.forall_mem_cons.1 hback).2⟩
      exact List.forall_mem_append.2 ⟨hfront, hproduction⟩

/-- A form derives a string when each of its nonterminals does. -/
theorem exists_derives {form : List Symbol}
    (hkeys : ∀ id ∈ store.keys, ∃ w, store.Derives [.nonterminal id] (terminals w))
    (h : ∀ s ∈ form, s.IsLowered store.keys) : ∃ w, store.Derives form (terminals w) := by
  induction form with
  | nil => exact ⟨[], .refl _⟩
  | cons s rest ih =>
    obtain ⟨hs, hrest⟩ := List.forall_mem_cons.1 h
    obtain ⟨v, hv⟩ := ih hrest
    obtain ⟨u, hu⟩ : ∃ u, store.Derives [s] (terminals u) := by
      rcases hs with ⟨c, rfl⟩ | ⟨id, hid, rfl⟩
      · exact ⟨[c], .refl _⟩
      · exact hkeys id hid
    have happend := hu.append hv
    rw [← terminals_append] at happend
    exact ⟨u ++ v, happend⟩

namespace Filled

/-- A nonterminal derives what the rule that it stands for matches. -/
theorem derives_iff (h : Filled definitions store) (hid : StandsFor definitions id rule) :
    store.Derives [.nonterminal id] (terminals w) ↔ Matches definitions rule w := by
  refine ⟨fun hderives => h.meant_of_derives hderives rule hid, fun hw => ?_⟩
  -- The productions of a definition's number are the choices of its rule, those of a helper belong
  -- to its node.
  rcases hid with ⟨i, d, hi, rfl, rfl⟩ | hnode
  · obtain ⟨own, n, hget, hsteps⟩ := h.placed.1 d (List.mem_of_getElem? hi)
    obtain rfl : own = i := Option.some.inj (hget.symm.trans (h.get?_name hi))
    exact (h.derived hw).chosen d.name i n hsteps
  · exact (h.matches_iff_derives hnode).1 hw

/-- When each definition matches some string, each nonterminal derives one. -/
theorem exists_derives_nonterminal (h : Filled definitions store)
    (hd : ∀ d ∈ definitions, ∃ w, Matches definitions d.rule w) (hid : id ∈ store.keys) :
    ∃ w, store.Derives [.nonterminal id] (terminals w) := by
  obtain ⟨rule, hrule⟩ := h.mem_keys_iff.1 hid
  have hmatches : ∃ w, Matches definitions rule w := by
    rcases hrule with ⟨i, d, hi, -, rfl⟩ | ⟨i, hi, -⟩
    · exact hd d (List.mem_of_getElem? hi)
    · obtain ⟨-, d, hmem, hnode⟩ := exists_of_mem_helperNodes (List.mem_of_getElem? hi)
      exact Rule.exists_matches hd rule fun inner hinner =>
        h.offence?_eq_none hmem (Rule.nodes_subset d.rule hnode hinner)
  obtain ⟨w, hw⟩ := hmatches
  exact ⟨w, (h.derives_iff hrule).2 hw⟩

/-- A nonterminal begins with the empty symbol when its rule matches the empty string. -/
theorem beginnings_empty_iff (h : Filled definitions store) (hid : StandsFor definitions id rule) :
    store.beginnings id .empty ↔ Matches definitions rule [] :=
  Store.begins_empty_iff.trans (h.derives_iff (w := []) hid)

theorem beginnings_of_matches {c : Char} (h : Filled definitions store)
    (hid : StandsFor definitions id rule) (hw : Matches definitions rule (c :: w)) :
    store.beginnings id (.terminal c.toString) :=
  .terminal ((h.derives_iff hid).2 hw)

/-- What a nonterminal begins with begins a string that its rule matches, when each definition
    matches some string. -/
theorem exists_matches_of_beginnings {text : String} (h : Filled definitions store)
    (hd : ∀ d ∈ definitions, ∃ w, Matches definitions d.rule w)
    (hid : StandsFor definitions id rule) (hbegins : store.beginnings id (.terminal text)) :
    ∃ c w, text = c.toString ∧ Matches definitions rule (c :: w) := by
  obtain ⟨rest, hrest⟩ := Store.begins_terminal_iff.1 hbegins
  have hform : ∀ s ∈ [Symbol.nonterminal id], s.IsLowered store.keys :=
    List.forall_mem_singleton.2 (.inr ⟨id, h.mem_keys_iff.2 ⟨rule, hid⟩, rfl⟩)
  -- What comes after the terminal is made of nonterminals that derive strings, so the form can be
  -- completed to a string that begins with the same character.
  obtain ⟨hhead, htail⟩ :=
    List.forall_mem_cons.1 (isLowered_of_derives h.isLowered hrest hform)
  obtain ⟨c, ⟨⟩⟩ | ⟨_, -, ⟨⟩⟩ := hhead
  obtain ⟨w, hw⟩ := exists_derives (fun id => h.exists_derives_nonterminal hd) htail
  refine ⟨c, w, rfl, (h.derives_iff hid).1 ?_⟩
  exact hrest.trans (hw.append_left [.terminal c.toString])

end Filled

/-- The analysis of what definitions are built into tells of each definition whether it matches the
    empty string, and of all characters that its strings begin with that they do; of no others, if
    every definition matches some string. -/
theorem analysis_answers (h : (build definitions).result = .ok store) :
    ∃ sets, (store.analyze .unspecified).result = .ok sets ∧
      ∀ d ∈ definitions, ∃ id, store.identifier d.name = .ok id ∧
        (∃ nullable, sets.isNullable id = .ok nullable ∧
          (nullable = true ↔ Matches definitions d.rule [])) ∧
        ∃ set, sets.first (.nonterminal id) = .ok set ∧
          (∀ c w, Matches definitions d.rule (c :: w) → .terminal c.toString ∈ set) ∧
          ((∀ e ∈ definitions, ∃ w, Matches definitions e.rule w) →
            ∀ text, .terminal text ∈ set →
              ∃ c w, text = c.toString ∧ Matches definitions d.rule (c :: w)) := by
  have filled := Filled.of_build h
  obtain ⟨sets, hsets⟩ := filled.exists_analyze (frozen_of_build h) .unspecified
  refine ⟨sets, hsets, fun d hd => ?_⟩
  obtain ⟨id, hget⟩ := filled.exists_number d hd
  have hid := filled.standsFor hd hget
  have hsymbol : .nonterminal id ∈ store.analyzedSymbols := by
    rw [Store.mem_analyzedSymbols_nonterminal, filled.mem_identifiers_iff]
    exact filled.mem_keys_iff.2 ⟨d.rule, hid⟩
  obtain ⟨set, hset⟩ := Store.exists_first_of_analyze hsets hsymbol
  have hmem := Store.mem_first_of_analyze hsets hset
  refine ⟨id, ?_, ⟨decide (.empty ∈ set), ?_, ?_⟩, set, hset, ?_, ?_⟩
  · rw [Store.identifier, hget]
  · rw [GrammarSets.isNullable, hset]
    rfl
  · rw [decide_eq_true_iff, hmem, filled.beginnings_empty_iff hid]
  · intro c w hw
    exact (hmem _).2 (filled.beginnings_of_matches hid hw)
  · intro hall text htext
    exact filled.exists_matches_of_beginnings hall hid ((hmem _).1 htext)

/-- Two definitions that refer to each other, of which both match the empty string. -/
def mutualDefinitions : List Definition :=
  [⟨"a", .sequence [.reference "b", .option (.character 'x')]⟩,
    ⟨"b", .repetition (.sequence [.reference "a", .character 'y'])⟩]

/-- What the analysis of `mutualDefinitions` says about the first definition. -/
theorem analysis_answers_mutualDefinitions :
    ∃ store, (build mutualDefinitions).result = .ok store ∧
      (∀ e ∈ mutualDefinitions, ∃ w, Matches mutualDefinitions e.rule w) ∧
      ∃ sets, (store.analyze .unspecified).result = .ok sets ∧
        ∃ id, store.identifier "a" = .ok id ∧
          ∃ set, sets.first (.nonterminal id) = .ok set ∧
            ∀ text, .terminal text ∈ set → ∃ c w, text = c.toString ∧
              Matches mutualDefinitions (.sequence [.reference "b", .option (.character 'x')])
                (c :: w) := by
  have hbuild : ∃ store, (build mutualDefinitions).result = .ok store := by decide +kernel
  obtain ⟨store, h⟩ := hbuild
  have hb : Matches mutualDefinitions
      (.repetition (.sequence [.reference "a", .character 'y'])) [] := .stop _
  have hreference : Matches mutualDefinitions (.reference "b") [] :=
    .reference (List.mem_cons_of_mem _ List.mem_cons_self) hb
  have hall : ∀ e ∈ mutualDefinitions, ∃ w, Matches mutualDefinitions e.rule w :=
    List.forall_mem_cons.2 ⟨⟨_, .cons hreference (.cons (.absent _) .nil)⟩,
      List.forall_mem_singleton.2 ⟨_, hb⟩⟩
  obtain ⟨sets, hsets, hanswers⟩ := analysis_answers h
  obtain ⟨id, hid, -, set, hset, -, hconverse⟩ := hanswers _ List.mem_cons_self
  exact ⟨store, h, hall, sets, hsets, id, hid, set, hset, hconverse hall⟩

end FirstFollow
