import FirstFollow.Proofs.Symbols

/-!
# Built stores are complete

In the store that definitions are built into, the nonterminals are those with productions, and
those whose numbers were handed out. Its productions are well formed, and its alphabet has the
characters of the definitions and no others. So its analysis succeeds for every start that the
store knows (`build_complete`).
-/

namespace FirstFollow

variable {definitions : List Definition} {store : Store} {id : NonterminalId}

namespace Filled

/-- The nonterminals of a filled store are those that have productions. -/
theorem mem_identifiers_iff (h : Filled definitions store) :
    id ∈ store.identifiers ↔ id ∈ store.keys := by
  rw [Store.identifiers, SortedSet.mem_union, SortedSet.mem_union, SortedSet.mem_ofList,
    ← h.mem_keys_iff_named_or_synthetic, or_self]

theorem exists_production (h : Filled definitions store) (hid : id ∈ store.keys) :
    ∃ production, (id, production) ∈ store.alternatives := by
  rw [h.keys, ← h.productions] at hid
  obtain ⟨production, hproduction⟩ := List.exists_mem_of_ne_nil _ hid
  exact ⟨production, Store.mem_alternatives_iff.2 hproduction⟩

end Filled

/-- The numbers that a builder has handed out are those of the nonterminals. -/
theorem issued_of_build (h : (build definitions).result = .ok store) :
    ∃ builder, Builder.ofDefinitions definitions = .ok builder ∧
      builder.build.2.result = .ok store ∧
      ∀ id, id ∈ builder.build.1.ids.issued ↔ id ∈ store.keys := by
  obtain ⟨names, last, hnames, hbuilder, hresult, hids, performed, hstore⟩ := performed_of_build h
  have filled := Filled.of_build h
  refine ⟨_, hbuilder, hresult, fun id => ?_⟩
  have hstored : store.names = names := by
    rw [hstore]
    exact performed.names
  have hnamed : id ∈ (Identifiers.ofTable names).issued ↔ id ∈ store.named := by
    rw [Store.named, hstored]
    exact Iff.rfl
  have hcounter : (Identifiers.ofTable names).counter = definitions.length + 1 := by
    obtain ⟨hsize, -⟩ := numberNames_spec hnames
    rw [List.length_map] at hsize
    change (names.size : NonterminalId) + 1 = _
    rw [hsize]
    exact congrArg (fun n : Nat => (n : NonterminalId) + 1) (Nat.zero_add _)
  -- The numbers of names are issued at the start, and then one for each helper that is made.
  have hlength : (helpersMade (planAll names definitions (definitions.length + 1))).length =
      (helperNodes definitions).length := by
    rw [← hstored, helpersMade_planAll filled.exists_number, length_numbersFrom]
  rw [hids, performed.issued, hlength, filled.mem_keys_iff_named_or_synthetic, ← hnamed,
    filled.mem_synthetic, exists_helps_iff, ← mem_numbersFrom, ← hcounter]
  exact Iff.rfl

/-- A start that a store knows: none, the name of a definition, or a nonterminal with
    productions. -/
inductive Start.Known (definitions : List Definition) (store : Store) : Start → Prop where
  | unspecified : Known definitions store .unspecified
  | name {d : Definition} (hd : d ∈ definitions) : Known definitions store (.name d.name)
  | id {id : NonterminalId} (hid : id ∈ store.keys) : Known definitions store (.id id)

theorem Start.Known.exists_startId {start : Start} (h : start.Known definitions store)
    (filled : Filled definitions store) :
    ∃ given, store.startId start = .ok given ∧ ∀ id, given = some id → id ∈ store.keys := by
  cases h with
  | unspecified => exact ⟨none, rfl, nofun⟩
  | name hd =>
    obtain ⟨id, hget⟩ := filled.exists_number _ hd
    refine ⟨some id, ?_, ?_⟩
    · rw [Store.startId, Store.identifier, hget]
      rfl
    · rintro _ ⟨⟩
      exact filled.mem_keys_of_get? _ id hget
  | @id id hid =>
    refine ⟨some id, if_pos hid, ?_⟩
    rintro _ ⟨⟩
    exact hid

/-- The analysis of a frozen store that definitions were lowered into succeeds for every start that
    the store knows. -/
theorem Filled.exists_analyze {start : Start} (h : Filled definitions store)
    (hfrozen : store.frozen = true) (hstart : start.Known definitions store) :
    ∃ sets, (store.analyze start).result = .ok sets := by
  obtain ⟨given, hgiven, hknown⟩ := hstart.exists_startId h
  exact Store.exists_analyze h.isWellFormed hfrozen (fun id => h.mem_identifiers_iff.1) hgiven
    fun id hid => h.mem_identifiers_iff.2 (hknown id hid)

theorem frozen_of_build (h : (build definitions).result = .ok store) : store.frozen = true := by
  obtain ⟨_, _, -, -, -, -, -, rfl⟩ := performed_of_build h
  rfl

/-- What definitions are built into is complete, so its analysis does not fail. -/
theorem build_complete (h : (build definitions).result = .ok store) :
    SortedSet.ofList store.keys = store.identifiers ∧
    (∃ builder, Builder.ofDefinitions definitions = .ok builder ∧
      builder.build.2.result = .ok store ∧ builder.build.1.ids.issued = store.identifiers) ∧
    (∀ id ∈ store.keys, ∃ production, (id, production) ∈ store.alternatives) ∧
    store.IsWellFormed ∧
    (∀ text, text ∈ store.alphabet ↔
      ∃ d ∈ definitions, ∃ c, .character c ∈ d.rule.nodes ∧ text = c.toString) ∧
    ∀ start : Start, start.Known definitions store →
      ∃ sets, (store.analyze start).result = .ok sets ∧
        (∀ s, s ∈ sets.firsts ↔ s = .empty ∨ (∃ text ∈ store.alphabet, s = .terminal text) ∨
          ∃ id ∈ store.identifiers, s = .nonterminal id) ∧
        ∀ id, id ∈ sets.follows ↔ id ∈ store.identifiers := by
  have filled := Filled.of_build h
  obtain ⟨builder, hbuilder, hresult, hissued⟩ := issued_of_build h
  refine ⟨?_, ⟨builder, hbuilder, hresult, ?_⟩, fun id => filled.exists_production,
    filled.isWellFormed, fun text => filled.mem_alphabet_iff, fun start hstart => ?_⟩
  · ext id
    rw [SortedSet.mem_ofList, filled.mem_identifiers_iff]
  · ext id
    rw [hissued, filled.mem_identifiers_iff]
  · obtain ⟨sets, hsets⟩ := filled.exists_analyze (frozen_of_build h) hstart
    refine ⟨sets, hsets, fun s => ?_, fun id => Store.mem_follows_of_analyze hsets⟩
    rw [Store.mem_firsts_of_analyze hsets]
    simp [Store.analyzedSymbols, eq_comm]

/-- Definitions that refer to each other, the first ahead of the second, with a repetition and an
    option of nothing. -/
def forwardDefinitions : List Definition :=
  [⟨"a", .sequence [.reference "b", .repetition (.sequence [])]⟩,
    ⟨"b", .alternative (.group (.character 'x')) [.option (.sequence []), .reference "a"]⟩]

/-- The store that `forwardDefinitions` are built into, and its analysis from a helper. -/
theorem build_complete_forwardDefinitions :
    ∃ store, (build forwardDefinitions).result = .ok store ∧
      SortedSet.ofList store.keys = store.identifiers ∧ store.IsWellFormed ∧
      (Start.id 4).Known forwardDefinitions store ∧
      ∃ sets, (store.analyze (.id 4)).result = .ok sets ∧
        ∀ id, id ∈ sets.follows ↔ id ∈ store.identifiers := by
  have hbuild : ∃ store, (build forwardDefinitions).result = .ok store := by decide +kernel
  obtain ⟨store, h⟩ := hbuild
  have hhelper : Helps forwardDefinitions 4 (.group (.character 'x')) := ⟨1, rfl, rfl⟩
  have hstart : (Start.id 4).Known forwardDefinitions store :=
    .id ((Filled.of_build h).mem_keys_iff.2 ⟨_, .inr hhelper⟩)
  obtain ⟨hkeys, -, -, hwellFormed, -, hanalyze⟩ := build_complete h
  obtain ⟨sets, hsets, -, hfollows⟩ := hanalyze _ hstart
  exact ⟨store, h, hkeys, hwellFormed, hstart, sets, hsets, hfollows⟩

end FirstFollow
