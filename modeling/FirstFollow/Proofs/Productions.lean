import FirstFollow.Proofs.Build
import FirstFollow.Proofs.Encoding
import FirstFollow.Proofs.Walk

/-!
# The productions of built stores

What definitions are built into can be read off the definitions. Names are numbered in order, and
nodes that get helpers in the order of a walk, from one above the count of the definitions. Each
nonterminal has exactly the productions that its definition or its node is encoded by
(`build_productions`).
-/

namespace FirstFollow

variable {definitions front back : List Definition} {store : Store} {d : Definition}
  {id n : NonterminalId} {node : Rule} {names : Table String NonterminalId}

namespace Rule

variable {P : NonterminalId → Rule → Prop}

/-! ## Nested nodes -/

mutual

/-- The nodes inside a node are numbered on from its own number. -/
theorem numbered_nested : ∀ (rule : Rule) (n : NonterminalId), Numbered P rule.sugar n →
    Numbered (fun id node => Numbered P node.sugar id) rule.sugar n
  | .sequence rules, n, h => numbered_nestedAll rules n h
  | .alternative first rest, n, h => by
    refine ⟨h, numbered_append.2 ?_⟩
    obtain ⟨hfirst, hrest⟩ := numbered_append.1 h.2
    exact ⟨numbered_nested first _ hfirst, numbered_nestedAll rest _ hrest⟩
  | .repetition rule, n, h => ⟨h, numbered_nested rule _ h.2⟩
  | .option rule, n, h => ⟨h, numbered_nested rule _ h.2⟩
  | .group rule, n, h => ⟨h, numbered_nested rule _ h.2⟩
  | .character _, _, _ => trivial
  | .reference _, _, _ => trivial
  | .strayReference _, _, _ => trivial
  | .exclude _ _, _, _ => trivial
  | .foreign _, _, _ => trivial

theorem numbered_nestedAll : ∀ (rules : List Rule) (n : NonterminalId),
    Numbered P (sugarAll rules) n →
      Numbered (fun id node => Numbered P node.sugar id) (sugarAll rules) n
  | [], _, _ => trivial
  | rule :: rest, n, h => by
    obtain ⟨hrule, hrest⟩ := numbered_append.1 h
    exact numbered_append.2 ⟨numbered_nested rule n hrule, numbered_nestedAll rest _ hrest⟩

end

theorem encoding_ne_nil (h : node.hasHelper = true) : node.encoding names n ≠ [] := by
  cases node with
  | alternative first rest => simp [encoding, choiceProductions]
  | repetition rule => simp [encoding]
  | option rule =>
    rw [encoding]
    split <;> simp
  | group rule => simp [encoding]
  | _ => cases h

theorem choiceProductions_choices_ne_nil (rule : Rule) :
    choiceProductions names rule.choices n ≠ [] := by
  cases rule <;> simp [choices, choiceProductions]

end Rule

theorem numbered_helperNodes {P : NonterminalId → Rule → Prop}
    (h : Numbered P (helperNodes definitions) n) :
    Numbered (fun id node => Numbered P node.sugar id) (helperNodes definitions) n := by
  induction definitions generalizing n with
  | nil => trivial
  | cons first rest ih =>
    rw [helperNodes_cons, numbered_append] at h ⊢
    exact ⟨Rule.numbered_nestedAll _ n h.1, ih h.2⟩

theorem exists_helps_iff :
    (∃ node, Helps definitions id node) ↔
      ∃ i < (helperNodes definitions).length, id = definitions.length + 1 + (i : Nat) := by
  constructor
  · rintro ⟨node, i, hi, rfl⟩
    exact ⟨i, (List.getElem?_eq_some_iff.1 hi).1, rfl⟩
  · rintro ⟨i, hi, rfl⟩
    exact ⟨_, i, List.getElem?_eq_getElem hi, rfl⟩

/-- A definition stands between those before it and those behind it. -/
theorem exists_split {i : Nat} (hi : definitions[i]? = some d) :
    ∃ front back, definitions = front ++ d :: back ∧ front.length = i := by
  obtain ⟨hlt, rfl⟩ := List.getElem?_eq_some_iff.1 hi
  have hlength := List.length_take_of_le (Nat.le_of_lt hlt)
  exact ⟨definitions.take i, definitions.drop (i + 1), by simp, hlength⟩

/-- The node of a helper belongs to a definition. -/
theorem exists_block {i : Nat} (hi : (helperNodes definitions)[i]? = some node) :
    ∃ front d back j, definitions = front ++ d :: back ∧
      (Rule.sugarAll d.rule.choices)[j]? = some node ∧ i = (helperNodes front).length + j := by
  induction definitions generalizing i with
  | nil => cases hi
  | cons first rest ih =>
    rw [helperNodes_cons] at hi
    rcases Nat.lt_or_ge i (Rule.sugarAll first.rule.choices).length with hlt | hge
    · rw [List.getElem?_append_left hlt] at hi
      exact ⟨[], first, rest, i, rfl, hi, (Nat.zero_add i).symm⟩
    · rw [List.getElem?_append_right hge] at hi
      obtain ⟨front, d, back, j, rfl, hj, hplace⟩ := ih hi
      refine ⟨first :: front, d, back, j, rfl, hj, ?_⟩
      rw [helperNodes_cons, List.length_append]
      omega

/-- The names of definitions have numbers from `own` on, in order. -/
def NamedFrom (names : Table String NonterminalId) (definitions : List Definition)
    (own : NonterminalId) : Prop :=
  ∀ (i : Nat) (d : Definition), definitions[i]? = some d → names.get? d.name = some (own + i)

theorem NamedFrom.head {own : NonterminalId} (h : NamedFrom names (d :: definitions) own) :
    names.get? d.name = some own := by
  simpa using h 0 d rfl

theorem NamedFrom.tail {own : NonterminalId} (h : NamedFrom names (d :: definitions) own) :
    NamedFrom names definitions (own + 1) := by
  intro i other hi
  have hplace := h (i + 1) other hi
  rwa [Nat.cast_add_one, add_comm (i : NonterminalId), ← add_assoc] at hplace

/-! ## What the nonterminals of a filled store have -/

namespace Filled

theorem get?_name (h : Filled definitions store) {i : Nat} (hi : definitions[i]? = some d) :
    store.names.get? d.name = some (i : NonterminalId) :=
  (h.named _ _).2 ⟨i, d, hi, rfl, rfl⟩

theorem namedFrom (h : Filled definitions store) : NamedFrom store.names definitions 0 :=
  fun i d hi => by rw [h.get?_name hi, zero_add]

/-- The number of a definition is below those of helpers. -/
theorem exists_own (h : Filled definitions store) (hd : d ∈ definitions) :
    ∃ i : Nat, definitions[i]? = some d ∧ store.names.get? d.name = some (i : NonterminalId) ∧
      (i : NonterminalId) < definitions.length + 1 := by
  obtain ⟨i, hi⟩ := List.mem_iff_getElem?.1 hd
  obtain ⟨hlt, -⟩ := List.getElem?_eq_some_iff.1 hi
  exact ⟨i, hi, h.get?_name hi, by lia⟩

theorem exists_number (h : Filled definitions store) :
    ∀ d ∈ definitions, ∃ id, store.names.get? d.name = some id := fun _ hd =>
  let ⟨i, _, hget, _⟩ := h.exists_own hd
  ⟨i, hget⟩

theorem emitted_helper (h : Filled definitions store) (hnode : Helps definitions id node) :
    emitted id (planAll store.names definitions (definitions.length + 1)) =
      node.encoding store.names id := by
  obtain ⟨i, hi, rfl⟩ := hnode
  rw [emitted_planAll fun d hd => ?_, Rule.encodings_add hi]
  obtain ⟨own, -, hget, hlt⟩ := h.exists_own hd
  exact ⟨own, hget, hlt, by lia⟩

theorem emitted_own (h : Filled definitions store) (hd : definitions = front ++ d :: back) :
    emitted front.length (planAll store.names definitions (definitions.length + 1)) =
      Rule.choiceProductions store.names d.rule.choices
        (definitions.length + 1 + (helperNodes front).length) := by
  have hlength : front.length + (back.length + 1) = definitions.length := by simp [hd]
  have hget : store.names.get? d.name = some (front.length : NonterminalId) :=
    h.get?_name (by simp [hd])
  have hplan : planAll store.names definitions (definitions.length + 1) =
      planAll store.names (front ++ d :: back) (definitions.length + 1) := by rw [hd]
  rw [hplan, emitted_planAll_own hget (by lia) fun e he => ?_]
  -- The other definitions stand at other places, before or behind.
  rcases List.mem_append.1 he with he | he
  · obtain ⟨i, hi⟩ := List.mem_iff_getElem?.1 he
    obtain ⟨hlt, -⟩ := List.getElem?_eq_some_iff.1 hi
    have hplace : definitions[i]? = some e := by rw [hd, List.getElem?_append_left hlt, hi]
    exact ⟨i, h.get?_name hplace, by lia, by lia⟩
  · obtain ⟨i, hi⟩ := List.mem_iff_getElem?.1 he
    obtain ⟨hlt, -⟩ := List.getElem?_eq_some_iff.1 hi
    have hplace : definitions[front.length + (i + 1)]? = some e := by
      rw [hd, List.getElem?_append_right (by lia)]
      simpa using hi
    exact ⟨_, h.get?_name hplace, by push_cast; lia, by push_cast; lia⟩

/-- The nonterminals of a filled store are the numbers of definitions and the helpers. -/
theorem mem_keys_iff (h : Filled definitions store) :
    id ∈ store.keys ↔ ∃ rule, StandsFor definitions id rule := by
  rw [h.keys]
  constructor
  · intro hemitted
    by_cases hown : ∃ (i : Nat) (d : Definition), definitions[i]? = some d ∧ id = i
    · obtain ⟨i, d, hi, rfl⟩ := hown
      exact ⟨d.rule, .inl ⟨i, d, hi, rfl, rfl⟩⟩
    · rw [emitted_planAll fun d hd => ?_] at hemitted
      · obtain ⟨i, node, hi, rfl⟩ := Rule.exists_of_encodings_ne_nil hemitted
        exact ⟨node, .inr ⟨i, hi, rfl⟩⟩
      · obtain ⟨i, hi, hget, hlt⟩ := h.exists_own hd
        exact ⟨i, hget, hlt, fun e => hown ⟨i, d, hi, e.symm⟩⟩
  · rintro ⟨rule, ⟨i, d, hi, rfl, rfl⟩ | hnode⟩
    · obtain ⟨front, back, hd, rfl⟩ := exists_split hi
      rw [h.emitted_own hd]
      exact Rule.choiceProductions_choices_ne_nil _
    · rw [h.emitted_helper hnode]
      obtain ⟨i, hi, rfl⟩ := hnode
      exact Rule.encoding_ne_nil (exists_of_mem_helperNodes (List.mem_of_getElem? hi)).1

theorem productions_eq_ok (h : Filled definitions store) (hid : id ∈ store.keys) :
    store.productions id =
      .ok (emitted id (planAll store.names definitions (definitions.length + 1))) := by
  rw [← h.productions, Store.productionsOf, Store.productions]
  obtain ⟨productions, hget⟩ := Option.isSome_iff_exists.1 (Table.isSome_get?_iff.2 hid)
  rw [hget]
  rfl

theorem mem_named_iff (h : Filled definitions store) :
    id ∈ store.named ↔ ∃ (i : Nat) (d : Definition), definitions[i]? = some d ∧ id = i := by
  rw [Store.named, SortedSet.mem_ofList, Table.mem_values_iff]
  constructor
  · intro ⟨name, hget⟩
    obtain ⟨i, d, hi, -, rfl⟩ := (h.named name id).1 hget
    exact ⟨i, d, hi, rfl⟩
  · rintro ⟨i, d, hi, rfl⟩
    exact ⟨d.name, h.get?_name hi⟩

theorem mem_synthetic (h : Filled definitions store) :
    id ∈ store.synthetic ↔ ∃ node, Helps definitions id node := by
  rw [h.synthetic, helpersMade_planAll h.exists_number, mem_numbersFrom, exists_helps_iff]

/-- The nonterminals of a filled store are named or helpers. -/
theorem mem_keys_iff_named_or_synthetic (h : Filled definitions store) :
    id ∈ store.keys ↔ id ∈ store.named ∨ id ∈ store.synthetic := by
  rw [h.mem_keys_iff, h.mem_named_iff, h.mem_synthetic]
  constructor
  · rintro ⟨rule, ⟨i, d, hi, rfl, -⟩ | hnode⟩
    · exact .inl ⟨i, d, hi, rfl⟩
    · exact .inr ⟨rule, hnode⟩
  · rintro (⟨i, d, hi, rfl⟩ | ⟨node, hnode⟩)
    · exact ⟨d.rule, .inl ⟨i, d, hi, rfl, rfl⟩⟩
    · exact ⟨node, .inr hnode⟩

theorem numbered_sugar (hnode : Helps definitions id node) :
    Numbered (Helps definitions) node.sugar id :=
  (numbered_helperNodes (numbered_helps definitions)).of_helps hnode

/-- Inside a definition, nodes are numbered on from those of the definitions before. -/
theorem numbered_choices (hd : definitions = front ++ d :: back) :
    Numbered (Helps definitions) (Rule.sugarAll d.rule.choices)
      (definitions.length + 1 + (helperNodes front).length) := by
  have hnodes : helperNodes definitions =
      helperNodes front ++ (Rule.sugarAll d.rule.choices ++ helperNodes back) := by
    rw [hd, helperNodes, List.flatMap_append, ← helperNodes_cons]
    rfl
  have hall := numbered_helps definitions
  rw [hnodes] at hall
  exact (numbered_append.1 (numbered_append.1 hall).2).1

end Filled

/-- In the store that definitions are built into, names have their places as numbers, and the
    nodes with helpers are numbered in the order of a walk, from one above the count of the
    definitions. The productions of each nonterminal are those of the choices of its definition
    or of its node, and there are no other nonterminals. -/
theorem build_productions (h : (build definitions).result = .ok store) :
    (∀ front d back, definitions = front ++ d :: back →
      let n : NonterminalId := definitions.length + 1 + (helperNodes front).length
      store.identifier d.name = .ok front.length ∧
        store.productions front.length =
          .ok (Rule.choiceProductions store.names d.rule.choices n) ∧
        Numbered (Helps definitions) (Rule.sugarAll d.rule.choices) n) ∧
    (∀ id node, Helps definitions id node →
      store.productions id = .ok (node.encoding store.names id) ∧
        Numbered (Helps definitions) node.sugar id) ∧
    (∀ id, id ∈ store.synthetic ↔
      ∃ i < (helperNodes definitions).length, id = definitions.length + 1 + (i : Nat)) ∧
    ∀ id, id ∈ store.keys ↔ id ∈ store.named ∨ id ∈ store.synthetic := by
  have filled := Filled.of_build h
  refine ⟨fun front d back hd => ?_, fun id node hnode => ?_,
    fun id => filled.mem_synthetic.trans exists_helps_iff,
    fun id => filled.mem_keys_iff_named_or_synthetic⟩
  · have hplace : definitions[front.length]? = some d := by simp [hd]
    have hkey : (front.length : NonterminalId) ∈ store.keys :=
      filled.mem_keys_iff.2 ⟨d.rule, .inl ⟨_, d, hplace, rfl, rfl⟩⟩
    refine ⟨?_, ?_, Filled.numbered_choices hd⟩
    · rw [Store.identifier, filled.get?_name hplace]
    · rw [filled.productions_eq_ok hkey, filled.emitted_own hd]
  · have hkey : id ∈ store.keys := filled.mem_keys_iff.2 ⟨node, .inr hnode⟩
    refine ⟨?_, Filled.numbered_sugar hnode⟩
    rw [filled.productions_eq_ok hkey, filled.emitted_helper hnode]

/-- An option of nothing, a repetition of a node in brackets, and a choice at the top of a
    definition. -/
def layeredDefinitions : List Definition :=
  [⟨"a", .sequence [.option (.sequence []), .sequence [.repetition (.group (.reference "b"))]]⟩,
    ⟨"b", .alternative (.character 'x') [.option (.reference "a"), .sequence []]⟩]

/-- The productions of `layeredDefinitions`: the choices of the second definition, the option of
    nothing and the repetition. -/
theorem build_productions_layeredDefinitions :
    ∃ store, (build layeredDefinitions).result = .ok store ∧ store.identifier "b" = .ok 1 ∧
      store.productions 1 = .ok [[.terminal "x"], [.nonterminal 6], [.empty]] ∧
      store.productions 3 = .ok [[.empty]] ∧
      store.productions 4 = .ok [[.nonterminal 5, .nonterminal 4], [.empty]] ∧
      (6 ∈ store.synthetic ↔ ∃ i < 4, (6 : NonterminalId) = 2 + 1 + (i : Nat)) := by
  have hbuild : ∃ store, (build layeredDefinitions).result = .ok store := by decide +kernel
  obtain ⟨store, h⟩ := hbuild
  obtain ⟨hdefinitions, hhelpers, hsynthetic, -⟩ := build_productions h
  obtain ⟨hname, hown, -⟩ := hdefinitions (layeredDefinitions.take 1) _ [] rfl
  have hoption : Helps layeredDefinitions 3 (.option (.sequence [])) := ⟨0, rfl, rfl⟩
  have hrepetition : Helps layeredDefinitions 4 (.repetition (.group (.reference "b"))) :=
    ⟨1, rfl, rfl⟩
  exact ⟨store, h, hname, hown, (hhelpers 3 _ hoption).1, (hhelpers 4 _ hrepetition).1,
    hsynthetic 6⟩

end FirstFollow
