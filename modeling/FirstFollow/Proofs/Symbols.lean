import FirstFollow.Proofs.Productions
import FirstFollow.Proofs.WellFormed

/-!
# The symbols of built stores

Lowering puts only terminals of single characters and nonterminals of the store into productions,
and the empty symbol alone (`Filled.isLowered`). So what it fills is well formed, although helpers
are referred to before they have productions (`Filled.isWellFormed`). The terminals are those of
the characters that a walk of the definitions visits (`Filled.mem_alphabet_iff`).
-/

namespace FirstFollow

/-- A symbol that rules are lowered to: the terminal of a character, or a nonterminal with
    productions. -/
def Symbol.IsLowered (keys : List NonterminalId) (s : Symbol) : Prop :=
  (∃ c : Char, s = .terminal c.toString) ∨ ∃ id ∈ keys, s = .nonterminal id

/-- A production that rules are lowered to. -/
def IsLowered (keys : List NonterminalId) (production : Production) : Prop :=
  production = [.empty] ∨ production ≠ [] ∧ ∀ s ∈ production, s.IsLowered keys

section

variable {keys : List NonterminalId} {production : Production} {symbols : List Symbol}
  {names : Table String NonterminalId} {rule : Rule} {rules : List Rule} {n id : NonterminalId}

theorem IsLowered.wellFormed (h : IsLowered keys production) : WellFormed keys production := by
  rcases h with rfl | ⟨hne, hsymbols⟩
  · exact ⟨List.cons_ne_nil _ _, fun _ => rfl, by simp⟩
  · have hknown : ∀ s ∈ production,
        (∃ text, s = .terminal text) ∨ ∃ id ∈ keys, s = .nonterminal id :=
      fun s hs => (hsymbols s hs).imp_left fun ⟨c, hc⟩ => ⟨_, hc⟩
    refine ⟨hne, fun hempty => ?_, fun s hs => .inr (hknown s hs)⟩
    obtain ⟨text, ⟨⟩⟩ | ⟨id, -, ⟨⟩⟩ := hknown _ hempty

theorem isLowered_spell (h : ∀ s ∈ symbols, s.IsLowered keys) : IsLowered keys (spell symbols) := by
  rcases eq_or_ne symbols [] with rfl | hne
  · exact .inl rfl
  · rw [Rule.spell_of_ne_nil hne]
    exact .inr ⟨hne, h⟩

namespace Rule

/-! ## Productions of nodes -/

mutual

theorem isLowered_flat (hnames : ∀ name id, names.get? name = some id → id ∈ keys) :
    ∀ (rule : Rule) (n : NonterminalId), Numbered (fun id _ => id ∈ keys) rule.sugar n →
      ∀ s ∈ rule.flat names n, s.IsLowered keys
  | .character c, _, _ => List.forall_mem_singleton.2 (.inl ⟨c, rfl⟩)
  | .reference name, _, _ => by
    rw [flat]
    cases hget : names.get? name with
    | none => exact List.forall_mem_nil _
    | some id => exact List.forall_mem_singleton.2 (.inr ⟨id, hnames name id hget, rfl⟩)
  | .sequence rules, n, h => isLowered_flatAll hnames rules n h
  | .alternative _ _, n, h => List.forall_mem_singleton.2 (.inr ⟨n, h.1, rfl⟩)
  | .repetition _, n, h => List.forall_mem_singleton.2 (.inr ⟨n, h.1, rfl⟩)
  | .option _, n, h => List.forall_mem_singleton.2 (.inr ⟨n, h.1, rfl⟩)
  | .group _, n, h => List.forall_mem_singleton.2 (.inr ⟨n, h.1, rfl⟩)
  | .strayReference _, _, _ => List.forall_mem_nil _
  | .exclude _ _, _, _ => List.forall_mem_nil _
  | .foreign _, _, _ => List.forall_mem_nil _

theorem isLowered_flatAll (hnames : ∀ name id, names.get? name = some id → id ∈ keys) :
    ∀ (rules : List Rule) (n : NonterminalId), Numbered (fun id _ => id ∈ keys) (sugarAll rules) n →
      ∀ s ∈ flatAll names rules n, s.IsLowered keys
  | [], _, _ => List.forall_mem_nil _
  | rule :: rest, n, h => by
    obtain ⟨hrule, hrest⟩ := numbered_append.1 h
    exact List.forall_mem_append.2
      ⟨isLowered_flat hnames rule n hrule, isLowered_flatAll hnames rest _ hrest⟩

end

theorem isLowered_choiceProductions (hnames : ∀ name id, names.get? name = some id → id ∈ keys)
    (h : Numbered (fun id _ => id ∈ keys) (sugarAll rules) n) :
    ∀ production ∈ choiceProductions names rules n, IsLowered keys production := by
  induction rules generalizing n with
  | nil => exact List.forall_mem_nil _
  | cons rule rest ih =>
    obtain ⟨hrule, hrest⟩ := numbered_append.1 h
    exact List.forall_mem_cons.2 ⟨isLowered_spell (isLowered_flat hnames rule n hrule), ih hrest⟩

theorem isLowered_encoding (hnames : ∀ name id, names.get? name = some id → id ∈ keys)
    (h : Numbered (fun id _ => id ∈ keys) rule.sugar n) :
    ∀ production ∈ rule.encoding names n, IsLowered keys production := by
  cases rule with
  | alternative first rest => exact isLowered_choiceProductions hnames h.2
  | repetition rule =>
    have hbody := isLowered_flat hnames rule (n + 1) h.2
    have hself : (Symbol.nonterminal n).IsLowered keys := .inr ⟨n, h.1, rfl⟩
    refine List.forall_mem_cons.2 ⟨.inr ⟨by simp, ?_⟩, List.forall_mem_singleton.2 (.inl rfl)⟩
    exact List.forall_mem_append.2 ⟨hbody, List.forall_mem_singleton.2 hself⟩
  | option rule =>
    have hbody := isLowered_flat hnames rule (n + 1) h.2
    rw [encoding]
    split
    · exact List.forall_mem_singleton.2 (.inl rfl)
    · rename_i hne
      exact List.forall_mem_cons.2 ⟨.inr ⟨hne, hbody⟩, List.forall_mem_singleton.2 (.inl rfl)⟩
  | group rule =>
    exact List.forall_mem_singleton.2 (isLowered_spell (isLowered_flat hnames rule (n + 1) h.2))
  | _ => exact List.forall_mem_nil _

end Rule

end

/-! ## The terminals of lowered rules -/

/-- The text of the terminal that a node is lowered to, if it is a character. -/
def Rule.terminalText? : Rule → Option String
  | .character c => some c.toString
  | _ => none

/-- The terminal texts of the characters among nodes. -/
def characterTexts (nodes : List Rule) : List String :=
  nodes.filterMap Rule.terminalText?

section

variable {nodes more : List Rule} {text : String} {symbols rest : List Symbol}

theorem mem_characterTexts :
    text ∈ characterTexts nodes ↔ ∃ c, .character c ∈ nodes ∧ text = c.toString := by
  unfold characterTexts
  rw [List.mem_filterMap]
  constructor
  · intro ⟨node, hnode, h⟩
    cases node with
    | character c =>
      cases h
      exact ⟨c, hnode, rfl⟩
    | _ => cases h
  · rintro ⟨c, hc, rfl⟩
    exact ⟨_, hc, rfl⟩

@[simp] theorem characterTexts_append :
    characterTexts (nodes ++ more) = characterTexts nodes ++ characterTexts more :=
  List.filterMap_append

@[simp] theorem terminalTexts_append :
    terminalTexts (symbols ++ rest) = terminalTexts symbols ++ terminalTexts rest :=
  List.filterMap_append

@[simp] theorem terminalTexts_nonterminal (id : NonterminalId) :
    terminalTexts [.nonterminal id] = [] := rfl

@[simp] theorem terminalTexts_empty : terminalTexts [.empty] = [] := rfl

@[simp] theorem terminalTexts_spell : terminalTexts (spell symbols) = terminalTexts symbols := by
  cases symbols <;> rfl

/-- A node that lowers its body and then adds its own productions has the terminals of its body. -/
theorem mem_texts_node {body last : List Step} {n : NonterminalId} {kind : HelperKind}
    {definition : String}
    (hbody : text ∈ terminalTexts symbols ++ textsAdded body ↔ text ∈ characterTexts nodes)
    (hlast : textsAdded last = terminalTexts symbols) :
    text ∈ terminalTexts [.nonterminal n] ++
        textsAdded (.helper n kind definition :: body ++ last) ↔
      text ∈ characterTexts nodes := by
  rw [← hbody, terminalTexts_nonterminal, List.nil_append, List.cons_append,
    textsAdded_helper_cons, textsAdded_append, hlast, List.mem_append, List.mem_append, or_comm]

namespace Rule

mutual

/-- The terminals that a rule is lowered to are those of its characters. -/
theorem mem_texts_lower (scope : Scope) :
    ∀ (rule : Rule) (n : NonterminalId),
      text ∈ terminalTexts (rule.lower scope n).symbols ++ textsAdded (rule.lower scope n).steps ↔
        text ∈ characterTexts rule.nodes
  | .character _, _ => Iff.rfl
  | .reference name, _ => by
    rw [lower]
    cases scope.names.get? name <;> exact Iff.rfl
  | .sequence rules, n => mem_texts_lowerAll scope rules n
  | .alternative first rest, n => mem_texts_emitAll scope n (first :: rest) (n + 1)
  | .repetition rule, n => mem_texts_node (mem_texts_lower scope rule (n + 1)) (by simp)
  | .option rule, n => by
    refine mem_texts_node (mem_texts_lower scope rule (n + 1)) ?_
    rw [textsAdded_emit_cons, terminalTexts_spell]
    split <;> simp
  | .group rule, n => mem_texts_node (mem_texts_lower scope rule (n + 1)) (by simp)
  | .strayReference _, _ => Iff.rfl
  | .exclude _ _, _ => Iff.rfl
  | .foreign _, _ => Iff.rfl

theorem mem_texts_lowerAll (scope : Scope) :
    ∀ (rules : List Rule) (n : NonterminalId),
      text ∈ terminalTexts (lowerAll scope rules n).symbols ++
          textsAdded (lowerAll scope rules n).steps ↔
        text ∈ characterTexts (nodesAll rules)
  | [], _ => Iff.rfl
  | rule :: rest, n => by
    rw [nodesAll, characterTexts_append, List.mem_append (s := characterTexts rule.nodes),
      ← mem_texts_lower scope rule n, ← mem_texts_lowerAll scope rest (rule.lower scope n).next]
    simp only [lowerAll, terminalTexts_append, textsAdded_append, List.mem_append]
    exact or_or_or_comm

/-- So are the terminals of productions that rules are lowered into, each. -/
theorem mem_texts_emitAll (scope : Scope) (owner : NonterminalId) :
    ∀ (rules : List Rule) (n : NonterminalId),
      text ∈ textsAdded (emitAll scope owner rules n).1 ↔ text ∈ characterTexts (nodesAll rules)
  | [], _ => Iff.rfl
  | rule :: rest, n => by
    rw [nodesAll, characterTexts_append, List.mem_append, ← mem_texts_lower scope rule n,
      ← mem_texts_emitAll scope owner rest (rule.lower scope n).next]
    simp only [emitAll, textsAdded_append, textsAdded_emit_cons, terminalTexts_spell,
      List.mem_append]
    rw [← or_assoc, or_comm (a := text ∈ textsAdded _)]

end

theorem characterTexts_choices (rule : Rule) :
    characterTexts (nodesAll rule.choices) = characterTexts rule.nodes := by
  cases rule with
  | alternative first rest => rfl
  | _ => exact congrArg characterTexts (List.append_nil _)

end Rule

end

/-! ## Filled stores -/

variable {definitions : List Definition} {names : Table String NonterminalId} {n : NonterminalId}
  {store : Store} {text : String}

/-- A plan adds the terminals of the characters of its definitions. -/
theorem mem_texts_planAll (h : ∀ d ∈ definitions, ∃ id, names.get? d.name = some id) :
    text ∈ textsAdded (planAll names definitions n) ↔
      ∃ d ∈ definitions, text ∈ characterTexts d.rule.nodes := by
  induction definitions generalizing n with
  | nil => simp [planAll]
  | cons first rest ih =>
    obtain ⟨⟨id, hget⟩, hrest⟩ := List.forall_mem_cons.1 h
    rw [planAll_cons hget, textsAdded_append, textsAdded_announce_cons, List.mem_append, ih hrest,
      Rule.mem_texts_emitAll, Rule.characterTexts_choices]
    simp

namespace Filled

theorem mem_alphabet_iff (h : Filled definitions store) :
    text ∈ store.alphabet ↔
      ∃ d ∈ definitions, ∃ c, .character c ∈ d.rule.nodes ∧ text = c.toString := by
  simp only [h.alphabet, mem_texts_planAll h.exists_number, mem_characterTexts]

theorem mem_keys_of_get? (h : Filled definitions store) (name : String) (id : NonterminalId)
    (hget : store.names.get? name = some id) : id ∈ store.keys := by
  obtain ⟨i, d, hi, -, rfl⟩ := (h.named name id).1 hget
  exact h.mem_keys_iff.2 ⟨d.rule, .inl ⟨i, d, hi, rfl, rfl⟩⟩

theorem isLowered (h : Filled definitions store) :
    ∀ rule ∈ store.alternatives, IsLowered store.keys rule.2 := by
  rintro ⟨id, production⟩ hmem
  have hhelper : ∀ id node, Helps definitions id node → id ∈ store.keys := fun id node hnode =>
    h.mem_keys_iff.2 ⟨node, .inr hnode⟩
  obtain ⟨rule, hrule⟩ := h.mem_keys_iff.1 (Store.mem_keys_of_mem_alternatives hmem)
  rw [Store.mem_alternatives_iff, h.productions] at hmem
  -- Nodes inside a definition or a node have numbers of their own, which are keys.
  rcases hrule with ⟨i, d, hi, rfl, rfl⟩ | hnode
  · obtain ⟨front, back, hd, rfl⟩ := exists_split hi
    rw [h.emitted_own hd] at hmem
    exact Rule.isLowered_choiceProductions h.mem_keys_of_get?
      ((numbered_choices hd).mono hhelper) production hmem
  · rw [h.emitted_helper hnode] at hmem
    exact Rule.isLowered_encoding h.mem_keys_of_get? ((numbered_sugar hnode).mono hhelper)
      production hmem

/-- What lowering fills is well formed. -/
theorem isWellFormed (h : Filled definitions store) : store.IsWellFormed := fun rule hrule =>
  (h.isLowered rule hrule).wellFormed

end Filled

end FirstFollow
