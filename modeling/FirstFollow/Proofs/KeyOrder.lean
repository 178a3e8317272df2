import FirstFollow.Proofs.Ownership

/-!
# The order of nonterminals

A store lists a nonterminal from its first production on. The helper of a repetition, an option or
brackets gets it when the body has been lowered, and the helper of a choice when the first of the
rules to choose between has (`Rule.order`). So does the number of a definition. From the order in
which rules are lowered follows where any two nonterminals of a built store stand
(`build_keyOrder`).
-/

namespace FirstFollow

/-! ## The keys that steps make -/

/-- The keys of a store after some steps: a nonterminal becomes one with its first production. -/
def keysAfter (keys : List NonterminalId) : List Step → List NonterminalId
  | [] => keys
  | .emit id _ :: rest => keysAfter (if id ∈ keys then keys else keys ++ [id]) rest
  | _ :: rest => keysAfter keys rest

section

variable {keys : List NonterminalId} {id : NonterminalId} {steps more : List Step}
  {production : Production}

@[simp] theorem keysAfter_nil : keysAfter keys [] = keys := rfl

@[simp] theorem keysAfter_helper_cons {kind : HelperKind} {definition : String} :
    keysAfter keys (.helper id kind definition :: steps) = keysAfter keys steps := rfl

@[simp] theorem keysAfter_announce_cons {name : String} :
    keysAfter keys (.announce name id :: steps) = keysAfter keys steps := rfl

theorem keysAfter_emit_of_mem (h : id ∈ keys) :
    keysAfter keys (.emit id production :: steps) = keysAfter keys steps := by
  rw [keysAfter, if_pos h]

theorem keysAfter_emit_of_not_mem (h : id ∉ keys) :
    keysAfter keys (.emit id production :: steps) = keysAfter (keys ++ [id]) steps := by
  rw [keysAfter, if_neg h]

@[simp] theorem keysAfter_append :
    keysAfter keys (steps ++ more) = keysAfter (keysAfter keys steps) more := by
  induction steps generalizing keys with
  | nil => rfl
  | cons step rest ih => cases step <;> exact ih

end

namespace Builder

variable {builder : Builder} {step : Step} {steps : List Step}

/-- A production for a new key puts it behind the others. -/
theorem keys_perform (h : (builder.perform step).2.result = .ok ()) :
    (builder.perform step).1.store.keys = keysAfter builder.store.keys [step] := by
  cases step with
  | announce name id => rfl
  | fail e => cases h
  | helper id kind definition =>
    cases hmark : builder.store.markSynthetic id with
    | error e =>
      simp only [perform, hmark] at h
      cases h
    | ok store =>
      simp only [perform, hmark, keysAfter_helper_cons, keysAfter_nil]
      rw [Store.markSynthetic_eq_ok hmark]
      rfl
  | emit id production =>
    cases hadd : builder.store.add id production with
    | error e =>
      simp only [perform, hadd] at h
      cases h
    | ok store =>
      simp only [perform, hadd, keysAfter]
      unfold Store.add at hadd
      split at hadd
      · cases hadd
      · cases hadd
        exact Table.keys_insert _ _ _

theorem keys_performAll (h : (builder.performAll steps).2.result = .ok ()) :
    (builder.performAll steps).1.store.keys = keysAfter builder.store.keys steps := by
  induction steps generalizing builder with
  | nil => rfl
  | cons step rest ih =>
    have hstep : (builder.perform step).2.result = .ok () →
        (builder.perform step).1.store.keys = keysAfter builder.store.keys [step] := keys_perform
    have hcons : keysAfter builder.store.keys (step :: rest) =
        keysAfter (keysAfter builder.store.keys [step]) rest := by
      rw [← keysAfter_append, List.singleton_append]
    unfold performAll at h ⊢
    rcases hnext : builder.perform step with ⟨next, events, e | ⟨⟩⟩
    · rw [hnext] at h
      cases h
    · rw [hnext] at h hstep
      rw [hcons, ← hstep rfl]
      exact ih h

end Builder

/-- The keys of a built store are those that the plan of its definitions makes. -/
theorem keys_of_build {definitions : List Definition} {store : Store}
    (h : (build definitions).result = .ok store) :
    store.keys = keysAfter [] (planAll store.names definitions (definitions.length + 1)) := by
  obtain ⟨names, last, hnames, _, hbuild, _, performed, hlast⟩ := performed_of_build h
  have hstore : store.names = names := by
    rw [hlast]
    exact performed.names
  have hplan := Builder.performAll_of_build hbuild
  have hfrozen := Store.freeze_eq_ok ((Builder.build_of_ok hplan).1.symm.trans hbuild)
  have hkeys := Builder.keys_performAll hplan
  rw [Builder.plan_ofTable hnames] at hfrozen hkeys
  rw [hstore, hfrozen]
  exact hkeys

/-! ## The order of helpers -/

namespace Rule

mutual

/-- The helpers of a rule in the order in which they get their first productions, with `n` the
    number of the first node. -/
def order : Rule → NonterminalId → List NonterminalId
  | .sequence rules, n => orderAll rules n
  | .alternative first rest, n =>
    first.order (n + 1) ++ n :: orderAll rest (n + 1 + first.sugar.length)
  | .repetition rule, n => rule.order (n + 1) ++ [n]
  | .option rule, n => rule.order (n + 1) ++ [n]
  | .group rule, n => rule.order (n + 1) ++ [n]
  | _, _ => []

/-- The helpers of rules one after another. -/
def orderAll : List Rule → NonterminalId → List NonterminalId
  | [], _ => []
  | rule :: rest, n => rule.order n ++ orderAll rest (n + rule.sugar.length)

end

/-- The helpers of rules that are the choices of `owner`, and `owner` itself. -/
def choiceOrder (owner : NonterminalId) : List Rule → NonterminalId → List NonterminalId
  | [], _ => []
  | first :: rest, n => first.order n ++ owner :: orderAll rest (n + first.sugar.length)

mutual

/-- Each helper is listed once. -/
theorem perm_order : ∀ (rule : Rule) (n : NonterminalId),
    (rule.order n).Perm (numbersFrom n rule.sugar.length)
  | .sequence rules, n => perm_orderAll rules n
  | .alternative first rest, n => by
    have hinner := (perm_order first (n + 1)).append
      (perm_orderAll rest (n + 1 + first.sugar.length))
    rw [← numbersFrom_add] at hinner
    rw [order, sugar, List.length_cons, List.length_append, numbersFrom_succ]
    exact List.perm_middle.trans (hinner.cons n)
  | .repetition rule, n | .option rule, n | .group rule, n => by
    rw [order, sugar, List.length_cons, numbersFrom_succ]
    exact List.perm_append_singleton _ _ |>.trans ((perm_order rule (n + 1)).cons n)
  | .character _, _ | .reference _, _ | .strayReference _, _ | .exclude _ _, _
  | .foreign _, _ => .refl _

theorem perm_orderAll : ∀ (rules : List Rule) (n : NonterminalId),
    (orderAll rules n).Perm (numbersFrom n (sugarAll rules).length)
  | [], _ => .refl _
  | rule :: rest, n => by
    rw [orderAll, sugarAll, List.length_append, numbersFrom_add]
    exact (perm_order rule n).append (perm_orderAll rest _)

end

section

variable {id n owner : NonterminalId} {rule : Rule} {rules : List Rule}
  {keys : List NonterminalId}

theorem mem_order : id ∈ rule.order n ↔ id ∈ numbersFrom n rule.sugar.length :=
  (perm_order rule n).mem_iff

theorem mem_orderAll : id ∈ orderAll rules n ↔ id ∈ numbersFrom n (sugarAll rules).length :=
  (perm_orderAll rules n).mem_iff

theorem orderAll_sublist_choiceOrder :
    (orderAll rules n).Sublist (choiceOrder owner rules n) := by
  cases rules with
  | nil => exact .refl _
  | cons first rest => exact (List.sublist_cons_self owner _).append_left _

theorem mem_choiceOrder (hne : rules ≠ []) :
    id ∈ choiceOrder owner rules n ↔
      id = owner ∨ id ∈ numbersFrom n (sugarAll rules).length := by
  cases rules with
  | nil => exact absurd rfl hne
  | cons first rest =>
    rw [← mem_orderAll]
    simp only [choiceOrder, orderAll, List.mem_append, List.mem_cons, or_left_comm]

theorem lt_succ_of_lt (h : ∀ id ∈ keys, id < n) : ∀ id ∈ keys, id < n + 1 := fun id hid =>
  Int.lt_trans (h id hid) (Int.lt_succ n)

/-- Numbers below those of a rule's nodes stay below the next number with them. -/
theorem lt_of_mem_append_order (h : ∀ id ∈ keys, id < n) :
    ∀ id ∈ keys ++ rule.order n, id < n + rule.sugar.length := by
  intro id hid
  rcases List.mem_append.1 hid with hid | hid
  · have hlt := h id hid
    lia
  · exact (mem_numbersFrom_iff_lt.1 (mem_order.1 hid)).2

theorem not_mem_append_order (h : owner ∉ keys) (hlt : owner < n) :
    owner ∉ keys ++ rule.order n := by
  intro hmem
  have horder := mem_order.1 ((List.mem_append.1 hmem).resolve_left h)
  have hle := (mem_numbersFrom_iff_lt.1 horder).1
  lia

/-! ## Lowering lists helpers in order -/

/-- A node whose productions all come behind its body becomes the last key. -/
theorem keysAfter_node {kind : HelperKind} {definition : String} {body last : List Step}
    (hkeys : ∀ id ∈ keys, id < n)
    (hbody : keysAfter keys body = keys ++ rule.order (n + 1))
    (hlast : ∀ before : List NonterminalId, n ∉ before → keysAfter before last = before ++ [n]) :
    keysAfter keys (.helper n kind definition :: body ++ last) =
      keys ++ (rule.order (n + 1) ++ [n]) := by
  have hnew : n ∉ keys := fun hmem => Int.lt_irrefl n (hkeys n hmem)
  have hbefore : n ∉ keys ++ rule.order (n + 1) := not_mem_append_order hnew (Int.lt_succ n)
  rw [List.cons_append, keysAfter_helper_cons, keysAfter_append, hbody, hlast _ hbefore,
    List.append_assoc]

/-- The owner of choices becomes a key between the first choice and the others. -/
theorem keysAfter_choices {scope : Scope} {first : Rule} {rest : List Rule}
    (hkeys : ∀ id ∈ keys, id < n) (hnew : owner ∉ keys) (hlt : owner < n)
    (hfirst : keysAfter keys (first.lower scope n).steps = keys ++ first.order n)
    (hrest : ∀ before : List NonterminalId, owner ∈ before →
      (∀ id ∈ before, id < n + first.sugar.length) →
      keysAfter before (emitAll scope owner rest (n + first.sugar.length)).1 =
        before ++ orderAll rest (n + first.sugar.length)) :
    keysAfter keys (emitAll scope owner (first :: rest) n).1 =
      keys ++ choiceOrder owner (first :: rest) n := by
  have howner : owner ∈ (keys ++ first.order n) ++ [owner] := by simp
  have hbelow : ∀ id ∈ (keys ++ first.order n) ++ [owner], id < n + first.sugar.length :=
    List.forall_mem_append.2
      ⟨lt_of_mem_append_order hkeys, List.forall_mem_singleton.2 (by lia)⟩
  rw [emitAll, next_lower, keysAfter_append, hfirst,
    keysAfter_emit_of_not_mem (not_mem_append_order hnew hlt), hrest _ howner hbelow, choiceOrder]
  simp

mutual

/-- Lowering a rule makes its helpers keys in their order. -/
theorem keysAfter_lower (scope : Scope) : ∀ (rule : Rule) (n : NonterminalId)
    (keys : List NonterminalId), (∀ id ∈ keys, id < n) →
      keysAfter keys (rule.lower scope n).steps = keys ++ rule.order n
  | .sequence rules, n, keys, h => keysAfter_lowerAll scope rules n keys h
  | .alternative first rest, n, keys, h => by
    have hnew : n ∉ keys := fun hmem => Int.lt_irrefl n (h n hmem)
    exact keysAfter_choices (lt_succ_of_lt h) hnew (Int.lt_succ n)
      (keysAfter_lower scope first (n + 1) keys (lt_succ_of_lt h))
      (keysAfter_emitAll scope n rest _)
  | .repetition rule, n, keys, h => by
    have hbody := keysAfter_lower scope rule (n + 1) keys (lt_succ_of_lt h)
    refine keysAfter_node h hbody fun before hnew => ?_
    rw [keysAfter_emit_of_not_mem hnew]
    exact keysAfter_emit_of_mem (by simp)
  | .option rule, n, keys, h => by
    have hbody := keysAfter_lower scope rule (n + 1) keys (lt_succ_of_lt h)
    refine keysAfter_node h hbody fun before hnew => ?_
    rw [keysAfter_emit_of_not_mem hnew]
    split
    · rfl
    · exact keysAfter_emit_of_mem (by simp)
  | .group rule, n, keys, h => by
    have hbody := keysAfter_lower scope rule (n + 1) keys (lt_succ_of_lt h)
    exact keysAfter_node h hbody fun before hnew => keysAfter_emit_of_not_mem hnew
  | .reference name, n, keys, h => by
    rw [lower]
    cases scope.names.get? name <;> simp [keysAfter, order]
  | .character _, _, _, _ | .strayReference _, _, _, _ | .exclude _ _, _, _, _
  | .foreign _, _, _, _ => by simp [lower, keysAfter, order]

theorem keysAfter_lowerAll (scope : Scope) : ∀ (rules : List Rule) (n : NonterminalId)
    (keys : List NonterminalId), (∀ id ∈ keys, id < n) →
      keysAfter keys (lowerAll scope rules n).steps = keys ++ orderAll rules n
  | [], _, _, _ => (List.append_nil _).symm
  | rule :: rest, n, keys, h => by
    have hrest := keysAfter_lowerAll scope rest (n + rule.sugar.length) (keys ++ rule.order n)
      (lt_of_mem_append_order h)
    rw [lowerAll, next_lower, keysAfter_append, keysAfter_lower scope rule n keys h, hrest,
      orderAll, List.append_assoc]

/-- So do productions for rules, each, when their nonterminal is a key already. -/
theorem keysAfter_emitAll (scope : Scope) (owner : NonterminalId) : ∀ (rules : List Rule)
    (n : NonterminalId) (keys : List NonterminalId), owner ∈ keys → (∀ id ∈ keys, id < n) →
      keysAfter keys (emitAll scope owner rules n).1 = keys ++ orderAll rules n
  | [], _, _, _, _ => (List.append_nil _).symm
  | rule :: rest, n, keys, howner, h => by
    have hmem : owner ∈ keys ++ rule.order n := List.mem_append_left _ howner
    have hrest := keysAfter_emitAll scope owner rest (n + rule.sugar.length)
      (keys ++ rule.order n) hmem (lt_of_mem_append_order h)
    rw [emitAll, next_lower, keysAfter_append, keysAfter_lower scope rule n keys h,
      keysAfter_emit_of_mem hmem, hrest, orderAll, List.append_assoc]

end

/-- Choices of a new nonterminal make it a key, and their helpers. -/
theorem keysAfter_newChoices (scope : Scope) (hne : rules ≠ []) (hkeys : ∀ id ∈ keys, id < n)
    (hnew : owner ∉ keys) (hlt : owner < n) :
    keysAfter keys (emitAll scope owner rules n).1 = keys ++ choiceOrder owner rules n := by
  cases rules with
  | nil => exact absurd rfl hne
  | cons first rest =>
    exact keysAfter_choices hkeys hnew hlt (keysAfter_lower scope first n keys hkeys)
      (keysAfter_emitAll scope owner rest _)

end

end Rule

/-- The nonterminals of definitions in order. The definitions are numbered from `own` on, and the
    nodes that get helpers from `n` on. -/
def definitionOrder : List Definition → NonterminalId → NonterminalId → List NonterminalId
  | [], _, _ => []
  | d :: rest, own, n =>
    Rule.choiceOrder own d.rule.choices n ++
      definitionOrder rest (own + 1) (n + (Rule.sugarAll d.rule.choices).length)

section

variable {definitions front back : List Definition} {d : Definition}
  {names : Table String NonterminalId} {id own n : NonterminalId} {keys : List NonterminalId}

/-- A plan makes the nonterminals of its definitions keys in their order. -/
theorem keysAfter_planAll (hkeys : ∀ id ∈ keys, id < n)
    (hnew : ∀ i < definitions.length, own + (i : Nat) ∉ keys)
    (hlt : own + definitions.length ≤ n)
    (h : NamedFrom names definitions own) :
    keysAfter keys (planAll names definitions n) = keys ++ definitionOrder definitions own n := by
  induction definitions generalizing own n keys with
  | nil => exact (List.append_nil _).symm
  | cons first rest ih =>
    rw [List.length_cons] at hlt hnew
    have hown : own ∉ keys := by simpa using hnew 0 (Nat.succ_pos _)
    have hfirst := Rule.keysAfter_newChoices ⟨names, first.name⟩ first.rule.choices_ne_nil
      hkeys hown (by lia)
    -- The first definition adds its own number and those of its nodes.
    have hadded : ∀ id ∈ Rule.choiceOrder own first.rule.choices n,
        id = own ∨ n ≤ id ∧ id < n + (Rule.sugarAll first.rule.choices).length := by
      intro id hid
      rw [← mem_numbersFrom_iff_lt]
      exact (Rule.mem_choiceOrder first.rule.choices_ne_nil).1 hid
    have hbelow : ∀ id ∈ keys ++ Rule.choiceOrder own first.rule.choices n,
        id < n + (Rule.sugarAll first.rule.choices).length := by
      intro id hid
      rcases List.mem_append.1 hid with hid | hid
      · have hlow := hkeys id hid
        lia
      · have hrange := hadded id hid
        lia
    -- The numbers of later definitions are still no keys.
    have hlater : ∀ i < rest.length,
        own + 1 + (i : Nat) ∉ keys ++ Rule.choiceOrder own first.rule.choices n := by
      intro i hi hmem
      rcases List.mem_append.1 hmem with hmem | hmem
      · have hold := hnew (i + 1) (by lia)
        rw [Nat.cast_add_one, add_comm (i : Int), ← add_assoc] at hold
        exact hold hmem
      · have hrange := hadded _ hmem
        lia
    rw [planAll_cons h.head, keysAfter_append, keysAfter_announce_cons, hfirst, definitionOrder,
      ih hbelow hlater (by lia) h.tail, List.append_assoc]

theorem definitionOrder_append :
    definitionOrder (front ++ back) own n =
      definitionOrder front own n ++
        definitionOrder back (own + front.length) (n + (helperNodes front).length) := by
  induction front generalizing own n with
  | nil => simp [definitionOrder, helperNodes]
  | cons first rest ih =>
    rw [List.cons_append, definitionOrder, ih, add_length_cons, add_length_helperNodes_cons,
      definitionOrder, List.append_assoc]

end

/-! ## Where helpers stand in an order -/

theorem pair_sublist_append {a b : NonterminalId} {front back : List NonterminalId}
    (ha : a ∈ front) (hb : b ∈ back) : [a, b].Sublist (front ++ back) :=
  (List.singleton_sublist.2 ha).append (List.singleton_sublist.2 hb)

theorem mem_numbersFrom_of_getElem? {nodes : List Rule} {node : Rule} {n : NonterminalId} {i : Nat}
    (hi : nodes[i]? = some node) : n + (i : NonterminalId) ∈ numbersFrom n nodes.length :=
  mem_numbersFrom.2 ⟨i, (List.getElem?_eq_some_iff.1 hi).1, rfl⟩

/-- An order of nonterminals lists the helpers of nodes, which are numbered from `n` on: the helpers
    of each node in the order of the node, and a helper ahead of those of nodes to the right. -/
structure Arranged (nodes : List Rule) (n : NonterminalId) (order : List NonterminalId) :
    Prop where
  listed : ∀ id ∈ numbersFrom n nodes.length, id ∈ order
  nested : Numbered (fun id node => (node.order id).Sublist order) nodes n
  leftFirst : Numbered (fun id node => ∀ other, id + node.sugar.length ≤ other →
    other < n + nodes.length → [id, other].Sublist order) nodes n

namespace Arranged

variable {nodes more : List Rule} {node : Rule} {n : NonterminalId}
  {order longer later : List NonterminalId}

theorem nil (n : NonterminalId) (order : List NonterminalId) : Arranged [] n order :=
  ⟨nofun, trivial, trivial⟩

theorem mono (h : Arranged nodes n order) (hle : order.Sublist longer) :
    Arranged nodes n longer where
  listed id hid := hle.subset (h.listed id hid)
  nested := h.nested.mono fun _ _ hnode => hnode.trans hle
  leftFirst := h.leftFirst.mono fun _ _ hnode other hright hother =>
    (hnode other hright hother).trans hle

theorem append (h : Arranged nodes n order) (h' : Arranged more (n + nodes.length) later) :
    Arranged (nodes ++ more) n (order ++ later) where
  listed id hid := by
    rw [List.length_append, numbersFrom_add] at hid
    exact List.mem_append.2 ((List.mem_append.1 hid).imp (h.listed id) (h'.listed id))
  nested := numbered_append.2
    ⟨h.nested.mono fun _ _ hnode => hnode.trans (List.sublist_append_left _ _),
      h'.nested.mono fun _ _ hnode => hnode.trans (List.sublist_append_right _ _)⟩
  leftFirst := by
    rw [List.length_append]
    apply numbered_append.2
    constructor
    · apply numbered_iff.2
      intro i node hi other hright hother
      have hid : n + (i : NonterminalId) ∈ order := h.listed _ (mem_numbersFrom_of_getElem? hi)
      -- A node to the right is among the same nodes, or among those that are appended.
      by_cases hsame : other < n + nodes.length
      · have hpair := numbered_iff.1 h.leftFirst i node hi other hright hsame
        exact hpair.trans (List.sublist_append_left _ _)
      · have hlater : other ∈ numbersFrom (n + nodes.length) more.length :=
          mem_numbersFrom_iff_lt.2 ⟨by lia, by lia⟩
        exact pair_sublist_append hid (h'.listed other hlater)
    · refine h'.leftFirst.mono fun id node hnode other hright hother => ?_
      exact (hnode other hright (by lia)).trans (List.sublist_append_right _ _)

/-- The nodes inside a node come behind it. Nothing is to the right of it among them. -/
theorem cons (h : Arranged nodes (n + 1) order) (hle : order.Sublist longer)
    (hnodes : node.sugar = node :: nodes) (hnode : node.order n = longer) (hmem : n ∈ longer) :
    Arranged (node :: nodes) n longer where
  listed id hid := by
    rw [List.length_cons, numbersFrom_succ] at hid
    rcases List.mem_cons.1 hid with rfl | hid
    · exact hmem
    · exact hle.subset (h.listed id hid)
  nested := ⟨hnode ▸ .refl _, h.nested.mono fun _ _ hinner => hinner.trans hle⟩
  leftFirst := by
    constructor
    · intro other hright hother
      rw [hnodes] at hright
      lia
    · refine h.leftFirst.mono fun id inner hinner other hright hother => ?_
      rw [List.length_cons] at hother
      exact (hinner other hright (by lia)).trans hle

end Arranged

namespace Rule

mutual

theorem arranged_order : ∀ (rule : Rule) (n : NonterminalId),
    Arranged rule.sugar n (rule.order n)
  | .sequence rules, n => arranged_orderAll rules n
  | .alternative first rest, n => by
    have hinner := (arranged_order first (n + 1)).append
      (arranged_orderAll rest (n + 1 + first.sugar.length))
    refine hinner.cons ?_ rfl rfl (by simp [order])
    exact (List.sublist_cons_self n _).append_left _
  | .repetition rule, n | .option rule, n | .group rule, n =>
    (arranged_order rule (n + 1)).cons (List.sublist_append_left _ _) rfl rfl (by simp [order])
  | .character _, n | .reference _, n | .strayReference _, n | .exclude _ _, n | .foreign _, n =>
    .nil n _

theorem arranged_orderAll : ∀ (rules : List Rule) (n : NonterminalId),
    Arranged (sugarAll rules) n (orderAll rules n)
  | [], n => .nil n _
  | rule :: rest, n => (arranged_order rule n).append (arranged_orderAll rest _)

end

end Rule

theorem arranged_definitionOrder {definitions : List Definition} {own n : NonterminalId} :
    Arranged (helperNodes definitions) n (definitionOrder definitions own n) := by
  induction definitions generalizing own n with
  | nil => exact .nil n _
  | cons first rest ih =>
    rw [helperNodes_cons]
    have hfirst := Rule.arranged_orderAll first.rule.choices n
    exact (hfirst.mono Rule.orderAll_sublist_choiceOrder).append ih

/-! ## The order of built stores -/

/-- One nonterminal stands ahead of another in the order of a store. -/
def Store.Precedes (store : Store) (id other : NonterminalId) : Prop :=
  [id, other].Sublist store.keys

/-- The nodes are numbered from `n` on, and their helpers stand ahead of `id`. -/
def Store.AllBefore (store : Store) (definitions : List Definition) (nodes : List Rule)
    (n id : NonterminalId) : Prop :=
  Numbered (fun inner node => Helps definitions inner node ∧ store.Precedes inner id) nodes n

/-- The nodes are numbered from `n` on, and their helpers stand behind `id`. -/
def Store.AllAfter (store : Store) (definitions : List Definition) (nodes : List Rule)
    (n id : NonterminalId) : Prop :=
  Numbered (fun inner node => Helps definitions inner node ∧ store.Precedes id inner) nodes n

/-- The nonterminal is the number of the definition at place `i`, or the helper of a node in the
    tree of that definition. -/
def BelongsTo (definitions : List Definition) (i : Nat) (id : NonterminalId) : Prop :=
  (i < definitions.length ∧ id = i) ∨ ∃ node, HelpsWithin definitions i id node

/-- The node that a nonterminal is the helper of is, or contains, the node with another number. -/
def Contains (definitions : List Definition) (id other : NonterminalId) : Prop :=
  ∃ node, Helps definitions id node ∧ other ∈ numbersFrom id node.sugar.length

section

variable {definitions front back : List Definition} {d : Definition} {store : Store}
  {nodes rest : List Rule} {first rule : Rule} {id other own n : NonterminalId} {i k : Nat}

/-- The order of a store is that of its productions, and so of whatever goes through these. -/
theorem Store.alternatives_eq (store : Store) :
    store.alternatives =
      store.keys.flatMap fun id => (store.productionsOf id).map (id, ·) := by
  rw [alternatives, keys, Table.keys, List.flatMap_map]
  refine List.flatMap_congr fun entry hentry => ?_
  have hget : store.rules.get? entry.1 = some entry.2 := Table.get?_eq_some_iff.2 hentry
  rw [productionsOf, hget]
  rfl

theorem allBefore_of_listed {before after : List NonterminalId}
    (hnodes : Numbered (Helps definitions) nodes n)
    (hbefore : ∀ inner ∈ numbersFrom n nodes.length, inner ∈ before) (hid : id ∈ after)
    (hkeys : (before ++ after).Sublist store.keys) :
    store.AllBefore definitions nodes n id :=
  numbered_iff.2 fun i node hi =>
    have hinner := hbefore _ (mem_numbersFrom_of_getElem? hi)
    ⟨numbered_iff.1 hnodes i node hi, (pair_sublist_append hinner hid).trans hkeys⟩

theorem allAfter_of_listed {before after : List NonterminalId}
    (hnodes : Numbered (Helps definitions) nodes n)
    (hafter : ∀ inner ∈ numbersFrom n nodes.length, inner ∈ after) (hid : id ∈ before)
    (hkeys : (before ++ after).Sublist store.keys) :
    store.AllAfter definitions nodes n id :=
  numbered_iff.2 fun i node hi =>
    have hinner := hafter _ (mem_numbersFrom_of_getElem? hi)
    ⟨numbered_iff.1 hnodes i node hi, (pair_sublist_append hid hinner).trans hkeys⟩

/-- A nonterminal stands behind the helpers of the first choice, and ahead of the others. -/
theorem around_owner (hnodes : Numbered (Helps definitions) (Rule.sugarAll (first :: rest)) n)
    (hkeys : (Rule.choiceOrder own (first :: rest) n).Sublist store.keys) :
    store.AllBefore definitions first.sugar n own ∧
      store.AllAfter definitions (Rule.sugarAll rest) (n + first.sugar.length) own := by
  obtain ⟨hfirst, hrest⟩ := numbered_append.1 hnodes
  have hbehind : ([own] ++ Rule.orderAll rest (n + first.sugar.length)).Sublist store.keys :=
    (List.sublist_append_right _ _).trans hkeys
  exact ⟨allBefore_of_listed hfirst (fun _ => Rule.mem_order.2) List.mem_cons_self hkeys,
    allAfter_of_listed hrest (fun _ => Rule.mem_orderAll.2)
      (List.mem_singleton_self own) hbehind⟩

/-- The order of definitions has that of each. -/
theorem choiceOrder_sublist_definitionOrder (front : List Definition) (d : Definition)
    (back : List Definition) (own n : NonterminalId) :
    (Rule.choiceOrder (own + front.length) d.rule.choices
      (n + (helperNodes front).length)).Sublist (definitionOrder (front ++ d :: back) own n) := by
  rw [definitionOrder_append, definitionOrder]
  exact (List.sublist_append_left _ _).trans (List.sublist_append_right _ _)

/-- What belongs to a definition is listed with it. -/
theorem BelongsTo.listed (h : BelongsTo definitions i id) :
    ∃ front d back, definitions = front ++ d :: back ∧ front.length = i ∧
      id ∈ Rule.choiceOrder front.length d.rule.choices
        (definitions.length + 1 + (helperNodes front).length) := by
  rcases h with ⟨hlt, rfl⟩ | ⟨node, front, d, back, j, hd, rfl, hj, rfl⟩
  · obtain ⟨front, back, hd, rfl⟩ := exists_split (List.getElem?_eq_getElem hlt)
    exact ⟨front, _, back, hd, rfl, (Rule.mem_choiceOrder (Rule.choices_ne_nil _)).2 (.inl rfl)⟩
  · exact ⟨front, d, back, hd, rfl, (Rule.mem_choiceOrder d.rule.choices_ne_nil).2
      (.inr (mem_numbersFrom_of_getElem? hj))⟩

/-- What belongs to a definition is listed ahead of what belongs to one behind it. -/
theorem BelongsTo.pair_sublist (h : BelongsTo definitions i id)
    (h' : BelongsTo definitions k other) (hlt : i < k) :
    [id, other].Sublist (definitionOrder definitions 0 (definitions.length + 1)) := by
  obtain ⟨front, d, back, hd, rfl, hid⟩ := h.listed
  obtain ⟨longer, d', back', hd', rfl, hother⟩ := h'.listed
  -- The first definition is one of those that the second stands behind.
  have hsplit : front ++ d :: back = longer ++ d' :: back' := hd.symm.trans hd'
  have hprefix : front ++ [d] <+: longer :=
    List.prefix_of_prefix_length_le ⟨back, by simp⟩ ⟨_, hsplit.symm⟩
      (by simpa using Nat.succ_le_of_lt hlt)
  obtain ⟨between, hlonger⟩ := hprefix
  rw [List.append_assoc, List.singleton_append] at hlonger
  subst hlonger
  have hfirst := choiceOrder_sublist_definitionOrder front d between 0 (definitions.length + 1)
  rw [zero_add] at hfirst
  rw [hd', definitionOrder_append, ← hd', definitionOrder, zero_add]
  exact pair_sublist_append (hfirst.subset hid) (List.mem_append_left _ hother)

/-- The order of a built store is that of its definitions. -/
theorem keys_eq_definitionOrder (h : (build definitions).result = .ok store) :
    store.keys = definitionOrder definitions 0 (definitions.length + 1) := by
  have filled := Filled.of_build h
  rw [keys_of_build h, keysAfter_planAll (List.forall_mem_nil _)
    (fun _ _ => List.not_mem_nil) (by lia) filled.namedFrom, List.nil_append]

theorem choiceOrder_sublist_keys (h : (build definitions).result = .ok store)
    (hd : definitions = front ++ d :: back) :
    (Rule.choiceOrder front.length d.rule.choices
      (definitions.length + 1 + (helperNodes front).length)).Sublist store.keys := by
  have hsublist := choiceOrder_sublist_definitionOrder front d back 0 (definitions.length + 1)
  rwa [zero_add, ← hd, ← keys_eq_definitionOrder h] at hsublist

/-- The nonterminals of a built store each belong to a definition. -/
theorem mem_keys_iff_belongsTo (h : (build definitions).result = .ok store) :
    id ∈ store.keys ↔ ∃ i, BelongsTo definitions i id := by
  constructor
  · intro hid
    obtain ⟨rule, ⟨i, d, hi, hnumber, _⟩ | hnode⟩ := (Filled.of_build h).mem_keys_iff.1 hid
    · exact ⟨i, .inl ⟨(List.getElem?_eq_some_iff.1 hi).1, hnumber⟩⟩
    · obtain ⟨i, hwithin⟩ := exists_helpsWithin hnode
      exact ⟨i, .inr ⟨rule, hwithin⟩⟩
  · intro ⟨i, hbelongs⟩
    obtain ⟨front, d, back, hd, _, hid⟩ := hbelongs.listed
    exact (choiceOrder_sublist_keys h hd).subset hid

/-- The helpers of a node are listed as the node has them. -/
theorem order_sublist_keys (h : (build definitions).result = .ok store)
    (hnode : Helps definitions id rule) : (rule.order id).Sublist store.keys := by
  rw [keys_eq_definitionOrder h]
  exact arranged_definitionOrder.nested.of_helps hnode

/-- A helper is listed ahead of those to the right of its node. -/
theorem precedes_of_lt (h : (build definitions).result = .ok store) (hid : id ∈ store.synthetic)
    (hother : other ∈ store.synthetic) (hlt : id < other)
    (hapart : ¬ Contains definitions id other) : store.Precedes id other := by
  have filled := Filled.of_build h
  obtain ⟨node, hnode⟩ := filled.mem_synthetic.1 hid
  obtain ⟨i, hi, hplace⟩ := exists_helps_iff.1 (filled.mem_synthetic.1 hother)
  have hright : id + node.sugar.length ≤ other := by
    by_contra hinside
    exact hapart ⟨node, hnode, mem_numbersFrom_iff_lt.2 ⟨Int.le_of_lt hlt, by lia⟩⟩
  rw [Store.Precedes, keys_eq_definitionOrder h]
  exact arranged_definitionOrder.leftFirst.of_helps hnode other hright (by lia)

end

/-- The store that definitions are built into lists each nonterminal once, and its productions in
    the order of the nonterminals. What belongs to a definition comes ahead of what belongs to a
    later one. The number of a definition, and the helper of a choice, come behind the helpers in
    the first choice and ahead of those in the others, and the helper of a repetition, an option or
    brackets behind those in the body. Of two helpers neither of whose nodes contains the other,
    that of the left node comes first. -/
theorem build_keyOrder {definitions : List Definition} {store : Store}
    (h : (build definitions).result = .ok store) :
    store.keys.Nodup ∧ (∀ id, id ∈ store.keys ↔ ∃ i, BelongsTo definitions i id) ∧
    store.keys = definitionOrder definitions 0 (definitions.length + 1) ∧
    (store.alternatives =
      store.keys.flatMap fun id => (store.productionsOf id).map (id, ·)) ∧
    (∀ i k id other, i < k → BelongsTo definitions i id → BelongsTo definitions k other →
      store.Precedes id other) ∧
    (∀ front d back first rest, definitions = front ++ d :: back →
      d.rule.choices = first :: rest →
      let n : NonterminalId := definitions.length + 1 + (helperNodes front).length
      store.AllBefore definitions first.sugar n front.length ∧
        store.AllAfter definitions (Rule.sugarAll rest) (n + first.sugar.length) front.length) ∧
    (∀ id first rest, Helps definitions id (.alternative first rest) →
      store.AllBefore definitions first.sugar (id + 1) id ∧
        store.AllAfter definitions (Rule.sugarAll rest) (id + 1 + first.sugar.length) id) ∧
    (∀ id rule, Helps definitions id (.repetition rule) ∨ Helps definitions id (.option rule) ∨
      Helps definitions id (.group rule) → store.AllBefore definitions rule.sugar (id + 1) id) ∧
    ∀ id other, id ∈ store.synthetic → other ∈ store.synthetic → id < other →
      ¬ Contains definitions id other → store.Precedes id other := by
  refine ⟨store.rules.nodup_keys, fun _ => mem_keys_iff_belongsTo h, keys_eq_definitionOrder h,
    store.alternatives_eq, ?definitions, ?own, ?choice, ?body, fun _ _ => precedes_of_lt h⟩
  case definitions =>
    intro i k id other hlt hid hother
    rw [Store.Precedes, keys_eq_definitionOrder h]
    exact hid.pair_sublist hother hlt
  case own =>
    intro front d back first rest hd hchoices
    have hnodes := Filled.numbered_choices hd
    have hkeys := choiceOrder_sublist_keys h hd
    rw [hchoices] at hnodes hkeys
    exact around_owner hnodes hkeys
  case choice =>
    intro id first rest hnode
    exact around_owner (Filled.numbered_sugar hnode).2 (order_sublist_keys h hnode)
  case body =>
    rintro id rule (hnode | hnode | hnode) <;>
      exact allBefore_of_listed (Filled.numbered_sugar hnode).2 (fun _ => Rule.mem_order.2)
        (List.mem_singleton_self id) (order_sublist_keys h hnode)

/-- In `branchingDefinitions` the brackets 5 are the first choice of 4 and the option 6 the other,
    inside the repetition 3 of the first definition. The helper 7 is in the second choice of the
    second. -/
theorem build_keyOrder_branchingDefinitions :
    (build branchingDefinitions).result = .ok branchingStore ∧
      branchingStore.keys = [5, 4, 6, 3, 0, 1, 7] ∧ branchingStore.Precedes 5 4 ∧
      branchingStore.Precedes 4 6 ∧ branchingStore.Precedes 6 3 ∧ branchingStore.Precedes 5 6 ∧
      branchingStore.Precedes 3 1 ∧ branchingStore.Precedes 1 7 := by
  have h : (build branchingDefinitions).result = .ok branchingStore := by decide +kernel
  have hrepetition : Helps branchingDefinitions 3 (.repetition (.alternative
      (.group (.reference "b")) [.option (.character 'x')])) := ⟨0, rfl, rfl⟩
  have hchoice : Helps branchingDefinitions 4 (.alternative (.group (.reference "b"))
      [.option (.character 'x')]) := ⟨1, rfl, rfl⟩
  have hgroup : StandsFor branchingDefinitions 5 (.group (.reference "b")) := .inr ⟨2, rfl, rfl⟩
  have hnone : 6 ∉ numbersFrom 5 (Rule.group (.reference "b")).sugar.length := by decide
  obtain ⟨_, _, hkeys, _, hdefinitions, hown, hchoices, hbodies, hleft⟩ := build_keyOrder h
  obtain ⟨⟨⟨_, hfirst⟩, _⟩, ⟨_, hlater⟩, _⟩ := hchoices 4 _ _ hchoice
  obtain ⟨_, _, ⟨_, hbody⟩, _⟩ := hbodies 3 _ (.inl hrepetition)
  obtain ⟨_, ⟨_, hlast⟩, _⟩ := hown (branchingDefinitions.take 1) _ [] _ _ rfl rfl
  have hapart : ¬ Contains branchingDefinitions 5 6 := by
    intro ⟨node, hnode, hinside⟩
    rw [hgroup.unique (.inr hnode)] at hnone
    exact hnone hinside
  have hfive := hleft 5 6 (by decide +kernel) (by decide +kernel) (by decide) hapart
  have hacross := hdefinitions 0 1 3 1 Nat.one_pos (.inr ⟨_, [], _, _, 0, rfl, rfl, rfl, rfl⟩)
    (.inl ⟨by decide, rfl⟩)
  exact ⟨h, hkeys, hfirst, hlater, hbody, hfive, hacross, hlast⟩

end FirstFollow
