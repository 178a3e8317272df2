import Mathlib.Data.List.Nodup
import Mathlib.Logic.Relation
import FirstFollow.Proofs.Productions

/-!
# Where helpers are used

A helper stands in one place: in a production of the nonterminal whose rule has its node, outside
all other nodes that get helpers (`Rule.links`). Its own productions hold it only if it stands for
a repetition. So each helper has one owner, with a smaller number, and owners lead from it to the
definition that has its node in its tree (`build_ownership`).
-/

namespace FirstFollow

/-! ## Counting occurrences -/

/-- How often a nonterminal occurs in productions. -/
def timesIn (id : NonterminalId) (productions : List Production) : Nat :=
  productions.flatten.count (.nonterminal id)

section

variable {id : NonterminalId} {production : Production} {productions more : List Production}
  {symbols : List Symbol}

@[simp] theorem timesIn_nil : timesIn id [] = 0 := rfl

@[simp] theorem timesIn_cons :
    timesIn id (production :: productions) =
      production.count (.nonterminal id) + timesIn id productions :=
  List.count_append

@[simp] theorem timesIn_append :
    timesIn id (productions ++ more) = timesIn id productions + timesIn id more := by
  simp [timesIn]

@[simp] theorem count_spell :
    (spell symbols).count (.nonterminal id) = symbols.count (.nonterminal id) := by
  cases symbols <;> simp [spell]

end

namespace Rule

/-! ## The owners of helpers -/

mutual

/-- The helpers of a rule in a production of `owner`, each behind the nonterminal in whose
    productions it stands, with `n` the number of the first. -/
def links (owner : NonterminalId) :
    Rule → NonterminalId → List (NonterminalId × NonterminalId)
  | .sequence rules, n => linksAll owner rules n
  | .alternative first rest, n =>
    (owner, n) :: (first.links n (n + 1) ++ linksAll n rest (n + 1 + first.sugar.length))
  | .repetition rule, n => (owner, n) :: rule.links n (n + 1)
  | .option rule, n => (owner, n) :: rule.links n (n + 1)
  | .group rule, n => (owner, n) :: rule.links n (n + 1)
  | _, _ => []

/-- The helpers of rules one after another. -/
def linksAll (owner : NonterminalId) :
    List Rule → NonterminalId → List (NonterminalId × NonterminalId)
  | [], _ => []
  | rule :: rest, n => rule.links owner n ++ linksAll owner rest (n + rule.sugar.length)

end

mutual

/-- Every helper has one owner. -/
theorem map_snd_links : ∀ (rule : Rule) (owner n : NonterminalId),
    (rule.links owner n).map Prod.snd = numbersFrom n rule.sugar.length
  | .sequence rules, owner, n => map_snd_linksAll rules owner n
  | .alternative first rest, owner, n => by
    simp only [links, sugar, List.map_cons, List.map_append, List.length_cons, List.length_append,
      numbersFrom_succ, numbersFrom_add, map_snd_links first, map_snd_linksAll rest]
  | .repetition rule, owner, n | .option rule, owner, n | .group rule, owner, n => by
    simp only [links, sugar, List.map_cons, List.length_cons, numbersFrom_succ,
      map_snd_links rule]
  | .character _, _, _ | .reference _, _, _ | .strayReference _, _, _ | .exclude _ _, _, _
  | .foreign _, _, _ => rfl

theorem map_snd_linksAll : ∀ (rules : List Rule) (owner n : NonterminalId),
    (linksAll owner rules n).map Prod.snd = numbersFrom n (sugarAll rules).length
  | [], _, _ => rfl
  | rule :: rest, owner, n => by
    simp only [linksAll, sugarAll, List.map_append, List.length_append, numbersFrom_add,
      map_snd_links rule, map_snd_linksAll rest]

end

section

variable {names : Table String NonterminalId} {id helper owner n : NonterminalId}
  {link : NonterminalId × NonterminalId} {rule : Rule} {rules : List Rule}
  {R : NonterminalId → NonterminalId → Prop}

theorem le_of_mem_links (h : link ∈ rule.links owner n) : n ≤ link.2 := by
  have hmem := List.mem_map_of_mem (f := Prod.snd) h
  rw [map_snd_links] at hmem
  exact (mem_numbersFrom_iff_lt.1 hmem).1

mutual

/-- An owner has a smaller number than its helpers. -/
theorem lt_of_mem_links : ∀ (rule : Rule) {owner n : NonterminalId}, owner < n →
    ∀ link ∈ rule.links owner n, link.1 < link.2
  | .sequence rules, _, _, hlt => lt_of_mem_linksAll rules hlt
  | .alternative first rest, _, n, hlt => by
    have hfirst := lt_of_mem_links first (Int.lt_succ n)
    have hrest : ∀ link ∈ linksAll n rest (n + 1 + first.sugar.length), link.1 < link.2 :=
      lt_of_mem_linksAll rest (by lia)
    exact List.forall_mem_cons.2 ⟨hlt, List.forall_mem_append.2 ⟨hfirst, hrest⟩⟩
  | .repetition rule, _, n, hlt | .option rule, _, n, hlt | .group rule, _, n, hlt =>
    List.forall_mem_cons.2 ⟨hlt, lt_of_mem_links rule (Int.lt_succ n)⟩
  | .character _, _, _, _ | .reference _, _, _, _ | .strayReference _, _, _, _
  | .exclude _ _, _, _, _ | .foreign _, _, _, _ => List.forall_mem_nil _

theorem lt_of_mem_linksAll : ∀ (rules : List Rule) {owner n : NonterminalId}, owner < n →
    ∀ link ∈ linksAll owner rules n, link.1 < link.2
  | [], _, _, _ => List.forall_mem_nil _
  | rule :: rest, _, _, hlt => by
    exact List.forall_mem_append.2
      ⟨lt_of_mem_links rule hlt, lt_of_mem_linksAll rest (by lia)⟩

end

/-- The helpers inside a node lead to it, and it to its owner. -/
theorem leads_of_node {links : List (NonterminalId × NonterminalId)}
    (hnode : R n owner)
    (hlinks : ∀ link ∈ links, Relation.ReflTransGen R link.2 n) :
    ∀ link ∈ (owner, n) :: links, Relation.ReflTransGen R link.2 owner :=
  List.forall_mem_cons.2 ⟨.single hnode, fun link hlink => (hlinks link hlink).tail hnode⟩

mutual

/-- From each helper of a rule, owners lead to the owner of the rule. -/
theorem leads_links : ∀ (rule : Rule) (owner n : NonterminalId),
    (∀ link ∈ rule.links owner n, R link.2 link.1) →
      ∀ link ∈ rule.links owner n, Relation.ReflTransGen R link.2 owner
  | .sequence rules, owner, n, h => leads_linksAll rules owner n h
  | .alternative first rest, _, n, h => by
    obtain ⟨hnode, hinner⟩ := List.forall_mem_cons.1 h
    obtain ⟨hfirst, hrest⟩ := List.forall_mem_append.1 hinner
    exact leads_of_node hnode (List.forall_mem_append.2
      ⟨leads_links first n (n + 1) hfirst, leads_linksAll rest n _ hrest⟩)
  | .repetition rule, _, n, h | .option rule, _, n, h | .group rule, _, n, h => by
    obtain ⟨hnode, hinner⟩ := List.forall_mem_cons.1 h
    exact leads_of_node hnode (leads_links rule n (n + 1) hinner)
  | .character _, _, _, _ | .reference _, _, _, _ | .strayReference _, _, _, _
  | .exclude _ _, _, _, _ | .foreign _, _, _, _ => List.forall_mem_nil _

theorem leads_linksAll : ∀ (rules : List Rule) (owner n : NonterminalId),
    (∀ link ∈ linksAll owner rules n, R link.2 link.1) →
      ∀ link ∈ linksAll owner rules n, Relation.ReflTransGen R link.2 owner
  | [], _, _, _ => List.forall_mem_nil _
  | rule :: rest, owner, n, h => by
    obtain ⟨hrule, hrest⟩ := List.forall_mem_append.1 h
    exact List.forall_mem_append.2 ⟨leads_links rule owner n hrule, leads_linksAll rest owner _ hrest⟩

end

/-! ## Productions hold helpers as they are linked -/

theorem timesIn_choiceProductions :
    timesIn helper (choiceProductions names rules n) =
      (flatAll names rules n).count (.nonterminal helper) := by
  induction rules generalizing n with
  | nil => rfl
  | cons rule rest ih =>
    simp only [choiceProductions, flatAll, timesIn_cons, count_spell, List.count_append, ih]

/-- A node adds its helper to the production at hand, and what its body adds to the helper's own
    productions. -/
theorem count_node {inner : List (NonterminalId × NonterminalId)} {node : Rule}
    {nodes : List Rule} {symbols : List Symbol} (hid : id ≠ helper)
    (hnode : n ≠ helper → timesIn helper (node.encoding names n) =
      symbols.count (.nonterminal helper))
    (hbody : (if n = id then symbols.count (.nonterminal helper) else 0) +
      timesIn helper (encodings names id nodes (n + 1)) = inner.count (id, helper)) :
    (if owner = id then [Symbol.nonterminal n].count (.nonterminal helper) else 0) +
        timesIn helper (encodings names id (node :: nodes) n) =
      ((owner, n) :: inner).count (id, helper) := by
  have hown : timesIn helper (if n = id then node.encoding names n else []) =
      if n = id then symbols.count (.nonterminal helper) else 0 := by
    split
    · rename_i hn
      exact hnode (hn ▸ hid)
    · rfl
  have hlink : (if owner = id then [Symbol.nonterminal n].count (.nonterminal helper) else 0) =
      if (owner, n) == (id, helper) then 1 else 0 := by
    by_cases howner : owner = id <;> simp [howner, List.count_singleton]
  rw [encodings, timesIn_append, hown, hbody, hlink, List.count_cons, add_comm]

mutual

/-- Lowering a rule puts each helper once into the productions of its owner, and otherwise only into
    its own. -/
theorem count_links (hnames : ∀ name, names.get? name ≠ some helper) (hid : id ≠ helper) :
    ∀ (rule : Rule) (owner n : NonterminalId),
      (if owner = id then (rule.flat names n).count (.nonterminal helper) else 0) +
          timesIn helper (encodings names id rule.sugar n) =
        (rule.links owner n).count (id, helper)
  | .sequence rules, owner, n => count_linksAll hnames hid rules owner n
  | .alternative first rest, owner, n => by
    have hbody := count_linksAll hnames hid (first :: rest) n (n + 1)
    exact count_node hid (fun _ => timesIn_choiceProductions) hbody
  | .repetition rule, owner, n => by
    refine count_node hid (fun hne => ?_) (count_links hnames hid rule n (n + 1))
    simp [encoding, hne]
  | .option rule, owner, n => by
    refine count_node hid (fun _ => ?_) (count_links hnames hid rule n (n + 1))
    rw [encoding]
    split <;> simp [*]
  | .group rule, owner, n => by
    refine count_node hid (fun _ => ?_) (count_links hnames hid rule n (n + 1))
    simp [encoding]
  | .character _, owner, n => by simp [flat, sugar, encodings, links]
  | .reference name, owner, n => by
    have hflat : ((reference name).flat names n).count (.nonterminal helper) = 0 := by
      rw [flat]
      cases hget : names.get? name with
      | none => rfl
      | some other =>
        have hne : other ≠ helper := fun h => hnames name (h ▸ hget)
        simp [hne]
    simp [hflat, sugar, encodings, links]
  | .strayReference _, owner, n | .exclude _ _, owner, n | .foreign _, owner, n => by
    simp [flat, sugar, encodings, links]

theorem count_linksAll (hnames : ∀ name, names.get? name ≠ some helper) (hid : id ≠ helper) :
    ∀ (rules : List Rule) (owner n : NonterminalId),
      (if owner = id then (flatAll names rules n).count (.nonterminal helper) else 0) +
          timesIn helper (encodings names id (sugarAll rules) n) =
        (linksAll owner rules n).count (id, helper)
  | [], owner, n => by simp [flatAll, sugarAll, encodings, linksAll]
  | rule :: rest, owner, n => by
    have hrule := count_links hnames hid rule owner n
    have hrest := count_linksAll hnames hid rest owner (n + rule.sugar.length)
    rw [flatAll, sugarAll, linksAll, List.count_append, encodings_append, timesIn_append,
      List.count_append, ← hrule, ← hrest]
    split <;> omega

end

/-- Choices of `owner` hold helpers as those are linked. -/
theorem timesIn_emitAll (hnames : ∀ name, names.get? name ≠ some helper) (hid : id ≠ helper)
    (definition : String) (hlt : owner < n) :
    timesIn helper (emitted id (emitAll ⟨names, definition⟩ owner rules n).1) =
      (linksAll owner rules n).count (id, helper) := by
  rw [emitted_emitAll _ id rules n hlt, ← count_linksAll hnames hid]
  split
  · rename_i howned
    rw [timesIn_choiceProductions, encodings_of_lt (by lia), timesIn_nil, add_zero]
  · rw [zero_add]

/-- A rule holds no helper with a smaller number than those of its nodes. -/
theorem not_mem_flat (hnames : ∀ name, names.get? name ≠ some helper) (hlt : helper < n) :
    .nonterminal helper ∉ rule.flat names n := by
  have hid : helper - 1 ≠ helper := by lia
  have hcount := count_links hnames hid rule (helper - 1) n
  have hlinks : (rule.links (helper - 1) n).count (helper - 1, helper) = 0 :=
    List.count_eq_zero.2 fun hmem => by
      have hle := le_of_mem_links hmem
      lia
  rw [if_pos rfl, hlinks] at hcount
  exact List.count_eq_zero.1 (Nat.eq_zero_of_add_eq_zero_right hcount)

/-- A helper that stands for no repetition is not in its own productions. -/
theorem timesIn_encoding_self (hnames : ∀ name, names.get? name ≠ some helper)
    (hnode : ∀ body, rule ≠ .repetition body) :
    timesIn helper (rule.encoding names helper) = 0 := by
  have hflat : ∀ body : Rule, (body.flat names (helper + 1)).count (.nonterminal helper) = 0 :=
    fun body => List.count_eq_zero.2 (not_mem_flat hnames (Int.lt_succ helper))
  cases rule with
  | alternative first rest =>
    exact timesIn_choiceProductions.trans (hflat (.sequence (first :: rest)))
  | repetition body => exact absurd rfl (hnode body)
  | option body =>
    rw [encoding]
    split <;> simp [hflat]
  | group body => simp [encoding, hflat]
  | _ => rfl

end

end Rule

/-! ## The helpers of definitions -/

/-- The helpers of definitions, each behind its owner. The definitions are numbered from `own` on,
    and the helpers from `n` on. -/
def definitionLinks :
    List Definition → NonterminalId → NonterminalId → List (NonterminalId × NonterminalId)
  | [], _, _ => []
  | d :: rest, own, n =>
    Rule.linksAll own d.rule.choices n ++
      definitionLinks rest (own + 1) (n + (Rule.sugarAll d.rule.choices).length)

section

variable {definitions front back : List Definition} {d : Definition}
  {names : Table String NonterminalId} {id helper own n : NonterminalId}

theorem map_snd_definitionLinks :
    (definitionLinks definitions own n).map Prod.snd =
      numbersFrom n (helperNodes definitions).length := by
  induction definitions generalizing own n with
  | nil => rfl
  | cons first rest ih =>
    simp only [definitionLinks, helperNodes_cons, List.map_append, List.length_append,
      numbersFrom_add, Rule.map_snd_linksAll, ih]

theorem lt_of_mem_definitionLinks (hlt : own + definitions.length ≤ n) :
    ∀ link ∈ definitionLinks definitions own n, link.1 < link.2 := by
  induction definitions generalizing own n with
  | nil => exact List.forall_mem_nil _
  | cons first rest ih =>
    rw [List.length_cons] at hlt
    exact List.forall_mem_append.2 ⟨Rule.lt_of_mem_linksAll _ (by lia), ih (by lia)⟩

theorem linksAll_subset_definitionLinks (front : List Definition) (d : Definition)
    (back : List Definition) (own n : NonterminalId) :
    Rule.linksAll (own + front.length) d.rule.choices (n + (helperNodes front).length) ⊆
      definitionLinks (front ++ d :: back) own n := by
  induction front generalizing own n with
  | nil =>
    simp only [List.length_nil, helperNodes, List.flatMap_nil, Nat.cast_zero, add_zero]
    exact List.subset_append_left _ _
  | cons first front ih =>
    rw [add_length_cons, add_length_helperNodes_cons]
    exact List.subset_append_of_subset_right _ (ih _ _)

/-- A plan puts helpers into productions as they are linked. -/
theorem timesIn_planAll (hnames : ∀ name, names.get? name ≠ some helper) (hid : id ≠ helper)
    (hlt : own + definitions.length ≤ n)
    (h : NamedFrom names definitions own) :
    timesIn helper (emitted id (planAll names definitions n)) =
      (definitionLinks definitions own n).count (id, helper) := by
  induction definitions generalizing own n with
  | nil => rfl
  | cons first rest ih =>
    rw [List.length_cons] at hlt
    have hfirst : timesIn helper
        (emitted id (Rule.emitAll ⟨names, first.name⟩ own first.rule.choices n).1) =
          (Rule.linksAll own first.rule.choices n).count (id, helper) :=
      Rule.timesIn_emitAll hnames hid first.name (by lia)
    have hrest := ih (n := n + (Rule.sugarAll first.rule.choices).length) (by lia) h.tail
    rw [planAll_cons h.head, emitted_append, emitted_announce_cons, timesIn_append, hfirst, hrest,
      definitionLinks, List.count_append]

end

/-! ## The helpers of built stores -/

/-- How often a nonterminal occurs in the productions of another, or in its own. -/
def Store.uses (store : Store) (owner id : NonterminalId) : Nat :=
  timesIn id (store.productionsOf owner)

/-- A nonterminal occurs once in the productions of all others, in those of `owner`. -/
structure Store.UsedOnceIn (store : Store) (owner id : NonterminalId) : Prop where
  ne : owner ≠ id
  once : store.uses owner id = 1
  elsewhere : ∀ other, other ≠ owner → other ≠ id → store.uses other id = 0

/-- The other nonterminal has the helper in its productions. -/
def Store.OwnedBy (store : Store) (id owner : NonterminalId) : Prop :=
  id ∈ store.synthetic ∧ owner ≠ id ∧ 0 < store.uses owner id

/-- The definition at place `i` has in its tree the node that the nonterminal is the helper of. -/
def HelpsWithin (definitions : List Definition) (i : Nat) (id : NonterminalId) (node : Rule) :
    Prop :=
  ∃ front d back j, definitions = front ++ d :: back ∧ front.length = i ∧
    (Rule.sugarAll d.rule.choices)[j]? = some node ∧
    id = definitions.length + 1 + (helperNodes front).length + (j : Nat)

section

variable {definitions : List Definition} {store : Store} {node : Rule} {i : Nat}
  {id owner other : NonterminalId}

theorem Store.UsedOnceIn.ownedBy_iff (h : store.UsedOnceIn owner id) (hid : id ∈ store.synthetic) :
    store.OwnedBy id other ↔ other = owner := by
  constructor
  · intro ⟨_, hne, huses⟩
    by_contra hother
    rw [h.elsewhere other hother hne] at huses
    exact Nat.lt_irrefl 0 huses
  · intro hother
    subst hother
    exact ⟨hid, h.ne, by rw [h.once]; exact Nat.one_pos⟩

theorem exists_helpsWithin (h : Helps definitions id node) :
    ∃ i, HelpsWithin definitions i id node := by
  obtain ⟨k, hk, rfl⟩ := h
  obtain ⟨front, d, back, j, hd, hj, rfl⟩ := exists_block hk
  exact ⟨front.length, front, d, back, j, hd, rfl, hj, by push_cast; lia⟩

namespace Filled

/-- The number of a helper is not that of a name. -/
theorem get?_ne_helper (h : Filled definitions store) (hid : id ∈ store.synthetic)
    (name : String) : store.names.get? name ≠ some id := by
  intro hget
  obtain ⟨k, d, hk, _, rfl⟩ := (h.named name id).1 hget
  obtain ⟨hlt, _⟩ := List.getElem?_eq_some_iff.1 hk
  obtain ⟨node, j, _, hj⟩ := h.mem_synthetic.1 hid
  lia

theorem not_mem_named (h : Filled definitions store) (hid : id ∈ store.synthetic) :
    id ∉ store.named := by
  intro hnamed
  rw [Store.named, SortedSet.mem_ofList, Table.mem_values_iff] at hnamed
  obtain ⟨name, hget⟩ := hnamed
  exact h.get?_ne_helper hid name hget

theorem uses_eq (h : Filled definitions store) (hid : id ∈ store.synthetic) (hne : owner ≠ id) :
    store.uses owner id =
      (definitionLinks definitions 0 (definitions.length + 1)).count (owner, id) := by
  rw [Store.uses, h.productions]
  exact timesIn_planAll (h.get?_ne_helper hid) hne (by lia) h.namedFrom

/-- A helper is linked to one owner. -/
theorem exists_link (h : Filled definitions store) (hid : id ∈ store.synthetic) :
    ∃ owner, (owner, id) ∈ definitionLinks definitions 0 (definitions.length + 1) := by
  have hmem : id ∈ (definitionLinks definitions 0 (definitions.length + 1)).map Prod.snd := by
    rw [map_snd_definitionLinks, mem_numbersFrom, ← exists_helps_iff]
    exact h.mem_synthetic.1 hid
  obtain ⟨link, hlink, rfl⟩ := List.mem_map.1 hmem
  exact ⟨link.1, hlink⟩

theorem lt_of_link {link : NonterminalId × NonterminalId}
    (hlink : link ∈ definitionLinks definitions 0 (definitions.length + 1)) : link.1 < link.2 :=
  lt_of_mem_definitionLinks (by lia) link hlink

theorem usedOnceIn_of_link (h : Filled definitions store) (hid : id ∈ store.synthetic)
    (hlink : (owner, id) ∈ definitionLinks definitions 0 (definitions.length + 1)) :
    store.UsedOnceIn owner id := by
  have hne : owner ≠ id := Int.ne_of_lt (lt_of_link hlink)
  have hnodup : ((definitionLinks definitions 0 (definitions.length + 1)).map Prod.snd).Nodup := by
    rw [map_snd_definitionLinks]
    exact pairwise_numbersFrom.imp Int.ne_of_lt
  refine ⟨hne, ?_, fun other hother hne => ?_⟩
  · rw [h.uses_eq hid hne]
    exact List.count_eq_one_of_mem hnodup.of_map hlink
  · rw [h.uses_eq hid hne]
    apply List.count_eq_zero.2
    intro hmem
    exact hother (congrArg Prod.fst (List.inj_on_of_nodup_map hnodup hmem hlink rfl))

theorem ownedBy_of_link (h : Filled definitions store) (hid : id ∈ store.synthetic)
    (hlink : (owner, id) ∈ definitionLinks definitions 0 (definitions.length + 1)) :
    store.OwnedBy id owner :=
  ((h.usedOnceIn_of_link hid hlink).ownedBy_iff hid).2 rfl

/-- A helper has an owner, which has a smaller number, and no other. -/
theorem exists_owner (h : Filled definitions store) (hid : id ∈ store.synthetic) :
    ∃ owner < id, store.UsedOnceIn owner id := by
  obtain ⟨owner, hlink⟩ := h.exists_link hid
  exact ⟨owner, lt_of_link hlink, h.usedOnceIn_of_link hid hlink⟩

theorem lt_of_ownedBy (h : Filled definitions store) (howned : store.OwnedBy id owner) :
    owner < id := by
  obtain ⟨other, hlt, hused⟩ := h.exists_owner howned.1
  rw [(hused.ownedBy_iff howned.1).1 howned]
  exact hlt

theorem rightUnique_ownedBy (h : Filled definitions store) :
    Relator.RightUnique store.OwnedBy := by
  intro id owner other howner hother
  obtain ⟨only, _, hused⟩ := h.exists_owner howner.1
  rw [(hused.ownedBy_iff howner.1).1 howner, (hused.ownedBy_iff hother.1).1 hother]

/-- Owners lead from a helper to the definition that has its node. -/
theorem leads_to_definition (h : Filled definitions store)
    (hwithin : HelpsWithin definitions i id node) :
    Relation.ReflTransGen store.OwnedBy id i := by
  obtain ⟨front, d, back, j, hd, rfl, hj, rfl⟩ := hwithin
  let n : NonterminalId := definitions.length + 1 + (helperNodes front).length
  have hlinks : Rule.linksAll front.length d.rule.choices n ⊆
      definitionLinks definitions 0 (definitions.length + 1) := by
    have hsubset := linksAll_subset_definitionLinks front d back 0 (definitions.length + 1)
    rwa [zero_add, ← hd] at hsubset
  have howned : ∀ link ∈ Rule.linksAll front.length d.rule.choices n,
      store.OwnedBy link.2 link.1 := by
    intro link hlink
    have hmem := List.mem_map_of_mem (f := Prod.snd) (hlinks hlink)
    rw [map_snd_definitionLinks, mem_numbersFrom, ← exists_helps_iff, ← h.mem_synthetic] at hmem
    exact h.ownedBy_of_link hmem (hlinks hlink)
  have hmem : n + (j : Nat) ∈ (Rule.linksAll front.length d.rule.choices n).map Prod.snd := by
    rw [Rule.map_snd_linksAll, mem_numbersFrom]
    exact ⟨j, (List.getElem?_eq_some_iff.1 hj).1, rfl⟩
  obtain ⟨link, hlink, hid⟩ := List.mem_map.1 hmem
  have hleads := Rule.leads_linksAll _ _ _ howned link hlink
  rwa [hid] at hleads

theorem mem_named_of_helpsWithin (h : Filled definitions store)
    (hwithin : HelpsWithin definitions i id node) : (i : NonterminalId) ∈ store.named := by
  obtain ⟨front, d, back, _, hd, rfl, _⟩ := hwithin
  exact h.mem_named_iff.2 ⟨front.length, d, by simp [hd], rfl⟩

/-- A definition has no owner. -/
theorem eq_of_leads (h : Filled definitions store) (hid : id ∈ store.named)
    (hleads : Relation.ReflTransGen store.OwnedBy id other) : id = other := by
  cases hleads.cases_head with
  | inl heq => exact heq
  | inr hstep =>
    obtain ⟨_, howned, _⟩ := hstep
    exact absurd hid (h.not_mem_named howned.1)

/-- Owners lead nowhere else. -/
theorem leads_on_to_definition (h : Filled definitions store) {root last : NonterminalId}
    (hroot : root ∈ store.named) (hleads : Relation.ReflTransGen store.OwnedBy id root)
    (hlast : Relation.ReflTransGen store.OwnedBy id last) :
    Relation.ReflTransGen store.OwnedBy last root := by
  rcases Relation.ReflTransGen.total_of_right_unique h.rightUnique_ownedBy hlast hleads with
    hon | hback
  · exact hon
  · rw [h.eq_of_leads hroot hback]

/-- The productions of a helper hold it only when it stands for a repetition. -/
theorem uses_self (h : Filled definitions store) (hnode : Helps definitions id node) :
    (∀ rule, node = .repetition rule → ∃ body, .nonterminal id ∉ body ∧
      store.productions id = .ok [body ++ [.nonterminal id], [.empty]]) ∧
    ((∀ rule, node ≠ .repetition rule) → store.uses id id = 0) := by
  have hid := h.mem_synthetic.2 ⟨node, hnode⟩
  have hnot : ∀ rule : Rule, .nonterminal id ∉ rule.flat store.names (id + 1) := fun rule =>
    Rule.not_mem_flat (h.get?_ne_helper hid) (Int.lt_succ id)
  constructor
  · rintro rule rfl
    refine ⟨rule.flat store.names (id + 1), hnot rule, ?_⟩
    rw [h.productions_eq_ok (h.mem_keys_iff.2 ⟨_, .inr hnode⟩), h.emitted_helper hnode]
    rfl
  · intro hne
    rw [Store.uses, h.productions, h.emitted_helper hnode]
    exact Rule.timesIn_encoding_self (h.get?_ne_helper hid) hne

end Filled

end

/-- In the store that definitions are built into, each helper occurs once in the productions of
    other nonterminals, and in its own only if it stands for a repetition, at the end of the first.
    So it has one owner, with a smaller number, and following owners from it ends at the definition
    that has its node, and at no other name. -/
theorem build_ownership {definitions : List Definition} {store : Store}
    (h : (build definitions).result = .ok store) :
    (∀ id ∈ store.synthetic, ∃ (node : Rule) (i : Nat), Helps definitions id node ∧
      HelpsWithin definitions i id node ∧
      (∃ owner < id, store.UsedOnceIn owner id) ∧
      (∀ rule, node = .repetition rule → ∃ body, .nonterminal id ∉ body ∧
        store.productions id = .ok [body ++ [.nonterminal id], [.empty]]) ∧
      ((∀ rule, node ≠ .repetition rule) → store.uses id id = 0) ∧
      (i : NonterminalId) ∈ store.named ∧ Relation.ReflTransGen store.OwnedBy id i ∧
      ∀ last, Relation.ReflTransGen store.OwnedBy id last →
        Relation.ReflTransGen store.OwnedBy last i ∧ (last ∈ store.named → last = i)) ∧
    ∀ id owner, store.OwnedBy id owner → owner < id := by
  have filled := Filled.of_build h
  refine ⟨fun id hid => ?_, fun id owner => filled.lt_of_ownedBy⟩
  obtain ⟨node, hnode⟩ := filled.mem_synthetic.1 hid
  obtain ⟨i, hwithin⟩ := exists_helpsWithin hnode
  obtain ⟨hrepetition, hother⟩ := filled.uses_self hnode
  have hleads := filled.leads_to_definition hwithin
  have hnamed := filled.mem_named_of_helpsWithin hwithin
  refine ⟨node, i, hnode, hwithin, filled.exists_owner hid, hrepetition, hother, hnamed, hleads,
    fun last hlast => ⟨filled.leads_on_to_definition hnamed hleads hlast, fun hname => ?_⟩⟩
  exact filled.eq_of_leads hname (filled.leads_on_to_definition hnamed hleads hlast)

/-- A choice that is repeated, with brackets and an option in it, and a choice at the top of a
    definition. -/
def branchingDefinitions : List Definition :=
  [⟨"a", .repetition (.alternative (.group (.reference "b")) [.option (.character 'x')])⟩,
    ⟨"b", .alternative (.reference "a") [.repetition (.sequence [])]⟩]

/-- The store that `branchingDefinitions` are built into. -/
def branchingStore : Store :=
  (build branchingDefinitions).result.toOption.getD default

/-- The helper 6 stands for the option in `branchingDefinitions`. It is used for the choice 4, which
    is used for the repetition 3 of the first definition. -/
theorem build_ownership_branchingDefinitions :
    (build branchingDefinitions).result = .ok branchingStore ∧ 6 ∈ branchingStore.synthetic ∧
      branchingStore.UsedOnceIn 4 6 ∧ branchingStore.OwnedBy 4 3 ∧ branchingStore.OwnedBy 3 0 ∧
      branchingStore.uses 3 3 = 1 ∧
      ∀ last, Relation.ReflTransGen branchingStore.OwnedBy 6 last →
        Relation.ReflTransGen branchingStore.OwnedBy last 0 := by
  have h : (build branchingDefinitions).result = .ok branchingStore := by decide +kernel
  have hid : 6 ∈ branchingStore.synthetic := by decide +kernel
  have hchoice : branchingStore.OwnedBy 6 4 := ⟨hid, by decide, by decide +kernel⟩
  have hrepetition : branchingStore.OwnedBy 4 3 := ⟨by decide +kernel, by decide, by decide +kernel⟩
  have hdefinition : branchingStore.OwnedBy 3 0 := ⟨by decide +kernel, by decide, by decide +kernel⟩
  have hnamed : 0 ∈ branchingStore.named := by decide +kernel
  have hself : branchingStore.uses 3 3 = 1 := by decide +kernel
  obtain ⟨hhelpers, _⟩ := build_ownership h
  obtain ⟨_, i, _, _, ⟨owner, _, hused⟩, _, _, _, _, hlast⟩ := hhelpers 6 hid
  have howner : 4 = owner := (hused.ownedBy_iff hid).1 hchoice
  have hroot := Relation.ReflTransGen.single hchoice |>.tail hrepetition |>.tail hdefinition
  have hi : 0 = (i : NonterminalId) := (hlast 0 hroot).2 hnamed
  rw [← howner] at hused
  rw [← hi] at hlast
  exact ⟨h, hid, hused, hrepetition, hdefinition, hself, fun last hleads => (hlast last hleads).1⟩

end FirstFollow
