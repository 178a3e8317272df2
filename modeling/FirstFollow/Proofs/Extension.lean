import FirstFollow.Proofs.BuiltStores
import FirstFollow.Proofs.Failures
import FirstFollow.Proofs.Simulation

/-!
# More definitions, in another order

When definitions come in another order or with others in between, their nonterminals get other
numbers, but those of one definition keep their distance from each other. So each production of
the smaller store has a counterpart in the larger one (`Corresponds.matched`), the two stores
simulate each other on what they share, and the sets of a name do not depend on the place of its
definition (`build_extension`).
-/

namespace FirstFollow

/-! ## Rules under other numbers -/

section

variable {C : NonterminalId → NonterminalId → Prop} {names names' : Table String NonterminalId}
  {n k : NonterminalId} {rules : List Rule} {a b : List Symbol}

/-- The name that a node refers to belongs to related nonterminals. -/
def Rule.Linked (C : NonterminalId → NonterminalId → Prop)
    (names names' : Table String NonterminalId) : Rule → Prop
  | .reference name =>
    ∃ id id', names.get? name = some id ∧ names'.get? name = some id' ∧ C id id'
  | _ => True

/-- Numbers from `n` on are related to those that are larger by `k`. -/
abbrev Shifted (C : NonterminalId → NonterminalId → Prop) (k : NonterminalId) (nodes : List Rule)
    (n : NonterminalId) : Prop :=
  Numbered (fun id _ => C id (id + k)) nodes n

theorem relatedForms_spell (h : RelatedForms C a b) : RelatedForms C (spell a) (spell b) := by
  cases h with
  | nil => exact .cons .empty .nil
  | cons hs hrest => exact .cons hs hrest

namespace Rule

mutual

/-- Under other numbers and names a rule adds related symbols. -/
theorem relatedForms_flat : ∀ (rule : Rule) (n : NonterminalId), Shifted C k rule.sugar n →
    (∀ node ∈ rule.nodes, node.Linked C names names') →
      RelatedForms C (rule.flat names n) (rule.flat names' (n + k))
  | .character c, _, _, _ => .cons (.terminal c.toString) .nil
  | .reference name, _, _, hlinked => by
    obtain ⟨id, id', hid, hid', hrelated⟩ := hlinked _ (mem_nodes_self _)
    rw [flat, flat, hid, hid']
    exact .cons (.nonterminal hrelated) .nil
  | .sequence rules, n, h, hlinked =>
    relatedForms_flatAll rules n h (List.forall_mem_cons.1 hlinked).2
  | .alternative _ _, _, h, _ => .cons (.nonterminal h.1) .nil
  | .repetition _, _, h, _ => .cons (.nonterminal h.1) .nil
  | .option _, _, h, _ => .cons (.nonterminal h.1) .nil
  | .group _, _, h, _ => .cons (.nonterminal h.1) .nil
  | .strayReference _, _, _, _ => .nil
  | .exclude _ _, _, _, _ => .nil
  | .foreign _, _, _, _ => .nil

theorem relatedForms_flatAll : ∀ (rules : List Rule) (n : NonterminalId),
    Shifted C k (sugarAll rules) n → (∀ node ∈ nodesAll rules, node.Linked C names names') →
      RelatedForms C (flatAll names rules n) (flatAll names' rules (n + k))
  | [], _, _, _ => .nil
  | rule :: rest, n, h, hlinked => by
    obtain ⟨hrule, hrest⟩ := numbered_append.1 h
    obtain ⟨hfirst, hlater⟩ := List.forall_mem_append.1 hlinked
    rw [flatAll, flatAll, add_right_comm]
    exact (relatedForms_flat rule n hrule hfirst).append
      (relatedForms_flatAll rest _ hrest hlater)

end

theorem related_choiceProductions (h : Shifted C k (sugarAll rules) n)
    (hlinked : ∀ node ∈ nodesAll rules, node.Linked C names names') :
    List.Forall₂ (RelatedForms C) (choiceProductions names rules n)
      (choiceProductions names' rules (n + k)) := by
  induction rules generalizing n with
  | nil => exact .nil
  | cons rule rest ih =>
    obtain ⟨hrule, hrest⟩ := numbered_append.1 h
    obtain ⟨hfirst, hlater⟩ := List.forall_mem_append.1 hlinked
    rw [choiceProductions, choiceProductions, add_right_comm]
    exact .cons (relatedForms_spell (relatedForms_flat rule n hrule hfirst)) (ih hrest hlater)

theorem related_encoding {node : Rule} (h : Shifted C k node.sugar n)
    (hlinked : ∀ inner ∈ node.nodes, inner.Linked C names names') :
    List.Forall₂ (RelatedForms C) (node.encoding names n) (node.encoding names' (n + k)) := by
  have hempty : RelatedForms C [.empty] [.empty] := .cons .empty .nil
  have hone : n + k + 1 = n + 1 + k := add_right_comm n k 1
  cases node with
  | alternative first rest =>
    rw [encoding, encoding, hone]
    exact related_choiceProductions h.2 (List.forall_mem_cons.1 hlinked).2
  | repetition rule =>
    have hbody := relatedForms_flat rule (n + 1) h.2 (List.forall_mem_cons.1 hlinked).2
    rw [encoding, encoding, hone]
    exact .cons (hbody.append (.cons (.nonterminal h.1) .nil)) (.cons hempty .nil)
  | option rule =>
    have hbody := relatedForms_flat rule (n + 1) h.2 (List.forall_mem_cons.1 hlinked).2
    rw [encoding, encoding, hone]
    -- Related forms are empty together.
    have hnil : rule.flat names (n + 1) = [] ↔ rule.flat names' (n + 1 + k) = [] := by
      rw [← List.length_eq_zero_iff, hbody.length_eq, List.length_eq_zero_iff]
    simp only [hnil]
    split
    · exact .cons hempty .nil
    · exact .cons hbody (.cons hempty .nil)
  | group rule =>
    have hbody := relatedForms_flat rule (n + 1) h.2 (List.forall_mem_cons.1 hlinked).2
    rw [encoding, encoding, hone]
    exact .cons (relatedForms_spell hbody) .nil
  | _ => exact .nil

end Rule

end

/-! ## Corresponding nonterminals -/

/-- The numbers of one definition in two lists, or the helpers of one of its nodes. -/
inductive Corresponds (D D' : List Definition) : NonterminalId → NonterminalId → Prop where
  | own {i i' : Nat} {d : Definition} (h : D[i]? = some d) (h' : D'[i']? = some d) :
      Corresponds D D' i i'
  | helper {front back front' back' : List Definition} {d : Definition} {i : Nat}
      (h : D = front ++ d :: back) (h' : D' = front' ++ d :: back')
      (hi : i < (Rule.sugarAll d.rule.choices).length) :
      Corresponds D D' (D.length + 1 + (helperNodes front).length + i)
        (D'.length + 1 + (helperNodes front').length + i)

variable {D D' front back front' back' : List Definition} {d : Definition} {node : Rule}
  {store store' : Store} {id id' : NonterminalId}

theorem Corresponds.symm (h : Corresponds D D' id id') : Corresponds D' D id' id := by
  cases h with
  | own h h' => exact .own h' h
  | helper h h' hi => exact .helper h' h hi

/-- Nothing of a list is left out when its definitions are in the other one. -/
theorem exists_corresponds (hsub : ∀ d ∈ D, d ∈ D') {rule : Rule} (h : StandsFor D id rule) :
    ∃ id', Corresponds D D' id id' := by
  rcases h with ⟨i, d, hi, rfl, -⟩ | ⟨i, hi, rfl⟩
  · obtain ⟨i', hi'⟩ := List.mem_iff_getElem?.1 (hsub d (List.mem_of_getElem? hi))
    exact ⟨i', .own hi hi'⟩
  · obtain ⟨front, d, back, j, rfl, hj, rfl⟩ := exists_block hi
    obtain ⟨front', back', hd'⟩ := List.append_of_mem (hsub d (by simp))
    have hlt := (List.getElem?_eq_some_iff.1 hj).1
    rw [Nat.cast_add, ← add_assoc]
    exact ⟨_, .helper rfl hd' hlt⟩

namespace Corresponds

theorem exists_standsFor (h : Corresponds D D' id id') : ∃ rule, StandsFor D id rule := by
  cases h with
  | own h _ => exact ⟨_, .inl ⟨_, _, h, rfl, rfl⟩⟩
  | helper h _ hi =>
    have hnode := numbered_iff.1 (Filled.numbered_choices h) _ _ (List.getElem?_eq_getElem hi)
    exact ⟨_, .inr hnode⟩

theorem mem_identifiers (filled : Filled D store) (h : Corresponds D D' id id') :
    id ∈ store.identifiers :=
  filled.mem_identifiers_iff.2 (filled.mem_keys_iff.2 h.exists_standsFor)

/-- The number of a definition corresponds to no other number than its own. -/
theorem eq_own (filled' : Filled D' store') {i i' : Nat} (hi : D[i]? = some d)
    (hi' : D'[i']? = some d) (h : Corresponds D D' i id') : id' = i' := by
  obtain ⟨hlt, -⟩ := List.getElem?_eq_some_iff.1 hi
  generalize hid : (i : NonterminalId) = id at h
  cases h with
  | own h h' =>
    obtain rfl := Int.ofNat.inj hid
    obtain rfl := Option.some.inj (hi.symm.trans h)
    exact Option.some.inj ((filled'.get?_name h').symm.trans (filled'.get?_name hi'))
  | helper => lia

/-- The nodes of one definition keep their distances. -/
theorem exists_shifted (h : D = front ++ d :: back) (h' : D' = front' ++ d :: back') :
    ∃ k : NonterminalId,
      (D'.length + 1 + (helperNodes front').length : NonterminalId) =
        D.length + 1 + (helperNodes front).length + k ∧
      Shifted (Corresponds D D') k (Rule.sugarAll d.rule.choices)
        (D.length + 1 + (helperNodes front).length) := by
  obtain ⟨k, hk⟩ : ∃ k : NonterminalId, (D'.length + 1 + (helperNodes front').length :
      NonterminalId) = D.length + 1 + (helperNodes front).length + k :=
    ⟨_, (add_sub_cancel _ _).symm⟩
  refine ⟨k, hk, numbered_iff.2 fun i node hi => ?_⟩
  have hcorresponds := Corresponds.helper h h' (List.getElem?_eq_some_iff.1 hi).1
  rwa [hk, add_right_comm _ k] at hcorresponds

section

variable (filled : Filled D store) (filled' : Filled D' store') (hsub : ∀ d ∈ D, d ∈ D')

include filled filled' hsub

/-- A definition that has been lowered refers only to definitions of its own list. -/
theorem linked (hd : d ∈ D) (hnode : node ∈ d.rule.nodes) :
    node.Linked (Corresponds D D') store.names store'.names := by
  cases node with
  | reference name =>
    have hoffence := filled.offence?_eq_none hd hnode
    have hname : name ∈ D.map Definition.name := by simpa [Rule.offence?] using hoffence
    obtain ⟨e, he, rfl⟩ := List.mem_map.1 hname
    obtain ⟨i, hi⟩ := List.mem_iff_getElem?.1 he
    obtain ⟨i', hi'⟩ := List.mem_iff_getElem?.1 (hsub e he)
    exact ⟨i, i', filled.get?_name hi, filled'.get?_name hi', .own hi hi'⟩
  | _ => trivial

/-- Corresponding nonterminals have corresponding productions, in the same order. -/
theorem matched : store.Matched store' (Corresponds D D') := by
  intro id id' h
  rw [filled.productions, filled'.productions]
  cases h with
  | @own i i' d hi hi' =>
    obtain ⟨front, back, hd, rfl⟩ := exists_split hi
    obtain ⟨front', back', hd', rfl⟩ := exists_split hi'
    obtain ⟨k, hk, hshifted⟩ := exists_shifted hd hd'
    rw [filled.emitted_own hd, filled'.emitted_own hd', hk]
    apply Rule.related_choiceProductions hshifted
    intro node hnode
    exact linked filled filled' hsub (List.mem_of_getElem? hi)
      (d.rule.nodesAll_choices_subset hnode)
  | @helper front back front' back' d i hd hd' hi =>
    obtain ⟨k, hk, hshifted⟩ := exists_shifted hd hd'
    have hget := List.getElem?_eq_getElem hi
    have hnode := numbered_iff.1 (Filled.numbered_choices hd) i _ hget
    have hnode' := numbered_iff.1 (Filled.numbered_choices hd') i _ hget
    have hinside := numbered_iff.1 (Rule.numbered_nestedAll _ _ hshifted) i _ hget
    rw [filled.emitted_helper hnode, filled'.emitted_helper hnode', hk, add_right_comm _ k]
    -- The nodes inside the node of a helper are nodes of the same definition.
    apply Rule.related_encoding hinside
    intro inner hinner
    have hmem : d ∈ D := by simp [hd]
    obtain ⟨-, hvisited⟩ := Rule.mem_sugarAll_choices (List.getElem_mem hi)
    exact linked filled filled' hsub hmem (Rule.nodes_subset d.rule hvisited hinner)

theorem exists_identifier (hid : id ∈ store.identifiers) :
    ∃ id' ∈ store'.identifiers, Corresponds D D' id id' := by
  obtain ⟨rule, hrule⟩ := filled.mem_keys_iff.1 (filled.mem_identifiers_iff.1 hid)
  obtain ⟨id', h⟩ := exists_corresponds hsub hrule
  exact ⟨id', h.symm.mem_identifiers filled', h⟩

/-- Analyses answer alike for the beginnings of corresponding nonterminals. -/
theorem exists_first {sets sets' : GrammarSets} {start start' : Start}
    (hsets : (store.analyze start).result = .ok sets)
    (hsets' : (store'.analyze start').result = .ok sets') (h : Corresponds D D' id id') :
    ∃ first, sets.first (.nonterminal id) = .ok first ∧
      sets'.first (.nonterminal id') = .ok first := by
  have hid := h.mem_identifiers filled
  have hid' := h.symm.mem_identifiers filled'
  obtain ⟨first, hfirst⟩ :=
    Store.exists_first_of_analyze hsets (Store.mem_analyzedSymbols_nonterminal.2 hid)
  obtain ⟨first', hfirst'⟩ :=
    Store.exists_first_of_analyze hsets' (Store.mem_analyzedSymbols_nonterminal.2 hid')
  have hmatched := matched filled filled' hsub
  have hbegin := hmatched.simulates.beginnings_eq hmatched.symm.simulates h
  have hsame : first' = first := by
    ext x
    rw [Store.mem_first_of_analyze hsets hfirst, Store.mem_first_of_analyze hsets' hfirst', hbegin]
  exact ⟨first, hfirst, hsame ▸ hfirst'⟩

/-- What follows the nonterminal of a definition follows it in the larger store. -/
theorem exists_follow {sets sets' : GrammarSets}
    (hsets : (store.analyze .unspecified).result = .ok sets)
    (hsets' : (store'.analyze .unspecified).result = .ok sets') {i i' : Nat} (hi : D[i]? = some d)
    (hi' : D'[i']? = some d) :
    ∃ follow follow', sets.follow i = .ok follow ∧ sets'.follow i' = .ok follow' ∧
      follow ⊆ follow' := by
  have h : Corresponds D D' i i' := .own hi hi'
  obtain ⟨follow, hfollow, hmem⟩ :=
    Store.exists_follow_of_analyze hsets (h.mem_identifiers filled)
  obtain ⟨follow', hfollow', hmem'⟩ :=
    Store.exists_follow_of_analyze hsets' (h.symm.mem_identifiers filled')
  have hstart : sets.start = none := Except.ok.inj (Store.startId_of_analyze hsets).symm
  have hstart' : sets'.start = none := Except.ok.inj (Store.startId_of_analyze hsets').symm
  have hadjacent : store.Adjacent none i ≤ store'.Adjacent none i' := by
    apply (matched filled filled' hsub).simulates.adjacent_le
    · exact fun _ => exists_identifier filled filled' hsub
    · exact fun _ => eq_own filled' hi hi'
  refine ⟨follow, follow', hfollow, hfollow', fun x hx => ?_⟩
  rw [hmem, hstart] at hx
  rw [hmem', hstart']
  exact hadjacent x hx

end

end Corresponds

/-- The sets of a name do not depend on where its definition stands and on which definitions there
    are that it does not refer to. FIRST stays the same when definitions are added or change
    places. FOLLOW loses nothing, and stays the same when definitions only change places. -/
theorem build_extension (h : (build D).result = .ok store) (h' : (build D').result = .ok store')
    (hsub : ∀ d ∈ D, d ∈ D') :
    ∃ sets sets', (store.analyze .unspecified).result = .ok sets ∧
      (store'.analyze .unspecified).result = .ok sets' ∧
      ∀ d ∈ D, ∃ id id', store.identifier d.name = .ok id ∧ store'.identifier d.name = .ok id' ∧
        (∃ first, sets.first (.nonterminal id) = .ok first ∧
          sets'.first (.nonterminal id') = .ok first) ∧
        ∃ follow follow', sets.follow id = .ok follow ∧ sets'.follow id' = .ok follow' ∧
          follow ⊆ follow' ∧ (D.Perm D' → follow' = follow) := by
  have filled := Filled.of_build h
  have filled' := Filled.of_build h'
  obtain ⟨sets, hsets⟩ := filled.exists_analyze (frozen_of_build h) .unspecified
  obtain ⟨sets', hsets'⟩ := filled'.exists_analyze (frozen_of_build h') .unspecified
  refine ⟨sets, sets', hsets, hsets', fun d hd => ?_⟩
  obtain ⟨i, hi⟩ := List.mem_iff_getElem?.1 hd
  obtain ⟨i', hi'⟩ := List.mem_iff_getElem?.1 (hsub d hd)
  have hname : store.identifier d.name = .ok i := by
    rw [Store.identifier, filled.get?_name hi]
  have hname' : store'.identifier d.name = .ok i' := by
    rw [Store.identifier, filled'.get?_name hi']
  have hfirst := Corresponds.exists_first filled filled' hsub hsets hsets' (.own hi hi')
  obtain ⟨follow, follow', hfollow, hfollow', hle⟩ :=
    Corresponds.exists_follow filled filled' hsub hsets hsets' hi hi'
  refine ⟨i, i', hname, hname', hfirst, follow, follow', hfollow, hfollow', hle, fun hperm => ?_⟩
  -- A permutation leaves nothing out in either direction.
  obtain ⟨other', other, hother', hother, hge⟩ :=
    Corresponds.exists_follow filled' filled (fun _ => hperm.mem_iff.2) hsets' hsets hi' hi
  cases hfollow.symm.trans hother
  cases hfollow'.symm.trans hother'
  ext x
  exact ⟨hge x, hle x⟩

/-- Definitions with a helper inside a helper and left recursion. -/
def itemDefinitions : List Definition :=
  [⟨"list", .alternative (.sequence [.reference "list", .reference "item"])
      [.option (.character 'x')]⟩,
    ⟨"item", .group (.alternative (.character 'y') [.repetition (.character 'z')])⟩]

/-- A definition that refers to those of `itemDefinitions`. Its helper is numbered before theirs. -/
def userDefinition : Definition :=
  ⟨"user", .sequence [.repetition (.reference "item"), .reference "list", .character 'w']⟩

/-- The sets of the names in `itemDefinitions`, beside another definition and backwards. -/
theorem build_extension_itemDefinitions :
    ∃ store store' store'', (build itemDefinitions).result = .ok store ∧
      (build (userDefinition :: itemDefinitions)).result = .ok store' ∧
      (build itemDefinitions.reverse).result = .ok store'' ∧
      (∀ d ∈ itemDefinitions, d ∈ userDefinition :: itemDefinitions) ∧
      (∃ sets sets', (store.analyze .unspecified).result = .ok sets ∧
        (store'.analyze .unspecified).result = .ok sets' ∧
        ∃ id id', store.identifier "list" = .ok id ∧ store'.identifier "list" = .ok id' ∧
          (∃ first, sets.first (.nonterminal id) = .ok first ∧
            sets'.first (.nonterminal id') = .ok first) ∧
          ∃ follow follow', sets.follow id = .ok follow ∧ sets'.follow id' = .ok follow' ∧
            follow ⊆ follow') ∧
      itemDefinitions.Perm itemDefinitions.reverse ∧
      ∃ sets sets'', (store.analyze .unspecified).result = .ok sets ∧
        (store''.analyze .unspecified).result = .ok sets'' ∧
        ∃ id id'', store.identifier "item" = .ok id ∧ store''.identifier "item" = .ok id'' ∧
          ∃ follow, sets.follow id = .ok follow ∧ sets''.follow id'' = .ok follow := by
  have hbuild : ∃ store, (build itemDefinitions).result = .ok store := by decide +kernel
  have hbuild' : ∃ store, (build (userDefinition :: itemDefinitions)).result = .ok store := by
    decide +kernel
  have hbuild'' : ∃ store, (build itemDefinitions.reverse).result = .ok store := by
    decide +kernel
  obtain ⟨store, h⟩ := hbuild
  obtain ⟨store', h'⟩ := hbuild'
  obtain ⟨store'', h''⟩ := hbuild''
  have hsub : ∀ d ∈ itemDefinitions, d ∈ userDefinition :: itemDefinitions := fun _ =>
    List.mem_cons_of_mem _
  have hperm : itemDefinitions.Perm itemDefinitions.reverse := (List.reverse_perm _).symm
  obtain ⟨sets, sets', hsets, hsets', hlarger⟩ := build_extension h h' hsub
  obtain ⟨id, id', hid, hid', hfirst, follow, follow', hfollow, hfollow', hle, -⟩ :=
    hlarger _ List.mem_cons_self
  obtain ⟨same, sets'', hsame, hsets'', hreversed⟩ :=
    build_extension h h'' fun _ => hperm.mem_iff.1
  obtain ⟨own, own'', hown, hown'', -, item, item'', hitem, hitem'', -, heq⟩ :=
    hreversed _ (List.mem_cons_of_mem _ List.mem_cons_self)
  exact ⟨store, store', store'', h, h', h'', hsub,
    ⟨sets, sets', hsets, hsets', id, id', hid, hid', hfirst, follow, follow', hfollow, hfollow',
      hle⟩,
    hperm, same, sets'', hsame, hsets'', own, own'', hown, hown'', item, hitem, heq hperm ▸ hitem''⟩

end FirstFollow
