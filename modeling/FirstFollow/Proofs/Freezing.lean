import FirstFollow.Proofs.StoreHistory

/-!
# Freezing

An open store is frozen when it is well formed, and otherwise refused for its first offence, in the
order of its keys, of their productions and of the symbols in these (`Store.freeze_eq_error_iff`).
A store that is refused stays open. When all that is wrong are references to nonterminals without
productions, it can be frozen once these have some (`Store.freeze_outcome`).
-/

namespace FirstFollow

/-! ## The first offence of a production -/

/-- A symbol that no production may hold. -/
def Symbol.Misplaced : Symbol → Prop
  | .wildcard | .endOfInput | .alien _ => True
  | _ => False

/-- A symbol that any production may hold: a terminal, or a nonterminal with productions. -/
def Symbol.Admitted (keys : List NonterminalId) (s : Symbol) : Prop :=
  (∃ text, s = .terminal text) ∨ ∃ id ∈ keys, s = .nonterminal id

/-- The first offence of a production of `owner`: it has no symbols, or some symbol is out of place
    while all symbols before it are admitted. -/
inductive FirstFault (keys : List NonterminalId) (owner : NonterminalId) :
    Production → Defect → Prop where
  | blank : FirstFault keys owner [] (.blankProduction owner)
  | empty {before after : List Symbol} (hbefore : ∀ s ∈ before, s.Admitted keys)
      (hothers : before ++ after ≠ []) :
      FirstFault keys owner (before ++ .empty :: after)
        (.emptyNotAlone (before ++ .empty :: after))
  | dangling {before after : List Symbol} {target : NonterminalId}
      (hbefore : ∀ s ∈ before, s.Admitted keys) (htarget : target ∉ keys) :
      FirstFault keys owner (before ++ .nonterminal target :: after)
        (.danglingReference owner target)
  | misplaced {before after : List Symbol} {s : Symbol}
      (hbefore : ∀ s ∈ before, s.Admitted keys) (hs : s.Misplaced) :
      FirstFault keys owner (before ++ s :: after) (.misplacedSymbol s)

section

variable {keys known : List NonterminalId} {owner : NonterminalId} {production : Production}
  {before after : List Symbol} {s : Symbol} {d : Defect}

theorem length_eq_one_iff_alone :
    (before ++ s :: after).length = 1 ↔ before ++ after = [] := by
  simp only [List.length_append, List.length_cons, ← List.length_eq_zero_iff]
  omega

/-- Ahead of another symbol, the empty symbol is not alone. -/
theorem symbolDefect?_before (hs : s ∈ before) {last : Symbol} :
    symbolDefect? keys owner (before ++ last :: after) s = none ↔ s.Admitted keys := by
  have hnot : ¬ (s = .empty ∧ (before ++ last :: after).length = 1) := by
    intro ⟨_, halone⟩
    have hnil := List.append_eq_nil_iff.1 (length_eq_one_iff_alone.1 halone)
    exact List.ne_nil_of_mem hs hnil.1
  exact symbolDefect?_eq_none_iff.trans (or_iff_right hnot)

/-- What is wrong with a symbol, after symbols that are admitted, is the first offence. -/
theorem firstFault_of_symbolDefect? (hbefore : ∀ t ∈ before, t.Admitted keys)
    (h : symbolDefect? keys owner (before ++ s :: after) s = some d) :
    FirstFault keys owner (before ++ s :: after) d := by
  cases s with
  | empty =>
    have hlength : ¬ (before ++ .empty :: after).length = 1 := by
      intro halone
      simp only [symbolDefect?, if_pos halone] at h
      cases h
    simp only [symbolDefect?, if_neg hlength] at h
    cases h
    exact .empty hbefore fun hnil => hlength (length_eq_one_iff_alone.2 hnil)
  | nonterminal target =>
    have htarget : target ∉ keys := by
      intro hmem
      simp only [symbolDefect?, if_pos hmem] at h
      cases h
    simp only [symbolDefect?, if_neg htarget] at h
    cases h
    exact .dangling hbefore htarget
  | terminal text => cases h
  | wildcard | endOfInput | alien _ =>
    cases h
    exact .misplaced hbefore trivial

theorem productionDefect?_of_symbolDefect? (hbefore : ∀ t ∈ before, t.Admitted keys)
    (h : symbolDefect? keys owner (before ++ s :: after) s = some d) :
    productionDefect? keys owner (before ++ s :: after) = some d := by
  have hnot : ¬ (before ++ s :: after).isEmpty = true := by simp
  unfold productionDefect?
  rw [if_neg hnot]
  apply List.findSome?_eq_some_iff.2
  exact ⟨before, s, after, rfl, h, fun t ht => (symbolDefect?_before ht).2 (hbefore t ht)⟩

/-- The check of a production finds its first offence. -/
theorem productionDefect?_eq_some_iff :
    productionDefect? keys owner production = some d ↔ FirstFault keys owner production d := by
  constructor
  · intro h
    unfold productionDefect? at h
    split at h
    · rename_i hblank
      cases List.isEmpty_iff.1 hblank
      cases h
      exact .blank
    · obtain ⟨before, s, after, rfl, hs, hbefore⟩ := List.findSome?_eq_some_iff.1 h
      exact firstFault_of_symbolDefect? (fun t ht => (symbolDefect?_before ht).1 (hbefore t ht)) hs
  · intro h
    cases h with
    | blank => rfl
    | empty hbefore hothers =>
      apply productionDefect?_of_symbolDefect? hbefore
      exact if_neg fun halone => hothers (length_eq_one_iff_alone.1 halone)
    | dangling hbefore htarget =>
      exact productionDefect?_of_symbolDefect? hbefore (if_neg htarget)
    | @misplaced before after s hbefore hs =>
      apply productionDefect?_of_symbolDefect? hbefore
      cases s with
      | wildcard | endOfInput | alien _ => rfl
      | empty | terminal _ | nonterminal _ => exact hs.elim

/-- A well-formed production is well formed wherever its nonterminals have productions. -/
theorem WellFormed.of_targets (h : WellFormed keys production)
    (htargets : ∀ id, .nonterminal id ∈ production → id ∈ known) : WellFormed known production where
  ne_nil := h.ne_nil
  empty_alone := h.empty_alone
  known s hs := by
    rcases h.known s hs with hempty | hterminal | ⟨id, _, rfl⟩
    · exact .inl hempty
    · exact .inr (.inl hterminal)
    · exact .inr (.inr ⟨id, htargets id hs, rfl⟩)

theorem WellFormed.mem_keys {id : NonterminalId} (h : WellFormed keys production)
    (hid : .nonterminal id ∈ production) : id ∈ keys := by
  rcases h.known_of_mem hid hid with ⟨text, ⟨⟩⟩ | ⟨other, hother, ⟨⟩⟩
  exact hother

end

namespace Store

variable {store filled : Store} {id owner target : NonterminalId} {production : Production}
  {additions : List (NonterminalId × Production)} {d : Defect} {e : Error}

/-! ## The first offence of a store -/

/-- The first offence of a store: that of a production all before which are well formed. -/
def FirstOffence (store : Store) (d : Defect) : Prop :=
  ∃ front owner production back, store.alternatives = front ++ (owner, production) :: back ∧
    (∀ rule ∈ front, WellFormed store.keys rule.2) ∧ FirstFault store.keys owner production d

theorem defect?_eq_some_iff : store.defect? = some d ↔ store.FirstOffence d := by
  unfold defect? FirstOffence
  simp only [List.findSome?_eq_some_iff, productionDefect?_eq_some_iff,
    productionDefect?_eq_none_iff, Prod.exists]
  constructor
  · intro ⟨front, owner, production, back, halternatives, hfault, hfront⟩
    exact ⟨front, owner, production, back, halternatives, hfront, hfault⟩
  · intro ⟨front, owner, production, back, halternatives, hfront, hfault⟩
    exact ⟨front, owner, production, back, halternatives, hfault, hfront⟩

theorem exists_freeze_iff (hopen : store.frozen = false) :
    (∃ frozen, store.freeze.result = .ok frozen) ↔ store.IsWellFormed := by
  constructor
  · intro ⟨frozen, h⟩
    exact isWellFormed_of_freeze hopen h
  · intro h
    exact ⟨_, h.freeze⟩

/-- An open store is refused for its first offence. -/
theorem freeze_eq_error_iff (hopen : store.frozen = false) :
    store.freeze.result = .error e ↔ ∃ d, store.FirstOffence d ∧ e = .defect d := by
  simp only [← defect?_eq_some_iff]
  unfold Store.freeze
  rw [hopen]
  cases hdefect : store.defect? with
  | none => simp
  | some d => simp [eq_comm]

/-! ## Filling in -/

/-- Adds productions one after another. -/
def addAll (store : Store) : List (NonterminalId × Production) → Except Error Store
  | [] => .ok store
  | (id, production) :: rest => do (← store.add id production).addAll rest

/-- From one store to another, some productions have come in. -/
structure AddedAll (store : Store) (additions : List (NonterminalId × Production))
    (filled : Store) : Prop where
  keys : ∀ id, id ∈ filled.keys ↔ id ∈ store.keys ++ additions.map Prod.fst
  alternatives : ∀ rule, rule ∈ filled.alternatives ↔ rule ∈ store.alternatives ++ additions
  frozen : filled.frozen = store.frozen

/-- An open store takes any productions. -/
theorem exists_addAll (hopen : store.frozen = false)
    (additions : List (NonterminalId × Production)) :
    ∃ filled, store.addAll additions = .ok filled ∧ store.AddedAll additions filled := by
  induction additions generalizing store with
  | nil => exact ⟨store, rfl, by simp, by simp, rfl⟩
  | cons addition rest ih =>
    obtain ⟨next, hnext⟩ := exists_add hopen addition.1 addition.2
    have hadded := added_of_add hnext
    obtain ⟨filled, hfilled, hrest⟩ := ih (hadded.frozen.trans hopen)
    refine ⟨filled, bind_eq_ok.2 ⟨next, hnext, hfilled⟩, fun id => ?_, fun rule => ?_,
      hrest.frozen.trans hadded.frozen⟩
    · simp only [hrest.keys, hadded.keys, List.mem_append, List.map_cons, List.mem_cons, or_assoc]
    · simp only [hrest.alternatives, hadded.mem_alternatives, List.mem_append, List.mem_cons,
        or_assoc, Prod.ext_iff, eq_comm]

/-- A nonterminal that some production refers to, but that has no productions. -/
def Missing (store : Store) (target : NonterminalId) : Prop :=
  target ∉ store.keys ∧ ∃ rule ∈ store.alternatives, .nonterminal target ∈ rule.2

/-- Nothing is wrong with a store but references: with enough keys each production would be well
    formed. -/
def OnlyMisses (store : Store) : Prop :=
  ∀ rule ∈ store.alternatives, ∃ keys, WellFormed keys rule.2

/-- Productions for all missing nonterminals make a store well formed, if nothing else is wrong with
    it, and with themselves. -/
theorem OnlyMisses.isWellFormed (h : store.OnlyMisses) (hadded : store.AddedAll additions filled)
    (hmissing : ∀ target, store.Missing target → target ∈ additions.map Prod.fst)
    (hadditions : ∀ rule ∈ additions,
      WellFormed (store.keys ++ additions.map Prod.fst) rule.2) : filled.IsWellFormed := by
  intro rule hrule
  rcases List.mem_append.1 ((hadded.alternatives rule).1 hrule) with hold | hnew
  · obtain ⟨keys, hwellFormed⟩ := h rule hold
    apply hwellFormed.of_targets
    intro target htarget
    apply (hadded.keys target).2
    by_cases hkey : target ∈ store.keys
    · exact List.mem_append_left _ hkey
    · exact List.mem_append_right _ (hmissing target ⟨hkey, rule, hold, htarget⟩)
  · apply (hadditions rule hnew).of_targets
    intro target htarget
    exact (hadded.keys target).2 ((hadditions rule hnew).mem_keys htarget)

/-! ## Freezing -/

theorem after_freeze_of_error (h : store.freeze.result = .error e) :
    store.after .freeze = store := by
  simp only [after, apply, h]

theorem Reached.mem_keys_iff (h : store.Reached) :
    id ∈ store.keys ↔ ∃ production, (id, production) ∈ store.alternatives := by
  constructor
  · exact h.consistent.productions id
  · intro ⟨_, hmem⟩
    exact mem_keys_of_mem_alternatives hmem

/-- An open store is frozen if it is well formed, and otherwise refused for its first offence. Then
    it stays open as it was and takes all changes; and when it only refers to nonterminals without
    productions, any productions for these that are well formed themselves let it be frozen. The
    keys of a store that edits lead to are the nonterminals that have productions. -/
theorem freeze_outcome (hopen : store.frozen = false) :
    ((∃ frozen, store.freeze.result = .ok frozen) ↔ store.IsWellFormed) ∧
    (∀ frozen, store.freeze.result = .ok frozen → frozen = { store with frozen := true }) ∧
    (∀ e, store.freeze.result = .error e ↔ ∃ d, store.FirstOffence d ∧ e = .defect d) ∧
    (∀ e, store.freeze.result = .error e →
      store.after .freeze = store ∧
      (∀ id production, ∃ next, (store.after .freeze).add id production = .ok next) ∧
      (∀ id, ∃ next, (store.after .freeze).markSynthetic id = .ok next) ∧
      (store.OnlyMisses → ∀ additions : List (NonterminalId × Production),
        (∀ target, store.Missing target → target ∈ additions.map Prod.fst) →
        (∀ rule ∈ additions, WellFormed (store.keys ++ additions.map Prod.fst) rule.2) →
        ∃ filled, (store.after .freeze).addAll additions = .ok filled ∧
          filled.freeze.result = .ok { filled with frozen := true })) ∧
    (store.Reached → ∀ id, id ∈ store.keys ↔
      ∃ production, (id, production) ∈ store.alternatives) := by
  refine ⟨exists_freeze_iff hopen, fun frozen => freeze_eq_ok, fun e => freeze_eq_error_iff hopen,
    fun e hrefused => ?_, fun hreached id => hreached.mem_keys_iff⟩
  rw [after_freeze_of_error hrefused]
  refine ⟨rfl, exists_add hopen, exists_markSynthetic hopen,
    fun honly additions hmissing hadditions => ?_⟩
  obtain ⟨filled, hfilled, hadded⟩ := exists_addAll hopen additions
  exact ⟨filled, hfilled, (honly.isWellFormed hadded hmissing hadditions).freeze⟩

/-- The nonterminal 0 refers to 7, which has no productions, and to 3, which gets its own after
    it. -/
def danglingStore : Store :=
  .ofEdits ∅ [.add 0 [.nonterminal 3, .nonterminal 7, .terminal "a"], .add 3 [.empty],
    .add 3 [.nonterminal 7]]

/-- What `danglingStore` lacks. The productions refer to each other. -/
def missingProductions : List (NonterminalId × Production) :=
  [(7, [.nonterminal 8, .terminal "b"]), (8, [.empty]), (7, [.nonterminal 0])]

/-- `danglingStore` is refused, and can be frozen with `missingProductions`. -/
theorem freeze_outcome_danglingStore :
    danglingStore.frozen = false ∧ danglingStore.FirstOffence (.danglingReference 0 7) ∧
      danglingStore.freeze.result = .error (.defect (.danglingReference 0 7)) ∧
      danglingStore.after .freeze = danglingStore ∧ danglingStore.OnlyMisses ∧
      ∃ filled, danglingStore.addAll missingProductions = .ok filled ∧
        filled.freeze.result = .ok { filled with frozen := true } := by
  have hopen : danglingStore.frozen = false := by decide +kernel
  have hkeys : danglingStore.keys = [0, 3] := by decide +kernel
  have hfirst : danglingStore.FirstOffence (.danglingReference 0 7) :=
    defect?_eq_some_iff.1 (by decide +kernel)
  -- With 7 beside the keys, nothing would be wrong.
  have hdefects : ∀ rule ∈ danglingStore.alternatives,
      productionDefect? [3, 7] 0 rule.2 = none := by decide +kernel
  have hknown : ∀ rule ∈ danglingStore.alternatives, WellFormed [3, 7] rule.2 :=
    fun rule hrule => productionDefect?_eq_none_iff.1 (hdefects rule hrule)
  have honly : danglingStore.OnlyMisses := fun rule hrule => ⟨_, hknown rule hrule⟩
  have hmissing : ∀ target, danglingStore.Missing target →
      target ∈ missingProductions.map Prod.fst := by
    intro target ⟨hkey, rule, hrule, htarget⟩
    have htarget := (hknown rule hrule).mem_keys htarget
    simp only [hkeys, missingProductions] at hkey htarget ⊢
    grind
  have hadditions : ∀ rule ∈ missingProductions,
      productionDefect? [0, 3, 7, 8, 7] 0 rule.2 = none := by decide +kernel
  obtain ⟨-, -, herror, hrefused, -⟩ := freeze_outcome hopen
  have hresult := (herror _).2 ⟨_, hfirst, rfl⟩
  obtain ⟨hsame, -, -, hrecover⟩ := hrefused _ hresult
  rw [hsame, hkeys] at hrecover
  exact ⟨hopen, hfirst, hresult, hsame, honly, hrecover honly missingProductions hmissing
    fun rule hrule => productionDefect?_eq_none_iff.1 (hadditions rule hrule)⟩

end Store

end FirstFollow
