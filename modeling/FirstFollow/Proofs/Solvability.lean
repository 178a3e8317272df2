import FirstFollow.Proofs.FollowSolution

/-!
# When the sets of a store exist

Whether passes fail is decided at the end they would reach. FIRST passes scan each production with
tables that grow towards the least closed relation, and stop at it, so they fail exactly when a
scan with that relation meets a symbol that FIRST is not defined for (`Store.exists_firsts_iff`).
FOLLOW passes scan with FIRST sets that stay the same, so the first of them meets all that any of
them meets (`Store.exists_follows_iff`). Where they succeed, FOLLOW sets are the least solution of
the merging rules with the end of input for the start (`Store.isLeast_follows`).
-/

namespace FirstFollow

/-! ## Passes over FIRST sets -/

section

variable {keys : List NonterminalId} {rules : List (NonterminalId × Production)}
  {symbols : List Symbol} {firsts last : SetTable} {R : SymbolRelation}

theorem HasFirst.mono {known more : NonterminalId → Prop} (hle : known ≤ more) {s : Symbol}
    (h : HasFirst known s) : HasFirst more s := by
  cases s with
  | nonterminal id => exact hle id h
  | empty => trivial
  | terminal text => trivial
  | _ => exact h.elim

/-- FIRST of a sequence exists in a table when the scan reaches only symbols that it knows. -/
theorem exists_sequenceFirst_firstOf_iff :
    (∃ set, sequenceFirst firsts.firstOf symbols = .ok set) ↔
      ∀ s, Scanned (Nullable firsts.rel) symbols s → HasFirst (· ∈ firsts) s := by
  have hknown : (fun id => ∃ set, firsts.firstOf id = .ok set) = (· ∈ firsts) := by
    funext id
    simp [firstOf_eq_ok]
  rw [← hknown]
  apply exists_sequenceFirst_iff
  intro id set hset
  obtain ⟨-, rfl⟩ := firstOf_eq_ok.1 hset
  rfl

/-- A failure of a pass inside a closed relation names a symbol that a scan with the relation
    reaches. -/
theorem firstPass_eq_error {e : Error} (hkeys : ∀ id ∈ keys, id ∈ firsts) (hle : firsts.rel ≤ R)
    (hclosed : FirstClosed rules R) (h : firstPass rules firsts = .error e) :
    ∃ rule ∈ rules, ∃ s, Scanned (Nullable R) rule.2 s ∧ ¬ HasFirst (· ∈ keys) s ∧
      e = .defect s.lackOfFirst := by
  induction rules generalizing firsts with
  | nil => cases h
  | cons rule rest ih =>
    obtain ⟨hrule, hrest⟩ := List.forall_mem_cons.1 hclosed
    rcases bind_eq_error.1 h with hset | ⟨set, hset, h⟩
    · obtain ⟨s, hs, hlacks, he⟩ := sequenceFirst_eq_error hset
      have hunknown : ¬ HasFirst (· ∈ keys) s := fun hfirst => hlacks (hfirst.mono hkeys)
      exact ⟨rule, List.mem_cons_self, s, hs.mono fun _ => Nullable.mono hle, hunknown, he⟩
    · have hkept : ∀ id ∈ keys, id ∈ (firsts.grow rule.1 set).1 := fun id hid =>
        SetTable.mem_grow.2 (.inr (hkeys id hid))
      -- What the production adds stays inside the relation, as the relation is closed.
      have hgrown : (firsts.grow rule.1 set).1.rel ≤ R := by
        intro id x hx
        rcases (rel_grow_sequenceFirst hset).1 hx with hold | ⟨rfl, hnew⟩
        · exact hle id x hold
        · exact hrule x (hnew.mono hle)
      rcases bind_eq_error.1 h with hlater | ⟨_, -, ⟨⟩⟩
      obtain ⟨later, hmem, hlacks⟩ := ih hkept hgrown hrest hlater
      exact ⟨later, List.mem_cons_of_mem _ hmem, hlacks⟩

/-- A pass that adds nothing has scanned every production with the same sets. -/
theorem hasFirst_of_firstPass (hkeys : ∀ id ∈ firsts, id ∈ keys)
    (hrules : ∀ id ∈ rules.map Prod.fst, id ∈ keys)
    (h : firstPass rules firsts = .ok (last, false)) :
    ∀ rule ∈ rules, ∀ s, Scanned (Nullable firsts.rel) rule.2 s → HasFirst (· ∈ keys) s := by
  induction rules generalizing firsts with
  | nil => exact List.forall_mem_nil _
  | cons rule rest ih =>
    rw [List.map_cons, List.forall_mem_cons] at hrules
    obtain ⟨set, more, hset, hlast, hgrew⟩ := firstPass_cons_eq_ok.1 h
    obtain ⟨hstep, rfl⟩ := Bool.or_eq_false_iff.1 hgrew.symm
    have hrel := (hstep ▸ SetTable.grows_grow firsts rule.1 set).rel_eq
    have hgrown : ∀ id ∈ (firsts.grow rule.1 set).1, id ∈ keys := by
      intro id hid
      rcases SetTable.mem_grow.1 hid with rfl | hid
      · exact hrules.1
      · exact hkeys id hid
    refine List.forall_mem_cons.2 ⟨fun s hs => ?_, ?_⟩
    · exact (exists_sequenceFirst_firstOf_iff.1 ⟨set, hset⟩ s hs).mono hkeys
    · rw [← hrel]
      exact ih hgrown hrules.2 hlast

end

namespace Store

variable {store : Store} {firsts : SetTable} {start : Option NonterminalId}
  {owner id : NonterminalId} {rest : List Symbol} {x : Symbol}

/-! ## FIRST sets -/

/-- When FIRST sets do not exist, the failure names a symbol that FIRST is not defined for, behind
    symbols that derive the empty form. -/
theorem firsts_eq_error {e : Error} (h : store.firsts = .error e) :
    ∃ rule ∈ store.alternatives, ∃ s, Scanned (Nullable store.beginnings) rule.2 s ∧
      ¬ HasFirst (· ∈ store.keys) s ∧ e = .defect s.lackOfFirst := by
  have hclosed := store.firstClosed_beginnings
  let Inv (table : SetTable) : Prop :=
    (∀ id ∈ store.keys, id ∈ table) ∧ table.rel ≤ store.beginnings
  have hblank : Inv (.blank store.keys) :=
    ⟨fun id => SetTable.mem_blank.2, SetTable.blank_le _ _⟩
  have hstep : ∀ table next, Inv table →
      firstPass store.alternatives table = .ok (next, true) → Inv next := by
    intro table next ⟨hkeys, hle⟩ hpass
    refine ⟨fun id hid => ?_, firstPass_le hpass hle hclosed⟩
    exact (mem_firstPass hpass).2 (.inl (hkeys id hid))
  have run := store.runs_firstRun
  rw [show store.firstRun.result = .error e from h] at run
  obtain ⟨table, ⟨hkeys, hle⟩, hpass⟩ := run.failing_pass Inv hblank hstep
  exact firstPass_eq_error hkeys hle hclosed hpass

/-- FIRST sets exist when FIRST is defined for every symbol that stands behind symbols which
    derive the empty form, and only then. -/
theorem exists_firsts_iff :
    (∃ firsts, store.firsts = .ok firsts) ↔
      ∀ rule ∈ store.alternatives, ∀ s, Scanned (Nullable store.beginnings) rule.2 s →
        HasFirst (· ∈ store.keys) s := by
  constructor
  · intro ⟨firsts, h⟩
    obtain ⟨table, hkeys, hpass⟩ := exists_last_firstPass h
    rw [← rel_firsts h, (firstPass_grows hpass).rel_eq]
    exact hasFirst_of_firstPass (fun id => (hkeys id).1) store.map_fst_alternatives_subset hpass
  · intro hscan
    cases h : store.firsts with
    | ok firsts => exact ⟨firsts, rfl⟩
    | error e =>
      obtain ⟨rule, hrule, s, hs, hlacks, -⟩ := firsts_eq_error h
      exact absurd (hscan rule hrule s hs) hlacks

/-! ## FOLLOW sets -/

theorem mem_identifiers_of_occurs (h : store.Occurs owner id rest) : owner ∈ store.identifiers := by
  obtain ⟨front, hmem⟩ := h
  simp [identifiers, mem_keys_of_mem_alternatives hmem]

theorem rel_followStart {begin : SetTable} (h : store.followStart start = .ok begin) :
    begin.rel id x ↔ start = some id ∧ x = .endOfInput := by
  have hget := followStart_spec h id
  have hknown : start = some id → id ∈ store.identifiers :=
    exists_followStart_iff.1 ⟨begin, h⟩ id
  unfold SetTable.rel SetTable.setOf
  rw [hget]
  by_cases hid : start = some id
  · simp [hid, hknown hid]
  · simp only [hid, false_and]
    split <;> simp

/-- FOLLOW sets exist when the start is a nonterminal of the store and every scan behind an
    occurrence meets only symbols that it can deal with. -/
theorem exists_follows_iff :
    (∃ result, (store.follows firsts start).result = .ok result) ↔
      (∀ id, start = some id → id ∈ store.identifiers) ∧
        ∀ owner target rest, store.Occurs owner target rest →
          ∀ s, Scanned (Vanishes firsts.rel) rest s → Readable firsts s := by
  constructor
  · intro ⟨result, h⟩
    obtain ⟨begin, hbegin, hrun, -⟩ := follows_eq_ok.1 h
    obtain ⟨grew, hpass⟩ := exists_followPass_of_followRun hrun
    refine ⟨exists_followStart_iff.1 ⟨begin, hbegin⟩, fun owner target rest hoccurs => ?_⟩
    obtain ⟨o, ho, -, -, rfl⟩ := hoccurs.exists_mem
    exact exists_visitAll_iff.1 ⟨_, grew, Prod.ext_iff.2 ⟨rfl, hpass⟩⟩ o ho
  · intro ⟨hstart, hreadable⟩
    obtain ⟨begin, hbegin⟩ := exists_followStart_iff.2 hstart
    obtain ⟨last, grew, hpass⟩ := exists_visitAll_iff.2 fun o ho =>
      hreadable _ _ _ (occurs_of_mem ho)
    obtain ⟨flags, table, hrun, -⟩ := exists_followSolved (congrArg Prod.snd hpass)
    exact ⟨⟨table, flags.length⟩, follows_eq_ok.2 ⟨begin, hbegin, by rw [hrun], by rw [hrun]⟩⟩

/-- FOLLOW sets are the least solution of the merging rules in which the end of input follows the
    start. -/
theorem isLeast_follows {result : Follows}
    (h : (store.follows firsts start).result = .ok result) :
    IsLeast {R | (∀ id, start = some id → R id .endOfInput) ∧ FollowClosed store firsts R}
      result.table.rel := by
  obtain ⟨begin, hbegin, hrun, -⟩ := follows_eq_ok.1 h
  obtain ⟨grew, hpass⟩ := exists_followPass_of_followRun hrun
  obtain ⟨flags, table, hsolved, solved⟩ := exists_followSolved hpass
  rw [hsolved] at hrun
  cases hrun
  have habove : ∀ R : SymbolRelation,
      begin.rel ≤ R ↔ ∀ id, start = some id → R id .endOfInput := by
    intro R
    constructor
    · intro hle id hid
      exact hle id _ ((rel_followStart hbegin).2 ⟨hid, rfl⟩)
    · intro hend id x hx
      obtain ⟨hid, rfl⟩ := (rel_followStart hbegin).1 hx
      exact hend id hid
  simpa only [habove] using solved.least

theorem mem_followStart {begin : SetTable} (h : store.followStart start = .ok begin) :
    id ∈ begin ↔ id ∈ store.identifiers := by
  rw [← Table.isSome_get?_iff, followStart_spec h]
  split <;> simp [*]

theorem mem_targets_iff :
    id ∈ store.occurrences.map Occurrence.target ↔ ∃ owner rest, store.Occurs owner id rest := by
  constructor
  · intro hid
    obtain ⟨o, ho, rfl⟩ := List.mem_map.1 hid
    exact ⟨o.owner, o.rest, occurs_of_mem ho⟩
  · intro ⟨owner, rest, hoccurs⟩
    obtain ⟨o, ho, -, rfl, -⟩ := hoccurs.exists_mem
    exact List.mem_map_of_mem ho

/-- Where passes are on their way: the nonterminals of the store have entries, and beside them only
    the targets of occurrences may have some. -/
structure Entered (store : Store) (table : SetTable) : Prop where
  identifiers : ∀ id ∈ store.identifiers, id ∈ table
  only : ∀ id ∈ table, id ∈ store.identifiers ∨ ∃ owner rest, store.Occurs owner id rest

theorem Entered.visitAll {table next : SetTable} {grew : Bool} (h : store.Entered table)
    (hpass : visitAll firsts store.occurrences table = (next, .ok grew)) : store.Entered next where
  identifiers id hid := mem_of_visitAll hpass (.inl (h.identifiers id hid))
  only id hid := by
    rcases mem_visitAll hpass hid with hold | htarget | howner
    · exact h.only id hold
    · exact .inr (mem_targets_iff.1 htarget)
    -- An owner without an entry would get one, but owners are nonterminals of the store.
    · obtain ⟨o, ho, rfl⟩ := List.mem_map.1 howner
      exact .inl (mem_identifiers_of_occurs (occurs_of_mem ho))

/-- Passes give entries to the targets of occurrences, beside those that there were. -/
theorem mem_follows {result : Follows} (h : (store.follows firsts start).result = .ok result) :
    id ∈ result.table ↔ id ∈ store.identifiers ∨ ∃ owner rest, store.Occurs owner id rest := by
  obtain ⟨begin, hbegin, hrun, -⟩ := follows_eq_ok.1 h
  have hentered : store.Entered begin :=
    ⟨fun id => (mem_followStart hbegin).2, fun id hid => .inl ((mem_followStart hbegin).1 hid)⟩
  have run := store.runs_followRun firsts begin
  rw [hrun] at run
  obtain ⟨table, hlast, hstep⟩ := run.last_pass store.Entered hentered fun table next h hstep =>
    h.visitAll (followStep_eq_ok.1 hstep)
  have hpass := followStep_eq_ok.1 hstep
  constructor
  · exact (hlast.visitAll hpass).only id
  · intro hid
    exact mem_of_visitAll hpass (hid.imp (hlast.identifiers id) mem_targets_iff.2)

end Store

end FirstFollow
