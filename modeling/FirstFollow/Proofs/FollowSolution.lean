import FirstFollow.Proofs.FollowRules

/-!
# FOLLOW sets are a least solution

From any table and with any FIRST sets, the passes stop at the least solution of the merging
rules that contains the table (`Store.follow_least`). A pass that adds nothing is the only way
for them to stop, and whether a pass fails does not depend on the table.
-/

namespace FirstFollow

theorem mem_occurrencesIn {owner : NonterminalId} {production : Production} {o : Occurrence}
    {symbols : List Symbol} :
    o ∈ occurrencesIn owner production symbols ↔
      o.owner = owner ∧ o.production = production ∧
        ∃ front, symbols = front ++ .nonterminal o.target :: o.rest := by
  induction symbols with
  | nil => simp [occurrencesIn]
  | cons s rest ih =>
    have hskip : (∃ front, s :: rest = front ++ .nonterminal o.target :: o.rest) ↔
        s = .nonterminal o.target ∧ rest = o.rest ∨
          ∃ front, rest = front ++ .nonterminal o.target :: o.rest := by
      constructor
      · rintro ⟨_ | ⟨_, front⟩, h⟩
        · exact .inl (List.cons.inj h)
        · exact .inr ⟨front, (List.cons.inj h).2⟩
      · rintro (⟨rfl, rfl⟩ | ⟨front, rfl⟩)
        · exact ⟨[], rfl⟩
        · exact ⟨s :: front, rfl⟩
    rw [hskip]
    cases s with
    | nonterminal target =>
      rw [occurrencesIn, List.mem_cons, ih]
      constructor
      · rintro (rfl | ⟨howner, hproduction, hlater⟩)
        · exact ⟨rfl, rfl, .inl ⟨rfl, rfl⟩⟩
        · exact ⟨howner, hproduction, .inr hlater⟩
      · rintro ⟨rfl, rfl, ⟨htarget, rfl⟩ | hlater⟩
        · cases htarget
          exact .inl rfl
        · exact .inr ⟨rfl, rfl, hlater⟩
    | _ => simp [occurrencesIn, ih]

namespace Store

variable {store : Store} {firsts follows table : SetTable} {flags : List Bool}
  {grew : Bool} {start : Option NonterminalId} {R : SymbolRelation} {id : NonterminalId}
  {x : Symbol}

theorem mem_occurrences {o : Occurrence} :
    o ∈ store.occurrences ↔
      ∃ front, o.production = front ++ .nonterminal o.target :: o.rest ∧
        (o.owner, o.production) ∈ store.alternatives := by
  simp only [occurrences, List.mem_flatMap, mem_occurrencesIn]
  constructor
  · rintro ⟨⟨owner, production⟩, hmem, rfl, rfl, front, hfront⟩
    exact ⟨front, hfront, hmem⟩
  · intro ⟨front, hfront, hmem⟩
    exact ⟨_, hmem, rfl, rfl, front, hfront⟩

theorem occurs_of_mem {o : Occurrence} (h : o ∈ store.occurrences) :
    store.Occurs o.owner o.target o.rest := by
  obtain ⟨front, hfront, hmem⟩ := mem_occurrences.1 h
  exact ⟨front, hfront ▸ hmem⟩

theorem Occurs.exists_mem {owner target : NonterminalId} {rest : List Symbol}
    (h : store.Occurs owner target rest) :
    ∃ o ∈ store.occurrences, o.owner = owner ∧ o.target = target ∧ o.rest = rest := by
  obtain ⟨front, hmem⟩ := h
  exact ⟨⟨owner, target, rest, _⟩, mem_occurrences.2 ⟨front, rfl, hmem⟩, rfl, rfl, rfl⟩

/-- The rules hold when every occurrence has what it asks for. -/
theorem followClosed_iff :
    FollowClosed store firsts R ↔
      ∀ o ∈ store.occurrences, o.Adds firsts R ≤ R o.target := by
  constructor
  · rintro ⟨scanned, inherited⟩ o ho x (⟨s, hs, hx⟩ | ⟨hrest, hx⟩)
    · exact scanned (occurs_of_mem ho) hs x hx
    · exact inherited (occurs_of_mem ho) hrest x hx
  · intro h
    constructor
    · intro owner target rest s hoccurs hs x hx
      obtain ⟨o, ho, rfl, rfl, rfl⟩ := hoccurs.exists_mem
      exact h o ho x (.inl ⟨s, hs, hx⟩)
    · intro owner target rest hoccurs hrest x hx
      obtain ⟨o, ho, rfl, rfl, rfl⟩ := hoccurs.exists_mem
      exact h o ho x (.inr ⟨hrest, hx⟩)

/-! ## The loop -/

/-- A pass as a step of a loop: the table that it leaves, and whether a set grew. -/
def followStep (store : Store) (firsts table : SetTable) : Except Error (SetTable × Bool) :=
  match store.followPass firsts table with
  | (next, .ok changed) => .ok (next, changed)
  | (_, .error e) => .error e

theorem followStep_eq_ok {next : SetTable} :
    store.followStep firsts table = .ok (next, grew) ↔
      visitAll firsts store.occurrences table = (next, .ok grew) := by
  unfold followStep followPass
  rcases visitAll firsts store.occurrences table with ⟨last, _ | changed⟩ <;> simp

/-- The symbols that FOLLOW sets can come to hold. -/
def followSymbols (store : Store) (firsts follows : SetTable) : List Symbol :=
  store.alternatives.flatMap Prod.snd ++ firsts.symbols ++ follows.symbols

/-- The nonterminals that FOLLOW sets can come to belong to. -/
def followKeys (store : Store) (follows : SetTable) : List NonterminalId :=
  follows.keys ++ store.occurrences.map Occurrence.target ++
    store.occurrences.map Occurrence.owner

theorem adds_followSymbols :
    ∀ o ∈ store.occurrences,
      o.Adds firsts (fun _ x => x ∈ store.followSymbols firsts follows) ≤
        fun x => x ∈ store.followSymbols firsts follows := by
  rintro o ho x (⟨s, hs, hx⟩ | ⟨-, hx⟩)
  · obtain ⟨front, hfront, hmem⟩ := mem_occurrences.1 ho
    unfold followSymbols
    rw [List.mem_append, List.mem_append]
    cases s with
    | terminal text =>
      obtain rfl : x = .terminal text := hx
      refine .inl (.inl (List.mem_flatMap.2 ⟨_, hmem, ?_⟩))
      have := scanned_mem hs
      simp [hfront, this]
    | nonterminal id => exact .inl (.inr (SetTable.mem_symbols.2 ⟨id, hx.1⟩))
    | _ => exact hx.elim
  · exact hx

/-- A step does not leave any solution of the rules, and stops only at one. -/
theorem saturates_followStep (store : Store) (firsts : SetTable) :
    Saturates (store.followStep firsts) (FollowClosed store firsts) where
  grows h := visitAll_grows (followStep_eq_ok.1 h)
  le h hle hclosed := visitAll_le (followStep_eq_ok.1 h) hle (followClosed_iff.1 hclosed)
  closed h := followClosed_iff.2 (adds_le_of_visitAll (followStep_eq_ok.1 h))

/-- The passes stop by themselves: the limit on their number is never reached. -/
theorem runs_followRun (store : Store) (firsts follows : SetTable) :
    Runs (store.followStep firsts) follows (store.followRun firsts follows).flags
      (store.followRun firsts follows).result := by
  have hkeys : ∀ table next grew, store.followStep firsts table = .ok (next, grew) →
      (∀ id ∈ table, id ∈ store.followKeys follows) →
        ∀ id ∈ next, id ∈ store.followKeys follows := by
    intro table next grew hstep hkeys id hid
    rcases mem_visitAll (followStep_eq_ok.1 hstep) hid with hold | htarget | howner
    · exact hkeys id hold
    · exact List.mem_append_left _ (List.mem_append_right _ htarget)
    · exact List.mem_append_right _ howner
  have hsymbols : FollowClosed store firsts fun _ x => x ∈ store.followSymbols firsts follows :=
    followClosed_iff.2 adds_followSymbols
  have hmem : ∀ id ∈ follows, id ∈ store.followKeys follows := fun id hid =>
    List.mem_append_left _ (List.mem_append_left _ hid)
  have hrel : follows.rel ≤ fun _ x => x ∈ store.followSymbols firsts follows := fun id x hx =>
    List.mem_append_right _ (SetTable.mem_symbols.2 ⟨id, hx⟩)
  have hsize : (store.followKeys follows).length =
      follows.size + 2 * store.occurrences.length := by
    simp only [followKeys, List.length_append, List.length_map, Table.keys, Table.size]
    omega
  have enough : (store.followKeys follows).length * (store.followSymbols firsts follows).length <
      store.followBound firsts follows := by
    rw [hsize]
    exact Nat.lt_succ_self _
  exact (store.saturates_followStep firsts).runs hkeys hsymbols hmem hrel enough

/-! ## Where the loop ends -/

/-- Passes from a table end with another one, which is the least solution of the rules that
    contains the first, and which one more pass leaves as it is. -/
structure FollowSolved (store : Store) (firsts follows : SetTable) (flags : List Bool)
    (table : SetTable) : Prop where
  runs : Runs (store.followStep firsts) follows flags (.ok table)
  least : IsLeast {R | follows.rel ≤ R ∧ FollowClosed store firsts R} table.rel
  stable : ∃ next, store.followPass firsts table = (next, .ok false) ∧ next.rel = table.rel

/-- When one pass succeeds, passes succeed from every table. -/
theorem exists_followStep (h : (store.followPass firsts follows).2 = .ok grew)
    (table : SetTable) : ∃ next more, store.followStep firsts table = .ok (next, more) := by
  have hreadable := exists_visitAll_iff.1 ⟨_, _, Prod.ext_iff.2 ⟨rfl, h⟩⟩
  obtain ⟨last, more, hpass⟩ := exists_visitAll_iff.2 hreadable
  exact ⟨last, more, followStep_eq_ok.2 hpass⟩

/-- Passes that end with a table began with one that succeeded. -/
theorem exists_followPass_of_followRun
    (h : (store.followRun firsts follows).result = .ok table) :
    ∃ grew, (store.followPass firsts follows).2 = .ok grew := by
  have run := store.runs_followRun firsts follows
  rw [h] at run
  generalize (store.followRun firsts follows).flags = flags at run
  cases run with
  | stable hstep => exact ⟨_, congrArg Prod.snd (followStep_eq_ok.1 hstep)⟩
  | changed hstep => exact ⟨_, congrArg Prod.snd (followStep_eq_ok.1 hstep)⟩

theorem exists_followSolved (h : (store.followPass firsts follows).2 = .ok grew) :
    ∃ flags table, store.followRun firsts follows = ⟨flags, .ok table⟩ ∧
      store.FollowSolved firsts follows flags table := by
  have saturates := store.saturates_followStep firsts
  have run := store.runs_followRun firsts follows
  rcases hrun : store.followRun firsts follows with ⟨flags, result⟩
  rw [hrun] at run
  obtain ⟨table, rfl⟩ := run.exists_ok (fun _ => True) trivial fun table _ =>
    let ⟨next, more, hnext⟩ := exists_followStep h table
    ⟨next, more, hnext, trivial⟩
  have hleast := saturates.isLeast run
  refine ⟨flags, table, rfl, run, hleast, ?_⟩
  -- One more pass cannot leave the table, which is a solution itself.
  obtain ⟨next, more, hnext⟩ := exists_followStep h table
  have hmore : table.Grows next more := saturates.grows hnext
  have hback : next.rel ≤ table.rel := saturates.le hnext le_rfl hleast.1.2
  have hflag : more = false := by
    rw [← Bool.not_eq_true, hmore.grew_iff, not_not]
    exact hback
  subst hflag
  exact ⟨next, followStep_eq_ok.1 hnext, hmore.rel_eq⟩

/-! ## The start table -/

theorem followStart_spec {begin : SetTable} (h : store.followStart start = .ok begin)
    (id : NonterminalId) :
    begin.get? id = if id ∈ store.identifiers then
      some (if start = some id then {.endOfInput} else ∅) else none := by
  unfold followStart at h
  cases start with
  | none =>
    cases h
    simp [SetTable.get?_blank]
  | some s =>
    dsimp only at h
    split at h
    · rename_i hs
      cases h
      have hmem : s ∈ store.identifiers := SetTable.mem_blank.1 hs
      have hset : (SetTable.blank store.identifiers.toList).setOf s ∪ {.endOfInput} =
          {.endOfInput} := by
        ext x
        rw [SortedSet.mem_union]
        exact or_iff_right (SetTable.not_rel_blank _ s x)
      change Table.get? (Table.insert _ s _) id = _
      rw [Table.get?_insert, SetTable.get?_blank, hset]
      rcases eq_or_ne s id with rfl | hne
      · simp [hmem]
      · simp [hne]
    · cases h

theorem exists_followStart_iff :
    (∃ begin, store.followStart start = .ok begin) ↔
      ∀ id, start = some id → id ∈ store.identifiers := by
  unfold followStart
  cases start with
  | none => simp
  | some s =>
    dsimp only
    split <;> simp_all

/-- With a known start, FOLLOW sets are what the passes from its table make of them. -/
theorem follows_of_start {begin : SetTable} (h : store.followStart start = .ok begin) :
    store.follows firsts start =
      match (store.followRun firsts begin).result with
      | .ok table =>
        ⟨passEvents 1 (store.followRun firsts begin).flags ++
          [.followsConverged (store.followRun firsts begin).flags.length],
          .ok ⟨table, (store.followRun firsts begin).flags.length⟩⟩
      | .error e => ⟨passEvents 1 (store.followRun firsts begin).flags, .error e⟩ := by
  unfold follows
  rw [h]
  rfl

theorem follows_eq_ok {result : Follows} :
    (store.follows firsts start).result = .ok result ↔
      ∃ begin, store.followStart start = .ok begin ∧
        (store.followRun firsts begin).result = .ok result.table ∧
        result.passes = (store.followRun firsts begin).flags.length := by
  unfold follows
  rw [Logged.result_bind_eq_ok]
  refine exists_congr fun begin => and_congr_right fun _ => ?_
  rcases store.followRun firsts begin with ⟨flags, _ | table⟩
  · simp
  · obtain ⟨table', passes⟩ := result
    simp [eq_comm]

/-! ## The least solution -/

/-- From any table from which a pass succeeds, the passes end with the least solution of the rules
    that contains it. The FOLLOW sets of a store are the case where the table has an empty set
    for each nonterminal, and the end of input in the set of the start. -/
theorem follow_least (store : Store) (firsts : SetTable) :
    (∀ follows grew, (store.followPass firsts follows).2 = .ok grew →
      ∃ flags table, store.followRun firsts follows = ⟨flags, .ok table⟩ ∧
        store.FollowSolved firsts follows flags table) ∧
    (∀ start, (∃ begin, store.followStart start = .ok begin) ↔
      ∀ id, start = some id → id ∈ store.identifiers) ∧
    ∀ start begin, store.followStart start = .ok begin →
      (∀ id, begin.get? id = if id ∈ store.identifiers then
        some (if start = some id then {.endOfInput} else ∅) else none) ∧
      ∀ grew, (store.followPass firsts begin).2 = .ok grew →
        ∃ flags result, (store.follows firsts start).result = .ok result ∧
          result.passes = flags.length ∧
          store.FollowSolved firsts begin flags result.table := by
  refine ⟨fun follows grew h => exists_followSolved h, fun start => exists_followStart_iff, ?_⟩
  intro start begin hbegin
  refine ⟨followStart_spec hbegin, fun grew h => ?_⟩
  obtain ⟨flags, table, hrun, solved⟩ := exists_followSolved h
  refine ⟨flags, ⟨table, flags.length⟩, ?_, rfl, solved⟩
  rw [follows_eq_ok]
  refine ⟨begin, hbegin, ?_, ?_⟩
  · rw [hrun]
  · rw [hrun]

/-- A store in which the tail of a production may vanish, and two nonterminals follow each other
    in a circle. -/
def circularTails : Store :=
  let rules := [(0, [[.nonterminal 1, .terminal "a"]]),
    (1, [[.nonterminal 3, .terminal "b"], [.nonterminal 3, .nonterminal 2]]),
    (3, [[.nonterminal 1, .terminal "c"]]),
    (2, [[.terminal "d"], [.empty]])]
  ⟨⟨rules, by decide⟩, ∅, ∅, .ofList ["a", "b", "c", "d"], false⟩

/-- The passes over `circularTails` from a table with one entry, with FIRST sets that are none of
    its own. -/
theorem follow_least_circularTails :
    let firsts : SetTable := .ofList [(2, .ofList [.empty, .terminal "z"])]
    let follows : SetTable := .ofList [(1, {.endOfInput})]
    let begin : SetTable := .ofList [(0, {.endOfInput}), (1, ∅), (2, ∅), (3, ∅)]
    (circularTails.followPass firsts follows).2 = .ok true ∧
      (∃ flags table, circularTails.followRun firsts follows = ⟨flags, .ok table⟩ ∧
        circularTails.FollowSolved firsts follows flags table) ∧
      circularTails.followStart (some 0) = .ok begin ∧
      (circularTails.followPass firsts begin).2 = .ok true ∧
      ∃ flags result, (circularTails.follows firsts (some 0)).result = .ok result ∧
        result.passes = flags.length ∧
        circularTails.FollowSolved firsts begin flags result.table := by
  intro firsts follows begin
  obtain ⟨solves, -, starts⟩ := follow_least circularTails firsts
  have hpass : (circularTails.followPass firsts follows).2 = .ok true := by decide +kernel
  have hstart : circularTails.followStart (some 0) = .ok begin := by decide +kernel
  have hbegin : (circularTails.followPass firsts begin).2 = .ok true := by decide +kernel
  exact ⟨hpass, solves follows true hpass, hstart, hbegin,
    (starts (some 0) begin hstart).2 true hbegin⟩

end Store

end FirstFollow
