import FirstFollow.Analysis.GrammarSets
import FirstFollow.Proofs.FirstSets

/-!
# What an analysis answers

An analysis that succeeds hands out the FIRST and FOLLOW sets that the passes found
(`Store.analyze_eq_ok`). Its main property here is `Store.firstOf_exact`: what it answers for a
sequence of symbols is what derivations from the sequence begin with.
-/

namespace FirstFollow

namespace GrammarSets

theorem first_eq_ok {sets : GrammarSets} {symbol : Symbol} {set : SymbolSet} :
    sets.first symbol = .ok set ↔ sets.firsts.get? symbol = some set := by
  unfold first
  cases sets.firsts.get? symbol <;> simp

end GrammarSets

namespace Store

variable {store : Store} {start : Start} {sets : GrammarSets} {firsts : SetTable}
  {id : NonterminalId} {symbol : Symbol} {symbols : List Symbol}

/-! ## The parts of an analysis -/

/-- An analysis succeeds when the store is frozen, the start is known, and each of its parts
    succeeds. -/
theorem analyze_eq_ok :
    (store.analyze start).result = .ok sets ↔
      store.frozen = true ∧ ∃ id firsts entries follows, store.startId start = .ok id ∧
        store.firsts = .ok firsts ∧ firstEntries firsts store.analyzedSymbols = .ok entries ∧
        (store.follows firsts id).result = .ok follows ∧
        sets = ⟨store.alphabet, store.identifiers, .ofList entries,
          .ofList (store.identifiers.toList.map fun id => (id, follows.table.setOf id)), id⟩ := by
  unfold analyze
  split
  · rename_i hopen
    simp [show store.frozen = false by simpa using hopen]
  · rename_i hfrozen
    simp only [Logged.result_bind_eq_ok, Logged.result_lift, Logged.result_pure,
      show store.frozen = true by simpa using hfrozen, true_and, Except.ok.injEq]
    constructor
    · rintro ⟨id, hid, firsts, hfirsts, entries, hentries, follows, hfollows, rfl⟩
      exact ⟨id, firsts, entries, follows, hid, hfirsts, hentries, hfollows, rfl⟩
    · rintro ⟨id, firsts, entries, follows, hid, hfirsts, hentries, hfollows, rfl⟩
      exact ⟨id, hid, firsts, hfirsts, entries, hentries, follows, hfollows, rfl⟩

/-- An analysis fails on an open store, or with the failure of the first part that fails. -/
theorem analyze_eq_error {e : Error} :
    (store.analyze start).result = .error e ↔
      store.frozen = false ∧ e = .defect .notFrozen ∨
      store.frozen = true ∧ (store.startId start = .error e ∨
        ∃ id, store.startId start = .ok id ∧ (store.firsts = .error e ∨
          ∃ firsts, store.firsts = .ok firsts ∧
            (firstEntries firsts store.analyzedSymbols = .error e ∨
              (∃ entries, firstEntries firsts store.analyzedSymbols = .ok entries) ∧
                (store.follows firsts id).result = .error e))) := by
  unfold analyze
  split
  · rename_i hopen
    simp [show store.frozen = false by simpa using hopen, eq_comm]
  · rename_i hfrozen
    simp only [Logged.result_bind_eq_error, Logged.result_lift, Logged.result_pure,
      show store.frozen = true by simpa using hfrozen, Bool.true_eq_false, false_and, false_or,
      true_and, reduceCtorEq, and_false, exists_false, or_false, exists_and_right]

/-- The start of an analysis is a nonterminal of the store. -/
theorem mem_identifiers_of_startId {given : Start} (h : store.startId given = .ok (some id)) :
    id ∈ store.identifiers := by
  unfold identifiers
  simp only [SortedSet.mem_union, SortedSet.mem_ofList]
  cases given with
  | unspecified => cases h
  | name name =>
    obtain ⟨_, hid, ⟨⟩⟩ := map_eq_ok.1 h
    unfold identifier at hid
    split at hid
    · rename_i found hfound
      cases hid
      exact .inl (.inl (SortedSet.mem_ofList.2 (Table.mem_values_iff.2 ⟨name, hfound⟩)))
    · cases hid
  | id given =>
    simp only [startId] at h
    split at h
    · rename_i hkey
      cases h
      exact .inr hkey
    · cases h

theorem firstEntries_cons_eq_ok {rest : List Symbol} {entries : List (Symbol × SymbolSet)} :
    firstEntries firsts (symbol :: rest) = .ok entries ↔
      ∃ set more, firsts.first symbol = .ok set ∧ firstEntries firsts rest = .ok more ∧
        entries = (symbol, set) :: more := by
  rw [firstEntries]
  simp only [bind_eq_ok, pure, Except.pure, Except.ok.injEq]
  constructor
  · rintro ⟨set, hset, more, hmore, rfl⟩
    exact ⟨set, more, hset, hmore, rfl⟩
  · rintro ⟨set, more, hset, hmore, rfl⟩
    exact ⟨set, hset, more, hmore, rfl⟩

/-- The entries are the symbols, each with its FIRST set. -/
theorem firstEntries_spec {entries : List (Symbol × SymbolSet)}
    (h : firstEntries firsts symbols = .ok entries) :
    entries.map Prod.fst = symbols ∧
      ∀ entry ∈ entries, firsts.first entry.1 = .ok entry.2 := by
  induction symbols generalizing entries with
  | nil =>
    cases h
    simp
  | cons symbol rest ih =>
    obtain ⟨set, more, hset, hmore, rfl⟩ := firstEntries_cons_eq_ok.1 h
    obtain ⟨hkeys, hvalues⟩ := ih hmore
    exact ⟨by rw [List.map_cons, hkeys], List.forall_mem_cons.2 ⟨hset, hvalues⟩⟩

theorem mem_analyzedSymbols :
    symbol ∈ store.analyzedSymbols ↔ symbol = .empty ∨
      (∃ text ∈ store.alphabet, symbol = .terminal text) ∨
        ∃ id ∈ store.identifiers, symbol = .nonterminal id := by
  simp [analyzedSymbols, eq_comm]

theorem mem_analyzedSymbols_nonterminal :
    .nonterminal id ∈ store.analyzedSymbols ↔ id ∈ store.identifiers := by
  simp [mem_analyzedSymbols]

/-- An analysis answers for the symbols of the grammar, with the FIRST sets of the passes. -/
theorem first_eq_ok_of_analyze (h : (store.analyze start).result = .ok sets)
    (hfirsts : store.firsts = .ok firsts) {set : SymbolSet} :
    sets.first symbol = .ok set ↔
      symbol ∈ store.analyzedSymbols ∧ firsts.first symbol = .ok set := by
  obtain ⟨-, _, _, entries, _, -, hfirsts', hentries, -, rfl⟩ := analyze_eq_ok.1 h
  cases hfirsts.symm.trans hfirsts'
  obtain ⟨hkeys, hvalues⟩ := firstEntries_spec hentries
  -- The answer depends on the symbol alone, so it does not matter which entry came last.
  have hanswer : ∀ entry ∈ entries, (firsts.first entry.1).toOption = some entry.2 :=
    fun entry he => congrArg Except.toOption (hvalues entry he)
  have hget : (Table.ofList entries).get? symbol =
      if symbol ∈ store.analyzedSymbols then (firsts.first symbol).toOption else none := by
    unfold Table.ofList
    rw [Table.get?_insertMany (fun symbol => (firsts.first symbol).toOption) hanswer, hkeys]
    rfl
  rw [GrammarSets.first_eq_ok, hget]
  split
  · rename_i hsymbol
    cases firsts.first symbol <;> simp [hsymbol, Except.toOption]
  · rename_i hsymbol
    simp [hsymbol]

/-- No symbol of the grammar is left without an answer. -/
theorem exists_first_of_analyze (h : (store.analyze start).result = .ok sets)
    (hsymbol : symbol ∈ store.analyzedSymbols) : ∃ set, sets.first symbol = .ok set := by
  obtain ⟨-, _, firsts, entries, _, -, hfirsts, hentries, -⟩ := analyze_eq_ok.1 h
  obtain ⟨hkeys, hvalues⟩ := firstEntries_spec hentries
  have hmem : symbol ∈ entries.map Prod.fst := hkeys ▸ hsymbol
  obtain ⟨entry, hentry, rfl⟩ := List.mem_map.1 hmem
  exact ⟨entry.2, (first_eq_ok_of_analyze h hfirsts).2 ⟨hsymbol, hvalues entry hentry⟩⟩

/-! ## FIRST is exact -/

/-- The symbols that an analysis knows: nonterminals must be those of the store. -/
def Knows (store : Store) : Symbol → Prop
  | .empty => True
  | .terminal _ => True
  | .nonterminal id => id ∈ store.identifiers
  | _ => False

/-- A set holds the terminals that a sentential form can begin with, the empty symbol if the form
    derives the empty form, and nothing else. -/
structure IsFirst (store : Store) (form : List Symbol) (set : SymbolSet) : Prop where
  terminal : ∀ text, .terminal text ∈ set ↔ ∃ rest, store.Derives form (.terminal text :: rest)
  empty : .empty ∈ set ↔ store.Derives form []
  only : ∀ x ∈ set, x = .empty ∨ ∃ text, x = .terminal text

theorem isFirst_of_mem_iff {set : SymbolSet} (h : ∀ x, x ∈ set ↔ store.Begins symbols x) :
    store.IsFirst (visible symbols) set where
  terminal text := (h _).trans begins_terminal_iff
  empty := (h _).trans begins_empty_iff
  only x hx := by
    cases (h x).1 hx with
    | terminal => exact .inr ⟨_, rfl⟩
    | empty => exact .inl rfl

/-- Of a nonterminal, an analysis answers with what it can begin with. -/
theorem mem_first_of_analyze (h : (store.analyze start).result = .ok sets) {set : SymbolSet}
    (hset : sets.first (.nonterminal id) = .ok set) (x : Symbol) :
    x ∈ set ↔ store.beginnings id x := by
  obtain ⟨-, _, firsts, _, _, -, hfirsts, -⟩ := analyze_eq_ok.1 h
  obtain ⟨-, hset⟩ := (first_eq_ok_of_analyze h hfirsts).1 hset
  obtain ⟨-, rfl⟩ := firstOf_eq_ok.1 hset
  rw [← rel_firsts hfirsts]
  rfl

/-- An analysis has an answer for every sequence of symbols that it knows. -/
theorem exists_firstOf_of_analyze (h : (store.analyze start).result = .ok sets)
    (hknown : ∀ s ∈ symbols, store.Knows s) : ∃ set, sets.firstOf symbols = .ok set := by
  refine exists_sequenceFirst fun s hs => ?_
  have hs := hknown s hs
  cases s with
  | empty => exact .inl rfl
  | terminal text => exact .inr (.inl ⟨text, rfl⟩)
  | nonterminal id =>
    exact .inr (.inr ⟨id, rfl, exists_first_of_analyze h (mem_analyzedSymbols_nonterminal.2 hs)⟩)
  | _ => exact hs.elim

/-- The answers of an analysis for sequences of symbols, and those for single nonterminals, are
    what derivations begin with. -/
theorem firstOf_exact (h : (store.analyze start).result = .ok sets) :
    (∀ symbols, (∀ s ∈ symbols, store.Knows s) →
      ∃ set, sets.firstOf symbols = .ok set ∧ store.IsFirst (visible symbols) set) ∧
    ∀ id ∈ store.identifiers,
      (∃ set, sets.first (.nonterminal id) = .ok set ∧ store.IsFirst [.nonterminal id] set) ∧
      ∃ nullable, sets.isNullable id = .ok nullable ∧
        (nullable = true ↔ store.Derives [.nonterminal id] []) := by
  constructor
  · intro symbols hknown
    obtain ⟨set, hset⟩ := exists_firstOf_of_analyze h hknown
    refine ⟨set, hset, isFirst_of_mem_iff fun x => ?_⟩
    rw [mem_sequenceFirst (fun id set => mem_first_of_analyze h) hset]
    exact ⟨begins_of_first, Begins.first store.firstClosed_beginnings⟩
  · intro id hid
    obtain ⟨set, hset⟩ := exists_first_of_analyze h (mem_analyzedSymbols_nonterminal.2 hid)
    have hfirst : store.IsFirst [.nonterminal id] set :=
      isFirst_of_mem_iff (mem_first_of_analyze h hset)
    refine ⟨⟨set, hset, hfirst⟩, decide (.empty ∈ set), ?_, ?_⟩
    · unfold GrammarSets.isNullable
      rw [hset]
      rfl
    · rw [decide_eq_true_iff]
      exact hfirst.empty

/-- A frozen store with nonterminals that recur from the left, by themselves and by way of each
    other, one that may vanish and one that derives no string. -/
def leftRecursive : Store :=
  let rules := [(0, [[.nonterminal 0, .terminal "a"], [.nonterminal 1]]),
    (1, [[.nonterminal 2, .nonterminal 0, .terminal "b"], [.empty]]),
    (2, [[.nonterminal 1, .terminal "c"], [.nonterminal 3], [.empty]]),
    (3, [[.terminal "d", .nonterminal 3]])]
  ⟨⟨rules, by decide⟩, ∅, ∅, .ofList ["a", "b", "c", "d"], true⟩

/-- The analysis of `leftRecursive`, for a sequence and for a nonterminal. -/
theorem firstOf_exact_leftRecursive :
    let symbols : List Symbol := [.empty, .nonterminal 2, .nonterminal 1, .nonterminal 3]
    ∃ sets, (leftRecursive.analyze .unspecified).result = .ok sets ∧
      (∀ s ∈ symbols, leftRecursive.Knows s) ∧
      (∃ set, sets.firstOf symbols = .ok set ∧ leftRecursive.IsFirst (visible symbols) set) ∧
      ∃ nullable, sets.isNullable 2 = .ok nullable ∧
        (nullable = true ↔ leftRecursive.Derives [.nonterminal 2] []) := by
  intro symbols
  have hanalyze : ∃ sets, (leftRecursive.analyze .unspecified).result = .ok sets := by
    decide +kernel
  have hids : ∀ id ∈ [1, 2, 3], id ∈ leftRecursive.identifiers := by decide +kernel
  have hknown : ∀ s ∈ symbols, leftRecursive.Knows s := by
    simp only [symbols, List.forall_mem_cons, Knows]
    exact ⟨trivial, hids 2 (by decide), hids 1 (by decide), hids 3 (by decide),
      List.forall_mem_nil _⟩
  obtain ⟨sets, h⟩ := hanalyze
  obtain ⟨hforms, hsingle⟩ := firstOf_exact h
  exact ⟨sets, h, hknown, hforms symbols hknown, (hsingle 2 (hids 2 (by decide))).2⟩

end Store

end FirstFollow
