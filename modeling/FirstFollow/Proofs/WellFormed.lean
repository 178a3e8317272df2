import FirstFollow.Proofs.Analysis
import FirstFollow.Proofs.Solvability
import FirstFollow.Store.Freeze

/-!
# Well-formed stores

Freezing a store asks that its productions are well formed (`Store.defect?_eq_none_iff`), and an
analysis needs no more: on a frozen store whose productions are well formed, and whose nonterminals
all have productions, no pass meets a symbol that it cannot deal with
(`Store.exists_analyze`).
-/

namespace FirstFollow

/-! ## Productions -/

/-- A production holds symbols, the empty symbol only alone, and beside terminals only nonterminals
    with productions. -/
structure WellFormed (keys : List NonterminalId) (production : Production) : Prop where
  ne_nil : production ≠ []
  empty_alone : .empty ∈ production → production = [.empty]
  known : ∀ s ∈ production, s = .empty ∨ (∃ text, s = .terminal text) ∨
    ∃ id ∈ keys, s = .nonterminal id

section

variable {keys : List NonterminalId} {owner : NonterminalId} {production : Production}
  {s : Symbol}

theorem symbolDefect?_eq_none_iff :
    symbolDefect? keys owner production s = none ↔
      s = .empty ∧ production.length = 1 ∨ (∃ text, s = .terminal text) ∨
        ∃ id ∈ keys, s = .nonterminal id := by
  cases s <;> simp [symbolDefect?]

theorem productionDefect?_eq_none_iff :
    productionDefect? keys owner production = none ↔ WellFormed keys production := by
  unfold productionDefect?
  split
  · rename_i hblank
    refine iff_of_false nofun fun h => h.ne_nil (List.isEmpty_iff.1 hblank)
  · rename_i hblank
    rw [List.findSome?_eq_none_iff]
    simp only [symbolDefect?_eq_none_iff]
    constructor
    · intro h
      refine ⟨fun hnil => hblank (List.isEmpty_iff.2 hnil), fun hempty => ?_, fun s hs => ?_⟩
      · obtain ⟨-, hlength⟩ | ⟨text, ⟨⟩⟩ | ⟨id, -, ⟨⟩⟩ := h _ hempty
        obtain ⟨s, rfl⟩ := List.length_eq_one_iff.1 hlength
        rw [List.mem_singleton.1 hempty]
      · exact (h s hs).imp_left And.left
    · intro h s hs
      rcases h.known s hs with rfl | hs
      · exact .inl ⟨rfl, by rw [h.empty_alone hs]; rfl⟩
      · exact .inr hs

/-- Beside a nonterminal, a production holds terminals and nonterminals. -/
theorem WellFormed.known_of_mem {id : NonterminalId} (h : WellFormed keys production)
    (hid : .nonterminal id ∈ production) (hs : s ∈ production) :
    (∃ text, s = .terminal text) ∨ ∃ id ∈ keys, s = .nonterminal id := by
  refine (h.known s hs).resolve_left ?_
  rintro rfl
  rw [h.empty_alone hs, List.mem_singleton] at hid
  cases hid

end

namespace Store

variable {store : Store} {firsts : SetTable} {start : Option NonterminalId}
  {id : NonterminalId} {symbol : Symbol}

/-- All productions of a store are well formed. -/
def IsWellFormed (store : Store) : Prop :=
  ∀ rule ∈ store.alternatives, WellFormed store.keys rule.2

/-! ## Freezing -/

theorem defect?_eq_none_iff : store.defect? = none ↔ store.IsWellFormed := by
  unfold defect? IsWellFormed
  simp only [List.findSome?_eq_none_iff, productionDefect?_eq_none_iff]

/-- A well-formed store can be frozen. -/
theorem IsWellFormed.freeze (h : store.IsWellFormed) :
    store.freeze.result = .ok { store with frozen := true } := by
  unfold Store.freeze
  split
  · rename_i hfrozen
    rw [← hfrozen]
    rfl
  · rw [defect?_eq_none_iff.2 h]

/-! ## The parts of an analysis -/

theorem exists_firsts (h : store.IsWellFormed) : ∃ firsts, store.firsts = .ok firsts := by
  apply exists_firsts_iff.2
  intro rule hrule s hs
  rcases (h rule hrule).known s (scanned_mem hs) with rfl | ⟨text, rfl⟩ | ⟨id, hid, rfl⟩
  · trivial
  · trivial
  · exact hid

theorem exists_firstEntries {symbols : List Symbol}
    (h : ∀ s ∈ symbols, ∃ set, firsts.first s = .ok set) :
    ∃ entries, firstEntries firsts symbols = .ok entries := by
  induction symbols with
  | nil => exact ⟨_, rfl⟩
  | cons s rest ih =>
    obtain ⟨⟨set, hset⟩, hrest⟩ := List.forall_mem_cons.1 h
    obtain ⟨more, hmore⟩ := ih hrest
    exact ⟨_, firstEntries_cons_eq_ok.2 ⟨set, more, hset, hmore, rfl⟩⟩

/-- The scans of a well-formed store meet only symbols that they can deal with. -/
theorem exists_follows (h : store.IsWellFormed) (hfirsts : store.firsts = .ok firsts)
    (hstart : ∀ id, start = some id → id ∈ store.identifiers) :
    ∃ follows, (store.follows firsts start).result = .ok follows := by
  refine exists_follows_iff.2 ⟨hstart, fun owner target rest ⟨front, hmem⟩ s hs => ?_⟩
  -- A production with an occurrence does not hold the empty symbol, at which a scan would fail.
  have htarget : .nonterminal target ∈ front ++ .nonterminal target :: rest := by simp
  have hscanned : s ∈ front ++ .nonterminal target :: rest := by simp [scanned_mem hs]
  rcases (h _ hmem).known_of_mem htarget hscanned with ⟨text, rfl⟩ | ⟨id, hid, rfl⟩
  · trivial
  · exact (mem_firsts hfirsts).2 hid

/-! ## Whole analyses -/

/-- The analysis of a frozen, well-formed store whose nonterminals all have productions succeeds
    for every start that the store knows. -/
theorem exists_analyze {given : Start} (h : store.IsWellFormed) (hfrozen : store.frozen = true)
    (hkeys : ∀ id ∈ store.identifiers, id ∈ store.keys)
    (hgiven : store.startId given = .ok start)
    (hstart : ∀ id, start = some id → id ∈ store.identifiers) :
    ∃ sets, (store.analyze given).result = .ok sets := by
  obtain ⟨firsts, hfirsts⟩ := exists_firsts h
  have hsymbols : ∀ s ∈ store.analyzedSymbols, ∃ set, firsts.first s = .ok set := by
    intro s hs
    rcases mem_analyzedSymbols.1 hs with rfl | ⟨text, -, rfl⟩ | ⟨id, hid, rfl⟩
    · exact ⟨_, rfl⟩
    · exact ⟨_, rfl⟩
    · have hkey := hkeys id hid
      exact ⟨_, firstOf_eq_ok.2 ⟨(mem_firsts hfirsts).2 hkey, rfl⟩⟩
  obtain ⟨entries, hentries⟩ := exists_firstEntries hsymbols
  obtain ⟨follows, hfollows⟩ := exists_follows h hfirsts hstart
  exact ⟨_, analyze_eq_ok.2
    ⟨hfrozen, start, firsts, entries, follows, hgiven, hfirsts, hentries, hfollows, rfl⟩⟩

/-- An analysis has FIRST sets for the symbols of the grammar. -/
theorem mem_firsts_of_analyze {given : Start} {sets : GrammarSets}
    (h : (store.analyze given).result = .ok sets) :
    symbol ∈ sets.firsts ↔ symbol ∈ store.analyzedSymbols := by
  obtain ⟨-, _, _, _, _, -, -, hentries, -, rfl⟩ := analyze_eq_ok.1 h
  rw [Table.mem_ofList, (firstEntries_spec hentries).1]

/-- An analysis has FOLLOW sets for the nonterminals of the grammar. -/
theorem mem_follows_of_analyze {given : Start} {sets : GrammarSets}
    (h : (store.analyze given).result = .ok sets) :
    id ∈ sets.follows ↔ id ∈ store.identifiers := by
  obtain ⟨-, _, _, _, _, -, -, -, -, rfl⟩ := analyze_eq_ok.1 h
  rw [Table.mem_ofList]
  simp

end Store

end FirstFollow
