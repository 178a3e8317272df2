import FirstFollow.Proofs.Concatenation
import FirstFollow.Proofs.Exposure

/-!
# Ways to ask for FIRST

FIRST of a symbol can be read from an analysis, from the store, from the table of its FIRST sets,
or from a scan of the symbol alone. An analysis only copies the table for the symbols of the
grammar, and a scan of one symbol gives back what it looks up, so all four give the same set. The
set of a nonterminal is the union of FIRST of its productions: the table is a least solution, and
what is in a least solution comes from some production (`Store.first_agreement`).
-/

namespace FirstFollow

/-! ## Scans and what they look up -/

section

variable {lookup other : NonterminalId → Except Error SymbolSet} {set : SymbolSet}

/-- A scan that succeeds gives the same with a look-up that knows at least as much. -/
theorem sequenceFirst_mono (hle : ∀ id set, lookup id = .ok set → other id = .ok set)
    {symbols : List Symbol} (h : sequenceFirst lookup symbols = .ok set) :
    sequenceFirst other symbols = .ok set := by
  induction symbols generalizing set with
  | nil => exact h
  | cons s rest ih =>
    cases s with
    | empty => exact ih h
    | terminal text => exact h
    | nonterminal id =>
      obtain ⟨head, hhead, htail⟩ := bind_eq_ok.1 h
      apply bind_eq_ok.2
      refine ⟨head, hle id head hhead, ?_⟩
      split at htail
      · rename_i hempty
        obtain ⟨more, hmore, hset⟩ := bind_eq_ok.1 htail
        simp only [if_pos hempty]
        exact bind_eq_ok.2 ⟨more, ih hmore, hset⟩
      · rename_i hempty
        simp only [if_neg hempty]
        exact htail
    | _ => cases h

end

/-! ## The least solution as a fixed point -/

/-- What the productions give when nonterminals stand for the symbols of a relation. -/
def Produced (rules : List (NonterminalId × Production)) (R : SymbolRelation) : SymbolRelation :=
  fun id x => ∃ production, (id, production) ∈ rules ∧ First R production x

section

variable {rules : List (NonterminalId × Production)} {R : SymbolRelation}

theorem produced_le (h : FirstClosed rules R) : Produced rules R ≤ R :=
  fun _ x ⟨_, hmem, hfirst⟩ => h _ hmem x hfirst

/-- What the productions give is closed itself: they give no more from the smaller sets. -/
theorem firstClosed_produced (h : FirstClosed rules R) : FirstClosed rules (Produced rules R) :=
  fun rule hrule _ hfirst => ⟨rule.2, hrule, hfirst.mono (produced_le h)⟩

/-- What the least closed relation relates to a nonterminal comes from one of its productions. -/
theorem le_produced_of_isLeast (h : IsLeast {R | FirstClosed rules R} R) : R ≤ Produced rules R :=
  h.2 (firstClosed_produced h.1)

end

namespace Store

variable {store : Store} {start : Start} {sets : GrammarSets} {firsts : SetTable}
  {id : NonterminalId} {s : Symbol} {production : Production} {set : SymbolSet}

/-! ## The symbols of a grammar -/

/-- The empty symbol, the terminals of the alphabet and the nonterminals of the store. -/
def InGrammar (store : Store) : Symbol → Prop
  | .empty => True
  | .terminal text => text ∈ store.alphabet
  | .nonterminal id => id ∈ store.identifiers
  | _ => False

theorem inGrammar_iff_mem_analyzedSymbols : store.InGrammar s ↔ s ∈ store.analyzedSymbols := by
  rw [mem_analyzedSymbols]
  cases s <;> simp [InGrammar]

/-- Asking the store for FIRST is asking its table. -/
theorem first_eq_of_firsts (h : store.firsts = .ok firsts) (s : Symbol) :
    store.first s = firsts.first s := by
  cases s with
  | nonterminal id =>
    unfold Store.first
    rw [h]
    rfl
  | _ => rfl

/-- Of a symbol that is not in the grammar an analysis has no FIRST set. -/
theorem first_of_not_inGrammar (h : (store.analyze start).result = .ok sets)
    (hs : ¬ store.InGrammar s) : sets.first s = .error (.missingSymbol s) := by
  obtain ⟨_, _, firsts, _, _, _, hfirsts, -⟩ := analyze_eq_ok.1 h
  rw [inGrammar_iff_mem_analyzedSymbols] at hs
  unfold GrammarSets.first
  split
  · rename_i set hset
    have hknown := (first_eq_ok_of_analyze h hfirsts).1 (GrammarSets.first_eq_ok.2 hset)
    exact absurd hknown.1 hs
  · rfl

/-! ## Looking up in an analysis and in the table -/

/-- An analysis that succeeds has the nonterminals of the table, each with its set. -/
theorem first_nonterminal_eq_ok_iff (h : (store.analyze start).result = .ok sets)
    (hfirsts : store.firsts = .ok firsts) :
    sets.first (.nonterminal id) = .ok set ↔ firsts.firstOf id = .ok set := by
  rw [first_eq_ok_of_analyze h hfirsts, mem_analyzedSymbols_nonterminal]
  refine and_iff_right_of_imp fun hset => ?_
  have hkey : id ∈ store.keys := (mem_firsts hfirsts).1 (firstOf_eq_ok.1 hset).1
  exact SortedSet.mem_union.2 (.inr (SortedSet.mem_ofList.2 hkey))

theorem firstOf_eq_ok_iff (h : (store.analyze start).result = .ok sets)
    (hfirsts : store.firsts = .ok firsts) {symbols : List Symbol} :
    sets.firstOf symbols = .ok set ↔ sequenceFirst firsts.firstOf symbols = .ok set :=
  ⟨sequenceFirst_mono fun _ _ => (first_nonterminal_eq_ok_iff h hfirsts).1,
    sequenceFirst_mono fun _ _ => (first_nonterminal_eq_ok_iff h hfirsts).2⟩

/-- A symbol of the grammar stands for itself in a scan. -/
theorem firstOf_singleton (h : (store.analyze start).result = .ok sets)
    (hs : store.InGrammar s) (hset : sets.first s = .ok set) : sets.firstOf [s] = .ok set := by
  obtain ⟨_, _, _, _, _, _, hfirsts, -⟩ := analyze_eq_ok.1 h
  have htable := ((first_eq_ok_of_analyze h hfirsts).1 hset).2
  cases s with
  | empty => exact htable
  | terminal text => exact htable
  | nonterminal id => exact (sequenceFirst_nonterminal _ id).trans hset
  | _ => exact hs.elim

/-- The set of a nonterminal is the union of FIRST of its productions, each of which exists. -/
theorem mem_firsts_iff_exists_production (h : store.firsts = .ok firsts) {x : Symbol} :
    x ∈ firsts.setOf id ↔ ∃ production part, (id, production) ∈ store.alternatives ∧
      sequenceFirst firsts.firstOf production = .ok part ∧ x ∈ part := by
  constructor
  · intro hx
    obtain ⟨production, hmem, hfirst⟩ := le_produced_of_isLeast (isLeast_firsts h) id x hx
    obtain ⟨part, hpart, -⟩ := holdsFirsts_of_firsts h _ hmem
    exact ⟨production, part, hmem, hpart, (mem_sequenceFirst_firstOf hpart).2 hfirst⟩
  · intro ⟨production, part, hmem, hpart, hx⟩
    exact (isLeast_firsts h).1 _ hmem x ((mem_sequenceFirst_firstOf hpart).1 hx)

/-! ## Agreement -/

/-- When an analysis succeeds, the four ways to ask for FIRST of a symbol of the grammar agree, and
    the analysis has no entry for any other symbol. It gives a nonterminal with productions the
    union of what it gives for those, and a sequence of symbols what the table gives. -/
theorem first_agreement (h : (store.analyze start).result = .ok sets) :
    ∃ firsts, store.firsts = .ok firsts ∧
      (∀ s, store.InGrammar s → ∃ set, sets.first s = .ok set ∧ store.first s = .ok set ∧
        firsts.first s = .ok set ∧ sets.firstOf [s] = .ok set) ∧
      (∀ s, ¬ store.InGrammar s → sets.first s = .error (.missingSymbol s)) ∧
      (∀ id ∈ store.keys, ∃ set, sets.first (.nonterminal id) = .ok set ∧
        (∀ production, (id, production) ∈ store.alternatives →
          ∃ part, sets.firstOf production = .ok part) ∧
        ∀ x, x ∈ set ↔ ∃ production part, (id, production) ∈ store.alternatives ∧
          sets.firstOf production = .ok part ∧ x ∈ part) ∧
      ∀ symbols, (∀ s ∈ symbols, store.Knows s) →
        ∃ set, sets.firstOf symbols = .ok set ∧ sequenceFirst firsts.firstOf symbols = .ok set := by
  obtain ⟨_, _, firsts, _, _, _, hfirsts, -⟩ := analyze_eq_ok.1 h
  refine ⟨firsts, hfirsts, fun s hs => ?_, fun s => first_of_not_inGrammar h, fun id hid => ?_,
    fun symbols hknown => ?_⟩
  · obtain ⟨set, hset⟩ := exists_first_of_analyze h (inGrammar_iff_mem_analyzedSymbols.1 hs)
    have htable := ((first_eq_ok_of_analyze h hfirsts).1 hset).2
    exact ⟨set, hset, (first_eq_of_firsts hfirsts s).trans htable, htable,
      firstOf_singleton h hs hset⟩
  · have hset := firstOf_eq_ok.2 ⟨(mem_firsts hfirsts).2 hid, rfl⟩
    refine ⟨_, (first_nonterminal_eq_ok_iff h hfirsts).2 hset, fun production hmem => ?_, ?_⟩
    · obtain ⟨part, hpart, -⟩ := holdsFirsts_of_firsts hfirsts _ hmem
      exact ⟨part, (firstOf_eq_ok_iff h hfirsts).2 hpart⟩
    · simp only [firstOf_eq_ok_iff h hfirsts]
      exact fun x => mem_firsts_iff_exists_production hfirsts
  · obtain ⟨set, hset⟩ := exists_firstOf_of_analyze h hknown
    exact ⟨set, hset, (firstOf_eq_ok_iff h hfirsts).1 hset⟩

/-- Answers of the analysis of `leftRecursive`: for a nonterminal that recurs from the left, for a
    terminal that the store lacks, and for a sequence that begins with a nullable nonterminal and
    goes on with that terminal. -/
theorem first_agreement_leftRecursive :
    let symbols : List Symbol := [.empty, .nonterminal 1, .terminal "z", .nonterminal 3]
    ∃ sets firsts, (leftRecursive.analyze .unspecified).result = .ok sets ∧
      leftRecursive.firsts = .ok firsts ∧
      (leftRecursive.InGrammar (.nonterminal 2) ∧ ∃ set, sets.first (.nonterminal 2) = .ok set ∧
        leftRecursive.first (.nonterminal 2) = .ok set ∧ firsts.first (.nonterminal 2) = .ok set ∧
        sets.firstOf [.nonterminal 2] = .ok set) ∧
      (¬ leftRecursive.InGrammar (.terminal "z") ∧
        sets.first (.terminal "z") = .error (.missingSymbol (.terminal "z"))) ∧
      (0 ∈ leftRecursive.keys ∧ ∃ set, sets.first (.nonterminal 0) = .ok set ∧
        ∀ x, x ∈ set ↔ ∃ production part, (0, production) ∈ leftRecursive.alternatives ∧
          sets.firstOf production = .ok part ∧ x ∈ part) ∧
      (∀ s ∈ symbols, leftRecursive.Knows s) ∧
      ∃ set, sets.firstOf symbols = .ok set ∧
        sequenceFirst firsts.firstOf symbols = .ok set := by
  intro symbols
  have hanalyze : ∃ sets, (leftRecursive.analyze .unspecified).result = .ok sets := by
    decide +kernel
  have hids : ∀ id ∈ [1, 2, 3], id ∈ leftRecursive.identifiers := by decide +kernel
  have hknown : ∀ s ∈ symbols, leftRecursive.Knows s := by
    simp only [symbols, List.forall_mem_cons, Knows]
    exact ⟨trivial, hids 1 (by decide), trivial, hids 3 (by decide), List.forall_mem_nil _⟩
  have hgrammar : leftRecursive.InGrammar (.nonterminal 2) := hids 2 (by decide)
  have hforeign : "z" ∉ leftRecursive.alphabet := by decide +kernel
  have hkey : 0 ∈ leftRecursive.keys := by decide +kernel
  obtain ⟨sets, h⟩ := hanalyze
  obtain ⟨firsts, hfirsts, hagree, hmissing, hunion, hsequences⟩ := first_agreement h
  obtain ⟨set, hset, _, hparts⟩ := hunion 0 hkey
  exact ⟨sets, firsts, h, hfirsts, ⟨hgrammar, hagree _ hgrammar⟩,
    ⟨hforeign, hmissing _ hforeign⟩, ⟨hkey, set, hset, hparts⟩, hknown, hsequences _ hknown⟩

end Store

end FirstFollow
