import FirstFollow.Proofs.Analysis
import FirstFollow.Proofs.Solvability
import FirstFollow.Proofs.StoreHistory

/-!
# Rearranged stores

Stores are alike when they have the same nonterminals, the same names, and for each nonterminal the
same productions, in any order and with any repetition. The rules that FIRST and FOLLOW sets are
least solutions of speak of the productions as a set, and so does the condition under which the
passes succeed. So passes over alike stores fail together or end with the same sets, however
differently they got there (`Store.alike_sets`).
-/

namespace FirstFollow

/-! ## Same answers -/

/-- Two tables give the same answer for every key. Their orders may differ. -/
def Table.Same {κ α : Type} [DecidableEq κ] (s t : Table κ α) : Prop :=
  ∀ key, s.get? key = t.get? key

/-- Two computations both fail, or both succeed with results that are the same. -/
inductive Agree {α : Type} (same : α → α → Prop) : Except Error α → Except Error α → Prop where
  | ok {a b : α} (h : same a b) : Agree same (.ok a) (.ok b)
  | error (e e' : Error) : Agree same (.error e) (.error e')

theorem agree_of_forall {α : Type} {same : α → α → Prop} {first second : Except Error α}
    (h : ∀ a, first = .ok a → ∃ b, second = .ok b ∧ same a b)
    (hback : ∀ b, second = .ok b → ∃ a, first = .ok a) : Agree same first second := by
  cases first with
  | ok a =>
    obtain ⟨b, rfl, hab⟩ := h a rfl
    exact .ok hab
  | error e =>
    cases second with
    | error e' => exact .error e e'
    | ok b =>
      obtain ⟨a, ⟨⟩⟩ := hback b rfl

theorem Agree.exists_ok {α : Type} {same : α → α → Prop} {first second : Except Error α} {a : α}
    (h : Agree same first second) (hfirst : first = .ok a) :
    ∃ b, second = .ok b ∧ same a b := by
  subst hfirst
  cases h with
  | ok h => exact ⟨_, rfl, h⟩

namespace Table

variable {κ α : Type} [DecidableEq κ] {s t : Table κ α}

theorem Same.symm (h : s.Same t) : t.Same s := fun key => (h key).symm

theorem Same.mem_iff (h : s.Same t) (key : κ) : key ∈ s ↔ key ∈ t := by
  rw [← isSome_get?_iff, ← isSome_get?_iff, h key]

theorem same_of_entries (h : ∀ entry ∈ s.entries, entry ∈ t.entries)
    (hback : ∀ entry ∈ t.entries, entry ∈ s.entries) : s.Same t := by
  intro key
  ext value
  rw [get?_eq_some_iff, get?_eq_some_iff]
  exact ⟨h _, hback _⟩

end Table

namespace SetTable

variable {s t : SetTable}

theorem setOf_eq (h : Table.Same s t) (id : NonterminalId) : s.setOf id = t.setOf id := by
  unfold setOf
  rw [h id]

theorem rel_eq (h : Table.Same s t) : s.rel = t.rel := by
  funext id x
  unfold rel
  rw [setOf_eq h]

/-- Tables of the same nonterminals are the same when their relations are. -/
theorem same_of_rel_eq (hmem : ∀ id, id ∈ s ↔ id ∈ t) (hrel : s.rel = t.rel) :
    Table.Same s t := by
  intro id
  by_cases hid : id ∈ s
  · rw [get?_of_mem hid, get?_of_mem ((hmem id).1 hid), setOf_eq_of_rel_eq hrel]
  · rw [Table.get?_eq_none_iff.2 hid, Table.get?_eq_none_iff.2 (mt (hmem id).2 hid)]

end SetTable

namespace Store

/-- Stores with the same nonterminals, names and helpers, and the same productions of each
    nonterminal. -/
structure Alike (a b : Store) : Prop where
  keys : ∀ id, id ∈ a.keys ↔ id ∈ b.keys
  names : a.names.Same b.names
  synthetic : a.synthetic = b.synthetic
  productions : ∀ rule, rule ∈ a.alternatives ↔ rule ∈ b.alternatives

variable {a b : Store} {firsts firsts' : SetTable} {start : Option NonterminalId}
  {R : SymbolRelation}

theorem Alike.symm (h : a.Alike b) : b.Alike a where
  keys id := (h.keys id).symm
  names := h.names.symm
  synthetic := h.synthetic.symm
  productions rule := (h.productions rule).symm

/-! ## FIRST sets -/

theorem Alike.firstClosed_iff (h : a.Alike b) :
    FirstClosed a.alternatives R ↔ FirstClosed b.alternatives R := by
  simp only [FirstClosed, h.productions]

theorem Alike.beginnings_eq (h : a.Alike b) : a.beginnings = b.beginnings := by
  have hleast := a.isLeast_beginnings
  simp only [h.firstClosed_iff] at hleast
  exact hleast.unique b.isLeast_beginnings

theorem Alike.exists_firsts (h : a.Alike b) (hfirsts : a.firsts = .ok firsts) :
    ∃ firsts', b.firsts = .ok firsts' ∧ Table.Same firsts firsts' := by
  obtain ⟨firsts', hfirsts'⟩ : ∃ firsts', b.firsts = .ok firsts' := by
    have hscan := exists_firsts_iff.1 ⟨firsts, hfirsts⟩
    simp only [h.productions, h.beginnings_eq, h.keys] at hscan
    exact exists_firsts_iff.2 hscan
  refine ⟨firsts', hfirsts', SetTable.same_of_rel_eq (fun id => ?_) ?_⟩
  · rw [mem_firsts hfirsts, mem_firsts hfirsts', h.keys]
  · rw [rel_firsts hfirsts, rel_firsts hfirsts', h.beginnings_eq]

/-! ## FOLLOW sets -/

theorem Alike.occurs_iff (h : a.Alike b) {owner target : NonterminalId} {rest : List Symbol} :
    a.Occurs owner target rest ↔ b.Occurs owner target rest := by
  simp only [Occurs, h.productions]

theorem Alike.identifiers_eq (h : a.Alike b) : a.identifiers = b.identifiers := by
  have hnamed : ∀ id, id ∈ a.named ↔ id ∈ b.named := by
    intro id
    rw [named, named, SortedSet.mem_ofList, SortedSet.mem_ofList, Table.mem_values_iff,
      Table.mem_values_iff]
    exact exists_congr fun name => by rw [h.names name]
  ext id
  simp only [identifiers, SortedSet.mem_union, SortedSet.mem_ofList, hnamed, h.synthetic, h.keys]

theorem Alike.followClosed (h : a.Alike b) (hrel : firsts.rel = firsts'.rel)
    (hclosed : FollowClosed a firsts R) : FollowClosed b firsts' R where
  scanned hoccurs hs := by
    rw [← hrel] at hs ⊢
    exact hclosed.scanned (h.occurs_iff.2 hoccurs) hs
  inherited hoccurs hrest := by
    rw [← hrel] at hrest
    exact hclosed.inherited (h.occurs_iff.2 hoccurs) hrest

/-- The FIRST sets that the passes are given may be tables in different orders. -/
theorem Alike.exists_follows (h : a.Alike b) (hsame : Table.Same firsts firsts') {result : Follows}
    (hresult : (a.follows firsts start).result = .ok result) :
    ∃ result', (b.follows firsts' start).result = .ok result' ∧
      Table.Same result.table result'.table := by
  have hrel := SetTable.rel_eq hsame
  have hreadable : ∀ s, Readable firsts s → Readable firsts' s := by
    intro s hs
    cases s with
    | terminal text => trivial
    | nonterminal id => exact (hsame.mem_iff id).1 hs
    | _ => exact hs.elim
  obtain ⟨result', hresult'⟩ : ∃ result', (b.follows firsts' start).result = .ok result' := by
    obtain ⟨hstart, hscan⟩ := exists_follows_iff.1 ⟨result, hresult⟩
    rw [h.identifiers_eq] at hstart
    refine exists_follows_iff.2 ⟨hstart, fun owner target rest hoccurs s hs => ?_⟩
    rw [← hrel] at hs
    exact hreadable s (hscan owner target rest (h.occurs_iff.2 hoccurs) s hs)
  have hclosed : ∀ R, FollowClosed a firsts R ↔ FollowClosed b firsts' R := fun R =>
    ⟨h.followClosed hrel, h.symm.followClosed hrel.symm⟩
  refine ⟨result', hresult', SetTable.same_of_rel_eq (fun id => ?_) ?_⟩
  · rw [mem_follows hresult, mem_follows hresult', h.identifiers_eq]
    simp only [h.occurs_iff]
  · have hleast := isLeast_follows hresult
    simp only [hclosed] at hleast
    exact hleast.unique (isLeast_follows hresult')

/-! ## Whole analyses -/

theorem Alike.startId_eq (h : a.Alike b) (given : Start) : a.startId given = b.startId given := by
  cases given with
  | unspecified => rfl
  | name name => simp only [startId, identifier, h.names name]
  | id id =>
    have hid : id ∈ a.rules ↔ id ∈ b.rules := h.keys id
    simp only [startId, hid]

theorem Alike.alphabet_eq (h : a.Alike b) (ha : a.Consistent) (hb : b.Consistent) :
    a.alphabet = b.alphabet := by
  ext text
  simp only [ha.alphabet, hb.alphabet, h.productions]

theorem firstEntries_eq (hsame : Table.Same firsts firsts') (symbols : List Symbol) :
    firstEntries firsts symbols = firstEntries firsts' symbols := by
  have hfirst : ∀ s, firsts.first s = firsts'.first s := by
    intro s
    cases s with
    | nonterminal id => simp only [SetTable.first, SetTable.firstOf, hsame id]
    | _ => rfl
  induction symbols with
  | nil => rfl
  | cons s rest ih => rw [firstEntries, firstEntries, hfirst, ih]

theorem Alike.analyze_eq_ok (h : a.Alike b) (ha : a.Consistent) (hb : b.Consistent)
    (hfrozen : b.frozen = true) {given : Start} {sets : GrammarSets}
    (hsets : (a.analyze given).result = .ok sets) : (b.analyze given).result = .ok sets := by
  obtain ⟨-, start, firsts, entries, follows, hstart, hfirsts, hentries, hfollows, rfl⟩ :=
    Store.analyze_eq_ok.1 hsets
  obtain ⟨firsts', hfirsts', hsame⟩ := h.exists_firsts hfirsts
  obtain ⟨follows', hfollows', htable⟩ := h.exists_follows hsame hfollows
  have hsymbols : a.analyzedSymbols = b.analyzedSymbols := by
    rw [analyzedSymbols, analyzedSymbols, h.alphabet_eq ha hb, h.identifiers_eq]
  rw [h.startId_eq] at hstart
  rw [firstEntries_eq hsame, hsymbols] at hentries
  apply Store.analyze_eq_ok.2
  refine ⟨hfrozen, start, firsts', entries, follows', hstart, hfirsts', hentries, hfollows', ?_⟩
  simp only [h.alphabet_eq ha hb, h.identifiers_eq, SetTable.setOf_eq htable]

/-- Passes over alike stores fail together or end with the same sets: FIRST passes, FOLLOW passes
    with any FIRST sets and any start, and whole analyses of frozen stores. -/
theorem alike_sets (h : a.Alike b) :
    Agree Table.Same a.firsts b.firsts ∧
    (∀ firsts start, Agree (fun x y => Table.Same x.table y.table)
      (a.follows firsts start).result (b.follows firsts start).result) ∧
    (a.Reached → b.Reached → a.frozen = true → b.frozen = true →
      ∀ given, Agree (· = ·) (a.analyze given).result (b.analyze given).result) := by
  refine ⟨?_, fun firsts start => ?_, fun ha hb hafrozen hbfrozen given => ?_⟩
  · apply agree_of_forall fun firsts => h.exists_firsts
    intro firsts' hfirsts'
    obtain ⟨firsts, hfirsts, -⟩ := h.symm.exists_firsts hfirsts'
    exact ⟨firsts, hfirsts⟩
  · have hself : Table.Same firsts firsts := fun _ => rfl
    apply agree_of_forall fun result => h.exists_follows hself
    intro result' hresult'
    obtain ⟨result, hresult, -⟩ := h.symm.exists_follows hself hresult'
    exact ⟨result, hresult⟩
  · apply agree_of_forall
    · intro sets hsets
      exact ⟨sets, h.analyze_eq_ok ha.consistent hb.consistent hbfrozen hsets, rfl⟩
    · intro sets hsets
      exact ⟨sets, h.symm.analyze_eq_ok hb.consistent ha.consistent hafrozen hsets⟩

/-- A store with left recursion and a nonterminal of two names. -/
def orderedStore : Store :=
  ofEdits (.ofList [("s", 0), ("t", 0)]) [.add 0 [.nonterminal 1, .terminal "a"],
    .add 0 [.nonterminal 0, .nonterminal 1], .add 1 [.terminal "b"], .add 1 [.empty],
    .markSynthetic 1, .freeze]

/-- The same productions as in `orderedStore`, in another order and one of them twice. -/
def shuffledStore : Store :=
  ofEdits (.ofList [("t", 0), ("s", 0)]) [.markSynthetic 1, .add 1 [.empty],
    .add 0 [.nonterminal 0, .nonterminal 1], .add 1 [.terminal "b"],
    .add 0 [.nonterminal 1, .terminal "a"], .add 1 [.empty], .freeze]

/-- The sets of `orderedStore`, which are those of `shuffledStore` too. -/
theorem alike_sets_shuffledStore :
    let firsts : SetTable :=
      .ofList [(0, .ofList [.terminal "a", .terminal "b"]), (1, .ofList [.empty, .terminal "b"])]
    let follows : SetTable :=
      .ofList [(0, .ofList [.endOfInput, .terminal "b"]),
        (1, .ofList [.endOfInput, .terminal "a", .terminal "b"])]
    orderedStore.Alike shuffledStore ∧ orderedStore.keys ≠ shuffledStore.keys ∧
      (orderedStore.firsts = .ok firsts ∧
        ∃ others, shuffledStore.firsts = .ok others ∧ Table.Same firsts others) ∧
      (∃ found others, (orderedStore.follows firsts (some 0)).result = .ok found ∧
        (shuffledStore.follows firsts (some 0)).result = .ok others ∧
        found.table = follows ∧ Table.Same follows others.table) ∧
      (orderedStore.Reached ∧ shuffledStore.Reached ∧
        orderedStore.frozen = true ∧ shuffledStore.frozen = true) ∧
      ∃ sets, (orderedStore.analyze (.name "s")).result = .ok sets ∧
        (shuffledStore.analyze (.name "s")).result = .ok sets := by
  intro firsts follows
  have hkeys : (∀ id ∈ orderedStore.keys, id ∈ shuffledStore.keys) ∧
      ∀ id ∈ shuffledStore.keys, id ∈ orderedStore.keys := by decide +kernel
  have hnames : (∀ entry ∈ orderedStore.names.entries, entry ∈ shuffledStore.names.entries) ∧
      ∀ entry ∈ shuffledStore.names.entries, entry ∈ orderedStore.names.entries := by
    decide +kernel
  have hrules : (∀ rule ∈ orderedStore.alternatives, rule ∈ shuffledStore.alternatives) ∧
      ∀ rule ∈ shuffledStore.alternatives, rule ∈ orderedStore.alternatives := by decide +kernel
  have halike : orderedStore.Alike shuffledStore := {
    keys := fun id => ⟨hkeys.1 id, hkeys.2 id⟩
    names := Table.same_of_entries hnames.1 hnames.2
    synthetic := by decide +kernel
    productions := fun rule => ⟨hrules.1 rule, hrules.2 rule⟩ }
  have hordered : orderedStore.Reached := reached_ofEdits _ _
  have hshuffled : shuffledStore.Reached := reached_ofEdits _ _
  have hfrozen : orderedStore.frozen = true ∧ shuffledStore.frozen = true := by decide +kernel
  have hfirsts : orderedStore.firsts = .ok firsts := by decide +kernel
  have hfollows : Follows.table <$> (orderedStore.follows firsts (some 0)).result =
      .ok follows := by decide +kernel
  have hanalyze : ∃ sets, (orderedStore.analyze (.name "s")).result = .ok sets := by
    decide +kernel
  obtain ⟨found, hfound, htable⟩ := map_eq_ok.1 hfollows
  obtain ⟨sets, hsets⟩ := hanalyze
  obtain ⟨hsameFirsts, hsameFollows, hsameSets⟩ := alike_sets halike
  obtain ⟨others, hothers, hsame⟩ := (hsameFollows firsts (some 0)).exists_ok hfound
  obtain ⟨_, hshuffledSets, rfl⟩ :=
    (hsameSets hordered hshuffled hfrozen.1 hfrozen.2 (.name "s")).exists_ok hsets
  exact ⟨halike, by decide +kernel, ⟨hfirsts, hsameFirsts.exists_ok hfirsts⟩,
    ⟨found, others, hfound, hothers, htable, htable ▸ hsame⟩,
    ⟨hordered, hshuffled, hfrozen⟩, sets, hsets, hshuffledSets⟩

end Store

end FirstFollow
