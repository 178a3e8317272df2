import Mathlib.Order.Bounds.Basic
import FirstFollow.Proofs.StoreHistory

/-!
# How analyses end

Freezing a store makes sure that its productions refer only to nonterminals with productions, so
the passes over a frozen store succeed. It does not make sure that named nonterminals and helpers
have productions. Of those that have none, an analysis names the least, once it has found the start;
when there are none, it succeeds (`Store.analyze_outcome`).
-/

namespace FirstFollow

/-! ## The least of some numbers -/

theorem lt_of_toList_eq_append {set : SortedSet Int} {front back : List Int} {i : Int}
    (h : set.toList = front ++ i :: back) : (∀ j ∈ front, j < i) ∧ ∀ j ∈ back, i < j := by
  have hsorted := set.ascending
  rw [h] at hsorted
  obtain ⟨-, hback, hfront⟩ := List.pairwise_append.1 hsorted
  refine ⟨fun j hj => ?_, fun j hj => ?_⟩
  · exact of_decide_eq_true (hfront j hj i List.mem_cons_self)
  · exact of_decide_eq_true ((List.pairwise_cons.1 hback).1 j hj)

/-- The first failure on the way through a set of numbers is that of the least number which
    fails. -/
theorem findSome?_toList_eq_some_iff {β : Type} {set : SortedSet Int} {f : Int → Option β} {b : β} :
    set.toList.findSome? f = some b ↔
      ∃ i, IsLeast {i | i ∈ set ∧ f i ≠ none} i ∧ f i = some b := by
  simp only [← SortedSet.mem_toList]
  constructor
  · intro h
    obtain ⟨front, i, back, hlist, hi, hfront⟩ := List.findSome?_eq_some_iff.1 h
    obtain ⟨-, hback⟩ := lt_of_toList_eq_append hlist
    rw [hlist]
    refine ⟨i, ⟨⟨by simp, by simp [hi]⟩, fun j ⟨hj, hfails⟩ => ?_⟩, hi⟩
    rcases List.mem_append.1 hj with hj | hj
    · exact absurd (hfront j hj) hfails
    · rcases List.mem_cons.1 hj with rfl | hj
      · exact le_rfl
      · exact (hback j hj).le
  · rintro ⟨i, ⟨⟨hi, -⟩, hleast⟩, hb⟩
    obtain ⟨front, back, hlist⟩ := List.append_of_mem hi
    obtain ⟨hfront, -⟩ := lt_of_toList_eq_append hlist
    rw [hlist] at hleast ⊢
    refine List.findSome?_eq_some_iff.2 ⟨front, i, back, rfl, hb, fun j hj => ?_⟩
    by_contra hfails
    exact (hfront j hj).not_ge (hleast ⟨List.mem_append_left _ hj, hfails⟩)

namespace Store

variable {store : Store} {firsts : SetTable} {symbols : List Symbol} {id : NonterminalId}
  {e : Error}

/-! ## The annotated symbols -/

/-- Entries fail with the failure of the first look-up that fails. -/
theorem firstEntries_eq_error_iff :
    firstEntries firsts symbols = .error e ↔
      symbols.findSome? (fun s => errorOf? (firsts.first s)) = some e := by
  induction symbols with
  | nil => simp [firstEntries]
  | cons s rest ih =>
    rw [firstEntries, List.findSome?_cons]
    cases firsts.first s with
    | error e' => simp [bind, Except.bind]
    | ok set =>
      rw [errorOf?_ok, ← ih]
      cases firstEntries firsts rest <;> simp [bind, Except.bind, pure, Except.pure]

/-- A nonterminal of the store that has no productions. -/
def Bare (store : Store) (id : NonterminalId) : Prop := id ∈ store.identifiers ∧ id ∉ store.keys

/-- With the FIRST sets of the store, what is missing first is that of the least bare
    nonterminal. -/
theorem firstEntries_eq_error_iff_bare (h : store.firsts = .ok firsts) :
    firstEntries firsts store.analyzedSymbols = .error e ↔
      ∃ id, IsLeast {id | store.Bare id} id ∧ e = .defect (.noProductions id) := by
  have hpresent : ∀ s ∈ Symbol.empty :: store.alphabet.toList.map .terminal,
      errorOf? (firsts.first s) = none := by
    simp only [List.forall_mem_cons, List.forall_mem_map]
    exact ⟨rfl, fun text _ => rfl⟩
  have hfailing : ∀ id, errorOf? (firsts.first (.nonterminal id)) ≠ none ↔ id ∉ store.keys := by
    intro id
    rw [← mem_firsts h, ne_eq, errorOf?_eq_none_iff]
    simp only [SetTable.first, firstOf_eq_ok, exists_and_left, exists_eq', and_true]
  rw [firstEntries_eq_error_iff, analyzedSymbols, List.findSome?_append,
    List.findSome?_eq_none_iff.2 hpresent, Option.none_or, List.findSome?_map,
    findSome?_toList_eq_some_iff]
  simp only [Function.comp_apply, hfailing, errorOf?_eq_some_iff]
  refine exists_congr fun id => and_congr_right fun hleast => ?_
  have hid : id ∉ firsts := fun hid => hleast.1.2 ((mem_firsts h).1 hid)
  exact firstOf_eq_error.trans (and_iff_right hid)

/-! ## Starts -/

/-- A start that the store knows: none, a name of the store, or a nonterminal with productions. -/
inductive KnowsStart (store : Store) : Start → Prop where
  | unspecified : KnowsStart store .unspecified
  | name {name : String} (h : name ∈ store.names) : KnowsStart store (.name name)
  | id {id : NonterminalId} (h : id ∈ store.keys) : KnowsStart store (.id id)

theorem startId_name_of_not_mem {name : String} (h : name ∉ store.names) :
    store.startId (.name name) = .error (.unknownIdentifier name) := by
  rw [startId, identifier, Table.get?_eq_none_iff.2 h]
  rfl

theorem startId_id_of_not_mem (h : id ∉ store.keys) :
    store.startId (.id id) = .error (.unknownIdentifier (toString id)) :=
  if_neg h

/-- A start that the store knows is a nonterminal of the store. -/
theorem KnowsStart.exists_startId {given : Start} (h : store.KnowsStart given) :
    ∃ start, store.startId given = .ok start ∧ ∀ id, start = some id → id ∈ store.identifiers := by
  have hid : ∃ start, store.startId given = .ok start := by
    cases h with
    | unspecified => exact ⟨none, rfl⟩
    | @name name h =>
      obtain ⟨id, hget⟩ := Option.isSome_iff_exists.1 (Table.isSome_get?_iff.2 h)
      refine ⟨some id, ?_⟩
      rw [startId, identifier, hget]
      rfl
    | id h => exact ⟨_, if_pos h⟩
  obtain ⟨start, hstart⟩ := hid
  refine ⟨start, hstart, ?_⟩
  rintro id rfl
  exact mem_identifiers_of_startId hstart

/-! ## The outcome -/

theorem analyze_of_open (h : store.frozen = false) (given : Start) :
    (store.analyze given).result = .error (.defect .notFrozen) :=
  analyze_eq_error.2 (.inl ⟨h, rfl⟩)

theorem analyze_of_startId (hfrozen : store.frozen = true) {given : Start}
    (h : store.startId given = .error e) : (store.analyze given).result = .error e :=
  analyze_eq_error.2 (.inr ⟨hfrozen, .inl h⟩)

/-- Some nonterminal without productions is the least, and no analysis gets past it. -/
theorem IsWellFormed.exists_least_bare (h : store.IsWellFormed) (hfrozen : store.frozen = true)
    (hbare : store.Bare id) :
    ∃ least, IsLeast {id | store.Bare id} least ∧ ∀ given, store.KnowsStart given →
      (store.analyze given).result = .error (.defect (.noProductions least)) := by
  obtain ⟨firsts, hfirsts⟩ := exists_firsts h
  cases hentries : firstEntries firsts store.analyzedSymbols with
  | ok entries =>
    have hmem : .nonterminal id ∈ entries.map Prod.fst := by
      rw [(firstEntries_spec hentries).1]
      exact mem_analyzedSymbols_nonterminal.2 hbare.1
    obtain ⟨⟨_, set⟩, hentry, rfl⟩ := List.mem_map.1 hmem
    have hset := firstOf_eq_ok.1 ((firstEntries_spec hentries).2 _ hentry)
    exact absurd ((mem_firsts hfirsts).1 hset.1) hbare.2
  | error e =>
    obtain ⟨least, hleast, rfl⟩ := (firstEntries_eq_error_iff_bare hfirsts).1 hentries
    refine ⟨least, hleast, fun given hgiven => ?_⟩
    obtain ⟨start, hstart, -⟩ := hgiven.exists_startId
    exact analyze_eq_error.2
      (.inr ⟨hfrozen, .inr ⟨start, hstart, .inr ⟨firsts, hfirsts, .inl hentries⟩⟩⟩)

/-- Of any store that edits can lead to: while it is open, its analysis is refused. Once it is
    frozen, an unknown start is refused first, then the least nonterminal without productions if
    there is one, and else the analysis succeeds. The passes over a frozen store never fail. -/
theorem analyze_outcome (h : store.Reached) :
    (store.frozen = false →
      ∀ given, (store.analyze given).result = .error (.defect .notFrozen)) ∧
    (store.frozen = true →
      (∀ name ∉ store.names,
        (store.analyze (.name name)).result = .error (.unknownIdentifier name)) ∧
      (∀ id ∉ store.keys,
        (store.analyze (.id id)).result = .error (.unknownIdentifier (toString id))) ∧
      ((∃ id, store.Bare id) →
        ∃ least, IsLeast {id | store.Bare id} least ∧ ∀ given, store.KnowsStart given →
          (store.analyze given).result = .error (.defect (.noProductions least))) ∧
      ((¬ ∃ id, store.Bare id) → ∀ given, store.KnowsStart given →
        ∃ sets, (store.analyze given).result = .ok sets ∧
          (∀ s, s ∈ sets.firsts ↔ s = .empty ∨ (∃ text ∈ store.alphabet, s = .terminal text) ∨
            ∃ id ∈ store.identifiers, s = .nonterminal id) ∧
          ∀ id, id ∈ sets.follows ↔ id ∈ store.identifiers) ∧
      ∃ firsts, store.firsts = .ok firsts ∧
        ∀ start, (∀ id, start = some id → id ∈ store.identifiers) →
          ∃ follows, (store.follows firsts start).result = .ok follows) := by
  refine ⟨analyze_of_open, fun hfrozen => ?_⟩
  have hwellFormed := h.isWellFormed hfrozen
  refine ⟨fun name hname => ?_, fun id hid => ?_, ?_, fun hnone given hgiven => ?_, ?_⟩
  · exact analyze_of_startId hfrozen (startId_name_of_not_mem hname)
  · exact analyze_of_startId hfrozen (startId_id_of_not_mem hid)
  · intro ⟨id, hbare⟩
    exact hwellFormed.exists_least_bare hfrozen hbare
  · obtain ⟨start, hstart, hknown⟩ := hgiven.exists_startId
    have hkeys : ∀ id ∈ store.identifiers, id ∈ store.keys := fun id hid =>
      by_contra fun hkey => hnone ⟨id, hid, hkey⟩
    obtain ⟨sets, hsets⟩ := exists_analyze hwellFormed hfrozen hkeys hstart hknown
    refine ⟨sets, hsets, fun s => ?_, fun id => mem_follows_of_analyze hsets⟩
    rw [mem_firsts_of_analyze hsets, mem_analyzedSymbols]
  · obtain ⟨firsts, hfirsts⟩ := exists_firsts hwellFormed
    exact ⟨firsts, hfirsts, fun start => exists_follows hwellFormed hfirsts⟩

/-- Edits of a store in which a helper gets no productions. -/
def bareEdits : List Edit :=
  [.add 0 [.nonterminal 1, .terminal "a"], .add 1 [.empty], .markSynthetic 3]

/-- A frozen store in which a helper and a named nonterminal have no productions. -/
def bareStore : Store := ofEdits (.ofList [("s", 0), ("t", 5)]) (bareEdits ++ [.freeze])

/-- A frozen store that lacks nothing. -/
def fullStore : Store :=
  ofEdits (.ofList [("s", 0), ("t", 5)]) (bareEdits ++ [.add 5 [.empty], .add 3 [.empty], .freeze])

/-- Analyses of `bareStore`, and of `fullStore` from the start that is bare in the other. -/
theorem analyze_outcome_bareStore :
    (bareStore.Reached ∧ bareStore.frozen = true ∧
      (bareStore.analyze (.name "u")).result = .error (.unknownIdentifier "u") ∧
      (bareStore.analyze (.id 5)).result = .error (.unknownIdentifier (toString (5 : Int))) ∧
      bareStore.Bare 5 ∧ bareStore.KnowsStart (.name "t") ∧
      (bareStore.analyze (.name "t")).result = .error (.defect (.noProductions 3))) ∧
    fullStore.Reached ∧ fullStore.frozen = true ∧ (¬ ∃ id, fullStore.Bare id) ∧
      ∃ sets, (fullStore.analyze (.name "t")).result = .ok sets := by
  have hreached : bareStore.Reached := reached_ofEdits _ _
  have hfrozen : bareStore.frozen = true := by decide +kernel
  have hreached' : fullStore.Reached := reached_ofEdits _ _
  have hfrozen' : fullStore.frozen = true := by decide +kernel
  have hname : "t" ∈ bareStore.names ∧ "t" ∈ fullStore.names ∧ "u" ∉ bareStore.names := by
    decide +kernel
  have hbare : (5 ∈ bareStore.identifiers ∧ 5 ∉ bareStore.keys) ∧ 3 ∈ bareStore.identifiers ∧
      3 ∉ bareStore.keys := by decide +kernel
  have hleast : ∀ id ∈ bareStore.identifiers.toList, id ∉ bareStore.keys → 3 ≤ id := by
    decide +kernel
  have hfull : ∀ id ∈ fullStore.identifiers.toList, id ∈ fullStore.keys := by decide +kernel
  have hnone : ¬ ∃ id, fullStore.Bare id := fun ⟨id, hid, hkey⟩ => hkey (hfull id hid)
  obtain ⟨hnames, hids, hfails, -⟩ := (analyze_outcome hreached).2 hfrozen
  obtain ⟨-, -, -, hsucceeds, -⟩ := (analyze_outcome hreached').2 hfrozen'
  obtain ⟨least, hisLeast, hfails⟩ := hfails ⟨5, hbare.1⟩
  obtain rfl : least = 3 := hisLeast.unique ⟨hbare.2, fun id hid => hleast id hid.1 hid.2⟩
  obtain ⟨sets, hsets, -⟩ := hsucceeds hnone _ (.name hname.2.1)
  exact ⟨⟨hreached, hfrozen, hnames _ hname.2.2, hids 5 hbare.1.2, hbare.1, .name hname.1,
    hfails _ (.name hname.1)⟩, hreached', hfrozen', hnone, sets, hsets⟩

end Store

end FirstFollow
