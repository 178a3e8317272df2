import FirstFollow.Proofs.Solvability
import FirstFollow.Proofs.StoreHistory

/-!
# What keeps FIRST sets from existing

A production exposes a symbol when all symbols before it can be erased. The passes over the FIRST
sets of a store fail when some production exposes a symbol that has no FIRST set, and only then,
however late the pass may be in which it comes to light. Otherwise they end with the least table
that contains FIRST of each production. There are few of them: at most one for each nonterminal
and each symbol that a set may hold, and one more (`Store.firsts_outcome`).
-/

namespace FirstFollow

namespace Store

variable {store : Store} {firsts table : SetTable} {s : Symbol} {id : NonterminalId} {e : Error}

/-! ## Erasable symbols -/

/-- The empty symbol can be erased, and a nonterminal with a production of erasable symbols. -/
inductive Erasable (store : Store) : Symbol → Prop where
  | empty : Erasable store .empty
  | nonterminal {id : NonterminalId} {production : Production}
      (mem : (id, production) ∈ store.alternatives) (h : ∀ s ∈ production, Erasable store s) :
      Erasable store (.nonterminal id)

/-- Erasable nonterminals are closed under scans. -/
theorem firstClosed_erasable (store : Store) :
    FirstClosed store.alternatives fun id x => x = .empty → store.Erasable (.nonterminal id) := by
  rintro ⟨id, production⟩ hrule x hx rfl
  obtain ⟨s, -, hs⟩ | ⟨-, hall⟩ := hx
  · exact absurd rfl hs.ne_empty
  · refine .nonterminal hrule fun s hs => ?_
    rcases hall s hs with rfl | hvanishes
    · exact .empty
    · cases s with
      | nonterminal target => exact hvanishes rfl
      | _ => exact hvanishes.elim

/-- Erasable symbols are those that derive the empty form. -/
theorem nullable_beginnings_iff : Nullable store.beginnings s ↔ store.Erasable s := by
  constructor
  · rintro (rfl | hvanishes)
    · exact .empty
    · cases s with
      | nonterminal id =>
        exact store.isLeast_beginnings.2 store.firstClosed_erasable id .empty hvanishes rfl
      | _ => exact hvanishes.elim
  · intro h
    induction h with
    | empty => exact .inl rfl
    | nonterminal mem _ ih =>
      have hempty : First store.beginnings _ .empty := .inr ⟨rfl, ih⟩
      exact .inr (store.firstClosed_beginnings _ mem .empty hempty)

/-- What can be erased has a FIRST set. -/
theorem Erasable.hasFirst (h : store.Erasable s) : HasFirst (· ∈ store.keys) s := by
  cases h with
  | empty => trivial
  | nonterminal mem _ => exact mem_keys_of_mem_alternatives mem

/-! ## Exposed symbols -/

/-- Some production holds, behind erasable symbols only, this symbol that has no FIRST set: it is
    none that productions are made of, or a nonterminal without productions. -/
def Exposes (store : Store) (s : Symbol) : Prop :=
  ∃ owner front back, (owner, front ++ s :: back) ∈ store.alternatives ∧
    (∀ t ∈ front, store.Erasable t) ∧ ¬ HasFirst (· ∈ store.keys) s

theorem exposes_iff :
    store.Exposes s ↔ ∃ rule ∈ store.alternatives, Scanned (Nullable store.beginnings) rule.2 s ∧
      ¬ HasFirst (· ∈ store.keys) s := by
  simp only [scanned_iff, nullable_beginnings_iff]
  constructor
  · intro ⟨owner, front, back, hmem, hfront, hlacks⟩
    exact ⟨_, hmem, ⟨front, back, rfl, hfront⟩, hlacks⟩
  · rintro ⟨⟨owner, _⟩, hmem, ⟨front, back, rfl, hfront⟩, hlacks⟩
    exact ⟨owner, front, back, hmem, hfront, hlacks⟩

/-- FIRST sets that do not exist are missed for an exposed symbol, which the failure names. -/
theorem exposes_of_firsts (h : store.firsts = .error e) :
    ∃ s, store.Exposes s ∧ e = .defect s.lackOfFirst := by
  obtain ⟨rule, hrule, s, hs, hlacks, he⟩ := firsts_eq_error h
  exact ⟨s, exposes_iff.2 ⟨rule, hrule, hs, hlacks⟩, he⟩

theorem exists_firsts_iff_not_exposes :
    (∃ firsts, store.firsts = .ok firsts) ↔ ¬ ∃ s, store.Exposes s := by
  rw [exists_firsts_iff]
  constructor
  · intro hscan ⟨s, hexposes⟩
    obtain ⟨rule, hrule, hs, hlacks⟩ := exposes_iff.1 hexposes
    exact hlacks (hscan rule hrule s hs)
  · intro hnone rule hrule s hs
    by_contra hlacks
    exact hnone ⟨s, exposes_iff.2 ⟨rule, hrule, hs, hlacks⟩⟩

/-! ## The table -/

/-- Each production has a FIRST set by the table, and the table holds that set in the set of the
    nonterminal. -/
def HoldsFirsts (store : Store) (table : SetTable) : Prop :=
  ∀ rule ∈ store.alternatives, ∃ set, sequenceFirst table.firstOf rule.2 = .ok set ∧
    set ⊆ table.setOf rule.1

/-- The table has the nonterminals of the store, and is the least one that holds FIRST of each
    production. Its sets are made of the empty symbol and the terminals of the store. -/
structure IsFirstTable (store : Store) (firsts : SetTable) : Prop where
  keys : ∀ id, id ∈ firsts ↔ id ∈ store.keys
  symbols : ∀ id, ∀ x ∈ firsts.setOf id, x = .empty ∨ ∃ text ∈ store.alphabet, x = .terminal text
  holds : store.HoldsFirsts firsts
  least : ∀ table, store.HoldsFirsts table → ∀ id, firsts.setOf id ⊆ table.setOf id

theorem mem_sequenceFirst_firstOf {symbols : List Symbol} {set : SymbolSet} {x : Symbol}
    (h : sequenceFirst table.firstOf symbols = .ok set) :
    x ∈ set ↔ First table.rel symbols x := by
  refine mem_sequenceFirst (fun id set hset x => ?_) h
  obtain ⟨-, rfl⟩ := firstOf_eq_ok.1 hset
  rfl

theorem HoldsFirsts.firstClosed (h : store.HoldsFirsts table) :
    FirstClosed store.alternatives table.rel := by
  intro rule hrule x hx
  obtain ⟨set, hset, hsub⟩ := h rule hrule
  exact hsub x ((mem_sequenceFirst_firstOf hset).2 hx)

/-- The computed table holds FIRST of each production: it has been looked up to the end. -/
theorem holdsFirsts_of_firsts (h : store.firsts = .ok firsts) : store.HoldsFirsts firsts := by
  intro rule hrule
  have hscan := exists_firsts_iff.1 ⟨firsts, h⟩ rule hrule
  rw [← rel_firsts h] at hscan
  have hkeys : (· ∈ store.keys) ≤ (· ∈ firsts) := fun id => (mem_firsts h).2
  obtain ⟨set, hset⟩ :=
    exists_sequenceFirst_firstOf_iff.2 fun s hs => (hscan s hs).mono hkeys
  refine ⟨set, hset, fun x hx => ?_⟩
  exact (isLeast_firsts h).1 rule hrule x ((mem_sequenceFirst_firstOf hset).1 hx)

/-- The symbols that sets can come to hold when the store keeps its alphabet. -/
def alphabetSymbols (store : Store) : List Symbol :=
  .empty :: store.alphabet.toList.map .terminal

theorem mem_alphabetSymbols {x : Symbol} :
    x ∈ store.alphabetSymbols ↔ x = .empty ∨ ∃ text ∈ store.alphabet, x = .terminal text := by
  simp [alphabetSymbols, eq_comm]

theorem Consistent.firstClosed (h : store.Consistent) :
    FirstClosed store.alternatives fun _ x => x ∈ store.alphabetSymbols := by
  refine firstClosed_of_terminals List.mem_cons_self fun rule hrule text hmem => ?_
  exact mem_alphabetSymbols.2 (.inr ⟨text, (h.alphabet text).2 ⟨rule, hrule, hmem⟩, rfl⟩)

theorem isFirstTable_of_firsts (hstore : store.Consistent) (h : store.firsts = .ok firsts) :
    store.IsFirstTable firsts where
  keys _ := mem_firsts h
  symbols id x hx := mem_alphabetSymbols.1 ((isLeast_firsts h).2 hstore.firstClosed id x hx)
  holds := holdsFirsts_of_firsts h
  least _ htable id x hx := (isLeast_firsts h).2 htable.firstClosed id x hx

/-! ## The outcome -/

/-- The passes begin at most once for each nonterminal and each symbol that a set may hold, and
    once more. -/
theorem begun_firstRun_le (h : store.Consistent) :
    store.firstRun.begun ≤ 1 + store.size * (store.alphabet.size + 1) := by
  have hsize : store.keys.length = store.size := List.length_map _
  have hcount : store.alphabetSymbols.length = store.alphabet.size + 1 := by
    simp [alphabetSymbols, SortedSet.size]
  have hle := (saturates_firstPass store.alternatives).begun_le mem_keys_of_firstPass h.firstClosed
    (fun id => SetTable.mem_blank.1) (SetTable.blank_le _ _) store.runs_firstRun
  rw [hsize, hcount, Nat.add_comm] at hle
  exact hle

/-- The passes over the FIRST sets of a store stop by themselves, after few passes. They fail when
    a production exposes a symbol that has no FIRST set, which is never an erasable one, and only
    then, and the failure names such a symbol. Otherwise they find the least table. -/
theorem firsts_outcome (h : store.Reached) :
    Runs (firstPass store.alternatives) (.blank store.keys) store.firstRun.flags store.firsts ∧
      store.firstRun.begun ≤ 1 + store.size * (store.alphabet.size + 1) ∧
      (∀ s, ¬ HasFirst (· ∈ store.keys) s → ¬ store.Erasable s) ∧
      ((∃ d, store.firsts = .error (.defect d)) ↔ ∃ s, store.Exposes s) ∧
      (∀ e, store.firsts = .error e → ∃ s, store.Exposes s ∧ e = .defect s.lackOfFirst) ∧
      ((¬ ∃ s, store.Exposes s) → ∃ firsts, store.firsts = .ok firsts ∧
        store.IsFirstTable firsts) := by
  refine ⟨store.runs_firstRun, begun_firstRun_le h.consistent, fun s => mt Erasable.hasFirst, ?_,
    fun e => exposes_of_firsts, ?_⟩
  · constructor
    · intro ⟨d, hfailed⟩
      obtain ⟨s, hexposes, -⟩ := exposes_of_firsts hfailed
      exact ⟨s, hexposes⟩
    · intro hexposes
      cases hfirsts : store.firsts with
      | ok firsts => exact absurd hexposes (exists_firsts_iff_not_exposes.1 ⟨firsts, hfirsts⟩)
      | error e =>
        obtain ⟨s, -, rfl⟩ := exposes_of_firsts hfirsts
        exact ⟨_, rfl⟩
  · intro hnone
    obtain ⟨firsts, hfirsts⟩ := exists_firsts_iff_not_exposes.2 hnone
    exact ⟨firsts, hfirsts, isFirstTable_of_firsts h.consistent hfirsts⟩

/-- An open store in which a text stands for a symbol behind a nonterminal that can be erased by
    way of others, which come later in the store and recur. -/
def exposingStore : Store :=
  ofEdits ∅ [.add 0 [.nonterminal 1, .alien "x"], .add 1 [.nonterminal 2, .nonterminal 2],
    .add 2 [.nonterminal 1, .terminal "a"], .add 2 [.nonterminal 3], .add 3 [.empty, .empty]]

/-- The same text behind a nonterminal that cannot be erased, since it ends with a terminal. -/
def hidingStore : Store :=
  ofEdits ∅ [.add 0 [.nonterminal 1, .alien "x"], .add 1 [.nonterminal 2, .nonterminal 2],
    .add 2 [.nonterminal 1, .terminal "a"], .add 2 [.empty, .terminal "b"]]

theorem exposes_exposingStore : exposingStore.Exposes (.alien "x") := by
  have hrules : (0, [.nonterminal 1, .alien "x"]) ∈ exposingStore.alternatives ∧
      (1, [.nonterminal 2, .nonterminal 2]) ∈ exposingStore.alternatives ∧
      (2, [.nonterminal 3]) ∈ exposingStore.alternatives ∧
      (3, [.empty, .empty]) ∈ exposingStore.alternatives := by decide +kernel
  obtain ⟨h0, h1, h2, h3⟩ := hrules
  have herase3 : exposingStore.Erasable (.nonterminal 3) :=
    .nonterminal h3 (by simp [Erasable.empty])
  have herase2 : exposingStore.Erasable (.nonterminal 2) := .nonterminal h2 (by simp [herase3])
  have herase1 : exposingStore.Erasable (.nonterminal 1) := .nonterminal h1 (by simp [herase2])
  exact ⟨0, [.nonterminal 1], [], h0, by simp [herase1], id⟩

/-- Passes over `exposingStore`, which fail late, and over `hidingStore`. -/
theorem firsts_outcome_exposingStore :
    (exposingStore.Reached ∧ exposingStore.firstRun.flags = [true, true, true] ∧
      exposingStore.Exposes (.alien "x") ∧ ∃ d, exposingStore.firsts = .error (.defect d)) ∧
    hidingStore.Reached ∧ hidingStore.firstRun.begun ≤ 10 ∧ (¬ ∃ s, hidingStore.Exposes s) ∧
      ∃ firsts, hidingStore.firsts = .ok firsts ∧ hidingStore.IsFirstTable firsts := by
  have hreached : exposingStore.Reached := reached_ofEdits _ _
  have hreached' : hidingStore.Reached := reached_ofEdits _ _
  have hflags : exposingStore.firstRun.flags = [true, true, true] := by decide +kernel
  have hfirsts : ∃ firsts, hidingStore.firsts = .ok firsts := by decide +kernel
  have hsizes : 1 + hidingStore.size * (hidingStore.alphabet.size + 1) = 10 := by decide +kernel
  obtain ⟨-, -, -, hfails, -⟩ := firsts_outcome hreached
  obtain ⟨-, hbegun, -, -, -, hfinds⟩ := firsts_outcome hreached'
  have hnone := exists_firsts_iff_not_exposes.1 hfirsts
  exact ⟨⟨hreached, hflags, exposes_exposingStore, hfails.2 ⟨_, exposes_exposingStore⟩⟩,
    hreached', hsizes ▸ hbegun, hnone, hfinds hnone⟩

end Store

end FirstFollow
