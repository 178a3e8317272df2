import Mathlib.Algebra.GroupWithZero.Nat
import Mathlib.Algebra.Order.BigOperators.Group.List
import Mathlib.Algebra.Order.Group.Nat
import FirstFollow.Analysis.SetTable

/-!
# Growing tables of symbol sets

A table relates each nonterminal to the symbols of its set, and a missing entry counts as an
empty set. Passes only ever grow tables. `SetTable.Grows` says what one pass, or a part of it,
does at least: the relation gets no smaller, the flag tells whether it got larger, and every
reported growth adds to the weight of the table. The weight has a bound when the keys and the
symbols come from finite lists (`SetTable.weight_le`), so growth ends.
-/

namespace FirstFollow

/-- The sets of nonterminals, read as a relation. -/
abbrev SymbolRelation := NonterminalId → Symbol → Prop

namespace SetTable

/-- A symbol is in the set of a nonterminal. -/
def rel (table : SetTable) : SymbolRelation := fun id x => x ∈ table.setOf id

/-- The number of symbols in all sets together. -/
def weight (table : SetTable) : Nat := (table.values.map SortedSet.size).sum

theorem setOf_eq_of_rel_eq {table next : SetTable} (h : next.rel = table.rel)
    (id : NonterminalId) : next.setOf id = table.setOf id :=
  SortedSet.ext fun x => iff_of_eq (congrFun (congrFun h id) x)

theorem not_rel_of_not_mem {table : SetTable} {id : NonterminalId} (h : id ∉ table) (x : Symbol) :
    ¬ table.rel id x := by
  unfold rel setOf
  rw [Table.get?_eq_none_iff.2 h]
  exact SortedSet.not_mem_empty x

theorem mem_symbols {table : SetTable} {x : Symbol} :
    x ∈ table.symbols ↔ ∃ id, table.rel id x := by
  constructor
  · intro h
    obtain ⟨set, hset, hx⟩ := List.mem_flatMap.1 h
    obtain ⟨⟨id, _⟩, hentry, rfl⟩ := List.mem_map.1 hset
    refine ⟨id, ?_⟩
    unfold rel setOf
    rw [Table.get?_eq_some_iff.2 hentry]
    exact hx
  · intro ⟨id, hx⟩
    unfold rel setOf at hx
    cases hset : table.get? id with
    | none =>
      rw [hset] at hx
      exact absurd hx (SortedSet.not_mem_empty x)
    | some set =>
      rw [hset] at hx
      have hentry := Table.get?_eq_some_iff.1 hset
      exact List.mem_flatMap.2 ⟨set, List.mem_map.2 ⟨_, hentry, rfl⟩, hx⟩

/-! ## Weight -/

theorem sum_insertEntry (f : SymbolSet → Nat) (id : NonterminalId) (set : SymbolSet)
    (entries : List (NonterminalId × SymbolSet)) :
    (((insertEntry id set entries).map Prod.snd).map f).sum +
        ((findEntry id entries).map f).getD 0 =
      ((entries.map Prod.snd).map f).sum + f set := by
  induction entries with
  | nil => simp [insertEntry, findEntry]
  | cons entry rest ih =>
    unfold insertEntry findEntry
    split
    -- The value that was there is weighed on the left, as it is replaced.
    · simp only [List.map_cons, List.sum_cons, Option.map_some, Option.getD_some]
      omega
    · simp only [List.map_cons, List.sum_cons]
      omega

theorem weight_insert (table : SetTable) (id : NonterminalId) (set : SymbolSet) :
    SetTable.weight (table.insert id set) + (table.setOf id).size = table.weight + set.size := by
  have hsum := sum_insertEntry SortedSet.size id set table.entries
  have hsize : ((findEntry id table.entries).map SortedSet.size).getD 0 =
      (table.setOf id).size := by
    change ((table.get? id).map SortedSet.size).getD 0 = ((table.get? id).getD ∅).size
    cases table.get? id <;> rfl
  rw [hsize] at hsum
  exact hsum

/-- What finitely many keys and symbols can weigh at most. -/
theorem weight_le {table : SetTable} {keys : List NonterminalId} {symbols : List Symbol}
    (hkeys : ∀ id ∈ table, id ∈ keys) (hsymbols : ∀ id x, table.rel id x → x ∈ symbols) :
    table.weight ≤ keys.length * symbols.length := by
  have hsizes : ∀ n ∈ table.values.map SortedSet.size, n ≤ symbols.length := by
    intro n hn
    obtain ⟨set, hset, rfl⟩ := List.mem_map.1 hn
    refine SortedSet.size_le_length fun x hx => ?_
    obtain ⟨id, hrel⟩ := mem_symbols.1 (List.mem_flatMap.2 ⟨set, hset, hx⟩)
    exact hsymbols id x hrel
  have hcount : table.entries.length ≤ keys.length := by
    simpa only [List.length_map] using table.nodup_keys.length_le_of_subset hkeys
  calc table.weight
      ≤ (table.values.map SortedSet.size).length * symbols.length :=
        List.sum_le_card_nsmul _ _ hsizes
    _ = table.entries.length * symbols.length := by simp [Table.values]
    _ ≤ keys.length * symbols.length := Nat.mul_le_mul_right _ hcount

/-! ## Growth -/

/-- A table grew into another one, and the flag tells whether it did at all. -/
structure Grows (old new : SetTable) (grew : Bool) : Prop where
  le : old.rel ≤ new.rel
  grew_iff : grew = true ↔ ¬ new.rel ≤ old.rel
  weight : old.weight + grew.toNat ≤ new.weight

variable {old mid new : SetTable} {grew more : Bool}

theorem Grows.refl (table : SetTable) : Grows table table false where
  le := le_rfl
  grew_iff := by simp
  weight := le_rfl

theorem Grows.trans (h : Grows old mid grew) (h' : Grows mid new more) :
    Grows old new (grew || more) where
  le := h.le.trans h'.le
  grew_iff := by
    rw [Bool.or_eq_true, h.grew_iff, h'.grew_iff, ← not_and_or, not_iff_not]
    constructor
    · intro ⟨hmid, hnew⟩
      exact hnew.trans hmid
    · intro hnew
      exact ⟨h'.le.trans hnew, hnew.trans h.le⟩
  weight := by
    have := h.weight
    have := h'.weight
    have : (grew || more).toNat ≤ grew.toNat + more.toNat := by cases grew <;> cases more <;> decide
    omega

/-- Without a reported growth all sets are as before. -/
theorem Grows.rel_eq (h : Grows old new false) : new.rel = old.rel :=
  le_antisymm (not_not.1 (mt h.grew_iff.2 (by simp))) h.le

theorem rel_grow {table : SetTable} {id other : NonterminalId} {more : SymbolSet} {x : Symbol} :
    (table.grow id more).1.rel other x ↔ table.rel other x ∨ other = id ∧ x ∈ more := by
  unfold rel
  rw [setOf_grow]
  split
  · rename_i h
    subst h
    simp
  · rename_i h
    have h' : ¬ other = id := fun e => h e.symm
    simp [h']

theorem grow_empty (table : SetTable) (id : NonterminalId) :
    (table.grow id ∅).1.rel = table.rel := by
  funext other x
  simp [rel_grow]

/-- The flag of one merge is exact. -/
theorem grows_grow (table : SetTable) (id : NonterminalId) (more : SymbolSet) :
    Grows table (table.grow id more).1 (table.grow id more).2 := by
  have hgrew : (table.grow id more).2 = true ↔
      (table.setOf id ∪ more).size ≠ (table.setOf id).size := bne_iff_ne
  have hsub : table.setOf id ⊆ table.setOf id ∪ more := fun x hx => SortedSet.mem_union.2 (.inl hx)
  have hsize := SortedSet.size_le_of_subset hsub
  refine ⟨fun other x hx => rel_grow.2 (.inl hx), ?_, ?_⟩
  -- The flag compares sizes, and a set that only gains has the same size when it gains nothing.
  · rw [hgrew]
    constructor
    · intro hne hle
      have hback : table.setOf id ∪ more ⊆ table.setOf id := fun x hx =>
        hle id x (rel_grow.2 ((SortedSet.mem_union.1 hx).imp_right fun h => ⟨rfl, h⟩))
      exact hne (le_antisymm (SortedSet.size_le_of_subset hback) hsize)
    · intro hle heq
      refine hle fun other x hx => ?_
      rcases rel_grow.1 hx with hold | ⟨rfl, hmore⟩
      · exact hold
      · by_contra hnew
        have := SortedSet.size_lt_of_subset hsub (SortedSet.mem_union.2 (.inr hmore)) hnew
        omega
  · have hweight := weight_insert table id (table.setOf id ∪ more)
    change table.weight + _ ≤ SetTable.weight (table.insert id (table.setOf id ∪ more))
    have hflag : (table.grow id more).2.toNat ≤
        (table.setOf id ∪ more).size - (table.setOf id).size := by
      cases h : (table.grow id more).2 with
      | false => exact Nat.zero_le _
      | true =>
        have := hgrew.1 h
        simp only [Bool.toNat_true]
        omega
    omega

/-- Merging nothing at most makes an entry. -/
theorem grows_grow_empty (table : SetTable) (id : NonterminalId) :
    Grows table (table.grow id ∅).1 false := by
  have h := grows_grow table id ∅
  cases hflag : (table.grow id ∅).2 with
  | false => rwa [hflag] at h
  | true => exact absurd (grow_empty table id).le (h.grew_iff.1 hflag)

end SetTable

end FirstFollow
