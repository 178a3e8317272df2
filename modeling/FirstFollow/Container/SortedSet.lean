import FirstFollow.Text.Order

/-!
# Sorted sets

Finite sets as strictly ascending lists. Each set has one representation, so two sets are equal
exactly when they have the same members (`SortedSet.ext`), and listing a set lists it in order.
-/

namespace FirstFollow

universe u

/-- A strict linear order that can be decided: what a sorted set asks of its elements. -/
class Ordered (α : Type u) where
  /-- Whether a set lists the first element ahead of the second. -/
  before : α → α → Bool
  irrefl : ∀ a, before a a = false
  trans : ∀ {a b c}, before a b = true → before b c = true → before a c = true
  connected : ∀ a b, before a b = true ∨ a = b ∨ before b a = true

open Ordered

theorem Ordered.eq_of_not_before {α : Type u} [Ordered α] {a b : α} (h : ¬ before a b = true)
    (h' : ¬ before b a = true) : a = b :=
  (connected a b).elim (absurd · h) (·.elim id (absurd · h'))

theorem Ordered.not_before_self {α : Type u} [Ordered α] (a : α) : ¬ before a a = true := by
  simp [irrefl]

instance : Ordered Int where
  before i j := decide (i < j)
  irrefl i := by simp
  trans h h' := by
    rw [decide_eq_true_iff] at h h' ⊢
    omega
  connected i j := by
    simp only [decide_eq_true_iff]
    omega

instance : Ordered String where
  before s t := textBefore s.toList t.toList
  irrefl s := textBefore_irrefl s.toList
  trans := textBefore_trans
  connected s t := by
    rw [← String.toList_inj]
    exact textBefore_connected s.toList t.toList

/-- A list is ascending when each element comes before all after it. -/
abbrev Ascending {α : Type u} [Ordered α] (l : List α) : Prop :=
  l.Pairwise fun a b => before a b = true

/-! ## Insertion into a sorted list -/

/-- Puts `a` in its place, unless it is there already. -/
def insertSorted {α : Type u} [Ordered α] (a : α) : List α → List α
  | [] => [a]
  | b :: rest =>
    if before a b then a :: b :: rest
    else if before b a then b :: insertSorted a rest
    else b :: rest

section

variable {α : Type u} [Ordered α]

theorem mem_insertSorted {a b : α} {l : List α} : b ∈ insertSorted a l ↔ b = a ∨ b ∈ l := by
  induction l with
  | nil => simp [insertSorted]
  | cons c rest ih =>
    unfold insertSorted
    split
    · simp
    · split
      · simp only [List.mem_cons, ih]
        grind
      · have : a = c := eq_of_not_before ‹_› ‹_›
        simp [this]

theorem ascending_insertSorted {a : α} {l : List α} (h : Ascending l) :
    Ascending (insertSorted a l) := by
  induction l with
  | nil => simp [insertSorted]
  | cons c rest ih =>
    obtain ⟨hc, hrest⟩ := List.pairwise_cons.1 h
    unfold insertSorted
    split
    · rename_i hac
      refine List.pairwise_cons.2 ⟨fun b hb => ?_, h⟩
      rcases List.mem_cons.1 hb with rfl | hb
      · exact hac
      · exact trans hac (hc b hb)
    · split
      · rename_i hca
        refine List.pairwise_cons.2 ⟨fun b hb => ?_, ih hrest⟩
        rcases mem_insertSorted.1 hb with rfl | hb
        · exact hca
        · exact hc b hb
      · exact h

end

/-! ## Merging sorted lists -/

/-- Merges `a :: l` with a list, given how to merge `l` with one. -/
def mergeHead {α : Type u} [Ordered α] (a : α) (l : List α)
    (mergeTail : List α → List α) : List α → List α
  | [] => a :: l
  | b :: m =>
    if before a b then a :: mergeTail (b :: m)
    else if before b a then b :: mergeHead a l mergeTail m
    else a :: mergeTail m

/-- The elements of two sorted lists, in order and each once. -/
def mergeSorted {α : Type u} [Ordered α] : List α → List α → List α
  | [] => id
  | a :: l => mergeHead a l (mergeSorted l)

section

variable {α : Type u} [Ordered α]

theorem mem_mergeSorted {c : α} {l m : List α} : c ∈ mergeSorted l m ↔ c ∈ l ∨ c ∈ m := by
  induction l generalizing m with
  | nil => simp [mergeSorted]
  | cons a l ih =>
    unfold mergeSorted
    induction m with
    | nil => simp [mergeHead]
    | cons b m ihm =>
      unfold mergeHead
      split
      · simp only [List.mem_cons, ih]
        grind
      · split
        · simp only [List.mem_cons, ihm]
          grind
        · have : a = b := eq_of_not_before ‹_› ‹_›
          simp only [List.mem_cons, ih, this]
          grind

theorem ascending_mergeSorted {l m : List α} (hl : Ascending l) (hm : Ascending m) :
    Ascending (mergeSorted l m) := by
  induction l generalizing m with
  | nil => exact hm
  | cons a l ih =>
    obtain ⟨ha, hl'⟩ := List.pairwise_cons.1 hl
    unfold mergeSorted
    induction m with
    | nil => exact hl
    | cons b m ihm =>
      obtain ⟨hb, hm'⟩ := List.pairwise_cons.1 hm
      unfold mergeHead
      split
      · rename_i hab
        refine List.pairwise_cons.2 ⟨fun c hc => ?_, ih hl' hm⟩
        rcases mem_mergeSorted.1 hc with hc | hc
        · exact ha c hc
        · rcases List.mem_cons.1 hc with rfl | hc
          · exact hab
          · exact trans hab (hb c hc)
      · split
        · rename_i hba
          refine List.pairwise_cons.2 ⟨fun c hc => ?_, ihm hm'⟩
          rcases (mem_mergeSorted (l := a :: l)).1 hc with hc | hc
          · rcases List.mem_cons.1 hc with rfl | hc
            · exact hba
            · exact trans hba (ha c hc)
          · exact hb c hc
        · rename_i hab hba
          have hab : a = b := eq_of_not_before ‹_› ‹_›
          refine List.pairwise_cons.2 ⟨fun c hc => ?_, ih hl' hm'⟩
          rcases mem_mergeSorted.1 hc with hc | hc
          · exact ha c hc
          · exact hab ▸ hb c hc

end

theorem eq_of_ascending_of_mem_iff {α : Type u} [Ordered α] {l m : List α}
    (hl : Ascending l) (hm : Ascending m) (h : ∀ a, a ∈ l ↔ a ∈ m) : l = m := by
  induction l generalizing m with
  | nil =>
    cases m with
    | nil => rfl
    | cons b m => simpa using h b
  | cons a l ih =>
    cases m with
    | nil => simpa using h a
    | cons b m =>
      obtain ⟨ha, hl'⟩ := List.pairwise_cons.1 hl
      obtain ⟨hb, hm'⟩ := List.pairwise_cons.1 hm
      have hab : a = b := by
        rcases List.mem_cons.1 ((h a).1 List.mem_cons_self) with e | h₁
        · exact e
        · rcases List.mem_cons.1 ((h b).2 List.mem_cons_self) with e | h₂
          · exact e.symm
          · exact absurd (trans (hb a h₁) (ha b h₂))
              (not_before_self b)
      subst hab
      congr 1
      refine ih hl' hm' fun c => ?_
      have hc := h c
      constructor
      · intro hcl
        rcases List.mem_cons.1 (hc.1 (List.mem_cons_of_mem _ hcl)) with rfl | h'
        · exact absurd (ha c hcl) (not_before_self c)
        · exact h'
      · intro hcm
        rcases List.mem_cons.1 (hc.2 (List.mem_cons_of_mem _ hcm)) with rfl | h'
        · exact absurd (hb c hcm) (not_before_self c)
        · exact h'

/-! ## The type of sets -/

/-- A finite set, held as the strictly ascending list of its members. -/
structure SortedSet (α : Type u) [Ordered α] where
  toList : List α
  ascending : Ascending toList

namespace SortedSet

section

variable {α : Type u} [Ordered α]

instance : Membership α (SortedSet α) := ⟨fun s a => a ∈ s.toList⟩

instance [DecidableEq α] (a : α) (s : SortedSet α) : Decidable (a ∈ s) :=
  inferInstanceAs (Decidable (a ∈ s.toList))

instance [DecidableEq α] : DecidableEq (SortedSet α) := fun s t =>
  decidable_of_iff (s.toList = t.toList) (by cases s; cases t; simp)

instance : EmptyCollection (SortedSet α) := ⟨⟨[], .nil⟩⟩

instance : Inhabited (SortedSet α) := ⟨∅⟩

instance : Singleton α (SortedSet α) := ⟨fun a => ⟨[a], List.pairwise_singleton _ _⟩⟩

/-- The number of members. -/
def size (s : SortedSet α) : Nat := s.toList.length

/-- The members that satisfy `p`. -/
def filter (p : α → Bool) (s : SortedSet α) : SortedSet α :=
  ⟨s.toList.filter p, s.ascending.filter p⟩

/-- All members but `a`. -/
def erase [DecidableEq α] (s : SortedSet α) (a : α) : SortedSet α :=
  s.filter (· ≠ a)

instance : HasSubset (SortedSet α) := ⟨fun s t => ∀ a ∈ s, a ∈ t⟩

instance [DecidableEq α] (s t : SortedSet α) : Decidable (s ⊆ t) :=
  inferInstanceAs (Decidable (∀ a ∈ s.toList, a ∈ t.toList))

@[simp] theorem mem_toList {a : α} {s : SortedSet α} : a ∈ s.toList ↔ a ∈ s := Iff.rfl

@[simp] theorem toList_empty : (∅ : SortedSet α).toList = [] := rfl

@[simp] theorem not_mem_empty (a : α) : a ∉ (∅ : SortedSet α) := List.not_mem_nil

@[simp] theorem toList_singleton (a : α) : ({a} : SortedSet α).toList = [a] := rfl

@[simp] theorem mem_singleton {a b : α} : a ∈ ({b} : SortedSet α) ↔ a = b := List.mem_singleton

@[simp] theorem mem_filter {p : α → Bool} {a : α} {s : SortedSet α} :
    a ∈ s.filter p ↔ a ∈ s ∧ p a = true := List.mem_filter

@[simp] theorem mem_erase [DecidableEq α] {a b : α} {s : SortedSet α} :
    a ∈ s.erase b ↔ a ∈ s ∧ a ≠ b := by
  simp [erase]

/-- Sets with the same members are equal. -/
@[ext] theorem ext {s t : SortedSet α} (h : ∀ a, a ∈ s ↔ a ∈ t) : s = t := by
  obtain ⟨l, hl⟩ := s
  obtain ⟨m, hm⟩ := t
  congr
  exact eq_of_ascending_of_mem_iff hl hm h

end

section

variable {α : Type u} [Ordered α]

/-- Adds one member. -/
def insert (s : SortedSet α) (a : α) : SortedSet α :=
  ⟨insertSorted a s.toList, ascending_insertSorted s.ascending⟩

/-- Adds every element of a list. -/
def insertMany (s : SortedSet α) (l : List α) : SortedSet α :=
  l.foldl insert s

/-- The set of the elements of a list. -/
def ofList (l : List α) : SortedSet α :=
  insertMany ∅ l

instance : Union (SortedSet α) :=
  ⟨fun s t => ⟨mergeSorted s.toList t.toList, ascending_mergeSorted s.ascending t.ascending⟩⟩

@[simp] theorem mem_insert {a b : α} {s : SortedSet α} : b ∈ s.insert a ↔ b = a ∨ b ∈ s :=
  mem_insertSorted

@[simp] theorem mem_insertMany {a : α} {s : SortedSet α} {l : List α} :
    a ∈ s.insertMany l ↔ a ∈ s ∨ a ∈ l := by
  induction l generalizing s with
  | nil => simp [insertMany]
  | cons b l ih =>
    have : s.insertMany (b :: l) = (s.insert b).insertMany l := rfl
    rw [this, ih, mem_insert, List.mem_cons]
    grind

@[simp] theorem mem_ofList {a : α} {l : List α} : a ∈ ofList l ↔ a ∈ l := by
  simp [ofList]

@[simp] theorem mem_union {a : α} {s t : SortedSet α} : a ∈ s ∪ t ↔ a ∈ s ∨ a ∈ t :=
  mem_mergeSorted

end

/-! ## Size -/

section

variable {α : Type u} [Ordered α] {s t : SortedSet α}

theorem nodup_toList (s : SortedSet α) : s.toList.Nodup := by
  refine s.ascending.imp ?_
  rintro a _ h rfl
  exact not_before_self a h

theorem size_le_length {l : List α} (h : ∀ a ∈ s, a ∈ l) : s.size ≤ l.length :=
  s.nodup_toList.length_le_of_subset h

theorem size_le_of_subset (h : s ⊆ t) : s.size ≤ t.size :=
  size_le_length h

/-- A new member makes a set larger. -/
theorem size_lt_of_subset {a : α} (h : s ⊆ t) (ht : a ∈ t) (hs : a ∉ s) : s.size < t.size := by
  have hnodup : (a :: s.toList).Nodup := List.nodup_cons.2 ⟨hs, s.nodup_toList⟩
  refine hnodup.length_le_of_subset fun b hb => ?_
  rcases List.mem_cons.1 hb with rfl | hb
  · exact ht
  · exact h b hb

end

end SortedSet

end FirstFollow
