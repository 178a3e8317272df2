import FirstFollow.Proofs.Scan

/-!
# FIRST of concatenations

The scan of a concatenation is the scan of its first part, continued with the second part if the
first may be empty. Outcomes of scans are composed in the same way (`scanOn`): a failure, or a
set without the empty symbol, is final, and the outcome of the empty list changes nothing. FIRST
of a sequence takes concatenation to this composition (`sequenceFirst_append`), so all that holds
of it follows from how a scan treats a single symbol. The look-up is arbitrary here: that of an
analysis that is done is one of them, and so is any that fails for some nonterminals.
-/

namespace FirstFollow

/-! ## Composing outcomes -/

/-- The outcome of a scan that goes on to a second one if the first may be empty. -/
def scanOn (first second : Except Error SymbolSet) : Except Error SymbolSet := do
  let set ← first
  if .empty ∈ set then
    let more ← second
    return set.erase .empty ∪ more
  else
    return set

section

variable {set more : SymbolSet} {e : Error} {first second : Except Error SymbolSet}

@[simp] theorem scanOn_error (e : Error) (second : Except Error SymbolSet) :
    scanOn (.error e) second = .error e := rfl

theorem scanOn_of_mem (h : .empty ∈ set) (second : Except Error SymbolSet) :
    scanOn (.ok set) second = (set.erase .empty ∪ ·) <$> second := by
  change (if .empty ∈ set then _ else _) = _
  rw [if_pos h]
  cases second <;> rfl

theorem scanOn_of_not_mem (h : .empty ∉ set) (second : Except Error SymbolSet) :
    scanOn (.ok set) second = .ok set := by
  change (if .empty ∈ set then _ else _) = _
  rw [if_neg h]
  rfl

/-- The first part that fails decides the error. -/
theorem scanOn_eq_error :
    scanOn first second = .error e ↔
      first = .error e ∨ (∃ set, first = .ok set ∧ .empty ∈ set) ∧ second = .error e := by
  cases first with
  | error e' => simp
  | ok set =>
    by_cases h : .empty ∈ set
    · rw [scanOn_of_mem h, map_eq_error]
      simp [h]
    · rw [scanOn_of_not_mem h]
      simp [h]

/-- Ahead of a scan, the outcome of the empty list changes nothing. -/
@[simp] theorem scanOn_empty_left (second : Except Error SymbolSet) :
    scanOn (.ok {.empty}) second = second := by
  rw [scanOn_of_mem (SortedSet.mem_singleton.2 rfl)]
  cases second with
  | error e => rfl
  | ok set =>
    refine congrArg Except.ok ?_
    ext x
    simp

/-- Nor does it behind one. -/
@[simp] theorem scanOn_empty_right (first : Except Error SymbolSet) :
    scanOn first (.ok {.empty}) = first := by
  cases first with
  | error e => rfl
  | ok set =>
    by_cases h : .empty ∈ set
    · rw [scanOn_of_mem h]
      refine congrArg Except.ok ?_
      ext x
      simp only [SortedSet.mem_union, SortedSet.mem_erase, SortedSet.mem_singleton]
      grind
    · exact scanOn_of_not_mem h _

/-- A composed set holds the empty symbol when the second part gives it. -/
theorem empty_mem_erase_union : .empty ∈ set.erase .empty ∪ more ↔ .empty ∈ more := by
  simp

theorem scanOn_assoc (first second third : Except Error SymbolSet) :
    scanOn (scanOn first second) third = scanOn first (scanOn second third) := by
  cases first with
  | error e => rfl
  | ok set =>
    by_cases hset : .empty ∈ set
    · rw [scanOn_of_mem hset, scanOn_of_mem hset]
      cases second with
      | error e => rfl
      | ok more =>
        -- whether the third part is reached is up to the second alone
        change scanOn (.ok (set.erase .empty ∪ more)) third = _
        by_cases hmore : .empty ∈ more
        · rw [scanOn_of_mem hmore, scanOn_of_mem (empty_mem_erase_union.2 hmore)]
          cases third with
          | error e => rfl
          | ok last =>
            refine congrArg Except.ok ?_
            ext x
            simp only [SortedSet.mem_union, SortedSet.mem_erase]
            tauto
        · rw [scanOn_of_not_mem hmore, scanOn_of_not_mem (mt empty_mem_erase_union.1 hmore)]
          rfl
    · rw [scanOn_of_not_mem hset, scanOn_of_not_mem hset, scanOn_of_not_mem hset]

end

/-! ## FIRST of a sequence, part by part -/

section

variable {lookup other : NonterminalId → Except Error SymbolSet} {symbols : List Symbol}

/-- The scan of a nonterminal alone gives the set that was looked up. -/
theorem sequenceFirst_nonterminal (lookup : NonterminalId → Except Error SymbolSet)
    (id : NonterminalId) : sequenceFirst lookup [.nonterminal id] = lookup id :=
  scanOn_empty_right (lookup id)

/-- A scan is that of its first symbol, and then that of the rest. -/
theorem sequenceFirst_cons (lookup : NonterminalId → Except Error SymbolSet) (s : Symbol)
    (rest : List Symbol) :
    sequenceFirst lookup (s :: rest) =
      scanOn (sequenceFirst lookup [s]) (sequenceFirst lookup rest) := by
  cases s with
  | empty => exact (scanOn_empty_left _).symm
  | terminal text => exact (scanOn_of_not_mem (by simp) _).symm
  | nonterminal id =>
    rw [sequenceFirst_nonterminal]
    rfl
  | _ => rfl

/-- The scan of a concatenation is composed of the scans of its parts. -/
theorem sequenceFirst_append (lookup : NonterminalId → Except Error SymbolSet)
    (a b : List Symbol) :
    sequenceFirst lookup (a ++ b) =
      scanOn (sequenceFirst lookup a) (sequenceFirst lookup b) := by
  induction a with
  | nil => exact (scanOn_empty_left _).symm
  | cons s a ih =>
    rw [List.cons_append, sequenceFirst_cons, ih, ← scanOn_assoc, ← sequenceFirst_cons]

/-- Empty symbols in a sequence do not count. -/
theorem sequenceFirst_filter (lookup : NonterminalId → Except Error SymbolSet)
    (symbols : List Symbol) :
    sequenceFirst lookup (symbols.filter (· ≠ .empty)) = sequenceFirst lookup symbols := by
  induction symbols with
  | nil => rfl
  | cons s rest ih =>
    by_cases hs : s = .empty
    · subst hs
      rw [List.filter_cons_of_neg (by simp), ih]
      rfl
    · rw [List.filter_cons_of_pos (by simpa using hs), sequenceFirst_cons, ih,
        ← sequenceFirst_cons]

/-! ## Larger look-ups -/

/-- A look-up that fails for no more nonterminals, and whose sets are no smaller. -/
def Extends (lookup other : NonterminalId → Except Error SymbolSet) : Prop :=
  ∀ id set, lookup id = .ok set → ∃ more, other id = .ok more ∧ set ⊆ more

theorem Extends.lookedUp_le (h : Extends lookup other) : LookedUp lookup ≤ LookedUp other := by
  rintro id x ⟨set, hset, hx⟩
  obtain ⟨more, hmore, hsubset⟩ := h id set hset
  exact ⟨more, hmore, hsubset x hx⟩

/-- Where a scan succeeds with a look-up and with a larger one, it finds no less with the larger
    one. -/
theorem Extends.subset {set more : SymbolSet} (h : Extends lookup other)
    (hset : sequenceFirst lookup symbols = .ok set)
    (hmore : sequenceFirst other symbols = .ok more) : set ⊆ more := by
  -- the larger look-up may lead the scan further, so the runs are not compared step by step, but
  -- by what the symbols can begin with
  intro x hx
  have hfirst := (mem_sequenceFirst (fun _ _ hid _ => mem_iff_lookedUp hid) hset).1 hx
  exact (mem_sequenceFirst (fun _ _ hid _ => mem_iff_lookedUp hid) hmore).2
    (hfirst.mono h.lookedUp_le)

end

/-! ## The laws together -/

/-- FIRST of a concatenation fails with its first part, or, when that may be empty, with its
    second. Otherwise it is FIRST of the first part as long as that may not be empty, and else
    both merged. Sequences that differ in empty symbols alone have the same outcome, and larger
    sets of nonterminals give no smaller ones. -/
theorem sequenceFirst_laws (lookup : NonterminalId → Except Error SymbolSet) :
    (∀ a b e, sequenceFirst lookup (a ++ b) = .error e ↔
      sequenceFirst lookup a = .error e ∨
        (∃ set, sequenceFirst lookup a = .ok set ∧ .empty ∈ set) ∧
          sequenceFirst lookup b = .error e) ∧
    (∀ a b set, sequenceFirst lookup a = .ok set → .empty ∉ set →
      sequenceFirst lookup (a ++ b) = .ok set) ∧
    (∀ a b set more, sequenceFirst lookup a = .ok set → .empty ∈ set →
      sequenceFirst lookup b = .ok more →
      sequenceFirst lookup (a ++ b) = .ok (set.erase .empty ∪ more)) ∧
    (∀ symbols padded : List Symbol,
      padded.filter (· ≠ .empty) = symbols.filter (· ≠ .empty) →
      sequenceFirst lookup padded = sequenceFirst lookup symbols) ∧
    ∀ other, Extends lookup other → ∀ symbols set more,
      sequenceFirst lookup symbols = .ok set → sequenceFirst other symbols = .ok more →
      set ⊆ more := by
  refine ⟨fun a b e => ?_, fun a b set ha hempty => ?_, fun a b set more ha hempty hb => ?_,
    fun symbols padded h => ?_, fun other h symbols set more => h.subset⟩
  · rw [sequenceFirst_append, scanOn_eq_error]
  · rw [sequenceFirst_append, ha, scanOn_of_not_mem hempty]
  · rw [sequenceFirst_append, ha, hb, scanOn_of_mem hempty]
    rfl
  · rw [← sequenceFirst_filter, h, sequenceFirst_filter]

/-- Finds the sets of two nonterminals, of which the first may be empty. -/
def narrowLookup : NonterminalId → Except Error SymbolSet
  | 0 => .ok (.ofList [.empty, .terminal "a"])
  | 1 => .ok (.ofList [.terminal "b"])
  | id => .error (.missingIdentifier id)

/-- Finds larger sets of those two, which may both be empty, and the set of a third. -/
def wideLookup : NonterminalId → Except Error SymbolSet
  | 0 => .ok (.ofList [.empty, .terminal "a", .terminal "c"])
  | 1 => .ok (.ofList [.empty, .terminal "b"])
  | 2 => .ok (.ofList [.terminal "d"])
  | id => .error (.missingIdentifier id)

theorem extends_wideLookup : Extends narrowLookup wideLookup := by
  intro id set h
  unfold narrowLookup at h
  split at h
  · cases h
    exact ⟨_, rfl, by decide +kernel⟩
  · cases h
    exact ⟨_, rfl, by decide +kernel⟩
  · cases h

/-- The narrow sets stop the scan of `b` ahead of a symbol without a FIRST set, which the wide
    ones let it reach. -/
theorem sequenceFirst_laws_narrowLookup :
    let a : List Symbol := [.nonterminal 0, .empty]
    let b : List Symbol := [.nonterminal 1, .wildcard]
    let first : SymbolSet := .ofList [.empty, .terminal "a"]
    let second : SymbolSet := .ofList [.terminal "b"]
    (sequenceFirst narrowLookup a = .ok first ∧ .empty ∈ first ∧
      sequenceFirst narrowLookup b = .ok second ∧ .empty ∉ second) ∧
    sequenceFirst narrowLookup (a ++ [.nonterminal 2]) = .error (.missingIdentifier 2) ∧
    sequenceFirst narrowLookup (b ++ a) = .ok second ∧
    sequenceFirst narrowLookup (a ++ b) = .ok (first.erase .empty ∪ second) ∧
    sequenceFirst narrowLookup (.empty :: a ++ .empty :: b) = sequenceFirst narrowLookup (a ++ b) ∧
    (∃ more, sequenceFirst wideLookup (a ++ [.nonterminal 1]) = .ok more ∧
      first.erase .empty ∪ second ⊆ more) ∧
    sequenceFirst wideLookup (a ++ b) = .error (.defect (.noFirstSet .wildcard)) := by
  intro a b first second
  obtain ⟨herror, hfinal, hmerged, hpadded, hlarger⟩ := sequenceFirst_laws narrowLookup
  have ha : sequenceFirst narrowLookup a = .ok first := by decide +kernel
  have hb : sequenceFirst narrowLookup b = .ok second := by decide +kernel
  have hlast : sequenceFirst narrowLookup [.nonterminal 1] = .ok second := by decide +kernel
  have hfirst : .empty ∈ first := by decide +kernel
  have hsecond : .empty ∉ second := by decide +kernel
  have hwide : ∃ more, sequenceFirst wideLookup (a ++ [.nonterminal 1]) = .ok more := by
    decide +kernel
  obtain ⟨more, hmore⟩ := hwide
  refine ⟨⟨ha, hfirst, hb, hsecond⟩, ?_, hfinal b a second hb hsecond,
    hmerged a b first second ha hfirst hb, hpadded _ _ rfl, ⟨more, hmore, ?_⟩, rfl⟩
  · exact (herror a _ _).2 (.inr ⟨⟨first, ha, hfirst⟩, rfl⟩)
  · exact hlarger wideLookup extends_wideLookup _ _ _
      (hmerged a _ first second ha hfirst hlast) hmore

end FirstFollow
