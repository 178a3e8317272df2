import FirstFollow.Analysis.First
import FirstFollow.Proofs.Growth
import FirstFollow.Proofs.Outcome

/-!
# Scans of symbol lists

A scan reads a list of symbols from the left and goes on past a symbol only when it may vanish.
`First R symbols` are the symbols that such a scan collects when `R` relates nonterminals to
their sets, with the empty symbol when the scan reaches the end. FIRST of a sequence computes
exactly that (`mem_sequenceFirst`), and it splits along concatenation (`first_append`).
-/

namespace FirstFollow

/-- A scan from the left reaches a symbol: every symbol before it vanishes. -/
inductive Scanned (vanishes : Symbol → Prop) : List Symbol → Symbol → Prop where
  | here {s : Symbol} {rest : List Symbol} : Scanned vanishes (s :: rest) s
  | past {s t : Symbol} {rest : List Symbol} (h : vanishes s) (later : Scanned vanishes rest t) :
      Scanned vanishes (s :: rest) t

/-- What a scanned symbol puts into a set: a terminal itself, a nonterminal its set without the
    empty symbol. -/
def Opens (R : SymbolRelation) : Symbol → Symbol → Prop
  | .terminal text, x => x = .terminal text
  | .nonterminal id, x => R id x ∧ x ≠ .empty
  | _, _ => False

/-- A nonterminal whose set holds the empty symbol. -/
def Vanishes (R : SymbolRelation) : Symbol → Prop
  | .nonterminal id => R id .empty
  | _ => False

/-- The empty symbol, or a nonterminal whose set holds it. -/
def Nullable (R : SymbolRelation) (s : Symbol) : Prop := s = .empty ∨ Vanishes R s

/-- What the scan of a list collects; the empty symbol when it reaches the end. -/
def First (R : SymbolRelation) (symbols : List Symbol) (x : Symbol) : Prop :=
  (∃ s, Scanned (Nullable R) symbols s ∧ Opens R s x) ∨
    x = .empty ∧ ∀ s ∈ symbols, Nullable R s

variable {R S : SymbolRelation} {vanishes : Symbol → Prop} {s t x : Symbol}
  {a b symbols rest : List Symbol}

@[simp] theorem not_scanned_nil : ¬ Scanned vanishes [] t := nofun

theorem scanned_cons :
    Scanned vanishes (s :: rest) t ↔ t = s ∨ vanishes s ∧ Scanned vanishes rest t := by
  constructor
  · intro h
    cases h with
    | here => exact .inl rfl
    | past h later => exact .inr ⟨h, later⟩
  · rintro (rfl | ⟨h, later⟩)
    · exact .here
    · exact .past h later

theorem scanned_mem (h : Scanned vanishes symbols s) : s ∈ symbols := by
  induction h with
  | here => exact List.mem_cons_self
  | past _ _ ih => exact List.mem_cons_of_mem _ ih

theorem Scanned.mono {more : Symbol → Prop} (hle : vanishes ≤ more)
    (h : Scanned vanishes symbols s) : Scanned more symbols s := by
  induction h with
  | here => exact .here
  | past h _ ih => exact .past (hle _ h) ih

/-- A scan stops at the first symbol that does not vanish, so it has passed all before it. -/
theorem scanned_iff :
    Scanned vanishes symbols s ↔
      ∃ front back, symbols = front ++ s :: back ∧ ∀ t ∈ front, vanishes t := by
  constructor
  · intro h
    induction h with
    | here => exact ⟨[], _, rfl, List.forall_mem_nil _⟩
    | past h _ ih =>
      obtain ⟨front, back, rfl, hfront⟩ := ih
      exact ⟨_ :: front, back, rfl, List.forall_mem_cons.2 ⟨h, hfront⟩⟩
  · rintro ⟨front, back, rfl, hfront⟩
    induction front with
    | nil => exact .here
    | cons t front ih =>
      obtain ⟨ht, hrest⟩ := List.forall_mem_cons.1 hfront
      exact .past ht (ih hrest)

/-! ## Collecting -/

theorem Opens.ne_empty (h : Opens R s x) : x ≠ .empty := by
  cases s with
  | terminal text =>
    have hx : x = .terminal text := h
    rw [hx]
    exact nofun
  | nonterminal id => exact h.2
  | _ => exact h.elim

@[simp] theorem first_nil : First R [] x ↔ x = .empty := by
  simp [First]

/-- The first symbol of a list is scanned, and the rest only if the first may vanish. -/
theorem first_cons :
    First R (s :: rest) x ↔ Opens R s x ∨ Nullable R s ∧ First R rest x := by
  simp only [First, scanned_cons, List.forall_mem_cons]
  constructor
  · rintro (⟨t, rfl | ⟨hs, ht⟩, hx⟩ | ⟨rfl, hs, hrest⟩)
    · exact .inl hx
    · exact .inr ⟨hs, .inl ⟨t, ht, hx⟩⟩
    · exact .inr ⟨hs, .inr ⟨rfl, hrest⟩⟩
  · rintro (hx | ⟨hs, ⟨t, ht, hx⟩ | ⟨rfl, hrest⟩⟩)
    · exact .inl ⟨s, .inl rfl, hx⟩
    · exact .inl ⟨t, .inr ⟨hs, ht⟩, hx⟩
    · exact .inr ⟨rfl, hs, hrest⟩

theorem first_empty_cons : First R (.empty :: rest) x ↔ First R rest x := by
  simp [first_cons, Opens, Nullable]

theorem first_terminal_cons {text : String} :
    First R (.terminal text :: rest) x ↔ x = .terminal text := by
  simp [first_cons, Opens, Nullable, Vanishes]

theorem first_nonterminal_cons {id : NonterminalId} :
    First R (.nonterminal id :: rest) x ↔
      R id x ∧ x ≠ .empty ∨ R id .empty ∧ First R rest x := by
  simp [first_cons, Opens, Nullable, Vanishes]

/-- Of a nonterminal alone the scan collects its set. -/
@[simp] theorem first_nonterminal {id : NonterminalId} :
    First R [.nonterminal id] x ↔ R id x := by
  rw [first_nonterminal_cons, first_nil]
  constructor
  · rintro (⟨h, -⟩ | ⟨h, rfl⟩)
    · exact h
    · exact h
  · intro h
    -- The empty symbol is not taken from the set but found behind the nonterminal.
    rcases eq_or_ne x .empty with rfl | hne
    · exact .inr ⟨h, rfl⟩
    · exact .inl ⟨h, hne⟩

/-- The scan of a concatenation goes on to the second list when the first may vanish. -/
theorem first_append :
    First R (a ++ b) x ↔ First R a x ∧ x ≠ .empty ∨ First R a .empty ∧ First R b x := by
  induction a with
  | nil => simp
  | cons s a ih =>
    have hopens : ¬ Opens R s .empty := fun h => h.ne_empty rfl
    rw [List.cons_append, first_cons, ih, first_cons, first_cons (x := .empty)]
    constructor
    · rintro (h | ⟨hs, ⟨h, hne⟩ | ⟨ha, hb⟩⟩)
      · exact .inl ⟨.inl h, h.ne_empty⟩
      · exact .inl ⟨.inr ⟨hs, h⟩, hne⟩
      · exact .inr ⟨.inr ⟨hs, ha⟩, hb⟩
    · rintro (⟨h | ⟨hs, h⟩, hne⟩ | ⟨h | ⟨hs, ha⟩, hb⟩)
      · exact .inl h
      · exact .inr ⟨hs, .inl ⟨h, hne⟩⟩
      · exact absurd h hopens
      · exact .inr ⟨hs, .inr ⟨ha, hb⟩⟩

/-! ## Scans that go on -/

/-- What the scan of a list collects that is continued at its end. -/
def FirstThen (R : SymbolRelation) (symbols : List Symbol) (last : Symbol → Prop)
    (x : Symbol) : Prop :=
  First R symbols x ∧ x ≠ .empty ∨ First R symbols .empty ∧ last x

theorem firstThen_nil {last : Symbol → Prop} : FirstThen R [] last x ↔ last x := by
  simp [FirstThen]

theorem firstThen_cons {last : Symbol → Prop} :
    FirstThen R (s :: rest) last x ↔ Opens R s x ∨ Nullable R s ∧ FirstThen R rest last x := by
  have hopens : ¬ Opens R s .empty := fun h => h.ne_empty rfl
  have hne : Opens R s x → x ≠ .empty := Opens.ne_empty
  unfold FirstThen
  rw [first_cons, first_cons]
  tauto

theorem firstThen_append {last : Symbol → Prop} :
    FirstThen R (a ++ b) last x ↔ FirstThen R a (FirstThen R b last) x := by
  induction a with
  | nil => rw [List.nil_append, firstThen_nil]
  | cons s a ih => rw [List.cons_append, firstThen_cons, firstThen_cons, ih]

/-- A scan collects no more when less comes after it. -/
theorem FirstThen.mono_last {last more : Symbol → Prop} (hle : last ≤ more)
    (h : FirstThen R symbols last x) : FirstThen R symbols more x :=
  h.imp_right fun ⟨hempty, hx⟩ => ⟨hempty, hle x hx⟩

/-! ## Monotonicity -/

theorem Opens.mono (hle : R ≤ S) (h : Opens R s x) : Opens S s x := by
  cases s with
  | terminal text => exact h
  | nonterminal id => exact ⟨hle id x h.1, h.2⟩
  | _ => exact h.elim

theorem Vanishes.mono (hle : R ≤ S) (h : Vanishes R s) : Vanishes S s := by
  cases s with
  | nonterminal id => exact hle id .empty h
  | _ => exact h.elim

theorem Nullable.mono (hle : R ≤ S) (h : Nullable R s) : Nullable S s :=
  h.imp_right (Vanishes.mono hle)

theorem First.mono (hle : R ≤ S) (h : First R symbols x) : First S symbols x := by
  induction symbols with
  | nil => exact first_nil.2 (first_nil.1 h)
  | cons s rest ih =>
    refine first_cons.2 ((first_cons.1 h).imp (Opens.mono hle) ?_)
    intro ⟨hs, hrest⟩
    exact ⟨hs.mono hle, ih hrest⟩

/-- All that a scan collects stands in the list, or comes from a set. -/
theorem First.origin (h : First R symbols x) :
    x = .empty ∨ (∃ text, x = .terminal text ∧ x ∈ symbols) ∨ ∃ id, R id x := by
  induction symbols with
  | nil => exact .inl (first_nil.1 h)
  | cons s rest ih =>
    rcases first_cons.1 h with hopens | ⟨-, hrest⟩
    · cases s with
      | terminal text =>
        have hx : x = .terminal text := hopens
        exact .inr (.inl ⟨text, hx, hx ▸ List.mem_cons_self⟩)
      | nonterminal id => exact .inr (.inr ⟨id, hopens.1⟩)
      | _ => exact hopens.elim
    · refine (ih hrest).imp_right (Or.imp_left ?_)
      intro ⟨text, hx, hmem⟩
      exact ⟨text, hx, List.mem_cons_of_mem _ hmem⟩

/-! ## FIRST of a sequence -/

theorem firstOf_eq_ok {firsts : SetTable} {id : NonterminalId} {set : SymbolSet} :
    firsts.firstOf id = .ok set ↔ id ∈ firsts ∧ firsts.setOf id = set := by
  unfold SetTable.firstOf SetTable.setOf
  rw [← Table.isSome_get?_iff]
  cases firsts.get? id <;> simp

theorem firstOf_eq_error {firsts : SetTable} {id : NonterminalId} {e : Error} :
    firsts.firstOf id = .error e ↔ id ∉ firsts ∧ e = .defect (.noProductions id) := by
  unfold SetTable.firstOf
  rw [← Table.isSome_get?_iff]
  cases firsts.get? id <;> simp [eq_comm]

/-- A symbol that FIRST is defined for, when these nonterminals have sets. -/
def HasFirst (known : NonterminalId → Prop) : Symbol → Prop
  | .empty => True
  | .terminal _ => True
  | .nonterminal id => known id
  | _ => False

/-- FIRST of a sequence exists when FIRST is defined for every symbol that the scan reaches. -/
theorem exists_sequenceFirst_iff {lookup : NonterminalId → Except Error SymbolSet}
    (hlookup : ∀ id set, lookup id = .ok set → (.empty ∈ set ↔ R id .empty)) :
    (∃ set, sequenceFirst lookup symbols = .ok set) ↔
      ∀ s, Scanned (Nullable R) symbols s → HasFirst (fun id => ∃ set, lookup id = .ok set) s := by
  induction symbols with
  | nil => simp [sequenceFirst]
  | cons s rest ih =>
    simp only [scanned_cons, or_imp, forall_and, forall_eq]
    cases s with
    | empty => simp [sequenceFirst, ih, HasFirst, Nullable]
    | terminal text => simp [sequenceFirst, HasFirst, Nullable, Vanishes]
    | nonterminal id =>
      rw [sequenceFirst]
      cases hset : lookup id with
      | error e => simp [bind_eq_ok, HasFirst, hset]
      | ok set =>
        have hempty := hlookup id set hset
        have hknown : HasFirst (fun id => ∃ set, lookup id = .ok set) (.nonterminal id) :=
          ⟨set, hset⟩
        simp only [bind_eq_ok, Except.ok.injEq, exists_eq_left', hknown, true_and, Nullable,
          Vanishes, reduceCtorEq, false_or, ← hempty]
        split
        · rename_i hmem
          simp [bind_eq_ok, hmem, ih, pure, Except.pure]
        · rename_i hmem
          simp [hmem, pure, Except.pure]
    | _ => simp [sequenceFirst, HasFirst]

/-- What is said of a symbol that FIRST is not defined for. -/
def Symbol.lackOfFirst : Symbol → Defect
  | .nonterminal id => .noProductions id
  | s => .noFirstSet s

/-- A failure of FIRST of a sequence names a symbol that the scan reaches. -/
theorem sequenceFirst_eq_error {firsts : SetTable} {e : Error}
    (h : sequenceFirst firsts.firstOf symbols = .error e) :
    ∃ s, Scanned (Nullable firsts.rel) symbols s ∧ ¬ HasFirst (· ∈ firsts) s ∧
      e = .defect s.lackOfFirst := by
  induction symbols with
  | nil => cases h
  | cons s rest ih =>
    cases s with
    | empty =>
      obtain ⟨t, ht, hlacks⟩ := ih h
      exact ⟨t, .past (.inl rfl) ht, hlacks⟩
    | terminal text => cases h
    | nonterminal id =>
      rcases bind_eq_error.1 h with hlookup | ⟨set, hset, h⟩
      · obtain ⟨hid, rfl⟩ := firstOf_eq_error.1 hlookup
        exact ⟨.nonterminal id, .here, hid, rfl⟩
      · obtain ⟨-, rfl⟩ := firstOf_eq_ok.1 hset
        split at h
        · rename_i hempty
          rcases bind_eq_error.1 h with hrest | ⟨_, -, ⟨⟩⟩
          obtain ⟨t, ht, hlacks⟩ := ih hrest
          exact ⟨t, .past (.inr hempty) ht, hlacks⟩
        · cases h
    | _ =>
      cases h
      exact ⟨_, .here, id, rfl⟩

/-- What a look-up relates to a nonterminal: the symbols of the set that it finds. -/
def LookedUp (lookup : NonterminalId → Except Error SymbolSet) : SymbolRelation :=
  fun id x => ∃ set, lookup id = .ok set ∧ x ∈ set

theorem mem_iff_lookedUp {lookup : NonterminalId → Except Error SymbolSet} {id : NonterminalId}
    {set : SymbolSet} (h : lookup id = .ok set) : x ∈ set ↔ LookedUp lookup id x := by
  simp [LookedUp, h]

/-- FIRST of a sequence exists when every nonterminal in it has a set. -/
theorem exists_sequenceFirst {lookup : NonterminalId → Except Error SymbolSet}
    (h : ∀ s ∈ symbols, s = .empty ∨ (∃ text, s = .terminal text) ∨
      ∃ id, s = .nonterminal id ∧ ∃ set, lookup id = .ok set) :
    ∃ set, sequenceFirst lookup symbols = .ok set := by
  apply (exists_sequenceFirst_iff fun _ _ => mem_iff_lookedUp).2
  intro s hs
  rcases h s (scanned_mem hs) with rfl | ⟨text, rfl⟩ | ⟨id, rfl, hset⟩
  · trivial
  · trivial
  · exact hset

/-- Computing FIRST of a sequence is a scan. -/
theorem mem_sequenceFirst {lookup : NonterminalId → Except Error SymbolSet} {set : SymbolSet}
    (hlookup : ∀ id set, lookup id = .ok set → ∀ x, x ∈ set ↔ R id x)
    (h : sequenceFirst lookup symbols = .ok set) : x ∈ set ↔ First R symbols x := by
  induction symbols generalizing set with
  | nil =>
    cases h
    simp
  | cons s rest ih =>
    cases s with
    | empty => rw [first_empty_cons, ih h]
    | terminal text =>
      cases h
      simp [first_terminal_cons]
    | nonterminal id =>
      obtain ⟨head, hhead, h⟩ := bind_eq_ok.1 h
      have hmem := hlookup id head hhead
      rw [first_nonterminal_cons, ← hmem, ← hmem]
      -- Only a set with the empty symbol lets the computation look at the rest.
      split at h
      · rename_i hempty
        obtain ⟨tail, htail, h⟩ := bind_eq_ok.1 h
        cases h
        simp [ih htail, hempty]
      · rename_i hempty
        have hne : x ∈ head → x ≠ .empty := fun hx e => hempty (e ▸ hx)
        cases h
        simp only [hempty, false_and, or_false]
        exact ⟨fun hx => ⟨hx, hne hx⟩, And.left⟩
    | _ => cases h

end FirstFollow
