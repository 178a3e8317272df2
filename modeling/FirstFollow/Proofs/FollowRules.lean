import FirstFollow.Analysis.Follow
import FirstFollow.Proofs.FirstSets

/-!
# The merging rules of FOLLOW sets

An occurrence of a nonterminal asks two things of the FOLLOW sets: what the scan of the symbols
after it collects belongs to its set, and when that scan reaches the end, so does all that
follows the owner of the production. A visit merges exactly what the rules ask for
(`Occurrence.rel_visit`), and a pass visits occurrences one after another, each in the sets that
the visits before it left.
-/

namespace FirstFollow

/-! ## The rules -/

/-- A nonterminal occurs in a production of the owner, with these symbols after it. -/
def Store.Occurs (store : Store) (owner target : NonterminalId) (rest : List Symbol) : Prop :=
  ∃ front, (owner, front ++ .nonterminal target :: rest) ∈ store.alternatives

/-- The merging rules of FOLLOW sets. -/
structure FollowClosed (store : Store) (firsts : SetTable) (R : SymbolRelation) : Prop where
  /-- What a scanned symbol opens with follows the occurrence. -/
  scanned {owner target : NonterminalId} {rest : List Symbol} {s : Symbol}
    (h : store.Occurs owner target rest) (hs : Scanned (Vanishes firsts.rel) rest s) :
    Opens firsts.rel s ≤ R target
  /-- When all symbols after an occurrence vanish, what follows the owner follows it. -/
  inherited {owner target : NonterminalId} {rest : List Symbol}
    (h : store.Occurs owner target rest) (hrest : ∀ s ∈ rest, Vanishes firsts.rel s) :
    R owner ≤ R target

/-- A symbol that a scan can deal with: a terminal, or a nonterminal that has a FIRST set. -/
def Readable (firsts : SetTable) : Symbol → Prop
  | .terminal _ => True
  | .nonterminal id => id ∈ firsts
  | _ => False

theorem Vanishes.readable {firsts : SetTable} {s : Symbol} (h : Vanishes firsts.rel s) :
    Readable firsts s := by
  cases s with
  | nonterminal id =>
    by_contra hid
    exact SetTable.not_rel_of_not_mem hid .empty h
  | _ => exact h.elim

namespace Occurrence

/-- What the rules ask for in the set of an occurrence. -/
def Adds (occurrence : Occurrence) (firsts : SetTable) (R : SymbolRelation) (x : Symbol) : Prop :=
  (∃ s, Scanned (Vanishes firsts.rel) occurrence.rest s ∧ Opens firsts.rel s x) ∨
    (∀ s ∈ occurrence.rest, Vanishes firsts.rel s) ∧ R occurrence.owner x

variable {occurrence : Occurrence} {firsts follows next : SetTable} {grew : Bool}
  {R S : SymbolRelation} {rest : List Symbol} {id : NonterminalId} {x : Symbol}

theorem Adds.mono (hle : R ≤ S) (h : occurrence.Adds firsts R x) : occurrence.Adds firsts S x :=
  h.imp_right fun ⟨hrest, hx⟩ => ⟨hrest, hle _ x hx⟩

/-! ## Scans -/

theorem mem_scan (occurrence : Occurrence) :
    x ∈ (occurrence.scan firsts rest).1 ↔
      ∃ s, Scanned (Vanishes firsts.rel) rest s ∧ Opens firsts.rel s x := by
  induction rest with
  | nil => simp [scan]
  | cons s rest ih =>
    simp only [scanned_cons, or_and_right, exists_or, exists_eq_left, and_assoc,
      exists_and_left, ← ih]
    cases s with
    | terminal text => simp [scan, Opens, Vanishes]
    | nonterminal id =>
      rw [scan]
      cases hset : firsts.firstOf id with
      | error e =>
        have hrel := SetTable.not_rel_of_not_mem (firstOf_eq_error.1 hset).1
        simp [Opens, Vanishes, hrel]
      | ok set =>
        obtain ⟨-, rfl⟩ := firstOf_eq_ok.1 hset
        simp only [Opens, Vanishes, SetTable.rel]
        split
        · rename_i hempty
          simp [hempty]
        · rename_i hempty
          simp only [hempty, false_and, or_false]
          exact ⟨fun hx => ⟨hx, fun e => hempty (e ▸ hx)⟩, And.left⟩
    | _ => simp [scan, Opens, Vanishes]

theorem scan_eq_exhausted_iff (occurrence : Occurrence) :
    (occurrence.scan firsts rest).2 = .exhausted ↔ ∀ s ∈ rest, Vanishes firsts.rel s := by
  induction rest with
  | nil => simp [scan]
  | cons s rest ih =>
    rw [List.forall_mem_cons, ← ih]
    cases s with
    | nonterminal id =>
      rw [scan]
      cases hset : firsts.firstOf id with
      | error e =>
        have hrel := SetTable.not_rel_of_not_mem (firstOf_eq_error.1 hset).1
        simp [Vanishes, hrel]
      | ok set =>
        obtain ⟨-, rfl⟩ := firstOf_eq_ok.1 hset
        simp only [Vanishes, SetTable.rel]
        split <;> simp [*]
    | _ => simp [scan, Vanishes]

/-- What is said of a symbol that the scan behind an occurrence cannot deal with. -/
def complaint (occurrence : Occurrence) : Symbol → Defect
  | .nonterminal id => .noProductions id
  | s => .unexpectedSymbol s occurrence.target occurrence.production

/-- A scan fails at the first symbol that it cannot deal with, and only there. -/
theorem scan_eq_failed_iff {e : Error} :
    (occurrence.scan firsts rest).2 = .failed e ↔
      ∃ s, Scanned (Vanishes firsts.rel) rest s ∧ ¬ Readable firsts s ∧
        e = .defect (occurrence.complaint s) := by
  induction rest with
  | nil => simp [scan]
  | cons s rest ih =>
    simp only [scanned_cons, or_and_right, exists_or, exists_eq_left, and_assoc,
      exists_and_left, ← ih]
    cases s with
    | terminal text => simp [scan, Readable, Vanishes]
    | nonterminal id =>
      rw [scan]
      cases hset : firsts.firstOf id with
      | error e' =>
        obtain ⟨hid, rfl⟩ := firstOf_eq_error.1 hset
        have hrel := SetTable.not_rel_of_not_mem hid
        simp [Readable, Vanishes, complaint, hid, hrel, eq_comm]
      | ok set =>
        obtain ⟨hid, rfl⟩ := firstOf_eq_ok.1 hset
        simp only [Readable, Vanishes, SetTable.rel, hid]
        split <;> simp [*]
    | _ => simp [scan, Readable, Vanishes, complaint, eq_comm]

/-! ## Visits -/

/-- A visit fails when its scan does, whatever the FOLLOW sets are. -/
theorem visit_eq_error_iff (follows : SetTable) {e : Error} :
    (occurrence.visit firsts follows).2 = .error e ↔
      (occurrence.scan firsts occurrence.rest).2 = .failed e := by
  unfold visit
  rcases occurrence.scan firsts occurrence.rest with ⟨found, _ | _ | e'⟩ <;> simp

/-- A visit succeeds unless its scan fails. -/
theorem exists_visit_iff (occurrence : Occurrence) (firsts follows : SetTable) :
    (∃ next grew, occurrence.visit firsts follows = (next, .ok grew)) ↔
      ∀ s, Scanned (Vanishes firsts.rel) occurrence.rest s → Readable firsts s := by
  have hfailed : (∃ e, (occurrence.visit firsts follows).2 = .error e) ↔
      ∃ s, Scanned (Vanishes firsts.rel) occurrence.rest s ∧ ¬ Readable firsts s := by
    simp [visit_eq_error_iff, scan_eq_failed_iff]
  rw [← not_iff_not]
  simp only [not_forall, exists_prop, ← hfailed]
  rcases occurrence.visit firsts follows with ⟨next, e | grew⟩ <;> simp

/-- The merge at the end of a visit whose scan reached the end of the production. -/
def inherit (occurrence : Occurrence) (follows : SetTable) (found : SymbolSet) :
    SetTable × Bool :=
  let opened := ((follows.grow occurrence.target found).1.grow occurrence.owner ∅).1
  opened.grow occurrence.target (opened.setOf occurrence.owner)

/-- What a visit can do: it merges what the scan found and, if the scan reached the end, the set
    of the owner. -/
theorem visit_eq_ok (h : occurrence.visit firsts follows = (next, .ok grew)) :
    ∃ found,
      occurrence.scan firsts occurrence.rest = (found, .stopped) ∧
        next = (follows.grow occurrence.target found).1 ∧
        grew = (follows.grow occurrence.target found).2 ∨
      occurrence.scan firsts occurrence.rest = (found, .exhausted) ∧
        next = (occurrence.inherit follows found).1 ∧
        grew = ((follows.grow occurrence.target found).2 ||
          (occurrence.inherit follows found).2) := by
  unfold visit at h
  rcases hscan : occurrence.scan firsts occurrence.rest with ⟨found, ending⟩
  rw [hscan] at h
  refine ⟨found, ?_⟩
  cases ending with
  | stopped =>
    cases h
    exact .inl ⟨rfl, rfl, rfl⟩
  | exhausted =>
    cases h
    exact .inr ⟨rfl, rfl, rfl⟩
  | failed e => cases h

/-- An occurrence in a production of its own target merges the set into itself. -/
theorem rel_inherit {found : SymbolSet} :
    (occurrence.inherit follows found).1.rel id x ↔
      follows.rel id x ∨ id = occurrence.target ∧ (x ∈ found ∨ follows.rel occurrence.owner x) := by
  have howner : ∀ table : SetTable, x ∈ (table.grow occurrence.owner ∅).1.setOf occurrence.owner ↔
      table.rel occurrence.owner x := fun table => by
    rw [← SetTable.grow_empty table occurrence.owner]
    rfl
  unfold inherit
  rw [SetTable.rel_grow, SetTable.grow_empty, howner, SetTable.rel_grow, SetTable.rel_grow]
  tauto

/-- A visit merges what the rules ask for into the set of the occurrence. One that fails merges
    what it had found. -/
theorem rel_visit {outcome : Except Error Bool}
    (h : occurrence.visit firsts follows = (next, outcome)) :
    next.rel id x ↔
      follows.rel id x ∨ id = occurrence.target ∧ occurrence.Adds firsts follows.rel x := by
  unfold Adds
  rw [← mem_scan occurrence, ← scan_eq_exhausted_iff occurrence]
  unfold visit at h
  rcases hscan : occurrence.scan firsts occurrence.rest with ⟨found, ending⟩
  rw [hscan] at h
  cases ending with
  | exhausted =>
    obtain rfl : (occurrence.inherit follows found).1 = next := congrArg Prod.fst h
    simp [rel_inherit]
  | _ =>
    obtain rfl : (follows.grow occurrence.target found).1 = next := congrArg Prod.fst h
    simp [SetTable.rel_grow]

theorem visit_grows (h : occurrence.visit firsts follows = (next, .ok grew)) :
    follows.Grows next grew := by
  obtain ⟨found, ⟨-, rfl, rfl⟩ | ⟨-, rfl, rfl⟩⟩ := visit_eq_ok h
  · exact SetTable.grows_grow ..
  -- An owner without an entry gets an empty one, which no flag reports.
  · exact (SetTable.grows_grow ..).trans
      ((SetTable.grows_grow_empty ..).trans (SetTable.grows_grow ..))

theorem mem_visit (h : occurrence.visit firsts follows = (next, .ok grew)) (hid : id ∈ next) :
    id ∈ follows ∨ id = occurrence.target ∨ id = occurrence.owner := by
  obtain ⟨found, ⟨-, rfl, -⟩ | ⟨-, rfl, -⟩⟩ := visit_eq_ok h
  · rw [SetTable.mem_grow] at hid
    tauto
  · unfold inherit at hid
    rw [SetTable.mem_grow, SetTable.mem_grow, SetTable.mem_grow] at hid
    tauto

/-- A visit takes no entry away, and its target has one afterwards. -/
theorem mem_of_visit (h : occurrence.visit firsts follows = (next, .ok grew))
    (hid : id ∈ follows ∨ id = occurrence.target) : id ∈ next := by
  obtain ⟨found, ⟨-, rfl, -⟩ | ⟨-, rfl, -⟩⟩ := visit_eq_ok h
  · exact SetTable.mem_grow.2 hid.symm
  · unfold inherit
    rw [SetTable.mem_grow, SetTable.mem_grow, SetTable.mem_grow]
    tauto

end Occurrence

/-! ## Passes -/

section

variable {store : Store} {occurrence : Occurrence} {occurrences rest : List Occurrence}
  {firsts follows last : SetTable} {grew : Bool} {R : SymbolRelation} {id : NonterminalId}

theorem visitAll_cons_eq_ok (h : visitAll firsts (occurrence :: rest) follows = (last, .ok grew)) :
    ∃ next new more, occurrence.visit firsts follows = (next, .ok new) ∧
      visitAll firsts rest next = (last, .ok more) ∧ grew = (new || more) := by
  rw [visitAll] at h
  rcases hvisit : occurrence.visit firsts follows with ⟨next, _ | new⟩
  · rw [hvisit] at h
    cases h
  · rw [hvisit] at h
    dsimp only at h
    rcases hrest : visitAll firsts rest next with ⟨last', _ | more⟩
    · rw [hrest] at h
      cases h
    · rw [hrest] at h
      cases h
      exact ⟨next, new, more, rfl, hrest, rfl⟩

/-- A pass succeeds when every scan meets only symbols that it can deal with. What the FOLLOW
    sets are does not matter. -/
theorem exists_visitAll_iff :
    (∃ last grew, visitAll firsts occurrences follows = (last, .ok grew)) ↔
      ∀ occurrence ∈ occurrences, ∀ s,
        Scanned (Vanishes firsts.rel) occurrence.rest s → Readable firsts s := by
  induction occurrences generalizing follows with
  | nil => simp [visitAll]
  | cons occurrence rest ih =>
    rw [List.forall_mem_cons, ← Occurrence.exists_visit_iff occurrence firsts follows]
    constructor
    · intro ⟨last, grew, h⟩
      obtain ⟨next, new, more, hvisit, hrest, -⟩ := visitAll_cons_eq_ok h
      exact ⟨⟨next, new, hvisit⟩, ih.1 ⟨last, more, hrest⟩⟩
    · intro ⟨⟨next, new, hvisit⟩, hreadable⟩
      obtain ⟨last, more, hrest⟩ := ih.2 hreadable
      refine ⟨last, new || more, ?_⟩
      rw [visitAll, hvisit]
      dsimp only
      rw [hrest]

theorem visitAll_grows (h : visitAll firsts occurrences follows = (last, .ok grew)) :
    follows.Grows last grew := by
  induction occurrences generalizing follows grew with
  | nil =>
    cases h
    exact .refl _
  | cons occurrence rest ih =>
    obtain ⟨next, new, more, hvisit, hrest, rfl⟩ := visitAll_cons_eq_ok h
    exact (Occurrence.visit_grows hvisit).trans (ih hrest)

theorem mem_visitAll (h : visitAll firsts occurrences follows = (last, .ok grew))
    (hid : id ∈ last) :
    id ∈ follows ∨ id ∈ occurrences.map Occurrence.target ∨
      id ∈ occurrences.map Occurrence.owner := by
  induction occurrences generalizing follows grew with
  | nil =>
    cases h
    exact .inl hid
  | cons occurrence rest ih =>
    obtain ⟨next, new, more, hvisit, hrest, -⟩ := visitAll_cons_eq_ok h
    simp only [List.map_cons, List.mem_cons]
    rcases ih hrest with hnext | hlater
    · have := Occurrence.mem_visit hvisit hnext
      tauto
    · tauto

theorem mem_of_visitAll (h : visitAll firsts occurrences follows = (last, .ok grew))
    (hid : id ∈ follows ∨ id ∈ occurrences.map Occurrence.target) : id ∈ last := by
  induction occurrences generalizing follows grew with
  | nil =>
    cases h
    simpa using hid
  | cons occurrence rest ih =>
    obtain ⟨next, new, more, hvisit, hrest, -⟩ := visitAll_cons_eq_ok h
    apply ih hrest
    rw [List.map_cons, List.mem_cons, ← or_assoc] at hid
    exact hid.imp_left (Occurrence.mem_of_visit hvisit)

/-- A pass ends where the first visit fails, or goes on with the other visits. -/
theorem visitAll_cons {outcome : Except Error Bool}
    (h : visitAll firsts (occurrence :: rest) follows = (last, outcome)) :
    (∃ e, occurrence.visit firsts follows = (last, .error e)) ∨
      ∃ next new later, occurrence.visit firsts follows = (next, .ok new) ∧
        visitAll firsts rest next = (last, later) := by
  rw [visitAll] at h
  rcases hvisit : occurrence.visit firsts follows with ⟨next, e | new⟩
  · rw [hvisit] at h
    cases h
    exact .inl ⟨e, rfl⟩
  · rw [hvisit] at h
    dsimp only at h
    refine .inr ⟨next, new, (visitAll firsts rest next).2, rfl, ?_⟩
    rcases hrest : visitAll firsts rest next with ⟨last', _ | more⟩ <;> rw [hrest] at h <;> cases h <;>
      rfl

/-- A pass takes nothing away, also when it fails. -/
theorem le_visitAll {outcome : Except Error Bool}
    (h : visitAll firsts occurrences follows = (last, outcome)) : follows.rel ≤ last.rel := by
  induction occurrences generalizing follows outcome with
  | nil =>
    cases h
    exact le_rfl
  | cons occurrence rest ih =>
    rcases visitAll_cons h with ⟨e, hvisit⟩ | ⟨next, new, later, hvisit, hrest⟩
    · exact fun id x hx => (Occurrence.rel_visit hvisit).2 (.inl hx)
    · exact fun id x hx => ih hrest id x ((Occurrence.rel_visit hvisit).2 (.inl hx))

/-- A pass stays inside every relation that has what the rules ask for, also when it fails. -/
theorem visitAll_le {outcome : Except Error Bool}
    (h : visitAll firsts occurrences follows = (last, outcome)) (hle : follows.rel ≤ R)
    (hclosed : ∀ occurrence ∈ occurrences, occurrence.Adds firsts R ≤ R occurrence.target) :
    last.rel ≤ R := by
  induction occurrences generalizing follows outcome with
  | nil =>
    cases h
    exact hle
  | cons occurrence rest ih =>
    obtain ⟨hhead, htail⟩ := List.forall_mem_cons.1 hclosed
    have hstep : ∀ next outcome, occurrence.visit firsts follows = (next, outcome) →
        next.rel ≤ R := by
      intro next outcome hvisit id x hx
      rcases (Occurrence.rel_visit hvisit).1 hx with hold | ⟨rfl, hnew⟩
      · exact hle id x hold
      · exact hhead x (hnew.mono hle)
    rcases visitAll_cons h with ⟨e, hvisit⟩ | ⟨next, new, later, hvisit, hrest⟩
    · exact hstep _ _ hvisit
    -- What a visit inherits from its owner is what earlier visits have left there by now.
    · exact ih hrest (hstep _ _ hvisit) htail

/-- Visits that leave a symbol where it was have found it wherever it was asked for. -/
theorem adds_of_visitAll {x : Symbol}
    (h : visitAll firsts occurrences follows = (last, .ok grew))
    (hx : ∀ id, last.rel id x → follows.rel id x) :
    ∀ o ∈ occurrences, o.Adds firsts follows.rel x → follows.rel o.target x := by
  induction occurrences generalizing follows grew with
  | nil => exact List.forall_mem_nil _
  | cons occurrence rest ih =>
    obtain ⟨next, new, more, hvisit, hrest, -⟩ := visitAll_cons_eq_ok h
    have hfirst := (Occurrence.visit_grows hvisit).le
    have hlater := (visitAll_grows hrest).le
    -- The table between the visits holds the symbol in the same sets.
    have hsame : ∀ id, next.rel id x ↔ follows.rel id x := fun id =>
      ⟨fun hid => hx id (hlater id x hid), hfirst id x⟩
    refine List.forall_mem_cons.2 ⟨fun hadds => ?_, fun o ho hadds => ?_⟩
    · apply (hsame _).1
      exact (Occurrence.rel_visit hvisit).2 (.inr ⟨rfl, hadds⟩)
    · apply (hsame _).1
      apply ih hrest (fun id hid => (hsame id).2 (hx id hid)) o ho
      simpa only [Occurrence.Adds, hsame] using hadds

/-- A pass that adds nothing has found all that the rules ask for. -/
theorem adds_le_of_visitAll (h : visitAll firsts occurrences follows = (last, .ok false)) :
    ∀ occurrence ∈ occurrences,
      occurrence.Adds firsts follows.rel ≤ follows.rel occurrence.target := by
  intro occurrence hmem x
  apply adds_of_visitAll h _ occurrence hmem
  intro id hid
  rwa [← (visitAll_grows h).rel_eq]

end

end FirstFollow
