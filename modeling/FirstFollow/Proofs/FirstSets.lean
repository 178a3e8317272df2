import FirstFollow.Proofs.Derivation
import FirstFollow.Proofs.Saturation
import FirstFollow.Proofs.Scan

/-!
# FIRST sets are exact

A relation is closed when the set of each nonterminal contains what the scans of its productions
collect. The passes over a store never leave a closed relation and stop at one, so the table that
they reach is the least closed relation (`Store.isLeast_firsts`). Deriving a form that begins with
a terminal, or the empty form, is closed as well, and every closed relation contains it: the two
are the same (`Store.first_firsts_iff`).
-/

namespace FirstFollow

/-- The set of each nonterminal contains what the scans of its productions collect. -/
def FirstClosed (rules : List (NonterminalId × Production)) (R : SymbolRelation) : Prop :=
  ∀ rule ∈ rules, First R rule.2 ≤ R rule.1

/-! ## One pass -/

section

variable {id other : NonterminalId} {production : Production} {set : SymbolSet}
  {rules rest : List (NonterminalId × Production)} {firsts last : SetTable} {grew : Bool}
  {R : SymbolRelation} {x : Symbol}

theorem firstPass_cons_eq_ok :
    firstPass ((id, production) :: rest) firsts = .ok (last, grew) ↔
      ∃ set more, sequenceFirst firsts.firstOf production = .ok set ∧
        firstPass rest (firsts.grow id set).1 = .ok (last, more) ∧
        grew = ((firsts.grow id set).2 || more) := by
  rw [firstPass]
  constructor
  · intro h
    obtain ⟨set, hset, h⟩ := bind_eq_ok.1 h
    obtain ⟨⟨last', more⟩, hlast, h⟩ := bind_eq_ok.1 h
    cases h
    exact ⟨set, more, hset, hlast, rfl⟩
  · rintro ⟨set, more, hset, hlast, rfl⟩
    rw [hset]
    refine bind_eq_ok.2 ⟨set, rfl, ?_⟩
    exact bind_eq_ok.2 ⟨(last, more), hlast, rfl⟩

/-- One step of a pass adds what the scan of the production collects. -/
theorem rel_grow_sequenceFirst (h : sequenceFirst firsts.firstOf production = .ok set) :
    (firsts.grow id set).1.rel other x ↔
      firsts.rel other x ∨ other = id ∧ First firsts.rel production x := by
  have hlookup : ∀ id set, firsts.firstOf id = .ok set → ∀ x, x ∈ set ↔ firsts.rel id x := by
    intro id set h x
    obtain ⟨-, rfl⟩ := firstOf_eq_ok.1 h
    rfl
  rw [SetTable.rel_grow, mem_sequenceFirst hlookup h]

theorem firstPass_grows (h : firstPass rules firsts = .ok (last, grew)) :
    firsts.Grows last grew := by
  induction rules generalizing firsts grew with
  | nil =>
    cases h
    exact .refl _
  | cons rule rest ih =>
    obtain ⟨set, more, -, hlast, rfl⟩ := firstPass_cons_eq_ok.1 h
    exact (SetTable.grows_grow firsts rule.1 set).trans (ih hlast)

theorem mem_firstPass (h : firstPass rules firsts = .ok (last, grew)) :
    id ∈ last ↔ id ∈ firsts ∨ id ∈ rules.map Prod.fst := by
  induction rules generalizing firsts grew with
  | nil =>
    cases h
    simp
  | cons rule rest ih =>
    obtain ⟨set, more, -, hlast, rfl⟩ := firstPass_cons_eq_ok.1 h
    rw [ih hlast, SetTable.mem_grow, List.map_cons, List.mem_cons]
    tauto

/-- A pass stays inside every closed relation. -/
theorem firstPass_le (h : firstPass rules firsts = .ok (last, grew)) (hle : firsts.rel ≤ R)
    (hclosed : FirstClosed rules R) : last.rel ≤ R := by
  induction rules generalizing firsts grew with
  | nil =>
    cases h
    exact hle
  | cons rule rest ih =>
    obtain ⟨set, more, hset, hlast, rfl⟩ := firstPass_cons_eq_ok.1 h
    obtain ⟨hrule, hrest⟩ := List.forall_mem_cons.1 hclosed
    -- The rest of the pass starts from the grown table, which is still inside the relation.
    refine ih hlast (fun other x hx => ?_) hrest
    rcases (rel_grow_sequenceFirst hset).1 hx with hold | ⟨rfl, hnew⟩
    · exact hle other x hold
    · exact hrule x (hnew.mono hle)

/-- A pass that adds nothing has seen a closed relation. -/
theorem firstClosed_of_firstPass (h : firstPass rules firsts = .ok (last, false)) :
    FirstClosed rules firsts.rel := by
  induction rules generalizing firsts with
  | nil => exact fun rule hrule => absurd hrule List.not_mem_nil
  | cons rule rest ih =>
    obtain ⟨set, more, hset, hlast, hgrew⟩ := firstPass_cons_eq_ok.1 h
    obtain ⟨hstep, rfl⟩ := Bool.or_eq_false_iff.1 hgrew.symm
    -- Nothing grew on the way, so every production was scanned with the same sets.
    have hrel := (hstep ▸ SetTable.grows_grow firsts rule.1 set).rel_eq
    refine List.forall_mem_cons.2 ⟨fun x hx => ?_, ?_⟩
    · rw [← hrel]
      exact (rel_grow_sequenceFirst hset).2 (.inr ⟨rfl, hx⟩)
    · rw [← hrel]
      exact ih hlast

theorem saturates_firstPass (rules : List (NonterminalId × Production)) :
    Saturates (firstPass rules) (FirstClosed rules) where
  grows := firstPass_grows
  le := firstPass_le
  closed := firstClosed_of_firstPass

end

/-! ## The loop -/

namespace SetTable

variable {ids : List NonterminalId} {id : NonterminalId}

theorem get?_blank : (blank ids).get? id = if id ∈ ids then some ∅ else none := by
  unfold blank Table.ofList
  rw [Table.get?_insertMany (fun _ => some ∅) (by simp)]
  simp [Function.comp_def]

@[simp] theorem not_rel_blank (ids : List NonterminalId) (id : NonterminalId) (x : Symbol) :
    ¬ (blank ids).rel id x := by
  unfold rel setOf
  rw [get?_blank]
  split <;> simp

theorem blank_le (ids : List NonterminalId) (R : SymbolRelation) : (blank ids).rel ≤ R :=
  fun id x hx => absurd hx (not_rel_blank ids id x)

@[simp] theorem mem_blank : id ∈ blank ids ↔ id ∈ ids := by
  rw [← Table.isSome_get?_iff, get?_blank]
  split <;> simp [*]

end SetTable

namespace Store

variable {store : Store} {firsts : SetTable} {id : NonterminalId} {production : Production}
  {symbols a b : List Symbol} {x : Symbol} {R : SymbolRelation}

/-- The symbols that FIRST sets are made of. -/
def firstSymbols (store : Store) : List Symbol :=
  .empty :: (store.alternatives.flatMap fun entry => terminalTexts entry.2).map .terminal

/-- Scans collect nothing but the empty symbol and the terminals of productions. -/
theorem firstClosed_of_terminals (hempty : .empty ∈ symbols)
    (hterminals : ∀ rule ∈ store.alternatives, ∀ text, .terminal text ∈ rule.2 →
      .terminal text ∈ symbols) : FirstClosed store.alternatives fun _ x => x ∈ symbols := by
  intro rule hrule x hx
  rcases hx.origin with rfl | ⟨text, rfl, hmem⟩ | ⟨_, hmem⟩
  · exact hempty
  · exact hterminals rule hrule text hmem
  · exact hmem

theorem firstClosed_firstSymbols (store : Store) :
    FirstClosed store.alternatives fun _ x => x ∈ store.firstSymbols := by
  refine firstClosed_of_terminals List.mem_cons_self fun rule hrule text hmem => ?_
  refine List.mem_cons_of_mem _ (List.mem_map_of_mem (List.mem_flatMap.2 ⟨rule, hrule, ?_⟩))
  exact List.mem_filterMap.2 ⟨_, hmem, rfl⟩

theorem map_fst_alternatives_subset (store : Store) :
    ∀ id ∈ store.alternatives.map Prod.fst, id ∈ store.keys := by
  intro id hid
  obtain ⟨⟨_, production⟩, hmem, rfl⟩ := List.mem_map.1 hid
  exact mem_keys_of_mem_alternatives hmem

/-- A pass gives entries to keys of the store only. -/
theorem mem_keys_of_firstPass (table next : SetTable) (grew : Bool)
    (h : firstPass store.alternatives table = .ok (next, grew))
    (htable : ∀ id ∈ table, id ∈ store.keys) : ∀ id ∈ next, id ∈ store.keys := by
  intro id hid
  exact ((mem_firstPass h).1 hid).elim (htable id) (store.map_fst_alternatives_subset id)

/-- The passes stop by themselves: the limit on their number is never reached. -/
theorem runs_firstRun (store : Store) :
    Runs (firstPass store.alternatives) (.blank store.keys) store.firstRun.flags
      store.firstRun.result := by
  have hsize : store.keys.length = store.size := List.length_map _
  have hcount : store.firstSymbols.length =
      (store.alternatives.flatMap fun entry => terminalTexts entry.2).length + 1 := by
    simp [firstSymbols]
  refine (saturates_firstPass store.alternatives).runs mem_keys_of_firstPass
    store.firstClosed_firstSymbols (fun id => SetTable.mem_blank.1) (SetTable.blank_le _ _) ?_
  rw [hsize, hcount]
  exact Nat.lt_succ_self _

theorem mem_iff_of_firstPass {table next : SetTable} {grew : Bool}
    (htable : ∀ id, id ∈ table ↔ id ∈ store.keys)
    (h : firstPass store.alternatives table = .ok (next, grew)) (id : NonterminalId) :
    id ∈ next ↔ id ∈ store.keys := by
  rw [mem_firstPass h, htable]
  exact or_iff_left_of_imp (store.map_fst_alternatives_subset id)

/-- The FIRST sets come from a pass that added nothing, over a table of all nonterminals with
    productions. -/
theorem exists_last_firstPass (h : store.firsts = .ok firsts) :
    ∃ table, (∀ id, id ∈ table ↔ id ∈ store.keys) ∧
      firstPass store.alternatives table = .ok (firsts, false) := by
  have run := store.runs_firstRun
  rw [show store.firstRun.result = .ok firsts from h] at run
  apply run.last_pass (fun table => ∀ id, id ∈ table ↔ id ∈ store.keys)
  · exact fun id => SetTable.mem_blank
  · exact fun table next => mem_iff_of_firstPass

/-- The nonterminals that have FIRST sets are those that have productions. -/
theorem mem_firsts (h : store.firsts = .ok firsts) : id ∈ firsts ↔ id ∈ store.keys := by
  obtain ⟨table, htable, hpass⟩ := exists_last_firstPass h
  exact mem_iff_of_firstPass htable hpass id

/-- The FIRST sets are the least ones that contain FIRST of every production. -/
theorem isLeast_firsts (h : store.firsts = .ok firsts) :
    IsLeast {R | FirstClosed store.alternatives R} firsts.rel := by
  have run := store.runs_firstRun
  rw [show store.firstRun.result = .ok firsts from h] at run
  obtain ⟨⟨-, hclosed⟩, hleast⟩ := (saturates_firstPass _).isLeast run
  exact ⟨hclosed, fun R hR => hleast ⟨SetTable.blank_le _ R, hR⟩⟩

/-! ## What can begin -/

/-- Some sentential form that the symbols derive begins with a terminal, or the symbols derive
    the empty form. -/
inductive Begins (store : Store) (symbols : List Symbol) : Symbol → Prop where
  | terminal {text : String} {rest : List Symbol}
      (h : store.Derives (visible symbols) (.terminal text :: rest)) :
      Begins store symbols (.terminal text)
  | empty (h : store.Derives (visible symbols) []) : Begins store symbols .empty

/-- What nonterminals can begin with. -/
def beginnings (store : Store) : SymbolRelation := fun id x => store.Begins [.nonterminal id] x

theorem begins_terminal_iff {text : String} :
    store.Begins symbols (.terminal text) ↔
      ∃ rest, store.Derives (visible symbols) (.terminal text :: rest) := by
  constructor
  · intro h
    cases h with
    | terminal h => exact ⟨_, h⟩
  · intro ⟨rest, h⟩
    exact .terminal h

theorem begins_empty_iff :
    store.Begins symbols .empty ↔ store.Derives (visible symbols) [] := by
  constructor
  · intro h
    cases h with
    | empty h => exact h
  · exact .empty

/-- A derivation can be put in front. -/
theorem Begins.of_derives (h : store.Begins b x) (hd : store.Derives (visible a) (visible b)) :
    store.Begins a x := by
  cases h with
  | terminal h => exact .terminal (hd.trans h)
  | empty h => exact .empty (hd.trans h)

theorem begins_of_nullable {s : Symbol} (hs : Nullable store.beginnings s)
    (h : store.Begins symbols x) : store.Begins (s :: symbols) x := by
  refine h.of_derives ?_
  rcases hs with rfl | hs
  · rw [visible_empty_cons]
  · cases s with
    | nonterminal id =>
      rw [visible_nonterminal_cons]
      exact (begins_empty_iff.1 hs).append_right (visible symbols)
    | _ => exact hs.elim

theorem begins_of_opens {s : Symbol} (h : Opens store.beginnings s x) :
    store.Begins (s :: symbols) x := by
  cases s with
  | terminal text =>
    obtain rfl : x = .terminal text := h
    exact .terminal (.refl _)
  | nonterminal id =>
    obtain ⟨hx, hne⟩ := h
    cases hx with
    | terminal hx =>
      have hd := hx.append_right (visible symbols)
      rw [← visible_append] at hd
      exact .terminal hd
    | empty => exact absurd rfl hne
  | _ => exact h.elim

/-- A scan collects nothing but what can begin. -/
theorem begins_of_first (h : First store.beginnings symbols x) : store.Begins symbols x := by
  induction symbols with
  | nil =>
    obtain rfl := first_nil.1 h
    exact .empty (.refl _)
  | cons s rest ih =>
    rcases first_cons.1 h with hs | ⟨hs, hrest⟩
    · exact begins_of_opens hs
    · exact begins_of_nullable hs (ih hrest)

theorem firstClosed_beginnings (store : Store) :
    FirstClosed store.alternatives store.beginnings := fun _ hrule _ hx =>
  (begins_of_first hx).of_derives (.of_mem hrule)

/-- The empty symbols of a list do not matter to a scan. -/
theorem first_visible : First R (visible symbols) x ↔ First R symbols x := by
  induction symbols with
  | nil => exact Iff.rfl
  | cons s rest ih =>
    rcases eq_or_ne s .empty with rfl | hs
    · rw [visible_empty_cons, first_empty_cons, ih]
    · rw [visible_cons hs, first_cons, first_cons, ih]

/-- Before a step the scan collects all that it collects afterwards. -/
theorem first_of_rewrites (hclosed : FirstClosed store.alternatives R) (h : store.Rewrites a b)
    (hx : First R b x) : First R a x := by
  cases h with
  | @replace id production front back mem =>
    have hrule : ∀ y, First R (visible production) y → R id y := fun y hy =>
      hclosed _ mem y (first_visible.1 hy)
    -- The production and its nonterminal stand between the same symbols.
    rw [List.append_assoc, first_append, first_append] at hx
    rw [first_append, first_nonterminal_cons]
    refine hx.imp_right fun ⟨hfront, hx⟩ => ⟨hfront, ?_⟩
    refine hx.imp ?_ ?_
    · exact fun ⟨hnew, hne⟩ => ⟨hrule x hnew, hne⟩
    · exact fun ⟨hnew, hback⟩ => ⟨hrule .empty hnew, hback⟩

theorem first_of_derives (hclosed : FirstClosed store.alternatives R) (h : store.Derives a b)
    (hx : First R b x) : First R a x := by
  induction h using Relation.ReflTransGen.head_induction_on with
  | refl => exact hx
  | head step _ ih => exact first_of_rewrites hclosed step ih

/-- Every closed relation collects all that can begin. -/
theorem Begins.first (hclosed : FirstClosed store.alternatives R) (h : store.Begins symbols x) :
    First R symbols x := by
  rw [← first_visible]
  cases h with
  | terminal h => exact first_of_derives hclosed h (first_terminal_cons.2 rfl)
  | empty h => exact first_of_derives hclosed h (first_nil.2 rfl)

/-- What nonterminals can begin with is the least closed relation, also when no table of it can be
    computed. -/
theorem isLeast_beginnings (store : Store) :
    IsLeast {R | FirstClosed store.alternatives R} store.beginnings :=
  ⟨store.firstClosed_beginnings, fun _ hclosed _ _ hx =>
    first_nonterminal.1 (Begins.first hclosed hx)⟩

/-- The computed FIRST sets are what nonterminals can begin with. -/
theorem rel_firsts (h : store.firsts = .ok firsts) : firsts.rel = store.beginnings :=
  (isLeast_firsts h).unique store.isLeast_beginnings

/-- A scan with the computed FIRST sets collects exactly what can begin. -/
theorem first_firsts_iff (h : store.firsts = .ok firsts) :
    First firsts.rel symbols x ↔ store.Begins symbols x := by
  rw [rel_firsts h]
  exact ⟨begins_of_first, Begins.first store.firstClosed_beginnings⟩

end Store

end FirstFollow
