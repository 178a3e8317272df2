import Mathlib.Logic.Relation
import FirstFollow.Proofs.Analysis
import FirstFollow.Proofs.FollowFailure

/-!
# What a start adds to FOLLOW sets

With a start, the end of input follows it, and so it follows whatever stands at the right end of a
production of something that it follows. That is all that a start does (`Store.start_adds_end`).
The passes with a start may differ from those without one in number and in what they leave on the
way, but both end with a least solution of the same rules, and a symbol that comes from outside is
handed on by none of the rules but the one for right ends.
-/

namespace FirstFollow

/-- What an analysis finds beside the FOLLOW sets. -/
def GrammarSets.firstPart (sets : GrammarSets) :
    SortedSet String × SortedSet NonterminalId × Table Symbol SymbolSet :=
  (sets.alphabet, sets.identifiers, sets.firsts)

namespace Store

variable {store : Store} {firsts : SetTable} {start : NonterminalId} {plain ended : Follows}
  {owner target id : NonterminalId} {R : SymbolRelation} {x : Symbol} {e : Error}

/-! ## Right ends -/

/-- A production of the owner holds the target, and behind it only nonterminals that vanish. -/
def EndsWith (store : Store) (firsts : SetTable) (owner target : NonterminalId) : Prop :=
  ∃ rest, store.Occurs owner target rest ∧ ∀ s ∈ rest, Vanishes firsts.rel s

/-- The nonterminal is the start, or a production ends with it whose owner is at a right end. -/
def AtRightEnd (store : Store) (firsts : SetTable) (start : NonterminalId) :
    NonterminalId → Prop :=
  Relation.ReflTransGen (store.EndsWith firsts) start

/-- The end of input may be added to a solution of the rules along right ends. -/
theorem followClosed_with_end (hclosed : FollowClosed store firsts R) (start : NonterminalId) :
    FollowClosed store firsts fun id x =>
      R id x ∨ x = .endOfInput ∧ store.AtRightEnd firsts start id where
  scanned hoccurs hs x hx := .inl (hclosed.scanned hoccurs hs x hx)
  inherited hoccurs hrest x hx :=
    hx.imp (hclosed.inherited hoccurs hrest x) fun ⟨hend, hreach⟩ =>
      ⟨hend, hreach.tail ⟨_, hoccurs, hrest⟩⟩

/-- A solution of the rules with the end of input behind the start has it along right ends. -/
theorem end_of_atRightEnd (hclosed : FollowClosed store firsts R) (hstart : R start .endOfInput)
    (h : store.AtRightEnd firsts start id) : R id .endOfInput := by
  induction h with
  | refl => exact hstart
  | tail _ hstep ih =>
    obtain ⟨rest, hoccurs, hrest⟩ := hstep
    exact hclosed.inherited hoccurs hrest _ ih

/-! ## Sets with a start and without one -/

theorem rel_follows_start (hended : (store.follows firsts (some start)).result = .ok ended)
    (hplain : (store.follows firsts none).result = .ok plain) :
    ended.table.rel id x ↔
      plain.table.rel id x ∨ x = .endOfInput ∧ store.AtRightEnd firsts start id := by
  obtain ⟨⟨hstart, hclosed⟩, hleast⟩ := isLeast_follows hended
  obtain ⟨⟨-, hclosed'⟩, hleast'⟩ := isLeast_follows hplain
  constructor
  -- The plain sets, with the end of input along right ends, are a solution around the start.
  · refine hleast ⟨?_, followClosed_with_end hclosed' start⟩ id x
    rintro _ ⟨⟩
    exact .inr ⟨rfl, .refl⟩
  · rintro (hx | ⟨rfl, hreach⟩)
    · exact hleast' ⟨nofun, hclosed⟩ id x hx
    · exact end_of_atRightEnd hclosed (hstart start rfl) hreach

/-- Whether the passes fail does not depend on the start, as long as the store knows it. -/
theorem follows_eq_error_start {given : Option NonterminalId}
    (hgiven : ∀ id, given = some id → id ∈ store.identifiers) :
    (store.follows firsts given).result = .error e ↔
      (store.follows firsts none).result = .error e := by
  obtain ⟨begin, hbegin⟩ := exists_followStart_iff.2 hgiven
  have hblank : store.followStart none = .ok (.blank store.identifiers.toList) := rfl
  rw [follows_eq_error_iff hbegin, follows_eq_error_iff hblank]

/-! ## Analyses with a start and without one -/

theorem firstPart_analyze {given : Start} {found : Option NonterminalId}
    (h : store.startId given = .ok found) :
    GrammarSets.firstPart <$> (store.analyze given).result =
      GrammarSets.firstPart <$> (store.analyze .unspecified).result := by
  have hknown : ∀ id, found = some id → id ∈ store.identifiers := by
    rintro id rfl
    exact mem_identifiers_of_startId h
  cases hplain : (store.analyze .unspecified).result with
  | error e =>
    have herror : (store.analyze given).result = .error e := by
      have hplain := analyze_eq_error.1 hplain
      simp only [startId, Except.ok.injEq, exists_eq_left', reduceCtorEq, false_or] at hplain
      apply analyze_eq_error.2
      simpa only [h, Except.ok.injEq, exists_eq_left', reduceCtorEq, false_or,
        follows_eq_error_start hknown] using hplain
    rw [herror]
  | ok plain =>
    obtain ⟨hfrozen, _, firsts, entries, follows, ⟨⟩, hfirsts, hentries, hfollows, rfl⟩ :=
      analyze_eq_ok.1 hplain
    cases hended : (store.follows firsts found).result with
    | error e =>
      rw [follows_eq_error_start hknown, hfollows] at hended
      cases hended
    | ok ended =>
      rw [analyze_eq_ok.2
        ⟨hfrozen, found, firsts, entries, ended, h, hfirsts, hentries, hended, rfl⟩]
      rfl

/-- A start that the store knows does not decide whether FOLLOW sets exist, whatever the FIRST sets
    are. It adds the end of input to the sets of the nonterminals at its right end and nothing
    else. To the other parts of an analysis it makes no difference. -/
theorem start_adds_end (hstart : start ∈ store.identifiers) :
    (∀ firsts e, (store.follows firsts (some start)).result = .error e ↔
      (store.follows firsts none).result = .error e) ∧
    (∀ firsts plain ended, (store.follows firsts none).result = .ok plain →
      (store.follows firsts (some start)).result = .ok ended →
        (∀ id, id ∈ ended.table ↔ id ∈ plain.table) ∧
        ∀ id x, x ∈ ended.table.setOf id ↔
          x ∈ plain.table.setOf id ∨ x = .endOfInput ∧ store.AtRightEnd firsts start id) ∧
    ∀ given found, store.startId given = .ok found →
      GrammarSets.firstPart <$> (store.analyze given).result =
        GrammarSets.firstPart <$> (store.analyze .unspecified).result := by
  refine ⟨fun firsts e => ?_, fun firsts plain ended hplain hended => ⟨fun id => ?_, ?_⟩, ?_⟩
  · apply follows_eq_error_start
    rintro _ ⟨⟩
    exact hstart
  · rw [mem_follows hended, mem_follows hplain]
  · exact fun id x => rel_follows_start hended hplain
  · exact fun given found => firstPart_analyze

/-- The FOLLOW sets of `circularTails` from 1, which has 3 at a right end, and its analysis. The
    FIRST sets are none of its own, and without them there are no FOLLOW sets, whatever the start
    is. -/
theorem start_adds_end_circularTails :
    let store : Store := { circularTails with frozen := true }
    let firsts : SetTable := .ofList [(2, .ofList [.empty, .terminal "z"])]
    1 ∈ store.identifiers ∧
      (∃ e, (store.follows ∅ none).result = .error e ∧
        (store.follows ∅ (some 1)).result = .error e) ∧
      (∃ plain ended, (store.follows firsts none).result = .ok plain ∧
        (store.follows firsts (some 1)).result = .ok ended ∧
        .endOfInput ∉ plain.table.setOf 3 ∧ .endOfInput ∈ ended.table.setOf 3) ∧
      store.startId (.id 1) = .ok (some 1) ∧
      GrammarSets.firstPart <$> (store.analyze (.id 1)).result =
        GrammarSets.firstPart <$> (store.analyze .unspecified).result := by
  intro store firsts
  have hmem : 1 ∈ store.identifiers := by decide +kernel
  have hstart : store.startId (.id 1) = .ok (some 1) := by decide +kernel
  have hmissing : ¬ ∃ plain, (store.follows ∅ none).result = .ok plain := by decide +kernel
  have hlacks : (fun plain : Follows => decide (.endOfInput ∈ plain.table.setOf 3)) <$>
      (store.follows firsts none).result = .ok false := by decide +kernel
  have hsets : ∃ ended, (store.follows firsts (some 1)).result = .ok ended := by decide +kernel
  have hright : store.EndsWith firsts 1 3 := by
    have hrule : (1, [.nonterminal 3, .nonterminal 2]) ∈ store.alternatives := by decide +kernel
    have hempty : .empty ∈ firsts.setOf 2 := by decide +kernel
    exact ⟨_, ⟨[], hrule⟩, List.forall_mem_singleton.2 hempty⟩
  obtain ⟨plain, hplain, hlacks⟩ := map_eq_ok.1 hlacks
  obtain ⟨ended, hended⟩ := hsets
  obtain ⟨hfails, hadds, hanalyze⟩ := start_adds_end hmem
  refine ⟨hmem, ?_, ⟨plain, ended, hplain, hended, of_decide_eq_false hlacks, ?_⟩, hstart,
    hanalyze _ _ hstart⟩
  · cases hfailed : (store.follows ∅ none).result with
    | ok plain => exact absurd ⟨plain, hfailed⟩ hmissing
    | error e => exact ⟨e, rfl, (hfails ∅ e).2 hfailed⟩
  · exact ((hadds _ _ _ hplain hended).2 3 _).2 (.inr ⟨rfl, .single hright⟩)

end Store

end FirstFollow
