import FirstFollow.Proofs.Analysis
import FirstFollow.Proofs.Solvability

/-!
# FOLLOW sets are exact

What stands next to a nonterminal in derived sentential forms obeys the merging rules, so the
least solution holds nothing else. Conversely every solution covers every derived form: behind
each nonterminal of the form it finds all that the rest of the form can begin with
(`Store.covered_of_rewrites`). So the FOLLOW sets of an analysis are the symbols that derivations
put next to a nonterminal (`Store.follow_exact`).
-/

namespace FirstFollow

/-- Behind each nonterminal in a form, a relation finds what the rest of the form begins with, and
    at the end what is said to be last. -/
def Covered (D R : SymbolRelation) (last : Symbol → Prop) : List Symbol → Prop
  | [] => True
  | .nonterminal id :: rest => FirstThen D rest last ≤ R id ∧ Covered D R last rest
  | _ :: rest => Covered D R last rest

variable {D R : SymbolRelation} {last more : Symbol → Prop} {a b : List Symbol} {x : Symbol}

theorem Covered.mono_last (hle : last ≤ more) (h : Covered D R more a) : Covered D R last a := by
  induction a with
  | nil => trivial
  | cons s rest ih =>
    cases s with
    | nonterminal id =>
      obtain ⟨hid, hrest⟩ := h
      exact ⟨fun x hx => hid x (hx.mono_last hle), ih hrest⟩
    | _ => exact ih h

theorem covered_append :
    Covered D R last (a ++ b) ↔ Covered D R (FirstThen D b last) a ∧ Covered D R last b := by
  induction a with
  | nil => exact (iff_of_eq (true_and _)).symm
  | cons s rest ih =>
    cases s with
    | nonterminal id =>
      have hthen : FirstThen D (rest ++ b) last = FirstThen D rest (FirstThen D b last) :=
        funext fun x => propext firstThen_append
      rw [List.cons_append, Covered, Covered, ih, hthen, and_assoc]
    | _ => exact ih

namespace Store

variable {store : Store} {start : Option NonterminalId} {firsts : SetTable}
  {A B id owner : NonterminalId} {front rest symbols : List Symbol} {s : Symbol}

/-! ## What stands next to a nonterminal -/

/-- Some nonterminal of the store derives a form in which the terminal comes right after `A`, or
    the start derives a form that ends with `A`. -/
inductive Adjacent (store : Store) (start : Option NonterminalId) (A : NonterminalId) :
    Symbol → Prop where
  | terminal {B : NonterminalId} {front back : List Symbol} {text : String}
      (hB : B ∈ store.identifiers)
      (h : store.Derives [.nonterminal B] (front ++ .nonterminal A :: .terminal text :: back)) :
      Adjacent store start A (.terminal text)
  | endOfInput {s : NonterminalId} {front : List Symbol} (hs : start = some s)
      (h : store.Derives [.nonterminal s] (front ++ [.nonterminal A])) :
      Adjacent store start A .endOfInput

theorem first_of_scanned (hs : Scanned (Vanishes R) rest s) (hx : Opens R s x) :
    First R rest x := by
  induction hs with
  | here => exact first_cons.2 (.inl hx)
  | past h _ ih => exact first_cons.2 (.inr ⟨.inr h, ih hx⟩)

theorem first_of_vanishes (h : ∀ s ∈ rest, Vanishes R s) : First R rest .empty :=
  .inr ⟨rfl, fun s hs => .inr (h s hs)⟩

/-- An owner derives the occurrences in its productions. -/
theorem Occurs.derives (h : store.Occurs owner A rest) :
    ∃ front, store.Derives [.nonterminal owner] (front ++ .nonterminal A :: visible rest) := by
  obtain ⟨front, hmem⟩ := h
  have hd := Derives.of_mem hmem
  rw [visible_append, visible_nonterminal_cons] at hd
  exact ⟨visible front, hd⟩

/-- Being next to a nonterminal obeys the merging rules. -/
theorem followClosed_adjacent (hfirsts : store.firsts = .ok firsts) :
    FollowClosed store firsts (store.Adjacent start) := by
  constructor
  · intro owner target rest s hoccurs hs x hx
    have hbegins : store.Begins rest x := (first_firsts_iff hfirsts).1 (first_of_scanned hs hx)
    obtain ⟨front, howner⟩ := hoccurs.derives
    cases hbegins with
    | @terminal text back hrest =>
      have hnext := (hrest.append_left [.nonterminal target]).append_left front
      exact .terminal (mem_identifiers_of_occurs hoccurs) (howner.trans hnext)
    | empty => exact absurd rfl hx.ne_empty
  · intro owner target rest hoccurs hrest x hx
    have hbegins : store.Begins rest .empty :=
      (first_firsts_iff hfirsts).1 (first_of_vanishes hrest)
    obtain ⟨front, howner⟩ := hoccurs.derives
    have hvanish := (begins_empty_iff.1 hbegins).append_left [.nonterminal target]
    -- The owner derives a form that ends with the target, in any context.
    have hlast : store.Derives [.nonterminal owner] (front ++ [.nonterminal target]) :=
      howner.trans (hvanish.append_left front)
    cases hx with
    | @terminal B before back text hB h =>
      have hd := hlast.context before (.terminal text :: back)
      simp only [List.append_assoc, List.singleton_append] at hd
      rw [← List.append_assoc] at hd
      exact .terminal hB (h.trans hd)
    | @endOfInput s before hs h =>
      have hd := hlast.append_left before
      rw [← List.append_assoc] at hd
      exact .endOfInput hs (h.trans hd)

/-! ## Every derived form is covered -/

/-- With the computed FIRST sets, a scan that meets only readable symbols after an occurrence
    finds what the merging rules speak of. -/
theorem scanned_of_firstThen
    (hreadable : ∀ s, Scanned (Vanishes R) rest s → Readable firsts s)
    (h : FirstThen R rest last x) :
    (∃ s, Scanned (Vanishes R) rest s ∧ Opens R s x) ∨ (∀ s ∈ rest, Vanishes R s) ∧ last x := by
  induction rest with
  | nil => exact .inr ⟨fun s hs => absurd hs List.not_mem_nil, firstThen_nil.1 h⟩
  | cons s rest ih =>
    rcases firstThen_cons.1 h with hopens | ⟨rfl | hs, hrest⟩
    · exact .inl ⟨s, .here, hopens⟩
    · exact (hreadable .empty .here).elim
    · rcases ih (fun t ht => hreadable t (.past hs ht)) hrest with ⟨t, ht, hx⟩ | ⟨hall, hx⟩
      · exact .inl ⟨t, .past hs ht, hx⟩
      · exact .inr ⟨List.forall_mem_cons.2 ⟨hs, hall⟩, hx⟩

section

variable (hfirsts : store.firsts = .ok firsts) (hclosed : FollowClosed store firsts R)
  (hreadable : ∀ o ∈ store.occurrences, ∀ s,
    Scanned (Vanishes firsts.rel) o.rest s → Readable firsts s)

include hclosed hreadable in
/-- The occurrences in a production are covered by what follows its owner. -/
theorem covered_production (hmem : (owner, front ++ symbols) ∈ store.alternatives) :
    Covered firsts.rel R (R owner) (visible symbols) := by
  induction symbols generalizing front with
  | nil => trivial
  | cons s rest ih =>
    have hrest : Covered firsts.rel R (R owner) (visible rest) := by
      rw [← List.singleton_append, ← List.append_assoc] at hmem
      exact ih hmem
    cases s with
    | empty =>
      rw [visible_empty_cons]
      exact hrest
    | nonterminal target =>
      rw [visible_nonterminal_cons]
      refine ⟨fun x hx => ?_, hrest⟩
      have hoccurs : store.Occurs owner target rest := ⟨front, hmem⟩
      obtain ⟨o, ho, -, -, rfl⟩ := hoccurs.exists_mem
      -- The scan behind the occurrence is the one that the rules speak of.
      rw [FirstThen, first_visible, first_visible] at hx
      rcases scanned_of_firstThen (hreadable o ho) hx with ⟨s, hs, hx⟩ | ⟨hall, hx⟩
      · exact hclosed.scanned hoccurs hs x hx
      · exact hclosed.inherited hoccurs hall x hx
    | _ => exact hrest

include hfirsts hclosed hreadable

/-- A step keeps a form covered. -/
theorem covered_of_rewrites (hstep : store.Rewrites a b) (h : Covered firsts.rel R last a) :
    Covered firsts.rel R last b := by
  cases hstep with
  | @replace id production front back mem =>
    obtain ⟨hfront, hid, hback⟩ := covered_append.1 h
    have hproduction : Covered firsts.rel R (R id) (visible production) :=
      covered_production hclosed hreadable (show (id, [] ++ production) ∈ _ from mem)
    have hrule : ∀ x, First firsts.rel (visible production) x → firsts.rel id x := fun x hx =>
      (isLeast_firsts hfirsts).1 _ mem x (first_visible.1 hx)
    -- What the production begins with, its nonterminal began with before.
    have hle : FirstThen firsts.rel (visible production ++ back) last ≤
        FirstThen firsts.rel (.nonterminal id :: back) last := by
      intro x hx
      rcases firstThen_append.1 hx with ⟨hx, hne⟩ | ⟨hempty, hx⟩
      · exact firstThen_cons.2 (.inl ⟨hrule x hx, hne⟩)
      · exact firstThen_cons.2 (.inr ⟨.inr (hrule .empty hempty), hx⟩)
    rw [List.append_assoc]
    exact covered_append.2
      ⟨hfront.mono_last hle, covered_append.2 ⟨hproduction.mono_last hid, hback⟩⟩

theorem covered_of_derives (hd : store.Derives a b) (h : Covered firsts.rel R last a) :
    Covered firsts.rel R last b := by
  induction hd with
  | refl => exact h
  | tail _ step ih => exact covered_of_rewrites hfirsts hclosed hreadable step ih

/-- Every solution of the rules that has the end of input for the start finds all that stands next
    to a nonterminal. -/
theorem adjacent_le (hstart : ∀ id, start = some id → R id .endOfInput) :
    store.Adjacent start ≤ R := by
  intro A x hx
  cases hx with
  | @terminal B front back text hB h =>
    have hbase : Covered firsts.rel R (fun _ => False) [.nonterminal B] :=
      ⟨fun x hx => (firstThen_nil.1 hx).elim, trivial⟩
    have hform := covered_of_derives hfirsts hclosed hreadable h hbase
    obtain ⟨-, hA, -⟩ := covered_append.1 hform
    exact hA _ (firstThen_cons.2 (.inl rfl))
  | @endOfInput s front hs h =>
    have hbase : Covered firsts.rel R (· = .endOfInput) [.nonterminal s] := by
      refine ⟨fun x hx => ?_, trivial⟩
      obtain rfl := firstThen_nil.1 hx
      exact hstart s hs
    have hform := covered_of_derives hfirsts hclosed hreadable h hbase
    obtain ⟨-, hA, -⟩ := covered_append.1 hform
    exact hA _ (firstThen_nil.2 rfl)

end

/-! ## FOLLOW is exact -/

/-- The computed FOLLOW sets are what stands next to nonterminals. -/
theorem rel_follows {result : Follows} (hfirsts : store.firsts = .ok firsts)
    (h : (store.follows firsts start).result = .ok result) :
    result.table.rel = store.Adjacent start := by
  obtain ⟨⟨hend, hclosed⟩, hleast⟩ := isLeast_follows h
  have hreadable : ∀ o ∈ store.occurrences, ∀ s, Scanned (Vanishes firsts.rel) o.rest s →
      Readable firsts s := fun o ho =>
    (exists_follows_iff.1 ⟨result, h⟩).2 o.owner o.target o.rest (occurs_of_mem ho)
  have hadjacent : ∀ id, start = some id → store.Adjacent start id .endOfInput := by
    intro id hid
    have hself : store.Derives [.nonterminal id] ([] ++ [.nonterminal id]) := .refl _
    exact .endOfInput hid hself
  -- Being adjacent is a solution, and every solution contains it.
  apply le_antisymm
  · exact hleast ⟨hadjacent, followClosed_adjacent hfirsts⟩
  · exact adjacent_le hfirsts hclosed hreadable hend

/-- A set holds the terminals that come right after `A` in a form that some nonterminal derives,
    the end of input if the start derives a form that ends with `A`, and nothing else. -/
structure IsFollow (store : Store) (start : Option NonterminalId) (A : NonterminalId)
    (set : SymbolSet) : Prop where
  terminal : ∀ text, .terminal text ∈ set ↔ ∃ B ∈ store.identifiers, ∃ front back,
    store.Derives [.nonterminal B] (front ++ .nonterminal A :: .terminal text :: back)
  endOfInput : .endOfInput ∈ set ↔
    ∃ s, start = some s ∧ ∃ front, store.Derives [.nonterminal s] (front ++ [.nonterminal A])
  only : ∀ x ∈ set, x = .endOfInput ∨ ∃ text, x = .terminal text

theorem isFollow_of_mem_iff {set : SymbolSet} (h : ∀ x, x ∈ set ↔ store.Adjacent start A x) :
    store.IsFollow start A set where
  terminal text := by
    rw [h]
    constructor
    · intro hx
      cases hx with
      | terminal hB hd => exact ⟨_, hB, _, _, hd⟩
    · intro ⟨B, hB, front, back, hd⟩
      exact .terminal hB hd
  endOfInput := by
    rw [h]
    constructor
    · intro hx
      cases hx with
      | endOfInput hs hd => exact ⟨_, hs, _, hd⟩
    · intro ⟨s, hs, front, hd⟩
      exact .endOfInput hs hd
  only x hx := by
    cases (h x).1 hx with
    | terminal => exact .inr ⟨_, rfl⟩
    | endOfInput => exact .inl rfl

theorem follow_eq_ok_of_analyze {given : Start} {sets : GrammarSets}
    (h : (store.analyze given).result = .ok sets) {result : Follows}
    (hresult : (store.follows firsts sets.start).result = .ok result)
    (hfirsts : store.firsts = .ok firsts) (hA : A ∈ store.identifiers) :
    sets.follow A = .ok (result.table.setOf A) := by
  obtain ⟨-, s, firsts', entries, result', -, hfirsts', -, hresult', rfl⟩ := analyze_eq_ok.1 h
  cases hfirsts.symm.trans hfirsts'
  cases hresult.symm.trans hresult'
  let entries := store.identifiers.toList.map fun id => (id, result.table.setOf id)
  have hanswer : ∀ entry ∈ entries, some (result.table.setOf entry.1) = some entry.2 := by
    intro entry hentry
    obtain ⟨id, -, rfl⟩ := List.mem_map.1 hentry
    rfl
  have hkeys : A ∈ entries.map Prod.fst := by simpa [entries] using hA
  unfold GrammarSets.follow SetTable.lookup Table.ofList
  dsimp only
  rw [Table.get?_insertMany (fun id => some (result.table.setOf id)) hanswer, if_pos hkeys]

/-- Of each nonterminal, an analysis answers with what stands next to it. -/
theorem exists_follow_of_analyze {given : Start} {sets : GrammarSets}
    (h : (store.analyze given).result = .ok sets) (hA : A ∈ store.identifiers) :
    ∃ set, sets.follow A = .ok set ∧ ∀ x, x ∈ set ↔ store.Adjacent sets.start A x := by
  obtain ⟨-, s, firsts, entries, result, -, hfirsts, -, hresult, hsets⟩ := analyze_eq_ok.1 h
  obtain rfl : sets.start = s := congrArg GrammarSets.start hsets
  refine ⟨_, follow_eq_ok_of_analyze h hresult hfirsts hA, fun x => ?_⟩
  rw [← rel_follows hfirsts hresult]
  rfl

theorem startId_of_analyze {given : Start} {sets : GrammarSets}
    (h : (store.analyze given).result = .ok sets) : store.startId given = .ok sets.start := by
  obtain ⟨-, s, _, _, _, hstart, -, -, -, rfl⟩ := analyze_eq_ok.1 h
  exact hstart

/-- An analysis answers for each nonterminal with what derivations put next to it. The start is
    the one that was given, if any. -/
theorem follow_exact {given : Start} {sets : GrammarSets}
    (h : (store.analyze given).result = .ok sets) :
    store.startId given = .ok sets.start ∧
      ∀ A ∈ store.identifiers,
        ∃ set, sets.follow A = .ok set ∧ store.IsFollow sets.start A set := by
  refine ⟨startId_of_analyze h, fun A hA => ?_⟩
  obtain ⟨set, hset, hmem⟩ := exists_follow_of_analyze h hA
  exact ⟨set, hset, isFollow_of_mem_iff hmem⟩

/-- The analysis of `circularTails` from 0, for a nonterminal that 1 ends with and that inherits
    what follows 1. -/
theorem follow_exact_circularTails :
    let store : Store := { circularTails with frozen := true }
    ∃ sets, (store.analyze (.id 0)).result = .ok sets ∧ store.startId (.id 0) = .ok sets.start ∧
      ∃ set, sets.follow 2 = .ok set ∧ store.IsFollow sets.start 2 set := by
  intro store
  have hanalyze : ∃ sets, (store.analyze (.id 0)).result = .ok sets := by decide +kernel
  have hmem : 2 ∈ store.identifiers := by decide +kernel
  obtain ⟨sets, h⟩ := hanalyze
  obtain ⟨hstart, hfollow⟩ := follow_exact h
  exact ⟨sets, h, hstart, hfollow 2 hmem⟩

end Store

end FirstFollow
