import Mathlib.Logic.Relation
import FirstFollow.Proofs.Build
import FirstFollow.Proofs.WellFormed

/-!
# The history of a store

Whatever is done to a store, by its builder or from outside, is a sequence of edits
(`Builder.becomes_after`). Every edit keeps the alphabet and the keys in step with the productions
(`Store.Consistent`), and none changes a store that is frozen. So a store agrees with itself at
every moment, and from the moment when it is frozen it stays well formed and the same
(`store_history`).
-/

namespace FirstFollow

/-! ## Sequences of edits -/

namespace Store

/-- An edit of the first store gives the second. -/
def Changes (store next : Store) : Prop := ∃ edit, (store.apply edit).result = .ok next

/-- Edits one after another lead from the first store to the second. -/
def Becomes : Store → Store → Prop := Relation.ReflTransGen Changes

/-- Edits lead to a store from one without productions. -/
def Reached (store : Store) : Prop := ∃ names, (ofNames names).Becomes store

/-- The alphabet holds the texts of the terminals in productions, and a key has productions. -/
structure Consistent (store : Store) : Prop where
  alphabet : ∀ text, text ∈ store.alphabet ↔
    ∃ rule ∈ store.alternatives, .terminal text ∈ rule.2
  productions : ∀ id ∈ store.keys, ∃ production, (id, production) ∈ store.alternatives

variable {store next last : Store} {owner id : NonterminalId} {added production : Production}
  {text : String}

theorem mem_terminalTexts : text ∈ terminalTexts production ↔ .terminal text ∈ production := by
  unfold terminalTexts
  rw [List.mem_filterMap]
  constructor
  · intro ⟨s, hs, htext⟩
    cases s with
    | terminal other =>
      cases htext
      exact hs
    | _ => cases htext
  · intro h
    exact ⟨_, h, rfl⟩

theorem Added.mem_alternatives (h : store.Added owner added next) :
    (id, production) ∈ next.alternatives ↔
      (id, production) ∈ store.alternatives ∨ owner = id ∧ production = added := by
  simp only [mem_alternatives_iff, h.productions, List.mem_append]
  split <;> simp [*]

theorem not_mem_alternatives_ofNames (names : Table String NonterminalId)
    (rule : NonterminalId × Production) : rule ∉ (ofNames names).alternatives :=
  List.not_mem_nil

theorem consistent_ofNames (names : Table String NonterminalId) : (ofNames names).Consistent where
  alphabet text := by
    apply iff_of_false (SortedSet.not_mem_empty text)
    intro ⟨rule, hrule, _⟩
    exact not_mem_alternatives_ofNames names rule hrule
  productions id hid := absurd hid List.not_mem_nil

theorem Consistent.of_added (h : store.Consistent) (hadd : store.Added owner added next) :
    next.Consistent where
  alphabet text := by
    simp only [hadd.alphabet, h.alphabet, mem_terminalTexts, Prod.exists, hadd.mem_alternatives,
      or_and_right, exists_or]
    simp
  productions id hid := by
    rcases (hadd.keys id).1 hid with hid | rfl
    · obtain ⟨production, hmem⟩ := h.productions id hid
      exact ⟨production, hadd.mem_alternatives.2 (.inl hmem)⟩
    · exact ⟨added, hadd.mem_alternatives.2 (.inr ⟨rfl, rfl⟩)⟩

/-- An open store that can be frozen is well formed. -/
theorem isWellFormed_of_freeze (hopen : store.frozen = false)
    (h : store.freeze.result = .ok next) : store.IsWellFormed := by
  apply defect?_eq_none_iff.1
  unfold Store.freeze at h
  rw [hopen] at h
  cases hdefect : store.defect? with
  | none => rfl
  | some d =>
    simp only [hdefect] at h
    cases h

/-- What an edit does: it adds a production to an open store, or counts a helper, or freezes the
    store if it is well formed. A frozen store stays as it is. -/
inductive Edited (store next : Store) : Prop where
  | same (hfrozen : store.frozen = true) (h : next = store)
  | added {owner : NonterminalId} {production : Production} (hopen : store.frozen = false)
      (h : store.Added owner production next)
  | marked {id : NonterminalId} (hopen : store.frozen = false)
      (h : next = { store with synthetic := store.synthetic.insert id })
  | froze (hopen : store.frozen = false) (hwellFormed : store.IsWellFormed)
      (h : next = { store with frozen := true })

theorem Changes.edited (h : store.Changes next) : store.Edited next := by
  obtain ⟨edit, h⟩ := h
  cases hfrozen : store.frozen with
  | true =>
    apply Edited.same hfrozen
    cases edit with
    | add id production =>
      simp only [apply, Store.add, hfrozen] at h
      cases h
    | markSynthetic id =>
      simp only [apply, Store.markSynthetic, hfrozen] at h
      cases h
    | freeze =>
      simp only [apply, Store.freeze, hfrozen] at h
      cases h
      rfl
  | false =>
    cases edit with
    | add id production => exact .added hfrozen (added_of_add h)
    | markSynthetic id => exact .marked hfrozen (markSynthetic_eq_ok h)
    | freeze => exact .froze hfrozen (isWellFormed_of_freeze hfrozen h) (freeze_eq_ok h)

/-! ## What edits keep -/

/-- What holds of a store with the given names at every moment. -/
structure Sound (names : Table String NonterminalId) (store : Store) : Prop where
  names : store.names = names
  consistent : store.Consistent
  wellFormed : store.frozen = true → store.IsWellFormed

variable {names : Table String NonterminalId}

theorem sound_ofNames (names : Table String NonterminalId) : Sound names (ofNames names) where
  names := rfl
  consistent := consistent_ofNames names
  wellFormed := nofun

theorem Sound.edited (h : Sound names store) (hedit : store.Edited next) : Sound names next := by
  cases hedit with
  | same _ hnext => exact hnext ▸ h
  | added hopen hadd =>
    refine ⟨hadd.names.trans h.names, h.consistent.of_added hadd, fun hfrozen => ?_⟩
    rw [hadd.frozen, hopen] at hfrozen
    cases hfrozen
  | marked _ hnext =>
    subst hnext
    exact ⟨h.names, ⟨h.consistent.alphabet, h.consistent.productions⟩, h.wellFormed⟩
  | froze _ hwellFormed hnext =>
    subst hnext
    exact ⟨h.names, ⟨h.consistent.alphabet, h.consistent.productions⟩, fun _ => hwellFormed⟩

theorem Sound.becomes (h : Sound names store) (hlast : store.Becomes last) : Sound names last := by
  induction hlast with
  | refl => exact h
  | tail _ hstep ih => exact ih.edited hstep.edited

theorem Reached.consistent (h : store.Reached) : store.Consistent := by
  obtain ⟨names, hbecomes⟩ := h
  exact ((sound_ofNames names).becomes hbecomes).consistent

theorem Reached.isWellFormed (h : store.Reached) (hfrozen : store.frozen = true) :
    store.IsWellFormed := by
  obtain ⟨names, hbecomes⟩ := h
  exact ((sound_ofNames names).becomes hbecomes).wellFormed hfrozen

/-- A frozen store never changes again. -/
theorem Becomes.eq_of_frozen (h : store.Becomes last) (hfrozen : store.frozen = true) :
    last = store := by
  induction h with
  | refl => rfl
  | tail _ hstep ih =>
    subst ih
    cases hstep.edited with
    | same _ hnext => exact hnext
    | _ hopen =>
      rw [hfrozen] at hopen
      cases hopen

end Store

/-! ## Builders -/

namespace Builder

/-- What can be done to the store of a builder. -/
inductive Operation where
  /-- An edit from outside. -/
  | edit (edit : Store.Edit)
  /-- The builder builds, for the first time or again. -/
  | build

/-- Carries out one operation: what it leaves, also when it fails, and what it answers. -/
def operate (builder : Builder) : Operation → Builder × Logged Store
  | .edit edit => ({ builder with store := builder.store.after edit }, builder.store.apply edit)
  | .build => builder.build

/-- The builder after some operations, whether they succeed or not. -/
def after (builder : Builder) (operations : List Operation) : Builder :=
  operations.foldl (fun builder operation => (builder.operate operation).1) builder

variable {builder : Builder}

theorem becomes_perform (builder : Builder) (step : Step) :
    builder.store.Becomes (builder.perform step).1.store := by
  obtain ⟨-, -, hsame | ⟨id, hmark⟩ | ⟨id, production, hadd⟩⟩ := builder.perform_spec step
  · rw [hsame]
    exact .refl
  · exact .single ⟨.markSynthetic id, hmark⟩
  · exact .single ⟨.add id production, hadd⟩

theorem becomes_performAll (builder : Builder) (steps : List Step) :
    builder.store.Becomes (builder.performAll steps).1.store := by
  apply performAll_induction (R := fun a b => a.store.Becomes b.store)
  · exact fun _ => .refl
  · exact fun _ _ _ => .trans
  · exact becomes_perform

/-- A build that fails half way has made some of its edits. -/
theorem becomes_build (builder : Builder) : builder.store.Becomes builder.build.1.store := by
  have hplan := builder.becomes_performAll builder.plan
  unfold build
  rcases hlast : builder.performAll builder.plan with ⟨last, events, e | ⟨⟩⟩
  · rw [hlast] at hplan
    exact hplan
  · rw [hlast] at hplan
    cases hfreeze : last.store.freeze.result with
    | error e =>
      simp only [hfreeze]
      exact hplan
    | ok store =>
      simp only [hfreeze]
      exact hplan.tail ⟨.freeze, hfreeze⟩

theorem becomes_operate (builder : Builder) (operation : Operation) :
    builder.store.Becomes (builder.operate operation).1.store := by
  cases operation with
  | build => exact builder.becomes_build
  | edit edit =>
    simp only [operate, Store.after]
    cases hedit : (builder.store.apply edit).result with
    | error e => exact .refl
    | ok store => exact .single ⟨edit, hedit⟩

/-- An edit that fails leaves the builder as it was. -/
theorem operate_of_error {edit : Store.Edit} {e : Error}
    (h : (builder.operate (.edit edit)).2.result = .error e) :
    (builder.operate (.edit edit)).1 = builder := by
  have hedit : (builder.store.apply edit).result = .error e := h
  simp only [operate, Store.after, hedit]

theorem operate_add_of_frozen (h : builder.store.frozen = true) (id : NonterminalId)
    (production : Production) :
    (builder.operate (.edit (.add id production))).2.result =
      .error (.defect .productionAfterFreeze) := by
  simp only [operate, Store.apply, Store.add, h]
  rfl

/-- All that is ever done to a store are edits. -/
theorem becomes_after (builder : Builder) (operations : List Operation) :
    builder.store.Becomes (builder.after operations).store := by
  induction operations generalizing builder with
  | nil => exact .refl
  | cons operation rest ih =>
    exact (builder.becomes_operate operation).trans (ih (builder.operate operation).1)

end Builder

namespace Store

/-- The store that edits make of one without productions. -/
def ofEdits (names : Table String NonterminalId) (edits : List Edit) : Store :=
  ((Builder.mk [] (.ofTable names) (.ofNames names)).after (edits.map .edit)).store

theorem reached_ofEdits (names : Table String NonterminalId) (edits : List Edit) :
    (ofEdits names edits).Reached :=
  ⟨names, Builder.becomes_after ⟨[], .ofTable names, .ofNames names⟩ _⟩

end Store

/-- Whatever is done to a new store, the alphabet is that of its productions and a key has
    productions, and an edit that fails leaves everything as it was. When the store is frozen it
    is well formed, and nothing that is done later changes it. -/
theorem store_history (definitions : List Definition) (ids : Identifiers)
    (names : Table String NonterminalId) (operations : List Builder.Operation) :
    let builder := (Builder.mk definitions ids (.ofNames names)).after operations
    builder.store.Consistent ∧ builder.store.names = names ∧
      (∀ edit e, (builder.operate (.edit edit)).2.result = .error e →
        (builder.operate (.edit edit)).1 = builder) ∧
      (builder.store.frozen = true → builder.store.IsWellFormed ∧
        ∀ more, (builder.after more).store = builder.store) := by
  intro builder
  have hbecomes : (Store.ofNames names).Becomes builder.store :=
    Builder.becomes_after ⟨definitions, ids, .ofNames names⟩ operations
  have hsound := (Store.sound_ofNames names).becomes hbecomes
  refine ⟨hsound.consistent, hsound.names, fun edit e hfailed => ?_, fun hfrozen => ?_⟩
  · exact Builder.operate_of_error hfailed
  · refine ⟨hsound.wellFormed hfrozen, fun more => ?_⟩
    exact (builder.becomes_after more).eq_of_frozen hfrozen

/-- The names of the example below. -/
def sharedNames : Table String NonterminalId := .ofList [("a", 0)]

/-- Operations on a store whose builder is not alone in writing to it. The store cannot be frozen
    at first, since 5 refers to 7, and the builder builds twice, the second time in vain. -/
def sharedOperations : List Builder.Operation :=
  [.edit (.add 5 [.nonterminal 7, .terminal "y"]), .edit .freeze, .edit (.add 7 [.empty]),
    .edit (.markSynthetic 5), .build, .build]

/-- A builder after `sharedOperations`. -/
def sharedBuilder : Builder :=
  (Builder.mk [⟨"a", .repetition (.character 'x')⟩] (.ofTable sharedNames)
    (.ofNames sharedNames)).after sharedOperations

/-- A store after `sharedOperations`, which is frozen by then. -/
theorem store_history_sharedOperations :
    sharedBuilder.store.Consistent ∧ sharedBuilder.store.keys = [5, 7, 2, 0] ∧
      sharedBuilder.store.frozen = true ∧ sharedBuilder.store.IsWellFormed ∧
      (sharedBuilder.operate (.edit (.add 5 []))).2.result =
        .error (.defect .productionAfterFreeze) ∧
      (sharedBuilder.operate (.edit (.add 5 []))).1 = sharedBuilder ∧
      (sharedBuilder.after [.build, .edit .freeze]).store = sharedBuilder.store := by
  have hkeys : sharedBuilder.store.keys = [5, 7, 2, 0] := by decide +kernel
  have hfrozen : sharedBuilder.store.frozen = true := by decide +kernel
  obtain ⟨hconsistent, -, hsame, hlater⟩ : sharedBuilder.store.Consistent ∧ _ :=
    store_history _ _ sharedNames sharedOperations
  obtain ⟨hwellFormed, hforever⟩ := hlater hfrozen
  have hrefused := Builder.operate_add_of_frozen hfrozen 5 []
  exact ⟨hconsistent, hkeys, hfrozen, hwellFormed, hrefused, hsame _ _ hrefused, hforever _⟩

end FirstFollow
