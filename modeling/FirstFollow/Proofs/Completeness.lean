import FirstFollow.Proofs.Derivation
import FirstFollow.Proofs.Numbering
import FirstFollow.Proofs.Reading

/-!
# Lowered rules derive all that rules match

In a store that holds what the steps of a rule add, the symbols that the rule is lowered to derive
every string that the rule matches, and so does a nonterminal whose productions are the choices
of the rule (`derived_of_matches`).
-/

namespace FirstFollow

/-- What a step adds is in the store. -/
def Step.Carried (store : Store) : Step → Prop
  | .emit id production => (id, production) ∈ store.alternatives
  | .helper id _ _ => id ∈ store.synthetic
  | .announce _ _ => True
  | .fail _ => False

/-- Wherever a rule has been lowered, it derives a string: in its place in a production, and as
    the choices of a nonterminal. -/
structure Derived (store : Store) (names : Table String NonterminalId) (rule : Rule)
    (w : List Char) : Prop where
  inline : ∀ definition n,
    (∀ step ∈ (rule.lower ⟨names, definition⟩ n).steps, step.Carried store) →
      store.Derives (visible (rule.lower ⟨names, definition⟩ n).symbols) (terminals w)
  chosen : ∀ definition owner n,
    (∀ step ∈ (Rule.emitAll ⟨names, definition⟩ owner rule.choices n).1, step.Carried store) →
      store.Derives [.nonterminal owner] (terminals w)

variable {store : Store} {names : Table String NonterminalId} {definitions : List Definition}
  {scope : Scope} {rule : Rule} {rules : List Rule} {owner n : NonterminalId} {w : List Char}

theorem visible_spell (symbols : List Symbol) : visible (spell symbols) = visible symbols := by
  cases symbols with
  | nil => rfl
  | cons s rest => rfl

/-- Each of the rules that a nonterminal is lowered from has a place of its own. -/
theorem exists_place (hr : rule ∈ rules)
    (h : ∀ step ∈ (Rule.emitAll scope owner rules n).1, step.Carried store) :
    ∃ m, (∀ step ∈ (rule.lower scope m).steps, step.Carried store) ∧
      (owner, spell (rule.lower scope m).symbols) ∈ store.alternatives := by
  induction rules generalizing n with
  | nil => exact absurd hr List.not_mem_nil
  | cons first rest ih =>
    simp only [Rule.emitAll, List.forall_mem_append, List.forall_mem_cons] at h
    obtain ⟨hfirst, hemit, hrest⟩ := h
    rcases List.mem_cons.1 hr with rfl | hr
    · exact ⟨n, hfirst, hemit⟩
    · exact ih hr hrest

/-- A nonterminal derives what the rule of one of its productions derives in its place. -/
theorem derives_of_inline (hr : rule ∈ rules) {definition : String}
    (inline : ∀ m, (∀ step ∈ (rule.lower ⟨names, definition⟩ m).steps, step.Carried store) →
      store.Derives (visible (rule.lower ⟨names, definition⟩ m).symbols) (terminals w))
    (h : ∀ step ∈ (Rule.emitAll ⟨names, definition⟩ owner rules n).1, step.Carried store) :
    store.Derives [.nonterminal owner] (terminals w) := by
  obtain ⟨m, hsteps, hmem⟩ := exists_place hr h
  have hproduction := Store.Derives.of_mem hmem
  rw [visible_spell] at hproduction
  exact hproduction.trans (inline m hsteps)

/-- A rule that is no alternative is its only choice. -/
theorem Derived.of_inline (hchoices : rule.choices = [rule])
    (inline : ∀ definition n,
      (∀ step ∈ (rule.lower ⟨names, definition⟩ n).steps, step.Carried store) →
        store.Derives (visible (rule.lower ⟨names, definition⟩ n).symbols) (terminals w)) :
    Derived store names rule w where
  inline := inline
  chosen definition owner n h := by
    rw [hchoices] at h
    exact derives_of_inline List.mem_cons_self (inline definition) h

/-- In a store that holds what the definitions add, a rule derives what it matches. -/
theorem derived_of_matches
    (hdefinitions : ∀ d ∈ definitions, ∃ id m, names.get? d.name = some id ∧
      ∀ step ∈ (Rule.emitAll ⟨names, d.name⟩ id d.rule.choices m).1, step.Carried store)
    (h : Matches definitions rule w) : Derived store names rule w := by
  induction h with
  | character c => exact .of_inline rfl fun definition n h => .refl _
  | @reference d w hd _ ih =>
    obtain ⟨id, m, hget, hsteps⟩ := hdefinitions d hd
    refine .of_inline rfl fun definition n _ => ?_
    simp only [Rule.lower, hget, visible_nonterminal_cons, visible_nil]
    exact ih.chosen d.name id m hsteps
  | nil => exact .of_inline rfl fun definition n h => .refl _
  | @cons rule rules u v _ _ ihu ihv =>
    refine .of_inline rfl fun definition n h => ?_
    simp only [Rule.lower, Rule.lowerAll, List.forall_mem_append, visible_append,
      terminals_append] at h ⊢
    exact (ihu.inline definition n h.1).append (ihv.inline definition _ h.2)
  | @choice first rule rest w hr _ ih =>
    constructor
    · intro definition n h
      -- Inside a production, the choices are productions of the helper.
      have hchoices : ∀ step ∈ (Rule.emitAll ⟨names, definition⟩ n (first :: rest) (n + 1)).1,
          step.Carried store := fun step hstep => h step (List.mem_cons_of_mem _ hstep)
      exact derives_of_inline hr (ih.inline definition) hchoices
    · intro definition owner n h
      exact derives_of_inline hr (ih.inline definition) h
  | stop rule =>
    refine .of_inline rfl fun definition n h => ?_
    simp only [Rule.lower, List.cons_append, List.forall_mem_cons, List.forall_mem_append] at h
    obtain ⟨-, -, -, hempty, -⟩ := h
    exact Store.Derives.of_mem hempty
  | @again rule u v _ _ ihu ihv =>
    refine .of_inline rfl fun definition n h => ?_
    -- The rest is derived from the same helper, lowered in the same place.
    have hrest := ihv.inline definition n h
    simp only [Rule.lower, List.cons_append, List.forall_mem_cons, List.forall_mem_append] at h
    obtain ⟨-, hbody, hmore, -⟩ := h
    have hproduction := Store.Derives.of_mem hmore
    rw [visible_append] at hproduction
    rw [terminals_append]
    exact hproduction.trans ((ihu.inline definition _ hbody).append hrest)
  | absent rule =>
    refine .of_inline rfl fun definition n h => ?_
    simp only [Rule.lower, List.cons_append, List.forall_mem_cons, List.forall_mem_append] at h
    obtain ⟨-, -, hemit, hempty⟩ := h
    -- A body that is empty itself has the only empty production.
    by_cases hbody : spell (rule.lower ⟨names, definition⟩ (n + 1)).symbols = [.empty]
    · rw [hbody] at hemit
      exact Store.Derives.of_mem hemit
    · rw [if_neg hbody] at hempty
      exact Store.Derives.of_mem (hempty _ List.mem_cons_self)
  | @present rule w _ ih =>
    refine .of_inline rfl fun definition n h => ?_
    simp only [Rule.lower, List.cons_append, List.forall_mem_cons, List.forall_mem_append] at h
    obtain ⟨-, hbody, hemit, -⟩ := h
    have hproduction := Store.Derives.of_mem hemit
    rw [visible_spell] at hproduction
    exact hproduction.trans (ih.inline definition _ hbody)
  | @group rule w _ ih =>
    refine .of_inline rfl fun definition n h => ?_
    simp only [Rule.lower, List.cons_append, List.forall_mem_cons, List.forall_mem_append] at h
    obtain ⟨-, hbody, hemit, -⟩ := h
    have hproduction := Store.Derives.of_mem hemit
    rw [visible_spell] at hproduction
    exact hproduction.trans (ih.inline definition _ hbody)

end FirstFollow
