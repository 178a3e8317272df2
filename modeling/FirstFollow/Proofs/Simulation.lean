import Mathlib.Data.List.Forall2
import FirstFollow.Proofs.Build
import FirstFollow.Proofs.FollowSets

/-!
# Simulations between stores

Stores may hold the same productions under different numbers. A relation between the nonterminals
of two stores is a simulation when each production of a nonterminal has a counterpart, symbol by
symbol, among the productions of each nonterminal related to it. Derivations carry over to related
forms (`Store.Simulates.derives`). So a related nonterminal begins with all that the other one
begins with, and has next to it all that the other one has.
-/

namespace FirstFollow

/-! ## Related forms -/

/-- The same terminal or empty symbol, or related nonterminals. -/
inductive Symbol.Related (C : NonterminalId → NonterminalId → Prop) : Symbol → Symbol → Prop where
  | empty : Related C .empty .empty
  | terminal (text : String) : Related C (.terminal text) (.terminal text)
  | nonterminal {id id' : NonterminalId} (h : C id id') :
      Related C (.nonterminal id) (.nonterminal id')

/-- Forms that are related symbol by symbol. -/
abbrev RelatedForms (C : NonterminalId → NonterminalId → Prop) : List Symbol → List Symbol → Prop :=
  List.Forall₂ (Symbol.Related C)

namespace RelatedForms

variable {C : NonterminalId → NonterminalId → Prop} {a a' b c : List Symbol} {id : NonterminalId}
  {text : String}

theorem flip (h : RelatedForms C a b) : RelatedForms (flip C) b a := by
  apply List.Forall₂.flip
  apply h.imp
  intro s t hst
  cases hst with
  | empty => exact .empty
  | terminal text => exact .terminal text
  | nonterminal h => exact .nonterminal h

theorem append (h : RelatedForms C a b) (h' : RelatedForms C a' c) :
    RelatedForms C (a ++ a') (b ++ c) :=
  List.rel_append h h'

/-- What is related to a concatenation falls into related parts. -/
theorem exists_append (h : RelatedForms C (a ++ a') c) :
    ∃ b b', c = b ++ b' ∧ RelatedForms C a b ∧ RelatedForms C a' b' := by
  induction a generalizing c with
  | nil => exact ⟨[], c, rfl, .nil, h⟩
  | cons s a ih =>
    cases h with
    | cons hs hrest =>
      obtain ⟨b, b', rfl, hb, hb'⟩ := ih hrest
      exact ⟨_ :: b, b', rfl, .cons hs hb, hb'⟩

theorem exists_nonterminal (h : RelatedForms C (a ++ .nonterminal id :: a') c) :
    ∃ b id' b', c = b ++ .nonterminal id' :: b' ∧ RelatedForms C a b ∧ C id id' ∧
      RelatedForms C a' b' := by
  obtain ⟨b, _, rfl, hb, htail⟩ := h.exists_append
  cases htail with
  | cons hs hb' =>
    cases hs with
    | nonterminal hid => exact ⟨b, _, _, rfl, hb, hid, hb'⟩

theorem exists_terminal (h : RelatedForms C (.terminal text :: a) c) :
    ∃ b, c = .terminal text :: b := by
  cases h with
  | cons hs _ =>
    cases hs with
    | terminal => exact ⟨_, rfl⟩

theorem visible (h : RelatedForms C a b) : RelatedForms C (visible a) (visible b) := by
  induction h with
  | nil => exact .nil
  | cons hs _ ih =>
    cases hs with
    | empty => simpa only [visible_empty_cons] using ih
    | terminal text => exact .cons (.terminal text) ih
    | nonterminal hid => exact .cons (.nonterminal hid) ih

end RelatedForms

namespace Store

/-- Productions of a nonterminal have related counterparts under each related nonterminal. -/
def Simulates (a b : Store) (C : NonterminalId → NonterminalId → Prop) : Prop :=
  ∀ id id', C id id' → ∀ production, (id, production) ∈ a.alternatives →
    ∃ production', (id', production') ∈ b.alternatives ∧ RelatedForms C production production'

variable {a b : Store} {C : NonterminalId → NonterminalId → Prop} {s s' t : List Symbol}
  {id id' A A' : NonterminalId}

/-! ## Derivations -/

theorem Simulates.rewrites (h : a.Simulates b C) (hstep : a.Rewrites s t)
    (hs : RelatedForms C s s') : ∃ t', b.Rewrites s' t' ∧ RelatedForms C t t' := by
  cases hstep with
  | @replace id production front back mem =>
    obtain ⟨front', id', back', rfl, hfront, hid, hback⟩ := hs.exists_nonterminal
    obtain ⟨production', mem', hproduction⟩ := h id id' hid production mem
    have hreplaced := (hfront.append hproduction.visible).append hback
    exact ⟨_, .replace front' back' mem', hreplaced⟩

/-- A derivation carries over to related forms. -/
theorem Simulates.derives (h : a.Simulates b C) (hd : a.Derives s t) (hs : RelatedForms C s s') :
    ∃ t', b.Derives s' t' ∧ RelatedForms C t t' := by
  induction hd with
  | refl => exact ⟨s', .refl _, hs⟩
  | tail _ step ih =>
    obtain ⟨u, hu, hrelated⟩ := ih
    obtain ⟨t', hstep, ht⟩ := h.rewrites step hrelated
    exact ⟨t', hu.tail hstep, ht⟩

theorem Simulates.derives_nonterminal (h : a.Simulates b C) (hid : C id id')
    (hd : a.Derives [.nonterminal id] t) :
    ∃ t', b.Derives [.nonterminal id'] t' ∧ RelatedForms C t t' :=
  h.derives hd (.cons (.nonterminal hid) .nil)

/-! ## Beginnings and neighbours -/

theorem Simulates.beginnings_le (h : a.Simulates b C) (hid : C id id') :
    a.beginnings id ≤ b.beginnings id' := by
  intro x hx
  cases hx with
  | terminal hd =>
    obtain ⟨t', hd', ht⟩ := h.derives_nonterminal hid hd
    obtain ⟨rest, rfl⟩ := ht.exists_terminal
    exact .terminal hd'
  | empty hd =>
    obtain ⟨t', hd', ht⟩ := h.derives_nonterminal hid hd
    cases ht
    exact .empty hd'

/-- In stores that simulate each other, related nonterminals begin with the same. -/
theorem Simulates.beginnings_eq (h : a.Simulates b C) (hback : b.Simulates a (flip C))
    (hid : C id id') : a.beginnings id = b.beginnings id' :=
  le_antisymm (h.beginnings_le hid) (hback.beginnings_le hid)

/-- What stands next to a nonterminal stands next to the one that it is related to, if there is only
    one and no nonterminal is left out. -/
theorem Simulates.adjacent_le (h : a.Simulates b C)
    (htotal : ∀ id ∈ a.identifiers, ∃ id' ∈ b.identifiers, C id id')
    (hunique : ∀ id', C A id' → id' = A') : a.Adjacent none A ≤ b.Adjacent none A' := by
  intro x hx
  cases hx with
  | @terminal B front back text hB hd =>
    obtain ⟨B', hB', hrelated⟩ := htotal B hB
    obtain ⟨t', hd', ht⟩ := h.derives_nonterminal hrelated hd
    obtain ⟨front', id', rest, rfl, -, hid, hrest⟩ := ht.exists_nonterminal
    obtain ⟨back', rfl⟩ := hrest.exists_terminal
    obtain rfl := hunique id' hid
    exact .terminal hB' hd'
  | endOfInput hs => cases hs

/-! ## Matched productions -/

/-- Related nonterminals have related productions, in the same order. -/
def Matched (a b : Store) (C : NonterminalId → NonterminalId → Prop) : Prop :=
  ∀ id id', C id id' → List.Forall₂ (RelatedForms C) (a.productionsOf id) (b.productionsOf id')

theorem Matched.symm (h : a.Matched b C) : b.Matched a (flip C) := fun id' id hid =>
  ((h id id' hid).imp fun _ _ => RelatedForms.flip).flip

theorem Matched.simulates (h : a.Matched b C) : a.Simulates b C := by
  intro id id' hid production hmem
  rw [mem_alternatives_iff] at hmem
  have hproductions := h id id' hid
  obtain ⟨i, hi, rfl⟩ := List.getElem_of_mem hmem
  have hi' : i < (b.productionsOf id').length := hproductions.length_eq ▸ hi
  refine ⟨(b.productionsOf id')[i], mem_alternatives_iff.2 (List.getElem_mem hi'), ?_⟩
  exact hproductions.get hi hi'

end Store

end FirstFollow
