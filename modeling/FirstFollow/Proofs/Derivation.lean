import Mathlib.Logic.Relation
import FirstFollow.Store.Basic

/-!
# Derivations

A store read as a context-free grammar. A sentential form is a list of symbols, and a step
replaces one nonterminal by one of its productions. The empty symbol stands for the empty string
and is erased. Derivations go on inside any context (`Derives.append`).
-/

namespace FirstFollow

/-- What symbols contribute to a sentential form: all but the empty symbol. -/
def visible (symbols : List Symbol) : List Symbol :=
  symbols.filter (· ≠ .empty)

@[simp] theorem visible_nil : visible [] = [] := rfl

@[simp] theorem visible_append (a b : List Symbol) :
    visible (a ++ b) = visible a ++ visible b :=
  List.filter_append a b

@[simp] theorem visible_empty_cons (symbols : List Symbol) :
    visible (.empty :: symbols) = visible symbols := by
  simp [visible]

@[simp] theorem visible_cons {symbol : Symbol} (h : symbol ≠ .empty) (symbols : List Symbol) :
    visible (symbol :: symbols) = symbol :: visible symbols := by
  simp [visible, h]

@[simp] theorem visible_nonterminal_cons (id : NonterminalId) (symbols : List Symbol) :
    visible (.nonterminal id :: symbols) = .nonterminal id :: visible symbols :=
  visible_cons (by simp) symbols

namespace Store

/-- One nonterminal of a sentential form is replaced by one of its productions. -/
inductive Rewrites (store : Store) : List Symbol → List Symbol → Prop where
  | replace {id : NonterminalId} {production : Production} (front back : List Symbol)
      (mem : (id, production) ∈ store.alternatives) :
      Rewrites store (front ++ .nonterminal id :: back) (front ++ visible production ++ back)

/-- Zero or more steps lead from one sentential form to another. -/
def Derives (store : Store) : List Symbol → List Symbol → Prop :=
  Relation.ReflTransGen store.Rewrites

variable {store : Store} {a b c d : List Symbol} {id : NonterminalId} {production : Production}

theorem Rewrites.context (h : store.Rewrites a b) (front back : List Symbol) :
    store.Rewrites (front ++ a ++ back) (front ++ b ++ back) := by
  cases h with
  | @replace id production front' back' mem =>
    simpa only [List.append_assoc, List.cons_append] using
      Rewrites.replace (front ++ front') (back' ++ back) mem

@[refl] theorem Derives.refl (a : List Symbol) : store.Derives a a :=
  Relation.ReflTransGen.refl

@[trans] theorem Derives.trans (h : store.Derives a b) (h' : store.Derives b c) :
    store.Derives a c :=
  Relation.ReflTransGen.trans h h'

/-- A derivation goes on in any context. -/
theorem Derives.context (h : store.Derives a b) (front back : List Symbol) :
    store.Derives (front ++ a ++ back) (front ++ b ++ back) := by
  induction h with
  | refl => exact .refl _
  | tail _ step ih => exact Relation.ReflTransGen.tail ih (step.context front back)

theorem Derives.append_left (h : store.Derives a b) (front : List Symbol) :
    store.Derives (front ++ a) (front ++ b) := by
  simpa only [List.append_nil] using h.context front []

theorem Derives.append_right (h : store.Derives a b) (back : List Symbol) :
    store.Derives (a ++ back) (b ++ back) := by
  simpa only [List.nil_append] using h.context [] back

/-- Parts of a form derive side by side. -/
theorem Derives.append (h : store.Derives a b) (h' : store.Derives c d) :
    store.Derives (a ++ c) (b ++ d) :=
  (h.append_right c).trans (h'.append_left b)

/-- A nonterminal derives each of its productions. -/
theorem Derives.of_mem (mem : (id, production) ∈ store.alternatives) :
    store.Derives [.nonterminal id] (visible production) := by
  have step := Rewrites.replace [] [] mem
  rw [List.nil_append, List.nil_append, List.append_nil] at step
  exact .single step

end Store

end FirstFollow
