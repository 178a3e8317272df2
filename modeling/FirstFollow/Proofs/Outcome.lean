import FirstFollow.Report.Logged

/-!
# Outcomes of chained computations

A chain of computations succeeds exactly when each of its parts does.
-/

namespace FirstFollow

theorem bind_eq_ok {ε α β : Type} {first : Except ε α} {next : α → Except ε β} {b : β} :
    first >>= next = .ok b ↔ ∃ a, first = .ok a ∧ next a = .ok b := by
  cases first with
  | error e => simp [bind, Except.bind]
  | ok a => simp [bind, Except.bind]

theorem map_eq_ok {ε α β : Type} {f : α → β} {first : Except ε α} {b : β} :
    f <$> first = .ok b ↔ ∃ a, first = .ok a ∧ f a = b := by
  cases first with
  | error e => simp [Functor.map, Except.map]
  | ok a => simp [Functor.map, Except.map]

theorem bind_eq_error {ε α β : Type} {first : Except ε α} {next : α → Except ε β} {e : ε} :
    first >>= next = .error e ↔
      first = .error e ∨ ∃ a, first = .ok a ∧ next a = .error e := by
  cases first with
  | error e' => simp [bind, Except.bind]
  | ok a => simp [bind, Except.bind]

theorem map_eq_error {ε α β : Type} {f : α → β} {first : Except ε α} {e : ε} :
    f <$> first = .error e ↔ first = .error e := by
  cases first with
  | error e' => simp [Functor.map, Except.map]
  | ok a => simp [Functor.map, Except.map]

/-- What every computation of a list gives, they all give together. -/
theorem forall_of_mapM_eq_ok {ε α β : Type} {f : α → Except ε β} {p : β → Prop} {l : List α}
    {results : List β} (h : ∀ a ∈ l, ∀ b, f a = .ok b → p b) (hall : l.mapM f = .ok results) :
    ∀ b ∈ results, p b := by
  induction l generalizing results with
  | nil =>
    cases hall
    exact List.forall_mem_nil p
  | cons a rest ih =>
    obtain ⟨ha, hrest⟩ := List.forall_mem_cons.1 h
    rw [List.mapM_cons] at hall
    obtain ⟨b, hb, hall⟩ := bind_eq_ok.1 hall
    obtain ⟨others, hothers, hall⟩ := bind_eq_ok.1 hall
    cases hall
    exact List.forall_mem_cons.2 ⟨ha b hb, ih hrest hothers⟩

/-- The failure of an outcome, if it is one. -/
def errorOf? {ε α : Type} : Except ε α → Option ε
  | .ok _ => none
  | .error e => some e

section

variable {ε α : Type} {outcome : Except ε α}

@[simp] theorem errorOf?_ok (a : α) : errorOf? (.ok a : Except ε α) = none := rfl

@[simp] theorem errorOf?_error (e : ε) : errorOf? (.error e : Except ε α) = some e := rfl

@[simp] theorem errorOf?_eq_some_iff {e : ε} : errorOf? outcome = some e ↔ outcome = .error e := by
  cases outcome <;> simp

theorem errorOf?_eq_none_iff : errorOf? outcome = none ↔ ∃ a, outcome = .ok a := by
  cases outcome <;> simp

end

/-! ## Deciding outcomes -/

instance decidableEqOk {ε α : Type} [DecidableEq α] (outcome : Except ε α) (a : α) :
    Decidable (outcome = .ok a) :=
  match outcome with
  | .ok b => decidable_of_iff (b = a) (by simp)
  | .error _ => isFalse nofun

instance decidableExistsOk {ε α : Type} (outcome : Except ε α) :
    Decidable (∃ a, outcome = .ok a) :=
  match outcome with
  | .ok a => isTrue ⟨a, rfl⟩
  | .error _ => isFalse nofun

namespace Logged

variable {α β : Type}

theorem result_bind_eq_ok {first : Logged α} {next : α → Logged β} {b : β} :
    (first >>= next).result = .ok b ↔ ∃ a, first.result = .ok a ∧ (next a).result = .ok b := by
  rw [result_bind, bind_eq_ok]

theorem result_bind_eq_error {first : Logged α} {next : α → Logged β} {e : Error} :
    (first >>= next).result = .error e ↔
      first.result = .error e ∨ ∃ a, first.result = .ok a ∧ (next a).result = .error e := by
  rw [result_bind, bind_eq_error]

@[simp] theorem result_lift (first : Except Error α) :
    (liftM first : Logged α).result = first := rfl

end Logged

end FirstFollow
