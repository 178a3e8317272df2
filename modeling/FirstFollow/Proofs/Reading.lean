import FirstFollow.Proofs.Derivation

/-!
# Reading strings

A string can be read by a sentential form when it falls into parts that the symbols of the form
read one after another, each nonterminal as a given relation says. Derivations go back along
readings (`Store.reads_of_derives`): when nonterminals read all that their productions read, a
form reads every string that it derives.
-/

namespace FirstFollow

/-- A string as a sentential form. -/
def terminals (w : List Char) : List Symbol :=
  w.map fun c => .terminal c.toString

@[simp] theorem terminals_append (u v : List Char) :
    terminals (u ++ v) = terminals u ++ terminals v :=
  List.map_append

/-- The strings that symbols read, when nonterminals read what `M` says. -/
def Reads (M : NonterminalId → List Char → Prop) : List Symbol → List Char → Prop
  | [], w => w = []
  | .empty :: rest, w => Reads M rest w
  | .terminal text :: rest, w => ∃ c v, text = c.toString ∧ w = c :: v ∧ Reads M rest v
  | .nonterminal id :: rest, w => ∃ u v, w = u ++ v ∧ M id u ∧ Reads M rest v
  | _ :: _, _ => False

variable {M : NonterminalId → List Char → Prop} {a b : List Symbol} {id : NonterminalId}
  {w : List Char}

theorem reads_append :
    Reads M (a ++ b) w ↔ ∃ u v, w = u ++ v ∧ Reads M a u ∧ Reads M b v := by
  induction a generalizing w with
  | nil =>
    constructor
    · intro h
      exact ⟨[], w, rfl, rfl, h⟩
    · rintro ⟨_, v, rfl, rfl, h⟩
      exact h
  | cons s rest ih =>
    cases s with
    | empty => exact ih
    | terminal text =>
      simp only [List.cons_append, Reads, ih]
      constructor
      · rintro ⟨c, v, rfl, rfl, u, z, rfl, hu, hz⟩
        exact ⟨c :: u, z, rfl, ⟨c, u, rfl, rfl, hu⟩, hz⟩
      · rintro ⟨u, z, rfl, ⟨c, v, rfl, rfl, hv⟩, hz⟩
        exact ⟨c, v ++ z, rfl, rfl, v, z, rfl, hv, hz⟩
    | nonterminal id =>
      simp only [List.cons_append, Reads, ih]
      constructor
      · rintro ⟨x, v, rfl, hx, u, z, rfl, hu, hz⟩
        exact ⟨x ++ u, z, (List.append_assoc ..).symm, ⟨x, u, rfl, hx, hu⟩, hz⟩
      · rintro ⟨u, z, rfl, ⟨x, v, rfl, hx, hv⟩, hz⟩
        exact ⟨x, v ++ z, List.append_assoc .., hx, v, z, rfl, hv, hz⟩
    | _ => simp [Reads]

@[simp] theorem reads_nonterminal : Reads M [.nonterminal id] w ↔ M id w := by
  simp [Reads]

@[simp] theorem reads_terminal {c : Char} : Reads M [.terminal c.toString] w ↔ w = [c] := by
  constructor
  · rintro ⟨d, v, hd, rfl, rfl⟩
    have htexts : (String.singleton c).toList = (String.singleton d).toList :=
      congrArg String.toList hd
    rw [String.toList_singleton, String.toList_singleton] at htexts
    exact htexts.symm
  · rintro rfl
    exact ⟨c, [], rfl, rfl, rfl⟩

theorem reads_visible : Reads M (visible a) w ↔ Reads M a w := by
  induction a generalizing w with
  | nil => exact Iff.rfl
  | cons s rest ih =>
    cases s with
    | empty =>
      rw [visible_empty_cons]
      exact ih
    | _ =>
      rw [visible_cons (by simp)]
      simp only [Reads, ih]

/-- A string reads itself. -/
theorem reads_terminals (w : List Char) : Reads M (terminals w) w := by
  induction w with
  | nil => rfl
  | cons c v ih => exact ⟨c, v, rfl, rfl, ih⟩

namespace Store

variable {store : Store}
  (hM : ∀ id production, (id, production) ∈ store.alternatives →
    ∀ w, Reads M production w → M id w)

include hM

/-- What is read after a step was read before. -/
theorem reads_of_rewrites (step : store.Rewrites a b) (h : Reads M b w) : Reads M a w := by
  cases step with
  | @replace id production front back mem =>
    rw [List.append_assoc] at h
    obtain ⟨u, v, rfl, hu, hv⟩ := reads_append.1 h
    obtain ⟨x, y, rfl, hx, hy⟩ := reads_append.1 hv
    have hid : M id x := hM id production mem x (reads_visible.1 hx)
    exact reads_append.2 ⟨u, x ++ y, rfl, hu, x, y, rfl, hid, hy⟩

theorem reads_of_derives (hd : store.Derives a b) (h : Reads M b w) : Reads M a w := by
  induction hd with
  | refl => exact h
  | tail _ step ih => exact ih (reads_of_rewrites hM step h)

end Store

end FirstFollow
