/-!
# The order of texts

Texts are ordered code point by code point, and a text before its extensions.
-/

namespace FirstFollow

/-- Whether the first text comes before the second. -/
def textBefore : List Char → List Char → Bool
  | _, [] => false
  | [], _ :: _ => true
  | c :: s, d :: t =>
    if c.toNat < d.toNat then true
    else if d.toNat < c.toNat then false
    else textBefore s t

theorem textBefore_irrefl (s : List Char) : textBefore s s = false := by
  induction s with
  | nil => rfl
  | cons c s ih => simp [textBefore, ih]

theorem textBefore_trans {s t u : List Char} (h : textBefore s t = true)
    (h' : textBefore t u = true) : textBefore s u = true := by
  induction s generalizing t u with
  | nil =>
    cases u with
    | nil => cases t <;> simp [textBefore] at h'
    | cons => rfl
  | cons c s ih =>
    cases t with
    | nil => simp [textBefore] at h
    | cons d t =>
      cases u with
      | nil => simp [textBefore] at h'
      | cons e u =>
        unfold textBefore at h h' ⊢
        split at h
        · split at h'
          · rw [if_pos (by omega)]
          · split at h'
            · cases h'
            · rw [if_pos (by omega)]
        · split at h
          · cases h
          · split at h'
            · rw [if_pos (by omega)]
            · split at h'
              · cases h'
              · rw [if_neg (by omega), if_neg (by omega)]
                exact ih h h'

theorem textBefore_connected (s t : List Char) :
    textBefore s t = true ∨ s = t ∨ textBefore t s = true := by
  induction s generalizing t with
  | nil => cases t <;> simp [textBefore]
  | cons c s ih =>
    cases t with
    | nil => simp [textBefore]
    | cons d t =>
      unfold textBefore
      by_cases h : c.toNat < d.toNat
      · simp [h]
      · by_cases h' : d.toNat < c.toNat
        · simp [h']
        · have : c = d := Char.toNat_inj.1 (by omega)
          simpa [h, h', this] using ih t

end FirstFollow
