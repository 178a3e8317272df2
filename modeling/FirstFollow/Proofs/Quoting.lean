import Mathlib.Algebra.Group.Nat.Defs
import Mathlib.Data.List.Chain
import FirstFollow.Text.Quoted

/-!
# Reading quoted text back

A written form is self-delimiting when it can be read off the front of any text that starts with
it (`SelfDelimiting`). Items whose forms are self-delimiting can be written one after another, as
long as what follows the last one cannot be taken for an item (`SelfDelimiting.flatMap_inj`).

The escape of a character is such a form (`unescape_escape`), and it never starts with the mark
that ends the text. So quoted text is self-delimiting too, whatever it holds
(`selfDelimiting_encode`).

A character is printable when no range of the table holds it (`isPrintable_iff`): as the ranges
ascend, the search does not end too early. Written forms hold printable characters alone
(`isPrintable_encode`), so a quoted text never spreads over lines.
-/

namespace FirstFollow

/-! ## Self-delimiting forms -/

section

variable {α β : Type} {genuine : α → Prop} {write : α → List β} {xs ys : List α} {s t : List β}

/-- The form of a genuine item can be read off the front of any text that starts with it. -/
def SelfDelimiting (genuine : α → Prop) (write : α → List β) : Prop :=
  ∀ a b, genuine a → genuine b → ∀ s t, write a ++ s = write b ++ t → a = b ∧ s = t

/-- A text that does not start with the form of a genuine item. -/
def Stops (genuine : α → Prop) (write : α → List β) (s : List β) : Prop :=
  ∀ a, genuine a → ∀ rest, s ≠ write a ++ rest

theorem SelfDelimiting.of_read {read : List β → Option (α × List β)}
    (h : ∀ a s, genuine a → read (write a ++ s) = some (a, s)) :
    SelfDelimiting genuine write := by
  intro a b ha hb s t hst
  have hread := h a s ha
  rw [hst, h b t hb] at hread
  cases hread
  exact ⟨rfl, rfl⟩

/-- Items written one after another can be read back up to a text that stops them. -/
theorem SelfDelimiting.flatMap_inj (h : SelfDelimiting genuine write)
    (hxs : ∀ a ∈ xs, genuine a) (hys : ∀ a ∈ ys, genuine a)
    (hs : Stops genuine write s) (ht : Stops genuine write t)
    (heq : xs.flatMap write ++ s = ys.flatMap write ++ t) : xs = ys ∧ s = t := by
  induction xs generalizing ys with
  | nil =>
    cases ys with
    | nil => exact ⟨rfl, heq⟩
    | cons b ys =>
      rw [List.flatMap_cons, List.append_assoc] at heq
      exact absurd heq (hs b (hys b List.mem_cons_self) _)
  | cons a xs ih =>
    obtain ⟨ha, hrest⟩ := List.forall_mem_cons.1 hxs
    cases ys with
    | nil =>
      rw [List.flatMap_cons, List.append_assoc] at heq
      exact absurd heq.symm (ht a ha _)
    | cons b ys =>
      obtain ⟨hb, hrest'⟩ := List.forall_mem_cons.1 hys
      rw [List.flatMap_cons, List.flatMap_cons, List.append_assoc, List.append_assoc] at heq
      obtain ⟨hab, htail⟩ := h a b ha hb _ _ heq
      obtain ⟨hxy, hst⟩ := ih hrest hrest' htail
      exact ⟨congrArg₂ List.cons hab hxy, hst⟩

/-- A text ends at the first character that it does not hold. -/
theorem append_cons_inj_of_not_mem {mark : β} {u v : List β} (hu : mark ∉ u) (hv : mark ∉ v)
    (heq : u ++ mark :: s = v ++ mark :: t) : u = v ∧ s = t := by
  induction u generalizing v with
  | nil =>
    cases v with
    | nil =>
      cases heq
      exact ⟨rfl, rfl⟩
    | cons c v =>
      cases heq
      exact absurd List.mem_cons_self hv
  | cons c u ih =>
    cases v with
    | nil =>
      cases heq
      exact absurd List.mem_cons_self hu
    | cons d v =>
      obtain ⟨hcd, htail⟩ := List.cons.inj heq
      obtain ⟨huv, hst⟩ := ih (List.not_mem_of_not_mem_cons hu) (List.not_mem_of_not_mem_cons hv)
        htail
      exact ⟨congrArg₂ List.cons hcd huv, hst⟩

end

/-! ## Hexadecimal digits -/

/-- The number that a hexadecimal digit stands for. -/
def digitValue (digit : Char) : Nat :=
  if digit.isDigit then digit.toNat - '0'.toNat else digit.toNat - 'a'.toNat + 10

/-- The number that hexadecimal digits stand for. -/
def hexValue (digits : List Char) : Nat :=
  digits.foldl (fun n digit => 16 * n + digitValue digit) 0

theorem digitValue_digitChar : ∀ n < 16, digitValue (Nat.digitChar n) = n := by decide

theorem hexValue_hexDigits {width n : Nat} (h : n < 16 ^ width) :
    hexValue (hexDigits width n) = n := by
  induction width generalizing n with
  | zero =>
    have hzero : n = 0 := by simpa using h
    rw [hzero]
    rfl
  | succ width ih =>
    have hhigh : n / 16 < 16 ^ width := Nat.div_lt_of_lt_mul (by rwa [Nat.pow_succ'] at h)
    have hlow : digitValue (Nat.digitChar (n % 16)) = n % 16 :=
      digitValue_digitChar _ (Nat.mod_lt _ (by decide))
    have hvalue : hexValue (hexDigits width (n / 16) ++ [Nat.digitChar (n % 16)]) =
        16 * hexValue (hexDigits width (n / 16)) + digitValue (Nat.digitChar (n % 16)) := by
      simp [hexValue]
    rw [hexDigits, hvalue, ih hhigh, hlow]
    exact Nat.div_add_mod n 16

/-! ## Escapes -/

/-- Reads a character off its hexadecimal digits. -/
def readHex (width : Nat) (s : List Char) : Char × List Char :=
  (.ofNat (hexValue (s.take width)), s.drop width)

/-- Reads what follows a backslash: a letter for a character or for the width of its digits, or
    the character itself. -/
def readEscape : List Char → Option (Char × List Char)
  | [] => none
  | letter :: s =>
    if letter = 't' then some ('\t', s)
    else if letter = 'n' then some ('\n', s)
    else if letter = 'r' then some ('\r', s)
    else if letter = 'x' then some (readHex 2 s)
    else if letter = 'u' then some (readHex 4 s)
    else if letter = 'U' then some (readHex 8 s)
    else some (letter, s)

/-- Reads one character of a quoted text. -/
def unescape : List Char → Option (Char × List Char)
  | [] => none
  | c :: s => if c = '\\' then readEscape s else some (c, s)

/-- The two quote marks. -/
def IsMark (mark : Char) : Prop := mark = '\x27' ∨ mark = '\x22'

theorem isMark_quoteMark (text : List Char) : IsMark (quoteMark text) := by
  unfold quoteMark
  split
  · exact .inr rfl
  · exact .inl rfl

variable {mark c : Char}

theorem readHex_hexDigits {width : Nat} (h : c.toNat < 16 ^ width) (s : List Char) :
    readHex width (hexDigits width c.toNat ++ s) = (c, s) := by
  have hwidth := length_hexDigits width c.toNat
  simp [readHex, List.take_left' hwidth, List.drop_left' hwidth, hexValue_hexDigits h]

theorem readEscape_self (hmark : IsMark mark) (h : c = mark ∨ c = '\\') (s : List Char) :
    readEscape (c :: s) = some (c, s) := by
  rcases h with rfl | rfl
  · rcases hmark with rfl | rfl <;> rfl
  · rfl

theorem toNat_lt_pow_eight (c : Char) : c.toNat < 16 ^ 8 := by
  have hlt : c.toNat < 2 ^ 32 := c.val.toNat_lt
  exact hlt

theorem unescape_escape (hmark : IsMark mark) (c : Char) (s : List Char) :
    unescape (escape mark c ++ s) = some (c, s) := by
  unfold escape
  split_ifs with hself htab hnewline hreturn hprintable hbyte hshort
  · exact readEscape_self hmark hself s
  · subst htab
    rfl
  · subst hnewline
    rfl
  · subst hreturn
    rfl
  · have hbackslash : c ≠ '\\' := fun h => hself (.inr h)
    simp [unescape, hbackslash]
  · exact congrArg some (readHex_hexDigits hbyte s)
  · exact congrArg some (readHex_hexDigits hshort s)
  · exact congrArg some (readHex_hexDigits (toNat_lt_pow_eight c) s)

theorem selfDelimiting_escape (hmark : IsMark mark) :
    SelfDelimiting (fun _ => True) (escape mark) :=
  .of_read fun c s _ => unescape_escape hmark c s

/-- No escape starts with the mark, so the mark ends a text. -/
theorem stops_mark (hmark : IsMark mark) (s : List Char) :
    Stops (fun _ => True) (escape mark) (mark :: s) := by
  intro c _ rest heq
  have hread := unescape_escape hmark c rest
  rw [← heq] at hread
  have hbackslash : mark ≠ '\\' := by
    rcases hmark with rfl | rfl <;> decide
  simp only [unescape, if_neg hbackslash] at hread
  cases hread
  have hescape : escape mark mark = ['\\', mark] := if_pos (.inl rfl)
  rw [hescape] at heq
  exact hbackslash (List.cons.inj heq).1

/-! ## Quoted text -/

/-- Quoted text can be read back, whatever it holds and whatever follows. -/
theorem selfDelimiting_encode : SelfDelimiting (fun _ => True) encode := by
  intro a b _ _ s t heq
  simp only [encode, List.cons_append, List.append_assoc, List.nil_append] at heq
  obtain ⟨hmarks, hrest⟩ := List.cons.inj heq
  rw [← hmarks] at hrest
  have hmark := isMark_quoteMark a
  obtain ⟨hab, hst⟩ := (selfDelimiting_escape hmark).flatMap_inj (fun _ _ => trivial)
    (fun _ _ => trivial) (stops_mark hmark s) (stops_mark hmark t) hrest
  exact ⟨hab, (List.cons.inj hst).2⟩

/-! ## Printable characters -/

/-- A range that holds something, and ends before the next one. -/
def EndsBefore (range next : Nat × Nat) : Prop := range.1 ≤ range.2 ∧ range.2 < next.1

instance : DecidableRel EndsBefore := fun range next =>
  inferInstanceAs (Decidable (range.1 ≤ range.2 ∧ range.2 < next.1))

instance : Trans EndsBefore EndsBefore EndsBefore where
  trans h h' := ⟨h.1, h.2.trans (h'.1.trans_lt h'.2)⟩

/-- The search of ascending ranges finds every number that one of them holds. -/
theorem inRanges_iff {ranges : List (Nat × Nat)} {n : Nat} (h : ranges.Pairwise EndsBefore) :
    inRanges n ranges = true ↔ ∃ range ∈ ranges, range.1 ≤ n ∧ n ≤ range.2 := by
  induction ranges with
  | nil => simp [inRanges]
  | cons range rest ih =>
    obtain ⟨hrange, hrest⟩ := List.pairwise_cons.1 h
    rw [inRanges, List.exists_mem_cons_iff]
    split_ifs with hlow hhigh
    -- the search ends here, and all that are left lie above the number too
    · refine iff_of_false not_false ?_
      rintro (⟨hle, -⟩ | ⟨next, hnext, hle, -⟩)
      · exact absurd hlow (Nat.not_lt.2 hle)
      · obtain ⟨hnonempty, hbefore⟩ := hrange next hnext
        omega
    · exact iff_of_true rfl (.inl ⟨Nat.not_lt.1 hlow, hhigh⟩)
    · rw [ih hrest]
      exact (or_iff_right fun hholds => hhigh hholds.2).symm

theorem unprintableRanges_ascend : unprintableRanges.Pairwise EndsBefore :=
  List.isChain_iff_pairwise.1 (by decide +kernel)

/-- A character is printable when none of the ranges holds it. -/
theorem isPrintable_iff :
    isPrintable c = true ↔ ∀ range ∈ unprintableRanges, c.toNat < range.1 ∨ range.2 < c.toNat := by
  unfold isPrintable
  rw [Bool.not_eq_true', ← Bool.not_eq_true, inRanges_iff unprintableRanges_ascend]
  push Not
  exact forall₂_congr fun range _ => imp_iff_not_or.trans (or_congr_left Nat.not_le)

/-- No control character is printable. -/
theorem not_isPrintable_of_lt (h : c.toNat < 0x20) : ¬ isPrintable c = true := by
  intro hprintable
  have hrange : (0x0000, 0x001F) ∈ unprintableRanges := List.mem_cons_self
  have houtside := isPrintable_iff.1 hprintable _ hrange
  omega

/-! ## Quoted text is printable -/

theorem isPrintable_digitChar : ∀ n < 16, isPrintable (Nat.digitChar n) = true := by decide

theorem isPrintable_hexDigits (width n : Nat) :
    ∀ c ∈ hexDigits width n, isPrintable c = true := by
  induction width generalizing n with
  | zero => exact List.forall_mem_nil _
  | succ width ih =>
    rw [hexDigits, List.forall_mem_append, List.forall_mem_singleton]
    exact ⟨ih (n / 16), isPrintable_digitChar _ (Nat.mod_lt _ (by decide))⟩

/-- Digits of any width, behind a backslash and the letter that tells it. -/
theorem isPrintable_hexEscape {letter : Char} (hletter : isPrintable letter = true)
    (width n : Nat) : ∀ c ∈ '\\' :: letter :: hexDigits width n, isPrintable c = true := by
  rw [List.forall_mem_cons, List.forall_mem_cons]
  exact ⟨rfl, hletter, isPrintable_hexDigits width n⟩

theorem isPrintable_mark (hmark : IsMark mark) : isPrintable mark = true := by
  rcases hmark with rfl | rfl <;> rfl

/-- A backslash, and one character behind it. -/
theorem isPrintable_letterEscape (h : isPrintable c = true) :
    ∀ d ∈ ['\\', c], isPrintable d = true :=
  List.forall_mem_cons.2 ⟨rfl, List.forall_mem_singleton.2 h⟩

theorem isPrintable_escape (hmark : IsMark mark) (c : Char) :
    ∀ d ∈ escape mark c, isPrintable d = true := by
  unfold escape
  split_ifs with hself htab hnewline hreturn hprintable hbyte hshort
  · refine isPrintable_letterEscape ?_
    rcases hself with rfl | rfl
    · exact isPrintable_mark hmark
    · rfl
  · exact isPrintable_letterEscape rfl
  · exact isPrintable_letterEscape rfl
  · exact isPrintable_letterEscape rfl
  · exact List.forall_mem_singleton.2 hprintable
  · exact isPrintable_hexEscape rfl 2 c.toNat
  · exact isPrintable_hexEscape rfl 4 c.toNat
  · exact isPrintable_hexEscape rfl 8 c.toNat

/-- Whatever a text holds, its written form holds printable characters alone. -/
theorem isPrintable_encode (text : List Char) : ∀ c ∈ encode text, isPrintable c = true := by
  have hmark := isMark_quoteMark text
  have hbody : ∀ c ∈ text.flatMap (escape (quoteMark text)), isPrintable c = true := by
    intro c hc
    obtain ⟨origin, -, hc⟩ := List.mem_flatMap.1 hc
    exact isPrintable_escape hmark origin c hc
  rw [encode, List.forall_mem_append, List.forall_mem_cons, List.forall_mem_singleton]
  exact ⟨⟨isPrintable_mark hmark, hbody⟩, isPrintable_mark hmark⟩

theorem newline_not_mem_encode (text : List Char) : '\n' ∉ encode text := fun h =>
  not_isPrintable_of_lt (by decide) (isPrintable_encode text '\n' h)

end FirstFollow
