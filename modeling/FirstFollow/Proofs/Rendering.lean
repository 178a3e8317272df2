import Mathlib
import FirstFollow.Store.Printer
import FirstFollow.Proofs.Quoting
import FirstFollow.Proofs.StoreHistory

/-!
# Reading printed stores back

A printed store tells its productions. The first character of a written symbol tells its kind, and
its own text tells where it ends, so the symbols of a production can be told apart although
terminals may hold blanks (`renderProduction_append_inj`). A line tells its nonterminal, its
production and its note (`Store.line_inj`). Terminals are written without line breaks, so the text
splits into its lines (`readLines_intercalate`), and as a nonterminal in a store has productions,
the lines tell the store (`Store.render_unambiguous`).

Names are written as they are, and one with a line break in it can pass for another line.
-/

namespace FirstFollow

/-! ## Numbers -/

theorem eq_minus_or_isDigit_of_mem_toString {id : Int} {c : Char}
    (h : c ∈ (toString id).toList) : c = '-' ∨ c.isDigit := by
  rw [Int.toString_eq_repr, Int.repr_eq_if] at h
  split at h
  · rw [Nat.toList_repr] at h
    exact .inr (Nat.isDigit_of_mem_toDigits (by decide) (by decide) h)
  · rw [String.toList_append, Nat.toList_repr] at h
    rcases List.mem_append.1 h with h | h
    · exact .inl (List.mem_singleton.1 h)
    · exact .inr (Nat.isDigit_of_mem_toDigits (by decide) (by decide) h)

/-- No other characters occur in numbers. -/
theorem not_mem_toString {c : Char} (hminus : c ≠ '-') (hdigit : c.isDigit = false) (id : Int) :
    c ∉ (toString id).toList := by
  intro h
  rcases eq_minus_or_isDigit_of_mem_toString h with h | h
  · exact hminus h
  · rw [hdigit] at h
    cases h

theorem toString_int_inj {i j : Int} (h : (toString i).toList = (toString j).toList) : i = j :=
  Int.repr_injective (String.toList_inj.1 h)

/-! ## Symbols -/

namespace Symbol

/-- A symbol, and not a text in its place. -/
def IsGenuine : Symbol → Prop
  | .alien _ => False
  | _ => True

instance (a : Symbol) : Decidable a.IsGenuine :=
  match a with
  | .alien _ => isFalse id
  | .empty | .endOfInput | .wildcard | .terminal _ | .nonterminal _ => isTrue trivial

/-- The rank of the symbols whose written form starts with a character. -/
def rankOf : Char → Nat
  | 'ε' => 0
  | '$' => 1
  | '*' => 2
  | '<' => 4
  | _ => 3

variable {a b : Symbol}

theorem exists_render (h : a.IsGenuine) :
    ∃ c rest, a.render.toList = c :: rest ∧ rankOf c = a.rank ∧ c ≠ ' ' := by
  cases a with
  | empty => exact ⟨'ε', [], rfl, rfl, by decide⟩
  | endOfInput => exact ⟨'$', [], rfl, rfl, by decide⟩
  | wildcard => exact ⟨'*', [], rfl, rfl, by decide⟩
  | terminal text =>
    refine ⟨quoteMark text.toList, _, toList_quote text, ?_⟩
    rcases isMark_quoteMark text.toList with hmark | hmark
    · rw [hmark]
      exact ⟨rfl, by decide⟩
    · rw [hmark]
      exact ⟨rfl, by decide⟩
  | nonterminal id =>
    refine ⟨'<', (toString id).toList ++ ['>'], ?_, rfl, by decide⟩
    simp [render]
  | alien text => exact h.elim

/-- A written symbol can be read back, whatever follows. -/
theorem selfDelimiting_render : SelfDelimiting IsGenuine fun a => a.render.toList := by
  intro a b ha hb s t heq
  have hrank : a.rank = b.rank := by
    obtain ⟨c, u, hc, hac, -⟩ := exists_render ha
    obtain ⟨d, v, hd, hbd, -⟩ := exists_render hb
    simp only [hc, hd] at heq
    rw [← hac, ← hbd, (List.cons.inj heq).1]
  cases a with
  | empty | endOfInput | wildcard =>
    cases b with
    | empty | endOfInput | wildcard =>
      cases hrank <;> exact ⟨rfl, (List.cons.inj heq).2⟩
    | _ => cases hrank
  | terminal text =>
    cases b with
    | terminal other =>
      simp only [render, toList_quote] at heq
      obtain ⟨htexts, hst⟩ := selfDelimiting_encode _ _ trivial trivial s t heq
      exact ⟨congrArg terminal (String.toList_inj.1 htexts), hst⟩
    | _ => cases hrank
  | nonterminal i =>
    cases b with
    | nonterminal j =>
      have hclose := not_mem_toString (c := '>') (by decide) rfl
      simp only [render, String.toList_append, List.append_assoc] at heq
      obtain ⟨hids, hst⟩ :=
        append_cons_inj_of_not_mem (hclose i) (hclose j) (List.cons.inj heq).2
      exact ⟨congrArg nonterminal (toString_int_inj hids), hst⟩
    | _ => cases hrank
  | alien text => exact ha.elim

/-- A symbol with the blank that sets it off. -/
def spaced (a : Symbol) : List Char := ' ' :: a.render.toList

theorem selfDelimiting_spaced : SelfDelimiting IsGenuine spaced := by
  intro a b ha hb s t heq
  exact selfDelimiting_render a b ha hb s t (List.cons.inj heq).2

theorem stops_nil : Stops IsGenuine spaced [] := by
  intro a _ rest heq
  cases heq

theorem stops_blank : Stops IsGenuine spaced [' '] := by
  intro a ha rest heq
  obtain ⟨c, u, hc, -, -⟩ := exists_render ha
  rw [spaced, hc] at heq
  cases heq

theorem stops_blanks (s : List Char) : Stops IsGenuine spaced (' ' :: ' ' :: s) := by
  intro a ha rest heq
  obtain ⟨c, u, hc, -, hblank⟩ := exists_render ha
  rw [spaced, hc] at heq
  cases heq
  exact hblank rfl

end Symbol

/-! ## Productions -/

/-- What may follow a production on its line: nothing, or something set off by two blanks. -/
def EndsLine (s : List Char) : Prop := s = [] ∨ ∃ rest, s = ' ' :: ' ' :: rest

section

variable {p q : Production} {s t : List Char}

theorem toList_renderProduction_cons (a : Symbol) (rest : Production) :
    (renderProduction (a :: rest)).toList = a.render.toList ++ rest.flatMap Symbol.spaced := by
  induction rest generalizing a with
  | nil => simp [renderProduction]
  | cons b rest ih =>
    have hrest := ih b
    simp only [renderProduction, List.map_cons, String.toList_intercalate] at hrest ⊢
    rw [List.intercalate_cons_cons, hrest]
    simp [Symbol.spaced]

/-- With a blank ahead of it, a production is its symbols, each set off by a blank. Without any
    symbols the blank is left. -/
theorem blank_renderProduction (p : Production) (s : List Char) :
    ' ' :: ((renderProduction p).toList ++ s) =
      p.flatMap Symbol.spaced ++ if p = [] then ' ' :: s else s := by
  cases p with
  | nil => rfl
  | cons a rest => simp [toList_renderProduction_cons, Symbol.spaced]

/-- The end of a line cannot be taken for another symbol, also with the blank that is left. -/
theorem EndsLine.stops (h : EndsLine s) (p : Production) :
    Stops Symbol.IsGenuine Symbol.spaced (if p = [] then ' ' :: s else s) := by
  split
  · rcases h with rfl | ⟨rest, rfl⟩
    · exact Symbol.stops_blank
    · exact Symbol.stops_blanks (' ' :: rest)
  · rcases h with rfl | ⟨rest, rfl⟩
    · exact Symbol.stops_nil
    · exact Symbol.stops_blanks rest

/-- A written production can be read back, also when a note follows. -/
theorem renderProduction_append_inj (hp : ∀ a ∈ p, a.IsGenuine) (hq : ∀ a ∈ q, a.IsGenuine)
    (hs : EndsLine s) (ht : EndsLine t)
    (heq : (renderProduction p).toList ++ s = (renderProduction q).toList ++ t) :
    p = q ∧ s = t := by
  have hblank := congrArg (List.cons ' ') heq
  rw [blank_renderProduction, blank_renderProduction] at hblank
  obtain ⟨rfl, hrest⟩ := Symbol.selfDelimiting_spaced.flatMap_inj hp hq (hs.stops p) (ht.stops q)
    hblank
  refine ⟨rfl, ?_⟩
  split at hrest
  · exact (List.cons.inj hrest).2
  · exact hrest

theorem newline_not_mem_render {a : Symbol} (h : a.IsGenuine) : '\n' ∉ a.render.toList := by
  cases a with
  | empty | endOfInput | wildcard => decide
  | terminal text =>
    rw [Symbol.render, toList_quote]
    exact newline_not_mem_encode _
  | nonterminal id =>
    have hdigits := not_mem_toString (c := '\n') (by decide) rfl id
    simpa [Symbol.render] using hdigits
  | alien text => exact h.elim

theorem newline_not_mem_renderProduction (hp : ∀ a ∈ p, a.IsGenuine) :
    '\n' ∉ (renderProduction p).toList := by
  cases p with
  | nil => decide
  | cons a rest =>
    obtain ⟨ha, hrest⟩ := List.forall_mem_cons.1 hp
    rw [toList_renderProduction_cons, List.mem_append, List.mem_flatMap]
    rintro (hmem | ⟨b, hb, hmem⟩)
    · exact newline_not_mem_render ha hmem
    · rcases List.mem_cons.1 hmem with hblank | hmem
      · exact absurd hblank (by decide)
      · exact newline_not_mem_render (hrest b hb) hmem

end

/-! ## Texts of lines -/

/-- The lines of a text. The empty text has none. -/
def readLines (text : String) : List (List Char) :=
  if text = "" then [] else text.toList.splitOn '\n'

theorem intercalate_ne_empty {first : String} (h : first ≠ "") (rest : List String) :
    "\n".intercalate (first :: rest) ≠ "" := by
  cases rest with
  | nil => simpa using h
  | cons second rest =>
    rw [String.intercalate_cons_cons, String.append_assoc]
    exact fun hempty => h (String.append_eq_empty_iff.1 hempty).1

/-- Lines can be read back when none is empty and none holds a line break. -/
theorem readLines_intercalate {lines : List String} (hempty : ∀ line ∈ lines, line ≠ "")
    (hnewline : ∀ line ∈ lines, '\n' ∉ line.toList) :
    readLines ("\n".intercalate lines) = lines.map String.toList := by
  cases lines with
  | nil => rfl
  | cons first rest =>
    have hne := intercalate_ne_empty (hempty first List.mem_cons_self) rest
    rw [readLines, if_neg hne, String.toList_intercalate]
    refine List.splitOn_intercalate '\n' ?_ (by simp)
    simpa using hnewline

namespace Store

/-! ## Lines -/

/-- The line of a production. -/
def line (id : NonterminalId) (production : Production) (note : Option String) : String :=
  toString id ++ " = " ++ renderProduction production ++ trailer note

variable {i j : NonterminalId} {p q : Production} {m n : Option String}

theorem endsLine_trailer (note : Option String) : EndsLine (trailer note).toList := by
  cases note with
  | none => exact .inl rfl
  | some name => exact .inr ⟨'#' :: ' ' :: name.toList, by simp [trailer]⟩

theorem trailer_inj (h : (trailer m).toList = (trailer n).toList) : m = n := by
  cases m with
  | none =>
    cases n with
    | none => rfl
    | some name => simp [trailer] at h
  | some name =>
    cases n with
    | none => simp [trailer] at h
    | some other =>
      have htexts : name.toList = other.toList := by simpa [trailer] using h
      rw [String.toList_inj.1 htexts]

theorem toList_line (id : NonterminalId) (production : Production) (note : Option String) :
    (line id production note).toList = (toString id).toList ++
      ' ' :: '=' :: ' ' :: ((renderProduction production).toList ++ (trailer note).toList) := by
  simp [line]

/-- A line tells its nonterminal, its production and its note. -/
theorem line_inj (hp : ∀ a ∈ p, a.IsGenuine) (hq : ∀ a ∈ q, a.IsGenuine)
    (h : line i p m = line j q n) : i = j ∧ p = q ∧ m = n := by
  have hblank := not_mem_toString (c := ' ') (by decide) rfl
  have hlists := congrArg String.toList h
  rw [toList_line, toList_line] at hlists
  obtain ⟨hids, hrest⟩ := append_cons_inj_of_not_mem (hblank i) (hblank j) hlists
  obtain ⟨hpq, hmn⟩ := renderProduction_append_inj hp hq (endsLine_trailer m)
    (endsLine_trailer n) (List.cons.inj (List.cons.inj hrest).2).2
  exact ⟨toString_int_inj hids, hpq, trailer_inj hmn⟩

theorem newline_not_mem_line (hp : ∀ a ∈ p, a.IsGenuine)
    (hnote : ∀ name, m = some name → '\n' ∉ name.toList) : '\n' ∉ (line i p m).toList := by
  have hid := not_mem_toString (c := '\n') (by decide) rfl i
  have hproduction := newline_not_mem_renderProduction hp
  have htrailer : '\n' ∉ (trailer m).toList := by
    cases m with
    | none => exact List.not_mem_nil
    | some name => simpa [trailer] using hnote name rfl
  rw [toList_line]
  simp only [List.mem_append, List.mem_cons, not_or]
  exact ⟨hid, by decide, by decide, by decide, hproduction, htrailer⟩

theorem line_ne_empty (id : NonterminalId) (production : Production) (note : Option String) :
    line id production note ≠ "" := by
  intro h
  have hlist := congrArg String.toList h
  rw [toList_line] at hlist
  simp at hlist

/-- Lines tell what they were made of, one by one. -/
theorem eq_of_map_line {rules others : List (NonterminalId × Production)}
    {notes notes' : NonterminalId → Option String}
    (hrules : ∀ rule ∈ rules, ∀ a ∈ rule.2, a.IsGenuine)
    (hothers : ∀ rule ∈ others, ∀ a ∈ rule.2, a.IsGenuine)
    (h : rules.map (fun rule => line rule.1 rule.2 (notes rule.1)) =
      others.map fun rule => line rule.1 rule.2 (notes' rule.1)) :
    rules = others ∧ ∀ rule ∈ rules, notes rule.1 = notes' rule.1 := by
  induction rules generalizing others with
  | nil => exact ⟨(List.map_eq_nil_iff.1 h.symm).symm, nofun⟩
  | cons rule rules ih =>
    cases others with
    | nil => cases h
    | cons other others =>
      obtain ⟨hrule, hrest⟩ := List.forall_mem_cons.1 hrules
      obtain ⟨hother, hrest'⟩ := List.forall_mem_cons.1 hothers
      obtain ⟨hline, hlines⟩ := List.cons.inj h
      obtain ⟨hid, hproduction, hnote⟩ := line_inj hrule hother hline
      obtain ⟨rfl, hnotes⟩ := ih hrest hrest' hlines
      cases Prod.ext hid hproduction
      exact ⟨rfl, List.forall_mem_cons.2 ⟨hnote, hnotes⟩⟩

/-! ## Productions in order -/

variable {α : Type} {xs ys : List (NonterminalId × List α)} {s t : Store}

/-- Every value beside its key. -/
def flatten (entries : List (NonterminalId × List α)) : List (NonterminalId × α) :=
  entries.flatMap fun entry => entry.2.map fun a => (entry.1, a)

theorem flatten_cons (key : NonterminalId) (values : List α) :
    flatten ((key, values) :: xs) = values.flatMap (fun a => [(key, a)]) ++ flatten xs := by
  rw [flatten, List.flatMap_cons, List.map_eq_flatMap]
  rfl

theorem fst_mem_of_mem_flatten {entry : NonterminalId × α} (h : entry ∈ flatten xs) :
    entry.1 ∈ xs.map Prod.fst := by
  obtain ⟨found, hfound, hentry⟩ := List.mem_flatMap.1 h
  obtain ⟨a, -, rfl⟩ := List.mem_map.1 hentry
  exact List.mem_map_of_mem hfound

/-- Values can be read back up to the next key. -/
theorem selfDelimiting_key (key : NonterminalId) :
    SelfDelimiting (fun _ => True) fun a : α => [(key, a)] := by
  intro a b _ _ s t heq
  cases heq
  exact ⟨rfl, rfl⟩

theorem stops_flatten {key : NonterminalId} (h : key ∉ xs.map Prod.fst) :
    Stops (fun _ => True) (fun a : α => [(key, a)]) (flatten xs) := by
  intro a _ rest heq
  have hmem : (key, a) ∈ flatten xs := heq ▸ List.mem_cons_self
  exact h (fst_mem_of_mem_flatten hmem)

theorem flatten_ne_nil {key : NonterminalId} {values : List α} (h : values ≠ []) :
    flatten ((key, values) :: xs) ≠ [] := by
  rw [flatten_cons, ← List.map_eq_flatMap]
  exact List.append_ne_nil_of_left_ne_nil (fun hmap => h (List.map_eq_nil_iff.1 hmap)) _

/-- Keys that differ and that all have values show with their values when each value is listed
    beside its key. -/
theorem flatten_inj (hxs : (xs.map Prod.fst).Nodup) (hys : (ys.map Prod.fst).Nodup)
    (hxs' : ∀ entry ∈ xs, entry.2 ≠ []) (hys' : ∀ entry ∈ ys, entry.2 ≠ [])
    (h : flatten xs = flatten ys) : xs = ys := by
  induction xs generalizing ys with
  | nil =>
    cases ys with
    | nil => rfl
    | cons y ys => exact absurd h.symm (flatten_ne_nil (hys' y List.mem_cons_self))
  | cons x xs ih =>
    cases ys with
    | nil => exact absurd h (flatten_ne_nil (hxs' x List.mem_cons_self))
    | cons y ys =>
      obtain ⟨key, values⟩ := x
      obtain ⟨key', values'⟩ := y
      obtain ⟨hkey, hrest⟩ := List.nodup_cons.1 hxs
      obtain ⟨hkey', hrest'⟩ := List.nodup_cons.1 hys
      obtain ⟨hvalues, hothers⟩ := List.forall_mem_cons.1 hxs'
      obtain ⟨hvalues', hothers'⟩ := List.forall_mem_cons.1 hys'
      have hkeys : key = key' := by
        obtain ⟨a, as, hvalues⟩ := List.exists_cons_of_ne_nil hvalues
        obtain ⟨b, bs, hvalues'⟩ := List.exists_cons_of_ne_nil hvalues'
        cases hvalues
        cases hvalues'
        exact congrArg Prod.fst (List.cons.inj h).1
      cases hkeys
      rw [flatten_cons, flatten_cons] at h
      obtain ⟨rfl, htail⟩ := (selfDelimiting_key key).flatMap_inj (fun _ _ => trivial)
        (fun _ _ => trivial) (stops_flatten hkey) (stops_flatten hkey') h
      rw [ih hrest hrest' hothers hothers' htail]

theorem Consistent.productions_ne_nil (h : s.Consistent) :
    ∀ entry ∈ s.rules.entries, entry.2 ≠ [] := by
  intro entry hentry hnil
  obtain ⟨production, hmem⟩ := h.productions entry.1 (List.mem_map_of_mem hentry)
  obtain ⟨productions, hget, hproduction⟩ := mem_alternatives.1 hmem
  have hfound : s.rules.get? entry.1 = some entry.2 := Table.get?_eq_some_iff.2 hentry
  rw [hfound] at hget
  cases hget
  rw [hnil] at hproduction
  cases hproduction

/-- A store is told by its productions in order. -/
theorem entries_eq_of_alternatives_eq (hs : s.Consistent) (ht : t.Consistent)
    (h : s.alternatives = t.alternatives) : s.rules.entries = t.rules.entries :=
  flatten_inj s.rules.nodup_keys t.rules.nodup_keys hs.productions_ne_nil ht.productions_ne_nil h

/-! ## Printed stores -/

/-- All symbols of the productions are genuine. -/
def IsGenuine (store : Store) : Prop := ∀ rule ∈ store.alternatives, ∀ a ∈ rule.2, a.IsGenuine

/-- No name of a nonterminal holds a line break. -/
def NamesStayOnLines (store : Store) : Prop := ∀ name ∈ store.names.keys, '\n' ∉ name.toList

instance (store : Store) : Decidable store.IsGenuine :=
  inferInstanceAs (Decidable (∀ rule ∈ store.alternatives, ∀ a ∈ rule.2, a.IsGenuine))

instance (store : Store) : Decidable store.NamesStayOnLines :=
  inferInstanceAs (Decidable (∀ name ∈ store.names.keys, '\n' ∉ name.toList))

/-- The name that a printed store notes beside a nonterminal. -/
def note? (store : Store) (names : Bool) (id : NonterminalId) : Option String :=
  if names then store.nameOf? id else none

theorem lines_eq (store : Store) (names : Bool) :
    store.lines names =
      store.alternatives.map fun rule => line rule.1 rule.2 (store.note? names rule.1) :=
  rfl

theorem mem_names_of_nameOf? {id : NonterminalId} {name : String} (h : s.nameOf? id = some name) :
    name ∈ s.names.keys := by
  obtain ⟨entry, hfound, rfl⟩ := Option.map_eq_some_iff.1 h
  exact List.mem_map_of_mem (List.mem_reverse.1 (List.mem_of_find?_eq_some hfound))

theorem newline_not_mem_note {names : Bool} (h : names = true → s.NamesStayOnLines)
    (id : NonterminalId) : ∀ name, s.note? names id = some name → '\n' ∉ name.toList := by
  intro name hname
  cases names with
  | true => exact h rfl name (mem_names_of_nameOf? hname)
  | false => cases hname

theorem readLines_render (hs : s.IsGenuine) {names : Bool}
    (hnames : names = true → s.NamesStayOnLines) :
    readLines (s.render names) = (s.lines names).map String.toList := by
  refine readLines_intercalate ?_ ?_
  · rw [lines_eq, List.forall_mem_map]
    exact fun rule _ => line_ne_empty _ _ _
  · rw [lines_eq, List.forall_mem_map]
    exact fun rule hrule => newline_not_mem_line (hs rule hrule) (newline_not_mem_note hnames _)

theorem render_eq_iff (names : Bool) (hs : s.Consistent) (ht : t.Consistent)
    (hs' : s.IsGenuine) (ht' : t.IsGenuine) (hnames : names = true → s.NamesStayOnLines)
    (hnames' : names = true → t.NamesStayOnLines) :
    s.render names = t.render names ↔
      s.rules.entries = t.rules.entries ∧ ∀ id ∈ s.keys, s.note? names id = t.note? names id := by
  constructor
  · intro h
    have hread := congrArg readLines h
    rw [readLines_render hs' hnames, readLines_render ht' hnames'] at hread
    have hlines : s.lines names = t.lines names :=
      List.map_injective_iff.2 (fun _ _ => String.toList_inj.1) hread
    rw [lines_eq, lines_eq] at hlines
    obtain ⟨hrules, hnotes⟩ := eq_of_map_line hs' ht' hlines
    refine ⟨entries_eq_of_alternatives_eq hs ht hrules, fun id hid => ?_⟩
    obtain ⟨production, hmem⟩ := hs.productions id hid
    exact hnotes _ hmem
  · intro ⟨hentries, hnotes⟩
    have hrules : s.alternatives = t.alternatives := congrArg flatten hentries
    have hlines : s.lines names = t.lines names := by
      rw [lines_eq, lines_eq, ← hrules]
      refine List.map_congr_left fun rule hrule => ?_
      rw [hnotes rule.1 (mem_keys_of_mem_alternatives hrule)]
    rw [render, render, hlines]

/-- Stores whose productions hold genuine symbols print alike exactly when they have the same keys
    in the same order with the same productions in the same order and, with names, the same name
    for each key. Productions are written alike only when they are the same. -/
theorem render_unambiguous (hs : s.Reached) (ht : t.Reached) (hs' : s.IsGenuine)
    (ht' : t.IsGenuine) :
    (s.render false = t.render false ↔ s.rules.entries = t.rules.entries) ∧
    (s.NamesStayOnLines → t.NamesStayOnLines →
      (s.render true = t.render true ↔
        s.rules.entries = t.rules.entries ∧ ∀ id ∈ s.keys, s.nameOf? id = t.nameOf? id)) ∧
    ∀ p q : Production, (∀ a ∈ p, a.IsGenuine) → (∀ a ∈ q, a.IsGenuine) →
      (renderProduction p = renderProduction q ↔ p = q) := by
  refine ⟨?_, fun hnames hnames' => ?_, fun p q hp hq => ⟨fun h => ?_, congrArg renderProduction⟩⟩
  · have h := render_eq_iff false hs.consistent ht.consistent hs' ht' nofun nofun
    simpa [note?] using h
  · exact render_eq_iff true hs.consistent ht.consistent hs' ht' (fun _ => hnames)
      fun _ => hnames'
  · have hlists := congrArg (fun text => text.toList ++ []) h
    exact (renderProduction_append_inj hp hq (.inl rfl) (.inl rfl) hlists).1

/-- A name with a line break in it passes for another line. -/
example :
    (ofEdits (.ofList [("s\n1 = 'b'", 0)]) [.add 0 [.empty]]).render true =
      (ofEdits (.ofList [("s", 0)]) [.add 0 [.empty], .add 1 [.terminal "b"]]).render true := by
  decide +kernel

/-- A frozen store with texts that hold blanks, both quote marks, a backslash, a line break and
    characters that are not printable. -/
def awkwardStore : Store :=
  ofEdits (.ofList [("s", -1), ("t  # u", -1)])
    [.add (-1) [.terminal "a' 'b", .terminal ""],
      .add (-1) [.terminal "\\'\" # =\n0 = ", .nonterminal 20],
      .add 20 [.empty], .add 20 [.terminal "\x7f\u00ad<20>"], .freeze]

/-- An open store with the same texts, of which one is split at the blank, and another name. -/
def lookalikeStore : Store :=
  ofEdits (.ofList [("t", -1)])
    [.add (-1) [.terminal "a", .terminal "b", .terminal ""],
      .add (-1) [.terminal "\\'\" # =\n0 = ", .nonterminal 20],
      .add 20 [.empty], .add 20 [.terminal "\x7f\u00ad<20>"]]

theorem render_unambiguous_awkwardStore :
    (awkwardStore.Reached ∧ awkwardStore.IsGenuine ∧ awkwardStore.NamesStayOnLines ∧
      awkwardStore.frozen = true ∧ awkwardStore.alternatives.length = 4) ∧
    (lookalikeStore.Reached ∧ lookalikeStore.IsGenuine ∧ lookalikeStore.NamesStayOnLines) ∧
    awkwardStore.render false ≠ lookalikeStore.render false ∧
    awkwardStore.render true ≠ lookalikeStore.render true := by
  have hreached : awkwardStore.Reached := reached_ofEdits _ _
  have hreached' : lookalikeStore.Reached := reached_ofEdits _ _
  have hgenuine : awkwardStore.IsGenuine := by decide +kernel
  have hgenuine' : lookalikeStore.IsGenuine := by decide +kernel
  have hnames : awkwardStore.NamesStayOnLines := by decide +kernel
  have hnames' : lookalikeStore.NamesStayOnLines := by decide +kernel
  have hfrozen : awkwardStore.frozen = true ∧ awkwardStore.alternatives.length = 4 := by
    decide +kernel
  have hentries : awkwardStore.rules.entries ≠ lookalikeStore.rules.entries := by decide +kernel
  obtain ⟨hplain, hnoted, -⟩ := render_unambiguous hreached hreached' hgenuine hgenuine'
  exact ⟨⟨hreached, hgenuine, hnames, hfrozen⟩, ⟨hreached', hgenuine', hnames'⟩,
    fun h => hentries (hplain.1 h), fun h => hentries ((hnoted hnames hnames').1 h).1⟩

end Store

end FirstFollow
