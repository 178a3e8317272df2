import Mathlib.Data.List.Infix
import FirstFollow.Proofs.Solvability

/-!
# How FOLLOW passes fail

A pass over FOLLOW sets fails at a place that the store and the FIRST sets determine: where the
scan behind some nonterminal of a production gets to a symbol that it cannot deal with. The failure
is that of the first such place, whatever the FOLLOW sets are by then. So passes fail the first time
or never, and what a failing pass leaves is as good as what any other pass leaves
(`Store.followPass_failure`).
-/

namespace FirstFollow

/-! ## First hits in lists -/

theorem findSome?_eq_some_iff_getElem? {α β : Type} {f : α → Option β} {l : List α} {b : β} :
    l.findSome? f = some b ↔ ∃ (k : Nat) (a : α), l[k]? = some a ∧ f a = some b ∧
      ∀ k' < k, ∀ a', l[k']? = some a' → f a' = none := by
  rw [List.findSome?_eq_some_iff]
  constructor
  · rintro ⟨before, a, after, rfl, ha, hbefore⟩
    refine ⟨before.length, a, by simp, ha, fun k' hk' a' ha' => ?_⟩
    rw [List.getElem?_append_left hk'] at ha'
    exact hbefore a' (List.mem_of_getElem? ha')
  · intro ⟨k, a, hk, ha, hbefore⟩
    obtain ⟨hlt, rfl⟩ := List.getElem?_eq_some_iff.1 hk
    refine ⟨l.take k, l[k], l.drop (k + 1), ?_, ha, fun a' ha' => ?_⟩
    · rw [List.getElem_cons_drop, List.take_append_drop]
    · obtain ⟨k', hk'⟩ := List.mem_iff_getElem?.1 ha'
      rw [List.getElem?_take] at hk'
      split at hk'
      · exact hbefore k' ‹_› a' hk'
      · cases hk'

theorem findSome?_flatMap {α β γ : Type} (f : α → List β) (g : β → Option γ) (l : List α) :
    (l.flatMap f).findSome? g = l.findSome? fun a => (f a).findSome? g := by
  induction l with
  | nil => rfl
  | cons a rest ih =>
    rw [List.flatMap_cons, List.findSome?_append, ih, List.findSome?_cons]
    cases (f a).findSome? g <;> rfl

theorem getElem?_tails_eq_some_iff {α : Type} {l t : List α} {i : Nat} :
    l.tails[i]? = some t ↔ ∃ front, l = front ++ t ∧ front.length = i := by
  rw [List.getElem?_eq_some_iff]
  simp only [List.length_tails, List.getElem_tails]
  constructor
  · rintro ⟨hi, rfl⟩
    exact ⟨l.take i, (List.take_append_drop i l).symm, List.length_take_of_le (by omega)⟩
  · rintro ⟨front, rfl, rfl⟩
    exact ⟨by simp only [List.length_append]; omega, List.drop_left⟩

/-! ## The failure of a pass -/

namespace Occurrence

/-- The failure of the scan behind an occurrence, if it fails. -/
def failure? (occurrence : Occurrence) (firsts : SetTable) : Option Error :=
  match (occurrence.scan firsts occurrence.rest).2 with
  | .failed e => some e
  | _ => none

variable {occurrence : Occurrence} {firsts : SetTable} {e : Error}

theorem failure?_eq_some_iff :
    occurrence.failure? firsts = some e ↔
      (occurrence.scan firsts occurrence.rest).2 = .failed e := by
  unfold failure?
  cases (occurrence.scan firsts occurrence.rest).2 <;> simp

/-- A visit fails with the failure of the scan. -/
theorem failure?_eq (occurrence : Occurrence) (firsts follows : SetTable) :
    occurrence.failure? firsts = errorOf? (occurrence.visit firsts follows).2 := by
  ext e
  rw [failure?_eq_some_iff, ← visit_eq_error_iff follows, errorOf?_eq_some_iff]

end Occurrence

/-- A pass fails when some scan does, with the failure of the first that does. -/
theorem visitAll_eq_error_iff {occurrences : List Occurrence} {firsts follows : SetTable}
    {e : Error} :
    (visitAll firsts occurrences follows).2 = .error e ↔
      occurrences.findSome? (Occurrence.failure? · firsts) = some e := by
  induction occurrences generalizing follows with
  | nil => simp [visitAll]
  | cons occurrence rest ih =>
    rw [visitAll, List.findSome?_cons, occurrence.failure?_eq firsts follows]
    rcases occurrence.visit firsts follows with ⟨next, e' | grew⟩
    · simp
    · dsimp only [errorOf?_ok]
      rw [← @ih next]
      rcases visitAll firsts rest next with ⟨last, e' | more⟩ <;> simp

/-! ## Places -/

/-- A place in a store: the number of a production among all, the index of a nonterminal in it, and
    the index of a symbol behind that. -/
structure Place where
  production : Nat
  nonterminal : Nat
  symbol : Nat

/-- Places are ordered by production, then by nonterminal, then by symbol. -/
def Place.Precedes (p q : Place) : Prop :=
  p.production < q.production ∨ p.production = q.production ∧
    (p.nonterminal < q.nonterminal ∨ p.nonterminal = q.nonterminal ∧ p.symbol < q.symbol)

namespace Store

/-- All symbols between the nonterminal and the symbol of the place vanish, and a scan cannot deal
    with the symbol. -/
inductive FailsAt (store : Store) (firsts : SetTable) : Place → Error → Prop where
  | mk {k : Nat} {owner target : NonterminalId} {front between back : List Symbol} {s : Symbol}
      {production : Production} (hk : store.alternatives[k]? = some (owner, production))
      (hproduction : production = front ++ .nonterminal target :: (between ++ s :: back))
      (hbetween : ∀ t ∈ between, Vanishes firsts.rel t) (hs : ¬ Readable firsts s) :
      FailsAt store firsts ⟨k, front.length, front.length + 1 + between.length⟩
        (.defect (Occurrence.complaint ⟨owner, target, between ++ s :: back, production⟩ s))

theorem FailsAt.eq_defect {store : Store} {firsts : SetTable} {place : Place} {e : Error}
    (h : store.FailsAt firsts place e) : ∃ d, e = .defect d := by
  cases h
  exact ⟨_, rfl⟩

/-- A failure at a place, and none at an earlier one. -/
structure FailsFirst (store : Store) (firsts : SetTable) (place : Place) (e : Error) : Prop where
  fails : store.FailsAt firsts place e
  first : ∀ earlier e', earlier.Precedes place → ¬ store.FailsAt firsts earlier e'

end Store

/-- The failure of the scan behind the first symbol of a tail of a production, if that is a
    nonterminal. -/
def tailFailure? (firsts : SetTable) (owner : NonterminalId) (production : Production) :
    List Symbol → Option Error
  | .nonterminal target :: rest => Occurrence.failure? ⟨owner, target, rest, production⟩ firsts
  | _ => none

section

variable {store : Store} {firsts : SetTable} {owner : NonterminalId} {production : Production}
  {symbols : List Symbol} {i j k : Nat} {e : Error}

theorem findSome?_occurrencesIn :
    (occurrencesIn owner production symbols).findSome? (Occurrence.failure? · firsts) =
      symbols.tails.findSome? (tailFailure? firsts owner production) := by
  induction symbols with
  | nil => rfl
  | cons s rest ih =>
    rw [List.tails_cons, List.findSome?_cons, ← ih]
    cases s with
    | nonterminal target => rfl
    | _ => rfl

theorem tailFailure?_eq_some_iff :
    tailFailure? firsts owner production symbols = some e ↔
      ∃ target between s back, symbols = .nonterminal target :: (between ++ s :: back) ∧
        (∀ t ∈ between, Vanishes firsts.rel t) ∧ ¬ Readable firsts s ∧
        e = .defect (Occurrence.complaint ⟨owner, target, between ++ s :: back, production⟩ s) := by
  constructor
  · intro h
    unfold tailFailure? at h
    split at h
    · rename_i target rest
      obtain ⟨s, hs, hreadable, rfl⟩ :=
        Occurrence.scan_eq_failed_iff.1 (Occurrence.failure?_eq_some_iff.1 h)
      obtain ⟨between, back, rfl, hbetween⟩ := scanned_iff.1 hs
      exact ⟨target, between, s, back, rfl, hbetween, hreadable, rfl⟩
    · cases h
  · rintro ⟨target, between, s, back, rfl, hbetween, hs, rfl⟩
    apply Occurrence.failure?_eq_some_iff.2
    apply Occurrence.scan_eq_failed_iff.2
    exact ⟨s, scanned_iff.2 ⟨between, back, rfl, hbetween⟩, hs, rfl⟩

namespace Store

/-- What fails at a place is the scan behind its nonterminal. -/
theorem exists_failsAt_iff :
    (∃ j, store.FailsAt firsts ⟨k, i, j⟩ e) ↔
      ∃ rule symbols, store.alternatives[k]? = some rule ∧ rule.2.tails[i]? = some symbols ∧
        tailFailure? firsts rule.1 rule.2 symbols = some e := by
  constructor
  · rintro ⟨j, ⟨hk, hproduction, hbetween, hs⟩⟩
    refine ⟨_, _, hk, getElem?_tails_eq_some_iff.2 ⟨_, hproduction, rfl⟩, ?_⟩
    exact tailFailure?_eq_some_iff.2 ⟨_, _, _, _, rfl, hbetween, hs, rfl⟩
  · rintro ⟨⟨owner, production⟩, symbols, hk, htails, hfails⟩
    obtain ⟨front, hproduction, rfl⟩ := getElem?_tails_eq_some_iff.1 htails
    obtain ⟨target, between, s, back, rfl, hbetween, hs, rfl⟩ := tailFailure?_eq_some_iff.1 hfails
    exact ⟨_, .mk hk hproduction hbetween hs⟩

/-- A scan does not get past the symbol at which it fails. -/
theorem FailsAt.not_symbol_lt {p q : Place} {e' : Error} (hp : store.FailsAt firsts p e)
    (hq : store.FailsAt firsts q e') (hk : p.production = q.production)
    (hi : p.nonterminal = q.nonterminal) : ¬ q.symbol < p.symbol := by
  obtain ⟨hk₁, rfl, hbetween, -⟩ := hp
  obtain ⟨hk₂, hproduction, -, hs⟩ := hq
  dsimp only at hk hi ⊢
  subst hk
  cases hk₁.symm.trans hk₂
  obtain ⟨-, htail⟩ := List.append_inj hproduction hi
  have hrest := (List.cons.inj htail).2
  intro hlt
  -- The later failure has passed the symbol of the earlier one, which therefore vanishes.
  rcases List.append_eq_append_iff.1 hrest with ⟨more, rfl, hmore⟩ | ⟨more, rfl, hmore⟩
  · rw [List.length_append] at hlt
    omega
  · cases more with
    | nil =>
      rw [List.append_nil] at hlt
      omega
    | cons t more =>
      obtain rfl := (List.cons.inj hmore).1
      exact hs (hbetween _ (by simp)).readable

/-- The first place at which a scan fails belongs to the first occurrence whose scan fails. -/
theorem exists_failsFirst_iff :
    (∃ place, store.FailsFirst firsts place e) ↔
      store.occurrences.findSome? (Occurrence.failure? · firsts) = some e := by
  unfold occurrences
  simp only [findSome?_flatMap, findSome?_occurrencesIn]
  rw [findSome?_eq_some_iff_getElem?]
  constructor
  · intro ⟨⟨k, i, j⟩, hfails, hfirst⟩
    obtain ⟨rule, symbols, hk, hi, htail⟩ := exists_failsAt_iff.1 ⟨j, hfails⟩
    refine ⟨k, rule, hk, ?_, fun k' hk' rule' hrule' => ?_⟩
    · refine findSome?_eq_some_iff_getElem?.2 ⟨i, symbols, hi, htail, fun i' hi' symbols' h' => ?_⟩
      rw [Option.eq_none_iff_forall_ne_some]
      intro e' he'
      obtain ⟨j', hearlier⟩ := exists_failsAt_iff.2 ⟨rule, symbols', hk, h', he'⟩
      exact hfirst ⟨k, i', j'⟩ e' (.inr ⟨rfl, .inl hi'⟩) hearlier
    · rw [Option.eq_none_iff_forall_ne_some]
      intro e' he'
      obtain ⟨i', symbols', h', htail', -⟩ := findSome?_eq_some_iff_getElem?.1 he'
      obtain ⟨j', hearlier⟩ := exists_failsAt_iff.2 ⟨rule', symbols', hrule', h', htail'⟩
      exact hfirst _ e' (.inl hk') hearlier
  · intro ⟨k, rule, hk, hrule, hbefore⟩
    obtain ⟨i, symbols, hi, htail, hleft⟩ := findSome?_eq_some_iff_getElem?.1 hrule
    obtain ⟨j, hfails⟩ := exists_failsAt_iff.2 ⟨rule, symbols, hk, hi, htail⟩
    refine ⟨⟨k, i, j⟩, hfails, fun earlier e' hprecedes hearlier => ?_⟩
    obtain ⟨rule', symbols', hk', hi', htail'⟩ :=
      exists_failsAt_iff.1 ⟨earlier.symbol, hearlier⟩
    rcases hprecedes with hlt | ⟨heq, hlt | ⟨heq', hlt⟩⟩
    · have hnone := List.findSome?_eq_none_iff.1 (hbefore _ hlt _ hk') _ (List.mem_of_getElem? hi')
      rw [hnone] at htail'
      cases htail'
    · dsimp only at heq hlt
      subst heq
      cases hk.symm.trans hk'
      rw [hleft _ hlt _ hi'] at htail'
      cases htail'
    · exact hfails.not_symbol_lt hearlier heq.symm heq'.symm hlt

/-- Where some scan fails, there is a first place. -/
theorem FailsAt.exists_failsFirst {place : Place} (h : store.FailsAt firsts place e) :
    ∃ first e', store.FailsFirst firsts first e' := by
  obtain ⟨rule, symbols, hk, hi, htail⟩ := exists_failsAt_iff.1 ⟨place.symbol, h⟩
  cases hfind : store.occurrences.findSome? (Occurrence.failure? · firsts) with
  | some e' =>
    obtain ⟨first, hfirst⟩ := exists_failsFirst_iff.2 hfind
    exact ⟨first, e', hfirst⟩
  | none =>
    unfold occurrences at hfind
    simp only [findSome?_flatMap, findSome?_occurrencesIn, List.findSome?_eq_none_iff] at hfind
    rw [hfind rule (List.mem_of_getElem? hk) symbols (List.mem_of_getElem? hi)] at htail
    cases htail

end Store

end

/-! ## The failure of a loop -/

namespace Store

variable {store : Store} {firsts follows table begin : SetTable} {start : Option NonterminalId}
  {flags : List Bool} {e : Error}

/-- A pass fails with the failure of the first place. -/
theorem followPass_eq_error_iff (follows : SetTable) :
    (store.followPass firsts follows).2 = .error e ↔
      ∃ place, store.FailsFirst firsts place e :=
  visitAll_eq_error_iff.trans exists_failsFirst_iff.symm

theorem followStep_eq_error :
    store.followStep firsts table = .error e ↔ (store.followPass firsts table).2 = .error e := by
  unfold followStep
  rcases store.followPass firsts table with ⟨next, _ | changed⟩ <;> simp

/-- Passes that fail do so the first time, since a first success is a success for all tables. -/
theorem followPass_of_runs_error
    (run : Runs (store.followStep firsts) table flags (.error e)) :
    flags = [] ∧ (store.followPass firsts table).2 = .error e := by
  cases run with
  | failed h => exact ⟨rfl, followStep_eq_error.1 h⟩
  | @changed _ next flags _ h rest =>
    have hpass := congrArg Prod.snd (followStep_eq_ok.1 h)
    obtain ⟨last, hlast⟩ := rest.exists_ok (fun _ => True) trivial fun table _ =>
      let ⟨next, more, hnext⟩ := exists_followStep hpass table
      ⟨next, more, hnext, trivial⟩
    cases hlast

theorem followRun_eq_error_iff :
    (store.followRun firsts table).result = .error e ↔
      (store.followPass firsts table).2 = .error e := by
  have run := store.runs_followRun firsts table
  constructor
  · intro h
    rw [h] at run
    exact (followPass_of_runs_error run).2
  · intro h
    cases hresult : (store.followRun firsts table).result with
    | ok last =>
      obtain ⟨grew, hpass⟩ := exists_followPass_of_followRun hresult
      rw [h] at hpass
      cases hpass
    | error e' =>
      rw [hresult] at run
      cases (followPass_of_runs_error run).2.symm.trans h
      rfl

/-- With a known start, FOLLOW sets fail with the failure of the first place. -/
theorem follows_eq_error_iff (hbegin : store.followStart start = .ok begin) :
    (store.follows firsts start).result = .error e ↔
      ∃ place, store.FailsFirst firsts place e := by
  rw [← followPass_eq_error_iff begin, ← followRun_eq_error_iff,
    follows_of_start hbegin]
  cases (store.followRun firsts begin).result <;> simp

/-- A failure comes before any report. -/
theorem events_of_follows_error (h : (store.follows firsts start).result = .error e) :
    (store.follows firsts start).events = [] := by
  cases hbegin : store.followStart start with
  | error e' =>
    unfold Store.follows
    rw [hbegin]
    rfl
  | ok begin =>
    have run := store.runs_followRun firsts begin
    rw [follows_of_start hbegin] at h ⊢
    cases hresult : (store.followRun firsts begin).result with
    | ok table =>
      rw [hresult] at h
      cases h
    | error e' =>
      rw [hresult] at run
      rw [(followPass_of_runs_error run).1]
      rfl

/-- A pass fails when some scan fails, with the failure of the first place at which one does. What
    it leaves contains the table that it began with, and is inside every solution of the merging
    rules around that. Passes from a start table fail before the first of them is reported, or they
    do not fail. -/
theorem followPass_failure (store : Store) (firsts follows : SetTable) :
    ((∃ d, (store.followPass firsts follows).2 = .error (.defect d)) ↔
      ∃ place e, store.FailsAt firsts place e) ∧
    (∀ e, (store.followPass firsts follows).2 = .error e ↔
      ∃ place, store.FailsFirst firsts place e) ∧
    (follows.rel ≤ (store.followPass firsts follows).1.rel ∧
      ∀ R, follows.rel ≤ R → FollowClosed store firsts R →
        (store.followPass firsts follows).1.rel ≤ R) ∧
    ∀ start,
      (∃ e, (store.follows firsts start).result = .error e ∧
        (store.follows firsts start).events = []) ∨
      ∃ result, (store.follows firsts start).result = .ok result := by
  refine ⟨⟨?_, ?_⟩, fun e => followPass_eq_error_iff follows, ⟨le_visitAll rfl, ?_⟩, fun start => ?_⟩
  · intro ⟨d, h⟩
    obtain ⟨place, hfails⟩ := (followPass_eq_error_iff follows).1 h
    exact ⟨place, _, hfails.fails⟩
  · intro ⟨place, e, hfails⟩
    obtain ⟨first, e', hfirst⟩ := hfails.exists_failsFirst
    obtain ⟨d, rfl⟩ := hfirst.fails.eq_defect
    exact ⟨d, (followPass_eq_error_iff follows).2 ⟨first, hfirst⟩⟩
  · intro R hle hclosed
    exact visitAll_le rfl hle (followClosed_iff.1 hclosed)
  · cases h : (store.follows firsts start).result with
    | error e => exact .inl ⟨e, rfl, events_of_follows_error h⟩
    | ok result => exact .inr ⟨result, rfl⟩

end Store

end FirstFollow
