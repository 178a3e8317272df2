import FirstFollow.Proofs.Refusal
import FirstFollow.Proofs.StoreHistory

/-!
# Numbers are handed out once

A builder may build again and again, half way, to the end, or against a store that is frozen, and
numbers may be handed out to others in between. Through all of this numbers ascend
(`Builder.countsOn_run`). The steps of a plan fit in with the numbers before it
(`exists_fits_planAll`), and each step that fits in keeps the builder in order
(`Builder.InOrder.perform`), also a step that is refused. So a helper goes by the number that is
handed out for it (`Builder.InOrder.run`), what the store holds are numbers that were handed out,
and no number is ever used twice (`run_identifiers`).
-/

namespace FirstFollow

/-! ## Numbers that are taken -/

/-- A number is that of one of `count` names, or of a helper, with `n` the next number. The number
    `count` is left out. -/
def Taken (count : Nat) (n id : NonterminalId) : Prop :=
  (0 ≤ id ∧ id < count) ∨ (count < id ∧ id < n)

/-- The nonterminals among some symbols are taken. -/
def AllTaken (count : Nat) (n : NonterminalId) (symbols : List Symbol) : Prop :=
  ∀ target, .nonterminal target ∈ symbols → Taken count n target

section

variable {count : Nat} {n m id : NonterminalId} {symbols more : List Symbol} {s : Symbol}

theorem Taken.mono (h : Taken count n id) (hle : n ≤ m) : Taken count m id :=
  h.imp_right fun ⟨hlow, hhigh⟩ => ⟨hlow, Int.lt_of_lt_of_le hhigh hle⟩

theorem taken_helper (hlow : count < id) (hhigh : id < n) : Taken count n id := .inr ⟨hlow, hhigh⟩

/-- The numbers that are taken are those of names, and those handed out since. -/
theorem taken_iff {k : Nat} :
    Taken count (count + 1 + k) id ↔ id ∈ numbersFrom 0 count ∨ id ∈ numbersFrom (count + 1) k := by
  rw [mem_numbersFrom_iff_lt, mem_numbersFrom_iff_lt, Taken, zero_add, Int.add_one_le_iff]

theorem AllTaken.mono (h : AllTaken count n symbols) (hle : n ≤ m) : AllTaken count m symbols :=
  fun target htarget => (h target htarget).mono hle

theorem allTaken_nil : AllTaken count n [] := fun _ => nofun

theorem allTaken_single (h : Taken count n id) : AllTaken count n [.nonterminal id] := by
  intro target htarget
  cases List.mem_singleton.1 htarget
  exact h

theorem allTaken_other (h : ∀ id, s ≠ .nonterminal id) : AllTaken count n [s] :=
  fun target htarget => absurd (List.mem_singleton.1 htarget).symm (h target)

theorem AllTaken.append (h : AllTaken count n symbols) (h' : AllTaken count n more) :
    AllTaken count n (symbols ++ more) :=
  fun target htarget => (List.mem_append.1 htarget).elim (h target) (h' target)

theorem AllTaken.spell (h : AllTaken count n symbols) : AllTaken count n (spell symbols) := by
  cases symbols with
  | nil => exact allTaken_other fun _ => nofun
  | cons s rest => exact h

end

/-! ## Steps that fit in -/

/-- Steps fit in with the numbers that are taken, when `n` is the next number before them and `m`
    after them. Each helper gets the next number, and productions are for nonterminals that are
    taken, and hold no others. -/
def Fits (count : Nat) : List Step → NonterminalId → NonterminalId → Prop
  | [], n, m => n = m
  | .helper id _ _ :: rest, n, m => id = n ∧ Fits count rest (n + 1) m
  | .emit id production :: rest, n, m =>
    Taken count n id ∧ AllTaken count n production ∧ Fits count rest n m
  | .announce _ _ :: rest, n, m => Fits count rest n m
  | .fail _ :: rest, n, m => Fits count rest n m

/-- A rule is lowered from `n` on to steps that fit in, and its symbols are taken after them. -/
structure Lowered.FitsIn (lowered : Lowered) (count : Nat) (n : NonterminalId) : Prop where
  le : n ≤ lowered.next
  steps : Fits count lowered.steps n lowered.next
  symbols : AllTaken count lowered.next lowered.symbols

section

variable {count : Nat} {steps more : List Step} {n k m : NonterminalId}

theorem Fits.append (h : Fits count steps n k) (h' : Fits count more k m) :
    Fits count (steps ++ more) n m := by
  induction steps generalizing n with
  | nil =>
    cases h
    exact h'
  | cons step rest ih =>
    cases step with
    | helper id kind definition => exact ⟨h.1, ih h.2⟩
    | emit id production => exact ⟨h.1, h.2.1, ih h.2.2⟩
    | announce name id => exact ih h
    | fail e => exact ih h

namespace Rule

mutual

/-- The steps of a rule fit in with the numbers of names. -/
theorem fitsIn_lower (scope : Scope)
    (hnames : ∀ name id, scope.names.get? name = some id → 0 ≤ id ∧ id < count) :
    ∀ (rule : Rule) (n : NonterminalId), count < n → (rule.lower scope n).FitsIn count n
  | .character c, n, _ => ⟨Int.le_refl n, rfl, allTaken_other fun _ => nofun⟩
  | .reference name, n, _ => by
    rw [lower]
    cases hget : scope.names.get? name with
    | none => exact ⟨Int.le_refl n, rfl, allTaken_nil⟩
    | some id => exact ⟨Int.le_refl n, rfl, allTaken_single (.inl (hnames name id hget))⟩
  | .sequence rules, n, hn => fitsIn_lowerAll scope hnames rules n hn
  | .alternative first rest, n, hn => by
    -- The helper is taken from the first choice on.
    have hchoices := fits_emitAll scope hnames (first :: rest) (n + 1) (hn.trans (Int.lt_succ n))
      (taken_helper hn (Int.lt_succ n))
    exact ⟨Int.le_of_lt hchoices.1, ⟨rfl, hchoices.2⟩,
      allTaken_single (taken_helper hn hchoices.1)⟩
  | .repetition rule, n, hn => by
    have hbody := fitsIn_lower scope hnames rule (n + 1) (hn.trans (Int.lt_succ n))
    have hown := taken_helper hn hbody.le
    refine ⟨Int.le_of_lt hbody.le, ⟨rfl, hbody.steps.append ?_⟩, allTaken_single hown⟩
    exact ⟨hown, hbody.symbols.append (allTaken_single hown), hown,
      allTaken_other fun _ => nofun, rfl⟩
  | .option rule, n, hn => by
    have hbody := fitsIn_lower scope hnames rule (n + 1) (hn.trans (Int.lt_succ n))
    have hown := taken_helper hn hbody.le
    refine ⟨Int.le_of_lt hbody.le, ⟨rfl, hbody.steps.append ⟨hown, hbody.symbols.spell, ?_⟩⟩,
      allTaken_single hown⟩
    split
    · rfl
    · exact ⟨hown, allTaken_other fun _ => nofun, rfl⟩
  | .group rule, n, hn => by
    have hbody := fitsIn_lower scope hnames rule (n + 1) (hn.trans (Int.lt_succ n))
    have hown := taken_helper hn hbody.le
    exact ⟨Int.le_of_lt hbody.le, ⟨rfl, hbody.steps.append ⟨hown, hbody.symbols.spell, rfl⟩⟩,
      allTaken_single hown⟩
  | .strayReference _, n, _ | .exclude _ _, n, _ | .foreign _, n, _ =>
    ⟨Int.le_refl n, rfl, allTaken_nil⟩

theorem fitsIn_lowerAll (scope : Scope)
    (hnames : ∀ name id, scope.names.get? name = some id → 0 ≤ id ∧ id < count) :
    ∀ (rules : List Rule) (n : NonterminalId), count < n → (lowerAll scope rules n).FitsIn count n
  | [], n, _ => ⟨Int.le_refl n, rfl, allTaken_nil⟩
  | rule :: rest, n, hn => by
    have hhead := fitsIn_lower scope hnames rule n hn
    have htail := fitsIn_lowerAll scope hnames rest _ (Int.lt_of_lt_of_le hn hhead.le)
    exact ⟨Int.le_trans hhead.le htail.le, hhead.steps.append htail.steps,
      (hhead.symbols.mono htail.le).append htail.symbols⟩

/-- So do those of the choices of a nonterminal that is taken. -/
theorem fits_emitAll (scope : Scope)
    (hnames : ∀ name id, scope.names.get? name = some id → 0 ≤ id ∧ id < count) :
    ∀ (rules : List Rule) (n : NonterminalId) {owner : NonterminalId}, count < n →
      Taken count n owner →
        n ≤ (emitAll scope owner rules n).2 ∧
          Fits count (emitAll scope owner rules n).1 n (emitAll scope owner rules n).2
  | [], n, _, _, _ => ⟨Int.le_refl n, rfl⟩
  | rule :: rest, n, _, hn, howner => by
    have hhead := fitsIn_lower scope hnames rule n hn
    have hlater := howner.mono hhead.le
    have htail := fits_emitAll scope hnames rest _ (Int.lt_of_lt_of_le hn hhead.le) hlater
    exact ⟨Int.le_trans hhead.le htail.1,
      hhead.steps.append ⟨hlater, hhead.symbols.spell, htail.2⟩⟩

end

end Rule

/-- The steps of a plan fit in with the numbers of names. -/
theorem exists_fits_planAll {names : Table String NonterminalId} {definitions : List Definition}
    (hnames : ∀ name id, names.get? name = some id → 0 ≤ id ∧ id < count) (hn : count < n) :
    ∃ m, Fits count (planAll names definitions n) n m := by
  induction definitions generalizing n with
  | nil => exact ⟨n, rfl⟩
  | cons first rest ih =>
    cases hget : names.get? first.name with
    -- A failure takes no number, whatever the plan has behind it.
    | none =>
      obtain ⟨m, hrest⟩ := ih hn
      refine ⟨m, ?_⟩
      simp only [planAll, Definition.lower, hget]
      exact hrest
    | some id =>
      obtain ⟨hle, hfirst⟩ := Rule.fits_emitAll ⟨names, first.name⟩ hnames
        first.rule.choices n hn (.inl (hnames first.name id hget))
      obtain ⟨m, hrest⟩ := ih (Int.lt_of_lt_of_le hn hle)
      refine ⟨m, ?_⟩
      simp only [planAll, Definition.lower, hget]
      exact hfirst.append hrest

end

/-! ## Calls -/

/-- A number that is handed out. A step that makes a helper comes with the number that its plan has
    given the helper; a call from outside comes with none. -/
structure Handout where
  number : NonterminalId
  helper? : Option NonterminalId
  deriving DecidableEq, Repr

/-- The helper goes by the number that is handed out for it. -/
def Handout.AsPlanned (handout : Handout) : Prop :=
  ∀ id, handout.helper? = some id → id = handout.number

/-- Helpers that go by the numbers handed out for them have some of these numbers, in order. -/
theorem helpers_sublist {handouts : List Handout} (h : ∀ handout ∈ handouts, handout.AsPlanned) :
    (handouts.filterMap Handout.helper?).Sublist (handouts.map Handout.number) := by
  induction handouts with
  | nil => exact .slnil
  | cons first rest ih =>
    obtain ⟨hfirst, hrest⟩ := List.forall_mem_cons.1 h
    cases hhelper : first.helper? with
    | none =>
      rw [List.filterMap_cons_none hhelper]
      exact (ih hrest).cons _
    | some id =>
      rw [List.filterMap_cons_some hhelper, hfirst id hhelper]
      exact (ih hrest).cons_cons _

namespace Builder

/-- What is asked of a builder, or of its supply of numbers. -/
inductive Call where
  | build
  | next
  | lookup (name : String)
  deriving DecidableEq, Repr

/-- The builder after a call, whether it succeeds or not. To look a name up changes nothing. -/
def call (builder : Builder) : Call → Builder
  | .build => builder.build.1
  | .next => { builder with ids := builder.ids.next.2 }
  | .lookup _ => builder

/-- The builder after some calls. -/
def run (builder : Builder) (calls : List Call) : Builder := calls.foldl call builder

/-- What is handed out for a step. A helper gets a number even when the store refuses it. -/
def stepHandouts (builder : Builder) : Step → List Handout
  | .helper id _ _ => [⟨builder.ids.next.1, some id⟩]
  | _ => []

/-- What is handed out while steps are carried out, until one fails. -/
def planHandouts (builder : Builder) : List Step → List Handout
  | [] => []
  | step :: rest =>
    builder.stepHandouts step ++
      match builder.perform step with
      | (next, ⟨_, .ok ()⟩) => next.planHandouts rest
      | (_, ⟨_, .error _⟩) => []

/-- What a call hands out. -/
def callHandouts (builder : Builder) : Call → List Handout
  | .build => builder.planHandouts builder.plan
  | .next => [⟨builder.ids.next.1, none⟩]
  | .lookup _ => []

/-- What calls hand out, in order. -/
def runHandouts (builder : Builder) : List Call → List Handout
  | [] => []
  | call :: rest => builder.callHandouts call ++ (builder.call call).runHandouts rest

/-- The numbers that calls hand out, in order. -/
def runNumbers (builder : Builder) (calls : List Call) : List NonterminalId :=
  (builder.runHandouts calls).map Handout.number

/-- The helpers that numbers are handed out for in calls, in order. -/
def runHelpers (builder : Builder) (calls : List Call) : List NonterminalId :=
  (builder.runHandouts calls).filterMap Handout.helper?

variable {builder middle last : Builder} {step : Step} {steps rest : List Step}
  {handouts more : List Handout}

/-- A build leaves what its steps left, and may have frozen the store. -/
theorem build_spec (builder : Builder) :
    builder.build.1 = (builder.performAll builder.plan).1 ∨
      builder.build.1 = { (builder.performAll builder.plan).1 with
        store := { (builder.performAll builder.plan).1.store with frozen := true } } := by
  unfold build
  rcases builder.performAll builder.plan with ⟨last, events, e | ⟨⟩⟩
  · exact .inl rfl
  · cases hfreeze : last.store.freeze.result with
    | error e => exact .inl (by simp only [hfreeze])
    | ok store => exact .inr (by simp only [hfreeze, Store.freeze_eq_ok hfreeze])

/-! ## Numbers ascend -/

/-- From one builder to another, the numbers from the next one on have been handed out, and the
    helpers that have come in are among those that numbers were handed out for. -/
structure CountsOn (builder : Builder) (handouts : List Handout) (last : Builder) : Prop where
  ascending : handouts.map Handout.number = numbersFrom builder.ids.counter handouts.length
  counter : last.ids.counter = builder.ids.counter + handouts.length
  synthetic : ∀ id ∈ last.store.synthetic,
    id ∈ builder.store.synthetic ∨ id ∈ handouts.filterMap Handout.helper?

theorem CountsOn.refl (builder : Builder) : builder.CountsOn [] builder :=
  ⟨rfl, (Int.add_zero _).symm, fun _ => .inl⟩

theorem CountsOn.trans (h : builder.CountsOn handouts middle) (h' : middle.CountsOn more last) :
    builder.CountsOn (handouts ++ more) last where
  ascending := by
    rw [List.map_append, List.length_append, numbersFrom_add, ← h.counter, ← h.ascending,
      ← h'.ascending]
  counter := by
    rw [h'.counter, h.counter, List.length_append, Nat.cast_add, add_assoc]
  synthetic id hid := by
    rw [List.filterMap_append, List.mem_append, ← or_assoc]
    exact (h'.synthetic id hid).imp_left (h.synthetic id)

/-- One number is handed out, and the helper that it is for may come in. -/
theorem countsOn_next {store : Store} {helper? : Option NonterminalId} (builder : Builder)
    (h : ∀ id ∈ store.synthetic, id ∈ builder.store.synthetic ∨ helper? = some id) :
    builder.CountsOn [⟨builder.ids.next.1, helper?⟩]
      { builder with ids := builder.ids.next.2, store } where
  ascending := (congrArg (fun n => [n]) (Int.add_zero _)).symm
  counter := rfl
  synthetic id hid := (h id hid).imp_right fun hhelper =>
    List.mem_filterMap.2 ⟨_, List.mem_singleton_self _, hhelper⟩

theorem countsOn_perform (builder : Builder) (step : Step) :
    builder.CountsOn (builder.stepHandouts step) (builder.perform step).1 := by
  cases step with
  | announce name id => exact .refl builder
  | fail e => exact .refl builder
  | helper id kind definition =>
    simp only [perform]
    cases hmark : builder.store.markSynthetic id with
    | error e => exact builder.countsOn_next fun _ => .inl
    | ok store =>
      refine builder.countsOn_next fun other hother => ?_
      rw [Store.markSynthetic_eq_ok hmark] at hother
      exact (SortedSet.mem_insert.1 hother).symm.imp_right fun h => congrArg some h.symm
  | emit id production =>
    simp only [perform]
    cases hadd : builder.store.add id production with
    | error e => exact .refl builder
    | ok store =>
      refine ⟨rfl, (Int.add_zero _).symm, fun other hother => .inl ?_⟩
      rwa [(Store.added_of_add hadd).synthetic] at hother

theorem countsOn_performAll (builder : Builder) (steps : List Step) :
    builder.CountsOn (builder.planHandouts steps) (builder.performAll steps).1 := by
  induction steps generalizing builder with
  | nil => exact .refl builder
  | cons step rest ih =>
    have hstep := builder.countsOn_perform step
    unfold performAll planHandouts
    rcases hnext : builder.perform step with ⟨next, events, e | ⟨⟩⟩
    -- A step that fails may have taken a number.
    · rw [hnext] at hstep
      simpa using hstep
    · rw [hnext] at hstep
      exact hstep.trans (ih next)

theorem countsOn_call (builder : Builder) (call : Call) :
    builder.CountsOn (builder.callHandouts call) (builder.call call) := by
  cases call with
  | next => exact builder.countsOn_next fun _ => .inl
  | lookup name => exact .refl builder
  | build =>
    have hplan := builder.countsOn_performAll builder.plan
    rw [call]
    rcases builder.build_spec with hbuild | hbuild
    · rw [hbuild]
      exact hplan
    · rw [hbuild]
      exact ⟨hplan.ascending, hplan.counter, hplan.synthetic⟩

/-- Whatever the calls, each number that is handed out is one above the last. -/
theorem countsOn_run (builder : Builder) (calls : List Call) :
    builder.CountsOn (builder.runHandouts calls) (builder.run calls) := by
  induction calls generalizing builder with
  | nil => exact .refl builder
  | cons call rest ih => exact (builder.countsOn_call call).trans (ih (builder.call call))

/-! ## Builders in order -/

/-- What a builder and its store know are the numbers of the names, and those of helpers up to the
    next number. -/
structure InOrder (names : Table String NonterminalId) (builder : Builder) : Prop where
  known : builder.ids.names = names
  stored : builder.store.names = names
  numbered : ∀ name id, names.get? name = some id → 0 ≤ id ∧ id < names.size
  counter : names.size < builder.ids.counter
  issued : ∀ id, id ∈ builder.ids.issued ↔ Taken names.size builder.ids.counter id
  keys : ∀ id ∈ builder.store.keys, Taken names.size builder.ids.counter id
  productions : ∀ id production, (id, production) ∈ builder.store.alternatives →
    AllTaken names.size builder.ids.counter production

section

variable {names : Table String NonterminalId} {store : Store} {id m : NonterminalId}
  {production : Production}

namespace InOrder

/-- The next number may be handed out, to anyone. -/
theorem next (h : builder.InOrder names) :
    InOrder names { builder with ids := builder.ids.next.2 } where
  known := h.known
  stored := h.stored
  numbered := h.numbered
  counter := h.counter.trans (Int.lt_succ _)
  issued id := by
    have hcounter := h.counter
    simp only [Identifiers.next, SortedSet.mem_insert, h.issued, Taken]
    lia
  keys id hid := (h.keys id hid).mono (Int.le_of_lt (Int.lt_succ _))
  productions id production hmem :=
    (h.productions id production hmem).mono (Int.le_of_lt (Int.lt_succ _))

theorem mark (h : builder.InOrder names) (hmark : builder.store.markSynthetic id = .ok store) :
    InOrder names { builder with store } := by
  rw [Store.markSynthetic_eq_ok hmark]
  exact { h with }

theorem add (h : builder.InOrder names) (hadd : builder.store.add id production = .ok store)
    (hid : Taken names.size builder.ids.counter id)
    (hproduction : AllTaken names.size builder.ids.counter production) :
    InOrder names { builder with store } := by
  have hadded := Store.added_of_add hadd
  refine { h with
    stored := hadded.names.trans h.stored
    keys := fun other hother => ?_
    productions := fun other added hmem => ?_ }
  · rcases (hadded.keys other).1 hother with hother | rfl
    · exact h.keys other hother
    · exact hid
  · rcases hadded.mem_alternatives.1 hmem with hmem | ⟨_, rfl⟩
    · exact h.productions other added hmem
    · exact hproduction

/-- A step that fits in keeps a builder in order, also when it fails, and the steps behind it fit
    in. What is handed out for it is as planned. -/
theorem perform (h : builder.InOrder names)
    (hfits : Fits names.size (step :: rest) builder.ids.counter m) :
    (builder.perform step).1.InOrder names ∧
      Fits names.size rest (builder.perform step).1.ids.counter m ∧
      ∀ handout ∈ builder.stepHandouts step, handout.AsPlanned := by
  cases step with
  | announce name id => exact ⟨h, hfits, List.forall_mem_nil _⟩
  | fail e => exact ⟨h, hfits, List.forall_mem_nil _⟩
  | helper id kind definition =>
    obtain ⟨rfl, hrest⟩ := hfits
    have hplanned : Handout.AsPlanned ⟨builder.ids.counter, some builder.ids.counter⟩ :=
      fun _ hid => (Option.some.inj hid).symm
    simp only [Builder.perform]
    -- A frozen store refuses the helper, whose number is lost.
    cases hmark : builder.store.markSynthetic builder.ids.counter with
    | error e => exact ⟨h.next, hrest, List.forall_mem_singleton.2 hplanned⟩
    | ok store => exact ⟨h.next.mark hmark, hrest, List.forall_mem_singleton.2 hplanned⟩
  | emit id production =>
    obtain ⟨hid, hproduction, hrest⟩ := hfits
    simp only [Builder.perform]
    cases hadd : builder.store.add id production with
    | error e => exact ⟨h, hrest, List.forall_mem_nil _⟩
    | ok store => exact ⟨h.add hadd hid hproduction, hrest, List.forall_mem_nil _⟩

theorem performAll (h : builder.InOrder names)
    (hfits : Fits names.size steps builder.ids.counter m) :
    (builder.performAll steps).1.InOrder names ∧
      ∀ handout ∈ builder.planHandouts steps, handout.AsPlanned := by
  induction steps generalizing builder with
  | nil => exact ⟨h, List.forall_mem_nil _⟩
  | cons step rest ih =>
    obtain ⟨hstep, hrest, hplanned⟩ := h.perform hfits
    unfold Builder.performAll planHandouts
    rcases hnext : builder.perform step with ⟨next, events, e | ⟨⟩⟩
    · rw [hnext] at hstep
      exact ⟨hstep, by simpa using hplanned⟩
    · rw [hnext] at hstep hrest
      obtain ⟨hlast, hlater⟩ := ih hstep hrest
      exact ⟨hlast, List.forall_mem_append.2 ⟨hplanned, hlater⟩⟩

theorem freeze (h : builder.InOrder names) :
    InOrder names { builder with store := { builder.store with frozen := true } } :=
  { h with }

theorem call (h : builder.InOrder names) (call : Call) :
    (builder.call call).InOrder names ∧
      ∀ handout ∈ builder.callHandouts call, handout.AsPlanned := by
  cases call with
  | next => exact ⟨h.next, List.forall_mem_singleton.2 fun _ => nofun⟩
  | lookup name => exact ⟨h, List.forall_mem_nil _⟩
  | build =>
    have hnames : ∀ name id, builder.ids.names.get? name = some id → 0 ≤ id ∧ id < names.size :=
      h.known ▸ h.numbered
    obtain ⟨m, hfits⟩ : ∃ m, Fits names.size builder.plan builder.ids.counter m :=
      exists_fits_planAll hnames h.counter
    obtain ⟨hplan, hplanned⟩ := h.performAll hfits
    refine ⟨?_, hplanned⟩
    rw [Builder.call]
    rcases builder.build_spec with hbuild | hbuild
    · rw [hbuild]
      exact hplan
    · rw [hbuild]
      exact hplan.freeze

/-- Calls keep a builder in order, and what they hand out is as planned. -/
theorem run (h : builder.InOrder names) (calls : List Call) :
    (builder.run calls).InOrder names ∧
      ∀ handout ∈ builder.runHandouts calls, handout.AsPlanned := by
  induction calls generalizing builder with
  | nil => exact ⟨h, List.forall_mem_nil _⟩
  | cons call rest ih =>
    obtain ⟨hcall, hplanned⟩ := h.call call
    obtain ⟨hlast, hlater⟩ := ih hcall
    exact ⟨hlast, List.forall_mem_append.2 ⟨hplanned, hlater⟩⟩

/-- What was issued when `k` numbers have been handed out beside those of the names. -/
theorem mem_issued_iff {k : Nat} (h : builder.InOrder names)
    (hcounter : builder.ids.counter = names.size + 1 + k) :
    id ∈ builder.ids.issued ↔
      id ∈ numbersFrom 0 names.size ∨ id ∈ numbersFrom (names.size + 1) k := by
  rw [h.issued, hcounter, taken_iff]

/-- The number above those of the names is never issued. -/
theorem size_not_mem_issued (h : builder.InOrder names) :
    (names.size : NonterminalId) ∉ builder.ids.issued := by
  intro hissued
  rcases (h.issued _).1 hissued with ⟨_, hbelow⟩ | ⟨habove, _⟩
  · exact Int.lt_irrefl _ hbelow
  · exact Int.lt_irrefl _ habove

end InOrder

end

end Builder

section

variable {definitions : List Definition} {names : Table String NonterminalId} {id : NonterminalId}

/-- Names have the numbers below their count. -/
theorem mem_values_of_numberNames
    (h : numberNames ∅ (definitions.map Definition.name) = .ok names) :
    id ∈ names.values ↔ 0 ≤ id ∧ id < names.size := by
  rw [Table.mem_values_iff, size_of_numberNames h]
  constructor
  · intro ⟨name, hget⟩
    obtain ⟨i, d, hi, _, rfl⟩ := (get?_of_numberNames h name id).1 hget
    have hlt := (List.getElem?_eq_some_iff.1 hi).1
    exact ⟨Int.natCast_nonneg i, Int.ofNat_lt.2 hlt⟩
  · intro ⟨hlow, hhigh⟩
    lift id to Nat using hlow
    have hi := List.getElem?_eq_getElem (Int.ofNat_lt.1 hhigh)
    exact ⟨_, (get?_of_numberNames h _ id).2 ⟨id, _, hi, rfl, rfl⟩⟩

/-- A new builder is in order. -/
theorem Builder.inOrder_ofIds (h : numberNames ∅ (definitions.map Definition.name) = .ok names) :
    (Builder.ofIds definitions (.ofTable names)).InOrder names where
  known := rfl
  stored := rfl
  numbered name id hget := (mem_values_of_numberNames h).1 (Table.mem_values_iff.2 ⟨name, hget⟩)
  counter := Int.lt_succ _
  issued id := by
    have hvalues : id ∈ names.values ↔ 0 ≤ id ∧ id < names.size := mem_values_of_numberNames h
    simp only [ofIds, Identifiers.ofTable, SortedSet.mem_ofList, hvalues, Taken]
    lia
  keys id hid := absurd hid List.not_mem_nil
  productions id production hmem := absurd hmem (Store.not_mem_alternatives_ofNames names _)

/-- The names in the store have the numbers below their count. -/
theorem Builder.InOrder.mem_named_iff {builder : Builder} (h : builder.InOrder names)
    (hnames : numberNames ∅ (definitions.map Definition.name) = .ok names) :
    id ∈ builder.store.named ↔ id ∈ numbersFrom 0 names.size := by
  rw [mem_numbersFrom_iff_lt, zero_add, ← mem_values_of_numberNames hnames, ← h.stored]
  exact SortedSet.mem_ofList

end

/-- A builder for definitions with different names builds, and hands out numbers, in any order of
    calls. The numbers that it hands out ascend from one above the count of the names, and with
    those of the names they are all that were ever issued. Each helper goes by the number that is
    handed out for it, so those of all builds together are different. Helpers in the store are
    among them, and none is the number of a name. All nonterminals in the store were issued. -/
theorem run_identifiers {definitions : List Definition}
    (h : (definitions.map Definition.name).Nodup) :
    ∃ builder, Builder.ofDefinitions definitions = .ok builder ∧
      ∀ calls : List Builder.Call,
        let last := builder.run calls
        let numbers := builder.runNumbers calls
        let helpers := builder.runHelpers calls
        let own := numbersFrom 0 definitions.length
        numbers = numbersFrom (definitions.length + 1) numbers.length ∧
        numbers.Pairwise (· < ·) ∧
        (∀ handout ∈ builder.runHandouts calls, handout.AsPlanned) ∧
        helpers.Pairwise (· < ·) ∧
        (∀ id, id ∈ last.ids.issued ↔ id ∈ own ∨ id ∈ numbers) ∧
        (definitions.length : NonterminalId) ∉ last.ids.issued ∧
        (∀ id, id ∈ last.store.named ↔ id ∈ own) ∧
        (∀ id ∈ last.store.synthetic, id ∈ helpers ∧ id ∈ numbers ∧ id ∈ last.ids.issued ∧
          id ∉ last.store.named) ∧
        (∀ id ∈ last.store.keys, id ∈ last.ids.issued) ∧
        (∀ id production target, (id, production) ∈ last.store.alternatives →
          .nonterminal target ∈ production → target ∈ last.ids.issued) ∧
        ∀ name, last.ids.lookup name = builder.ids.lookup name := by
  obtain ⟨names, hnames⟩ := nodup_iff_exists_numberNames.1 h
  rw [← size_of_numberNames hnames]
  refine ⟨_, ofDefinitions_eq_ok_iff.2 ⟨names, hnames, rfl⟩, fun calls => ?_⟩
  intro last numbers helpers own
  have hcounts := (Builder.ofIds definitions (.ofTable names)).countsOn_run calls
  obtain ⟨horder, hplanned⟩ := (Builder.inOrder_ofIds hnames).run calls
  have hlength : numbers.length = (Builder.runHandouts _ calls).length := List.length_map _
  have hascending : numbers = numbersFrom (names.size + 1) numbers.length :=
    hlength ▸ hcounts.ascending
  have hcounter : last.ids.counter = names.size + 1 + numbers.length :=
    hlength ▸ hcounts.counter
  have hpairwise : numbers.Pairwise (· < ·) := by
    rw [hascending]
    exact pairwise_numbersFrom
  have hsublist : helpers.Sublist numbers := helpers_sublist hplanned
  have hnamed : ∀ id, id ∈ last.store.named ↔ id ∈ own := fun _ => horder.mem_named_iff hnames
  have hissued : ∀ id, id ∈ last.ids.issued ↔ id ∈ own ∨ id ∈ numbers := by
    intro id
    rw [horder.mem_issued_iff hcounter, ← hascending]
  refine ⟨hascending, hpairwise, hplanned, hpairwise.sublist hsublist, hissued,
    horder.size_not_mem_issued, hnamed, ?synthetic,
    fun id hid => (horder.issued id).2 (horder.keys id hid), ?productions, ?lookup⟩
  case synthetic =>
    intro id hid
    have hhelper : id ∈ helpers :=
      (hcounts.synthetic id hid).resolve_left (SortedSet.not_mem_empty id)
    have hnumber : id ∈ numbers := hsublist.mem hhelper
    refine ⟨hhelper, hnumber, (hissued id).2 (.inr hnumber), fun hname => ?_⟩
    -- Names are numbered below their count, what is handed out above it.
    have hbelow := (mem_numbersFrom_iff_lt.1 ((hnamed id).1 hname)).2
    rw [hascending] at hnumber
    have habove := (mem_numbersFrom_iff_lt.1 hnumber).1
    lia
  case productions =>
    intro id production target hmem htarget
    exact (horder.issued target).2 (horder.productions id production hmem target htarget)
  case lookup =>
    intro name
    unfold Identifiers.lookup
    rw [horder.known]
    rfl

-- A second build takes a number for the helper that the frozen store refuses.
example : (Builder.ofDefinitions [⟨"a", .group (.character 'x')⟩]).toOption.map (fun builder =>
    (builder.runNumbers [.build, .build],
      (builder.run [.build, .build]).store.synthetic.toList)) = some ([2, 3], [2]) := by
  rfl

/-- A repetition, and behind it an option that cannot be lowered. -/
def unfinishedDefinitions : List Definition :=
  [⟨"a", .repetition (.character 'x')⟩, ⟨"b", .option (.reference "c")⟩]

/-- Each build of `unfinishedDefinitions` fails after it has made two helpers. With a number handed
    out in between, two builds take five numbers, and the helpers of both are different. -/
theorem run_identifiers_unfinishedDefinitions :
    (unfinishedDefinitions.map Definition.name).Nodup ∧
      ∃ builder, Builder.ofDefinitions unfinishedDefinitions = .ok builder ∧
        builder.build.2.result = .error (.unknownIdentifier "c") ∧
        let calls := [Builder.Call.build, .next, .lookup "b", .build]
        builder.runNumbers calls = [3, 4, 5, 6, 7] ∧ 2 ∉ (builder.run calls).ids.issued ∧
          builder.runHelpers calls = [3, 4, 6, 7] ∧
          (builder.runHelpers calls).Pairwise (· < ·) ∧
          5 ∈ (builder.run calls).ids.issued ∧ 5 ∉ (builder.run calls).store.synthetic ∧
          7 ∈ (builder.run calls).store.synthetic ∧ 7 ∉ (builder.run calls).store.named := by
  have hnames : (unfinishedDefinitions.map Definition.name).Nodup := by decide
  obtain ⟨builder, hbuilder, hrun⟩ := run_identifiers hnames
  obtain ⟨hascending, _, _, hdifferent, hissued, hgap, _, hsynthetic, _⟩ :=
    hrun [.build, .next, .lookup "b", .build]
  have hbuild : builder.build.2.result = .error (.unknownIdentifier "c") := by
    cases hbuilder
    rfl
  have hlength : (builder.runNumbers [.build, .next, .lookup "b", .build]).length = 5 := by
    cases hbuilder
    rfl
  have hhelpers : builder.runHelpers [.build, .next, .lookup "b", .build] = [3, 4, 6, 7] := by
    cases hbuilder
    rfl
  have hstored : (builder.run [.build, .next, .lookup "b", .build]).store.synthetic.toList =
      [3, 4, 6, 7] := by
    cases hbuilder
    rfl
  rw [hlength] at hascending
  have hnumber : 5 ∈ (builder.run [.build, .next, .lookup "b", .build]).ids.issued :=
    (hissued 5).2 (.inr (hascending ▸ by decide))
  have hfive : 5 ∉ (builder.run [.build, .next, .lookup "b", .build]).store.synthetic := by
    rw [← SortedSet.mem_toList, hstored]
    decide
  have hseven : 7 ∈ (builder.run [.build, .next, .lookup "b", .build]).store.synthetic := by
    rw [← SortedSet.mem_toList, hstored]
    decide
  exact ⟨hnames, builder, hbuilder, hbuild, hascending, hgap, hhelpers, hdifferent, hnumber, hfive,
    hseven, (hsynthetic 7 hseven).2.2.2⟩

end FirstFollow
