import FirstFollow.Proofs.FollowSolution

/-!
# How fast FOLLOW sets converge

A pass treats every symbol by itself: a symbol that it adds to no set is settled, and no later pass
adds it (`Store.Settled.step`). A symbol that the last changing pass adds was therefore added by
every pass, each time to a set that lacked it. So there is at most one changing pass for each
entry of the final table, however many symbols there are (`Store.follow_convergence`).
-/

namespace FirstFollow

/-! ## The sets that hold a symbol -/

namespace SetTable

/-- The nonterminals whose sets hold a symbol. -/
def holders (table : SetTable) (x : Symbol) : SortedSet NonterminalId :=
  .ofList (table.keys.filter fun id => x ∈ table.setOf id)

variable {old new table : SetTable} {id : NonterminalId} {x : Symbol}

@[simp] theorem mem_holders : id ∈ table.holders x ↔ table.rel id x := by
  unfold holders
  simp only [SortedSet.mem_ofList, List.mem_filter, decide_eq_true_iff]
  apply and_iff_right_of_imp
  intro hx
  by_contra hid
  exact not_rel_of_not_mem hid x hx

theorem size_holders_le (table : SetTable) (x : Symbol) : (table.holders x).size ≤ table.size := by
  have hsub : ∀ id ∈ table.holders x, id ∈ table.keys := by
    intro id hid
    exact (List.mem_filter.1 (SortedSet.mem_ofList.1 hid)).1
  have hle := SortedSet.size_le_length hsub
  simpa [Table.keys, Table.size] using hle

theorem size_holders_mono (hle : old.rel ≤ new.rel) :
    (old.holders x).size ≤ (new.holders x).size := by
  apply SortedSet.size_le_of_subset
  intro id hid
  exact mem_holders.2 (hle id x (mem_holders.1 hid))

/-- A set that gains a symbol is one more that holds it. -/
theorem size_holders_lt (hle : old.rel ≤ new.rel) (hnew : new.rel id x) (hold : ¬ old.rel id x) :
    (old.holders x).size < (new.holders x).size := by
  refine SortedSet.size_lt_of_subset ?_ (mem_holders.2 hnew) (mt mem_holders.1 hold)
  intro other hother
  exact mem_holders.2 (hle other x (mem_holders.1 hother))

end SetTable

namespace Store

variable {store : Store} {firsts table next last : SetTable} {flags : List Bool} {grew : Bool}
  {R S : SymbolRelation} {x : Symbol}

/-! ## Settled symbols -/

/-- No occurrence asks for the symbol where it is missing. -/
def Settled (store : Store) (firsts : SetTable) (R : SymbolRelation) (x : Symbol) : Prop :=
  ∀ o ∈ store.occurrences, o.Adds firsts R x → R o.target x

/-- Whether a symbol is settled depends on the sets that hold it, and on nothing else. -/
theorem settled_congr (h : ∀ id, R id x ↔ S id x) :
    store.Settled firsts R x ↔ store.Settled firsts S x := by
  simp only [Settled, Occurrence.Adds, h]

/-- A pass adds a symbol somewhere exactly when it is not settled. -/
theorem settled_iff (h : store.followStep firsts table = .ok (next, grew)) :
    store.Settled firsts table.rel x ↔ ∀ id, next.rel id x → table.rel id x := by
  have hpass := followStep_eq_ok.1 h
  refine ⟨fun hsettled id hid => ?_, adds_of_visitAll hpass⟩
  -- The other symbols may go anywhere, so what bounds the pass speaks of this one alone.
  let R : SymbolRelation := fun id y => y = x → table.rel id y
  have hclosed : ∀ o ∈ store.occurrences, o.Adds firsts R ≤ R o.target := by
    rintro o ho y hadds rfl
    exact hsettled o ho (hadds.imp_right fun ⟨hrest, hy⟩ => ⟨hrest, hy rfl⟩)
  have hle : table.rel ≤ R := fun id y hy _ => hy
  exact visitAll_le hpass hle hclosed id x hid rfl

/-- A settled symbol is settled for good. -/
theorem Settled.step (h : store.Settled firsts table.rel x)
    (hstep : store.followStep firsts table = .ok (next, grew)) :
    store.Settled firsts next.rel x := by
  have hle := ((store.saturates_followStep firsts).grows hstep).le
  have hsame : ∀ id, table.rel id x ↔ next.rel id x := fun id =>
    ⟨hle id x, (settled_iff hstep).1 h id⟩
  exact (settled_congr hsame).1 h

/-! ## The number of passes -/

theorem rel_le_of_runs (run : Runs (store.followStep firsts) table flags (.ok last)) :
    table.rel ≤ last.rel := by
  generalize hresult : (Except.ok last : Except Error SetTable) = result at run
  induction run with
  | stable h =>
    cases hresult
    exact ((store.saturates_followStep firsts).grows h).le
  | failed h => cases hresult
  | changed h _ ih => exact ((store.saturates_followStep firsts).grows h).le.trans (ih hresult)

/-- Of several passes, each but the last adds one and the same symbol to a set that lacked it. -/
theorem exists_spreading (run : Runs (store.followStep firsts) table flags (.ok last)) :
    flags.length = 1 ∨ ∃ x, ¬ store.Settled firsts table.rel x ∧
      (table.holders x).size + flags.length ≤ (last.holders x).size + 1 := by
  generalize hresult : (Except.ok last : Except Error SetTable) = result at run
  induction run with
  | stable => exact .inl rfl
  | failed => cases hresult
  | @changed table next flags result hstep rest ih =>
    right
    cases hresult
    have hgrows := (store.saturates_followStep firsts).grows hstep
    rcases ih rfl with hlength | ⟨x, hx, hcount⟩
    -- The last changing pass adds some symbol.
    · obtain ⟨id, x, hnew, hold⟩ : ∃ id x, next.rel id x ∧ ¬ table.rel id x := by
        by_contra hnone
        apply hgrows.grew_iff.1 rfl
        intro id x hid
        by_contra hold
        exact hnone ⟨id, x, hid, hold⟩
      refine ⟨x, fun hsettled => hold ((settled_iff hstep).1 hsettled id hnew), ?_⟩
      have hlt := SetTable.size_holders_lt hgrows.le hnew hold
      have hle := SetTable.size_holders_mono (x := x) (rel_le_of_runs rest)
      simp only [List.length_cons, hlength]
      omega
    -- What is not settled later was not settled before, and so this pass added it as well.
    · have hbefore : ¬ store.Settled firsts table.rel x := fun hsettled => hx (hsettled.step hstep)
      refine ⟨x, hbefore, ?_⟩
      simp only [settled_iff hstep, not_forall, exists_prop] at hbefore
      obtain ⟨id, hnew, hold⟩ := hbefore
      have hlt := SetTable.size_holders_lt hgrows.le hnew hold
      simp only [List.length_cons]
      omega

/-- There is at most one changing pass for each entry of the final table. -/
theorem length_flags_le (run : Runs (store.followStep firsts) table flags (.ok last)) :
    flags.length ≤ last.size + 1 := by
  rcases exists_spreading run with hlength | ⟨x, -, hcount⟩
  · omega
  · have := last.size_holders_le x
    omega

/-! ## The passes one by one -/

/-- The table after some passes. -/
def followTable (store : Store) (firsts table : SetTable) (passes : Nat) : SetTable :=
  (fun table => (store.followPass firsts table).1)^[passes] table

theorem followTable_succ (store : Store) (firsts table : SetTable) (passes : Nat) :
    store.followTable firsts table (passes + 1) =
      store.followTable firsts (store.followPass firsts table).1 passes := rfl

theorem followTable_succ' (store : Store) (firsts table : SetTable) (passes : Nat) :
    store.followTable firsts table (passes + 1) =
      (store.followPass firsts (store.followTable firsts table passes)).1 :=
  Function.iterate_succ_apply' ..

theorem length_pos_of_runs (run : Runs (store.followStep firsts) table flags (.ok last)) :
    0 < flags.length := by
  cases run <;> simp

/-- All passes but the last report a change. -/
theorem flags_of_runs (run : Runs (store.followStep firsts) table flags (.ok last)) :
    ∀ k < flags.length, flags[k]? = some (decide (k + 1 < flags.length)) := by
  generalize hresult : (Except.ok last : Except Error SetTable) = result at run
  induction run with
  | stable => simp
  | failed => cases hresult
  | @changed table next flags result _ rest ih =>
    cases hresult
    intro k hk
    cases k with
    | zero => simp [length_pos_of_runs rest]
    | succ k =>
      have hflag := ih rfl k (Nat.lt_of_succ_lt_succ hk)
      simpa using hflag

/-- The passes of a loop lead from table to table, up to the one that the loop ends with. -/
theorem followTable_of_runs (run : Runs (store.followStep firsts) table flags (.ok last)) :
    store.followTable firsts table flags.length = last ∧
      ∀ k, ∀ flag ∈ flags[k]?,
        (store.followPass firsts (store.followTable firsts table k)).2 = .ok flag := by
  generalize hresult : (Except.ok last : Except Error SetTable) = result at run
  induction run with
  | stable h =>
    cases hresult
    have hpass : store.followPass firsts _ = _ := followStep_eq_ok.1 h
    refine ⟨congrArg Prod.fst hpass, fun k flag hflag => ?_⟩
    cases k with
    | zero =>
      cases hflag
      exact congrArg Prod.snd hpass
    | succ k => cases hflag
  | failed => cases hresult
  | changed h _ ih =>
    obtain ⟨hlast, hflags⟩ := ih hresult
    have hpass : store.followPass firsts _ = _ := followStep_eq_ok.1 h
    simp only [List.length_cons, followTable_succ, hpass]
    refine ⟨hlast, fun k flag hflag => ?_⟩
    cases k with
    | zero =>
      cases hflag
      exact congrArg Prod.snd hpass
    | succ k =>
      simp only [followTable_succ, hpass]
      exact hflags k flag hflag

/-- Passes from a table converge: there is one more of them than the final table has entries, or
    fewer. Each but the last makes some set larger and says so, and the last none. -/
structure Converges (store : Store) (firsts begin : SetTable) (result : Follows) : Prop where
  ends : store.followTable firsts begin result.passes = result.table
  pos : 1 ≤ result.passes
  le : result.passes ≤ result.table.size + 1
  flag : ∀ k < result.passes, (store.followPass firsts (store.followTable firsts begin k)).2 =
    .ok (decide (k + 1 < result.passes))
  keeps : ∀ k < result.passes, ∀ id,
    (store.followTable firsts begin k).setOf id ⊆ (store.followTable firsts begin (k + 1)).setOf id
  enlarges : ∀ k < result.passes,
    (k + 1 < result.passes ↔ ∃ id, ¬ (store.followTable firsts begin (k + 1)).setOf id ⊆
      (store.followTable firsts begin k).setOf id)

theorem converges_of_runs (run : Runs (store.followStep firsts) table flags (.ok last)) :
    store.Converges firsts table ⟨last, flags.length⟩ := by
  obtain ⟨hlast, hpass⟩ := followTable_of_runs run
  have hflag : ∀ k < flags.length, (store.followPass firsts (store.followTable firsts table k)).2 =
      .ok (decide (k + 1 < flags.length)) := by
    intro k hk
    exact hpass k _ (flags_of_runs run k hk)
  have hgrows : ∀ k < flags.length, (store.followTable firsts table k).Grows
      (store.followTable firsts table (k + 1)) (decide (k + 1 < flags.length)) := by
    intro k hk
    have hnext : store.followPass firsts (store.followTable firsts table k) =
        (store.followTable firsts table (k + 1), .ok (decide (k + 1 < flags.length))) :=
      Prod.ext (followTable_succ' ..).symm (hflag k hk)
    exact visitAll_grows hnext
  constructor
  case ends => exact hlast
  case pos => exact length_pos_of_runs run
  case le => exact length_flags_le run
  case flag => exact hflag
  case keeps => exact fun k hk id x hx => (hgrows k hk).le id x hx
  case enlarges =>
    intro k hk
    have hiff := (hgrows k hk).grew_iff
    simp only [decide_eq_true_iff] at hiff
    exact hiff.trans not_forall

/-! ## The log -/

theorem passEvents_eq_mapIdx (n : Nat) (flags : List Bool) :
    passEvents n flags = flags.mapIdx fun k flag => .followPass (n + k) flag := by
  induction flags generalizing n with
  | nil => rfl
  | cons flag rest ih =>
    simp only [passEvents, ih, List.mapIdx_cons, Nat.add_zero, Nat.add_assoc, Nat.add_comm 1]

/-- A loop that ends reports each of its passes, and then how many there were. -/
theorem events_of_runs (run : Runs (store.followStep firsts) table flags (.ok last)) :
    passEvents 1 flags =
      (List.range flags.length).map fun k => .followPass (k + 1) (k + 1 < flags.length) := by
  rw [passEvents_eq_mapIdx]
  apply List.ext_getElem?
  intro k
  by_cases hk : k < flags.length
  · simp only [List.getElem?_mapIdx, flags_of_runs run k hk, List.getElem?_map,
      List.getElem?_range hk, Option.map_some, Nat.add_comm 1]
  · simp [hk]

/-- The lines of a log for passes that converge. -/
def passLog (passes : Nat) : List String :=
  ((List.range passes).map fun k =>
    "DEBUG ebnf.sets " ++ ("Follow pass " ++ toString (k + 1) ++ ": " ++
      if k + 1 < passes then "changed" else "stable")) ++
  ["INFO ebnf.sets " ++ ("Follow sets converged after " ++ toString passes ++ " passes")]

theorem render_followPass (n : Nat) (changed : Bool) :
    (Event.followPass n changed).render =
      "DEBUG ebnf.sets " ++ ("Follow pass " ++ toString n ++ ": " ++
        if changed then "changed" else "stable") := by
  have hstart : "DEBUG" ++ " " ++ "ebnf.sets" ++ " " = "DEBUG ebnf.sets " := by rfl
  exact congrArg (· ++ (Event.followPass n changed).message) hstart

theorem render_followsConverged (passes : Nat) :
    (Event.followsConverged passes).render =
      "INFO ebnf.sets " ++ ("Follow sets converged after " ++ toString passes ++ " passes") := by
  have hstart : "INFO" ++ " " ++ "ebnf.sets" ++ " " = "INFO ebnf.sets " := by rfl
  exact congrArg (· ++ (Event.followsConverged passes).message) hstart

/-- No event matters less than those of single passes, so all are logged. -/
theorem renderLog_debug (events : List Event) :
    renderLog .debug events = events.map Event.render := by
  have hall : ∀ event : Event, Severity.debug.level ≤ event.severity.level := by
    intro event
    cases event <;> simp [Event.severity, Severity.level]
  simp [renderLog, hall]

theorem events_follows {start : Option NonterminalId} {begin : SetTable} {result : Follows}
    (hbegin : store.followStart start = .ok begin)
    (hrun : (store.followRun firsts begin).result = .ok result.table)
    (hpasses : result.passes = (store.followRun firsts begin).flags.length) :
    (store.follows firsts start).events =
      passEvents 1 (store.followRun firsts begin).flags ++ [.followsConverged result.passes] := by
  rw [follows_of_start hbegin, hrun, hpasses]

/-- When the FOLLOW sets can be computed, the passes converge. The log has one line for each pass,
    and one for their number. -/
theorem follow_convergence {start : Option NonterminalId} {result : Follows}
    (h : (store.follows firsts start).result = .ok result) :
    (∃ begin, store.followStart start = .ok begin ∧ store.Converges firsts begin result) ∧
      renderLog .debug (store.follows firsts start).events = passLog result.passes := by
  obtain ⟨begin, hbegin, hrun, hpasses⟩ := follows_eq_ok.1 h
  have run := store.runs_followRun firsts begin
  rw [hrun] at run
  have hconverges := converges_of_runs run
  rw [← hpasses] at hconverges
  refine ⟨⟨begin, hbegin, hconverges⟩, ?_⟩
  rw [events_follows hbegin hrun hpasses, events_of_runs run, renderLog_debug, List.map_append,
    List.map_map, ← hpasses]
  simp only [passLog, Function.comp_def, render_followPass, decide_eq_true_iff, List.map_cons,
    List.map_nil, render_followsConverged]

/-- A store with its productions in the worst order: a pass takes what follows 0 no further than
    from one nonterminal to the next. -/
def slowChain : Store :=
  let rules := [(1, [[.nonterminal 2]]), (0, [[.nonterminal 1]]),
    (2, [[.nonterminal 0, .terminal "a"], [.terminal "b"]])]
  ⟨⟨rules, by decide⟩, ∅, ∅, .ofList ["a", "b"], false⟩

/-- The passes over `slowChain`. There are as many of them as there can be. -/
theorem follow_convergence_slowChain :
    ∃ result, (slowChain.follows ∅ none).result = .ok result ∧
      result.passes = result.table.size + 1 ∧
      (∃ begin, slowChain.followStart none = .ok begin ∧ slowChain.Converges ∅ begin result) ∧
      renderLog .debug (slowChain.follows ∅ none).events = passLog 4 := by
  have hcounts : (fun result : Follows => (result.passes, result.table.size)) <$>
      (slowChain.follows ∅ none).result = .ok (4, 3) := by decide +kernel
  obtain ⟨result, h, hresult⟩ := map_eq_ok.1 hcounts
  obtain ⟨hpasses, hsize⟩ := Prod.mk.inj hresult
  obtain ⟨hconverges, hlog⟩ := follow_convergence h
  exact ⟨result, h, by rw [hpasses, hsize], hconverges, hpasses ▸ hlog⟩

end Store

end FirstFollow
