import FirstFollow.Proofs.BuiltStores
import FirstFollow.Proofs.Failures

/-!
# Which definitions are refused

Definitions are built exactly when no name is repeated and no walk of a rule meets an offence.
Otherwise the first repeated name, or without one the first offence, is what building fails with,
and a builder that failed fails in the same way however often it is tried again
(`build_refusal`).
-/

namespace FirstFollow

variable {definitions : List Definition} {e : Error} {store : Store}

/-- Why definitions are refused. -/
inductive Refused (definitions : List Definition) : Error → Prop where
  /-- The first name that stands behind an equal one. -/
  | repeated {front back : List String} {name : String}
      (h : definitions.map Definition.name = front ++ name :: back) (hfirst : front.Nodup)
      (hseen : name ∈ front) : Refused definitions (.duplicateDefinition name)
  /-- Among different names, the first offence. -/
  | offence {e : Error} (h : (definitions.map Definition.name).Nodup)
      (hfirst : firstOffence? (definitions.map Definition.name) definitions = some e) :
      Refused definitions e

/-! ## Repeated names -/

/-- Numbering names fails at the first one that has a number. -/
theorem numberNames_eq_error_iff {table : Table String NonterminalId} {names : List String} :
    numberNames table names = .error e ↔
      ∃ front name back, names = front ++ name :: back ∧ front.Nodup ∧
        (∀ seen ∈ front, seen ∉ table) ∧ (name ∈ front ∨ name ∈ table) ∧
        e = .duplicateDefinition name := by
  induction names generalizing table with
  | nil => simp [numberNames]
  | cons first rest ih =>
    unfold numberNames
    split
    · rename_i hfirst
      constructor
      · rintro ⟨⟩
        exact ⟨[], first, rest, rfl, .nil, List.forall_mem_nil _, .inr hfirst, rfl⟩
      · rintro ⟨_ | ⟨_, front⟩, name, back, hnames, -, habsent, -, rfl⟩
        · rw [(List.cons.inj hnames).1]
        · obtain ⟨rfl, -⟩ := List.cons.inj hnames
          exact absurd hfirst (habsent first List.mem_cons_self)
    -- With a number for the first name, the rest must avoid that name as well.
    · rename_i hfirst
      rw [ih]
      constructor
      · rintro ⟨front, name, back, rfl, hnodup, habsent, hseen, rfl⟩
        simp only [Table.mem_insert, not_or] at habsent hseen
        refine ⟨first :: front, name, back, rfl, ?_, ?_, ?_, rfl⟩
        · exact List.nodup_cons.2 ⟨fun hmem => (habsent first hmem).1 rfl, hnodup⟩
        · exact List.forall_mem_cons.2 ⟨hfirst, fun seen hmem => (habsent seen hmem).2⟩
        · rw [List.mem_cons]
          tauto
      · rintro ⟨_ | ⟨_, front⟩, name, back, hnames, hnodup, habsent, hseen, rfl⟩
        · obtain ⟨rfl, -⟩ := List.cons.inj hnames
          exact absurd (hseen.resolve_left List.not_mem_nil) hfirst
        · obtain ⟨rfl, rfl⟩ := List.cons.inj hnames
          obtain ⟨hnew, hnodup⟩ := List.nodup_cons.1 hnodup
          refine ⟨front, name, back, rfl, hnodup, fun seen hmem => ?_, ?_, rfl⟩
          · rw [Table.mem_insert, not_or]
            exact ⟨fun h => hnew (h ▸ hmem), habsent seen (List.mem_cons_of_mem _ hmem)⟩
          · rw [Table.mem_insert]
            rw [List.mem_cons] at hseen
            tauto

/-- Numbering names succeeds when they are new and differ from each other. -/
theorem exists_numberNames_iff {table : Table String NonterminalId} {names : List String} :
    (∃ numbers, numberNames table names = .ok numbers) ↔
      names.Nodup ∧ ∀ name ∈ names, name ∉ table := by
  induction names generalizing table with
  | nil => simp [numberNames]
  | cons first rest ih =>
    unfold numberNames
    split
    · rename_i hfirst
      exact iff_of_false nofun fun ⟨_, habsent⟩ => habsent first List.mem_cons_self hfirst
    · rename_i hfirst
      rw [ih, List.nodup_cons, List.forall_mem_cons]
      simp only [Table.mem_insert, not_or, forall_and]
      have hnew : (∀ name ∈ rest, name ≠ first) ↔ first ∉ rest :=
        ⟨fun h hmem => h first hmem rfl, fun h name hmem hname => h (hname ▸ hmem)⟩
      tauto

theorem ofDefinitions_eq_error_iff :
    Builder.ofDefinitions definitions = .error e ↔
      numberNames ∅ (definitions.map Definition.name) = .error e := by
  unfold Builder.ofDefinitions Identifiers.ofNames
  rw [map_eq_error, map_eq_error]

theorem ofDefinitions_eq_ok_iff {builder : Builder} :
    Builder.ofDefinitions definitions = .ok builder ↔
      ∃ names, numberNames ∅ (definitions.map Definition.name) = .ok names ∧
        builder = .ofIds definitions (.ofTable names) := by
  unfold Builder.ofDefinitions Identifiers.ofNames
  rw [map_eq_ok]
  constructor
  · rintro ⟨ids, hids, rfl⟩
    obtain ⟨names, hnames, rfl⟩ := map_eq_ok.1 hids
    exact ⟨names, hnames, rfl⟩
  · rintro ⟨names, hnames, rfl⟩
    exact ⟨_, map_eq_ok.2 ⟨names, hnames, rfl⟩, rfl⟩

/-! ## Builders that fail -/

namespace Builder

variable {builder later : Builder}

/-- A builder that cannot succeed: its names are numbered and its store is open, but its
    definitions have a first offence. -/
structure Stuck (builder : Builder) (e : Error) : Prop where
  opened : builder.store.frozen = false
  numbered : numberNames ∅ (builder.definitions.map Definition.name) = .ok builder.ids.names
  offence : firstOffence? (builder.definitions.map Definition.name) builder.definitions = some e

/-- The first failure of a builder's plan is the first offence of its definitions, whatever the
    number of its next helper is. -/
theorem firstFailure?_plan
    (h : numberNames ∅ (builder.definitions.map Definition.name) = .ok builder.ids.names) :
    firstFailure? builder.plan =
      firstOffence? (builder.definitions.map Definition.name) builder.definitions := by
  have hnumber := mem_names_iff (get?_of_numberNames h)
  exact firstFailure?_planAll hnumber fun d hd => (hnumber d.name).1 (List.mem_map_of_mem hd)

theorem Stuck.performAll (h : builder.Stuck e) :
    (builder.performAll builder.plan).2.result = .error e := by
  rw [result_performAll h.opened, firstFailure?_plan h.numbered, h.offence]
  rfl

/-- A stuck builder fails with its first offence. -/
theorem Stuck.result (h : builder.Stuck e) : builder.build.2.result = .error e :=
  (build_of_error h.performAll).1

/-- It is stuck afterwards too: a plan that fails freezes nothing. -/
theorem Stuck.build (h : builder.Stuck e) : builder.build.1.Stuck e := by
  obtain ⟨hdefinitions, hnames, hfrozen⟩ := builder.keeps_performAll builder.plan
  rw [(build_of_error h.performAll).2]
  refine ⟨hfrozen.trans h.opened, ?_, ?_⟩
  · rw [hdefinitions, hnames]
    exact h.numbered
  · rw [hdefinitions]
    exact h.offence

/-- The builder after some more tries, between which numbers may be handed out to others. -/
inductive Retried (builder : Builder) : Builder → Prop where
  | refl : Retried builder builder
  | build {later : Builder} (h : Retried builder later) : Retried builder later.build.1
  | next {later : Builder} (h : Retried builder later) :
      Retried builder { later with ids := later.ids.next.2 }

/-- A stuck builder is stuck for good. -/
theorem Stuck.retried (h : builder.Stuck e) (run : builder.Retried later) : later.Stuck e := by
  induction run with
  | refl => exact h
  | build _ ih => exact ih.build
  | next _ ih => exact ⟨ih.opened, ih.numbered, ih.offence⟩

/-- A new builder whose definitions have no offence succeeds. -/
theorem exists_build {names : Table String NonterminalId}
    (hnames : numberNames ∅ (definitions.map Definition.name) = .ok names)
    (h : firstOffence? (definitions.map Definition.name) definitions = none) :
    ∃ store, (Builder.ofIds definitions (.ofTable names)).build.2.result = .ok store := by
  let builder := Builder.ofIds definitions (.ofTable names)
  have hperform : (builder.performAll builder.plan).2.result = .ok () := by
    rw [result_performAll rfl, firstFailure?_plan hnames]
    exact congrArg unlessFailed h
  -- The plan was carried out as a whole, so the store is filled and freezing finds nothing.
  have performed := performed_performAll hperform
  rw [plan_ofTable hnames] at performed
  have filled := filled_of_performed hnames performed
  rw [(build_of_ok hperform).1, plan_ofTable hnames, filled.isWellFormed.freeze]
  exact ⟨_, rfl⟩

/-- A new builder whose definitions have an offence is stuck. -/
theorem stuck_of_offence {names : Table String NonterminalId}
    (hnames : numberNames ∅ (definitions.map Definition.name) = .ok names)
    (h : firstOffence? (definitions.map Definition.name) definitions = some e) :
    (Builder.ofIds definitions (.ofTable names)).Stuck e :=
  ⟨rfl, hnames, h⟩

/-- So is a new builder that fails. -/
theorem stuck_of_error (hbuilder : Builder.ofDefinitions definitions = .ok builder)
    (h : builder.build.2.result = .error e) : builder.Stuck e := by
  obtain ⟨names, hnames, rfl⟩ := ofDefinitions_eq_ok_iff.1 hbuilder
  cases hoffence : firstOffence? (definitions.map Definition.name) definitions with
  | none =>
    obtain ⟨store, hstore⟩ := exists_build hnames hoffence
    rw [hstore] at h
    cases h
  | some e' =>
    have hstuck := stuck_of_offence hnames hoffence
    obtain rfl : e' = e := by simpa [hstuck.result] using h
    exact hstuck

end Builder

/-! ## Building -/

theorem result_build (definitions : List Definition) :
    (build definitions).result =
      Builder.ofDefinitions definitions >>= fun builder => builder.build.2.result :=
  Logged.result_bind _ _

theorem nodup_iff_exists_numberNames :
    (definitions.map Definition.name).Nodup ↔
      ∃ names, numberNames ∅ (definitions.map Definition.name) = .ok names := by
  rw [exists_numberNames_iff]
  simp

/-- Definitions without a repeated name and without an offence are built. -/
theorem exists_build_iff :
    (∃ store, (build definitions).result = .ok store) ↔
      (definitions.map Definition.name).Nodup ∧
        firstOffence? (definitions.map Definition.name) definitions = none := by
  rw [result_build]
  constructor
  · intro ⟨store, h⟩
    obtain ⟨builder, hbuilder, hstore⟩ := bind_eq_ok.1 h
    obtain ⟨names, hnames, rfl⟩ := ofDefinitions_eq_ok_iff.1 hbuilder
    refine ⟨nodup_iff_exists_numberNames.2 ⟨names, hnames⟩, ?_⟩
    cases hoffence : firstOffence? (definitions.map Definition.name) definitions with
    | none => rfl
    | some e =>
      rw [(Builder.stuck_of_offence hnames hoffence).result] at hstore
      cases hstore
  · intro ⟨hnodup, hoffence⟩
    obtain ⟨names, hnames⟩ := nodup_iff_exists_numberNames.1 hnodup
    obtain ⟨store, hstore⟩ := Builder.exists_build hnames hoffence
    exact ⟨store, bind_eq_ok.2 ⟨_, ofDefinitions_eq_ok_iff.2 ⟨names, hnames, rfl⟩, hstore⟩⟩

theorem build_eq_error_iff : (build definitions).result = .error e ↔ Refused definitions e := by
  rw [result_build, bind_eq_error, ofDefinitions_eq_error_iff, numberNames_eq_error_iff]
  constructor
  · rintro (⟨front, name, back, hnames, hfirst, -, hseen, rfl⟩ | ⟨builder, hbuilder, hfailed⟩)
    · exact .repeated hnames hfirst (hseen.resolve_right (Table.not_mem_empty name))
    · have hstuck := Builder.stuck_of_error hbuilder hfailed
      obtain ⟨names, hnames, rfl⟩ := ofDefinitions_eq_ok_iff.1 hbuilder
      exact .offence (nodup_iff_exists_numberNames.2 ⟨names, hnames⟩) hstuck.offence
  · intro h
    cases h with
    | @repeated front back name hnames hfirst hseen =>
      exact .inl ⟨front, name, back, hnames, hfirst, fun seen _ => Table.not_mem_empty seen,
        .inl hseen, rfl⟩
    | offence hnodup hoffence =>
      obtain ⟨names, hnames⟩ := nodup_iff_exists_numberNames.1 hnodup
      have hfailed := (Builder.stuck_of_offence hnames hoffence).result
      exact .inr ⟨_, ofDefinitions_eq_ok_iff.2 ⟨names, hnames, rfl⟩, hfailed⟩

/-- No offence is a defect of a store. -/
theorem Refused.ne_defect (h : Refused definitions e) (d : Defect) : e ≠ .defect d := by
  rintro rfl
  cases h with
  | offence hnodup hfirst =>
    obtain ⟨definition, -, hnode⟩ := List.exists_of_findSome?_eq_some hfirst
    obtain ⟨node, -, hoffence⟩ := List.exists_of_findSome?_eq_some hnode
    cases node with
    | reference name =>
      rw [Rule.offence?] at hoffence
      split at hoffence <;> cases hoffence
    | _ => cases hoffence

/-- Building fails with what the definitions are refused for, and with nothing else; otherwise it
    gives a frozen store. A builder that failed keeps failing in the same way, and its store stays
    open. -/
theorem build_refusal (definitions : List Definition) :
    (∀ e, (build definitions).result = .error e ↔ Refused definitions e) ∧
    ((∃ store, (build definitions).result = .ok store ∧ store.frozen = true) ↔
      (definitions.map Definition.name).Nodup ∧
        firstOffence? (definitions.map Definition.name) definitions = none) ∧
    (∀ d, (build definitions).result ≠ .error (.defect d)) ∧
    ∀ builder e, Builder.ofDefinitions definitions = .ok builder →
      builder.build.2.result = .error e → ∀ later, builder.Retried later →
        later.store.frozen = false ∧ later.build.2.result = .error e := by
  refine ⟨fun e => build_eq_error_iff, ?_, fun d h => ?_, ?_⟩
  · rw [← exists_build_iff]
    exact exists_congr fun store => and_iff_left_of_imp frozen_of_build
  · exact (build_eq_error_iff.1 h).ne_defect d rfl
  · intro builder e hbuilder hfailed later run
    have hstuck := (Builder.stuck_of_error hbuilder hfailed).retried run
    exact ⟨hstuck.opened, hstuck.result⟩

/-- A plain value in a group, ahead of a difference whose operands are not looked at, and of a
    reference to no definition. -/
def offendingDefinitions : List Definition :=
  [⟨"a", .sequence [.reference "b", .repetition (.group (.foreign .none))]⟩,
    ⟨"b", .alternative (.exclude (.reference "c") (.character 'x')) [.reference "d"]⟩]

/-- A builder of `offendingDefinitions` that was tried twice already. -/
theorem build_refusal_offendingDefinitions :
    ∃ builder, Builder.ofDefinitions offendingDefinitions = .ok builder ∧
      builder.build.2.result = .error (.notRule .none) ∧
      builder.Retried builder.build.1.build.1 ∧
      builder.build.1.build.1.store.frozen = false ∧
      builder.build.1.build.1.build.2.result = .error (.notRule .none) := by
  obtain ⟨-, -, -, hretried⟩ := build_refusal offendingDefinitions
  have hbuilder : ∃ builder, Builder.ofDefinitions offendingDefinitions = .ok builder := by
    decide +kernel
  obtain ⟨builder, h⟩ := hbuilder
  have hfailed : builder.build.2.result = .error (.notRule .none) := by
    cases h
    rfl
  have run : builder.Retried builder.build.1.build.1 := .build (.build .refl)
  obtain ⟨hopen, hagain⟩ := hretried builder _ h hfailed _ run
  exact ⟨builder, h, hfailed, run, hopen, hagain⟩

end FirstFollow
