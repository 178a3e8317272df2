import FirstFollow.Proofs.Numbering
import FirstFollow.Proofs.Reading

/-!
# Lowered rules derive no more than rules match

When each nonterminal reads what the rule that it stands for matches, what a rule is lowered to
reads no more than the rule matches (`Rule.matches_of_reads`), and no step of a plan lets a
nonterminal read more (`sound_planAll`).
-/

namespace FirstFollow

/-- A string is what a nonterminal stands for: its rule matches the string. -/
def Meant (definitions : List Definition) (id : NonterminalId) (w : List Char) : Prop :=
  ∀ rule, StandsFor definitions id rule → Matches definitions rule w

/-- What a step adds stays within the meaning of the definitions: a production of a nonterminal
    reads only what the nonterminal stands for, and a helper is made for a node. -/
def Step.Sound (definitions : List Definition) : Step → Prop
  | .emit id production => ∀ w, Reads (Meant definitions) production w → Meant definitions id w
  | .helper id _ _ => ∃ node, Helps definitions id node
  | _ => True

variable {definitions : List Definition} {names : Table String NonterminalId}
  {definition : String} {rule whole : Rule} {id owner n : NonterminalId} {symbols : List Symbol}
  {w : List Char}

theorem meant_of_matches (h : StandsFor definitions id rule) (hw : Matches definitions rule w) :
    Meant definitions id w := by
  intro other hother
  rw [← h.unique hother]
  exact hw

theorem reads_spell {M : NonterminalId → List Char → Prop} :
    Reads M (spell symbols) w ↔ Reads M symbols w := by
  cases symbols with
  | nil => exact Iff.rfl
  | cons s rest => exact Iff.rfl

/-- A production is sound when all that it reads is matched by the rule of its nonterminal. -/
theorem sound_emit (howner : StandsFor definitions owner whole)
    (h : ∀ w, Reads (Meant definitions) symbols w → Matches definitions whole w) :
    Step.Sound definitions (.emit owner (spell symbols)) :=
  fun w hw => meant_of_matches howner (h w (reads_spell.1 hw))

theorem sound_emit_empty (howner : StandsFor definitions owner whole)
    (h : Matches definitions whole []) : Step.Sound definitions (.emit owner [.empty]) := by
  intro w hw
  obtain rfl : w = [] := hw
  exact meant_of_matches howner h

theorem matches_of_reads_helper (hhelps : Helps definitions n rule)
    (h : Reads (Meant definitions) [.nonterminal n] w) : Matches definitions rule w :=
  reads_nonterminal.1 h rule (.inr hhelps)

/-- Names have the numbers of their definitions. -/
def Resolves (definitions : List Definition) (names : Table String NonterminalId) : Prop :=
  ∀ name id, names.get? name = some id →
    ∃ d ∈ definitions, d.name = name ∧ StandsFor definitions id d.rule

namespace Rule

/-! ## What lowered rules read -/

mutual

/-- What a rule is lowered to reads only what the rule matches. -/
theorem matches_of_reads (hnames : Resolves definitions names) :
    ∀ (rule : Rule) (n : NonterminalId) (w : List Char),
      Numbered (Helps definitions) rule.sugar n →
      (∀ step ∈ (rule.lower ⟨names, definition⟩ n).steps, step.Succeeds) →
      Reads (Meant definitions) (rule.lower ⟨names, definition⟩ n).symbols w →
      Matches definitions rule w
  | .character c, _, w, _, _, h => by
    obtain rfl : w = [c] := reads_terminal.1 h
    exact .character c
  | .reference name, n, w, _, hsucceeds, h => by
    cases hget : names.get? name with
    | none =>
      simp only [lower, hget] at hsucceeds
      exact (hsucceeds _ List.mem_cons_self).elim
    | some id =>
      simp only [lower, hget] at h
      obtain ⟨d, hd, rfl, hstands⟩ := hnames name id hget
      exact .reference hd (reads_nonterminal.1 h d.rule hstands)
  | .strayReference _, _, _, _, hsucceeds, _ => (hsucceeds _ List.mem_cons_self).elim
  | .sequence rules, n, w, hnumbered, hsucceeds, h =>
    matchesAll_of_reads hnames rules n w hnumbered hsucceeds h
  | .alternative _ _, _, _, hnumbered, _, h => matches_of_reads_helper hnumbered.1 h
  | .repetition _, _, _, hnumbered, _, h => matches_of_reads_helper hnumbered.1 h
  | .option _, _, _, hnumbered, _, h => matches_of_reads_helper hnumbered.1 h
  | .group _, _, _, hnumbered, _, h => matches_of_reads_helper hnumbered.1 h
  | .exclude _ _, _, _, _, hsucceeds, _ => (hsucceeds _ List.mem_cons_self).elim
  | .foreign _, _, _, _, hsucceeds, _ => (hsucceeds _ List.mem_cons_self).elim

theorem matchesAll_of_reads (hnames : Resolves definitions names) :
    ∀ (rules : List Rule) (n : NonterminalId) (w : List Char),
      Numbered (Helps definitions) (sugarAll rules) n →
      (∀ step ∈ (lowerAll ⟨names, definition⟩ rules n).steps, step.Succeeds) →
      Reads (Meant definitions) (lowerAll ⟨names, definition⟩ rules n).symbols w →
      Matches definitions (.sequence rules) w
  | [], _, w, _, _, h => by
    obtain rfl : w = [] := h
    exact .nil
  | rule :: rest, n, w, hnumbered, hsucceeds, h => by
    simp only [lowerAll, List.forall_mem_append] at hsucceeds h
    obtain ⟨u, v, rfl, hu, hv⟩ := reads_append.1 h
    obtain ⟨hrule, hrest⟩ := numbered_append.1 hnumbered
    rw [← next_lower] at hrest
    exact .cons (matches_of_reads hnames rule n u hrule hsucceeds.1 hu)
      (matchesAll_of_reads hnames rest _ v hrest hsucceeds.2 hv)

end

/-! ## The steps of rules -/

mutual

/-- The steps of a rule are sound. Its helpers stand for its nodes, so that each production is
    checked against the node that it was made for. -/
theorem sound_lower (hnames : Resolves definitions names) :
    ∀ (rule : Rule) (n : NonterminalId), Numbered (Helps definitions) rule.sugar n →
      (∀ step ∈ (rule.lower ⟨names, definition⟩ n).steps, step.Succeeds) →
      ∀ step ∈ (rule.lower ⟨names, definition⟩ n).steps, step.Sound definitions
  | .character _, _, _, _ => List.forall_mem_nil _
  | .reference name, _, _, _ => by
    simp only [lower]
    split
    · exact List.forall_mem_nil _
    · exact List.forall_mem_cons.2 ⟨trivial, List.forall_mem_nil _⟩
  | .strayReference _, _, _, hsucceeds => (hsucceeds _ List.mem_cons_self).elim
  | .sequence rules, n, hnumbered, hsucceeds => sound_lowerAll hnames rules n hnumbered hsucceeds
  | .alternative first rest, n, hnumbered, hsucceeds => by
    obtain ⟨hhelps, hnumbered⟩ := hnumbered
    obtain ⟨hfirst, hrest⟩ := numbered_append.1 hnumbered
    rw [← next_lower ⟨names, definition⟩] at hrest
    simp only [lower, List.cons_append, List.forall_mem_cons, List.forall_mem_append]
      at hsucceeds ⊢
    obtain ⟨-, hhead, -, htail⟩ := hsucceeds
    have hchoice : ∀ r ∈ first :: rest, ∀ w, Matches definitions r w →
        Matches definitions (.alternative first rest) w := fun r hr w hw => .choice hr hw
    refine ⟨⟨_, hhelps⟩, sound_lower hnames first _ hfirst hhead, ?_, ?_⟩
    · refine sound_emit (.inr hhelps) fun w hw => ?_
      exact hchoice first List.mem_cons_self w (matches_of_reads hnames first _ w hfirst hhead hw)
    · exact sound_emitAll hnames rest _ (.inr hhelps)
        (fun r hr => hchoice r (List.mem_cons_of_mem _ hr)) hrest htail
  | .repetition rule, n, hnumbered, hsucceeds => by
    obtain ⟨hhelps, hnumbered⟩ := hnumbered
    simp only [lower, List.cons_append, List.forall_mem_cons, List.forall_mem_append]
      at hsucceeds ⊢
    obtain ⟨-, hbody, -⟩ := hsucceeds
    refine ⟨⟨_, hhelps⟩, sound_lower hnames rule _ hnumbered hbody, ?_, ?_, List.forall_mem_nil _⟩
    -- The helper at the end of its own production reads the rest of the repetition.
    · intro w hw
      obtain ⟨u, v, rfl, hu, hv⟩ := reads_append.1 hw
      have hrule := matches_of_reads hnames rule _ u hnumbered hbody hu
      exact meant_of_matches (.inr hhelps) (.again hrule (matches_of_reads_helper hhelps hv))
    · exact sound_emit_empty (.inr hhelps) (.stop rule)
  | .option rule, n, hnumbered, hsucceeds => by
    obtain ⟨hhelps, hnumbered⟩ := hnumbered
    simp only [lower, List.cons_append, List.forall_mem_cons, List.forall_mem_append]
      at hsucceeds ⊢
    obtain ⟨-, hbody, -⟩ := hsucceeds
    refine ⟨⟨_, hhelps⟩, sound_lower hnames rule _ hnumbered hbody, ?_, ?_⟩
    · refine sound_emit (.inr hhelps) fun w hw => ?_
      exact .present (matches_of_reads hnames rule _ w hnumbered hbody hw)
    · split
      · exact List.forall_mem_nil _
      · have habsent := sound_emit_empty (.inr hhelps) (.absent rule)
        exact List.forall_mem_cons.2 ⟨habsent, List.forall_mem_nil _⟩
  | .group rule, n, hnumbered, hsucceeds => by
    obtain ⟨hhelps, hnumbered⟩ := hnumbered
    simp only [lower, List.cons_append, List.forall_mem_cons, List.forall_mem_append]
      at hsucceeds ⊢
    obtain ⟨-, hbody, -⟩ := hsucceeds
    refine ⟨⟨_, hhelps⟩, sound_lower hnames rule _ hnumbered hbody, ?_, List.forall_mem_nil _⟩
    refine sound_emit (.inr hhelps) fun w hw => ?_
    exact .group (matches_of_reads hnames rule _ w hnumbered hbody hw)
  | .exclude _ _, _, _, hsucceeds => (hsucceeds _ List.mem_cons_self).elim
  | .foreign _, _, _, hsucceeds => (hsucceeds _ List.mem_cons_self).elim

theorem sound_lowerAll (hnames : Resolves definitions names) :
    ∀ (rules : List Rule) (n : NonterminalId), Numbered (Helps definitions) (sugarAll rules) n →
      (∀ step ∈ (lowerAll ⟨names, definition⟩ rules n).steps, step.Succeeds) →
      ∀ step ∈ (lowerAll ⟨names, definition⟩ rules n).steps, step.Sound definitions
  | [], _, _, _ => List.forall_mem_nil _
  | rule :: rest, n, hnumbered, hsucceeds => by
    simp only [lowerAll, List.forall_mem_append] at hsucceeds ⊢
    obtain ⟨hrule, hrest⟩ := numbered_append.1 hnumbered
    rw [← next_lower] at hrest
    exact ⟨sound_lower hnames rule n hrule hsucceeds.1,
      sound_lowerAll hnames rest _ hrest hsucceeds.2⟩

theorem sound_emitAll (hnames : Resolves definitions names) :
    ∀ (rules : List Rule) (n : NonterminalId) {owner : NonterminalId} {whole : Rule},
      StandsFor definitions owner whole →
      (∀ r ∈ rules, ∀ w, Matches definitions r w → Matches definitions whole w) →
      Numbered (Helps definitions) (sugarAll rules) n →
      (∀ step ∈ (emitAll ⟨names, definition⟩ owner rules n).1, step.Succeeds) →
      ∀ step ∈ (emitAll ⟨names, definition⟩ owner rules n).1, step.Sound definitions
  | [], _, _, _, _, _, _, _ => List.forall_mem_nil _
  | rule :: rest, n, _, _, howner, hchoices, hnumbered, hsucceeds => by
    simp only [emitAll, List.forall_mem_cons, List.forall_mem_append] at hsucceeds ⊢
    obtain ⟨hrule, hrest⟩ := numbered_append.1 hnumbered
    rw [← next_lower] at hrest
    obtain ⟨hhere, hlater⟩ := List.forall_mem_cons.1 hchoices
    refine ⟨sound_lower hnames rule n hrule hsucceeds.1, sound_emit howner fun w hw => ?_,
      sound_emitAll hnames rest _ howner hlater hrest hsucceeds.2.2⟩
    exact hhere w (matches_of_reads hnames rule n w hrule hsucceeds.1 hw)

end

end Rule

/-- The steps of a plan are sound. -/
theorem sound_planAll (hnames : Resolves definitions names) {ds : List Definition}
    (hstands : ∀ d ∈ ds, ∀ id, names.get? d.name = some id → StandsFor definitions id d.rule)
    (hnumbered : Numbered (Helps definitions) (helperNodes ds) n)
    (hsucceeds : ∀ step ∈ planAll names ds n, step.Succeeds) :
    ∀ step ∈ planAll names ds n, step.Sound definitions := by
  induction ds generalizing n with
  | nil => exact List.forall_mem_nil _
  | cons first rest ih =>
    obtain ⟨id, hget⟩ := exists_number hsucceeds
    obtain ⟨hfirst, hrest⟩ := numbered_append.1 hnumbered
    obtain ⟨hstand, hlater⟩ := List.forall_mem_cons.1 hstands
    rw [planAll_cons hget, List.cons_append, List.forall_mem_cons, List.forall_mem_append]
      at hsucceeds ⊢
    refine ⟨trivial, ?_, ih hlater hrest hsucceeds.2.2⟩
    exact Rule.sound_emitAll hnames _ n (hstand id hget)
      (fun r hr w hw => matches_of_mem_choices hr hw) hfirst hsucceeds.2.1

end FirstFollow
