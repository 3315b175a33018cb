import SasLayout.Proofs.KeywordTokens
import SasLayout.Proofs.LocatedBlocks

set_option autoImplicit false

/-!
The limit on rejected keywords is a second guard. Every keyword that a search passes takes it
further in its direction, so a text with fewer bytes than the limit is searched to its end first,
and the loops around the searches end for the same reason. The two loops over nested macro
definitions have no limit; they end on every text, and their count never falls below zero.
-/
namespace SasLayout

/-- A loop that passes through these states, round by round, ends with this answer. -/
inductive Rounds {σ α : Type} (round : σ → σ ⊕ α) : σ → List σ → α → Prop where
  | done {state : σ} {answer : α} (ends : round state = .inr answer) :
      Rounds round state [state] answer
  | more {state next : σ} {passed : List σ} {answer : α} (goes : round state = .inl next)
      (onward : Rounds round next passed answer) : Rounds round state (state :: passed) answer

namespace Scanner

variable {sc : Scanner} {pattern : Pattern} {anchor : Nat} {towards : Direction} {place : Extent}
  {b : Block}

/-- The bytes that a search from `anchor` has before it. -/
def room (sc : Scanner) (anchor : Nat) : Direction → Nat
  | .forward => sc.text.size - anchor
  | .backward => min anchor sc.text.size

theorem room_le (sc : Scanner) (anchor : Nat) (towards : Direction) :
    sc.room anchor towards ≤ sc.text.size := by
  cases towards with
  | forward => exact Nat.sub_le _ _
  | backward => exact Nat.min_le_right _ _

/-- Behind a candidate there is less room than before it. -/
theorem room_candidate (ends : pattern.EndsAscii)
    (found : sc.candidate? pattern anchor towards = some place) :
    sc.room (place.beyond towards) towards < sc.room anchor towards := by
  cases towards with
  | forward =>
    have bounds := Text.firstMatch_bounds found
    obtain ⟨positive, within, -⟩ := ends _ _ _ (Text.firstMatch_matches found).here
    simp only [room, Extent.beyond]
    omega
  | backward =>
    have before := Text.searchBackward_stop_le found
    obtain ⟨positive, within, -⟩ := ends _ _ _ (Text.searchBackward_matches found).here
    simp only [room, Extent.beyond]
    omega

theorem searchFrom_ne_gaveUp (ends : pattern.EndsAscii) {retries : Nat}
    (enough : sc.room anchor towards < retries) (events : Array Event) (limit : Nat) :
    (sc.searchFrom pattern towards retries anchor events).value ≠ .gaveUp limit := by
  fun_induction searchFrom sc pattern towards retries anchor events with
  | case1 anchor events => exact absurd enough (Nat.not_lt_zero _)
  | case2 retries anchor events absent =>
    intro same
    cases same
  | case3 retries anchor events place here counts =>
    intro same
    cases same
  | case4 retries anchor events place here why rejected ih =>
    have less := room_candidate ends here
    exact ih (by omega)

theorem room_search (ends : pattern.EndsAscii)
    (found : (sc.search pattern anchor towards).value = .found place) :
    sc.room (place.beyond towards) towards < sc.room anchor towards := by
  have runs : ∀ retries anchor events,
      (sc.searchFrom pattern towards retries anchor events).value = .found place →
        sc.room (place.beyond towards) towards < sc.room anchor towards := by
    intro retries anchor events found
    fun_induction searchFrom sc pattern towards retries anchor events with
    | case1 anchor events => cases found
    | case2 retries anchor events absent => cases found
    | case3 retries anchor events m here counts =>
      cases found
      exact room_candidate ends here
    | case4 retries anchor events m here why rejected ih =>
      exact Nat.lt_trans (ih found) (room_candidate ends here)
  exact runs _ _ _ found

/-- The patterns that blocks are searched with. -/
def patterns (sc : Scanner) : List Pattern :=
  [sc.keywords, Pattern.stepCloser sc.settings.quitCloses, Pattern.macroKeyword]

theorem patterns_end : ∀ pattern ∈ sc.patterns, pattern.EndsAscii := by
  intro pattern listed
  simp only [patterns, List.mem_cons, List.not_mem_nil, or_false] at listed
  rcases listed with rfl | rfl | rfl
  · exact Pattern.blockKeyword_ends _
  · exact Pattern.stepCloser_ends _
  · exact Pattern.macroKeyword_ends

section Short

variable (short : sc.text.size < sc.settings.limits.retries)
include short

theorem search_ne_gaveUp (ends : pattern.EndsAscii) (anchor : Nat) (towards : Direction)
    (limit : Nat) : (sc.search pattern anchor towards).value ≠ .gaveUp limit :=
  searchFrom_ne_gaveUp ends (Nat.lt_of_le_of_lt (sc.room_le anchor towards) short) _ _

/-! ### Ends of blocks -/

theorem stepEnd_ok (anchor : Nat) : ∃ stop, (sc.stepEnd anchor).value = .ok stop := by
  rw [stepEnd, Logged.value_bind]
  cases found : (sc.search (Pattern.stepCloser sc.settings.quitCloses) anchor .forward).value with
  | found place => exact ⟨_, rfl⟩
  | absent => exact ⟨_, rfl⟩
  | gaveUp limit => exact absurd found (search_ne_gaveUp short (Pattern.stepCloser_ends _) _ _ _)

theorem macroEndFrom_ok (name : Text) (nested anchor : Nat) :
    ∃ stop, (sc.macroEndFrom name nested anchor #[]).value = .ok stop := by
  induction bytes : sc.room anchor .forward using Nat.strongRecOn generalizing nested anchor with
  | ind left ih =>
    rw [macroEndFrom_value]
    cases found : (sc.search Pattern.macroKeyword anchor .forward).value with
    | absent => exact ⟨_, rfl⟩
    | gaveUp limit => exact absurd found (search_ne_gaveUp short Pattern.macroKeyword_ends _ _ _)
    | found place =>
      have less := room_search Pattern.macroKeyword_ends found
      simp only
      split
      · cases nested with
        | zero => exact ⟨_, rfl⟩
        | succ outer => exact ih _ (bytes ▸ less) outer place.stop rfl
      · exact ih _ (bytes ▸ less) (nested + 1) place.stop rfl

theorem endOfBlock_ok (b : Block) : ∃ stop, (sc.endOfBlock b).value = .ok stop := by
  unfold endOfBlock
  split
  · exact stepEnd_ok short _
  · exact stepEnd_ok short _
  · exact macroEndFrom_ok short _ _ _
  · exact ⟨_, rfl⟩

theorem withEnd_ok (b : Block) : ∃ whole, (sc.withEnd b).value = .ok whole := by
  unfold withEnd
  split
  · obtain ⟨stop, ended⟩ := endOfBlock_ok short b
    rw [Logged.value_map, ended]
    exact ⟨_, rfl⟩
  · exact ⟨b, rfl⟩

/-! ### Blocks before and after an offset -/

theorem stopAt_ok (place : Extent) : ∃ found, (sc.stopAt place).value = .ok found := by
  rw [stopAt, Logged.value_bind]
  split
  · obtain ⟨whole, ended⟩ := withEnd_ok short (sc.blockAt place).value
    rw [Logged.value_bind, ended]
    exact ⟨_, rfl⟩
  · split
    · exact ⟨_, rfl⟩
    · exact ⟨_, rfl⟩

theorem stopFrom_ok (wanted : Extent → Bool) (offset : Nat) {retries : Nat}
    (enough : sc.room anchor towards < retries) (events : Array Event) :
    ∃ found, (sc.stopFrom towards wanted offset retries anchor events).value = .ok found := by
  induction retries generalizing anchor events with
  | zero => exact absurd enough (Nat.not_lt_zero _)
  | succ retries ih =>
    rw [stopFrom]
    cases ended : (sc.search sc.keywords anchor towards).value with
    | absent => exact ⟨_, rfl⟩
    | gaveUp limit =>
      exact absurd ended (search_ne_gaveUp short (Pattern.blockKeyword_ends _) _ _ _)
    | found place =>
      have less := room_search (Pattern.blockKeyword_ends _) ended
      simp only
      split
      · obtain ⟨found, stops⟩ := stopAt_ok short place
        rw [stops]
        cases found with
        | none => exact ih (by omega) _
        | some b => exact ⟨_, rfl⟩
      · exact ih (by omega) _

end Short

/-! ### Keywords that lead back -/

/-- A keyword before `anchor` that leads further back leaves less room before it. -/
theorem room_blockBefore (leads : (sc.leadsTo? (sc.blockBefore anchor).value).isSome) :
    sc.room (sc.blockBefore anchor).value.start .backward < sc.room anchor .backward := by
  rw [blockBefore, Logged.value_bind] at leads ⊢
  cases found : (sc.search sc.keywords anchor .backward).value with
  | found place =>
    simp only [blockAt_start]
    exact room_search (Pattern.blockKeyword_ends _) found
  | absent =>
    rw [found] at leads
    cases leads
  | gaveUp limit =>
    rw [found] at leads
    cases leads

/-- The opener of a step is found in as many rounds as there are bytes before its closer. -/
theorem stepOpenerFrom_more (closer : Nat) {retries : Nat}
    (enough : sc.room anchor .backward < retries) (more : Nat) (events : Array Event) :
    sc.stepOpenerFrom closer (retries + more) anchor events =
      sc.stepOpenerFrom closer retries anchor events := by
  induction retries generalizing anchor events with
  | zero => exact absurd enough (Nat.not_lt_zero _)
  | succ retries ih =>
    have less (leads : (sc.leadsTo? (sc.blockBefore anchor).value).isSome) :
        sc.room (sc.blockBefore anchor).value.start .backward < retries := by
      have := room_blockBefore leads
      omega
    rw [Nat.add_right_comm, stepOpenerFrom, stepOpenerFrom]
    cases kind : (sc.blockBefore anchor).value.kind with
    | dataAssignment => exact ih (less (by rw [leadsTo?, kind]; rfl)) _
    | closingRun => exact ih (less (by rw [leadsTo?, kind]; rfl)) _
    | _ => rfl

/-- The opener of a step leads no further. -/
theorem leadsTo?_stepOpenerFrom (closer retries anchor : Nat) (events : Array Event) :
    sc.leadsTo? (sc.stepOpenerFrom closer retries anchor events).value = none := by
  induction retries generalizing anchor events with
  | zero => rfl
  | succ retries ih =>
    rw [stepOpenerFrom]
    cases kind : (sc.blockBefore anchor).value.kind with
    | dataAssignment => exact ih _ _
    | closingRun => exact ih _ _
    | notFound => rfl
    | closingMacro => rfl
    | _ =>
      simp only [leadsTo?]
      split <;> simp_all

/-- The opener of a macro definition leads no further or leaves less room before it. -/
theorem room_macroOpenerFrom (closer nested anchor : Nat) :
    sc.leadsTo? (sc.macroOpenerFrom closer nested anchor #[]).value = none ∨
      sc.room (sc.macroOpenerFrom closer nested anchor #[]).value.start .backward <
        sc.room anchor .backward := by
  induction bytes : sc.room anchor .backward using Nat.strongRecOn generalizing nested anchor with
  | ind left ih =>
    rw [macroOpenerFrom_value]
    cases found : (sc.search Pattern.macroKeyword anchor .backward).value with
    | absent => exact Or.inl rfl
    | gaveUp limit => exact Or.inl rfl
    | found place =>
      have less : sc.room place.start .backward < left :=
        bytes ▸ room_search Pattern.macroKeyword_ends found
      have further (inner : Nat) :=
        (ih _ less inner place.start rfl).imp_right (Nat.lt_trans · less)
      simp only
      split
      · exact further (nested + 1)
      · cases nested with
        | zero =>
          rw [blockAt_start]
          exact Or.inr less
        | succ inner => exact further inner

/-- Keywords are followed back in one round more than there are bytes before the first. -/
theorem settle_more (offset : Nat) {retries : Nat}
    (enough : sc.room b.start .backward < retries) (more : Nat) (events : Array Event) :
    sc.settle offset (retries + 1 + more) b events = sc.settle offset (retries + 1) b events := by
  induction retries generalizing b events with
  | zero => exact absurd enough (Nat.not_lt_zero _)
  | succ retries ih =>
    rw [Nat.add_right_comm, settle, settle]
    cases leads : sc.leadsTo? b with
    | none => rfl
    | some next =>
      -- Either the next block leads no further, or the measure falls.
      have falls : sc.leadsTo? next.value = none ∨
          sc.room next.value.start .backward < sc.room b.start .backward := by
        unfold leadsTo? at leads
        split at leads
        · cases leads
          rw [or_iff_not_imp_left, ← ne_eq, Option.ne_none_iff_isSome]
          exact room_blockBefore
        · cases leads
          exact Or.inl (leadsTo?_stepOpenerFrom _ _ _ _)
        · cases leads
          exact room_macroOpenerFrom _ _ _
        · cases leads
      simp only
      rcases falls with rests | less
      · rw [Nat.add_right_comm, settle, settle, rests]
      · exact ih (by omega) _

/-! ### Loops over nested definitions -/

/-- The state of a loop over nested macro definitions: how many are open, and where the search for
the next keyword goes on. -/
structure Nest where
  depth : Int
  anchor : Nat

/-- One round of the search for the end of a macro definition. -/
def macroEndRound (sc : Scanner) (state : Nest) : Nest ⊕ Except ScanError Nat :=
  match (sc.search Pattern.macroKeyword state.anchor .forward).value with
  | .absent => .inr (.ok sc.text.size)
  | .gaveUp offset => .inr (.error (.retryLimit offset sc.settings.limits.retries))
  | .found place =>
    if sc.isMacroEnd place then
      if state.depth - 1 = 0 then .inr (.ok place.stop)
      else .inl ⟨state.depth - 1, place.stop⟩
    else .inl ⟨state.depth + 1, place.stop⟩

/-- One round of the search for the opener of the macro definition that is closed at `closer`. -/
def macroOpenerRound (sc : Scanner) (closer : Nat) (state : Nest) : Nest ⊕ Block :=
  match (sc.search Pattern.macroKeyword state.anchor .backward).value with
  | .absent => .inr (.ambiguousAt closer)
  | .gaveUp _ => .inr (.ambiguousAt closer)
  | .found place =>
    if sc.isMacroEnd place then .inl ⟨state.depth + 1, place.start⟩
    else if state.depth - 1 = 0 then .inr (sc.blockAt place).value
    else .inl ⟨state.depth - 1, place.start⟩

/-- The loop ends with this answer, and whenever a round begins at least one definition is open, so
the count is never lowered below zero. -/
def Unwinds {α : Type} (round : Nest → Nest ⊕ α) (state : Nest) (answer : α) : Prop :=
  ∃ passed, Rounds round state passed answer ∧ ∀ state ∈ passed, 1 ≤ state.depth

theorem unwinds_done {α : Type} {round : Nest → Nest ⊕ α} {state : Nest} {answer : α}
    (ends : round state = .inr answer) (nested : 1 ≤ state.depth) : Unwinds round state answer :=
  ⟨[state], .done ends, by simpa using nested⟩

theorem unwinds_more {α : Type} {round : Nest → Nest ⊕ α} {state next : Nest} {answer : α}
    (goes : round state = .inl next) (nested : 1 ≤ state.depth)
    (onward : Unwinds round next answer) : Unwinds round state answer := by
  obtain ⟨passed, rounds, positive⟩ := onward
  exact ⟨state :: passed, .more goes rounds, List.forall_mem_cons.mpr ⟨nested, positive⟩⟩

theorem macroEndFrom_unwinds (name : Text) (nested anchor : Nat) :
    Unwinds sc.macroEndRound ⟨nested + 1, anchor⟩
      (sc.macroEndFrom name nested anchor #[]).value := by
  induction bytes : sc.room anchor .forward using Nat.strongRecOn generalizing nested anchor with
  | ind left ih =>
    have positive : (1 : Int) ≤ nested + 1 := by omega
    rw [macroEndFrom_value]
    cases found : (sc.search Pattern.macroKeyword anchor .forward).value with
    | absent => exact unwinds_done (by rw [macroEndRound, found]) positive
    | gaveUp limit => exact unwinds_done (by rw [macroEndRound, found]) positive
    | found place =>
      have less : sc.room place.stop .forward < left :=
        bytes ▸ room_search Pattern.macroKeyword_ends found
      by_cases closes : sc.isMacroEnd place = true
      · simp only [closes, if_true]
        cases nested with
        | zero => exact unwinds_done (by simp [macroEndRound, found, closes]) positive
        | succ outer =>
          refine unwinds_more ?_ positive (ih _ less outer place.stop rfl)
          simp only [macroEndRound, found, closes, if_true]
          rw [if_neg (by omega), Int.add_sub_cancel, Int.natCast_succ]
      · simp only [closes]
        refine unwinds_more ?_ positive (ih _ less (nested + 1) place.stop rfl)
        simp [macroEndRound, found, closes]

theorem macroOpenerFrom_unwinds (closer nested anchor : Nat) :
    Unwinds (sc.macroOpenerRound closer) ⟨nested + 1, anchor⟩
      (sc.macroOpenerFrom closer nested anchor #[]).value := by
  induction bytes : sc.room anchor .backward using Nat.strongRecOn generalizing nested anchor with
  | ind left ih =>
    have positive : (1 : Int) ≤ nested + 1 := by omega
    rw [macroOpenerFrom_value]
    cases found : (sc.search Pattern.macroKeyword anchor .backward).value with
    | absent => exact unwinds_done (by rw [macroOpenerRound, found]) positive
    | gaveUp limit => exact unwinds_done (by rw [macroOpenerRound, found]) positive
    | found place =>
      have less : sc.room place.start .backward < left :=
        bytes ▸ room_search Pattern.macroKeyword_ends found
      by_cases closes : sc.isMacroEnd place = true
      · simp only [closes, if_true]
        refine unwinds_more ?_ positive (ih _ less (nested + 1) place.start rfl)
        simp [macroOpenerRound, found, closes]
      · simp only [closes]
        cases nested with
        | zero => exact unwinds_done (by simp [macroOpenerRound, found, closes]) positive
        | succ inner =>
          refine unwinds_more ?_ positive (ih _ less inner place.start rfl)
          simp only [macroOpenerRound, found]
          rw [if_neg closes, if_neg (by omega), Int.add_sub_cancel, Int.natCast_succ]

/-! ### The limit as a second guard -/

/-- No search of the scanner ends at its limit, and no loop around one does: every question about
blocks has an answer, and a larger limit would not change where keywords lead. -/
structure Unlimited (sc : Scanner) : Prop where
  search : ∀ pattern ∈ sc.patterns, ∀ anchor towards limit,
    (sc.search pattern anchor towards).value ≠ .gaveUp limit
  endOfBlock : ∀ b, ∃ stop, (sc.endOfBlock b).value = .ok stop
  locate : ∀ offset ≤ sc.text.size, ∃ b, (sc.locate offset).value = .ok b
  nextBlock : ∀ offset ≤ sc.text.size, ∃ found, (sc.nextBlock offset).value = .ok found
  previousBlock : ∀ offset ≤ sc.text.size, ∃ found, (sc.previousBlock offset).value = .ok found
  openerOfStep : ∀ closer more, sc.openerOfStep closer =
    sc.stepOpenerFrom closer (sc.settings.limits.retries + more) closer #[]
  settle : ∀ offset b more events, b.start < sc.text.size →
    sc.settle offset sc.settings.limits.retries b events =
      sc.settle offset (sc.settings.limits.retries + more) b events

theorem unlimited_of_short (joined : sc.text.Joined)
    (short : sc.text.size < sc.settings.limits.retries) : sc.Unlimited where
  search pattern listed anchor towards limit :=
    search_ne_gaveUp short (patterns_end pattern listed) anchor towards limit
  endOfBlock := endOfBlock_ok short
  locate offset within := by
    obtain ⟨header, -, -, located⟩ := locate_within joined within
    rw [located]
    exact withEnd_ok short header
  nextBlock offset within := by
    rw [Scanner.nextBlock, Source.checkOffset_within within]
    exact stopFrom_ok short _ _ (Nat.lt_of_le_of_lt (sc.room_le _ _) short) _
  previousBlock offset within := by
    rw [Scanner.previousBlock, Source.checkOffset_within within]
    exact stopFrom_ok short _ _ (Nat.lt_of_le_of_lt (sc.room_le _ _) short) _
  openerOfStep closer more :=
    (stepOpenerFrom_more closer (Nat.lt_of_le_of_lt (sc.room_le _ _) short) more #[]).symm
  settle offset b more events inside := by
    obtain ⟨retries, same⟩ := Nat.exists_eq_add_of_le' sc.settings.limits.retries_pos
    have enough : sc.room b.start .backward < retries := by
      simp only [room]
      omega
    rw [same]
    exact (settle_more offset enough more events).symm

/-- The limit on rejected keywords is only a second guard. In a text with fewer bytes than the
limit it is never met. In every text the loops over nested macro definitions end without a limit of
their own, and their count stays positive until the last round. -/
theorem limit_unmet (lexical : LexicalSettings) (scanning : ScanSettings) (s : String) :
    let sc : Scanner := ⟨.ofText lexical (.ofString s), scanning⟩
    (sc.text.size < sc.settings.limits.retries → sc.Unlimited) ∧
      (∀ name anchor, Unwinds sc.macroEndRound ⟨1, anchor⟩
        (sc.macroEndFrom name 0 anchor #[]).value) ∧
      ∀ closer, Unwinds (sc.macroOpenerRound closer) ⟨1, closer⟩
        (sc.openerOfMacro closer).value := by
  intro sc
  refine ⟨unlimited_of_short (Text.joined_ofString s), fun name anchor => ?_, fun closer => ?_⟩
  · exact macroEndFrom_unwinds name 0 anchor
  · exact macroOpenerFrom_unwinds closer 0 closer

/-- A rejected keyword, a nested definition and a closer without an opener. -/
theorem limit_unmet_nested :
    let sc : Scanner :=
      ⟨.ofText {} (.ofString "%macro a; x %mend; %macro b; %mend; %mend; %mend;"), {}⟩
    sc.text.size < sc.settings.limits.retries ∧ sc.Unlimited := by
  intro sc
  have short : sc.text.size < sc.settings.limits.retries := by decide +kernel
  exact ⟨short, (limit_unmet {} {} "%macro a; x %mend; %macro b; %mend; %mend; %mend;").1 short⟩

end Scanner
end SasLayout
