import SasLayout.Proofs.Lines
import SasLayout.Proofs.PlainCode

set_option autoImplicit false

/-!
The statements of a text lie apart and leave out nothing but blanks. Around every offset lies a
stretch of text from behind one semicolon of the code to behind the next one; the ends of the text
bound the first and the last. Two stretches are the same or have no byte in common, and a statement
is a stretch without the blanks that it begins with.
-/
namespace SasLayout

namespace Source

variable {src : Source} {start stop start' stop' offset : Nat}

/-! ### Stretches between semicolons -/

/-- The text from behind one semicolon of the code to behind the next, or to an end of the text. -/
structure Stretch (src : Source) (start stop : Nat) : Prop where
  begins : start = 0 ∨ ∃ last ∈ src.map.terminators, start = last + 1
  ends : stop = src.size ∨ ∃ last ∈ src.map.terminators, stop = last + 1
  whole : ∀ last ∈ src.map.terminators, start ≤ last → stop ≤ last + 1

theorem Stretch.stop_le (stretch : src.Stretch start stop) : stop ≤ src.size := by
  rcases stretch.ends with whole | ⟨last, listed, rfl⟩
  · exact Nat.le_of_eq whole
  · exact Text.lt_size_of_byteIs (terminators_semicolon listed)

/-- A stretch that reaches beyond the start of another starts no earlier. -/
theorem Stretch.start_le (stretch : src.Stretch start stop) (other : src.Stretch start' stop')
    (reaches : start' < stop) : start' ≤ start := by
  rcases other.begins with rfl | ⟨last, listed, rfl⟩
  · exact Nat.zero_le _
  · apply Nat.le_of_not_lt
    intro later
    have := stretch.whole last listed (by omega)
    omega

/-- Of two stretches with the same start none ends before the other. -/
theorem Stretch.stop_le_stop (stretch : src.Stretch start stop) (other : src.Stretch start stop')
    (proper : start < stop') : stop ≤ stop' := by
  rcases other.ends with whole | ⟨last, listed, rfl⟩
  · exact whole ▸ stretch.stop_le
  · exact stretch.whole last listed (by omega)

/-- Two stretches are the same or lie apart. -/
theorem Stretch.apart (stretch : src.Stretch start stop) (other : src.Stretch start' stop') :
    (start = start' ∧ stop = stop') ∨ stop ≤ start' ∨ stop' ≤ start := by
  by_cases meet : start' < stop ∧ start < stop'
  · left
    obtain rfl : start = start' :=
      Nat.le_antisymm (other.start_le stretch meet.2) (stretch.start_le other meet.1)
    exact ⟨rfl, Nat.le_antisymm (stretch.stop_le_stop other meet.2)
      (other.stop_le_stop stretch meet.1)⟩
  · omega

/-! ### The stretch around an offset -/

/-- Whether a statement that goes up to `offset` starts, with its blanks, at `start`. -/
structure Leads (src : Source) (start offset : Nat) : Prop where
  before : start ≤ offset
  begins : start = 0 ∨ ∃ last ∈ src.map.terminators, start = last + 1
  bare : ∀ last ∈ src.map.terminators, start ≤ last → offset ≤ last

/-- There is one start only. -/
theorem Leads.unique (leads : src.Leads start offset) (other : src.Leads start' offset) :
    start = start' := by
  have ordered : ∀ {a b : Nat}, src.Leads a offset → src.Leads b offset → b ≤ a := by
    intro a b first second
    rcases second.begins with rfl | ⟨last, listed, rfl⟩
    · exact Nat.zero_le _
    · apply Nat.le_of_not_lt
      intro later
      have := first.bare last listed (by omega)
      have := second.before
      omega
  exact Nat.le_antisymm (ordered other leads) (ordered leads other)

theorem leads_afterTerminator (src : Source) (offset : Nat) :
    src.Leads (src.afterTerminator offset) offset := by
  have before := src.afterTerminator_le offset
  obtain ⟨front, back, view, early, late⟩ :=
    exists_ascending_split (f := id) (src.terminators_ascend.imp Nat.le_of_lt) offset
  have count := Bisect.leading_eq (p := (· < offset)) view
    (fun last listed => by simpa using early last listed)
    (fun last listed => by simpa using late last listed)
  have member : ∀ last, last ∈ src.map.terminators ↔ last ∈ front ∨ last ∈ back := by
    intro last
    rw [← Array.mem_toList_iff, view, List.mem_append]
  cases front using List.reverseRecOn with
  | nil =>
    have start : src.afterTerminator offset = 0 := by
      rw [afterTerminator, SpanMap.previousTerminator?, count]
      rfl
    refine ⟨before, Or.inl start, fun last listed _ => ?_⟩
    exact late last (((member last).mp listed).resolve_left List.not_mem_nil)
  | append_singleton rest nearest =>
    have start : src.afterTerminator offset = nearest + 1 := by
      have found : src.map.terminators[rest.length]? = some nearest := by
        rw [← Array.getElem?_toList, view]
        simp
      simp only [afterTerminator, SpanMap.previousTerminator?, count, List.length_append,
        List.length_singleton, found]
    have ascend := src.terminators_ascend
    rw [view, List.append_assoc, List.pairwise_append] at ascend
    refine ⟨before, Or.inr ⟨nearest, (member nearest).mpr (by simp), start⟩, ?_⟩
    intro last listed behind
    rcases (member last).mp listed with earlier | later
    · rcases List.mem_append.mp earlier with further | same
      · have := ascend.2.2 last further nearest (by simp)
        omega
      · rw [List.mem_singleton] at same
        omega
    · exact late last later

/-- No semicolon of the code behind an offset is passed over. -/
theorem statementStop_le_succ {last : Nat} (listed : last ∈ src.map.terminators)
    (later : offset ≤ last) : src.statementStop offset ≤ last + 1 := by
  rw [← Array.mem_toList_iff] at listed
  rw [statementStop, nextTerminator?_eq_find?]
  cases found : src.map.terminators.toList.find? (offset ≤ ·) with
  | none => exact absurd later (by simpa using List.find?_eq_none.mp found last listed)
  | some next =>
    obtain ⟨-, front, back, view, early⟩ := List.find?_eq_some_iff_append.mp found
    have ascend := src.terminators_ascend
    rw [view] at ascend listed
    rcases List.mem_append.mp listed with before | behind
    · exact absurd later (by simpa using early last before)
    · rcases List.mem_cons.mp behind with rfl | beyond
      · exact Nat.le_refl _
      · have := List.rel_of_pairwise_cons (List.pairwise_append.mp ascend).2.1 beyond
        exact Nat.le_of_lt (Nat.succ_lt_succ this)

/-- Around every offset lies a stretch. -/
theorem stretch_around (src : Source) (offset : Nat) :
    src.Stretch (src.afterTerminator offset) (src.statementStop offset) where
  begins := (src.leads_afterTerminator offset).begins
  ends := by
    refine (src.statementStop_cases offset).imp_right ?_
    rintro ⟨last, listed, -, stop⟩
    exact ⟨last, listed, stop⟩
  whole last listed behind :=
    statementStop_le_succ listed ((src.leads_afterTerminator offset).bare last listed behind)

/-- The semicolon that ends a statement stands behind its start. -/
theorem statementStart_le_stop (within : offset ≤ src.size) :
    src.afterTerminator offset ≤ src.statementStart offset ∧
      src.statementStart offset ≤ src.statementStop offset := by
  have before := src.afterTerminator_le offset
  refine ⟨src.text.le_seek _ _ (Nat.le_trans before within), ?_⟩
  rcases src.statementStop_cases offset with whole | ⟨last, listed, later, stop⟩
  · rw [whole]
    exact src.text.seek_le_size _ _
  · have visible := visible_of_semicolon (terminators_semicolon listed)
    have start : src.statementStart offset ≤ last :=
      Text.seek_le_of_found (Nat.le_trans before later) visible
    omega

/-! ### Statements -/

/-- A range with at most one semicolon of the code, the last byte in it, that ends there or with the
text. -/
structure IsStatement (src : Source) (st : Extent) : Prop where
  ordered : st.start ≤ st.stop
  ends : st.stop = src.size ∨ ∃ last ∈ src.map.terminators, st.stop = last + 1
  single : ∀ last ∈ src.map.terminators, st.start ≤ last → last < st.stop → last + 1 = st.stop

theorem statementAt_eq (within : offset ≤ src.size) :
    src.statementAt offset = .ok ⟨src.statementStart (src.text.floor offset),
      src.statementStop (src.text.floor offset)⟩ := by
  have ordered := (statementStart_le_stop (Nat.le_trans (src.text.floor_le offset) within)).2
  rw [statementAt, beginningOfStatement, endOfStatement, checkOffset_within within]
  change Except.ok _ = _
  rw [Nat.min_eq_left ordered]

theorem within_of_statementAt {st : Extent} (found : src.statementAt offset = .ok st) :
    offset ≤ src.size := by
  apply Nat.le_of_not_lt
  intro past
  have failed : src.checkOffset offset = .error ⟨offset, src.size⟩ := if_pos past
  rw [statementAt, beginningOfStatement, failed] at found
  cases found

theorem isStatement_around (within : offset ≤ src.size) :
    src.IsStatement ⟨src.statementStart offset, src.statementStop offset⟩ := by
  have stretch := src.stretch_around offset
  obtain ⟨early, ordered⟩ := statementStart_le_stop within
  refine ⟨ordered, stretch.ends, fun last listed behind before => ?_⟩
  exact Nat.le_antisymm before (stretch.whole last listed (Nat.le_trans early behind))

/-- The statements of two offsets are the same or lie apart. -/
theorem statements_apart (within : offset ≤ src.size) {other : Nat} (within' : other ≤ src.size) :
    (src.statementStart offset = src.statementStart other ∧
        src.statementStop offset = src.statementStop other) ∨
      src.statementStop offset ≤ src.statementStart other ∨
      src.statementStop other ≤ src.statementStart offset := by
  have early := (statementStart_le_stop within).1
  have early' := (statementStart_le_stop within').1
  rcases (src.stretch_around offset).apart (src.stretch_around other) with ⟨start, stop⟩ | apart
  · exact Or.inl ⟨congrArg (src.text.seek _) start, stop⟩
  · omega

/-- No semicolon of the code stands inside a character, so it is not before an offset unless it is
before the character of the offset. -/
theorem le_of_floor_le (joined : src.text.Joined) {last : Nat}
    (listed : last ∈ src.map.terminators) (later : src.text.floor offset ≤ last) :
    offset ≤ last := by
  apply Nat.le_of_not_lt
  intro before
  have := Text.le_floor (joined.boundary_semicolon (terminators_semicolon listed)) before
  omega

theorem le_statementStop_floor (joined : src.text.Joined) (within : offset ≤ src.size) :
    offset ≤ src.statementStop (src.text.floor offset) := by
  rcases src.statementStop_cases (src.text.floor offset) with whole | ⟨last, listed, later, stop⟩
  · exact whole ▸ within
  · rw [stop]
    exact Nat.le_succ_of_le (le_of_floor_le joined listed later)

theorem lt_statementStop_floor (joined : src.text.Joined) (inside : offset < src.size) :
    offset < src.statementStop (src.text.floor offset) := by
  rcases src.statementStop_cases (src.text.floor offset) with whole | ⟨last, listed, later, stop⟩
  · exact whole ▸ inside
  · rw [stop]
    exact Nat.lt_succ_of_le (le_of_floor_le joined listed later)

theorem boundary_statementStart (joined : src.text.Joined) (within : offset ≤ src.size) :
    src.text.isBoundary (src.statementStart offset) = true := by
  have lower := (statementStart_le_stop within).1
  have bound : src.statementStart offset ≤ src.text.size := src.text.seek_le_size _ _
  apply joined.boundary bound
  intro k next
  -- The byte before the start is a blank or the semicolon before the statement.
  by_cases inside : src.afterTerminator offset ≤ k
  · have hidden : src.text.byteIs k (!Byte.isBlank ·) = false :=
      Text.seek_before inside (Nat.lt_of_succ_le (Nat.le_of_eq next.symm))
    rw [Text.byteIs_not (by omega), Bool.not_eq_false'] at hidden
    refine Text.byteIs_apart hidden fun b blank => ?_
    exact Byte.forall_of_halves (p := fun b => Byte.isBlank b = true → decide (128 ≤ b) = false)
      (by decide) b blank
  · rcases (src.leads_afterTerminator offset).begins with zero | ⟨last, listed, start⟩
    · omega
    · obtain rfl : k = last := by omega
      exact Text.ascii_of_semicolon (terminators_semicolon listed)

/-- The start of a statement belongs to the statement. -/
theorem statementStart_idem (within : offset ≤ src.size) :
    src.statementStart (src.statementStart offset) = src.statementStart offset := by
  have lower := (statementStart_le_stop within).1
  have leads := src.leads_afterTerminator offset
  -- Only blanks are skipped, so the semicolon before the statement stays the nearest.
  have same : src.Leads (src.afterTerminator offset) (src.statementStart offset) := by
    refine ⟨lower, leads.begins, fun last listed behind => ?_⟩
    exact Text.seek_le_of_found behind (visible_of_semicolon (terminators_semicolon listed))
  have start := same.unique (src.leads_afterTerminator (src.statementStart offset))
  exact (congrArg (src.text.seek _) start).symm

theorem beginningOfStatement_eq (within : offset ≤ src.size) :
    src.beginningOfStatement offset = .ok (src.statementStart (src.text.floor offset)) := by
  rw [beginningOfStatement, checkOffset_within within]
  rfl

/-- Statements partition the text. The statement of an offset ends behind it, with the text or with
the only semicolon of the code in it; the statements of two offsets are the same or lie apart; what
belongs to none is blank; and the start of a statement belongs to the statement. -/
theorem statements_partition (lexical : LexicalSettings) (s : String) :
    let src := Source.ofText lexical (.ofString s)
    (∀ offset ≤ src.size, ∃ st, src.statementAt offset = .ok st ∧ src.IsStatement st ∧
      offset ≤ st.stop) ∧
    (∀ offset other st st', src.statementAt offset = .ok st → src.statementAt other = .ok st' →
      st = st' ∨ st.stop ≤ st'.start ∨ st'.stop ≤ st.start) ∧
    (∀ i b, src.text.byte? i = some b →
      (∀ offset st, src.statementAt offset = .ok st → ¬ (st.start ≤ i ∧ i < st.stop)) →
      Byte.isBlank b = true) ∧
    ∀ offset ≤ src.size, ∃ start, src.beginningOfStatement offset = .ok start ∧
      src.beginningOfStatement start = .ok start := by
  intro src
  have joined : src.text.Joined := Text.joined_ofString s
  have floor : ∀ {offset}, offset ≤ src.size → src.text.floor offset ≤ src.size :=
    fun within => Nat.le_trans (src.text.floor_le _) within
  refine ⟨fun offset within => ?_, fun offset other st st' found found' => ?_,
    fun i b here outside => ?_, fun offset within => ?_⟩
  · exact ⟨_, statementAt_eq within, isStatement_around (floor within),
      le_statementStop_floor joined within⟩
  · have within := within_of_statementAt found
    have within' := within_of_statementAt found'
    obtain rfl := Except.ok.inj ((statementAt_eq within).symm.trans found)
    obtain rfl := Except.ok.inj ((statementAt_eq within').symm.trans found')
    refine (statements_apart (floor within) (floor within')).imp_left ?_
    rintro ⟨start, stop⟩
    rw [start, stop]
  · have inside : i < src.size := Text.lt_size_of_byte? here
    have within := Nat.le_of_lt inside
    have missed := outside i _ (statementAt_eq within)
    -- The statement of `i` ends behind it, so `i` lies among the blanks before its start.
    have before : i < src.statementStart (src.text.floor i) := by
      apply Nat.lt_of_not_le
      intro behind
      exact missed ⟨behind, lt_statementStop_floor joined inside⟩
    have lower := Nat.le_trans (src.afterTerminator_le _) (src.text.floor_le i)
    have hidden := Text.seek_before lower before
    rw [Text.byteIs_of_byte? here] at hidden
    simpa using hidden
  · have start := beginningOfStatement_eq within
    have boundary := boundary_statementStart joined (floor within)
    refine ⟨_, start, ?_⟩
    rw [beginningOfStatement_eq (Text.le_size_of_boundary boundary), Text.floor_eq_self boundary,
      statementStart_idem (floor within)]

/-- A semicolon inside a comment ends nothing, and the blank between two statements is in none. -/
theorem statements_partition_comment :
    let src := Source.ofText {} (.ofString "a; /* ; */ b; ")
    src.statementAt 0 = .ok ⟨0, 2⟩ ∧ src.statementAt 6 = .ok ⟨3, 13⟩ ∧
      (∃ st, src.statementAt 6 = .ok st ∧ src.IsStatement st ∧ 6 ≤ st.stop) ∧
      ((⟨0, 2⟩ : Extent) = ⟨3, 13⟩ ∨ 2 ≤ 3 ∨ 13 ≤ 0) ∧
      src.text.byte? 2 = some 32 ∧ Byte.isBlank 32 = true ∧
      ∃ start, src.beginningOfStatement 6 = .ok start ∧
        src.beginningOfStatement start = .ok start := by
  intro src
  obtain ⟨around, apart, blank, idem⟩ := statements_partition {} "a; /* ; */ b; "
  have within : 6 ≤ src.size := by decide +kernel
  have first : src.statementAt 0 = .ok ⟨0, 2⟩ := by decide +kernel
  have second : src.statementAt 6 = .ok ⟨3, 13⟩ := by decide +kernel
  have space : src.text.byte? 2 = some 32 := by decide +kernel
  have missed : ∀ offset ≤ src.size,
      (src.statementAt offset).toOption.all (fun st => ¬ (st.start ≤ 2 ∧ 2 < st.stop)) = true := by
    decide +kernel
  refine ⟨first, second, around 6 within, apart 0 6 _ _ first second, space,
    blank 2 32 space fun offset st found => ?_, idem 6 within⟩
  have outside := missed offset (within_of_statementAt found)
  rw [found] at outside
  exact of_decide_eq_true outside

end Source
end SasLayout
