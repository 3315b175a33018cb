import SasLayout.Editor
import SasLayout.Proofs.BlockEnds
import SasLayout.Proofs.Lines

set_option autoImplicit false

/-!
Blocks around an offset are well formed, and there is always something to submit. The end of a block
is searched from the end of its header, so it lies behind it on a character boundary; only the limit
on rejected keywords stops a search without one.
-/
namespace SasLayout

namespace Scanner

variable {sc : Scanner} {b : Block}

/-- A block whose offsets stand in order on character boundaries of the text, and whose kind is not
one that only leads back to another block. -/
structure Located (sc : Scanner) (b : Block) : Prop where
  starts : sc.text.isBoundary b.start = true
  header : sc.text.isBoundary b.headerEnd = true
  ends : sc.text.isBoundary b.stop = true
  start_le : b.start ≤ b.headerEnd
  header_le : b.headerEnd ≤ b.stop
  stop_le : b.stop ≤ sc.text.size
  rests : b.kind.isCloser = false ∧ b.kind ≠ .dataAssignment

/-! ### The search for an end -/

/-- A step has an end unless too many keywords are rejected. -/
theorem stepEnd_error {anchor : Nat} {cause : ScanError}
    (failed : (sc.stepEnd anchor).value = .error cause) :
    ∃ near, cause = .retryLimit near sc.settings.limits.retries := by
  rw [stepEnd, Logged.value_bind] at failed
  cases found : (sc.search (Pattern.stepCloser sc.settings.quitCloses) anchor .forward).value with
  | found place =>
    rw [found] at failed
    cases failed
  | absent =>
    rw [found] at failed
    cases failed
  | gaveUp near =>
    rw [found] at failed
    cases failed
    exact ⟨near, rfl⟩

/-- A macro definition has an end unless too many keywords are rejected. -/
theorem macroEndFrom_error {name : Text} {nested anchor : Nat} {cause : ScanError}
    (failed : (sc.macroEndFrom name nested anchor #[]).value = .error cause) :
    ∃ near, cause = .retryLimit near sc.settings.limits.retries := by
  induction left : sc.text.size + 1 - anchor using Nat.strongRecOn generalizing nested anchor with
  | ind left ih =>
    rw [macroEndFrom_value] at failed
    cases found : (sc.search Pattern.macroKeyword anchor .forward).value with
    | absent =>
      rw [found] at failed
      cases failed
    | gaveUp near =>
      rw [found] at failed
      cases failed
      exact ⟨near, rfl⟩
    | found place =>
      have bounds := search_forward_bounds Pattern.macroKeyword_positive found
      rw [found] at failed
      simp only at failed
      split at failed
      · cases nested with
        | zero => cases failed
        | succ outer => exact ih _ (by omega) failed rfl
      · exact ih _ (by omega) failed rfl

/-- The end of a step stands on a boundary behind its header. -/
theorem stepEnd_bounds (joined : sc.text.Joined) {anchor stop : Nat}
    (within : anchor ≤ sc.text.size) (ended : (sc.stepEnd anchor).value = .ok stop) :
    anchor ≤ stop ∧ sc.text.isBoundary stop = true := by
  rcases stepEnd_spec ended with rfl | ⟨last, listed, behind, rfl⟩
  · exact ⟨within, Source.isBoundary_size _⟩
  · exact ⟨by omega, joined.boundary_semicolon (Source.terminators_semicolon listed)⟩

/-- The end of a macro definition stands on a boundary behind its header. -/
theorem macroEndFrom_bounds (joined : sc.text.Joined) {name : Text} {anchor stop : Nat}
    (within : anchor ≤ sc.text.size)
    (ended : (sc.macroEndFrom name 0 anchor #[]).value = .ok stop) :
    anchor ≤ stop ∧ sc.text.isBoundary stop = true := by
  rcases macroEndFrom_spec ended with rfl | ⟨keyword, last, behind, -, sought, rfl⟩
  · exact ⟨within, Source.isBoundary_size _⟩
  · obtain ⟨later, here, -⟩ := Text.semicolon?_eq_some_iff.mp sought
    exact ⟨by omega, joined.boundary_semicolon here⟩

/-- The end of a block is found behind its header, unless too many keywords are rejected. -/
theorem endOfBlock_cases (joined : sc.text.Joined) (ends : sc.text.isBoundary b.headerEnd = true) :
    (∃ near, (sc.endOfBlock b).value = .error (.retryLimit near sc.settings.limits.retries)) ∨
      ∃ stop, (sc.endOfBlock b).value = .ok stop ∧ b.headerEnd ≤ stop ∧
        sc.text.isBoundary stop = true := by
  have within := Text.le_size_of_boundary ends
  have step : (∃ near, (sc.stepEnd b.headerEnd).value =
        .error (.retryLimit near sc.settings.limits.retries)) ∨
      ∃ stop, (sc.stepEnd b.headerEnd).value = .ok stop ∧ b.headerEnd ≤ stop ∧
        sc.text.isBoundary stop = true := by
    cases ended : (sc.stepEnd b.headerEnd).value with
    | error cause =>
      obtain ⟨near, rfl⟩ := stepEnd_error ended
      exact Or.inl ⟨near, rfl⟩
    | ok stop => exact Or.inr ⟨stop, rfl, stepEnd_bounds joined within ended⟩
  unfold endOfBlock
  rw [Text.floor_eq_self ends]
  split
  · exact step
  · exact step
  · rename_i name kind
    cases ended : (sc.macroEndFrom name 0 b.headerEnd #[]).value with
    | error cause =>
      obtain ⟨near, rfl⟩ := macroEndFrom_error ended
      exact Or.inl ⟨near, rfl⟩
    | ok stop => exact Or.inr ⟨stop, rfl, macroEndFrom_bounds joined within ended⟩
  · exact Or.inr ⟨b.headerEnd, rfl, Nat.le_refl _, ends⟩

/-! ### The block around an offset -/

theorem rests_of_leadsTo? (rests : sc.leadsTo? b = none) :
    b.kind.isCloser = false ∧ b.kind ≠ .dataAssignment := by
  unfold leadsTo? at rests
  split at rests
  · cases rests
  · cases rests
  · cases rests
  · rename_i assignment run mend
    refine ⟨?_, assignment⟩
    cases kind : b.kind <;> simp_all [Block.Kind.isCloser]

/-- A block that opens nothing ends with its header. -/
theorem endOfBlock_closed (closed : b.kind.isOpener = false) :
    (sc.endOfBlock b).value = .ok b.headerEnd := by
  unfold endOfBlock
  cases kind : b.kind <;> simp_all [Block.Kind.isOpener]

theorem Formed.located (formed : sc.Formed b) (rests : sc.leadsTo? b = none) {stop : Nat}
    (ends : sc.text.isBoundary stop = true) (later : b.headerEnd ≤ stop) :
    sc.Located { b with stop } where
  starts := formed.starts
  header := formed.ends
  ends := ends
  start_le := formed.ordered
  header_le := later
  stop_le := Text.le_size_of_boundary ends
  rests := rests_of_leadsTo? rests

/-- The block around an offset is located, and its end is the one that a fresh search finds. -/
theorem locate_cases (joined : sc.text.Joined) {offset : Nat} (within : offset ≤ sc.source.size) :
    (∃ near, (sc.locate offset).value = .error (.retryLimit near sc.settings.limits.retries)) ∨
      ∃ b, (sc.locate offset).value = .ok b ∧ sc.Located b ∧
        (sc.endOfBlock b).value = .ok b.stop := by
  obtain ⟨header, formed, rests, located⟩ := locate_within joined within
  rw [located, withEnd]
  split
  · rw [Logged.value_map]
    rcases endOfBlock_cases joined formed.ends with ⟨near, failed⟩ | ⟨stop, ended, later, ends⟩
    · rw [failed]
      exact Or.inl ⟨near, rfl⟩
    · rw [ended]
      exact Or.inr ⟨_, rfl, formed.located rests ends later, ended⟩
  · rename_i closed
    have ends : sc.text.isBoundary header.stop = true := formed.stop_eq ▸ formed.ends
    refine Or.inr ⟨header, rfl, formed.located rests ends (Nat.le_of_eq formed.stop_eq.symm), ?_⟩
    rw [formed.stop_eq, endOfBlock_closed (Bool.eq_false_iff.mpr closed)]

theorem Located.blockExtent (located : sc.Located b)
    (ended : (sc.endOfBlock b).value = .ok b.stop) :
    (sc.blockExtent b).value = .ok ⟨b.start, b.stop⟩ := by
  have ordered := Nat.le_trans located.start_le located.header_le
  rw [Scanner.blockExtent, Logged.value_map, ended]
  simp [Except.map, Nat.max_eq_left ordered]

end Scanner

/-! ### What to submit -/

namespace Editor

variable {ed : Editor} {offset : Nat}

theorem searchAt_value {α : Type} (within : offset ≤ ed.text.size)
    (search : Scanner → Nat → Logged (Except ScanError α)) :
    ((searchAt offset search).run ed).value =
      ((search ⟨ed.peek, ed.scanning⟩ offset).value, ed.refreshed) := by
  simp [searchAt, sourceAt, scanner, perform, checkOffset_text within]

theorem lineSubmission_value (within : offset ≤ ed.text.size) :
    ((lineSubmission offset).run ed).value =
      (.ok ⟨ed.text.lineStart (ed.text.floor offset), ed.text.lineEnd (ed.text.floor offset), none⟩,
        ed) := by
  simp [lineSubmission, checkOffset_text within]

/-- A line stands in the text. -/
theorem lineSubmission_bounds (ed : Editor) (within : offset ≤ ed.text.size) :
    ∃ sub, ((lineSubmission offset).run ed).value = (.ok sub, ed) ∧
      sub.start ≤ sub.stop ∧ sub.stop ≤ ed.text.size := by
  have inside := Nat.le_trans (ed.text.floor_le offset) within
  refine ⟨_, lineSubmission_value within, ?_, ed.text.lineEnd_le_size _⟩
  exact Nat.le_trans (Text.lineStart_le inside) (Text.le_lineEnd_self inside)

/-- What is submitted is the block around an offset when it opens something, and the line of the
offset otherwise. -/
theorem submission_value (within : offset ≤ ed.text.size) :
    ((submission offset).run ed).value =
      match (Scanner.locate ⟨ed.peek, ed.scanning⟩ offset).value with
      | .error (.outOfRange cause) => (.error (.outOfRange cause), ed.refreshed)
      | .error (.retryLimit _ _) => ((lineSubmission offset).run ed.refreshed).value
      | .ok b =>
        if b.kind.isOpener then (.ok ⟨b.start, b.stop, some b⟩, ed.refreshed)
        else ((lineSubmission offset).run ed.refreshed).value := by
  rw [submission, StateT.run_bind, Logged.value_bind, searchAt_value within]
  cases (Scanner.locate ⟨ed.peek, ed.scanning⟩ offset).value with
  | error cause => cases cause <;> rfl
  | ok b =>
    simp only
    split <;> rfl

/-- Blocks around an offset are well formed. In an editor whose scan is that of its text, the block
around an offset has its offsets in order on character boundaries, it is not of a kind that leads
back to another block, and its extent is the one it was found with, unless too many keywords are
rejected on the way. What there is to submit at the offset is always found and lies in the text. -/
theorem locate_formed (ed : Editor) (s : String) (text : ed.text = .ofString s)
    (current : ed.peek = .ofText ed.lexical ed.text) (offset : Nat)
    (within : offset ≤ ed.text.size) :
    let sc : Scanner := ⟨ed.peek, ed.scanning⟩
    ((∃ near, (sc.locate offset).value = .error (.retryLimit near sc.settings.limits.retries)) ∨
      ∃ b, (sc.locate offset).value = .ok b ∧ sc.Located b ∧
        (sc.blockExtent b).value = .ok ⟨b.start, b.stop⟩) ∧
    ∃ sub, ((submission offset).run ed).value = (.ok sub, ed.refreshed) ∧
      sub.start ≤ sub.stop ∧ sub.stop ≤ ed.text.size := by
  intro sc
  have scanned : sc.text = ed.text := congrArg Source.text current
  have joined : sc.text.Joined := by
    rw [scanned, text]
    exact Text.joined_ofString s
  have line : ∃ sub, ((lineSubmission offset).run ed.refreshed).value = (.ok sub, ed.refreshed) ∧
      sub.start ≤ sub.stop ∧ sub.stop ≤ ed.text.size :=
    lineSubmission_bounds ed.refreshed within
  have inside : offset ≤ sc.text.size := scanned ▸ within
  rw [submission_value within]
  rcases Scanner.locate_cases joined inside with ⟨near, failed⟩ | ⟨b, found, located, ended⟩
  · rw [failed]
    exact ⟨Or.inl ⟨near, rfl⟩, line⟩
  · rw [found]
    refine ⟨Or.inr ⟨b, rfl, located, located.blockExtent ended⟩, ?_⟩
    simp only
    split
    · refine ⟨_, rfl, Nat.le_trans located.start_le located.header_le, ?_⟩
      exact scanned ▸ located.stop_le
    · exact line

/-- A step in a macro definition, among letters of two bytes. -/
theorem locate_formed_step :
    let ed : Editor := { text := .ofString "%macro é; data é; run é ; %mend; x" }
    let sc : Scanner := ⟨ed.peek, ed.scanning⟩
    let b : Block := ⟨.data, 11, 15, 28⟩
    ed.peek = .ofText ed.lexical ed.text ∧ 13 ≤ ed.text.size ∧
      (sc.locate 13).value = .ok b ∧ sc.Located b ∧ (sc.blockExtent b).value = .ok ⟨11, 28⟩ ∧
      ((submission 13).run ed).value = (.ok ⟨11, 28, some b⟩, ed.refreshed) ∧
      28 ≤ ed.text.size := by
  intro ed sc b
  have within : 13 ≤ ed.text.size := by decide +kernel
  have found : (sc.locate 13).value = .ok b := by decide +kernel
  have computed : ((submission 13).run ed).value.1 = .ok ⟨11, 28, some b⟩ := by decide +kernel
  obtain ⟨⟨near, failed⟩ | ⟨b', same, located, extent⟩, sub, submitted, -, inside⟩ :=
    locate_formed ed "%macro é; data é; run é ; %mend; x" rfl rfl 13 within
  · rw [found] at failed
    cases failed
  · rw [found] at same
    cases same
    obtain rfl : ⟨11, 28, some b⟩ = sub :=
      Except.ok.inj (computed.symm.trans (congrArg Prod.fst submitted))
    exact ⟨rfl, within, found, located, extent, submitted, inside⟩

end Editor
end SasLayout
