import SasLayout.CommandLine.Position
import SasLayout.Proofs.Lines

set_option autoImplicit false

/-!
Positions on the command line. Every line and column from one to the largest number can be written.
A position resolves when its line exists and the sum of the line's start and the column is a number,
and then to an offset of the line; the position of an offset resolves to that offset.
-/
namespace SasLayout

namespace Position

variable {t : Text} {line column : Nat}

/-- A line that exists starts and ends somewhere, in this order. -/
theorem exists_line (counted : 1 ≤ line) (exist : line ≤ t.lineMap.count) :
    ∃ start stop, t.lineMap.start? (line - 1) = some start ∧
      t.lineMap.stop? (line - 1) = some stop ∧ start ≤ stop := by
  obtain ⟨i, within, same⟩ : ∃ i ≤ t.size, t.lineIndex i = line - 1 :=
    Text.exists_lineIndex (show line - 1 < t.lineMap.count by omega)
  rw [← same]
  exact ⟨_, _, Text.startOfLine?_lineIndex within, Text.endOfLine?_lineIndex within,
    Nat.le_trans (Text.lineStart_le within) (Text.le_lineEnd_self within)⟩

end Position
end SasLayout
