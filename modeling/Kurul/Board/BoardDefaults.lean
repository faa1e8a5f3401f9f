import Kurul.Activity
import Kurul.Locale

/-!
# Kurul.Board.BoardDefaults

The columns a fresh board starts with. Order, spacing and meaning do not depend on the language;
the names do.
-/

namespace Kurul

structure DefaultColumn where
  name : JsString
  position : Position
  category : ColumnCategory

inductive SeedColumnKey where
  | todo
  | inProgress
  | done

/-- `SEED_COLUMNS`. -/
def seedColumns : List (SeedColumnKey × Position × ColumnCategory) :=
  [(.todo, 1000, .unstarted), (.inProgress, 2000, .started), (.done, 3000, .completed)]

/-- `SEED_COLUMN_NAMES`. -/
def seedColumnName : Locale → SeedColumnKey → JsString
  | .en, .todo => js "To Do"
  | .en, .inProgress => js "In Progress"
  | .en, .done => js "Done"
  | .tr, .todo => js "Yapılacak"
  | .tr, .inProgress => js "Devam Ediyor"
  | .tr, .done => js "Bitti"

def defaultColumnsFor (locale : Locale) : List DefaultColumn :=
  seedColumns.map fun c => ⟨seedColumnName locale c.1, c.2.1, c.2.2⟩

/-- Whatever the language, the columns stand where the table puts them. -/
@[simp] theorem positions_defaultColumnsFor (locale : Locale) :
    (defaultColumnsFor locale).map DefaultColumn.position = [1000, 2000, 3000] := by
  simp [defaultColumnsFor, seedColumns]

/-- The columns of one board are seeded in order, each at least a thousand after the last. -/
theorem defaultColumnsFor_apart (locale : Locale) :
    (defaultColumnsFor locale).Pairwise fun a b => a.position + 1000 ≤ b.position := by
  have h : ((defaultColumnsFor locale).map DefaultColumn.position).Pairwise
      fun p q => p + 1000 ≤ q := by
    simp only [positions_defaultColumnsFor, List.pairwise_cons, List.mem_cons, List.not_mem_nil]
    norm_num
  exact List.pairwise_map.mp h

end Kurul
