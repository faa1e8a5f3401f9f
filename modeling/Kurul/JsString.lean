import Mathlib.Algebra.Order.Field.Rat
import Mathlib.Data.List.Lex
import Mathlib.Data.List.TakeWhile
import Mathlib.Order.Fin.Basic
import Kurul.Numerals

/-!
# Kurul.JsString

JavaScript strings: sequences of UTF-16 code units, compared unit by unit as `<` compares them.
Lone surrogates are strings too. With them, the other scalar types rows are made of.
-/

namespace Kurul

abbrev CodeUnit : Type := Fin 65536

abbrev JsString : Type := List CodeUnit

/-- A primary key as it is stored: the text of a UUIDv7. -/
abbrev Id : Type := JsString

/-- A point in time, in milliseconds since the epoch. -/
abbrev Instant : Type := Int

/-- A position in a list, an exact rational. -/
abbrev Position : Type := ℚ

/-- A literal of the source, all of whose characters are one code unit. -/
def js (s : String) : JsString := s.toList.map fun c => Fin.ofNat 65536 c.toNat

/-- JavaScript's `WhiteSpace` and `LineTerminator`, what `trim` strips. -/
def isSpace (c : CodeUnit) : Bool :=
  let n := c.val
  (9 ≤ n && n ≤ 13) || n == 32 || n == 160 || n == 0x1680 || (0x2000 ≤ n && n ≤ 0x200a) ||
    n == 0x2028 || n == 0x2029 || n == 0x202f || n == 0x205f || n == 0x3000 || n == 0xfeff

/-- `s.trim()`. -/
def trim (s : JsString) : JsString :=
  ((s.dropWhile isSpace).reverse.dropWhile isSpace).reverse

/-- A string in a boolean position: only the empty one is false. -/
def truthy (s : JsString) : Bool := !s.isEmpty

/-- `s.includes(t)`. -/
def includes (s t : JsString) : Bool := s.tails.any fun u => t.isPrefixOf u

@[simp] theorem truthy_iff {s : JsString} : truthy s = true ↔ s ≠ [] := by
  cases s <;> simp [truthy]

/-- The characters of a literal are tested as they are written. -/
theorem all_js (l : List Char) (p : CodeUnit → Bool) :
    (js (String.ofList l)).all p = l.all fun c => p (Fin.ofNat 65536 c.toNat) := by
  rw [js, String.toList_ofList, List.all_map]
  rfl

theorem not_mem_js {l : List Char} {u : CodeUnit}
    (h : (l.all fun c => Fin.ofNat 65536 c.toNat ≠ u) = true) : u ∉ js (String.ofList l) := by
  intro hmem
  have hall := List.all_eq_true.mp ((all_js l fun v => v ≠ u).trans h) u hmem
  simp at hall

/-- Trimming leaves nothing exactly of the strings made of white space alone. -/
theorem trim_eq_nil_iff {s : JsString} : trim s = [] ↔ ∀ c ∈ s, isSpace c = true := by
  unfold trim
  rw [List.reverse_eq_nil_iff, List.dropWhile_eq_nil_iff]
  constructor
  · intro h
    rw [← List.dropWhile_eq_nil_iff]
    by_contra hne
    have hhead := List.head_dropWhile_not isSpace hne
    rw [h _ (List.mem_reverse.mpr (List.head_mem hne))] at hhead
    cases hhead
  · intro h c hc
    exact h c ((List.dropWhile_sublist isSpace).subset (List.mem_reverse.mp hc))

end Kurul
