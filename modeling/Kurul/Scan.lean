import Mathlib.Data.List.Basic
import Kurul.Numerals

/-!
# Kurul.Scan

A pattern looked for throughout a text, from left to right: where it matches, the match is taken and
reading goes on behind it, and elsewhere one character is read as it is.

* `matchAll_hit`, `matchAll_append`     — what is found in a text, step by step.
* `mem_matchAll`                        — and where.
* `replaceAll_hit`, `replaceAll_append` — what becomes of it, step by step.
* `scan_induction`                      — what holds of every text, match by match.
* `prefix_replaceAll` — a beginning in which no match starts is there after replacing exactly if it was
  there before.
-/

namespace Scan

variable {α β : Type}

/-- What a pattern makes of the match at the start of a text, and the length of the match. -/
abbrev Pattern (α β : Type) : Type := List α → Option (β × Nat)

/-- A match is never empty, nor longer than the text. -/
def Pattern.Proper (at? : Pattern α β) : Prop := ∀ s b n, at? s = some (b, n) → 0 < n ∧ n ≤ s.length

/-- A text as its matches and the characters between them. The first `n` characters are still part of the
match before. -/
def pieces (at? : Pattern α β) : Nat → List α → List (α ⊕ β)
  | _, [] => []
  | n + 1, _ :: s => pieces at? n s
  | 0, a :: s => match at? (a :: s) with
    | some (b, n) => .inr b :: pieces at? (n - 1) s
    | none => .inl a :: pieces at? 0 s

def matchAll (at? : Pattern α β) (s : List α) : List β := (pieces at? 0 s).filterMap Sum.getRight?

def replaceAll (at? : Pattern α β) (f : β → List α) (s : List α) : List α :=
  (pieces at? 0 s).flatMap (Sum.elim (fun a => [a]) f)

/-- A match, where it starts and how long it is. -/
structure Occurrence (β : Type) where
  captured : β
  index : Nat
  length : Nat

/-- The matches and their places in a text that starts at `i`, its first `n` characters still part of the
match before. -/
def occurrences (at? : Pattern α β) : Nat → Nat → List α → List (Occurrence β)
  | _, _, [] => []
  | i, n + 1, _ :: s => occurrences at? (i + 1) n s
  | i, 0, a :: s => match at? (a :: s) with
    | some (b, n) => ⟨b, i, n⟩ :: occurrences at? (i + 1) (n - 1) s
    | none => occurrences at? (i + 1) 0 s

variable {at? : Pattern α β} {f : β → List α} {a : α} {b : β} {n : Nat} {p s : List α}

/-- A text is empty, or a match and what follows it, or a character and what follows it. -/
theorem scan_induction (hat : at?.Proper) {P : List α → Prop} (nil : P [])
    (hit : ∀ s b n, at? s = some (b, n) → P (s.drop n) → P s)
    (miss : ∀ a s, at? (a :: s) = none → P s → P (a :: s)) (s : List α) : P s := by
  have main : ∀ (k : Nat) (s : List α), s.length ≤ k → P s := by
    intro k
    induction k with
    | zero =>
      intro s h
      obtain rfl := List.eq_nil_of_length_eq_zero (Nat.le_zero.mp h)
      exact nil
    | succ k ih =>
      intro s h
      cases hs : at? s with
      | some r =>
        obtain ⟨hpos, hle⟩ := hat s r.1 r.2 hs
        refine hit s r.1 r.2 hs (ih _ ?_)
        rw [List.length_drop]
        omega
      | none =>
        cases s with
        | nil => exact nil
        | cons a s => exact miss a s hs (ih s (Nat.le_of_succ_le_succ h))
  exact main s.length s (Nat.le_refl _)

theorem pieces_skip (s : List α) : pieces at? n s = pieces at? 0 (s.drop n) := by
  induction s generalizing n with
  | nil => cases n <;> rfl
  | cons a s ih =>
    cases n with
    | zero => rfl
    | succ n => exact ih

theorem pieces_hit (hat : at?.Proper) (h : at? s = some (b, n)) :
    pieces at? 0 s = .inr b :: pieces at? 0 (s.drop n) := by
  obtain ⟨hpos, hle⟩ := hat s b n h
  cases s with
  | nil => exact absurd (Nat.lt_of_lt_of_le hpos hle) (Nat.lt_irrefl 0)
  | cons a s =>
    obtain ⟨m, rfl⟩ := Nat.exists_eq_succ_of_ne_zero (Nat.ne_of_gt hpos)
    rw [pieces, h]
    exact congrArg (.inr b :: ·) (pieces_skip s)

theorem pieces_miss (h : at? (a :: s) = none) : pieces at? 0 (a :: s) = .inl a :: pieces at? 0 s := by
  rw [pieces, h]

/-- Characters that no match starts at are read as they are. -/
theorem pieces_append (h : ∀ t, t ≠ [] → t <:+ p → at? (t ++ s) = none) :
    pieces at? 0 (p ++ s) = p.map .inl ++ pieces at? 0 s := by
  induction p with
  | nil => rfl
  | cons a p ih =>
    have hmiss : at? (a :: (p ++ s)) = none := h (a :: p) (List.cons_ne_nil a p) List.suffix_rfl
    rw [List.cons_append, pieces_miss hmiss]
    exact congrArg _ (ih fun t ht hp => h t ht (hp.trans (List.suffix_cons a p)))

theorem occurrences_skip (i n : Nat) (s : List α) :
    occurrences at? i n s = occurrences at? (i + n) 0 (s.drop n) := by
  induction s generalizing i n with
  | nil => cases n <;> rfl
  | cons a s ih =>
    cases n with
    | zero => rfl
    | succ n =>
      rw [occurrences, ih, List.drop_succ_cons]
      congr 1
      omega

theorem occurrences_hit (hat : at?.Proper) (h : at? s = some (b, n)) (i : Nat) :
    occurrences at? i 0 s = ⟨b, i, n⟩ :: occurrences at? (i + n) 0 (s.drop n) := by
  obtain ⟨hpos, hle⟩ := hat s b n h
  cases s with
  | nil => exact absurd (Nat.lt_of_lt_of_le hpos hle) (Nat.lt_irrefl 0)
  | cons a s =>
    obtain ⟨m, rfl⟩ := Nat.exists_eq_succ_of_ne_zero (Nat.ne_of_gt hpos)
    have hnext : i + 1 + (m + 1 - 1) = i + (m + 1) := by omega
    rw [occurrences, h, List.drop_succ_cons]
    exact congrArg (_ :: ·) (by rw [occurrences_skip, hnext]; rfl)

theorem occurrences_miss (h : at? (a :: s) = none) (i : Nat) :
    occurrences at? i 0 (a :: s) = occurrences at? (i + 1) 0 s := by
  rw [occurrences, h]

@[simp] theorem matchAll_nil : matchAll at? [] = [] := rfl
@[simp] theorem replaceAll_nil : replaceAll at? f [] = [] := rfl

theorem matchAll_hit (hat : at?.Proper) (h : at? s = some (b, n)) :
    matchAll at? s = b :: matchAll at? (s.drop n) := by
  rw [matchAll, pieces_hit hat h]
  rfl

theorem replaceAll_hit (hat : at?.Proper) (h : at? s = some (b, n)) :
    replaceAll at? f s = f b ++ replaceAll at? f (s.drop n) := by
  rw [replaceAll, pieces_hit hat h]
  rfl

theorem matchAll_append (h : ∀ t, t ≠ [] → t <:+ p → at? (t ++ s) = none) :
    matchAll at? (p ++ s) = matchAll at? s := by
  rw [matchAll, pieces_append h, List.filterMap_append, List.filterMap_map, matchAll]
  simp

/-- A match is found at some place of the text. -/
theorem mem_matchAll (h : b ∈ matchAll at? s) : ∃ t n, t <:+ s ∧ at? t = some (b, n) := by
  have main : ∀ (s : List α) (m : Nat), .inr b ∈ pieces at? m s →
      ∃ t n, t <:+ s ∧ at? t = some (b, n) := by
    intro s
    induction s with
    | nil => intro m h; cases m <;> cases h
    | cons a s ih =>
      intro m h
      cases m with
      | succ m =>
        obtain ⟨t, n, ht, hat⟩ := ih m h
        exact ⟨t, n, ht.trans (List.suffix_cons a s), hat⟩
      | zero =>
        rw [pieces] at h
        split at h
        case h_1 c n heq =>
          rcases List.mem_cons.mp h with h | h
          · cases h
            exact ⟨a :: s, n, List.suffix_rfl, heq⟩
          · obtain ⟨t, n, ht, hat⟩ := ih (n - 1) h
            exact ⟨t, n, ht.trans (List.suffix_cons a s), hat⟩
        case h_2 =>
          obtain ⟨t, n, ht, hat⟩ := ih 0 ((List.mem_cons.mp h).resolve_left (by simp))
          exact ⟨t, n, ht.trans (List.suffix_cons a s), hat⟩
  obtain ⟨piece, hpiece, hb⟩ := List.mem_filterMap.mp h
  cases piece with
  | inl c => cases hb
  | inr c =>
    obtain rfl : c = b := Option.some.inj hb
    exact main s 0 hpiece

theorem replaceAll_append (h : ∀ t, t ≠ [] → t <:+ p → at? (t ++ s) = none) :
    replaceAll at? f (p ++ s) = p ++ replaceAll at? f s := by
  rw [replaceAll, pieces_append h, List.flatMap_append, List.flatMap_map, replaceAll]
  simp

theorem replaceAll_miss (h : at? (a :: s) = none) :
    replaceAll at? f (a :: s) = a :: replaceAll at? f s := by
  rw [replaceAll, pieces_miss h]
  rfl

/-- A text without a match is left as it is. -/
theorem replaceAll_of_matchAll_nil (h : matchAll at? s = []) : replaceAll at? f s = s := by
  have main : ∀ (s : List α) (n : Nat), (pieces at? n s).filterMap Sum.getRight? = [] →
      (pieces at? n s).flatMap (Sum.elim (fun a => [a]) f) = s.drop n := by
    intro s
    induction s with
    | nil => intro n _; simp [pieces]
    | cons a s ih =>
      intro n h
      cases n with
      | succ n => exact ih n h
      | zero =>
        rw [pieces] at h ⊢
        split at h
        · cases h
        · exact congrArg (a :: ·) (ih 0 h)
  exact main s 0 h

/-- Where matches, and what they are replaced by, start with a character that is not in a beginning, the
beginning is there after replacing exactly if it was there before. -/
theorem prefix_replaceAll (hat : at?.Proper)
    (hstart : ∀ s b n, at? s = some (b, n) → ∃ a, a ∉ p ∧ s.head? = some a ∧ (f b).head? = some a) :
    p <+: replaceAll at? f s ↔ p <+: s := by
  induction p generalizing s with
  | nil => simp
  | cons c p ih =>
    cases hs : at? s with
    | some r =>
      obtain ⟨b, n⟩ := r
      obtain ⟨a, ha, hhead, hfhead⟩ := hstart s b n hs
      have hac : a ≠ c := fun h => ha (h ▸ List.mem_cons_self)
      rw [replaceAll_hit hat hs]
      obtain ⟨s', rfl⟩ : ∃ s', s = a :: s' := List.head?_eq_some_iff.mp hhead
      obtain ⟨t, ht⟩ : ∃ t, f b = a :: t := List.head?_eq_some_iff.mp hfhead
      rw [ht, List.cons_append, List.cons_prefix_cons, List.cons_prefix_cons]
      exact ⟨fun h => absurd h.1.symm hac, fun h => absurd h.1.symm hac⟩
    | none =>
      cases s with
      | nil => rfl
      | cons a s =>
        rw [replaceAll_miss hs, List.cons_prefix_cons, List.cons_prefix_cons, ih]
        intro s b n h
        obtain ⟨a, ha, hhead⟩ := hstart s b n h
        exact ⟨a, fun hmem => ha (List.mem_cons_of_mem c hmem), hhead⟩

end Scan
