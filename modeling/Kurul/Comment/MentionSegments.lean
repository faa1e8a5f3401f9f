import Kurul.Comment.Mentions

/-!
# Kurul.Comment.MentionSegments

A body cut at its closing brackets. A name has no `]`, so whether a mention ends at one is decided by the
text from the last `]` up to it, and by the id behind it.

* `opener`           — where in such a text a mention starts.
* `matchAll_segment` — the mentions of a body, one closing bracket at a time.
* `replaceAll_segment` — and what replacing them makes of it.
-/

namespace Kurul

open Scan

/-- The text starts a mention whose name is the rest of it. -/
def opens : JsString → Bool
  | c :: d :: name => c = atSign && d = openBracket && decide (name.length ≤ maxMentionName)
  | _ => false

/-- The first place a mention can start at in a text without a `]`: what stands before it, and the
name. -/
def opener : JsString → Option (JsString × JsString)
  | [] => none
  | c :: s => if opens (c :: s) then some ([], s.drop 1) else (opener s).map fun r => (c :: r.1, r.2)

section Opener

variable {a pre name before after : JsString}

theorem opens_iff : opens a = true ↔ ∃ name, a = atSign :: openBracket :: name ∧
    name.length ≤ maxMentionName := by
  match a with
  | [] => simp [opens]
  | [c] => simp [opens]
  | c :: d :: name => simp [opens, and_assoc]

/-- A place a mention can start at is not before the first one. -/
theorem opener_eq_some (h : opener a = some (pre, name)) :
    a = pre ++ atSign :: openBracket :: name ∧ name.length ≤ maxMentionName ∧
      ∀ before after, a = before ++ atSign :: openBracket :: after → after.length ≤ maxMentionName →
        pre.length ≤ before.length := by
  induction a generalizing pre with
  | nil => cases h
  | cons c s ih =>
    rw [opener] at h
    split at h
    · rename_i hopens
      obtain ⟨rfl, rfl⟩ : [] = pre ∧ s.drop 1 = name := by simpa using h
      obtain ⟨name, heq, hlen⟩ := opens_iff.mp hopens
      obtain ⟨rfl, rfl⟩ : c = atSign ∧ s = openBracket :: name := by simpa using heq
      exact ⟨rfl, hlen, fun _ _ _ _ => Nat.zero_le _⟩
    · rename_i hopens
      obtain ⟨r, hr, heq⟩ := Option.map_eq_some_iff.mp h
      cases heq
      obtain ⟨hs, hlen, hfirst⟩ := ih hr
      refine ⟨congrArg (c :: ·) hs, hlen, fun before after heq hafter => ?_⟩
      cases before with
      | nil => exact absurd (opens_iff.mpr ⟨after, heq, hafter⟩) hopens
      | cons d before =>
        rw [List.cons_append, List.cons.injEq] at heq
        exact Nat.succ_le_succ (hfirst before after heq.2 hafter)

theorem opener_eq_none (h : opener a = none) (heq : a = before ++ atSign :: openBracket :: after) :
    maxMentionName < after.length := by
  induction a generalizing before with
  | nil => simp at heq
  | cons c s ih =>
    rw [opener] at h
    split at h
    · cases h
    · rename_i hopens
      cases before with
      | nil => exact Nat.lt_of_not_le fun hle => hopens (opens_iff.mpr ⟨after, heq, hle⟩)
      | cons d before =>
        rw [List.cons_append, List.cons.injEq] at heq
        exact ih (Option.map_eq_none_iff.mp h) heq.2

/-- No mention starts before the first place one can start at. -/
theorem not_opens_before (h : opener a = some (pre, name)) {t : JsString} (ht : t ≠ []) (hsuffix : t <:+ pre) :
    opens (t ++ atSign :: openBracket :: name) = false := by
  obtain ⟨heq, _, hfirst⟩ := opener_eq_some h
  obtain ⟨before, rfl⟩ := hsuffix
  refine Bool.eq_false_iff.mpr fun hopens => ?_
  obtain ⟨name', heq', hlen⟩ := opens_iff.mp hopens
  have hle := hfirst before name' (by rw [heq, ← heq', List.append_assoc]) hlen
  rw [List.length_append] at hle
  have hpos := List.length_pos_iff.mpr ht
  omega

theorem not_opens_of_none (h : opener a = none) {t : JsString} (hsuffix : t <:+ a) : opens t = false := by
  obtain ⟨before, rfl⟩ := hsuffix
  refine Bool.eq_false_iff.mpr fun hopens => ?_
  obtain ⟨name, rfl, hlen⟩ := opens_iff.mp hopens
  exact absurd (opener_eq_none h rfl) (Nat.not_lt.mpr hlen)

end Opener

section Segments

variable {a rest s id : JsString} {isId : JsString → Bool} {len : Nat} {f : Mention → JsString}

theorem nameAt_segment (ha : closeBracket ∉ a) :
    nameAt (a ++ closeBracket :: rest) = if opens a then some (a.drop 2, rest) else none := by
  match a with
  | [] =>
    cases rest with
    | nil => rfl
    | cons d rest => rfl
  | [c] =>
    have hne : ¬ closeBracket = openBracket := by decide
    simp [nameAt, opens, hne]
  | c :: d :: name =>
    have hname : closeBracket ∉ name := fun h =>
      ha (List.mem_cons_of_mem c (List.mem_cons_of_mem d h))
    have htake : (name ++ closeBracket :: rest).takeWhile (· ≠ closeBracket) = name := by
      rw [List.takeWhile_append_of_pos, List.takeWhile_cons_of_neg, List.append_nil]
      · simp
      · exact fun x hx => decide_eq_true fun heq => hname (heq ▸ hx)
    simp only [List.cons_append, nameAt, htake, opens, List.drop_left, List.drop_succ_cons,
      List.drop_zero, Bool.and_eq_true, decide_eq_true_eq, and_assoc]

theorem mentionAt_segment (ha : closeBracket ∉ a) :
    mentionAt isId len (a ++ closeBracket :: rest) = if opens a then
      (idAt isId len rest).map fun id => (⟨a.drop 2, id⟩, (a.drop 2).length + len + 5) else none := by
  rw [mentionAt, nameAt_segment ha]
  cases opens a <;> rfl

theorem mentionAt_of_head (h : s.head? ≠ some atSign) : mentionAt isId len s = none := by
  have hname : nameAt s = none := by
    match s with
    | [] => rfl
    | [c] => rfl
    | c :: d :: rest => exact if_neg fun heq => h (congrArg some heq.1)
  rw [mentionAt, hname]

theorem idAt_eq_some (h : idAt isId len s = some id) : isId id = true ∧ id.length = len ∧
    s = openParen :: id ++ closeParen :: s.drop (len + 2) := by
  cases s with
  | nil => cases h
  | cons c rest =>
    simp only [idAt] at h
    split at h
    · rename_i hmatch
      obtain ⟨rfl, hid, hhead⟩ := hmatch
      obtain rfl := Option.some.inj h
      obtain ⟨tail, htail⟩ := List.head?_eq_some_iff.mp hhead
      have hlen : len < rest.length := by
        have := congrArg List.length htail
        rw [List.length_drop, List.length_cons] at this
        omega
      refine ⟨hid, by rw [List.length_take]; omega, ?_⟩
      have hdrop : rest.drop (len + 1) = tail := by
        rw [← List.drop_drop, htail]
        rfl
      rw [List.drop_succ_cons, hdrop, List.cons_append, ← htail, List.take_append_drop]
    · cases h

theorem mentionAt_proper : (mentionAt isId len).Proper := by
  intro s m n h
  cases hname : nameAt s with
  | none =>
    rw [mentionAt, hname] at h
    cases h
  | some r =>
    obtain ⟨name, after⟩ := r
    rw [mentionAt, hname] at h
    obtain ⟨id, hid, heq⟩ := Option.map_eq_some_iff.mp h
    obtain rfl : name.length + len + 5 = n := congrArg Prod.snd heq
    obtain ⟨_, hlen, hafter⟩ := idAt_eq_some hid
    refine ⟨Nat.succ_pos _, ?_⟩
    have hlong : len + 2 ≤ after.length := by
      rw [hafter]
      simp only [List.cons_append, List.length_cons, List.length_append, hlen]
      omega
    match s with
    | [] => cases hname
    | [c] => cases hname
    | c :: d :: rest =>
      simp only [nameAt] at hname
      split at hname
      · split at hname
        · rename_i x y hdrop
          obtain ⟨rfl, rfl⟩ := Prod.mk.inj (Option.some.inj hname)
          have hsize := congrArg List.length hdrop
          rw [List.length_drop, List.length_cons] at hsize
          rw [List.length_cons, List.length_cons]
          omega
        · cases hname
      · cases hname

/-- At a closing bracket a mention ends, and starts at the first place that can, or none does. -/
theorem segment_cases (ha : closeBracket ∉ a) (rest : JsString) :
    (∃ pre name id, opener a = some (pre, name) ∧ idAt isId len rest = some id ∧
      a = pre ++ atSign :: openBracket :: name ∧
      (∀ t, t ≠ [] → t <:+ pre →
        mentionAt isId len (t ++ (atSign :: openBracket :: name ++ closeBracket :: rest)) = none) ∧
      mentionAt isId len (atSign :: openBracket :: name ++ closeBracket :: rest) =
        some (⟨name, id⟩, name.length + len + 5)) ∨
    ((opener a = none ∨ idAt isId len rest = none) ∧
      ∀ t, t ≠ [] → t <:+ a ++ [closeBracket] → mentionAt isId len (t ++ rest) = none) := by
  have hsegment : ∀ t, t <:+ a → mentionAt isId len (t ++ closeBracket :: rest) = if opens t then
      (idAt isId len rest).map fun id => (⟨t.drop 2, id⟩, (t.drop 2).length + len + 5) else none :=
    fun t ht => mentionAt_segment fun hmem => ha (ht.subset hmem)
  by_cases hboth : ∃ r id, opener a = some r ∧ idAt isId len rest = some id
  · obtain ⟨⟨pre, name⟩, id, hopener, hid⟩ := hboth
    obtain ⟨heq, hlen, _⟩ := opener_eq_some hopener
    refine .inl ⟨pre, name, id, hopener, hid, heq, fun t ht hsuffix => ?_, ?_⟩
    · have hsuf : t ++ atSign :: openBracket :: name <:+ a := by
        obtain ⟨before, rfl⟩ := hsuffix
        exact ⟨before, by rw [heq, List.append_assoc]⟩
      rw [← List.append_assoc, hsegment _ hsuf, not_opens_before hopener ht hsuffix]
      rfl
    · have hsuf : atSign :: openBracket :: name <:+ a := ⟨pre, heq.symm⟩
      rw [hsegment _ hsuf, if_pos (opens_iff.mpr ⟨name, rfl, hlen⟩), hid]
      rfl
  · have hnone : opener a = none ∨ idAt isId len rest = none := by
      cases hopener : opener a with
      | none => exact .inl rfl
      | some r =>
        cases hid : idAt isId len rest with
        | none => exact .inr rfl
        | some id => exact absurd ⟨r, id, hopener, hid⟩ hboth
    refine .inr ⟨hnone, fun t ht hsuffix => ?_⟩
    obtain ⟨t', rfl, ht'⟩ : ∃ t', t = t' ++ [closeBracket] ∧ t' <:+ a := by
      obtain ⟨before, heq⟩ := hsuffix
      have hlast : t.getLast ht = closeBracket := by
        have := congrArg List.getLast? heq
        rw [List.getLast?_append_of_ne_nil _ ht, List.getLast?_concat, List.getLast?_eq_some_getLast ht]
          at this
        exact Option.some.inj this
      refine ⟨t.dropLast, by rw [← hlast, List.dropLast_append_getLast], ⟨before, ?_⟩⟩
      rw [← List.dropLast_append_getLast ht, hlast, ← List.append_assoc] at heq
      exact List.append_cancel_right heq
    rw [List.append_assoc, List.singleton_append, hsegment t' ht']
    rcases hnone with hnone | hnone
    · rw [not_opens_of_none hnone ht']
      rfl
    · rw [hnone]
      exact ite_self _

/-- What follows a mention. -/
theorem drop_mention (name rest : JsString) :
    (atSign :: openBracket :: name ++ closeBracket :: rest).drop (name.length + len + 5) =
      rest.drop (len + 2) := by
  have hlen : name.length + len + 5 = (atSign :: openBracket :: name).length + (len + 3) := by
    simp only [List.length_cons]
    omega
  rw [hlen, ← List.drop_drop, List.drop_left]
  rfl

/-- No mention starts in an id. -/
theorem quiet_id (h : ∀ c ∈ id, c ≠ atSign) {t : JsString} (ht : t ≠ [])
    (hsuffix : t <:+ openParen :: id ++ [closeParen]) (s : JsString) : mentionAt isId len (t ++ s) = none := by
  refine mentionAt_of_head fun hhead => ?_
  obtain ⟨c, t, rfl⟩ := List.exists_cons_of_ne_nil ht
  obtain rfl : c = atSign := Option.some.inj hhead
  have hmem := hsuffix.subset List.mem_cons_self
  simp only [List.cons_append, List.mem_cons, List.mem_append, List.not_mem_nil, or_false] at hmem
  rcases hmem with hmem | hmem | hmem
  · cases hmem
  · exact h _ hmem rfl
  · cases hmem

variable (hplain : ∀ id, isId id = true → ∀ c ∈ id, c ≠ atSign)

include hplain in
/-- The mentions of a body, one closing bracket at a time. -/
theorem matchAll_segment (ha : closeBracket ∉ a) (rest : JsString) :
    matchAll (mentionAt isId len) (a ++ closeBracket :: rest) = match idAt isId len rest with
      | none => matchAll (mentionAt isId len) rest
      | some id => (opener a).toList.map (fun r => ⟨r.2, id⟩) ++
          matchAll (mentionAt isId len) (rest.drop (len + 2)) := by
  have hskip : ∀ id, idAt isId len rest = some id → matchAll (mentionAt isId len) rest =
      matchAll (mentionAt isId len) (rest.drop (len + 2)) := by
    intro id hid
    have heq : rest = (openParen :: id ++ [closeParen]) ++ rest.drop (len + 2) := by
      simpa using (idAt_eq_some hid).2.2
    conv_lhs => rw [heq]
    exact matchAll_append fun t ht hsuffix => quiet_id (hplain id (idAt_eq_some hid).1) ht hsuffix _
  rcases @segment_cases a isId len ha rest with
    ⟨pre, name, id, hopener, hid, rfl, hquiet, hmatch⟩ | ⟨hnone, hquiet⟩
  · rw [List.append_assoc, matchAll_append hquiet, matchAll_hit mentionAt_proper hmatch, hid, hopener]
    rw [drop_mention]
    rfl
  · have hall : matchAll (mentionAt isId len) (a ++ closeBracket :: rest) =
        matchAll (mentionAt isId len) rest := by
      rw [← List.singleton_append, ← List.append_assoc]
      exact matchAll_append hquiet
    rw [hall]
    cases hid : idAt isId len rest with
    | none => rfl
    | some id =>
      rw [hnone.resolve_right (by simp [hid]), hskip id hid]
      rfl

include hplain in
/-- What replacing the mentions makes of a body, one closing bracket at a time. -/
theorem replaceAll_segment (ha : closeBracket ∉ a) (rest : JsString) :
    replaceAll (mentionAt isId len) f (a ++ closeBracket :: rest) = match idAt isId len rest with
      | none => a ++ closeBracket :: replaceAll (mentionAt isId len) f rest
      | some id => (match opener a with
          | some (pre, name) => pre ++ f ⟨name, id⟩
          | none => a ++ closeBracket :: openParen :: id ++ [closeParen]) ++
          replaceAll (mentionAt isId len) f (rest.drop (len + 2)) := by
  have hskip : ∀ id, idAt isId len rest = some id → replaceAll (mentionAt isId len) f rest =
      (openParen :: id ++ [closeParen]) ++ replaceAll (mentionAt isId len) f (rest.drop (len + 2)) := by
    intro id hid
    have heq : rest = (openParen :: id ++ [closeParen]) ++ rest.drop (len + 2) := by
      simpa using (idAt_eq_some hid).2.2
    conv_lhs => rw [heq]
    exact replaceAll_append fun t ht hsuffix => quiet_id (hplain id (idAt_eq_some hid).1) ht hsuffix _
  rcases @segment_cases a isId len ha rest with
    ⟨pre, name, id, hopener, hid, rfl, hquiet, hmatch⟩ | ⟨hnone, hquiet⟩
  · rw [List.append_assoc, replaceAll_append hquiet, replaceAll_hit mentionAt_proper hmatch, hid, hopener]
    rw [drop_mention]
    exact (List.append_assoc _ _ _).symm
  · have hall : replaceAll (mentionAt isId len) f (a ++ closeBracket :: rest) =
        a ++ closeBracket :: replaceAll (mentionAt isId len) f rest := by
      rw [← List.singleton_append, ← List.append_assoc, replaceAll_append hquiet]
      simp
    rw [hall]
    cases hid : idAt isId len rest with
    | none => rfl
    | some id =>
      rw [hnone.resolve_right (by simp [hid]), hskip id hid]
      simp

/-- Every body is a text without `]`, or such a text, a `]` and a shorter body. -/
theorem segment_induction {P : JsString → Prop} (hlast : ∀ a, closeBracket ∉ a → P a)
    (hstep : ∀ a rest, closeBracket ∉ a → (∀ s, s.length ≤ rest.length → P s) →
      P (a ++ closeBracket :: rest)) : ∀ body, P body := by
  have main : ∀ (n : Nat) (body : JsString), body.length ≤ n → P body := by
    intro n
    induction n with
    | zero =>
      intro body h
      obtain rfl := List.eq_nil_of_length_eq_zero (Nat.le_zero.mp h)
      exact hlast [] List.not_mem_nil
    | succ n ih =>
      intro body h
      by_cases hmem : closeBracket ∈ body
      · obtain ⟨a, rest, rfl, ha⟩ := List.eq_append_cons_of_mem hmem
        refine hstep a rest ha fun s hs => ih s ?_
        rw [List.length_append, List.length_cons] at h
        omega
      · exact hlast body hmem
  exact fun body => main body.length body le_rfl

/-- Without a `]` there is no mention. -/
theorem matchAll_last (ha : closeBracket ∉ a) : matchAll (mentionAt isId len) a = [] := by
  have hquiet : ∀ t, t ≠ [] → t <:+ a → mentionAt isId len (t ++ []) = none := by
    intro t _ hsuffix
    rw [List.append_nil, mentionAt]
    have hname : nameAt t = none := by
      match t with
      | [] => rfl
      | [c] => rfl
      | c :: d :: rest =>
        have hrest : rest.takeWhile (· ≠ closeBracket) = rest := by
          refine List.takeWhile_eq_self_iff.mpr fun x hx => decide_eq_true fun heq => ha ?_
          exact hsuffix.subset (List.mem_cons_of_mem c (List.mem_cons_of_mem d (heq ▸ hx)))
        simp only [nameAt, hrest, List.drop_length, ite_self]
    rw [hname]
  have hall := matchAll_append hquiet
  rwa [List.append_nil, matchAll_nil] at hall

end Segments
end Kurul
