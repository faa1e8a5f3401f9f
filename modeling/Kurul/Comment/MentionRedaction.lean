import Kurul.Comment.MentionSegments

/-!
# Kurul.Comment.MentionRedaction

What rewriting the mentions of one user does to a body.

* `redact_others` — the mentions of everybody else stay.
* `redact_names`  — the user's mentions have the new name, unless the new name brings an earlier `@[`
  within reach of the closing bracket.
* `matchAll_sameId` — what is rewritten are the mentions of the user that are read in the body.
* `redact_unmentioned` — a body without a mention of the user stays as it is.
-/

namespace Kurul

open Scan

/-- An `@[` too far from the end of a mention of the user to start it, which the new name brings near
enough. -/
def Reopens (userId replacement body : JsString) : Prop :=
  ∃ before between name id after,
    body = before ++ js "@[" ++ between ++ js "@[" ++ name ++ js "](" ++ id ++ js ")" ++ after ∧
    closeBracket ∉ between ∧ closeBracket ∉ name ∧ sameId userId id = true ∧
    name.length ≤ maxMentionName ∧ maxMentionName < between.length + 2 + name.length ∧
    between.length + 2 + replacement.length ≤ maxMentionName

/-- The first closing bracket is in one place. -/
theorem first_bracket {a b s t : JsString} (ha : closeBracket ∉ a) (hb : closeBracket ∉ b)
    (h : a ++ closeBracket :: s = b ++ closeBracket :: t) : a = b ∧ s = t := by
  induction a generalizing b with
  | nil =>
    cases b with
    | nil => exact ⟨rfl, (List.cons.inj h).2⟩
    | cons d b => exact absurd ((List.cons.inj h).1 ▸ List.mem_cons_self) hb
  | cons c a ih =>
    cases b with
    | nil => exact absurd ((List.cons.inj h).1 ▸ List.mem_cons_self) ha
    | cons d b =>
      obtain ⟨rfl, htail⟩ := List.cons.inj h
      obtain ⟨rfl, rfl⟩ := ih (List.not_mem_of_not_mem_cons ha) (List.not_mem_of_not_mem_cons hb) htail
      exact ⟨rfl, rfl⟩

theorem js_open : js "@[" = [atSign, openBracket] := by decide
theorem js_middle : js "](" = [closeBracket, openParen] := by decide
theorem js_close : js ")" = [closeParen] := by decide

/-- In a short body no `@[` is that far from the end of a mention. -/
theorem not_reopens_of_short {userId replacement body : JsString} (h : body.length ≤ maxMentionName) :
    ¬ Reopens userId replacement body := by
  intro hopens
  obtain ⟨before, between, name, id, after, rfl, _, _, _, _, hfar, _⟩ := hopens
  simp only [List.length_append, js_open, List.length_cons, List.length_nil] at h
  omega

section Ids

variable {isId : JsString → Bool} {len : Nat} {s id userId : JsString}

theorem idAt_iff : idAt isId len s = some id ↔
    isId id = true ∧ id.length = len ∧ openParen :: id ++ [closeParen] <+: s := by
  constructor
  · intro h
    obtain ⟨hid, hlen, hs⟩ := idAt_eq_some h
    exact ⟨hid, hlen, s.drop (len + 2), by simpa using hs.symm⟩
  · intro h
    obtain ⟨hid, rfl, t, rfl⟩ := h
    simp [idAt, hid]

/-- An id of the user is an id. -/
theorem idAt_sameId (hu : isUuid7 userId = true) : idAt (sameId userId) userId.length s =
    (idAt isUuid7 36 s).filter fun id => sameId userId id := by
  refine Option.ext fun id => ?_
  rw [Option.filter_eq_some_iff, idAt_iff, idAt_iff, isUuid7_length hu]
  constructor
  · intro h
    exact ⟨⟨isUuid7_of_sameId hu h.1, h.2⟩, h.1⟩
  · intro h
    exact ⟨h.2, h.1.2⟩

end Ids

/-- The same for the text up to the closing bracket. -/
def ReopensAt (replacement a : JsString) : Prop :=
  ∃ before between name, a = before ++ atSign :: openBracket :: between ++ atSign :: openBracket :: name ∧
    name.length ≤ maxMentionName ∧ maxMentionName < between.length + 2 + name.length ∧
    between.length + 2 + replacement.length ≤ maxMentionName

/-- A mention of the user with the new name is read with it, unless an earlier `@[` is near enough. -/
theorem opener_replacement {a pre name replacement : JsString}
    (h : opener a = some (pre, name)) (hlen : replacement.length ≤ maxMentionName) :
    ((opener (pre ++ atSign :: openBracket :: replacement)).map Prod.snd = some replacement) ↔
      ¬ ReopensAt replacement a := by
  obtain ⟨rfl, hname, hfirst⟩ := opener_eq_some h
  -- an `@[` before the mention ends before it
  have hsplit : ∀ before after tail, pre ++ atSign :: openBracket :: tail =
      before ++ atSign :: openBracket :: after → before.length < pre.length →
      ∃ between, pre = before ++ atSign :: openBracket :: between ∧
        after = between ++ atSign :: openBracket :: tail := by
    intro before after tail heq hlt
    obtain ⟨more, rfl, htail⟩ : ∃ more, pre = before ++ more ∧
        more ++ atSign :: openBracket :: tail = atSign :: openBracket :: after := by
      rcases List.append_eq_append_iff.mp heq with ⟨more, rfl, htail⟩ | ⟨more, rfl, htail⟩
      · simp at hlt
      · exact ⟨more, rfl, htail.symm⟩
    match more with
    | [] => simp at hlt
    | [c] =>
      simp only [List.singleton_append, List.cons.injEq] at htail
      exact absurd htail.2.1 (by decide)
    | c :: d :: between =>
      simp only [List.cons_append, List.cons.injEq] at htail
      obtain ⟨rfl, rfl, rfl⟩ := htail
      exact ⟨between, rfl, rfl⟩
  cases hopener : opener (pre ++ atSign :: openBracket :: replacement) with
  | none => exact absurd (opener_eq_none hopener rfl) (Nat.not_lt.mpr hlen)
  | some r =>
    obtain ⟨pre', name'⟩ := r
    obtain ⟨heq, hname', hfirst'⟩ := opener_eq_some hopener
    have hle := hfirst' pre replacement rfl hlen
    simp only [Option.map_some, Option.some.injEq]
    constructor
    · rintro rfl ⟨before, between, last, ha, hlast, hfar, hnear⟩
      have hpre : pre' = pre := by
        have hsame := List.append_inj_left' heq rfl
        exact hsame.symm
      have hbefore := hfirst (before ++ atSign :: openBracket :: between) last (by rw [ha]) hlast
      have hlt : before.length < pre.length := by
        have hall := congrArg List.length ha
        simp only [List.length_append, List.length_cons] at hall hbefore
        omega
      obtain ⟨mid, rfl, _⟩ := hsplit before (between ++ atSign :: openBracket :: last) name
        (by rw [ha]; simp) hlt
      have hreach := hfirst' before (mid ++ atSign :: openBracket :: name') (by simp) ?_
      · rw [hpre] at hreach
        omega
      · simp only [List.length_append, List.length_cons] at hbefore ⊢
        omega
    · intro hnone
      by_contra hne
      have hlt : pre'.length < pre.length := by
        refine Nat.lt_of_le_of_ne hle fun hlen' => hne ?_
        have hsame := (List.append_inj heq hlen'.symm).2
        simpa using hsame.symm
      obtain ⟨between, rfl, rfl⟩ := hsplit pre' name' replacement heq hlt
      refine hnone ⟨pre', between, name, by simp, hname, ?_, ?_⟩
      · by_contra hnear
        have hreach := hfirst pre' (between ++ atSign :: openBracket :: name) (by simp) (by
          simp only [List.length_append, List.length_cons]
          omega)
        omega
      · simp only [List.length_append, List.length_cons] at hname'
        omega

section Redact

variable {userId replacement a rest body id : JsString}

theorem uuid7_plain (id : JsString) (h : isUuid7 id = true) : ∀ c ∈ id, c ≠ atSign :=
  fun c hc => (isUuid7_plain h c hc).1

/-- The id behind a closing bracket is the same before and after. -/
theorem idAt_redact (rest : JsString) :
    idAt isUuid7 36 (redactMentionsOf rest userId replacement) = idAt isUuid7 36 rest := by
  refine Option.ext fun id => ?_
  rw [idAt_iff, idAt_iff]
  refine and_congr_right fun hid => and_congr_right fun _ => ?_
  refine prefix_replaceAll mentionAt_proper fun s m n hm => ⟨atSign, ?_, ?_, rfl⟩
  · intro hmem
    simp only [List.cons_append, List.mem_cons, List.mem_append, List.not_mem_nil, or_false] at hmem
    rcases hmem with hmem | hmem | hmem
    · cases hmem
    · exact uuid7_plain id hid _ hmem rfl
    · cases hmem
  · by_contra hhead
    rw [mentionAt_of_head hhead] at hm
    cases hm

theorem drop_redact (hid : idAt isUuid7 36 rest = some id) :
    redactMentionsOf rest userId replacement =
      openParen :: id ++ closeParen :: redactMentionsOf (rest.drop 38) userId replacement := by
  obtain ⟨huuid, _, hrest⟩ := idAt_eq_some hid
  have heq : rest = (openParen :: id ++ [closeParen]) ++ rest.drop 38 := by
    simpa using hrest
  have happend : redactMentionsOf ((openParen :: id ++ [closeParen]) ++ rest.drop 38) userId replacement =
      (openParen :: id ++ [closeParen]) ++ redactMentionsOf (rest.drop 38) userId replacement :=
    replaceAll_append fun t ht hsuffix => quiet_id (uuid7_plain id huuid) ht hsuffix _
  rw [← heq] at happend
  simpa using happend

/-- Behind an id with its brackets the text goes on. -/
theorem drop_id (hid : isUuid7 id = true) (s : JsString) :
    (openParen :: id ++ closeParen :: s).drop 38 = s := by
  have hsplit : openParen :: id ++ closeParen :: s = (openParen :: id ++ [closeParen]) ++ s := by simp
  have hlen : 38 = (openParen :: id ++ [closeParen]).length := by simp [isUuid7_length hid]
  rw [hsplit, hlen, List.drop_left]

variable (hu : isUuid7 userId = true)

include hu

theorem sameId_plain (id : JsString) (h : sameId userId id = true) : ∀ c ∈ id, c ≠ atSign :=
  uuid7_plain id (isUuid7_of_sameId hu h)

/-- What is rewritten are the mentions of the user that are read in the body. -/
theorem matchAll_sameId (body : JsString) : matchAll (mentionAt (sameId userId) userId.length) body =
    (mentionsIn body).filter fun m => sameId userId m.userId := by
  rw [isUuid7_length hu]
  unfold mentionsIn mentionRe
  induction body using segment_induction with
  | hlast a ha => rw [matchAll_last ha, matchAll_last ha]; rfl
  | hstep a rest ha ih =>
    have hsame := @idAt_sameId rest userId hu
    rw [isUuid7_length hu] at hsame
    have hplain := sameId_plain hu
    rw [matchAll_segment hplain ha, matchAll_segment uuid7_plain ha, hsame]
    cases hid : idAt isUuid7 36 rest with
    | none => exact ih rest le_rfl
    | some id =>
      have hrest := ih (rest.drop 38) (by rw [List.length_drop]; omega)
      cases hmine : sameId userId id with
      | true =>
        rw [Option.filter_some_pos hmine]
        simp only [List.filter_append, hrest, List.filter_map]
        simp [Function.comp_def, hmine]
      | false =>
        obtain ⟨huuid, _, hsplit⟩ := idAt_eq_some hid
        have heq : rest = (openParen :: id ++ [closeParen]) ++ rest.drop 38 := by simpa using hsplit
        -- nothing starts in the id of another
        have hskip : matchAll (mentionAt (sameId userId) 36) rest =
            matchAll (mentionAt (sameId userId) 36) (rest.drop 38) := by
          conv_lhs => rw [heq]
          exact matchAll_append fun t ht hsuffix => quiet_id (uuid7_plain id huuid) ht hsuffix _
        rw [Option.filter_some_neg (by simp [hmine])]
        simp only [List.filter_append, hskip, hrest, List.filter_map]
        simp [Function.comp_def, hmine]

variable (hbracket : closeBracket ∉ replacement)

include hbracket

/-- The mentions after rewriting, one closing bracket at a time. -/
theorem mentionsIn_redact (ha : closeBracket ∉ a) (rest : JsString) :
    mentionsIn (redactMentionsOf (a ++ closeBracket :: rest) userId replacement) =
      match idAt isUuid7 36 rest with
      | none => mentionsIn (redactMentionsOf rest userId replacement)
      | some id => (match opener a with
          | none => []
          | some (pre, name) => if sameId userId id = true then
              (opener (pre ++ atSign :: openBracket :: replacement)).toList.map fun r => ⟨r.2, userId⟩
            else [⟨name, id⟩]) ++
          mentionsIn (redactMentionsOf (rest.drop 38) userId replacement) := by
  have hkept : (∀ id, idAt isUuid7 36 rest = some id → opener a = none ∨ sameId userId id = false) →
      redactMentionsOf (a ++ closeBracket :: rest) userId replacement =
        a ++ closeBracket :: redactMentionsOf rest userId replacement := by
    intro h
    rw [redactMentionsOf, replaceAll_segment (sameId_plain hu) ha, idAt_sameId hu]
    cases hid : idAt isUuid7 36 rest with
    | none => rfl
    | some id =>
      rcases h id hid with hnone | hother
      · cases hsame : sameId userId id with
        | false =>
          rw [Option.filter_some_neg (by simp [hsame])]
          rfl
        | true =>
          have hdrop : redactMentionsOf rest userId replacement =
              openParen :: id ++ closeParen :: redactMentionsOf (rest.drop 38) userId replacement :=
            drop_redact hid
          rw [Option.filter_some_pos hsame, hnone]
          simp only [isUuid7_length hu, List.append_assoc, List.cons_append, List.nil_append,
            List.append_cancel_left_eq, List.cons.injEq, true_and]
          simpa [redactMentionsOf, isUuid7_length hu] using hdrop.symm
      · rw [Option.filter_some_neg (by simp [hother])]
        rfl
  have hsame : redactMentionsOf (a ++ closeBracket :: rest) userId replacement =
        a ++ closeBracket :: redactMentionsOf rest userId replacement →
      mentionsIn (redactMentionsOf (a ++ closeBracket :: rest) userId replacement) =
        match idAt isUuid7 36 rest with
        | none => mentionsIn (redactMentionsOf rest userId replacement)
        | some id => (opener a).toList.map (fun r => ⟨r.2, id⟩) ++
            mentionsIn (redactMentionsOf (rest.drop 38) userId replacement) := by
    intro h
    rw [h, mentionsIn, mentionRe, matchAll_segment uuid7_plain ha, idAt_redact]
    cases hid : idAt isUuid7 36 rest with
    | none => rfl
    | some id =>
      rw [drop_redact hid]
      dsimp only
      rw [drop_id (idAt_eq_some hid).1]
      rfl
  cases hid : idAt isUuid7 36 rest with
  | none =>
    rw [hsame (hkept fun id h => by rw [hid] at h; cases h), hid]
  | some id =>
    cases hopener : opener a with
    | none =>
      rw [hsame (hkept fun _ _ => .inl hopener), hid, hopener]
      rfl
    | some r =>
      obtain ⟨pre, name⟩ := r
      cases hmine : sameId userId id with
      | false =>
        rw [hsame (hkept fun id' h => .inr (by rw [hid] at h; cases h; exact hmine)), hid, hopener]
        simp [hmine]
      | true =>
        obtain ⟨rfl, _, _⟩ := opener_eq_some hopener
        have hpre : closeBracket ∉ pre ++ atSign :: openBracket :: replacement := by
          intro hmem
          simp only [List.mem_append, List.mem_cons] at hmem ha
          rcases hmem with hmem | hmem | hmem | hmem
          · exact ha (.inl hmem)
          · cases hmem
          · cases hmem
          · exact hbracket hmem
        have hredact : redactMentionsOf (pre ++ atSign :: openBracket :: name ++ closeBracket :: rest)
            userId replacement = (pre ++ atSign :: openBracket :: replacement) ++ closeBracket ::
              (openParen :: userId ++ closeParen ::
                redactMentionsOf (rest.drop 38) userId replacement) := by
          rw [redactMentionsOf, replaceAll_segment (sameId_plain hu) ha, idAt_sameId hu, hid,
            Option.filter_some_pos hmine, hopener]
          simp [js_open, js_middle, js_close, redactMentionsOf, isUuid7_length hu]
        have hclose : idAt isUuid7 36 (openParen :: userId ++ closeParen ::
            redactMentionsOf (rest.drop 38) userId replacement) = some userId :=
          idAt_iff.mpr ⟨hu, isUuid7_length hu, redactMentionsOf (rest.drop 38) userId replacement,
            by simp⟩
        rw [hredact, mentionsIn, mentionRe, matchAll_segment uuid7_plain hpre, hclose]
        dsimp only
        rw [drop_id hu, if_pos hmine]
        rfl

/-- Mentions of others stay as they are. -/
theorem redact_others (body : JsString) :
    (mentionsIn (redactMentionsOf body userId replacement)).filter (fun m => !sameId userId m.userId) =
      (mentionsIn body).filter fun m => !sameId userId m.userId := by
  induction body using segment_induction with
  | hlast a ha =>
    have hplain : redactMentionsOf a userId replacement = a := replaceAll_of_matchAll_nil (matchAll_last ha)
    rw [hplain]
  | hstep a rest ha ih =>
    have hbody := @matchAll_segment a _ 36 uuid7_plain ha rest
    rw [mentionsIn_redact hu hbracket ha, show mentionsIn (a ++ closeBracket :: rest) = _ from hbody]
    cases idAt isUuid7 36 rest with
    | none => exact ih rest le_rfl
    | some id =>
      have hrest := ih (rest.drop 38) (by rw [List.length_drop]; omega)
      dsimp only
      rw [List.filter_append, List.filter_append, hrest]
      refine congrArg (· ++ _) ?_
      cases opener a with
      | none => rfl
      | some r =>
        cases hmine : sameId userId id with
        | false => simp
        | true =>
          simp only [if_true, Option.toList_some, List.map_cons, List.map_nil]
          rw [List.filter_cons_of_neg (by simp [hmine]), List.filter_nil]
          refine List.filter_eq_nil_iff.mpr fun m hm => ?_
          obtain ⟨_, _, rfl⟩ := List.mem_map.mp hm
          simp

end Redact

/-- A body without a mention of the user stays as it is. -/
theorem redact_unmentioned {userId body : JsString} (hu : isUuid7 userId = true) (replacement : JsString)
    (h : ∀ m ∈ mentionsIn body, sameId userId m.userId = false) :
    redactMentionsOf body userId replacement = body := by
  refine replaceAll_of_matchAll_nil ?_
  rw [matchAll_sameId hu, List.filter_eq_nil_iff]
  intro m hm
  simp [h m hm]

/-- An `@[` brought near enough is before the first closing bracket, or in what follows it. -/
theorem reopens_segment {userId replacement a rest : JsString} (hu : isUuid7 userId = true)
    (ha : closeBracket ∉ a) :
    Reopens userId replacement (a ++ closeBracket :: rest) ↔
      (∃ id, idAt isUuid7 36 rest = some id ∧ sameId userId id = true ∧ ReopensAt replacement a) ∨
        Reopens userId replacement rest := by
  constructor
  · intro h
    obtain ⟨before, between, name, id, after, heq, hbetween, hname, hid, hle, hfar, hnear⟩ := h
    have huuid := isUuid7_of_sameId hu hid
    by_cases hbefore : closeBracket ∈ before
    · obtain ⟨a', before', rfl, ha'⟩ := List.eq_append_cons_of_mem hbefore
      simp only [List.append_assoc, List.cons_append] at heq
      obtain ⟨_, hrest⟩ := first_bracket ha ha' heq
      exact .inr ⟨before', between, name, id, after, by simp [hrest], hbetween, hname, hid, hle, hfar,
        hnear⟩
    · have hfirst : closeBracket ∉ before ++ atSign :: openBracket :: between ++
          atSign :: openBracket :: name := by
        intro hmem
        simp only [List.mem_append, List.mem_cons] at hmem
        rcases hmem with (hmem | hmem | hmem | hmem) | hmem | hmem | hmem
        · exact hbefore hmem
        · cases hmem
        · cases hmem
        · exact hbetween hmem
        · cases hmem
        · cases hmem
        · exact hname hmem
      have hsplit : a ++ closeBracket :: rest = (before ++ atSign :: openBracket :: between ++
          atSign :: openBracket :: name) ++ closeBracket :: (openParen :: id ++ closeParen :: after) := by
        rw [heq]
        simp [js_open, js_middle, js_close]
      obtain ⟨rfl, rfl⟩ := first_bracket ha hfirst hsplit
      exact .inl ⟨id, idAt_iff.mpr ⟨huuid, isUuid7_length huuid, after, by simp⟩, hid,
        before, between, name, rfl, hle, hfar, hnear⟩
  · intro h
    rcases h with ⟨id, hid, hmine, before, between, name, rfl, hle, hfar, hnear⟩ | h
    · obtain ⟨_, _, hrest⟩ := idAt_eq_some hid
      simp only [List.mem_append, List.mem_cons, not_or] at ha
      refine ⟨before, between, name, id, rest.drop 38, ?_, ha.1.2.2.2, ha.2.2.2, hmine, hle, hfar, hnear⟩
      conv_lhs => rw [hrest]
      simp [js_open, js_middle, js_close]
    · obtain ⟨before, between, name, id, after, rfl, hrest⟩ := h
      exact ⟨a ++ closeBracket :: before, between, name, id, after, by simp, hrest⟩

/-- Nor is it in the id behind the bracket. -/
theorem reopens_drop {userId replacement rest id : JsString} (hid : idAt isUuid7 36 rest = some id) :
    Reopens userId replacement rest ↔ Reopens userId replacement (rest.drop 38) := by
  obtain ⟨huuid, _, hrest⟩ := idAt_eq_some hid
  have hsplit : rest = (openParen :: id ++ [closeParen]) ++ rest.drop 38 := by simpa using hrest
  have hplain : atSign ∉ openParen :: id ++ [closeParen] := by
    intro hmem
    simp only [List.cons_append, List.mem_cons, List.mem_append, List.not_mem_nil, or_false] at hmem
    rcases hmem with hmem | hmem | hmem
    · cases hmem
    · exact uuid7_plain id huuid _ hmem rfl
    · cases hmem
  constructor
  · intro h
    obtain ⟨before, between, name, id', after, heq, hwhere⟩ := h
    have hat : (openParen :: id ++ [closeParen]) ++ rest.drop 38 = before ++ atSign ::
        (openBracket :: between ++ js "@[" ++ name ++ js "](" ++ id' ++ js ")" ++ after) := by
      rw [← hsplit, heq]
      simp [js_open]
    obtain ⟨more, rfl, hmore⟩ : ∃ more, before = (openParen :: id ++ [closeParen]) ++ more ∧
        rest.drop 38 = more ++ atSign ::
          (openBracket :: between ++ js "@[" ++ name ++ js "](" ++ id' ++ js ")" ++ after) := by
      rcases List.append_eq_append_iff.mp hat with ⟨more, hbefore, htail⟩ | ⟨more, hp, htail⟩
      · exact ⟨more, hbefore, htail⟩
      · cases more with
        | nil => exact ⟨[], by rw [hp, List.append_nil, List.append_nil], htail.symm⟩
        | cons c more =>
          obtain ⟨rfl, _⟩ := List.cons.inj htail
          exact absurd (hp ▸ List.mem_append_right _ List.mem_cons_self) hplain
    exact ⟨more, between, name, id', after, by rw [hmore]; simp [js_open], hwhere⟩
  · intro h
    obtain ⟨before, between, name, id', after, heq, hwhere⟩ := h
    refine ⟨(openParen :: id ++ [closeParen]) ++ before, between, name, id', after, ?_, hwhere⟩
    conv_lhs => rw [hsplit, heq]
    simp

/-- The user's mentions have the new name, unless it brings an earlier `@[` near enough. -/
theorem redact_names {userId replacement body : JsString} (hu : isUuid7 userId = true)
    (hbracket : closeBracket ∉ replacement) (hlen : replacement.length ≤ maxMentionName) :
    (∀ m ∈ mentionsIn (redactMentionsOf body userId replacement),
      sameId userId m.userId = true → m.name = replacement) ↔ ¬ Reopens userId replacement body := by
  induction body using segment_induction with
  | hlast a ha =>
    have hplain : redactMentionsOf a userId replacement = a := replaceAll_of_matchAll_nil (matchAll_last ha)
    rw [hplain, mentionsIn, mentionRe, matchAll_last ha]
    refine ⟨fun _ h => ?_, fun _ m hm => by cases hm⟩
    obtain ⟨before, between, name, id, after, rfl, _⟩ := h
    exact ha (by simp [js_middle])
  | hstep a rest ha ih =>
    rw [mentionsIn_redact hu hbracket ha, reopens_segment hu ha]
    cases hid : idAt isUuid7 36 rest with
    | none => simpa using ih rest le_rfl
    | some id =>
      rw [reopens_drop hid]
      have hrest := ih (rest.drop 38) (by rw [List.length_drop]; omega)
      dsimp only
      simp only [List.mem_append, or_imp, forall_and, hrest, not_or, Option.some.injEq,
        exists_eq_left']
      refine and_congr_left fun _ => ?_
      cases hopener : opener a with
      | none =>
        refine ⟨fun _ h => ?_, fun _ m hm => by cases hm⟩
        obtain ⟨before, between, name, rfl, hle, _⟩ := h.2
        exact absurd hle (Nat.not_le.mpr (opener_eq_none hopener rfl))
      | some r =>
        obtain ⟨pre, name⟩ := r
        cases hmine : sameId userId id with
        | false => simp [hmine]
        | true =>
          have hnew := opener_replacement hopener hlen
          have hsome : (opener (pre ++ atSign :: openBracket :: replacement)).isSome = true := by
            by_contra hnone
            rw [Option.not_isSome_iff_eq_none] at hnone
            exact absurd (opener_eq_none hnone rfl) (Nat.not_lt.mpr hlen)
          obtain ⟨r, hr⟩ := Option.isSome_iff_exists.mp hsome
          dsimp only
          rw [hr] at hnew ⊢
          simpa using hnew

end Kurul
