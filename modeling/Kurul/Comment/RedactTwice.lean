import Kurul.Comment.MentionMarkup

/-!
# Kurul.Comment.RedactTwice

A body whose mentions of one user have been rewritten.

* `redact_sameAround`   — around them the body stays.
* `userIds_redact`      — the users mentioned are the same, in the same order.
* `redact_twice_iff`    — rewriting again changes nothing, unless the new name brings an earlier `@[`
  within reach of a closing bracket.
-/

namespace Kurul

open Scan

/-- `DEFAULT_MENTION_REDACTION`. -/
def defaultMentionRedaction : JsString := js "Deleted user"

/-- The user's id as it is given, for one that differs from it in the case of letters. -/
def canonicalId (userId id : JsString) : JsString := if sameId userId id = true then userId else id

/-- The same text around mentions. Those of the first text are listed, in the second each is the
markup. -/
inductive SameAround (markup : JsString) : List Mention → JsString → JsString → Prop
  | plain (t : JsString) : SameAround markup [] t t
  | mention {ms : List Mention} {s r : JsString} (t : JsString) (m : Mention) :
      SameAround markup ms s r →
      SameAround markup (m :: ms) (t ++ (formatMentionMarkup m.name m.userId ++ s)) (t ++ (markup ++ r))

/-- Rewriting the mentions of a user changes their names, and a second time nothing. -/
structure OnlyNames (body userId replacement : JsString) : Prop where
  idempotent : redactMentionsOf (redactMentionsOf body userId replacement) userId replacement =
    redactMentionsOf body userId replacement
  userIds : parseMentions (redactMentionsOf body userId replacement) =
    ((parseMentions body).map (canonicalId userId)).eraseDups
  around : SameAround (formatMentionMarkup replacement userId)
    ((mentionsIn body).filter fun m => sameId userId m.userId) body
    (redactMentionsOf body userId replacement)

/-! ## Lists without duplicates -/

section Dups

variable {α β : Type} [BEq α] [LawfulBEq α] [BEq β] [LawfulBEq β]

theorem eraseDups_filter (p : α → Bool) (l : List α) :
    l.eraseDups.filter p = (l.filter p).eraseDups := by
  induction hn : l.length using Nat.strongRecOn generalizing l with
  | _ n ih =>
    cases l with
    | nil => rfl
    | cons a l =>
      have hlt : (l.filter fun b => !b == a).length < n := by
        have hle := List.length_filter_le (fun b => !b == a) l
        rw [List.length_cons] at hn
        omega
      have hrest := ih _ hlt (l.filter fun b => !b == a) rfl
      have hcomm : (l.filter fun b => !b == a).filter p = (l.filter p).filter fun b => !b == a := by
        rw [List.filter_filter, List.filter_filter]
        exact List.filter_congr fun b _ => Bool.and_comm _ _
      rw [List.eraseDups_cons]
      by_cases ha : p a = true
      · rw [List.filter_cons_of_pos ha, List.filter_cons_of_pos ha, List.eraseDups_cons, hrest, hcomm]
      · have hkeep : (l.filter p).filter (fun b => !b == a) = l.filter p := by
          refine List.filter_eq_self.mpr fun b hb => ?_
          have hne : b ≠ a := fun heq => ha (heq ▸ (List.mem_filter.mp hb).2)
          simpa using hne
        rw [List.filter_cons_of_neg ha, List.filter_cons_of_neg ha, hrest, hcomm, hkeep]

/-- Duplicates taken out before a change are taken out after it. -/
theorem eraseDups_map_eraseDups (f : α → β) (l : List α) :
    (l.eraseDups.map f).eraseDups = (l.map f).eraseDups := by
  induction hn : l.length using Nat.strongRecOn generalizing l with
  | _ n ih =>
    cases l with
    | nil => rfl
    | cons a l =>
      have hlt : (l.filter fun b => !f b == f a).length < n := by
        have hle := List.length_filter_le (fun b => !f b == f a) l
        rw [List.length_cons] at hn
        omega
      have hrest := ih _ hlt (l.filter fun b => !f b == f a) rfl
      have hboth : (l.filter fun b => !b == a).filter (fun b => !f b == f a) =
          l.filter fun b => !f b == f a := by
        rw [List.filter_filter]
        refine List.filter_congr fun b _ => ?_
        by_cases heq : b = a
        · simp [heq]
        · simp [heq]
      rw [List.eraseDups_cons, List.map_cons, List.map_cons, List.eraseDups_cons, List.eraseDups_cons,
        List.filter_map, List.filter_map]
      refine congrArg (f a :: ·) ?_
      calc (((l.filter fun b => !b == a).eraseDups.filter fun b => !f b == f a).map f).eraseDups
          = ((l.filter fun b => !f b == f a).eraseDups.map f).eraseDups := by
            rw [eraseDups_filter, hboth]
        _ = ((l.filter fun b => !f b == f a).map f).eraseDups := hrest

end Dups

section Twice

variable {userId replacement body s : JsString}

theorem SameAround.cons {markup s r : JsString} {ms : List Mention} (h : SameAround markup ms s r)
    (c : CodeUnit) : SameAround markup ms (c :: s) (c :: r) := by
  cases h with
  | plain => exact .plain (c :: s)
  | mention t m h => exact .mention (c :: t) m h

/-- Two mentions in front of two texts. -/
theorem format_append_inj {name name' id id' x y : JsString} (hname : closeBracket ∉ name)
    (hname' : closeBracket ∉ name') (hlen : id.length = id'.length)
    (h : formatMentionMarkup name id ++ x = formatMentionMarkup name' id' ++ y) :
    name = name' ∧ id = id' ∧ x = y := by
  rw [format_eq, format_eq] at h
  simp only [List.cons_append, List.append_assoc, List.cons.injEq, true_and] at h
  obtain ⟨rfl, hrest⟩ := first_bracket hname hname' h
  obtain ⟨rfl, hclose⟩ := List.append_inj (List.cons.inj hrest).2 hlen
  exact ⟨rfl, rfl, (List.cons.inj hclose).2⟩

/-- Rewriting leaves a body as it is exactly if all it would rewrite has the new name already. -/
theorem redact_eq_self_iff (hbracket : closeBracket ∉ replacement) (s : JsString) :
    redactMentionsOf s userId replacement = s ↔
      ∀ m ∈ matchAll (mentionAt (sameId userId) userId.length) s, m = ⟨replacement, userId⟩ := by
  have hproper : (mentionAt (sameId userId) userId.length).Proper := mentionAt_proper
  unfold redactMentionsOf
  induction s using scan_induction hproper with
  | nil => simp
  | hit s m n hs ih =>
    obtain ⟨hsource, hread, hid, hlen⟩ := mentionAt_eq_some hs
    have hrest : _ ↔ _ := ih
    rw [replaceAll_hit hproper hs, matchAll_hit hproper hs, List.forall_mem_cons, ← hrest]
    conv_lhs => rhs; rw [hsource]
    constructor
    · intro h
      obtain ⟨hname, huser, hrest⟩ := format_append_inj hbracket hread.1 hlen.symm h
      exact ⟨by rw [hname, huser], hrest⟩
    · rintro ⟨rfl, hrest⟩
      exact congrArg (formatMentionMarkup replacement userId ++ ·) hrest
  | miss a s hs ih =>
    have hmatch : matchAll (mentionAt (sameId userId) userId.length) (a :: s) =
        matchAll (mentionAt (sameId userId) userId.length) s := by
      rw [matchAll, pieces_miss hs]
      rfl
    have hrest : _ ↔ _ := ih
    rw [replaceAll_miss hs, hmatch, ← hrest]
    simp

variable (hu : isUuid7 userId = true)

include hu

/-- Around the mentions of the user a body stays. -/
theorem redact_sameAround (body : JsString) : SameAround (formatMentionMarkup replacement userId)
    ((mentionsIn body).filter fun m => sameId userId m.userId) body
    (redactMentionsOf body userId replacement) := by
  rw [← matchAll_sameId hu]
  have hproper : (mentionAt (sameId userId) userId.length).Proper := mentionAt_proper
  unfold redactMentionsOf
  induction body using scan_induction hproper with
  | nil => exact .plain []
  | hit s m n hs ih =>
    have hsource := (mentionAt_eq_some hs).1
    rw [replaceAll_hit mentionAt_proper hs, matchAll_hit mentionAt_proper hs]
    have hmention := SameAround.mention [] m ih
    rw [List.nil_append, ← hsource] at hmention
    exact hmention
  | miss a s hs ih =>
    rw [replaceAll_miss hs, matchAll, pieces_miss hs]
    exact ih.cons a

variable (hbracket : closeBracket ∉ replacement) (hlen : replacement.length ≤ maxMentionName)

include hbracket hlen

/-- The users mentioned, one mention at a time. -/
theorem userIds_redact (body : JsString) :
    (mentionsIn (redactMentionsOf body userId replacement)).map Mention.userId =
      (mentionsIn body).map fun m => canonicalId userId m.userId := by
  induction body using segment_induction with
  | hlast a ha =>
    have hplain : redactMentionsOf a userId replacement = a := replaceAll_of_matchAll_nil (matchAll_last ha)
    rw [hplain, mentionsIn, mentionRe, matchAll_last ha]
    rfl
  | hstep a rest ha ih =>
    have hbody := @matchAll_segment a _ 36 uuid7_plain ha rest
    rw [mentionsIn_redact hu hbracket ha, show mentionsIn (a ++ closeBracket :: rest) = _ from hbody]
    cases idAt isUuid7 36 rest with
    | none => exact ih rest le_rfl
    | some id =>
      have hrest := ih (rest.drop 38) (by rw [List.length_drop]; omega)
      dsimp only
      rw [List.map_append, List.map_append, hrest]
      refine congrArg (· ++ _) ?_
      cases opener a with
      | none => rfl
      | some r =>
        obtain ⟨pre, name⟩ := r
        cases hmine : sameId userId id with
        | false => simp [canonicalId, hmine]
        | true =>
          cases hopener : opener (pre ++ atSign :: openBracket :: replacement) with
          | none => exact absurd (opener_eq_none hopener rfl) (Nat.not_lt.mpr hlen)
          | some r' => simp [canonicalId, hmine, hopener]

/-- After rewriting, a mention of the user has the id as it is given. -/
theorem userId_of_redacted {m : Mention} (hm : m ∈ mentionsIn (redactMentionsOf body userId replacement))
    (hmine : sameId userId m.userId = true) : m.userId = userId := by
  have hmem := List.mem_map_of_mem (f := Mention.userId) hm
  rw [userIds_redact hu hbracket hlen] at hmem
  obtain ⟨m', _, heq⟩ := List.mem_map.mp hmem
  unfold canonicalId at heq
  split at heq
  · exact heq.symm
  · rename_i hother
    exact absurd (heq ▸ hmine) hother

/-- A second time changes nothing exactly if no earlier `@[` comes within reach. -/
theorem redact_redact_iff (body : JsString) :
    redactMentionsOf (redactMentionsOf body userId replacement) userId replacement =
      redactMentionsOf body userId replacement ↔ ¬ Reopens userId replacement body := by
  rw [redact_eq_self_iff hbracket, matchAll_sameId hu, ← redact_names hu hbracket hlen]
  constructor
  · intro h m hm hmine
    rw [h m (List.mem_filter.mpr ⟨hm, hmine⟩)]
  · intro h m hm
    obtain ⟨hmem, hmine⟩ := List.mem_filter.mp hm
    have hname := h m hmem hmine
    have huser := userId_of_redacted hu hbracket hlen hmem hmine
    rw [← hname, ← huser]

end Twice

/-- Rewriting the mentions of a user to `Deleted user` changes names only, and a second time nothing,
exactly if no earlier `@[` comes within reach of a closing bracket. -/
theorem redact_twice_iff {userId : JsString} (hu : isUuid7 userId = true) (body : JsString) :
    OnlyNames body userId defaultMentionRedaction ↔ ¬ Reopens userId defaultMentionRedaction body := by
  have hbracket : closeBracket ∉ defaultMentionRedaction := by decide
  have hlen : defaultMentionRedaction.length ≤ maxMentionName := by decide
  rw [← redact_redact_iff hu hbracket hlen]
  refine ⟨OnlyNames.idempotent, fun h => ⟨h, ?_, redact_sameAround hu body⟩⟩
  unfold parseMentions
  rw [eraseDups_map_eraseDups, userIds_redact hu hbracket hlen, List.map_map]
  rfl

/-- A body that mentions the user in capitals. -/
theorem redact_twice_capitals :
    OnlyNames (js "@[Ada](0198E2C0-9A1B-7F04-8C3D-2B5E7A9C1D53), @[ ping") adaId defaultMentionRedaction :=
  (redact_twice_iff (by decide +kernel) _).mpr (not_reopens_of_short (by decide))

/-- An `@[` that is 222 characters before the end of a mention's name, and 114 before that of the new
one. -/
def farOpener : JsString :=
  js "@[" ++ List.replicate 100 120 ++ formatMentionMarkup (List.replicate 120 110) adaId

/-- The second time the text between the two is lost. -/
theorem far_opener_lost : isUuid7 adaId = true ∧
    ¬ OnlyNames farOpener adaId defaultMentionRedaction ∧
    redactMentionsOf farOpener adaId defaultMentionRedaction =
      js "@[" ++ List.replicate 100 120 ++ formatMentionMarkup defaultMentionRedaction adaId ∧
    redactMentionsOf (redactMentionsOf farOpener adaId defaultMentionRedaction) adaId
      defaultMentionRedaction = formatMentionMarkup defaultMentionRedaction adaId := by
  refine ⟨by decide +kernel, fun h => ?_, by decide +kernel, by decide +kernel⟩
  have hne : redactMentionsOf (redactMentionsOf farOpener adaId defaultMentionRedaction) adaId
      defaultMentionRedaction ≠ redactMentionsOf farOpener adaId defaultMentionRedaction := by
    decide +kernel
  exact hne h.idempotent

end Kurul
