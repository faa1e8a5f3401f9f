import Kurul.Comment.CommentService
import Kurul.Comment.MentionRedaction

/-!
# Kurul.Comment.MentionMarkup

The markup the picker writes into a comment for a member, and what is read of it.

* `mentionsIn_markup`  — the first mention of a text with the markup in it, for a name that can be read.
* `markup_round_trips` — the markup is read as that member's mention exactly when the name has no `]`
  and is not longer than the pattern allows.
-/

namespace Kurul

open Scan Sql

/-! ## The picker -/

def formatMentionMarkup (name userId : JsString) : JsString :=
  js "@[" ++ name ++ js "](" ++ userId ++ js ")"

/-- `s.lastIndexOf(c)`. -/
def lastIndexOf (c : CodeUnit) (s : JsString) : Option Nat :=
  (s.reverse.idxOf? c).map fun i => s.length - 1 - i

def openBrace : CodeUnit := 123

/-- `/[\s([{]/`. -/
def startsQuery (c : CodeUnit) : Bool :=
  isSpace c || c = openParen || c = openBracket || c = openBrace

structure ActiveQuery where
  start : Nat
  query : JsString
  deriving DecidableEq

def getActiveMentionQuery (value : JsString) (cursor : Nat) : Option ActiveQuery :=
  let before := value.take cursor
  match lastIndexOf atSign before with
  | none => none
  | some atIndex =>
    if before[atIndex + 1]? = some openBracket then none
    else if 0 < atIndex ∧ (before[atIndex - 1]?).any startsQuery = false then none
    else
      let query := before.drop (atIndex + 1)
      if query.any isSpace then none else some ⟨atIndex, query⟩

structure Insertion where
  value : JsString
  cursor : Nat

def insertMentionMarkup (value : JsString) (selectionStart selectionEnd : Nat)
    (name userId : JsString) : Insertion :=
  let markup := formatMentionMarkup name userId ++ js " "
  match getActiveMentionQuery value selectionStart with
  | some active =>
    ⟨value.take active.start ++ markup ++ value.drop selectionEnd, active.start + markup.length⟩
  | none =>
    ⟨value.take selectionStart ++ markup ++ value.drop selectionEnd,
      selectionStart + markup.length⟩

/-! ## What is read of it -/

/-- There is an `@[` in the text. -/
def Marked (s : JsString) : Prop := js "@[" <:+: s

instance : DecidablePred Marked := fun s => inferInstanceAs (Decidable (js "@[" <:+: s))

/-- A name the pattern reads whole. -/
def Readable (name : JsString) : Prop := closeBracket ∉ name ∧ name.length ≤ maxMentionName

/-- The server and the browser find the user in the body, and the browser shows a mention of them
under this name. -/
structure Recognises (body name userId : JsString) : Prop where
  parsed : userId ∈ parseMentions body
  token : .mention name userId ∈ tokenizeMentions body

section Markup

variable {isId : JsString → Bool} {len : Nat} {name userId pre after body : JsString}

theorem mem_parseMentions : userId ∈ parseMentions body ↔ ∃ name, ⟨name, userId⟩ ∈ mentionsIn body := by
  simp only [parseMentions, List.mem_eraseDups, List.mem_map]
  constructor
  · rintro ⟨mention, hmem, rfl⟩
    exact ⟨mention.name, hmem⟩
  · rintro ⟨name, hmem⟩
    exact ⟨_, hmem, rfl⟩

theorem mention_mem_tokens :
    .mention name userId ∈ tokenizeMentions body ↔ ⟨name, userId⟩ ∈ mentionsIn body := by
  rw [← mentions_tokenizeMentions, List.mem_filterMap]
  constructor
  · exact fun h => ⟨_, h, rfl⟩
  · rintro ⟨token, htoken, heq⟩
    cases token with
    | text t => cases heq
    | mention name' userId' =>
      cases heq
      exact htoken

theorem recognises_iff : Recognises body name userId ↔ ⟨name, userId⟩ ∈ mentionsIn body := by
  constructor
  · exact fun h => mention_mem_tokens.mp h.token
  · exact fun h => ⟨mem_parseMentions.mpr ⟨name, h⟩, mention_mem_tokens.mpr h⟩

/-- A name that was read. -/
theorem readable_of_nameAt {s : JsString} (h : nameAt s = some (name, after)) : Readable name := by
  match s with
  | [] => cases h
  | [c] => cases h
  | c :: d :: rest =>
    simp only [nameAt] at h
    split at h
    · rename_i hmatch
      split at h
      · obtain ⟨rfl, rfl⟩ := Prod.mk.inj (Option.some.inj h)
        refine ⟨fun hmem => ?_, hmatch.2.2⟩
        have hne := List.mem_takeWhile_imp hmem
        simp at hne
      · cases h
    · cases h

/-- Every mention found has such a name. -/
theorem readable_of_mem (h : ⟨name, userId⟩ ∈ matchAll (mentionAt isId len) body) :
    Readable name := by
  obtain ⟨t, n, _, hat⟩ := mem_matchAll h
  cases hname : nameAt t with
  | none =>
    rw [mentionAt, hname] at hat
    cases hat
  | some r =>
    obtain ⟨name', after'⟩ := r
    rw [mentionAt, hname] at hat
    obtain ⟨id, _, heq⟩ := Option.map_eq_some_iff.mp hat
    obtain rfl : name' = name := congrArg (fun r : Mention × Nat => r.1.name) heq
    exact readable_of_nameAt hname

theorem format_eq (name userId : JsString) : formatMentionMarkup name userId =
    atSign :: openBracket :: name ++ closeBracket :: (openParen :: userId ++ [closeParen]) := by
  simp [formatMentionMarkup, js_open, js_middle, js_close]

/-- No mention starts in a text without `@[`, whatever the markup behind it. -/
theorem quiet_unmarked (h : ¬ Marked pre) {t : JsString} (ht : t ≠ []) (hsuffix : t <:+ pre)
    (s : JsString) : mentionAt isId len (t ++ atSign :: s) = none := by
  have hname : nameAt (t ++ atSign :: s) = none := by
    match t with
    | [] => exact absurd rfl ht
    | [c] => exact if_neg fun hmatch => absurd hmatch.2.1 (by decide)
    | c :: d :: rest =>
      refine if_neg fun hmatch => h ?_
      obtain ⟨before, heq⟩ := hsuffix
      refine ⟨before, rest, ?_⟩
      rw [js_open, ← heq, hmatch.1, hmatch.2.1]
      simp
  rw [mentionAt, hname]

/-- At the markup itself a mention starts. -/
theorem mentionAt_markup (hname : Readable name) (hid : isId userId = true)
    (hlen : userId.length = len) (after : JsString) :
    mentionAt isId len (formatMentionMarkup name userId ++ after) =
      some (⟨name, userId⟩, name.length + len + 5) := by
  have hopens : opens (atSign :: openBracket :: name) = true := opens_iff.mpr ⟨name, rfl, hname.2⟩
  have hplain : closeBracket ∉ atSign :: openBracket :: name := by
    simp only [List.mem_cons, not_or]
    exact ⟨by decide, by decide, hname.1⟩
  have hidAt : idAt isId len (openParen :: userId ++ [closeParen] ++ after) = some userId :=
    idAt_iff.mpr ⟨hid, hlen, List.prefix_append _ _⟩
  rw [format_eq, List.append_assoc, List.cons_append (a := closeBracket),
    mentionAt_segment hplain, hopens, hidAt]
  rfl

theorem drop_markup (hlen : userId.length = len) (after : JsString) :
    (formatMentionMarkup name userId ++ after).drop (name.length + len + 5) = after := by
  refine List.drop_left' ?_
  rw [format_eq]
  simp only [List.length_append, List.length_cons, List.length_nil, hlen]
  omega

theorem nameAt_eq_some {s : JsString} (h : nameAt s = some (name, after)) :
    s = atSign :: openBracket :: name ++ closeBracket :: after := by
  match s with
  | [] => cases h
  | [c] => cases h
  | c :: d :: rest =>
    simp only [nameAt] at h
    split at h
    · rename_i hmatch
      obtain ⟨rfl, rfl, _⟩ := hmatch
      split at h
      · rename_i x tail hdrop
        obtain ⟨rfl, rfl⟩ := Prod.mk.inj (Option.some.inj h)
        have hsplit : rest = rest.takeWhile (· ≠ closeBracket) ++ x :: tail := by
          rw [← hdrop]
          exact (List.prefix_iff_eq_append.mp (List.takeWhile_prefix _)).symm
        have hx : x = closeBracket := by
          have hhead : (rest.dropWhile (· ≠ closeBracket)).head? = some x := by
            have heq := List.takeWhile_append_dropWhile (p := (· ≠ closeBracket)) (l := rest)
            conv_rhs at heq => rw [hsplit]
            rw [List.append_cancel_left heq]
            rfl
          have hnot := List.head?_dropWhile_not (· ≠ closeBracket) rest
          rw [hhead] at hnot
          simpa using hnot
        subst hx
        simpa using hsplit
      · cases h
    · cases h

/-- A mention is read where its markup stands. -/
theorem mentionAt_eq_some {s : JsString} {n : Nat} {m : Mention}
    (h : mentionAt isId len s = some (m, n)) :
    s = formatMentionMarkup m.name m.userId ++ s.drop n ∧ Readable m.name ∧ isId m.userId = true ∧
      m.userId.length = len := by
  cases hname : nameAt s with
  | none =>
    rw [mentionAt, hname] at h
    cases h
  | some r =>
    obtain ⟨name, after⟩ := r
    rw [mentionAt, hname] at h
    obtain ⟨id, hidAt, heq⟩ := Option.map_eq_some_iff.mp h
    obtain ⟨hid, hlen, hafter⟩ := idAt_eq_some hidAt
    have hread := readable_of_nameAt hname
    have hs := nameAt_eq_some hname
    cases heq
    refine ⟨?_, hread, hid, hlen⟩
    have hmarkup : s = formatMentionMarkup name id ++ after.drop (len + 2) := by
      rw [hs, format_eq]
      conv_lhs => rw [hafter]
      simp
    conv_rhs => rw [hmarkup, drop_markup hlen]
    exact hmarkup

/-- The markup's mention is the first. -/
theorem mentionsIn_markup (hpre : ¬ Marked pre) (hname : Readable name)
    (hid : isUuid7 userId = true) (after : JsString) :
    mentionsIn (pre ++ formatMentionMarkup name userId ++ after) =
      ⟨name, userId⟩ :: mentionsIn after := by
  have hlen := isUuid7_length hid
  have hmatch : mentionAt isUuid7 36 (formatMentionMarkup name userId ++ after) =
      some (⟨name, userId⟩, name.length + 36 + 5) := mentionAt_markup hname hid hlen after
  have hquiet : ∀ t, t ≠ [] → t <:+ pre →
      mentionAt isUuid7 36 (t ++ (formatMentionMarkup name userId ++ after)) = none := by
    intro t ht hsuffix
    rw [format_eq]
    exact quiet_unmarked hpre ht hsuffix _
  calc mentionsIn (pre ++ formatMentionMarkup name userId ++ after)
      = matchAll (mentionAt isUuid7 36) (formatMentionMarkup name userId ++ after) := by
        rw [List.append_assoc]
        exact matchAll_append hquiet
    _ = ⟨name, userId⟩ :: mentionsIn after := by
        rw [matchAll_hit mentionAt_proper hmatch, drop_markup hlen]
        rfl

/-- Deleting the account gives the markup another name and leaves what is before it. -/
theorem redact_markup (hpre : ¬ Marked pre) (hname : Readable name) (after replacement : JsString) :
    redactMentionsOf (pre ++ formatMentionMarkup name userId ++ after) userId replacement =
      pre ++ formatMentionMarkup replacement userId ++ redactMentionsOf after userId replacement := by
  have hmatch : mentionAt (sameId userId) userId.length (formatMentionMarkup name userId ++ after) =
      some (⟨name, userId⟩, name.length + userId.length + 5) :=
    mentionAt_markup hname (sameId_self userId) rfl after
  have hquiet : ∀ t, t ≠ [] → t <:+ pre → mentionAt (sameId userId) userId.length
      (t ++ (formatMentionMarkup name userId ++ after)) = none := by
    intro t ht hsuffix
    rw [format_eq]
    exact quiet_unmarked hpre ht hsuffix _
  unfold redactMentionsOf
  rw [List.append_assoc pre, replaceAll_append hquiet, replaceAll_hit mentionAt_proper hmatch,
    drop_markup rfl, List.append_assoc pre]
  rfl

/-- Around the markup the picker leaves parts of the text. -/
theorem insertMentionMarkup_value (value : JsString) (selectionStart selectionEnd : Nat)
    (name userId : JsString) : ∃ n,
    (insertMentionMarkup value selectionStart selectionEnd name userId).value =
      value.take n ++ formatMentionMarkup name userId ++ (js " " ++ value.drop selectionEnd) := by
  unfold insertMentionMarkup
  cases getActiveMentionQuery value selectionStart with
  | some active => exact ⟨active.start, by simp⟩
  | none => exact ⟨selectionStart, by simp⟩

theorem Marked.of_take {n : Nat} (h : Marked (pre.take n)) : Marked pre :=
  h.trans (List.take_prefix n pre).isInfix

/-- The members asked for are those the body mentions. -/
theorem mentioned_of_parsed {env : Env kurul} {w w' : World kurul} {authorId workspaceId : Id}
    {memberIds : List Id} (hparsed : userId ∈ parseMentions body) (hauthor : userId ≠ authorId)
    (hmember : ∃ m ∈ rows WorkspaceMemberRow w.db, m.workspaceId = workspaceId ∧ m.userId = userId)
    (hrun : (CommentService.mentionedMembers workspaceId
      ((parseMentions body).filter fun id => id ≠ authorId)).run env w = (.ok memberIds, w')) :
    userId ∈ memberIds := by
  have hmem : userId ∈ (parseMentions body).filter fun id => id ≠ authorId := by
    simp [hparsed, hauthor]
  have hne : ((parseMentions body).filter fun id => id ≠ authorId).isEmpty = false := by
    rw [List.isEmpty_eq_false_iff]
    exact List.ne_nil_of_mem hmem
  simp only [CommentService.mentionedMembers, hne] at hrun
  obtain ⟨members, w₁, hfind, hret⟩ := Tx.run_bind_ok hrun
  obtain ⟨rfl, _⟩ := run_query_ok hfind
  obtain rfl := Except.ok.inj (Prod.mk.inj hret).1
  obtain ⟨m, hm, hworkspace, rfl⟩ := hmember
  refine List.mem_map_of_mem (List.mem_filter.mpr ⟨hm, ?_⟩)
  simp only [hworkspace, decide_true, Bool.true_and]
  exact decide_eq_true hmem

end Markup

/-- Markup for a member, in a text with no `@[` before it, is read as a mention of the member under the
member's name exactly when the name has no `]` and at most 200 code units; so is what the picker
inserts. Then the member is among those notified, and the name can be taken out again. -/
theorem markup_round_trips {userId : JsString} (hid : isUuid7 userId = true) (name : JsString) :
    (∀ before after, ¬ Marked before →
      (Recognises (before ++ formatMentionMarkup name userId ++ after) name userId ↔
        Readable name)) ∧
    (∀ value selectionStart selectionEnd, ¬ Marked value →
      (Recognises (insertMentionMarkup value selectionStart selectionEnd name userId).value name
        userId ↔ Readable name)) ∧
    (Readable name → ∀ before after, ¬ Marked before →
      (∀ env w w' workspaceId authorId memberIds, userId ≠ authorId →
        (∃ m ∈ rows WorkspaceMemberRow w.db, m.workspaceId = workspaceId ∧ m.userId = userId) →
        (CommentService.mentionedMembers workspaceId
          ((parseMentions (before ++ formatMentionMarkup name userId ++ after)).filter
            fun id => id ≠ authorId)).run env w = (.ok memberIds, w') → userId ∈ memberIds) ∧
      ∀ replacement,
        redactMentionsOf (before ++ formatMentionMarkup name userId ++ after) userId replacement =
          before ++ formatMentionMarkup replacement userId ++
            redactMentionsOf after userId replacement) := by
  have hround : ∀ before after, ¬ Marked before →
      (Recognises (before ++ formatMentionMarkup name userId ++ after) name userId ↔
        Readable name) := by
    intro before after hbefore
    rw [recognises_iff]
    constructor
    · exact readable_of_mem
    · intro hname
      rw [mentionsIn_markup hbefore hname hid]
      exact List.mem_cons_self
  refine ⟨hround, ?_, ?_⟩
  · intro value selectionStart selectionEnd hvalue
    obtain ⟨n, heq⟩ := insertMentionMarkup_value value selectionStart selectionEnd name userId
    rw [heq]
    exact hround _ _ fun h => hvalue h.of_take
  · intro hname before after hbefore
    have hparsed := ((hround before after hbefore).mpr hname).parsed
    refine ⟨?_, fun replacement => redact_markup hbefore hname after replacement⟩
    intro env w w' workspaceId authorId memberIds hauthor hmember hrun
    exact mentioned_of_parsed hparsed hauthor hmember hrun

def adaId : JsString := js "0198e2c0-9a1b-7f04-8c3d-2b5e7a9c1d53"

/-- A name with an opening bracket and an `@[` of its own is read. -/
theorem markup_round_trips_brackets : isUuid7 adaId = true ∧
    Recognises (js "see " ++ formatMentionMarkup (js "Ada [@[x") adaId ++ js " @[") (js "Ada [@[x")
      adaId := by
  have hid : isUuid7 adaId = true := by decide +kernel
  have hbefore : ¬ Marked (js "see ") := by decide +kernel
  have hname : Readable (js "Ada [@[x") := ⟨by decide +kernel, by decide +kernel⟩
  exact ⟨hid, ((markup_round_trips hid (js "Ada [@[x")).1 _ _ hbefore).mpr hname⟩

/-- What the picker inserts for `Ada [Ops]` mentions nobody, and the name stays when the account is
deleted; a name of 201 letters mentions nobody either. -/
theorem bracketed_name_lost :
    ¬ Recognises (insertMentionMarkup (js "@ada") 4 4 (js "Ada [Ops]") adaId).value (js "Ada [Ops]")
      adaId ∧
    redactMentionsOf (formatMentionMarkup (js "Ada [Ops]") adaId) adaId (js "Deleted user") =
      formatMentionMarkup (js "Ada [Ops]") adaId ∧
    ¬ Recognises (formatMentionMarkup (List.replicate 201 65) adaId) (List.replicate 201 65)
      adaId := by
  refine ⟨fun h => ?_, by decide +kernel, fun h => ?_⟩
  · have hnone : parseMentions
        (insertMentionMarkup (js "@ada") 4 4 (js "Ada [Ops]") adaId).value = [] := by decide +kernel
    exact absurd (hnone ▸ h.parsed) List.not_mem_nil
  · have hnone : parseMentions (formatMentionMarkup (List.replicate 201 65) adaId) = [] := by
      decide +kernel
    exact absurd (hnone ▸ h.parsed) List.not_mem_nil

end Kurul
