import Kurul.Comment.MentionMarkup

/-!
# Kurul.Comment.Tokens

What the browser shows of a comment: its body cut into texts and mentions.

* `tokenizeMentions_eq` — the loop over the matches makes of a body what joining its characters does.
* `tokens_lossless`     — the tokens written out again are the body, no text of them could be joined to
  the next or holds a mention, and the users mentioned are those the server finds.
-/

namespace Kurul

open Scan

/-- `s.slice(start, end)`. -/
def slice (s : JsString) (start stop : Nat) : JsString := (s.drop start).take (stop - start)

namespace Web

/-- The browser's `MENTION_RE`. -/
def mentionRe : Pattern CodeUnit Mention := mentionAt isUuid7 36

/-- The browser's `parseMentions`. -/
def parseMentions (body : JsString) : List Id :=
  ((matchAll mentionRe body).map Mention.userId).eraseDups

/-- The variables of the loop. -/
structure Tokenizing where
  tokens : List MentionToken
  lastIndex : Nat

/-- One match. -/
def Tokenizing.take (body : JsString) (state : Tokenizing) (m : Occurrence Mention) : Tokenizing :=
  let tokens := if state.lastIndex < m.index then
    state.tokens ++ [.text (slice body state.lastIndex m.index)] else state.tokens
  ⟨tokens ++ [.mention m.captured.name m.captured.userId], m.index + m.length⟩

/-- Behind the last match. -/
def Tokenizing.finish (body : JsString) (state : Tokenizing) : List MentionToken :=
  if state.lastIndex < body.length then state.tokens ++ [.text (body.drop state.lastIndex)]
  else state.tokens

def tokenizeMentions (body : JsString) : List MentionToken :=
  ((occurrences mentionRe 0 0 body).foldl (Tokenizing.take body) ⟨[], 0⟩).finish body

end Web

/-- The part of a body that a token stands for. -/
def MentionToken.source : MentionToken → JsString
  | .text t => t
  | .mention name userId => formatMentionMarkup name userId

def MentionToken.isText : MentionToken → Bool
  | .text _ => true
  | .mention _ _ => false

/-- A mention as the pattern describes it is somewhere in the text. -/
def HasMention (s : JsString) : Prop :=
  ∃ name userId, Readable name ∧ isUuid7 userId = true ∧ formatMentionMarkup name userId <:+: s

/-- Tokens of which no two texts could be one. -/
structure Joined (tokens : List MentionToken) : Prop where
  nonempty : .text [] ∉ tokens
  apart : tokens.IsChain fun a b => ¬ (a.isText = true ∧ b.isText = true)

section Tokens

variable {body p q s t : JsString} {tokens : List MentionToken}

/-- Text in front of tokens. -/
def prependText (p : JsString) (tokens : List MentionToken) : List MentionToken :=
  match p, tokens with
  | [], tokens => tokens
  | c :: p, .text t :: more => .text (c :: p ++ t) :: more
  | c :: p, more => .text (c :: p) :: more

theorem joinTexts_inl (c : CodeUnit) (rest : List (CodeUnit ⊕ Mention)) :
    joinTexts (.inl c :: rest) = prependText [c] (joinTexts rest) := by
  rw [joinTexts]
  cases joinTexts rest with
  | nil => rfl
  | cons token more =>
    cases token with
    | text t => rfl
    | mention name userId => rfl

theorem prependText_append (p q : JsString) (tokens : List MentionToken) :
    prependText (p ++ q) tokens = prependText p (prependText q tokens) := by
  cases p with
  | nil => rfl
  | cons c p =>
    cases q with
    | nil => rw [List.append_nil]; rfl
    | cons d q =>
      cases tokens with
      | nil => simp [prependText]
      | cons token more =>
        cases token with
        | text t => simp [prependText]
        | mention name userId => simp [prependText]

theorem prependText_mention (p : JsString) (name userId : JsString) (tokens : List MentionToken) :
    prependText p (.mention name userId :: tokens) =
      prependText p [] ++ .mention name userId :: tokens := by
  cases p with
  | nil => rfl
  | cons c p => rfl

theorem source_prependText (p : JsString) (tokens : List MentionToken) :
    (prependText p tokens).flatMap MentionToken.source =
      p ++ tokens.flatMap MentionToken.source := by
  cases p with
  | nil => rfl
  | cons c p =>
    cases tokens with
    | nil => simp [prependText, MentionToken.source]
    | cons token more =>
      cases token with
      | text t => simp [prependText, MentionToken.source]
      | mention name userId => simp [prependText, MentionToken.source]

theorem Joined.prependText (h : Joined tokens) (p : JsString) : Joined (prependText p tokens) := by
  cases p with
  | nil => exact h
  | cons c p =>
    cases tokens with
    | nil => exact ⟨by simp [Kurul.prependText], by simp [Kurul.prependText]⟩
    | cons token more =>
      obtain ⟨hne, hapart⟩ := h
      cases token with
      | text t =>
        have hmore : .text [] ∉ more := List.not_mem_of_not_mem_cons hne
        refine ⟨by simpa [Kurul.prependText] using hmore, ?_⟩
        cases more with
        | nil => simp [Kurul.prependText]
        | cons next more =>
          simpa [Kurul.prependText, MentionToken.isText] using hapart
      | mention name userId =>
        refine ⟨by simpa [Kurul.prependText] using hne, ?_⟩
        simpa [Kurul.prependText, MentionToken.isText] using hapart

theorem Joined.mention (h : Joined tokens) (name userId : JsString) :
    Joined (.mention name userId :: tokens) := by
  obtain ⟨hne, hapart⟩ := h
  refine ⟨by simpa using hne, ?_⟩
  cases tokens with
  | nil => simp
  | cons next more => simpa [MentionToken.isText] using hapart

theorem mentionRe_proper : mentionRe.Proper := mentionAt_proper

/-! ## The loop -/

theorem slice_append (p q s : JsString) : slice (p ++ q ++ s) p.length (p.length + q.length) = q := by
  simp [slice]

/-- What the loop makes of the rest `s` of a body, with the text `q` in front of it not yet a token. -/
theorem finish_loop (body : JsString) (s : JsString) : ∀ p q tokens, body = p ++ q ++ s →
    ((occurrences mentionRe (p.length + q.length) 0 s).foldl (Web.Tokenizing.take body)
      ⟨tokens, p.length⟩).finish body =
      tokens ++ prependText q (joinTexts (pieces mentionRe 0 s)) := by
  induction s using scan_induction mentionRe_proper with
  | nil =>
    rintro p q tokens rfl
    cases q with
    | nil => simp [occurrences, Web.Tokenizing.finish, pieces, joinTexts, prependText]
    | cons c q => simp [occurrences, Web.Tokenizing.finish, pieces, joinTexts, prependText]
  | hit s m n hs ih =>
    rintro p q tokens rfl
    have hn : n ≤ s.length := (mentionRe_proper s m n hs).2
    have hlen : (p ++ q ++ s.take n).length = p.length + q.length + n := by
      simp [Nat.min_eq_left hn]
      omega
    have hrest := ih (p ++ q ++ s.take n) []
      (tokens ++ prependText q [] ++ [.mention m.name m.userId]) (by simp)
    have htake : Web.Tokenizing.take (p ++ q ++ s) ⟨tokens, p.length⟩
        ⟨m, p.length + q.length, n⟩ =
        ⟨tokens ++ prependText q [] ++ [.mention m.name m.userId], p.length + q.length + n⟩ := by
      unfold Web.Tokenizing.take
      dsimp only
      rw [slice_append]
      cases q with
      | nil => simp [prependText]
      | cons c q => simp [prependText]
    rw [hlen] at hrest
    rw [occurrences_hit mentionRe_proper hs, List.foldl_cons, htake, pieces_hit mentionRe_proper hs,
      joinTexts, prependText_mention]
    exact hrest.trans (by simp [prependText])
  | miss a s hs ih =>
    rintro p q tokens rfl
    have hrest := ih p (q ++ [a]) tokens (by simp)
    rw [occurrences_miss hs, pieces_miss hs, joinTexts_inl, ← prependText_append]
    rw [List.length_append, ← Nat.add_assoc] at hrest
    exact hrest

/-- The loop makes of a body what joining its characters does. -/
theorem tokenizeMentions_eq (body : JsString) :
    Web.tokenizeMentions body = Kurul.tokenizeMentions body :=
  finish_loop body body [] [] [] rfl

/-! ## The tokens -/

theorem joined_tokens (body : JsString) : Joined (Kurul.tokenizeMentions body) := by
  unfold tokenizeMentions
  induction body using scan_induction mentionRe_proper with
  | nil => exact ⟨List.not_mem_nil, List.IsChain.nil⟩
  | hit s m n hs ih =>
    rw [pieces_hit mentionRe_proper hs]
    exact ih.mention m.name m.userId
  | miss a s hs ih =>
    rw [pieces_miss hs, joinTexts_inl]
    exact ih.prependText [a]

/-- The tokens written out again. -/
theorem source_tokens (body : JsString) :
    (Kurul.tokenizeMentions body).flatMap MentionToken.source = body := by
  unfold tokenizeMentions
  induction body using scan_induction mentionRe_proper with
  | nil => rfl
  | hit s m n hs ih =>
    rw [pieces_hit mentionRe_proper hs, joinTexts, List.flatMap_cons, ih]
    exact (mentionAt_eq_some hs).1.symm
  | miss a s hs ih =>
    rw [pieces_miss hs, joinTexts_inl, source_prependText, ih]
    rfl

/-- No mention is read from inside the text, with what stands behind it in the body. -/
def Quiet (t behind : JsString) : Prop :=
  ∀ u, u ≠ [] → u <:+ t → mentionRe (u ++ behind) = none

theorem Quiet.concat {a : CodeUnit} (h : Quiet t (a :: s)) (hs : mentionRe (a :: s) = none) :
    Quiet (t ++ [a]) s := by
  intro u hne hsuffix
  rcases List.suffix_concat_iff.mp hsuffix with rfl | ⟨v, rfl, hv⟩
  · exact absurd rfl hne
  · rw [List.append_assoc]
    by_cases hempty : v = []
    · rw [hempty]
      exact hs
    · exact h v hempty hv

theorem quiet_texts (s : JsString) : ∀ p, Quiet p s →
    .text t ∈ prependText p (joinTexts (pieces mentionRe 0 s)) → ∃ behind, Quiet t behind := by
  have hfirst : ∀ p behind, Quiet p behind → .text t ∈ prependText p [] → ∃ behind, Quiet t behind := by
    intro p behind hp ht
    cases p with
    | nil => cases ht
    | cons c p =>
      obtain rfl : t = c :: p := by simpa [prependText] using ht
      exact ⟨behind, hp⟩
  induction s using scan_induction mentionRe_proper with
  | nil =>
    intro p hp ht
    exact hfirst p [] hp ht
  | hit s m n hs ih =>
    intro p hp ht
    rw [pieces_hit mentionRe_proper hs, joinTexts, prependText_mention, List.mem_append] at ht
    rcases ht with ht | ht
    · exact hfirst p s hp ht
    · refine ih [] (fun u hne hsuffix => absurd (List.suffix_nil.mp hsuffix) hne) ?_
      simpa [prependText] using ht
  | miss a s hs ih =>
    intro p hp ht
    rw [pieces_miss hs, joinTexts_inl, ← prependText_append] at ht
    exact ih (p ++ [a]) (hp.concat hs) ht

/-- In such a text there is no mention. -/
theorem Quiet.not_hasMention {behind : JsString} (h : Quiet t behind) : ¬ HasMention t := by
  rintro ⟨name, userId, hname, hid, before, after, rfl⟩
  have hmatch : mentionRe (formatMentionMarkup name userId ++ (after ++ behind)) =
      some (⟨name, userId⟩, name.length + 36 + 5) :=
    mentionAt_markup hname hid (isUuid7_length hid) (after ++ behind)
  have hnone := h (formatMentionMarkup name userId ++ after) (by simp [format_eq])
    ⟨before, (List.append_assoc ..).symm⟩
  rw [List.append_assoc, hmatch] at hnone
  cases hnone

theorem not_hasMention_of_text (h : .text t ∈ Kurul.tokenizeMentions body) : ¬ HasMention t := by
  have hempty : Quiet [] body := fun u hne hsuffix => absurd (List.suffix_nil.mp hsuffix) hne
  obtain ⟨behind, hquiet⟩ := quiet_texts body [] hempty h
  exact hquiet.not_hasMention

/-- The tokens of a body, written out again in their order, are the body. No text among them is empty or
stands next to another, none holds a mention, and the users mentioned, each once, are those that the
browser and the server parse. -/
theorem tokens_lossless (body : JsString) :
    (Web.tokenizeMentions body).flatMap MentionToken.source = body ∧
    Joined (Web.tokenizeMentions body) ∧
    (∀ t, .text t ∈ Web.tokenizeMentions body → ¬ HasMention t) ∧
    (((Web.tokenizeMentions body).filterMap MentionToken.mention?).map Mention.userId).eraseDups =
      Web.parseMentions body ∧
    (((Web.tokenizeMentions body).filterMap MentionToken.mention?).map Mention.userId).eraseDups =
      parseMentions body := by
  rw [tokenizeMentions_eq, mentions_tokenizeMentions]
  exact ⟨source_tokens body, joined_tokens body, fun t ht => not_hasMention_of_text ht, rfl, rfl⟩

end Tokens

end Kurul
