import Kurul.JsString
import Kurul.Scan

/-!
# Kurul.Comment.Mentions

Mention markup in a comment's body, `@[Name](userId)`: the pattern that reads it, the same on the server
and in the browser, and the pattern that an account's deletion rewrites it by.

Both patterns have the flag `i`. It makes a difference to letters of the ids alone, and those are ASCII.
-/

namespace Kurul

open Scan

/-- `MAX_MENTION_NAME`. -/
def maxMentionName : Nat := 200

def atSign : CodeUnit := 64
def openBracket : CodeUnit := 91
def closeBracket : CodeUnit := 93
def openParen : CodeUnit := 40
def closeParen : CodeUnit := 41

/-- `[0-9a-f]`. -/
def isHexDigit (c : CodeUnit) : Bool :=
  (48 ≤ c.val && c.val ≤ 57) || (97 ≤ c.val && c.val ≤ 102) || (65 ≤ c.val && c.val ≤ 70)

/-- `[89ab]`. -/
def isVariant (c : CodeUnit) : Bool :=
  c.val == 56 || c.val == 57 || c.val == 97 || c.val == 98 || c.val == 65 || c.val == 66

def isDash (c : CodeUnit) : Bool := c.val == 45

def isSeven (c : CodeUnit) : Bool := c.val == 55

/-- `[0-9a-f]{8}-[0-9a-f]{4}-7[0-9a-f]{3}-[89ab][0-9a-f]{3}-[0-9a-f]{12}`. -/
def uuid7Shape : List (CodeUnit → Bool) :=
  List.replicate 8 isHexDigit ++ isDash :: List.replicate 4 isHexDigit ++ isDash :: isSeven ::
    List.replicate 3 isHexDigit ++ isDash :: isVariant :: List.replicate 3 isHexDigit ++ isDash ::
    List.replicate 12 isHexDigit

/-- Character by character. -/
def fits : List (CodeUnit → Bool) → JsString → Bool
  | [], [] => true
  | p :: ps, c :: cs => p c && fits ps cs
  | _, _ => false

def isUuid7 (id : JsString) : Bool := fits uuid7Shape id

/-- ASCII letters in lower case. -/
def foldCase (c : CodeUnit) : CodeUnit := if 65 ≤ c.val ∧ c.val ≤ 90 then c + 32 else c

/-- The id as a pattern with the flag `i`. -/
def sameId (userId id : JsString) : Bool := id.map foldCase = userId.map foldCase

/-- A mention as it is read. -/
structure Mention where
  name : JsString
  userId : JsString
  deriving DecidableEq

/-- `@[Name]`, and what follows. A name has no `]`, so it ends at the first one. -/
def nameAt (s : JsString) : Option (JsString × JsString) :=
  match s with
  | c :: d :: rest =>
    let name := rest.takeWhile (· ≠ closeBracket)
    if c = atSign ∧ d = openBracket ∧ name.length ≤ maxMentionName then
      match rest.drop name.length with
      | _ :: after => some (name, after)
      | [] => none
    else none
  | _ => none

/-- `(userId)`, the id of this length. -/
def idAt (isId : JsString → Bool) (length : Nat) (s : JsString) : Option JsString :=
  match s with
  | c :: rest =>
    if c = openParen ∧ isId (rest.take length) = true ∧ (rest.drop length).head? = some closeParen then
      some (rest.take length)
    else none
  | [] => none

/-- The pattern, for ids of one kind. -/
def mentionAt (isId : JsString → Bool) (length : Nat) : Pattern CodeUnit Mention := fun s =>
  match nameAt s with
  | none => none
  | some (name, after) => (idAt isId length after).map fun id =>
    (⟨name, id⟩, name.length + length + 5)

/-- `MENTION_RE`. -/
def mentionRe : Pattern CodeUnit Mention := mentionAt isUuid7 36

/-- The matches of `MENTION_RE`. -/
def mentionsIn (body : JsString) : List Mention := matchAll mentionRe body

inductive MentionToken where
  | text (text : JsString)
  | mention (name : JsString) (userId : JsString)
  deriving DecidableEq

/-- Characters next to each other are one text. -/
def joinTexts : List (CodeUnit ⊕ Mention) → List MentionToken
  | [] => []
  | .inl c :: rest => match joinTexts rest with
    | .text t :: more => .text (c :: t) :: more
    | more => .text [c] :: more
  | .inr m :: rest => .mention m.name m.userId :: joinTexts rest

def tokenizeMentions (body : JsString) : List MentionToken := joinTexts (pieces mentionRe 0 body)

/-- Every `@[Name](userId)` of one user, with another name. Neither the name nor an id has a `$` in it. -/
def redactMentionsOf (body userId replacement : JsString) : JsString :=
  replaceAll (mentionAt (sameId userId) userId.length)
    (fun _ => js "@[" ++ replacement ++ js "](" ++ userId ++ js ")") body

def MentionToken.mention? : MentionToken → Option Mention
  | .text _ => none
  | .mention name userId => some ⟨name, userId⟩

/-- The mentions among the tokens are the matches. -/
theorem mentions_tokenizeMentions (body : JsString) :
    (tokenizeMentions body).filterMap MentionToken.mention? = mentionsIn body := by
  unfold tokenizeMentions mentionsIn matchAll
  induction pieces mentionRe 0 body with
  | nil => rfl
  | cons piece rest ih =>
    cases piece with
    | inr m =>
      rw [joinTexts]
      exact congrArg (List.cons m) ih
    | inl c =>
      have hrest : (joinTexts (.inl c :: rest)).filterMap MentionToken.mention? =
          (joinTexts rest).filterMap MentionToken.mention? := by
        rw [joinTexts]
        split
        · rename_i t more heq
          rw [heq]
          rfl
        · rfl
      rw [hrest, ih]
      rfl

/-! ## Ids -/

theorem foldCase_closed (c : CodeUnit) : isHexDigit (foldCase c) = isHexDigit c ∧
    isVariant (foldCase c) = isVariant c ∧ isDash (foldCase c) = isDash c ∧
    isSeven (foldCase c) = isSeven c := by
  obtain ⟨n, hn⟩ := c
  unfold foldCase
  split
  · rename_i h
    have hval : ((⟨n, hn⟩ : CodeUnit) + 32).val = n + 32 := by
      rw [Fin.val_add]
      exact Nat.mod_eq_of_lt (show n + 32 < 65536 from by dsimp only at h; omega)
    dsimp only at h
    refine ⟨Bool.eq_iff_iff.mpr ?_, Bool.eq_iff_iff.mpr ?_, Bool.eq_iff_iff.mpr ?_,
      Bool.eq_iff_iff.mpr ?_⟩ <;>
      simp only [isHexDigit, isVariant, isDash, isSeven, hval, Bool.or_eq_true, Bool.and_eq_true,
        decide_eq_true_eq, beq_iff_eq] <;> omega
  · exact ⟨rfl, rfl, rfl, rfl⟩

theorem fits_foldCase {ps : List (CodeUnit → Bool)} (h : ∀ p ∈ ps, ∀ c, p (foldCase c) = p c)
    (s : JsString) : fits ps (s.map foldCase) = fits ps s := by
  induction ps generalizing s with
  | nil => cases s <;> rfl
  | cons p ps ih =>
    cases s with
    | nil => rfl
    | cons c s =>
      rw [List.map_cons, fits, fits, h p List.mem_cons_self,
        ih fun q hq => h q (List.mem_cons_of_mem p hq)]

theorem length_of_fits {ps : List (CodeUnit → Bool)} {s : JsString} (h : fits ps s = true) :
    s.length = ps.length := by
  induction ps generalizing s with
  | nil =>
    cases s with
    | nil => rfl
    | cons c s => cases h
  | cons p ps ih =>
    cases s with
    | nil => cases h
    | cons c s => exact congrArg (· + 1) (ih (Bool.and_eq_true_iff.mp h).2)

theorem forall_of_fits {ps : List (CodeUnit → Bool)} {s : JsString} (h : fits ps s = true) :
    ∀ c ∈ s, ∃ p ∈ ps, p c = true := by
  induction ps generalizing s with
  | nil =>
    cases s with
    | nil => exact fun c hc => by cases hc
    | cons c s => cases h
  | cons p ps ih =>
    cases s with
    | nil => cases h
    | cons c s =>
      obtain ⟨hp, hrest⟩ := Bool.and_eq_true_iff.mp h
      intro d hd
      rcases List.mem_cons.mp hd with rfl | hd
      · exact ⟨p, List.mem_cons_self, hp⟩
      · obtain ⟨q, hq, hqd⟩ := ih hrest d hd
        exact ⟨q, List.mem_cons_of_mem p hq, hqd⟩

theorem mem_uuid7Shape {p : CodeUnit → Bool} (h : p ∈ uuid7Shape) :
    p = isHexDigit ∨ p = isDash ∨ p = isSeven ∨ p = isVariant := by
  simp only [uuid7Shape, List.mem_append, List.mem_cons, List.mem_replicate] at h
  grind

theorem isUuid7_length {id : JsString} (h : isUuid7 id = true) : id.length = 36 := length_of_fits h

/-- An id is of digits, letters and dashes. -/
theorem isUuid7_plain {id : JsString} (h : isUuid7 id = true) : ∀ c ∈ id, c ≠ atSign ∧ c ≠ closeBracket := by
  intro c hc
  obtain ⟨p, hp, hpc⟩ := forall_of_fits h c hc
  have hval : c.val ≠ 64 ∧ c.val ≠ 93 := by
    rcases mem_uuid7Shape hp with rfl | rfl | rfl | rfl <;>
      simp only [isHexDigit, isDash, isSeven, isVariant, Bool.or_eq_true, Bool.and_eq_true,
        decide_eq_true_eq, beq_iff_eq] at hpc <;> omega
  exact ⟨fun heq => hval.1 (by rw [heq]; rfl), fun heq => hval.2 (by rw [heq]; rfl)⟩

theorem isUuid7_of_sameId {userId id : JsString} (hu : isUuid7 userId = true)
    (h : sameId userId id = true) : isUuid7 id = true := by
  have hclosed : ∀ p ∈ uuid7Shape, ∀ c, p (foldCase c) = p c := by
    intro p hp c
    obtain ⟨hhex, hvariant, hdash, hseven⟩ := foldCase_closed c
    rcases mem_uuid7Shape hp with rfl | rfl | rfl | rfl
    · exact hhex
    · exact hdash
    · exact hseven
    · exact hvariant
  rw [isUuid7, ← fits_foldCase hclosed, of_decide_eq_true h, fits_foldCase hclosed]
  exact hu

@[simp] theorem sameId_self (userId : JsString) : sameId userId userId = true := decide_eq_true rfl

end Kurul
