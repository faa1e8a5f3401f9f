import Kurul.Conduct.Threads
import Kurul.Http.Routes

/-!
# Kurul.Conduct.Requests

Who may do what, over whole runs: any number of visits to any workspaces, interleaved in any way.

* `limited_serve`    — a request keeps to the rules, under the name of the user who makes it.
* `history_signed`   — what people are, and what they belong to, stays; the history is only added to.
* `guests_only_read` — a guest marks notifications of their own as read, and changes nothing else.
-/

namespace Kurul

open Sql

/-! ## Reads -/

section Reads

variable {F : Footprint kurul} {L : Limits kurul} {workspaceId : Id}

theorem within_listTasks (ilike : JsString → JsString → Bool) (rt : Runtime) (boardId : Id)
    (query : TaskQueryDto) : (TaskService.list ilike rt workspaceId boardId query).Within F := by
  have hcounts : ∀ ids, (TaskService.countAttachmentsByTask ids).Within F := by
    intro ids
    unfold TaskService.countAttachmentsByTask
    split
    · trivial
    · exact within_query _
  exact (within_assertBoard workspaceId boardId).bind fun _ => (within_throwIf _ _).bind fun _ =>
    (within_query _).bind fun _ => (hcounts _).bind fun _ => trivial

theorem within_listActivities (taskId : Option Id) (query : ActivityCursorQuery) :
    (ActivityService.list workspaceId taskId query).Within F :=
  (within_query _).bind fun _ => trivial

theorem limited_summary (collate : JsString → JsString) (boardId : Option Id) :
    (DashboardService.summary collate workspaceId boardId).Limited L fun _ => True := by
  have hnarrowed : (DashboardService.assertNarrowed workspaceId boardId).Within L.evolution.footprint := by
    cases boardId with
    | none => trivial
    | some b => exact (within_assertBoard workspaceId b).bind fun _ => trivial
  have hcolumns : (DashboardService.countsByColumn workspaceId boardId).Within L.evolution.footprint := by
    cases boardId with
    | none => trivial
    | some b => exact (within_query _).bind fun _ => (within_query _).bind fun _ => trivial
  have hnow : (Tx.now : Tx kurul Instant).Within L.evolution.footprint := fun _ => trivial
  exact hnarrowed.auto.bind fun _ _ => hnow.auto.bind fun _ _ => (within_query _).auto.bind fun _ _ =>
    (within_query _).auto.bind fun _ _ => (within_query _).auto.bind fun _ _ =>
      (within_query _).auto.bind fun _ _ => (within_query _).auto.bind fun _ _ =>
        (within_query _).auto.bind fun _ _ => hcolumns.auto.bind fun _ _ => (within_query _).auto.bind fun _ _ =>
          (within_query _).auto.bind fun _ _ => trivial

/-- Routes without roles read only, but for those that mark notifications as read. -/
theorem read_body (server : Server) (workspaceId userId : Id) (role : MemberRole) {rq : Request} (h : rq.roles = [])
    (hmark : ∀ id, rq ≠ .markRead id) (hall : rq ≠ .markAllRead) (hsummary : ∀ id, rq ≠ .summary id) :
    ∃ body : Tx kurul rq.Answer, rq.handle server workspaceId userId role = Call.auto body ∧
      ∀ F : Footprint kurul, body.Within F := by
  cases rq with
  | listBoards => exact ⟨_, rfl, fun _ => (within_query _).bind fun _ => trivial⟩
  | getBoard boardId => exact ⟨_, rfl, fun _ => (within_assertBoard workspaceId boardId).bind fun _ => trivial⟩
  | listColumns boardId =>
    exact ⟨_, rfl, fun _ => (within_assertBoard workspaceId boardId).bind fun _ => within_query _⟩
  | listLabels boardId =>
    exact ⟨_, rfl, fun _ => (within_assertBoard workspaceId boardId).bind fun _ =>
      (within_query _).bind fun _ => trivial⟩
  | listTasks boardId query => exact ⟨_, rfl, fun _ => within_listTasks _ _ boardId query⟩
  | getTask taskId => exact ⟨_, rfl, fun _ => (within_findTask workspaceId taskId).bind fun _ => trivial⟩
  | listComments taskId query =>
    exact ⟨_, rfl, fun _ => (within_findTaskBasic workspaceId taskId).bind fun _ =>
      (within_query _).bind fun _ => trivial⟩
  | listAttachments taskId =>
    exact ⟨_, rfl, fun _ => (within_findAttachmentTask taskId).bind fun _ =>
      (within_query _).bind fun _ => trivial⟩
  | findAttachment attachmentId =>
    have hfound : ∀ F : Footprint kurul,
        (AttachmentService.requireAttachment workspaceId attachmentId).Within F :=
      fun _ => (within_query _).bind fun _ => within_orThrow _ _
    exact ⟨_, rfl, fun F => (hfound F).bind fun _ => trivial⟩
  | listActivities query => exact ⟨_, rfl, fun _ => within_listActivities none query⟩
  | listTaskActivities taskId query =>
    exact ⟨_, rfl, fun _ => (within_query _).bind fun _ => (within_orThrow _ _).bind fun _ =>
      within_listActivities (some taskId) query⟩
  | listNotifications query => exact ⟨_, rfl, fun _ => within_query _⟩
  | unreadCount => exact ⟨_, rfl, fun _ => within_query _⟩
  | markAllRead => exact absurd rfl hall
  | markRead id => exact absurd rfl (hmark id)
  | summary id => exact absurd rfl (hsummary id)
  | _ => cases h

theorem limited_read {server : Server} {userId : Id} {role : MemberRole}
    (hread : ∀ notificationId, (NotificationService.markRead workspaceId userId notificationId).Limited L
      fun _ => True)
    (hall : (NotificationService.markAllRead workspaceId userId).Limited L fun _ => True)
    {rq : Request} (h : rq.roles = []) :
    (rq.handle server workspaceId userId role).Limited L fun _ => True := by
  by_cases hspecial : (∃ id, rq = .markRead id) ∨ rq = .markAllRead ∨ ∃ id, rq = .summary id
  · rcases hspecial with ⟨id, rfl⟩ | rfl | ⟨id, rfl⟩
    · exact hread id
    · exact hall
    · exact limited_summary server.collate id
  · simp only [not_or, not_exists] at hspecial
    obtain ⟨body, heq, hbody⟩ := read_body server workspaceId userId role h hspecial.1 hspecial.2.1 hspecial.2.2
    rw [heq]
    exact (hbody _).auto

end Reads

/-! ## Each request -/

/-- The identifiers of an import are all different. -/
def Request.Numbered : Request → Prop
  | .importTrello uuidv7 _ => Function.Injective uuidv7
  | _ => True

/-- Of every request a client may come to make. -/
def Client.Numbered : Client → Prop
  | .done => True
  | .ask rq next => rq.Numbered ∧ ∀ answer, (next answer).Numbered

def Visit.Numbered (v : Visit) : Prop :=
  match v.job with
  | .client c => c.Numbered
  | .view _ => True

/-- Those at work: one user, in one workspace. -/
def Visit.who (v : Visit) (workspaceId userId : Id) : Prop := workspaceId = v.workspaceId ∧ userId = v.userId

section Requests

variable {who : Id → Id → Prop} {server : Server} {workspaceId userId : Id}

theorem limited_handle (hwho : who workspaceId userId) (role : MemberRole) (rq : Request)
    (hrq : rq.Numbered) :
    (rq.handle server workspaceId userId role).Limited (conducted who) fun _ => True := by
  cases rq with
  | createBoard dto acceptLanguage => exact limited_createBoard hwho server.rt dto acceptLanguage
  | updateBoard boardId dto => exact limited_updateBoard hwho boardId dto
  | removeBoard boardId => exact limited_removeBoard hwho boardId
  | createColumn boardId dto => exact limited_createColumn hwho boardId dto
  | createDefaultColumns boardId acceptLanguage =>
    exact limited_createDefaults hwho server.rt boardId acceptLanguage
  | updateColumn columnId dto => exact limited_updateColumn hwho columnId dto
  | removeColumn columnId => exact limited_removeColumn hwho columnId
  | moveColumn columnId dto => exact limited_moveColumn hwho columnId dto
  | createLabel boardId dto => exact limited_createLabel hwho boardId dto
  | updateLabel labelId dto => exact limited_updateLabel hwho labelId dto
  | removeLabel labelId => exact limited_removeLabelRow hwho labelId
  | createTask boardId dto => exact limited_createTask hwho server.rt boardId dto
  | updateTask taskId dto => exact limited_updateTask hwho server.rt taskId dto
  | removeTask taskId => exact limited_removeTask hwho taskId
  | moveTask taskId dto => exact limited_moveTask hwho taskId dto
  | addAssignee taskId dto => exact limited_addAssignee hwho taskId dto
  | removeAssignee taskId assigneeUserId => exact limited_removeAssignee hwho taskId assigneeUserId
  | addTaskLabel taskId dto => exact limited_addLabel hwho taskId dto
  | removeTaskLabel taskId labelId => exact limited_removeLabel hwho taskId labelId
  | createChecklist taskId dto => exact limited_createChecklist hwho taskId dto
  | updateChecklist taskId checklistId dto => exact limited_updateChecklist hwho taskId checklistId dto
  | moveChecklist taskId checklistId dto => exact limited_moveChecklist hwho taskId checklistId dto
  | removeChecklist taskId checklistId => exact limited_removeChecklist hwho taskId checklistId
  | createChecklistItem taskId checklistId dto => exact limited_createItem hwho taskId checklistId dto
  | updateChecklistItem taskId itemId dto => exact limited_updateItem hwho taskId itemId dto
  | moveChecklistItem taskId itemId dto => exact limited_moveItem hwho taskId itemId dto
  | removeChecklistItem taskId itemId => exact limited_removeItem hwho taskId itemId
  | createComment taskId dto => exact limited_createComment hwho taskId dto
  | removeComment commentId => exact limited_removeComment commentId role
  | createLink taskId dto => exact limited_createLink hwho server.rt taskId dto
  | createFile taskId file accepted written => exact limited_createFile hwho accepted written taskId file
  | removeAttachment attachmentId => exact limited_removeAttachment hwho attachmentId
  | importTrello uuidv7 parsed => exact limited_importBoard hwho server.rt hrq parsed
  | _ => exact limited_read (limited_markRead hwho) (limited_markAllRead hwho) rfl

theorem within_guards {F : Footprint kurul} (rq : Request) : (rq.guards workspaceId userId).Within F := by
  have hguard : (WorkspaceMemberService.workspaceGuard userId workspaceId).Within F :=
    (within_throwIf _ _).bind fun _ => (within_query _).bind fun _ => (within_orThrow _ _).bind fun _ => trivial
  exact hguard.bind fun _ => (within_throwIf _ _).bind fun _ => trivial

theorem limited_serve (hwho : who workspaceId userId) (rq : Request) (hrq : rq.Numbered) :
    (rq.serve server workspaceId userId).Limited (conducted who) fun _ => True :=
  (within_guards rq).auto.bind fun membership _ => limited_handle hwho membership.role rq hrq

theorem limited_settled {α : Type} {L : Limits kurul} {call : Call kurul α} (h : call.Limited L fun _ => True) :
    (settled call).Limited L fun _ => True := by
  have hok : (call >>= fun a => Call.ret (Except.ok a) : Call kurul (Except ApiError α)).Limited L
      fun _ => True := h.bind fun _ _ => trivial
  exact hok.tryCatch fun _ => trivial

theorem limited_client (hwho : who workspaceId userId) (c : Client) (hc : c.Numbered) :
    (c.call server workspaceId userId).Limited (conducted who) fun _ => True := by
  induction c with
  | done => trivial
  | ask rq next ih =>
    exact (limited_settled (limited_serve hwho rq hc.1)).bind fun answer _ => ih answer (hc.2 answer)

theorem limited_visit (v : Visit) (hv : v.Numbered) :
    (v.call server).Limited (conducted v.who) fun _ => True := by
  have hwho : v.who v.workspaceId v.userId := ⟨rfl, rfl⟩
  obtain ⟨workspaceId, userId, job⟩ := v
  cases job with
  | client c => exact limited_client hwho c hv
  | view kind => exact limited_recordQuietly hwho kind

end Requests

/-! ## What stays -/

/-- Rows of people, and of what they belong to. -/
def Table.belonging : Table → Bool
  | .user | .session | .account | .verification | .workspace | .workspaceMember | .workspaceInvitation => true
  | _ => false

theorem belonging_of_content {t : Table} (h : t.content = true) : t.belonging = false := by
  cases t <;> first | rfl | cases h

section Kept

variable {who : Id → Id → Prop} {db db' : Db}

theorem fixed_of_belonging {v : Row} (h : v.key.table.belonging = true) : v.fixed = v := by
  cases v <;> first | rfl | cases h

theorem not_signed_of_belonging {v : Row} (h : v.key.table.belonging = true) : ¬ v.Signed who := by
  cases v <;> first | exact id | cases h

/-- Such rows are neither added nor removed, and nothing of them is written to. -/
theorem belonging_kept (h : (conduct who).Holds db db') {k : Key} (hk : k.table.belonging = true) :
    db'.get? k = db.get? k := by
  have hchanges : Changes who (db.get? k) (db'.get? k) := h k
  have hkey : ∀ {db : Db} {v : Row}, db.get? k = some v → v.key.table.belonging = true := fun hv => by
    have hv : Row.key _ = k := Store.key_of_get? hv
    rw [hv]
    exact hk
  have hcontent : ∀ {u : Row}, db.get? k = some u → u.key.table.content ≠ true := fun hu hc => by
    have hb := belonging_of_content hc
    rw [hkey hu] at hb
    cases hb
  cases hu : db.get? k with
  | none =>
    cases hv : db'.get? k with
    | none => rfl
    | some v =>
      rw [hu, hv] at hchanges
      exact absurd hchanges (not_signed_of_belonging (hkey hv))
  | some u =>
    cases hv : db'.get? k with
    | none =>
      rw [hu, hv] at hchanges
      exact absurd hchanges (hcontent hu)
    | some v =>
      rw [hu, hv] at hchanges
      rcases hchanges with hb | ⟨hc, _⟩
      · rw [hb.eq_of_fixed (fixed_of_belonging (hkey hu)) (fixed_of_belonging (hkey hv))]
      · exact absurd hc (hcontent hu)

/-- An entry of the history stays, if maybe without its task. -/
theorem activity_kept (h : (conduct who).Holds db db') {a : ActivityRow} (ha : a ∈ rows ActivityRow db) :
    ∃ a' ∈ rows ActivityRow db', a' = a ∨ a' = { a with taskId := none } := by
  have hchanges : Changes who (db.get? ⟨.activity, a.id⟩) (db'.get? ⟨.activity, a.id⟩) := h _
  have hget : db.get? ⟨.activity, a.id⟩ = some (.activity a) := get?_row ha
  rw [hget] at hchanges
  cases hv : db'.get? ⟨.activity, a.id⟩ with
  | none =>
    rw [hv] at hchanges
    cases hchanges
  | some v =>
    rw [hv] at hchanges
    rcases hchanges with hb | ⟨hc, _⟩
    · have hfixed : v.fixed = .activity { a with taskId := none } := hb.fixed
      cases v with
      | activity a' =>
        refine ⟨a', mem_rows.mpr (Store.mem_of_get? hv), ?_⟩
        have heq : ({ a' with taskId := none } : ActivityRow) = { a with taskId := none } := by
          simpa [Row.fixed] using hfixed
        have habout : a'.taskId = a.taskId ∨ a'.taskId = none := hb.about
        rcases habout with htask | htask
        · left
          calc a' = { ({ a' with taskId := none } : ActivityRow) with taskId := a'.taskId } := rfl
            _ = a := by rw [heq, htask]
        · right
          calc a' = { ({ a' with taskId := none } : ActivityRow) with taskId := a'.taskId } := rfl
            _ = { a with taskId := none } := by rw [heq, htask]
      | _ => cases hfixed
    · cases hc

end Kept

/-! ## Guests -/

/-- Notifications for the user may be read; nothing else is written to. -/
def reading (workspaceId userId : Id) : Evolution kurul where
  rel u v := v = u ∨ ∃ (n : NotificationRow) (t : Instant), u = some (.notification n) ∧
    n.workspaceId = workspaceId ∧ n.userId = userId ∧ v = some (.notification { n with readAt := some t })
  refl _ := .inl rfl
  trans := by
    rintro u v w (rfl | ⟨n, t, rfl, hw, hu, rfl⟩) h'
    · exact h'
    · rcases h' with rfl | ⟨n', t', heq, _, _, rfl⟩
      · exact .inr ⟨n, t, rfl, hw, hu, rfl⟩
      · obtain rfl : { n with readAt := some t } = n' := by simpa using heq
        exact .inr ⟨n, t', rfl, hw, hu, rfl⟩

/-- The user has no other role in the workspace than that of a guest, if any. -/
def Guest (workspaceId userId : Id) (db : Db) : Prop :=
  ∀ m ∈ rows WorkspaceMemberRow db, m.workspaceId = workspaceId → m.userId = userId → m.role = .guest

def visiting (workspaceId userId : Id) : Limits kurul where
  sees := Guest workspaceId userId
  evolution := reading workspaceId userId
  tells e := e = .toUser workspaceId userId

section Guests

variable {workspaceId userId : Id}

section Auto

variable {α : Type} {L : Limits kurul}

theorem limited_query {f : Db → α} {Q : α → Prop} (h : ∀ db, L.sees db → Q (f db)) :
    (Call.auto (query f)).Limited L Q := by
  simp only [query, Tx.exec, Call.auto, Call.Limited]
  refine ⟨fun db e hsees he => ?_, fun _ => trivial⟩
  rw [← Except.ok.inj he]
  exact ⟨Footprint.Covers.nil db, h db hsees⟩

theorem limited_orThrow {x : Option α} {e : ApiError} {Q : α → Prop} (h : ∀ a, x = some a → Q a) :
    (Call.auto (orThrow x e)).Limited L Q := by
  cases x with
  | none => trivial
  | some a => exact h a rfl

theorem limited_throwIf {c : Bool} {e : ApiError} {Q : Unit → Prop} (h : c = false → Q ()) :
    (Call.auto (throwIf c e)).Limited L Q := by
  cases c with
  | true => trivial
  | false => exact h rfl

end Auto

theorem roles_cases (rq : Request) :
    rq.roles = [] ∨ rq.roles = contentRoles ∨ rq.roles = adminRoles := by
  cases rq <;> first | exact .inl rfl | exact .inr (.inl rfl) | exact .inr (.inr rfl)

/-- Past the guards a guest is on a route without roles. -/
theorem limited_guards (rq : Request) :
    (Call.auto (rq.guards workspaceId userId)).Limited (visiting workspaceId userId)
      fun _ => rq.roles = [] := by
  have hmember : (Call.auto (WorkspaceMemberService.workspaceGuard userId workspaceId)).Limited
      (visiting workspaceId userId) fun membership => membership.role = .guest := by
    rw [WorkspaceMemberService.workspaceGuard, Call.auto_bind]
    refine (limited_throwIf fun _ => trivial).bind fun _ (_ : True) => ?_
    rw [Call.auto_bind]
    refine (limited_query (Q := fun found => ∀ m, found = some m → m.role = .guest)
      fun db hguest m hm => ?_).bind fun found hfound => ?_
    · have hp := List.find?_some hm
      simp only [WorkspaceMemberService.memberWhere, Bool.and_eq_true, decide_eq_true_eq] at hp
      exact hguest m (List.mem_of_find?_eq_some hm) hp.1 hp.2
    · rw [Call.auto_bind]
      exact (limited_orThrow hfound).bind fun m hm => hm
  rw [Request.guards, Call.auto_bind]
  refine hmember.bind fun membership hguest => ?_
  rw [Call.auto_bind]
  refine (limited_throwIf (Q := fun _ => rq.roles = []) fun hpass => ?_).bind fun _ h => h
  rcases roles_cases rq with hnone | hcontent | hadmin
  · exact hnone
  · rw [hguest, hcontent] at hpass
    cases hpass
  · rw [hguest, hadmin] at hpass
    cases hpass

theorem reads_own {n : NotificationRow} {now : Instant} (hw : n.workspaceId = workspaceId)
    (hu : n.userId = userId) : (reading workspaceId userId).rel (some (Model.row n))
      (some (Model.row ((NotificationService.readNow now).apply n))) :=
  .inr ⟨n, now, rfl, hw, hu, rfl⟩

theorem limited_signal (changed : Bool) :
    (NotificationService.signalIf changed workspaceId userId).Limited (visiting workspaceId userId)
      fun _ => True := by
  cases changed with
  | false => trivial
  | true => exact ⟨rfl, trivial⟩

/-- Whatever a guest asks for. -/
theorem limited_guest (server : Server) (rq : Request) :
    (rq.serve server workspaceId userId).Limited (visiting workspaceId userId) fun _ => True := by
  refine (limited_guards rq).bind fun membership hroles => limited_read (fun notificationId => ?_) ?_ hroles
  · have hbody : (NotificationService.markReadBody workspaceId userId notificationId).Within
        (reading workspaceId userId).footprint := by
      refine (within_query _).bind fun _ => (within_orThrow _ _).bind fun _ => ?_
      split
      · trivial
      · refine fun now => (within_update fun _ n _ hn => ?_).bind fun _ => trivial
        simp only [NotificationService.ownWhere, Bool.and_eq_true, decide_eq_true_eq] at hn
        exact reads_own hn.1.2 hn.2
    exact hbody.transaction.bind fun done _ => (limited_signal done.2).bind fun _ _ => trivial
  · have hwrite : (Tx.now >>= fun now =>
        updateMany (fun _ => NotificationService.unreadWhere workspaceId userId)
          (NotificationService.readNow now)).Within (reading workspaceId userId).footprint := by
      refine fun now => within_updateMany fun _ n hn => ?_
      simp only [NotificationService.unreadWhere, Bool.and_eq_true, decide_eq_true_eq] at hn
      exact reads_own hn.1.1 hn.1.2
    exact hwrite.auto.bind fun count _ => (limited_signal _).bind fun _ _ => trivial

theorem limited_guestClient (server : Server) (c : Client) :
    (c.call server workspaceId userId).Limited (visiting workspaceId userId) fun _ => True := by
  induction c with
  | done => trivial
  | ask rq next ih =>
    exact (limited_settled (limited_guest server rq)).bind fun answer _ => ih answer

theorem guest_of_kept {db db' : Db} (h : ∀ k, k.table.belonging = true → db'.get? k = db.get? k)
    (hguest : Guest workspaceId userId db) : Guest workspaceId userId db' := by
  intro m hm hw hu
  have hget : db'.get? ⟨.workspaceMember, m.id⟩ = some (.workspaceMember m) := get?_row hm
  rw [h _ rfl] at hget
  exact hguest m (mem_rows.mpr (Store.mem_of_get? hget)) hw hu

/-- Reading a notification is within the rules for anybody. -/
theorem conduct_of_reading {who : Id → Id → Prop} (hwho : who workspaceId userId) {db db' : Db}
    (h : (reading workspaceId userId).Holds db db') : (conduct who).Holds db db' := by
  intro k
  rcases h k with heq | ⟨n, t, hu, hworkspace, huser, hv⟩
  · rw [heq]
    exact (conduct who).refl _
  · rw [hu, hv]
    exact .inl ⟨rfl, .inl rfl, .inr ⟨rfl, n.workspaceId, n.userId, rfl, hworkspace ▸ huser ▸ hwho⟩⟩

end Guests

/-! ## Whole runs -/

/-- Somebody among the visitors. -/
def visitors {ι : Type} (visits : ι → Visit) (workspaceId userId : Id) : Prop :=
  ∃ i, (visits i).who workspaceId userId

/-- Workspace `w` of `o`, with the guest `g` and an unread notification for each of them. -/
def sharedDb : Db where
  rows := [.user ⟨js "o", js "o@x", js "O", true, none, none, none⟩,
    .user ⟨js "g", js "g@x", js "G", true, none, none, none⟩, .workspace ⟨js "w", js "W", js "w"⟩,
    .workspaceMember ⟨js "mo", js "w", js "o", .owner⟩, .workspaceMember ⟨js "mg", js "w", js "g", .guest⟩,
    .board ⟨js "k", js "w", js "K", none, 0⟩,
    .notification ⟨js "no", js "w", js "o", .dueSoon, none, none, .null, none, 0⟩,
    .notification ⟨js "ng", js "w", js "g", .dueSoon, none, none, .null, none, 0⟩]
  nodup := by decide

/-- The guest reads everything while the owner adds a label. -/
def sharedVisits (i : Fin 2) : Visit :=
  if i = 0 then ⟨js "w", js "g", .client (.ask .markAllRead fun _ => .done)⟩
  else ⟨js "w", js "o", .client (.ask (.createLabel (js "k") ⟨js "L", js "blue"⟩) fun _ => .done)⟩

def sharedServer : Server := ⟨.bare, id, fun _ _ => false⟩

/-- The owner is done, the guest is about to write. -/
def sharedSchedule : List (Fin 2 × Id) :=
  [(1, []), (0, []), (1, []), (1, js "l"), (0, []), (1, []), (1, js "a"), (1, []), (1, [])]

theorem numbered_sharedVisits (i : Fin 2) : (sharedVisits i).Numbered := by
  unfold sharedVisits
  split <;> exact ⟨trivial, fun _ => trivial⟩

section Runs

variable {ι : Type} [DecidableEq ι] {visits : ι → Visit} {server : Server} {db : Db} {σ : Config kurul ι}
  {Ok : Config kurul ι → ι → Act kurul → Prop}

omit [DecidableEq ι] in
variable (server db) in
theorem limited_opened (hvisits : ∀ i, (visits i).Numbered) :
    (opened server visits db).Limited fun i => conducted (visits i).who :=
  .start (fun _ => trivial) fun i => limited_visit (visits i) (hvisits i)

end Runs
end Kurul
