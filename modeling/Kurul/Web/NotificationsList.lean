import Kurul.Lts
import Kurul.Notification.NotificationService
import Kurul.Order.GapFree
import Kurul.Web.ApiResource

/-!
# Kurul.Web.NotificationsList

The list of notifications. Its first page is a resource, loaded anew on a filter and on a signal;
`loadMore` appends what it is answered to what is shown then.

* `Gapless`      — what is to be shown once nothing is in flight.
* `Timely`       — an answer is appended to the rows it was asked for.
* `list_gapless` — along every run of such steps.
-/

namespace Kurul
namespace Web

open NotificationService Paging

structure NotificationFilters where
  unreadOnly : Bool
  type : Option NotificationType
  deriving DecidableEq

def buildQuery (filters : NotificationFilters) (cursor : Option Id) : NotificationCursorQuery where
  limit := some 50
  cursor := cursor.filter truthy
  unreadOnly := filters.unreadOnly
  type := filters.type

/-- A `CursorPage`, each of its rows with the rows the server had when it read it. -/
structure NotificationPage where
  items : List (Found NotificationRow NotificationDto)
  nextCursor : Option Id

def emptyPage : NotificationPage := ⟨[], none⟩

structure PageRequest where
  filters : NotificationFilters
  cursor : Option Id
  answer : Option NotificationPage

structure NotificationsList where
  /-- The rows of the server. -/
  server : List NotificationRow
  filters : NotificationFilters
  page : ApiResource NotificationPage PageRequest
  /-- The request of `loadMore`, while `loadingMore`. -/
  more : Option PageRequest

inductive ListAct where
  /-- Another notification, of any user. -/
  | arrive (notification : NotificationRow)
  | setFilters (filters : NotificationFilters)
  /-- A signal arrives, or the socket has joined again. -/
  | signal
  /-- The button of a failed load. -/
  | retry
  | loadMore
  /-- The server reads the first page. -/
  | serveLoad
  /-- Its answer arrives. -/
  | load
  | failLoad
  | serveMore
  | appendMore
  | failMore

/-- Asked, and answered from these rows. -/
def PageRequest.serve (workspaceId userId : Id) (rows : List NotificationRow) (q : PageRequest) :
    PageRequest :=
  let page := listPage workspaceId userId (buildQuery q.filters q.cursor) rows
  { q with answer := some ⟨found rows page, page.nextCursor⟩ }

/-- `setPage` in `loadMore`. -/
def appendPage (next current : NotificationPage) : NotificationPage :=
  ⟨current.items ++ next.items, next.nextCursor⟩

namespace NotificationsList

/-- The filters have changed, or `reload`. -/
def reload (s : NotificationsList) : NotificationsList :=
  { s with page := s.page.start ⟨s.filters, none, none⟩ }

section Next

variable (workspaceId userId : Id)

def next : ListAct → NotificationsList → Option NotificationsList
  | .arrive n, s =>
    if s.server.any fun r => r.id = n.id then none else some { s with server := s.server ++ [n] }
  | .setFilters filters, s => if filters = s.filters then some s else some { s with filters }.reload
  | .signal, s => if s.more.isSome then some s else some s.reload
  | .retry, s => if s.page.failed then some s.reload else none
  | .loadMore, s =>
    match s.page.data.nextCursor.filter truthy, s.more with
    | some cursor, none => some { s with more := some ⟨s.filters, some cursor, none⟩ }
    | _, _ => none
  | .serveLoad, s =>
    match s.page.load with
    | some ⟨filters, cursor, none⟩ =>
      let served := PageRequest.serve workspaceId userId s.server ⟨filters, cursor, none⟩
      some { s with page := s.page.proceed served }
    | _ => none
  | .load, s =>
    match s.page.load with
    | some ⟨_, _, some page⟩ => some { s with page := s.page.succeed page }
    | _ => none
  | .failLoad, s => if s.page.load.isSome then some { s with page := .fail emptyPage } else none
  | .serveMore, s =>
    match s.more with
    | some ⟨filters, cursor, none⟩ =>
      let served := PageRequest.serve workspaceId userId s.server ⟨filters, cursor, none⟩
      some { s with more := some served }
    | _ => none
  | .appendMore, s =>
    match s.more with
    | some ⟨_, _, some next⟩ => some { s with page := s.page.setData (appendPage next), more := none }
    | _ => none
  | .failMore, s => if s.more.isSome then some { s with more := none } else none

end Next

/-- A list that has been opened: the first load is under way. What the server has arrives. -/
def start : NotificationsList :=
  reload ⟨[], ⟨false, none⟩, .initial emptyPage, none⟩

/-- Nothing is in flight. -/
def AtRest (s : NotificationsList) : Prop := s.page.load = none ∧ s.more = none

/-- With no load under way, an answer to `loadMore` finds the filters it was asked with, and the cursor,
unless there are no rows for it to follow. -/
def Timely (s : NotificationsList) : ListAct → Prop
  | .appendMore => s.page.load = none → ∀ m ∈ s.more,
      m.filters = s.filters ∧ (s.page.data.items = [] ∨ s.page.data.nextCursor = m.cursor)
  | _ => True

end NotificationsList

/-! ## What is shown -/

section Shown

variable (workspaceId userId : Id) (filters : NotificationFilters)

/-- A notification of the user in the workspace, of the kind the filters let through. -/
def matching (n : NotificationRow) : Bool := listWhere workspaceId userId (buildQuery filters none) n

/-- Read from a row that matched. -/
def ReadMatching (a : Found NotificationRow NotificationDto) : Prop :=
  ∃ n ∈ a.rows, matching workspaceId userId filters n = true ∧ a.value = toDto n

/-- Each once, from the newest to the oldest, all of them matching when they were read, and with nothing
left out between two neighbours that was there when the older was read. -/
structure Gapless (items : List (Found NotificationRow NotificationDto)) : Prop where
  descending : items.Pairwise fun a b => b.value.id < a.value.id
  fits : ∀ a ∈ items, ReadMatching workspaceId userId filters a
  gapless : items.IsChain fun a b => ∀ n ∈ b.rows, matching workspaceId userId filters n = true →
    ¬ (b.value.id < n.id ∧ n.id < a.value.id)

/-- The newest notification is the first. -/
def shownFirst (dto : NotificationDto) : Idᵒᵈ := OrderDual.toDual dto.id

/-- What a page has to be for the next to follow it: it ends at the cursor of the next. -/
structure Shows (page : NotificationPage) : Prop where
  gapFree : GapFree newestFirst shownFirst (matching workspaceId userId filters) page.items
  fits : ∀ a ∈ page.items, ReadMatching workspaceId userId filters a
  last : ∀ c ∈ page.nextCursor,
    page.items.getLast?.map (fun a => shownFirst a.value) = some (OrderDual.toDual c)

/-- A page that was read at a cursor. -/
structure Follows (cursor : Option Id) (page : NotificationPage) : Prop extends
    Shows workspaceId userId filters page where
  continues : Continues newestFirst shownFirst (matching workspaceId userId filters)
    (cursor.map OrderDual.toDual) page.items

end Shown

section Pages

variable {workspaceId userId : Id} {filters : NotificationFilters} {current following : NotificationPage}
  {rows : List NotificationRow} {q : PageRequest}

theorem Shows.empty : Shows workspaceId userId filters emptyPage := ⟨.nil, nofun, nofun⟩

theorem Shows.gapless (h : Shows workspaceId userId filters current) :
    Gapless workspaceId userId filters current.items where
  descending := h.gapFree.increasing
  fits := h.fits
  gapless := h.gapFree.gapless.imp fun _ _ hgap n hn hm hbetween => hgap n hn hm hbetween.symm

theorem Shows.append {cursor : Id} (h : Shows workspaceId userId filters current)
    (h' : Follows workspaceId userId filters (some cursor) following)
    (hc : current.items = [] ∨ current.nextCursor = some cursor) :
    Shows workspaceId userId filters (appendPage following current) where
  gapFree := by
    rcases hc with hnil | hc
    · simpa [appendPage, hnil] using h'.gapFree
    · exact h.gapFree.append (h.last cursor hc) h'.continues
  fits := List.forall_mem_append.mpr ⟨h.fits, h'.fits⟩
  last := by
    intro c hc
    obtain ⟨a, ha, hkey⟩ := Option.map_eq_some_iff.mp (h'.last c hc)
    simp [appendPage, List.getLast?_append, ha, hkey]

/-- What the server answers follows the cursor it was asked with. -/
theorem follows_serve (hnd : (rows.map NotificationRow.id).Nodup) (hc : q.cursor.filter truthy = q.cursor) :
    ∀ page ∈ (q.serve workspaceId userId rows).answer,
      Follows workspaceId userId q.filters q.cursor page := by
  rintro page ⟨⟩
  have hpage : Continues newestFirst shownFirst (matching workspaceId userId q.filters)
      (q.cursor.map OrderDual.toDual)
      (found rows (listPage workspaceId userId (buildQuery q.filters q.cursor) rows)) ∧
    (∀ c ∈ (listPage workspaceId userId (buildQuery q.filters q.cursor) rows).nextCursor,
      (found rows (listPage workspaceId userId (buildQuery q.filters q.cursor) rows)).getLast?.map
        (fun a => shownFirst a.value) = some (OrderDual.toDual c)) ∧
    ∀ t ∈ (listPage workspaceId userId (buildQuery q.filters q.cursor) rows).items,
      ∃ n ∈ rows, matching workspaceId userId q.filters n = true ∧ t = toDto n := by
    have hcursor : (buildQuery q.filters q.cursor).cursor.filter truthy = q.cursor := by
      simp only [buildQuery, hc]
    unfold listPage
    rw [hcursor]
    exact continues_page (fun _ => rfl) hnd (by simp [buildQuery])
  obtain ⟨hcontinues, hlast, hfrom⟩ := hpage
  refine ⟨⟨hcontinues.toGapFree, fun a ha => ?_, hlast⟩, hcontinues⟩
  obtain ⟨t, ht, rfl⟩ := List.mem_map.mp ha
  exact hfrom t ht

end Pages

/-! ## Runs -/

namespace NotificationsList

/-- A first page is asked for with the filters, and what is answered follows its cursor; with no load
under way the page shows what it is to. -/
structure Inv (workspaceId userId : Id) (s : NotificationsList) : Prop where
  nodup : (s.server.map NotificationRow.id).Nodup
  load : ∀ q ∈ s.page.load, q.filters = s.filters ∧ q.cursor = none ∧
    ∀ page ∈ q.answer, Follows workspaceId userId q.filters q.cursor page
  more : ∀ m ∈ s.more, (∃ cursor, m.cursor = some cursor ∧ truthy cursor = true) ∧
    ∀ page ∈ m.answer, Follows workspaceId userId m.filters m.cursor page
  shown : s.page.load = none → Shows workspaceId userId s.filters s.page.data

section Steps

variable {workspaceId userId : Id} {s s' : NotificationsList} {a : ListAct}

/-- A new load, with whatever filters. -/
theorem Inv.reload {filters : NotificationFilters} (hi : Inv workspaceId userId s) :
    Inv workspaceId userId ({ s with filters }.reload) where
  nodup := hi.nodup
  load := by
    rintro q ⟨⟩
    exact ⟨rfl, rfl, nofun⟩
  more := hi.more
  shown := nofun

theorem nodup_arrive {n : NotificationRow} (hnd : (s.server.map NotificationRow.id).Nodup)
    (hnew : ¬ (s.server.any fun r => r.id = n.id) = true) :
    ((s.server ++ [n]).map NotificationRow.id).Nodup := by
  rw [List.map_append, List.map_singleton]
  refine List.nodup_append.mpr ⟨hnd, List.nodup_singleton _, ?_⟩
  intro id hid id' hid' heq
  obtain ⟨r, hr, rfl⟩ := List.mem_map.mp hid
  rw [List.mem_singleton.mp hid'] at heq
  exact hnew (List.any_eq_true.mpr ⟨r, hr, by simpa using heq⟩)

/-- An answer to `loadMore` is appended. A load under way is about to replace the page. -/
theorem Inv.append {filters : NotificationFilters} {cursor : Option Id} {page : NotificationPage}
    (hi : Inv workspaceId userId s) (htimely : Timely s .appendMore)
    (hmore : s.more = some ⟨filters, cursor, some page⟩) :
    Inv workspaceId userId { s with page := s.page.setData (appendPage page), more := none } where
  nodup := hi.nodup
  load := hi.load
  more := nofun
  shown := by
    intro hload
    obtain ⟨⟨c, rfl, -⟩, hfollows⟩ := hi.more _ hmore
    obtain ⟨rfl, hc⟩ := htimely hload _ hmore
    exact (hi.shown hload).append (hfollows page rfl) hc

theorem inv_step (hi : Inv workspaceId userId s) (htimely : Timely s a)
    (hs : next workspaceId userId a s = some s') : Inv workspaceId userId s' := by
  cases a with
  | arrive n =>
    simp only [next] at hs
    split at hs
    · cases hs
    · rename_i hnew
      cases hs
      exact ⟨nodup_arrive hi.nodup hnew, hi.load, hi.more, hi.shown⟩
  | setFilters filters =>
    simp only [next] at hs
    split at hs
    · cases hs
      exact hi
    · cases hs
      exact hi.reload
  | signal =>
    simp only [next] at hs
    split at hs
    · cases hs
      exact hi
    · cases hs
      exact hi.reload
  | retry =>
    simp only [next] at hs
    split at hs
    · cases hs
      exact hi.reload
    · cases hs
  | loadMore =>
    simp only [next] at hs
    split at hs
    · rename_i cursor hcursor hmore
      cases hs
      refine ⟨hi.nodup, hi.load, ?_, hi.shown⟩
      rintro m ⟨⟩
      exact ⟨⟨cursor, rfl, (Option.filter_eq_some_iff.mp hcursor).2⟩, nofun⟩
    · cases hs
  | serveLoad =>
    simp only [next] at hs
    split at hs
    · rename_i filters cursor hload
      cases hs
      obtain ⟨hfilters, hcursor, -⟩ := hi.load _ hload
      refine ⟨hi.nodup, ?_, hi.more, nofun⟩
      rintro q ⟨⟩
      exact ⟨hfilters, hcursor, follows_serve hi.nodup (by rw [hcursor]; rfl)⟩
    · cases hs
  | load =>
    simp only [next] at hs
    split at hs
    · rename_i filters cursor page hload
      cases hs
      obtain ⟨rfl, -, hfollows⟩ := hi.load _ hload
      exact ⟨hi.nodup, nofun, hi.more, fun _ => (hfollows page rfl).toShows⟩
    · cases hs
  | failLoad =>
    simp only [next] at hs
    split at hs
    · cases hs
      exact ⟨hi.nodup, nofun, hi.more, fun _ => .empty⟩
    · cases hs
  | serveMore =>
    simp only [next] at hs
    split at hs
    · rename_i filters cursor hmore
      cases hs
      obtain ⟨⟨c, rfl, htruthy⟩, -⟩ := hi.more _ hmore
      refine ⟨hi.nodup, hi.load, ?_, hi.shown⟩
      rintro m ⟨⟩
      exact ⟨⟨c, rfl, htruthy⟩, follows_serve hi.nodup (by simp [htruthy])⟩
    · cases hs
  | appendMore =>
    simp only [next] at hs
    split at hs
    · rename_i filters cursor page hmore
      cases hs
      exact hi.append htimely hmore
    · cases hs
  | failMore =>
    simp only [next] at hs
    split at hs
    · cases hs
      exact ⟨hi.nodup, hi.load, nofun, hi.shown⟩
    · cases hs

theorem inv_start : Inv workspaceId userId start where
  nodup := List.nodup_nil
  load := by
    rintro q ⟨⟩
    exact ⟨rfl, rfl, nofun⟩
  more := nofun
  shown := nofun

end Steps

open Lts

/-- While what is loaded more is appended to the rows it was asked for, the list at rest has no gap. -/
theorem list_gapless {workspaceId userId : Id} {s : NotificationsList}
    (h : Reach (next workspaceId userId) Timely start s) (hrest : s.AtRest) :
    Gapless workspaceId userId s.filters s.page.data.items := by
  have hinv : Inv workspaceId userId s :=
    h.inv inv_start fun _ _ _ hi htimely hs => inv_step hi htimely hs
  exact (hinv.shown hrest.1).gapless

/-- Fifty-one mentions, one more than a page. -/
def mentions : List NotificationRow :=
  (List.range 51).map fun i =>
    ⟨[Fin.ofNat 65536 i], js "w", js "u", .mention, none, none, .null, none, 0⟩

/-- The first page is shown, and the last mention is on its way. -/
def loadingMore : List ListAct := mentions.map .arrive ++ [.serveLoad, .load, .loadMore, .serveMore]

def timely (s : NotificationsList) : ListAct → Bool
  | .appendMore => s.page.load.isSome || s.more.all fun m =>
      m.filters = s.filters && s.page.data.nextCursor = m.cursor
  | _ => true

theorem timely_ok {s : NotificationsList} {a : ListAct} (h : timely s a = true) : Timely s a := by
  cases a with
  | appendMore =>
    intro hload m hm
    have hall : m.filters = s.filters ∧ s.page.data.nextCursor = m.cursor := by
      simpa [timely, hload, Option.mem_def.mp hm] using h
    exact ⟨hall.1, .inr hall.2⟩
  | _ => trivial

/-- All fifty-one. -/
theorem list_gapless_two_pages : ∃ s, Reach (next (js "w") (js "u")) Timely start s ∧ s.AtRest ∧
    s.page.data.items.length = 51 ∧ Gapless (js "w") (js "u") s.filters s.page.data.items := by
  have hgoes : (play (next (js "w") (js "u")) timely (loadingMore ++ [.appendMore]) start).any (fun s =>
      s.page.load.isNone && s.more.isNone && s.page.data.items.length == 51) = true := by
    decide +kernel
  obtain ⟨s, hrun, hend⟩ := exists_reach (fun _ _ => timely_ok) hgoes
  simp only [Bool.and_eq_true, Option.isNone_iff_eq_none, beq_iff_eq] at hend
  exact ⟨s, hrun, hend.1, hend.2, list_gapless hrun hend.1⟩

/-- The filter is changed to assignments first. -/
def mixed : List ListAct :=
  loadingMore ++ [.setFilters ⟨false, some .assignment⟩, .serveLoad, .load, .appendMore]

/-- A mention is shown in a list of assignments. -/
theorem list_mixes : ¬ ∀ (workspaceId userId : Id) (s : NotificationsList),
    Reach (next workspaceId userId) (fun _ _ => True) start s → s.AtRest →
      Gapless workspaceId userId s.filters s.page.data.items := by
  intro h
  have hgoes : (play (next (js "w") (js "u")) (fun _ _ => true) mixed start).any (fun s =>
      s.page.load.isNone && s.more.isNone && s.page.data.items.any fun a =>
        a.rows.all fun n => !matching (js "w") (js "u") s.filters n) = true := by
    decide +kernel
  obtain ⟨s, hrun, hend⟩ := exists_reach (fun _ _ _ => trivial) hgoes
  simp only [Bool.and_eq_true, Option.isNone_iff_eq_none, List.any_eq_true, List.all_eq_true,
    Bool.not_eq_true'] at hend
  obtain ⟨hrest, a, ha, hnone⟩ := hend
  obtain ⟨n, hn, hmatch, -⟩ := (h _ _ s hrun hrest).fits a ha
  rw [hnone n hn] at hmatch
  cases hmatch

end NotificationsList

end Web
end Kurul
