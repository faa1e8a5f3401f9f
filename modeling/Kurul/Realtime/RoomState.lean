import Kurul.JsMap
import Kurul.JsString

/-!
# Kurul.Realtime.RoomState

What the gateway keeps for one socket, and what each of its handlers does to it: the rooms the socket
is in, and `client.data`, from which an eviction reads which rooms to take it out of.
-/

namespace Kurul

/-- `boardRoom(boardId)` and `userRoom(workspaceId, userId)`. -/
inductive Room where
  | board (boardId : Id)
  | user (workspaceId userId : Id)
  deriving DecidableEq

/-- What a join asks for. -/
inductive JoinTarget where
  | board (boardId : Id)
  | notifications (workspaceId : Id)
  deriving DecidableEq

/-- A body without an id. -/
def JoinTarget.isEmpty : JoinTarget → Bool
  | .board boardId => boardId = []
  | .notifications workspaceId => workspaceId = []

/-- The room of a target, for the user of the socket: a body names no user. -/
def JoinTarget.room (userId : Id) : JoinTarget → Room
  | .board boardId => .board boardId
  | .notifications workspaceId => .user workspaceId userId

theorem JoinTarget.room_inj {userId : Id} {t t' : JoinTarget} (h : t.room userId = t'.room userId) :
    t = t' := by
  cases t <;> cases t' <;> simp_all [JoinTarget.room]

/-- `client.data`, with the rooms the adapter has the socket in. -/
structure SocketState where
  rooms : List Room
  userId : Option Id
  /-- boardId → workspaceId for every board room this socket currently holds. -/
  boardWorkspaces : JsMap Id Id
  /-- Notification rooms joined for these workspace ids. -/
  notificationWorkspaces : List Id

namespace SocketState

/-- A socket that has just connected. -/
def fresh : SocketState := ⟨[], none, .empty, []⟩

/-- `await client.join(room)`. -/
def join (room : Room) (s : SocketState) : SocketState := { s with rooms := s.rooms.insert room }

/-- `await client.leave(room)`. -/
def leave (room : Room) (s : SocketState) : SocketState :=
  { s with rooms := s.rooms.filter fun r => r ≠ room }

/-- What a join handler writes down once it is in the room. -/
def record (target : JoinTarget) (workspaceId : Id) (s : SocketState) : SocketState :=
  match target with
  | .board boardId => { s with boardWorkspaces := s.boardWorkspaces.set boardId workspaceId }
  | .notifications workspaceId =>
    if workspaceId ∈ s.notificationWorkspaces then s
    else { s with notificationWorkspaces := s.notificationWorkspaces ++ [workspaceId] }

/-- `onBoardLeave` and `onNotificationsLeave`: the second does nothing for a socket without a user. -/
def onLeave (target : JoinTarget) (s : SocketState) : SocketState :=
  match target with
  | .board boardId =>
    if boardId = [] then s
    else { s.leave (.board boardId) with boardWorkspaces := s.boardWorkspaces.erase boardId }
  | .notifications workspaceId =>
    match s.userId with
    | none => s
    | some userId =>
      if workspaceId = [] then s
      else
        { s.leave (.user workspaceId userId) with
          notificationWorkspaces := s.notificationWorkspaces.filter fun id => id ≠ workspaceId }

/-- What an eviction does to one socket: it leaves the user's room, and the board rooms written down
for the workspace. -/
def evict (workspaceId userId : Id) (s : SocketState) : SocketState :=
  if s.userId ≠ some userId then s
  else
    { s with
      rooms := s.rooms.filter fun
        | .user w u => ¬ (w = workspaceId ∧ u = userId)
        | .board boardId => s.boardWorkspaces.get boardId ≠ some workspaceId
      notificationWorkspaces := s.notificationWorkspaces.filter fun id => id ≠ workspaceId
      boardWorkspaces := s.boardWorkspaces.filter fun w => w ≠ workspaceId }

variable {s : SocketState} {room r : Room} {target : JoinTarget} {workspaceId userId : Id}

@[simp] theorem mem_join : r ∈ (s.join room).rooms ↔ r = room ∨ r ∈ s.rooms := by
  simp [join, List.mem_insert_iff]

@[simp] theorem mem_leave : r ∈ (s.leave room).rooms ↔ r ∈ s.rooms ∧ r ≠ room := by
  simp [leave]

@[simp] theorem userId_join : (s.join room).userId = s.userId := rfl
@[simp] theorem boardWorkspaces_join : (s.join room).boardWorkspaces = s.boardWorkspaces := rfl
@[simp] theorem notificationWorkspaces_join :
    (s.join room).notificationWorkspaces = s.notificationWorkspaces := rfl

@[simp] theorem rooms_record : (s.record target workspaceId).rooms = s.rooms := by
  cases target with
  | board boardId => rfl
  | notifications w => simp only [record]; split <;> rfl

@[simp] theorem userId_record : (s.record target workspaceId).userId = s.userId := by
  cases target with
  | board boardId => rfl
  | notifications w => simp only [record]; split <;> rfl

@[simp] theorem userId_onLeave : (s.onLeave target).userId = s.userId := by
  cases target with
  | board boardId => simp only [onLeave]; split <;> rfl
  | notifications w =>
    simp only [onLeave]
    split
    · rfl
    · split <;> rfl

@[simp] theorem userId_evict : (s.evict workspaceId userId).userId = s.userId := by
  unfold evict
  split <;> rfl

@[simp] theorem mem_notificationWorkspaces_record {w : Id} :
    w ∈ (s.record target workspaceId).notificationWorkspaces ↔
      w ∈ s.notificationWorkspaces ∨ target = .notifications w := by
  cases target with
  | board boardId => simp [record]
  | notifications w' =>
    simp only [record]
    split <;> grind

/-- No room is entered by leaving one. -/
theorem mem_of_mem_onLeave (h : r ∈ (s.onLeave target).rooms) : r ∈ s.rooms := by
  cases target with
  | board boardId =>
    simp only [onLeave] at h
    split at h
    · exact h
    · exact (mem_leave.mp h).1
  | notifications w =>
    simp only [onLeave] at h
    split at h
    · exact h
    · split at h
      · exact h
      · exact (mem_leave.mp h).1

theorem mem_of_mem_evict (h : r ∈ (s.evict workspaceId userId).rooms) : r ∈ s.rooms := by
  unfold evict at h
  split at h
  · exact h
  · exact (List.mem_filter.mp h).1

end SocketState
end Kurul
