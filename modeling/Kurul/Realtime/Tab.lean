import Kurul.Lts
import Kurul.Realtime.RoomState

/-!
# Kurul.Realtime.Tab

One browser tab: its `useBoardSocket` and `useNotificationSocket` effects, the one socket they share,
and the server's end of it. Messages to the server arrive in order; a join handler reads the database
for as long as it likes, then enters the room and writes it down; a leave is done at once.

A connection that drops takes its messages, its rooms and its handlers with it. The next one starts
without a user, until the session lookup answers.
-/

namespace Kurul

/-- A mounted effect. -/
structure Hook where
  id : Nat
  target : JoinTarget
  deriving DecidableEq

inductive ClientMsg where
  /-- `board:join` and `notifications:join`, with the effect its acknowledgement goes to. -/
  | join (target : JoinTarget) (hook : Nat)
  | leave (target : JoinTarget)
  deriving DecidableEq

/-- What a join is answered. -/
inductive JoinAnswer where
  | ok
  | error (message : JsString)
  deriving DecidableEq

structure Ack where
  hook : Nat
  answer : JoinAnswer
  deriving DecidableEq

/-- A join whose membership read has not answered yet. -/
structure PendingJoin where
  target : JoinTarget
  hook : Nat
  deriving DecidableEq

structure Tab where
  /-- In the order their listeners were registered. -/
  hooks : List Hook
  /-- How many mounted hooks hold each workspace's notification room. -/
  roomHolders : JsMap Id Nat
  /-- The hooks that have seen an `ok`. -/
  connected : List Nat
  /-- `socket.connected`. -/
  up : Bool
  /-- What was emitted without a connection: sent when there is one, before anything else. -/
  sendBuffer : List ClientMsg
  toServer : List ClientMsg
  toClient : List Ack
  data : SocketState
  /-- `handleConnection` is waiting for the session. -/
  lookup : Bool
  handlers : List PendingJoin

inductive TabAct where
  | mount (hook : Hook)
  | unmount (hook : Nat)
  | connectionUp
  | connectionLost
  | lookedUp
  /-- The server takes the next message. -/
  | deliver
  /-- A membership read answers. -/
  | answer (handler : Nat)
  /-- The client takes the next acknowledgement. -/
  | acknowledge
  deriving DecidableEq

/-- The hooks that stay when one goes. -/
def otherHooks (hooks : List Hook) (id : Nat) : List Hook := hooks.filter fun h => h.id ≠ id

/-! ## `roomHolders` -/

def retainRoom (holders : JsMap Id Nat) (workspaceId : Id) : JsMap Id Nat :=
  holders.set workspaceId ((holders.get workspaceId).getD 0 + 1)

/-- Whether the last holder let go. -/
def releaseRoom (holders : JsMap Id Nat) (workspaceId : Id) : Bool × JsMap Id Nat :=
  let next := (holders.get workspaceId).getD 1 - 1
  if next = 0 then (true, holders.erase workspaceId)
  else (false, holders.set workspaceId next)

/-- `boardId required`, `workspaceId required`. -/
def JoinTarget.required : JoinTarget → JsString
  | .board _ => js "boardId required"
  | .notifications _ => js "workspaceId required"

/-- The opaque denials. -/
def JoinTarget.denied : JoinTarget → JsString
  | .board _ => js "board not found"
  | .notifications _ => js "workspace not found"

namespace Tab

/-- A page that has just loaded. -/
def start : Tab := ⟨[], .empty, [], false, [], [], [], .fresh, false, []⟩

/-- `socket.emit(…)`. -/
def emit (t : Tab) (m : ClientMsg) : Tab :=
  if t.up then { t with toServer := t.toServer ++ [m] }
  else { t with sendBuffer := t.sendBuffer ++ [m] }

/-- The effect of a hook: it counts itself among the holders of its room, registers its listeners, and
asks to join if there is a connection to ask on. -/
def mount (t : Tab) (hook : Hook) : Tab :=
  { t with
    hooks := t.hooks ++ [hook]
    roomHolders := match hook.target with
      | .board _ => t.roomHolders
      | .notifications workspaceId => retainRoom t.roomHolders workspaceId
    toServer := if t.up then t.toServer ++ [.join hook.target hook.id] else t.toServer }

/-- Whether a clean-up leaves the room, and the holders it leaves behind: a board is left in any case,
a notification room by its last holder. -/
def release (t : Tab) (hook : Hook) : Bool × JsMap Id Nat :=
  match hook.target with
  | .board _ => (true, t.roomHolders)
  | .notifications workspaceId => releaseRoom t.roomHolders workspaceId

/-- The clean-up of a hook. -/
def unmount (t : Tab) (hook : Hook) : Tab :=
  let released := t.release hook
  let t := if released.1 then t.emit (.leave hook.target) else t
  { t with
    hooks := otherHooks t.hooks hook.id
    roomHolders := released.2
    connected := t.connected.filter fun id => id ≠ hook.id }

/-- The server takes a message. -/
def receive (t : Tab) : ClientMsg → Tab
  | .join target hook =>
    if t.data.userId = none then
      { t with toClient := t.toClient ++ [⟨hook, .error (js "unauthenticated")⟩] }
    else if target.isEmpty then { t with toClient := t.toClient ++ [⟨hook, .error target.required⟩] }
    else { t with handlers := t.handlers ++ [⟨target, hook⟩] }
  | .leave target => { t with data := t.data.onLeave target }

section Next

-- the user of the session, and the workspace of each room that user is let into
variable (userId : Id) (grants : JoinTarget → Option Id)

/-- The read of a join has answered: in the room, written down and acknowledged, or denied. -/
def settle (t : Tab) (h : PendingJoin) : Tab :=
  match grants h.target with
  | none => { t with toClient := t.toClient ++ [⟨h.hook, .error h.target.denied⟩] }
  | some workspaceId =>
    { t with
      data := (t.data.join (h.target.room userId)).record h.target workspaceId
      toClient := t.toClient ++ [⟨h.hook, .ok⟩] }

def next : TabAct → Tab → Option Tab
  | .mount hook, t =>
    if hook.target.isEmpty || t.hooks.any fun h => h.id = hook.id then none else some (t.mount hook)
  | .unmount id, t => (t.hooks.find? fun h => h.id = id).map t.unmount
  | .connectionUp, t =>
    if t.up then none
    else some { t with
      up := true
      sendBuffer := []
      -- what was waiting goes first; then `connect` has every mounted hook ask again
      toServer := t.sendBuffer ++ t.hooks.map fun h => .join h.target h.id
      toClient := []
      data := .fresh
      lookup := true
      handlers := [] }
  | .connectionLost, t =>
    if t.up then
      some { t with
        up := false
        connected := []
        toServer := []
        toClient := []
        data := .fresh
        lookup := false
        handlers := [] }
    else none
  | .lookedUp, t =>
    if t.lookup then some { t with lookup := false, data := { t.data with userId := some userId } }
    else none
  | .deliver, t =>
    match t.toServer with
    | [] => none
    | m :: rest => some ({ t with toServer := rest }.receive m)
  | .answer k, t =>
    (t.handlers[k]?).map fun h =>
      { t with handlers := t.handlers.eraseIdx k }.settle userId grants h
  | .acknowledge, t =>
    match t.toClient with
    | [] => none
    | a :: rest => some { t with
        toClient := rest
        connected := if a.answer = .ok then t.connected.insert a.hook else t.connected }

variable {userId grants} {t t' : Tab}

theorem next_mount {hook : Hook} (hs : next userId grants (.mount hook) t = some t') :
    hook.target.isEmpty = false ∧ (∀ h ∈ t.hooks, h.id ≠ hook.id) ∧ t.mount hook = t' := by
  simp only [next] at hs
  split at hs
  · cases hs
  · rename_i hok
    simp only [Bool.or_eq_true, not_or, Bool.not_eq_true, List.any_eq_false, decide_eq_true_eq] at hok
    exact ⟨hok.1, hok.2, Option.some.inj hs⟩

theorem next_unmount {id : Nat} (hs : next userId grants (.unmount id) t = some t') :
    ∃ hook ∈ t.hooks, hook.id = id ∧ t.unmount hook = t' := by
  obtain ⟨hook, hhook, rfl⟩ := Option.map_eq_some_iff.mp hs
  exact ⟨hook, List.mem_of_find?_eq_some hhook, by simpa using List.find?_some hhook, rfl⟩

theorem next_connectionUp (hs : next userId grants .connectionUp t = some t') :
    { t with
      up := true, sendBuffer := [], toClient := [], data := .fresh, lookup := true, handlers := []
      toServer := t.sendBuffer ++ t.hooks.map fun h => .join h.target h.id } = t' := by
  simp only [next] at hs
  split at hs
  · cases hs
  · exact Option.some.inj hs

theorem next_connectionLost (hs : next userId grants .connectionLost t = some t') :
    { t with
      up := false, connected := [], toServer := [], toClient := [], data := .fresh, lookup := false
      handlers := [] } = t' := by
  simp only [next] at hs
  split at hs
  · exact Option.some.inj hs
  · cases hs

theorem next_lookedUp (hs : next userId grants .lookedUp t = some t') :
    { t with lookup := false, data := { t.data with userId := some userId } } = t' := by
  simp only [next] at hs
  split at hs
  · exact Option.some.inj hs
  · cases hs

theorem next_deliver (hs : next userId grants .deliver t = some t') :
    ∃ m rest, t.toServer = m :: rest ∧ Tab.receive { t with toServer := rest } m = t' := by
  simp only [next] at hs
  split at hs
  · cases hs
  · rename_i m rest hmsg
    exact ⟨m, rest, hmsg, Option.some.inj hs⟩

theorem next_answer {k : Nat} (hs : next userId grants (.answer k) t = some t') :
    ∃ h, t.handlers[k]? = some h ∧
      Tab.settle userId grants { t with handlers := t.handlers.eraseIdx k } h = t' :=
  Option.map_eq_some_iff.mp hs

theorem next_acknowledge (hs : next userId grants .acknowledge t = some t') :
    ∃ a rest, t.toClient = a :: rest ∧
      { t with
        toClient := rest
        connected := if a.answer = .ok then t.connected.insert a.hook else t.connected } = t' := by
  simp only [next] at hs
  split at hs
  · cases hs
  · rename_i a rest hack
    exact ⟨a, rest, hack, Option.some.inj hs⟩

end Next

/-- Nothing is in flight on a connection that is up. -/
structure Quiet (t : Tab) : Prop where
  up : t.up = true
  lookup : t.lookup = false
  toServer : t.toServer = []
  toClient : t.toClient = []
  handlers : t.handlers = []

end Tab
end Kurul
