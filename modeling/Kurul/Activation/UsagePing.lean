import Kurul.Dashboard.DashboardService

/-!
# Kurul.Activation.UsagePing

`UsagePingService`: that somebody looked at a board or at the dashboard, once a day. The insert is not
awaited by the request it belongs to, and what becomes of it is nobody's business.
-/

namespace Kurul

open Sql

inductive UsagePingKind where
  | boardView | dashboardView
  deriving DecidableEq

def UsagePingKind.text : UsagePingKind → JsString
  | .boardView => js "board_view"
  | .dashboardView => js "dashboard_view"

/-- UTC midnight of the day. -/
def utcDayStart (time : Instant) : Instant := startOfDay (utcDateKey time)

namespace UsagePingService

/-- `day` is a `Date` column: the day of the midnight it is given. -/
def row (userId workspaceId : Id) (kind : UsagePingKind) (now : Instant) (id : Id) (createdAt : Instant) :
    UsagePingRow :=
  ⟨id, userId, workspaceId, kind.text, utcDateKey (utcDayStart now), createdAt⟩

/-- `INSERT … ON CONFLICT DO NOTHING`. -/
def record (userId workspaceId : Id) (kind : UsagePingKind) : Tx kurul Unit := do
  let now ← Tx.now
  let id ← Tx.fresh
  let createdAt ← Tx.now
  let _ ← createManySkipping [row userId workspaceId kind now id createdAt]

def recordQuietly (userId workspaceId : Id) (kind : UsagePingKind) : Call kurul Unit :=
  (Call.auto (record userId workspaceId kind)).tryCatch fun _ => .ret ()

end UsagePingService
end Kurul
