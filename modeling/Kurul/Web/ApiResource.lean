/-!
# Kurul.Web.ApiResource

`useApiResource`: a value that is loaded, loaded again, and edited in between. A newer load aborts the one
under way, and what that is answered is dropped.
-/

namespace Kurul
namespace Web

variable {T Q : Type}

/-- The hook. `Q` is what is known of the load under way. -/
structure ApiResource (T Q : Type) where
  data : T
  load : Option Q
  failed : Bool
  deriving DecidableEq

namespace ApiResource

/-- Before the first load. -/
def initial (initialData : T) : ApiResource T Q := ⟨initialData, none, false⟩

/-- A new fetcher, or `reload`. -/
def start (request : Q) (r : ApiResource T Q) : ApiResource T Q :=
  { r with load := some request, failed := false }

/-- `null` in the place of a fetcher. -/
def hold (r : ApiResource T Q) : ApiResource T Q := { r with load := none }

/-- The load goes on. -/
def proceed (request : Q) (r : ApiResource T Q) : ApiResource T Q := { r with load := some request }

def succeed (next : T) (r : ApiResource T Q) : ApiResource T Q := { r with data := next, load := none }

/-- Without `keepStaleOnError`. -/
def fail (initialData : T) : ApiResource T Q := ⟨initialData, none, true⟩

def setData (update : T → T) (r : ApiResource T Q) : ApiResource T Q :=
  { r with data := update r.data }

variable (r : ApiResource T Q)

@[simp] theorem data_start (q : Q) : (r.start q).data = r.data := rfl
@[simp] theorem data_hold : r.hold.data = r.data := rfl
@[simp] theorem data_proceed (q : Q) : (r.proceed q).data = r.data := rfl
@[simp] theorem data_succeed (t : T) : (r.succeed t).data = t := rfl
@[simp] theorem data_fail (t : T) : (fail t : ApiResource T Q).data = t := rfl
@[simp] theorem data_setData (f : T → T) : (r.setData f).data = f r.data := rfl
@[simp] theorem load_start (q : Q) : (r.start q).load = some q := rfl
@[simp] theorem load_hold : r.hold.load = none := rfl
@[simp] theorem load_proceed (q : Q) : (r.proceed q).load = some q := rfl
@[simp] theorem load_succeed (t : T) : (r.succeed t).load = none := rfl
@[simp] theorem load_fail (t : T) : (fail t : ApiResource T Q).load = none := rfl
@[simp] theorem load_setData (f : T → T) : (r.setData f).load = r.load := rfl

end ApiResource

end Web
end Kurul
