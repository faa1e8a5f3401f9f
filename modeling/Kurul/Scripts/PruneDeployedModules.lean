import Mathlib.Data.List.Sort
import Kurul.Locale
import Kurul.PosixFs
import Kurul.Worklist

/-!
# Kurul.Scripts.PruneDeployedModules

The script that prunes a deploy directory: which store entries the roots reach through the manifests,
and the removal of the others. The sweeps of links and shims that follow it are not part of this.

* `entryOf_own`, `entryOf_not_own` — which real paths lie in the store, for a store path that is its own
  real path and for one that is not.
* `place_joinAll`, `readdirSync_joinAll` — a name joined to a path, followed from where the path leads.
-/

namespace Kurul
namespace PruneDeployedModules

open PosixFs
open PosixPath (Text Name slash dot joinAll joinNames render Climbed)

/-! ## The process -/

/-- A file is what `JSON.parse` makes of it, nothing where it throws. -/
abbrev Files : Type := Fs (Option Json)

/-- What the script runs in. `links` is how many links behind each other the system follows. -/
structure Process where
  fs : Files
  cwd : Place
  links : Nat

/-- Where a path leads. -/
def place (w : Process) (path : Text) : Option Place := follow w.fs (w.links + 1) w.cwd path

/-- `realpathSync`, `none` where it throws. -/
def realpathSync (w : Process) (path : Text) : Option Text := (place w path).map PosixPath.absolute

def existsSync (w : Process) (path : Text) : Bool := (place w path).isSome

/-- The names in the directory at a place. -/
def readdirAt (w : Process) (p : Place) : Option (List Text) :=
  if w.fs.isDir p then some (w.fs.children p) else none

def readdirSync (w : Process) (path : Text) : Option (List Text) := (place w path).bind (readdirAt w)

def readFileSync (w : Process) (path : Text) : Option (Option Json) :=
  (place w path).bind fun p =>
    match w.fs.lookup p with
    | some (.file content) => some content
    | _ => none

/-- What `rmSync` removes: the last segment is the entry itself, link or not. -/
def removed (w : Process) (path : Text) : Option Place :=
  let segments := path.splitOn slash
  (along (enter w.fs (follow w.fs w.links)) (origin w.cwd path) segments.dropLast).map fun p =>
    p ++ [segments.getLastD []]

/-- `rmSync(path, { recursive: true, force: true })`. -/
def rmSync (w : Process) (path : Text) : Process :=
  match removed w path with
  | some root => { w with fs := w.fs.remove root }
  | none => w

/-! ## Parsed values -/

/-- The index a property name stands for. -/
def arrayIndex (name : JsString) : Option Nat :=
  if name ≠ [] ∧ name.all isDigit = true ∧ (name = js "0" ∨ name.head? ≠ some 48) then
    if numeral name < 2 ^ 32 - 1 then some (numeral name) else none
  else none

/-- `Object.keys`: the indices in order, then the other names as they came. -/
def objectKeys : Json → List JsString
  | .obj members =>
    let names := (members.map Prod.fst).eraseDups
    (names.filter fun name => (arrayIndex name).isSome).insertionSort
        (fun a b => (arrayIndex a).getD 0 ≤ (arrayIndex b).getD 0) ++
      names.filter fun name => (arrayIndex name).isNone
  | .arr entries => (List.range entries.length).map fun i => js (toString i)
  | .str s => (List.range s.length).map fun i => js (toString i)
  | _ => []

/-- `value[name]`, with `none` for `undefined` and for what only a prototype or a text has. -/
def property (name : JsString) : Json → Option Json
  | .obj members => Json.member name members
  | .arr entries => (arrayIndex name).bind fun i => entries[i]?
  | _ => none

/-- `value ?? {}`. -/
def orEmpty : Option Json → Json
  | none | some .null => .obj []
  | some value => value

def isTruthy : Option Json → Bool
  | none | some .null => false
  | some (.bool b) => b
  | some (.num n) => n ≠ .finite 0
  | some (.str s) => truthy s
  | some _ => true

/-! ## The script -/

/-- What the names of one entry of a `node_modules` are: a scope stands for what is in it. -/
def namesOf (w : Process) (dir name : Text) : Option (List Text) :=
  if name = js ".pnpm" ∨ name = js ".bin" ∨ name = js ".modules.yaml" then some []
  else if (js "@").isPrefixOf name then
    (readdirSync w (joinAll [dir, name])).map fun entries =>
      entries.map fun inScope => name ++ js "/" ++ inScope
  else some [name]

/-- `none` where it throws: a scope that is no directory. -/
def packageNamesIn (w : Process) (dir : Text) : Option (List Text) :=
  match readdirSync w dir with
  | none => some []
  | some entries => (entries.mapM (namesOf w dir)).map List.flatten

/-- A package by where it was found in the store. -/
structure Entry where
  id : Text
  packageDir : Text
  relative : Text
  deriving DecidableEq

/-- The entry a real path lies in. -/
def entryOf (store real : Text) : Option Entry :=
  if (store ++ [slash]).isPrefixOf real then
    match (real.drop (store.length + 1)).splitOn slash with
    | [] => none
    | id :: rest => some ⟨id, real, joinNames rest⟩
  else none

def storeEntryFor (w : Process) (store fromNodeModules name : Text) : Option Entry :=
  (realpathSync w (joinAll [fromNodeModules, name])).bind (entryOf store)

def manifestAt (w : Process) (packageDir : Text) : Json :=
  ((readFileSync w (joinAll [packageDir, js "package.json"])).bind id).getD (.obj [])

/-- Whether the publisher marked a peer optional. -/
def optionalPeer (peersMeta : Json) (peer : JsString) : Bool :=
  isTruthy ((property peer peersMeta).bind (property (js "optional")))

/-- `none` where it throws: there are no properties to read on `null`. -/
def runtimeEdges (manifest : Json) : Option (List JsString) :=
  match manifest with
  | .null => none
  | manifest =>
    let names := objectKeys (orEmpty (property (js "dependencies") manifest)) ++
      objectKeys (orEmpty (property (js "optionalDependencies") manifest))
    let peersMeta := orEmpty (property (js "peerDependenciesMeta") manifest)
    let peers := (objectKeys (orEmpty (property (js "peerDependencies") manifest))).filter fun peer =>
      !optionalPeer peersMeta peer
    some (names ++ peers).eraseDups

def nodeModulesOf (deployDir : Text) : Text := joinAll [deployDir, js "node_modules"]

def storeOf (deployDir : Text) : Text := joinAll [nodeModulesOf deployDir, js ".pnpm"]

def scopeOf (store id : Text) : Text := joinAll [store, id, js "node_modules"]

/-- What the packages of an entry resolve in its scope. -/
def nextEntries (w : Process) (store : Text) (entry : Entry) : Except Unit (List Entry) :=
  match runtimeEdges (manifestAt w entry.packageDir) with
  | none => .error ()
  | some names => .ok (names.filterMap (storeEntryFor w store (scopeOf store entry.id)))

inductive Outcome where
  | exited (message : JsString)
  | threw
  | pruned (keep drop : List Text) (after : Files)

/-- Everything before the first package is resolved: the names of the roots, or the end of the script. -/
def inspect (w : Process) (deployDir : Text) (keepRoots : List Text) : Except Outcome (List Text) :=
  let nodeModules := nodeModulesOf deployDir
  let store := storeOf deployDir
  if truthy deployDir = false then
    .error (.exited (js "usage: prune-deployed-modules.mjs <deploy-dir> [keep-root...]"))
  else if existsSync w store = false then
    .error (.exited (store ++ js (" does not exist — this expects a pnpm deploy directory using the " ++
      "isolated node-linker (the default). Nothing pruned.")))
  else
    match packageNamesIn w nodeModules with
    | none => .error .threw
    | some rootNames =>
      let roots := if keepRoots = [] then rootNames else keepRoots
      match roots.find? fun root => !rootNames.contains root with
      | some root => .error (.exited (root ++ js " is not a top-level entry of " ++ nodeModules ++
          js " — refusing to guess."))
      | none => .ok roots

/-- The ids that are no bookkeeping of the store. -/
def isId (name : Text) : Bool := name ≠ js "node_modules" && name ≠ js "lock.yaml"

/-- The removal of what is not kept. -/
def prune (w : Process) (store : Text) : Except Unit (List Text) → Outcome
  | .error _ => .threw
  | .ok keep =>
    match readdirSync w store with
    | none => .threw
    | some names =>
      let drop := (names.filter isId).filter fun id => !keep.contains id
      .pruned keep drop (drop.foldl (fun w id => rmSync w (joinAll [store, id])) w).fs

/-- The roots that resolve into the store. -/
def rootEntries (w : Process) (deployDir : Text) (roots : List Text) : List Entry :=
  roots.filterMap (storeEntryFor w (storeOf deployDir) (nodeModulesOf deployDir))

/-- The loop, for a number of rounds. -/
def keepLoop (w : Process) (deployDir : Text) (roots : List Text) (fuel : Nat) :
    Option (Except Unit (List Text)) :=
  Worklist.run Entry.id (nextEntries w (storeOf deployDir)) fuel
    (Worklist.addAll Entry.id Worklist.empty (rootEntries w deployDir roots))

/-- The script, with the rounds its loop may take; `none` when they are not enough. -/
def script (w : Process) (deployDir : Text) (keepRoots : List Text) (fuel : Nat) : Option Outcome :=
  match inspect w deployDir keepRoots with
  | .error outcome => some outcome
  | .ok roots => (keepLoop w deployDir roots fuel).map (prune w (storeOf deployDir))

end PruneDeployedModules
end Kurul
