import Kurul.Scripts.StorePaths

/-!
# Kurul.Scripts.PruneReachable

What pruning keeps and what it removes, against the packages the roots reach.

* `Reached`         — the closure of the roots under the three kinds of runtime edges, each resolved in
  the scope of its own entry.
* `script_ends`     — the loop always ends.
* `rmSync_entries`  — removing entries one by one removes their subtrees and nothing else.
* `prune_reachable` — the kept entries against the closure, and what is left of the edges of what is
  kept. An edge breaks if and only if its links lead through a removed entry.
-/

namespace Kurul
namespace PruneDeployedModules

open PosixFs
open PosixPath (Text Name slash dot joinAll joinNames render Climbed)

section Reached

variable {w : Process} {deployDir store : Text} {roots names : List Text} {e e' : Entry}

/-- The names a package can reach at runtime. -/
def DependsOn (manifest : Json) (name : JsString) : Prop :=
  name ∈ objectKeys (orEmpty (property (js "dependencies") manifest)) ∨
  name ∈ objectKeys (orEmpty (property (js "optionalDependencies") manifest)) ∨
  name ∈ objectKeys (orEmpty (property (js "peerDependencies") manifest)) ∧
    optionalPeer (orEmpty (property (js "peerDependenciesMeta") manifest)) name = false

/-- What the roots lead to in the store. -/
inductive Reached (w : Process) (deployDir : Text) (roots : List Text) : Entry → Prop where
  | root {name : Text} {e : Entry} (h : name ∈ roots)
      (he : storeEntryFor w (storeOf deployDir) (nodeModulesOf deployDir) name = some e) :
      Reached w deployDir roots e
  | edge {e e' : Entry} {name : JsString} (h : Reached w deployDir roots e)
      (hname : DependsOn (manifestAt w e.packageDir) name)
      (he : storeEntryFor w (storeOf deployDir) (scopeOf (storeOf deployDir) e.id) name = some e') :
      Reached w deployDir roots e'

theorem dependsOn_null (name : JsString) : ¬DependsOn .null name := by
  simp [DependsOn, property, orEmpty, objectKeys]

theorem mem_runtimeEdges {manifest : Json} {edges : List JsString}
    (h : runtimeEdges manifest = some edges) (name : JsString) :
    name ∈ edges ↔ DependsOn manifest name := by
  unfold runtimeEdges at h
  split at h
  · cases h
  · cases h
    rw [List.mem_eraseDups]
    simp [DependsOn]

theorem runtimeEdges_eq_none {manifest : Json} : runtimeEdges manifest = none ↔ manifest = .null := by
  cases manifest <;> simp [runtimeEdges]

theorem mem_nextEntries {next : List Entry} (h : nextEntries w store e = .ok next) :
    e' ∈ next ↔ ∃ name, DependsOn (manifestAt w e.packageDir) name ∧
      storeEntryFor w store (scopeOf store e.id) name = some e' := by
  unfold nextEntries at h
  split at h
  · cases h
  · rename_i edges hedges
    cases h
    rw [List.mem_filterMap]
    simp only [mem_runtimeEdges hedges]

/-- The closure is what the loop goes through. -/
theorem reached_iff : Worklist.Reached (nextEntries w (storeOf deployDir))
    (rootEntries w deployDir roots) e ↔ Reached w deployDir roots e := by
  constructor
  · intro h
    induction h with
    | root hb =>
      obtain ⟨name, hname, he⟩ := List.mem_filterMap.mp hb
      exact .root hname he
    | step _ hb hc ih =>
      obtain ⟨name, hname, he⟩ := (mem_nextEntries hb).mp hc
      exact .edge ih hname he
  · intro h
    induction h with
    | root hname he => exact .root (List.mem_filterMap.mpr ⟨_, hname, he⟩)
    | @edge e e' name _ hname he ih =>
      cases hnext : nextEntries w (storeOf deployDir) e with
      | ok next => exact .step ih hnext ((mem_nextEntries hnext).mpr ⟨name, hname, he⟩)
      | error u =>
        -- a manifest that throws has no edges
        have hnull : manifestAt w e.packageDir = .null := by
          rw [← runtimeEdges_eq_none]
          unfold nextEntries at hnext
          split at hnext
          · assumption
          · cases hnext
        rw [hnull] at hname
        exact absurd hname (dependsOn_null name)

/-! ## The loop -/

/-- An entry found in the store is named by something in the file system. -/
theorem id_of_storeEntryFor (hne : deployDir ≠ []) {fromNodeModules name : Text}
    (h : storeEntryFor w (storeOf deployDir) fromNodeModules name = some e) :
    e.id ∈ w.fs.entries.flatMap Prod.fst := by
  obtain ⟨rooted, ns, hns, _, hstore⟩ := storeOf_eq hne
  rw [hstore] at h
  obtain ⟨_, id, rest, hplace, rfl⟩ :=
    (storeEntryFor_iff ((hns.name isName_nodeModules).name isName_pnpm) (by simp)).mp h
  obtain ⟨node, hnode⟩ := Option.isSome_iff_exists.mp (place_settled hplace).isSome
  exact List.mem_flatMap.mpr ⟨_, mem_entries hnode (by simp), by simp⟩

theorem keepLoop_ends (hne : deployDir ≠ []) (roots : List Text) :
    ∃ fuel r, keepLoop w deployDir roots fuel = some r := by
  have hids : ∀ e, Worklist.Reached (nextEntries w (storeOf deployDir)) (rootEntries w deployDir roots) e →
      e.id ∈ w.fs.entries.flatMap Prod.fst := by
    intro e he
    cases reached_iff.mp he with
    | root _ hentry => exact id_of_storeEntryFor hne hentry
    | edge _ _ hentry => exact id_of_storeEntryFor hne hentry
  exact Worklist.exists_run hids

theorem ne_nil_of_inspect {keepRoots : List Text} (h : inspect w deployDir keepRoots = .ok roots) :
    deployDir ≠ [] := by
  rintro rfl
  cases h

/-- The script ends. -/
theorem script_ends (w : Process) (deployDir : Text) (keepRoots : List Text) :
    ∃ fuel outcome, script w deployDir keepRoots fuel = some outcome := by
  unfold script
  cases h : inspect w deployDir keepRoots with
  | error outcome => exact ⟨0, outcome, rfl⟩
  | ok roots =>
    obtain ⟨fuel, r, hr⟩ := keepLoop_ends (w := w) (ne_nil_of_inspect h) roots
    exact ⟨fuel, prune w (storeOf deployDir) r, by simp [hr]⟩

/-! ## Removal -/

/-- Where a store entry stands. -/
def entryPlace (deployDir id : Text) : Place := PosixPath.names (storeOf deployDir) ++ [id]

theorem removed_joinAll {p : Place} {id : Text} (hp : Settled w.fs p) (hne : p ≠ []) (hid : Name id) :
    removed w (joinAll [render true p, id]) = some (p ++ [id]) := by
  have hclimbed := PosixPath.climbed_of_names fun _ => hp.names _
  have hsegments : (joinAll [render true p, id]).splitOn slash = [] :: p ++ [id] := by
    rw [PosixPath.joinAll_render hclimbed hne hid, PosixPath.splitOn_render (hclimbed.name hid) (by simp)]
    rfl
  have horigin : origin w.cwd (joinAll [render true p, id]) = [] := by
    rw [PosixPath.joinAll_render hclimbed hne hid]
    rfl
  have hroot : enter w.fs (follow w.fs w.links) [] [] = some [] := rfl
  rw [removed, hsegments, horigin]
  rw [List.dropLast_concat, List.getLastD_concat, along, hroot, Option.bind_some,
    along_names (p := []) hp]
  rfl

/-- Removing entries one by one removes their subtrees: the way to the store is not among them. -/
theorem rmSync_entries {p : Place} (hne : p ≠ []) {ids : List Text} (hids : ∀ id ∈ ids, Name id) :
    ∀ {w : Process}, Settled w.fs p →
      (ids.foldl (fun w id => rmSync w (joinAll [render true p, id])) w).fs =
        w.fs.removeAll (ids.map fun id => p ++ [id]) := by
  induction ids with
  | nil => exact fun _ => rfl
  | cons id ids ih =>
    intro w hp
    obtain ⟨hid, hids⟩ := List.forall_mem_cons.mp hids
    have hstep : rmSync w (joinAll [render true p, id]) = { w with fs := w.fs.remove (p ++ [id]) } := by
      rw [rmSync, removed_joinAll hp hne hid]
    have hkept : Settled (w.fs.remove (p ++ [id])) p := by
      unfold Settled
      rw [lookup_remove (by simp), if_neg]
      · exact hp
      · intro hpre
        have hlen := hpre.length_le
        simp at hlen
    rw [List.foldl_cons, hstep, ih hids hkept]
    rfl

/-! ## What is kept -/

/-- No two packages of one entry are reached. -/
def OnePackage (w : Process) (deployDir : Text) (roots : List Text) : Prop :=
  ∀ e e', Reached w deployDir roots e → Reached w deployDir roots e' → e.id = e'.id → e = e'

/-- At or below one of some entries. -/
def Below (deployDir : Text) (ids : List Text) (q : Place) : Prop :=
  ∃ id ∈ ids, entryPlace deployDir id <+: q

/-- Nothing on the way of an edge is removed. -/
def Clear (w : Process) (deployDir : Text) (drop : List Text) (e : Entry) (name : JsString) : Prop :=
  ∀ q ∈ trail w.fs (w.links + 1) w.cwd (joinAll [scopeOf (storeOf deployDir) e.id, name]),
    ¬Below deployDir drop q

/-- What pruning kept, dropped and left, for a store with these names in it. -/
structure Pruned (w : Process) (deployDir : Text) (roots names keep drop : List Text) (after : Files) :
    Prop where
  reached : ∀ id ∈ keep, ∃ e, Reached w deployDir roots e ∧ e.id = id
  closure : OnePackage w deployDir roots →
    ∀ id, id ∈ keep ↔ ∃ e, Reached w deployDir roots e ∧ e.id = id
  dropped : ∀ id, id ∈ drop ↔ id ∈ names ∧ isId id = true ∧ id ∉ keep
  unreached : ∀ id ∈ names, isId id = true → (¬∃ e, Reached w deployDir roots e ∧ e.id = id) →
    after.lookup (entryPlace deployDir id) = none
  gone : ∀ q, Below deployDir drop q → after.lookup q = none
  left : ∀ q, ¬Below deployDir drop q → after.lookup q = w.fs.lookup q
  edges : ∀ e, Reached w deployDir roots e → e.id ∈ keep → ∀ name target,
    DependsOn (manifestAt w e.packageDir) name →
    storeEntryFor w (storeOf deployDir) (scopeOf (storeOf deployDir) e.id) name = some target →
    (Clear w deployDir drop e name →
      storeEntryFor { w with fs := after } (storeOf deployDir) (scopeOf (storeOf deployDir) e.id) name =
        some target) ∧
    (¬Clear w deployDir drop e name →
      storeEntryFor { w with fs := after } (storeOf deployDir) (scopeOf (storeOf deployDir) e.id) name =
        none)

/-- A store path that is its own real path, by the place it leads to. -/
theorem own_storeOf (hne : deployDir ≠ []) (hown : Own w (storeOf deployDir)) :
    storeOf deployDir = render true (PosixPath.names (storeOf deployDir)) ∧
    PosixPath.names (storeOf deployDir) ≠ [] ∧
    Settled w.fs (PosixPath.names (storeOf deployDir)) := by
  obtain ⟨rooted, ns, hns, _, hstore⟩ := storeOf_eq hne
  have hclimbed := (hns.name isName_nodeModules).name isName_pnpm
  rw [hstore] at hown ⊢
  obtain ⟨rfl, hsettled⟩ := (own_iff hclimbed (by simp)).mp hown
  have hnames : PosixPath.names (render true (ns ++ [js "node_modules"] ++ [js ".pnpm"])) =
      ns ++ [js "node_modules"] ++ [js ".pnpm"] :=
    PosixPath.names_absolute fun _ => hclimbed.name_of_rooted
  rw [hnames]
  exact ⟨rfl, by simp, hsettled⟩

theorem isName_of_readdirSync {path : Text} (h : readdirSync w path = some names) :
    ∀ name ∈ names, Name name := by
  obtain ⟨p, _, hp⟩ := Option.bind_eq_some_iff.mp h
  unfold readdirAt at hp
  split at hp
  · cases hp
    intro name hname
    obtain ⟨node, hnode⟩ := Option.isSome_iff_exists.mp (mem_children.mp hname)
    exact names_of_lookup hnode name (by simp)
  · cases hp

/-- A resolution in what pruning left. -/
theorem storeEntryFor_after {gone : Place → Prop} {after : Files} (h : Restricted w.fs after gone)
    {fromNodeModules name : Text} {target : Entry}
    (htarget : storeEntryFor w store fromNodeModules name = some target) :
    ((∀ q ∈ trail w.fs (w.links + 1) w.cwd (joinAll [fromNodeModules, name]), ¬gone q) →
      storeEntryFor { w with fs := after } store fromNodeModules name = some target) ∧
    ((¬∀ q ∈ trail w.fs (w.links + 1) w.cwd (joinAll [fromNodeModules, name]), ¬gone q) →
      storeEntryFor { w with fs := after } store fromNodeModules name = none) := by
  obtain ⟨real, hreal, hentry⟩ := Option.bind_eq_some_iff.mp htarget
  obtain ⟨r, hr, rfl⟩ := Option.map_eq_some_iff.mp hreal
  have hafter := follow_restricted h (w.links + 1) w.cwd _ r hr
  constructor
  · intro hclear
    have hplace : place { w with fs := after } (joinAll [fromNodeModules, name]) = some r :=
      (hafter r).mpr ⟨rfl, hclear⟩
    rw [storeEntryFor, realpathSync, hplace]
    exact hentry
  · intro hclear
    have hplace : place { w with fs := after } (joinAll [fromNodeModules, name]) = none := by
      cases hx : place { w with fs := after } (joinAll [fromNodeModules, name]) with
      | none => rfl
      | some x => exact absurd ((hafter x).mp hx).2 hclear
    rw [storeEntryFor, realpathSync, hplace]
    rfl

theorem restricted_entries (fs : Files) (deployDir : Text) (drop : List Text) :
    Restricted fs (fs.removeAll (drop.map (entryPlace deployDir))) (Below deployDir drop) := by
  have hroots : ∀ root ∈ drop.map (entryPlace deployDir), root ≠ [] := by
    intro root hroot
    obtain ⟨id, _, rfl⟩ := List.mem_map.mp hroot
    simp [entryPlace]
  have hall := restricted_removeAll fs hroots
  simp only [List.mem_map, exists_exists_and_eq_and] at hall
  exact hall

theorem pruned_of_script {keepRoots keep drop : List Text} {fuel : Nat} {after : Files}
    (hown : Own w (storeOf deployDir)) (hnames : readdirSync w (storeOf deployDir) = some names)
    (hroots : inspect w deployDir keepRoots = .ok roots)
    (h : script w deployDir keepRoots fuel = some (.pruned keep drop after)) :
    Pruned w deployDir roots names keep drop after := by
  obtain ⟨hstore, hne, hsettled⟩ := own_storeOf (ne_nil_of_inspect hroots) hown
  unfold script at h
  rw [hroots] at h
  obtain ⟨r, hr, hprune⟩ := Option.map_eq_some_iff.mp h
  cases r with
  | error u => cases hprune
  | ok seen =>
    simp only [prune, hnames, Outcome.pruned.injEq] at hprune
    obtain ⟨rfl, rfl, rfl⟩ := hprune
    have hfinished := Worklist.run_finished hr
    have hids : ∀ id ∈ (names.filter isId).filter fun id => !seen.contains id, Name id := by
      intro id hid
      exact isName_of_readdirSync hnames id (List.mem_of_mem_filter (List.mem_of_mem_filter hid))
    have hremoved := rmSync_entries hne hids hsettled
    rw [← hstore] at hremoved
    rw [hremoved]
    have hrestricted := restricted_entries w.fs deployDir
      ((names.filter isId).filter fun id => !seen.contains id)
    have hreached : ∀ id ∈ seen, ∃ e, Reached w deployDir roots e ∧ e.id = id := by
      intro id hid
      obtain ⟨e, he, hkey⟩ := hfinished.sound hid
      exact ⟨e, reached_iff.mp he, hkey⟩
    have hdropped : ∀ id, id ∈ ((names.filter isId).filter fun id => !seen.contains id) ↔
        id ∈ names ∧ isId id = true ∧ id ∉ seen := by
      intro id
      simp only [List.mem_filter, List.contains_eq_mem, Bool.not_eq_eq_eq_not, Bool.not_true,
        decide_eq_false_iff_not, and_assoc]
    refine ⟨hreached, ?_, hdropped, ?_, hrestricted.missing, hrestricted.kept, ?_⟩
    · intro hone id
      rw [hfinished.mem_seen_iff fun b c hb hc => hone b c (reached_iff.mp hb) (reached_iff.mp hc)]
      simp only [reached_iff]
    · intro id hid hisId hun
      refine hrestricted.missing _ ⟨id, (hdropped id).mpr ⟨hid, hisId, ?_⟩, List.prefix_rfl⟩
      exact fun hseen => hun (hreached id hseen)
    · intro e _ _ name target _ htarget
      exact storeEntryFor_after hrestricted htarget

/-- With a manifest to read in every package reached, the script goes through. -/
theorem script_prunes {keepRoots : List Text} (hnames : readdirSync w (storeOf deployDir) = some names)
    (hroots : inspect w deployDir keepRoots = .ok roots)
    (hmanifests : ∀ e, Reached w deployDir roots e → manifestAt w e.packageDir ≠ .null) :
    ∃ fuel keep drop after, script w deployDir keepRoots fuel = some (.pruned keep drop after) := by
  obtain ⟨fuel, r, hr⟩ := keepLoop_ends (w := w) (ne_nil_of_inspect hroots) roots
  cases r with
  | error u =>
    obtain ⟨e, he, herror⟩ := Worklist.run_error hr
    refine absurd ?_ (hmanifests e (reached_iff.mp he))
    rw [← runtimeEdges_eq_none]
    unfold nextEntries at herror
    split at herror
    · assumption
    · cases herror
  | ok seen =>
    have hend : script w deployDir keepRoots fuel = some (prune w (storeOf deployDir) (.ok seen)) := by
      unfold script
      rw [hroots]
      simp only [hr, Option.map_some]
    rw [prune, hnames] at hend
    exact ⟨fuel, seen, _, _, hend⟩

end Reached

/-! ## Stores that are no plain pnpm layout -/

def deployD : Text := js "/d"

/-- The virtual store of the deploy directory. -/
def storeD : Place := [js "d", js "node_modules", js ".pnpm"]

/-- An entry of the store, with the directory of one package and its manifest. -/
def entryWith (id package : Text) (manifest : Json) : List (Place × Node (Option Json)) :=
  [(storeD ++ [id], .dir), (storeD ++ [id, js "node_modules"], .dir),
    (storeD ++ [id, js "node_modules", package], .dir),
    (storeD ++ [id, js "node_modules", package, js "package.json"], .file (some manifest))]

/-- A link in the scope of an entry. -/
def linkIn (id name target : Text) : Place × Node (Option Json) :=
  (storeD ++ [id, js "node_modules", name], .link target)

def topLevel (links : List (Text × Text)) : List (Place × Node (Option Json)) :=
  [([js "d"], .dir), ([js "d", js "node_modules"], .dir), (storeD, .dir)] ++
    links.map fun l => ([js "d", js "node_modules", l.1], .link l.2)

def dependingOn (name : JsString) : Json := .obj [(js "dependencies", .obj [(name, .str [])])]

/-- `a` depends on `c`, and its link to `c` leads through a link in the scope of `x`. -/
def chained : Process where
  fs := ⟨topLevel [(js "a", js ".pnpm/a/node_modules/a")] ++
    entryWith (js "a") (js "a") (dependingOn (js "c")) ++ [linkIn (js "a") (js "c") (js "../../x/node_modules/c")] ++
    [(storeD ++ [js "x"], .dir), (storeD ++ [js "x", js "node_modules"], .dir),
      linkIn (js "x") (js "c") (js "../../c/node_modules/c")] ++
    entryWith (js "c") (js "c") (.obj []), by decide +kernel, by decide +kernel, by decide +kernel⟩
  cwd := []
  links := 40

/-- Two packages in one entry, the second with a dependency of its own. -/
def sharedEntry : Process where
  fs := ⟨topLevel [(js "a", js ".pnpm/a/node_modules/a"), (js "b", js ".pnpm/a/node_modules/b")] ++
    entryWith (js "a") (js "a") (.obj []) ++
    [(storeD ++ [js "a", js "node_modules", js "b"], .dir),
      (storeD ++ [js "a", js "node_modules", js "b", js "package.json"], .file (some (dependingOn (js "t")))),
      linkIn (js "a") (js "t") (js "../../t/node_modules/t")] ++
    entryWith (js "t") (js "t") (.obj []), by decide +kernel, by decide +kernel, by decide +kernel⟩
  cwd := []
  links := 40

/-- A manifest that is `null`. -/
def nullManifest : Process where
  fs := ⟨topLevel [(js "a", js ".pnpm/a/node_modules/a")] ++ entryWith (js "a") (js "a") .null,
    by decide +kernel, by decide +kernel, by decide +kernel⟩
  cwd := []
  links := 40

/-- What the loop kept, if the script got that far, and what a name resolves to in a scope afterwards. -/
def afterwards (w : Process) (id name : Text) : Option (List Text × Option Entry) :=
  match script w deployD [] 9 with
  | some (.pruned keep _ after) =>
    some (keep, storeEntryFor { w with fs := after } (storeOf deployD) (scopeOf (storeOf deployD) id) name)
  | _ => none

def Outcome.isThrew : Outcome → Bool
  | .threw => true
  | _ => false

end PruneDeployedModules
end Kurul
