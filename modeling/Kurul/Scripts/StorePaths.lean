import Kurul.Scripts.PruneDeployedModules

/-!
# Kurul.Scripts.StorePaths

What the paths of the script lead to, and which real paths it takes to lie in the store.

* `place_joinAll`       — a name joined to a path is followed from where the path leads.
* `storeOf_eq`          — the store path in normal form.
* `own_iff`             — a path in normal form is its own real path when it is absolute and its names
  lead through no link.
* `storeEntryFor_iff`   — what is found in the store: nothing at all, unless the store path is its own
  real path, and then what lies below it.
-/

namespace Kurul
namespace PruneDeployedModules

open PosixFs
open PosixPath (Text Name slash dot joinAll joinNames render Climbed)

section Paths

variable {w : Process} {path text : Text} {p q r ns : Place} {n : Text} {rooted : Bool}

theorem place_settled (h : place w path = some p) : Settled w.fs p := follow_settled h

theorem place_absolute (h : Settled w.fs p) : place w (PosixPath.absolute p) = some p :=
  follow_absolute w.links w.cwd h

/-- Where a path in normal form leads. -/
theorem place_render (h : Climbed rooted ns) (hne : ns ≠ []) :
    place w (render rooted ns) =
      along (enter w.fs (follow w.fs w.links)) (if rooted then [] else w.cwd) ns := by
  have horigin : origin w.cwd (render rooted ns) = if rooted then [] else w.cwd := by
    rw [origin, PosixPath.isAbsolute_render h hne]
  rw [place, follow, horigin, PosixPath.splitOn_render h hne]
  cases rooted with
  | false => rfl
  | true => rfl

/-- A name joined to a path is followed from where the path leads. -/
theorem place_joinAll (h : Climbed rooted ns) (hne : ns ≠ []) (hn : Name n) :
    place w (joinAll [render rooted ns, n]) =
      (place w (render rooted ns)).bind fun p => enter w.fs (follow w.fs w.links) p n := by
  rw [PosixPath.joinAll_render h hne hn, place_render (h.name hn) (by simp), along_append,
    ← place_render h hne]
  refine congrArg _ (funext fun p => ?_)
  rw [along]
  exact Option.bind_fun_some _

theorem isName_nodeModules : Name (js "node_modules") := ⟨by decide, by decide, by decide, by decide⟩

theorem isName_pnpm : Name (js ".pnpm") := ⟨by decide, by decide, by decide, by decide⟩

/-- The paths of the script in normal form. -/
theorem storeOf_eq {deployDir : Text} (hne : deployDir ≠ []) : ∃ rooted ns, Climbed rooted ns ∧
    nodeModulesOf deployDir = render rooted (ns ++ [js "node_modules"]) ∧
    storeOf deployDir = render rooted (ns ++ [js "node_modules"] ++ [js ".pnpm"]) := by
  have hclimbed := PosixPath.climbed_splitOn (PosixPath.isAbsolute deployDir) deployDir
  have hmodules := PosixPath.joinAll_name hne isName_nodeModules
  refine ⟨_, _, hclimbed, hmodules, ?_⟩
  rw [storeOf, nodeModulesOf, hmodules]
  exact PosixPath.joinAll_render (hclimbed.name isName_nodeModules) (by simp) isName_pnpm

/-! ## Real paths -/

/-- A path that is its own real path. -/
def Own (w : Process) (path : Text) : Prop := realpathSync w path = some path

theorem own_iff (h : Climbed rooted ns) (hne : ns ≠ []) :
    Own w (render rooted ns) ↔ rooted = true ∧ Settled w.fs ns := by
  constructor
  · intro hown
    obtain ⟨p, hp, heq⟩ := Option.map_eq_some_iff.mp hown
    have hrooted : rooted = true := by
      rw [← PosixPath.isAbsolute_render h hne, ← heq]
      rfl
    subst hrooted
    have hsettled := place_settled hp
    have hnames := PosixPath.absolute_injective (fun _ => hsettled.names _)
      (fun _ => h.name_of_rooted) heq
    exact ⟨rfl, hnames ▸ hsettled⟩
  · rintro ⟨rfl, hsettled⟩
    unfold Own realpathSync
    have hplace : place w (render true ns) = some ns := place_absolute hsettled
    rw [hplace]
    rfl

/-- Which paths the prefix test finds in a store: those below it, if the store path is absolute. -/
theorem entryOf_eq_some (h : Climbed rooted ns) (hne : ns ≠ []) (hr : ∀ n ∈ r, Name n) {e : Entry} :
    entryOf (render rooted ns) (PosixPath.absolute r) = some e ↔
      rooted = true ∧ ∃ id rest, r = ns ++ id :: rest ∧
        e = ⟨id, PosixPath.absolute r, joinNames rest⟩ := by
  constructor
  · intro he
    unfold entryOf at he
    split at he
    · rename_i hpre
      obtain ⟨t, ht⟩ := List.isPrefixOf_iff_prefix.mp hpre
      rw [List.append_assoc, List.singleton_append] at ht
      have hdrop : (PosixPath.absolute r).drop ((render rooted ns).length + 1) = t := by
        rw [← ht, ← List.drop_drop, List.drop_left, List.drop_one, List.tail_cons]
      have hsplit : (PosixPath.absolute r).splitOn slash =
          (if rooted then [] :: ns else ns) ++ t.splitOn slash := by
        rw [← ht, List.splitOn_append_cons_self, PosixPath.splitOn_render h hne]
      have hrne : r ≠ [] := by
        rintro rfl
        have hlen := congrArg List.length ht
        have hpos := List.length_pos_iff.mpr (PosixPath.render_ne_nil h hne)
        simp [PosixPath.absolute, joinNames, List.intercalate] at hlen
        omega
      have habs := PosixPath.splitOn_render (PosixPath.climbed_of_names hr) hrne
      rw [if_pos rfl] at habs
      have habs : [] :: r = (if rooted then [] :: ns else ns) ++ t.splitOn slash := by
        rw [← habs, ← hsplit]
        rfl
      rw [hdrop] at he
      split at he
      · cases he
      · rename_i id rest ht'
        cases he
        rw [ht'] at habs
        cases rooted with
        | true =>
          rw [if_pos rfl, List.cons_append, List.cons.injEq] at habs
          exact ⟨rfl, id, rest, habs.2, rfl⟩
        | false =>
          obtain ⟨m, ms, rfl⟩ := List.exists_cons_of_ne_nil hne
          rw [if_neg (by decide), List.cons_append, List.cons.injEq] at habs
          exact absurd habs.1.symm (h.nonempty List.mem_cons_self)
    · cases he
  · rintro ⟨rfl, id, rest, rfl, rfl⟩
    have habs : PosixPath.absolute (ns ++ id :: rest) =
        render true ns ++ slash :: joinNames (id :: rest) := by
      rw [PosixPath.absolute, PosixPath.joinNames_append hne (by simp)]
      rfl
    have hrest : (joinNames (id :: rest)).splitOn slash = id :: rest :=
      PosixPath.splitOn_joinNames (fun n hn => (hr n (by simp [hn])).noSlash) (by simp)
    have hpre : (render true ns ++ [slash]).isPrefixOf (PosixPath.absolute (ns ++ id :: rest)) = true := by
      rw [List.isPrefixOf_iff_prefix, habs]
      exact ⟨joinNames (id :: rest), by simp⟩
    have hdrop : (PosixPath.absolute (ns ++ id :: rest)).drop ((render true ns).length + 1) =
        joinNames (id :: rest) := by
      rw [habs, ← List.drop_drop, List.drop_left, List.drop_one, List.tail_cons]
    rw [entryOf, if_pos hpre, hdrop, hrest]

/-- What is found in the store. A store path that is not its own real path finds nothing: what is above
a real path is one too. -/
theorem storeEntryFor_iff (h : Climbed rooted ns) (hne : ns ≠ []) {fromNodeModules name : Text}
    {e : Entry} :
    storeEntryFor w (render rooted ns) fromNodeModules name = some e ↔
      Own w (render rooted ns) ∧ ∃ id rest,
        place w (joinAll [fromNodeModules, name]) = some (ns ++ id :: rest) ∧
        e = ⟨id, PosixPath.absolute (ns ++ id :: rest), joinNames rest⟩ := by
  rw [storeEntryFor, Option.bind_eq_some_iff]
  constructor
  · rintro ⟨real, hreal, he⟩
    obtain ⟨r, hr, rfl⟩ := Option.map_eq_some_iff.mp hreal
    have hsettled := place_settled hr
    obtain ⟨hrooted, id, rest, rfl, rfl⟩ := (entryOf_eq_some h hne fun _ => hsettled.names _).mp he
    exact ⟨(own_iff h hne).mpr ⟨hrooted, hsettled.above⟩, id, rest, hr, rfl⟩
  · rintro ⟨hown, id, rest, hr, rfl⟩
    have hsettled := place_settled hr
    refine ⟨_, Option.map_eq_some_iff.mpr ⟨_, hr, rfl⟩, ?_⟩
    exact (entryOf_eq_some h hne fun _ => hsettled.names _).mpr
      ⟨((own_iff h hne).mp hown).1, id, rest, rfl, rfl⟩

end Paths

end PruneDeployedModules
end Kurul
