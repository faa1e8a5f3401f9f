import Kurul.Scripts.PruneReachable

/-!
# Kurul.Scripts.DeployNames

Two names of one deploy directory, and whether pruning does the same under both.

* `inspect_alike`    — what the script looks at before it resolves a package depends on where the paths
  lead, not on how they are written.
* `readStraight_of_noDots` — `path.join` misreads no name without `..`.
* `script_own`       — a store path that is its own real path can be written in one way only.
* `script_idle`      — where no root resolves into the store, everything in it is dropped.
* `sameEntries_iff`  — the two runs agree if and only if both store paths are their own real path or
  neither is, or there is nothing to keep.
-/

namespace Kurul
namespace PruneDeployedModules

open PosixFs
open PosixPath (Text Name slash dot joinAll joinNames render Climbed)

section Names

variable {w : Process} {s s' : Text} {d : Place} {keepRoots roots : List Text}

/-- A text that leads to the directory. -/
def Names (w : Process) (s : Text) (d : Place) : Prop := s ≠ [] ∧ place w s = some d

/-- `path.join` and the system read the name alike: taking `..` out of it before following the links
makes no difference. -/
def ReadStraight (w : Process) (s : Text) : Prop :=
  place w (nodeModulesOf s) = place w (s ++ slash :: js "node_modules")

/-- The two runs keep and remove the same entries, or stop before they do either. -/
def SameEntries : Outcome → Outcome → Prop
  | .pruned keep drop _, .pruned keep' drop' _ =>
    (∀ id, id ∈ keep ↔ id ∈ keep') ∧ ∀ id, id ∈ drop ↔ id ∈ drop'
  | .exited _, .exited _ => True
  | .threw, .threw => True
  | _, _ => False

theorem SameEntries.refl (o : Outcome) : SameEntries o o := by
  cases o with
  | pruned keep drop after => exact ⟨fun _ => Iff.rfl, fun _ => Iff.rfl⟩
  | exited message => trivial
  | threw => trivial

/-! ## Where the paths lead -/

/-- Both names lead to one `node_modules`. -/
def Alike (w : Process) (s s' : Text) : Prop := place w (nodeModulesOf s) = place w (nodeModulesOf s')

theorem place_append_name {n : Text} (hn : Name n) (s : Text) (hs : s ≠ []) :
    place w (s ++ slash :: n) =
      (place w s).bind fun p => enter w.fs (follow w.fs w.links) p n := by
  have hone : n.splitOn slash = [n] := by
    have hjoin : (joinNames [n]).splitOn slash = [n] :=
      PosixPath.splitOn_joinNames (fun m hm => List.mem_singleton.mp hm ▸ hn.noSlash) (by simp)
    simpa [joinNames, List.intercalate] using hjoin
  have horigin : origin w.cwd (s ++ slash :: n) = origin w.cwd s := by
    obtain ⟨c, s, rfl⟩ := List.exists_cons_of_ne_nil hs
    rfl
  rw [place, follow, horigin, List.splitOn_append_cons_self, along_append, hone]
  refine congrArg _ (funext fun p => ?_)
  rw [along]
  exact Option.bind_fun_some _

/-- Without `..` there is nothing to read differently. -/
theorem readStraight_of_noDots (hne : s ≠ []) (h : ∀ segment ∈ s.splitOn slash, segment ≠ [dot, dot]) :
    ReadStraight w s := by
  have hclimb : ∀ (segments acc : List Text), (∀ segment ∈ segments, segment ≠ [dot, dot]) →
      segments.foldl (PosixPath.climb (PosixPath.isAbsolute s)) acc =
        acc ++ segments.filter fun segment => !stays segment := by
    intro segments
    induction segments with
    | nil => simp
    | cons segment rest ih =>
      intro acc hdots
      obtain ⟨hdot, hdots⟩ := List.forall_mem_cons.mp hdots
      rw [List.foldl_cons, ih _ hdots]
      by_cases hstays : stays segment = true
      · have hhere : segment = [] ∨ segment = [dot] := by simpa [stays] using hstays
        rw [PosixPath.climb, if_pos hhere, List.filter_cons_of_neg (by simp [hstays])]
      · have hhere : ¬(segment = [] ∨ segment = [dot]) := by simpa [stays] using hstays
        rw [PosixPath.climb, if_neg hhere, if_neg hdot, List.filter_cons_of_pos (by simp [hstays])]
        simp
  have hclimbed := PosixPath.climbed_splitOn (PosixPath.isAbsolute s) s
  rw [ReadStraight, nodeModulesOf, PosixPath.joinAll_name hne isName_nodeModules,
    place_render (hclimbed.name isName_nodeModules) (by simp), place_append_name isName_nodeModules s hne,
    hclimb _ _ h, List.nil_append, ← along_stays, along_append]
  have horigin : origin w.cwd s = if PosixPath.isAbsolute s then [] else w.cwd := rfl
  rw [place, follow, horigin]
  refine congrArg _ (funext fun p => ?_)
  rw [along]
  exact Option.bind_fun_some _

theorem alike_of_names (h : Names w s d) (h' : Names w s' d) (hs : ReadStraight w s)
    (hs' : ReadStraight w s') : Alike w s s' := by
  rw [Alike, hs, hs', place_append_name isName_nodeModules s h.1, h.2,
    place_append_name isName_nodeModules s' h'.1, h'.2]

theorem place_storeOf (hne : s ≠ []) : place w (storeOf s) =
    (place w (nodeModulesOf s)).bind fun p => enter w.fs (follow w.fs w.links) p (js ".pnpm") := by
  obtain ⟨rooted, ns, hns, hmodules, _⟩ := storeOf_eq hne
  rw [storeOf, hmodules]
  exact place_joinAll (hns.name isName_nodeModules) (by simp) isName_pnpm

theorem Alike.store (h : Alike w s s') (hne : s ≠ []) (hne' : s' ≠ []) :
    place w (storeOf s) = place w (storeOf s') := by
  rw [place_storeOf hne, place_storeOf hne', h]

theorem mapM_congr {α β : Type} {f g : α → Option β} {l : List α} (h : ∀ a ∈ l, f a = g a) :
    l.mapM f = l.mapM g := by
  induction l with
  | nil => rfl
  | cons a l ih =>
    obtain ⟨ha, hl⟩ := List.forall_mem_cons.mp h
    rw [List.mapM_cons, List.mapM_cons, ha, ih hl]

/-- The names of the packages in a directory do not depend on how it is written. -/
theorem packageNamesIn_alike (h : Alike w s s') (hne : s ≠ []) (hne' : s' ≠ []) :
    packageNamesIn w (nodeModulesOf s) = packageNamesIn w (nodeModulesOf s') := by
  obtain ⟨rooted, ns, hns, hmodules, _⟩ := storeOf_eq hne
  obtain ⟨rooted', ns', hns', hmodules', _⟩ := storeOf_eq hne'
  have hread : readdirSync w (nodeModulesOf s) = readdirSync w (nodeModulesOf s') := by
    rw [readdirSync, h]
    rfl
  unfold packageNamesIn
  rw [hread]
  cases hentries : readdirSync w (nodeModulesOf s') with
  | none => rfl
  | some entries =>
    refine congrArg (Option.map List.flatten) (mapM_congr ?_)
    intro name hname
    have hn := isName_of_readdirSync hentries name hname
    have hscope : readdirSync w (joinAll [nodeModulesOf s, name]) =
        readdirSync w (joinAll [nodeModulesOf s', name]) := by
      have hplace : place w (joinAll [nodeModulesOf s, name]) =
          place w (joinAll [nodeModulesOf s', name]) := by
        rw [hmodules, place_joinAll (hns.name isName_nodeModules) (by simp) hn, ← hmodules, h,
          hmodules', place_joinAll (hns'.name isName_nodeModules) (by simp) hn]
      rw [readdirSync, hplace]
      rfl
    unfold namesOf
    rw [hscope]

/-- The two answers before the first package is resolved. -/
def SameStart : Except Outcome (List Text) → Except Outcome (List Text) → Prop
  | .ok roots, .ok roots' => roots = roots'
  | .error o, .error o' => SameEntries o o'
  | _, _ => False

theorem inspect_alike (h : Alike w s s') (hne : s ≠ []) (hne' : s' ≠ []) (keepRoots : List Text) :
    SameStart (inspect w s keepRoots) (inspect w s' keepRoots) := by
  have hexists : existsSync w (storeOf s) = existsSync w (storeOf s') := by
    rw [existsSync, h.store hne hne']
    rfl
  have hempty : ¬truthy s = false := by simp [truthy_iff.mpr hne]
  have hempty' : ¬truthy s' = false := by simp [truthy_iff.mpr hne']
  simp only [inspect]
  rw [if_neg hempty, if_neg hempty', hexists, packageNamesIn_alike h hne hne']
  split
  · trivial
  · cases packageNamesIn w (nodeModulesOf s') with
    | none => trivial
    | some rootNames =>
      dsimp only
      cases List.find? (fun root => !rootNames.contains root)
          (if keepRoots = [] then rootNames else keepRoots) with
      | none => rfl
      | some root => trivial

/-! ## The two kinds of store path -/

/-- A store path that is its own real path can be written in one way only. -/
theorem script_own (h : Alike w s s') (hne : s ≠ []) (hne' : s' ≠ []) (hown : Own w (storeOf s))
    (hown' : Own w (storeOf s')) (fuel : Nat) : script w s keepRoots fuel = script w s' keepRoots fuel := by
  have hstore : storeOf s = storeOf s' := by
    have hreal : realpathSync w (storeOf s) = realpathSync w (storeOf s') := by
      rw [realpathSync, h.store hne hne']
      rfl
    rw [hown, hown'] at hreal
    exact Option.some.inj hreal
  have hmodules : nodeModulesOf s = nodeModulesOf s' := by
    obtain ⟨rooted, ns, hns, hmodules, heq⟩ := storeOf_eq hne
    obtain ⟨rooted', ns', hns', hmodules', heq'⟩ := storeOf_eq hne'
    have hclimbed := (hns.name isName_nodeModules).name isName_pnpm
    have hclimbed' := (hns'.name isName_nodeModules).name isName_pnpm
    rw [heq] at hown
    rw [heq'] at hown'
    obtain ⟨rfl, _⟩ := (own_iff hclimbed (by simp)).mp hown
    obtain ⟨rfl, _⟩ := (own_iff hclimbed' (by simp)).mp hown'
    rw [heq, heq'] at hstore
    have hnames := PosixPath.absolute_injective (fun _ => hclimbed.name_of_rooted)
      (fun _ => hclimbed'.name_of_rooted) hstore
    rw [hmodules, hmodules', (List.append_inj_left' hnames rfl)]
  have hempty : truthy s = truthy s' := by rw [truthy_iff.mpr hne, truthy_iff.mpr hne']
  simp only [script, inspect, keepLoop, rootEntries, hstore, hmodules, hempty]

theorem rootEntries_not_own (hne : s ≠ []) (hown : ¬Own w (storeOf s)) (roots : List Text) :
    rootEntries w s roots = [] := by
  obtain ⟨rooted, ns, hns, _, heq⟩ := storeOf_eq hne
  rw [rootEntries, List.filterMap_eq_nil_iff]
  intro name _
  cases hentry : storeEntryFor w (storeOf s) (nodeModulesOf s) name with
  | none => rfl
  | some e =>
    rw [heq] at hentry hown
    have hclimbed := (hns.name isName_nodeModules).name isName_pnpm
    exact absurd ((storeEntryFor_iff hclimbed (by simp)).mp hentry).1 hown

/-- Where no root resolves into the store, nothing is kept. -/
theorem script_idle {fuel : Nat} {o : Outcome} (hroots : inspect w s keepRoots = .ok roots)
    (hidle : rootEntries w s roots = []) (h : script w s keepRoots fuel = some o) :
    o = prune w (storeOf s) (.ok []) := by
  unfold script at h
  rw [hroots] at h
  obtain ⟨r, hr, rfl⟩ := Option.map_eq_some_iff.mp h
  unfold keepLoop at hr
  rw [hidle] at hr
  cases fuel with
  | zero => cases hr
  | succ fuel =>
    rw [Worklist.run_nil] at hr
    cases hr
    rfl

/-! ## Two runs -/

/-- No root of the script resolves into the store, under either name. -/
def Idle (w : Process) (s s' : Text) (keepRoots : List Text) : Prop :=
  ∀ roots, inspect w s keepRoots = .ok roots → rootEntries w s roots = [] ∧ rootEntries w s' roots = []

theorem sameEntries_of_idle (h : Alike w s s') (hne : s ≠ []) (hne' : s' ≠ [])
    (hidle : Idle w s s' keepRoots) {fuel fuel' : Nat} {o o' : Outcome}
    (ho : script w s keepRoots fuel = some o) (ho' : script w s' keepRoots fuel' = some o') :
    SameEntries o o' := by
  have hstart := inspect_alike h hne hne' keepRoots
  cases hroots : inspect w s keepRoots with
  | error stop =>
    rw [hroots] at hstart
    cases hroots' : inspect w s' keepRoots with
    | error stop' =>
      rw [hroots'] at hstart
      simp only [script, hroots] at ho
      simp only [script, hroots'] at ho'
      cases ho
      cases ho'
      exact hstart
    | ok roots' =>
      rw [hroots'] at hstart
      exact hstart.elim
  | ok roots =>
    rw [hroots] at hstart
    cases hroots' : inspect w s' keepRoots with
    | error stop' =>
      rw [hroots'] at hstart
      exact hstart.elim
    | ok roots' =>
      rw [hroots'] at hstart
      obtain rfl : roots = roots' := hstart
      obtain ⟨hnone, hnone'⟩ := hidle roots hroots
      rw [script_idle hroots hnone ho, script_idle hroots' hnone' ho']
      have hread : readdirSync w (storeOf s) = readdirSync w (storeOf s') := by
        rw [readdirSync, h.store hne hne']
        rfl
      rw [prune, prune, hread]
      cases readdirSync w (storeOf s') with
      | none => trivial
      | some names => exact ⟨fun _ => Iff.rfl, fun _ => Iff.rfl⟩

/-- With a root in the store of one name, a run that keeps nothing is another run. -/
theorem not_sameEntries (hne : s ≠ []) (hroots : inspect w s keepRoots = .ok roots)
    (hroots' : inspect w s' keepRoots = .ok roots) (hkept : rootEntries w s roots ≠ [])
    (hidle' : rootEntries w s' roots = []) (hread : readdirSync w (storeOf s) = readdirSync w (storeOf s'))
    {fuel fuel' : Nat} {o o' : Outcome} (ho : script w s keepRoots fuel = some o)
    (ho' : script w s' keepRoots fuel' = some o') : ¬SameEntries o o' ∧ ¬SameEntries o' o := by
  obtain ⟨e, rest, hentries⟩ := List.exists_cons_of_ne_nil hkept
  have he : e ∈ rootEntries w s roots := by simp [hentries]
  obtain ⟨name, _, hentry⟩ := List.mem_filterMap.mp he
  -- something lies below the store, so it is a directory
  obtain ⟨names, hnames⟩ : ∃ names, readdirSync w (storeOf s) = some names := by
    obtain ⟨rooted, ns, hns, _, heq⟩ := storeOf_eq hne
    have hclimbed := (hns.name isName_nodeModules).name isName_pnpm
    rw [heq] at hentry ⊢
    obtain ⟨hown, id, below, hplace, _⟩ := (storeEntryFor_iff hclimbed (by simp)).mp hentry
    obtain ⟨rfl, hsettled⟩ := (own_iff hclimbed (by simp)).mp hown
    have hstore : place w (render true (ns ++ [js "node_modules"] ++ [js ".pnpm"])) =
        some (ns ++ [js "node_modules"] ++ [js ".pnpm"]) := place_absolute hsettled
    have hdir := isDir_of_lookup_append (place_settled hplace).isSome
    exact ⟨_, by rw [readdirSync, hstore, Option.bind_some, readdirAt, if_pos hdir]⟩
  have ho' := script_idle hroots' hidle' ho'
  rw [prune, ← hread, hnames] at ho'
  subst ho'
  unfold script at ho
  rw [hroots] at ho
  obtain ⟨r, hr, rfl⟩ := Option.map_eq_some_iff.mp ho
  cases r with
  | error u => exact ⟨id, id⟩
  | ok seen =>
    have hseen : e.id ∈ seen := (Worklist.run_finished hr).started e he
    rw [prune, hnames]
    constructor
    · intro hsame
      exact List.not_mem_nil ((hsame.1 e.id).mp hseen)
    · intro hsame
      exact List.not_mem_nil ((hsame.1 e.id).mpr hseen)

theorem script_det {fuel fuel' : Nat} {o o' : Outcome} (ho : script w s keepRoots fuel = some o)
    (ho' : script w s keepRoots fuel' = some o') : o = o' := by
  unfold script at ho ho'
  cases hroots : inspect w s keepRoots with
  | error stop =>
    rw [hroots] at ho ho'
    cases ho
    cases ho'
    rfl
  | ok roots =>
    rw [hroots] at ho ho'
    obtain ⟨r, hr, rfl⟩ := Option.map_eq_some_iff.mp ho
    obtain ⟨r', hr', rfl⟩ := Option.map_eq_some_iff.mp ho'
    rcases Nat.le_total fuel fuel' with hle | hle
    · have hmore := Worklist.run_mono hle hr
      rw [keepLoop, hmore] at hr'
      cases hr'
      rfl
    · have hmore := Worklist.run_mono hle hr'
      rw [keepLoop, hmore] at hr
      cases hr
      rfl

/-- Two names of one directory, each read straight. Both runs end, and they keep and remove the same
entries if and only if the store paths are both their own real path or neither is, or no root lies in
the store. -/
theorem sameEntries_iff (w : Process) (s s' : Text) (d : Place) (keepRoots : List Text)
    (h : Names w s d) (h' : Names w s' d) (hs : ReadStraight w s) (hs' : ReadStraight w s') :
    (∃ fuel o, script w s keepRoots fuel = some o) ∧ (∃ fuel o, script w s' keepRoots fuel = some o) ∧
    ∀ fuel fuel' o o', script w s keepRoots fuel = some o → script w s' keepRoots fuel' = some o' →
      (SameEntries o o' ↔ ((Own w (storeOf s) ↔ Own w (storeOf s')) ∨ Idle w s s' keepRoots)) := by
  have halike := alike_of_names h h' hs hs'
  refine ⟨script_ends w s keepRoots, script_ends w s' keepRoots, ?_⟩
  intro fuel fuel' o o' ho ho'
  constructor
  · intro hsame
    by_contra hnot
    rw [not_or] at hnot
    obtain ⟨hdiff, hbusy⟩ := hnot
    obtain ⟨roots, hroots, hkept⟩ : ∃ roots, inspect w s keepRoots = .ok roots ∧
        ¬(rootEntries w s roots = [] ∧ rootEntries w s' roots = []) := by
      simpa [Idle] using hbusy
    have hroots' : inspect w s' keepRoots = .ok roots := by
      have hstart := inspect_alike halike h.1 h'.1 keepRoots
      rw [hroots] at hstart
      cases hr : inspect w s' keepRoots with
      | error stop =>
        rw [hr] at hstart
        exact hstart.elim
      | ok roots' =>
        rw [hr] at hstart
        obtain rfl : roots = roots' := hstart
        rfl
    have hread : readdirSync w (storeOf s) = readdirSync w (storeOf s') := by
      rw [readdirSync, halike.store h.1 h'.1]
      rfl
    by_cases hown : Own w (storeOf s)
    · have hown' : ¬Own w (storeOf s') := fun hown' => hdiff (iff_of_true hown hown')
      have hidle' := rootEntries_not_own h'.1 hown' roots
      have hkept : rootEntries w s roots ≠ [] := fun hnone => hkept ⟨hnone, hidle'⟩
      exact (not_sameEntries h.1 hroots hroots' hkept hidle' hread ho ho').1 hsame
    · have hown' : Own w (storeOf s') := by
        by_contra hown'
        exact hdiff (iff_of_false hown hown')
      have hidle := rootEntries_not_own h.1 hown roots
      have hkept : rootEntries w s' roots ≠ [] := fun hnone => hkept ⟨hidle, hnone⟩
      exact (not_sameEntries h'.1 hroots' hroots hkept hidle hread.symm ho' ho).2 hsame
  · rintro (hiff | hidle)
    · by_cases hown : Own w (storeOf s)
      · rw [script_own halike h.1 h'.1 hown (hiff.mp hown)] at ho
        rw [script_det ho ho']
        exact SameEntries.refl o'
      · refine sameEntries_of_idle halike h.1 h'.1 ?_ ho ho'
        intro roots _
        exact ⟨rootEntries_not_own h.1 hown roots,
          rootEntries_not_own h'.1 (fun hown' => hown (hiff.mpr hown')) roots⟩
    · exact sameEntries_of_idle halike h.1 h'.1 hidle ho ho'

end Names

/-- One package, and the root of the file system as the current directory. -/
def oneKept : Process where
  fs := ⟨topLevel [(js "a", js ".pnpm/a/node_modules/a")] ++ entryWith (js "a") (js "a") (.obj []),
    by decide +kernel, by decide +kernel, by decide +kernel⟩
  cwd := []
  links := 40

theorem sameEntries_iff_dotted :
    Names oneKept (js "/d") [js "d"] ∧ Names oneKept (js "/d/.") [js "d"] ∧
    ∀ fuel fuel' o o', script oneKept (js "/d") [] fuel = some o →
      script oneKept (js "/d/.") [] fuel' = some o' →
      (SameEntries o o' ↔ ((Own oneKept (storeOf (js "/d")) ↔ Own oneKept (storeOf (js "/d/."))) ∨
        Idle oneKept (js "/d") (js "/d/.") [])) := by
  have hplain : Names oneKept (js "/d") [js "d"] := ⟨by decide, by decide +kernel⟩
  have hdotted : Names oneKept (js "/d/.") [js "d"] := ⟨by decide, by decide +kernel⟩
  refine ⟨hplain, hdotted, (sameEntries_iff oneKept (js "/d") (js "/d/.") [js "d"] [] hplain hdotted
    (readStraight_of_noDots hplain.1 ?_) (readStraight_of_noDots hdotted.1 ?_)).2.2⟩
  · decide
  · decide

/-- What a run decided on. -/
def Outcome.decided : Outcome → Option (List Text × List Text)
  | .pruned keep drop _ => some (keep, drop)
  | _ => none

/-- Under its relative name everything is dropped from the directory. -/
theorem relative_drops :
    (place oneKept (js "/d") = some [js "d"] ∧ place oneKept (js "d") = some [js "d"]) ∧
    (script oneKept (js "/d") [] 9).bind Outcome.decided = some ([js "a"], []) ∧
    (script oneKept (js "d") [] 9).bind Outcome.decided = some ([], [js "a"]) := by
  decide +kernel

end PruneDeployedModules
end Kurul
