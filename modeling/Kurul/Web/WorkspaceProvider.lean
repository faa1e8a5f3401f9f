import Kurul.Db.Rows
import Kurul.Lts
import Kurul.Web.ApiResource

/-!
# Kurul.Web.WorkspaceProvider

The workspace the shell shows and the user's role in it: `bootstrap` loads both at once, `onSwitch` writes
the workspace at once and the role when it is known.

* `Shell.next`   — the loads, the switches and their answers, in any order.
* `RoleShown`    — the role shown is none, or the user's in the workspace shown.
* `Orderly`      — the steps along which it stays so: no switch under another role, and no load that
  lands on a switch.
* `role_of_active` — along every run of such steps; and what a step that is none leads to.
-/

namespace Kurul
namespace Web

open Lts

structure WorkspaceBootstrap where
  workspaces : List Id
  /-- Empty without a workspace. -/
  activeId : Id
  activeRole : Option MemberRole
  deriving DecidableEq

def noWorkspaces : WorkspaceBootstrap := ⟨[], [], none⟩

/-- How far a bootstrap is: it awaits `/workspaces`, `setActive` or the membership. -/
inductive BootstrapStage where
  | listing
  | activating (workspaces : List Id) (activeId : Id)
  | reading (workspaces : List Id) (activeId : Id)
  deriving DecidableEq

structure Bootstrap where
  /-- `session.session.activeOrganizationId`, when it began. -/
  activeOrganizationId : Option Id
  stage : BootstrapStage
  deriving DecidableEq

/-- How far an `onSwitch` is. -/
inductive SwitchStage where
  | activating
  | reading
  | settled
  deriving DecidableEq

structure Switch where
  workspaceId : Id
  stage : SwitchStage
  deriving DecidableEq

structure Shell where
  bootstrap : ApiResource WorkspaceBootstrap Bootstrap
  /-- The calls of `onSwitch`, first to last: the generation of each is its place. -/
  switches : List Switch
  deriving DecidableEq

inductive ShellAct where
  /-- The session becomes known or changes, or the user retries. -/
  | load (activeOrganizationId : Option Id)
  /-- There is no session to load for. -/
  | hold
  /-- `/workspaces` is answered. -/
  | listed (workspaces : List Id)
  /-- The bootstrap's `setActive` is answered. -/
  | activated
  /-- Its membership is. -/
  | read
  /-- Whatever it awaits fails. -/
  | failed
  | onSwitch (workspaceId : Id)
  /-- A switch's `setActive` is answered. -/
  | switchActivated (k : Nat)
  /-- It fails: `onSwitch` throws. -/
  | switchRejected (k : Nat)
  | switchRead (k : Nat)
  | switchUnread (k : Nat)
  deriving DecidableEq

/-- A switch's request fails. -/
def ShellAct.refuses : ShellAct → Bool
  | .switchRejected _ | .switchUnread _ => true
  | _ => false

namespace Shell

def initial : Shell := ⟨.initial noWorkspaces, []⟩

def activeId (s : Shell) : Id := s.bootstrap.data.activeId

def activeRole (s : Shell) : Option MemberRole := s.bootstrap.data.activeRole

/-- The bootstrap answers with this. -/
def land (value : WorkspaceBootstrap) (s : Shell) : Shell :=
  { s with bootstrap := s.bootstrap.succeed value }

def proceed (load : Bootstrap) (stage : BootstrapStage) (s : Shell) : Shell :=
  { s with bootstrap := s.bootstrap.proceed { load with stage } }

/-- `session.session.activeOrganizationId ?? workspaces[0]?.id ?? ''`. -/
def chosen (activeOrganizationId : Option Id) (workspaces : List Id) : Id :=
  activeOrganizationId.getD (workspaces.head?.getD [])

/-- The bootstrap from `/workspaces` on. -/
def listed (load : Bootstrap) (workspaces : List Id) (s : Shell) : Shell :=
  if workspaces = [] then s.land noWorkspaces
  else
    let activeId := chosen load.activeOrganizationId workspaces
    if activeId ≠ [] ∧ some activeId ≠ load.activeOrganizationId then
      s.proceed load (.activating workspaces activeId)
    else if activeId = [] then s.land ⟨workspaces, [], none⟩
    else s.proceed load (.reading workspaces activeId)

def setStage (k : Nat) (w : Switch) (stage : SwitchStage) (s : Shell) : Shell :=
  { s with switches := s.switches.set k { w with stage } }

/-- `setBootstrap((current) => ({ ...current, activeRole }))`, unless the switch is overtaken. -/
def writeRole (k : Nat) (activeRole : Option MemberRole) (s : Shell) : Shell :=
  if k + 1 = s.switches.length then
    { s with bootstrap := s.bootstrap.setData fun current => { current with activeRole } }
  else s

variable (roleOf : Id → Option MemberRole)

/-- `roleOf` is the user's role in each workspace they belong to. -/
def next : ShellAct → Shell → Option Shell
  | .load activeOrganizationId, s =>
    some { s with bootstrap := s.bootstrap.start ⟨activeOrganizationId, .listing⟩ }
  | .hold, s => some { s with bootstrap := s.bootstrap.hold }
  | .listed workspaces, s =>
    match s.bootstrap.load with
    | some ⟨org, .listing⟩ => some (s.listed ⟨org, .listing⟩ workspaces)
    | _ => none
  | .activated, s =>
    match s.bootstrap.load with
    | some ⟨org, .activating workspaces activeId⟩ =>
      some (s.proceed ⟨org, .activating workspaces activeId⟩ (.reading workspaces activeId))
    | _ => none
  | .read, s =>
    match s.bootstrap.load with
    | some ⟨_, .reading workspaces activeId⟩ =>
      (roleOf activeId).map fun role => s.land ⟨workspaces, activeId, some role⟩
    | _ => none
  | .failed, s => if s.bootstrap.load.isSome then some { s with bootstrap := .fail noWorkspaces } else none
  | .onSwitch workspaceId, s => some {
      bootstrap := s.bootstrap.setData fun current => { current with activeId := workspaceId }
      switches := s.switches ++ [⟨workspaceId, .activating⟩] }
  | .switchActivated k, s =>
    match s.switches[k]? with
    | some ⟨workspaceId, .activating⟩ => some (s.setStage k ⟨workspaceId, .activating⟩ .reading)
    | _ => none
  | .switchRejected k, s =>
    match s.switches[k]? with
    | some ⟨workspaceId, .activating⟩ => some (s.setStage k ⟨workspaceId, .activating⟩ .settled)
    | _ => none
  | .switchRead k, s =>
    match s.switches[k]? with
    | some ⟨workspaceId, .reading⟩ => (roleOf workspaceId).map fun role =>
        (s.writeRole k (some role)).setStage k ⟨workspaceId, .reading⟩ .settled
    | _ => none
  | .switchUnread k, s =>
    match s.switches[k]? with
    | some ⟨workspaceId, .reading⟩ =>
      some ((s.writeRole k none).setStage k ⟨workspaceId, .reading⟩ .settled)
    | _ => none

/-- The workspace of the latest switch. -/
def latest (s : Shell) : Option Id := (s.switches.map Switch.workspaceId).getLast?

/-- Nothing is in flight. -/
def AtRest (s : Shell) : Prop := s.bootstrap.load = none ∧ ∀ w ∈ s.switches, w.stage = .settled

/-- The role shown is none, or the user's in the workspace shown. -/
def RoleShown (s : Shell) : Prop := s.activeRole = none ∨ s.activeRole = roleOf s.activeId

/-- At rest the workspace shown is that of the latest switch. -/
def SwitchShown (s : Shell) : Prop := s.AtRest → ∀ id ∈ s.latest, s.activeId = id

/-- The workspace that a load makes active by this answer, if the answer ends it. -/
def lands (s : Shell) : ShellAct → Option Id
  | .listed workspaces =>
    match s.bootstrap.load with
    | some ⟨org, .listing⟩ =>
      if workspaces = [] ∨ chosen org workspaces = [] then some [] else none
    | _ => none
  | .read =>
    match s.bootstrap.load with
    | some ⟨_, .reading _ activeId⟩ => some activeId
    | _ => none
  | .failed => some []
  | _ => none

/-- A switch starts under no role, or under the one the user has there too; a load that ends after a
switch ends with the workspace switched to. -/
def Orderly (s : Shell) (a : ShellAct) : Prop :=
  (∀ workspaceId, a = .onSwitch workspaceId →
    s.activeRole = none ∨ s.activeRole = roleOf workspaceId) ∧
  ∀ id ∈ s.lands a, ∀ id' ∈ s.latest, id' = id

/-! ## Runs -/

variable {roleOf} {s s' : Shell} {k : Nat} {w : Switch}

theorem latest_setStage (h : s.switches[k]? = some w) (stage : SwitchStage) :
    (s.setStage k w stage).latest = s.latest := by
  refine congrArg List.getLast? ?_
  rw [setStage, List.map_set]
  refine List.ext_getElem? fun i => ?_
  rw [List.getElem?_set]
  split
  · rename_i hik
    subst hik
    rw [List.getElem?_map, h, if_pos (by simpa using (List.getElem?_eq_some_iff.mp h).1)]
    rfl
  · rfl

theorem switches_writeRole (k : Nat) (role : Option MemberRole) :
    (s.writeRole k role).switches = s.switches := by
  unfold writeRole
  split <;> rfl

theorem activeId_writeRole (k : Nat) (role : Option MemberRole) :
    (s.writeRole k role).activeId = s.activeId := by
  unfold writeRole
  split <;> rfl

theorem load_writeRole (k : Nat) (role : Option MemberRole) :
    (s.writeRole k role).bootstrap.load = s.bootstrap.load := by
  unfold writeRole
  split <;> rfl

/-- The last call of `onSwitch` is the latest switch. -/
theorem latest_of_last (h : s.switches[k]? = some w) (hlast : k + 1 = s.switches.length) :
    s.latest = some w.workspaceId := by
  rw [latest, List.getLast?_eq_getElem?, List.length_map, ← hlast, Nat.add_sub_cancel,
    List.getElem?_map, h]
  rfl

/-- What holds along an orderly run: once there is a switch, its workspace is the one shown. -/
structure Sound (roleOf : Id → Option MemberRole) (s : Shell) : Prop where
  role : RoleShown roleOf s
  latest : ∀ id ∈ s.latest, s.activeId = id

theorem sound_initial : Sound roleOf initial :=
  ⟨.inl rfl, fun id h => by cases h⟩

/-- A role is written only by the latest switch, whose workspace is shown. -/
theorem Sound.writeRole (h : Sound roleOf s) (hk : s.switches[k]? = some w) {role : Option MemberRole}
    (hrole : role = none ∨ role = roleOf w.workspaceId) : Sound roleOf (s.writeRole k role) := by
  refine ⟨?_, fun id hid => ?_⟩
  · rw [RoleShown, activeId_writeRole]
    unfold Shell.writeRole
    split
    · rename_i hlast
      rw [h.latest _ (latest_of_last hk hlast)]
      exact hrole
    · exact h.role
  · rw [Shell.latest, switches_writeRole] at hid
    rw [activeId_writeRole]
    exact h.latest id hid

/-- A step that touches neither what is shown nor which switch is the latest. -/
theorem Sound.of_eq (h : Sound roleOf s) (hdata : s'.bootstrap.data = s.bootstrap.data)
    (hlatest : s'.latest = s.latest) : Sound roleOf s' := by
  refine ⟨?_, fun id hid => ?_⟩
  · rw [RoleShown, activeRole, activeId, hdata]
    exact h.role
  · rw [activeId, hdata]
    exact h.latest id (hlatest ▸ hid)

/-- What a load ends with is a workspace under no role or its own. -/
theorem sound_land {value : WorkspaceBootstrap}
    (hrole : value.activeRole = none ∨ value.activeRole = roleOf value.activeId)
    (hid : ∀ id ∈ s.latest, id = value.activeId) : Sound roleOf (s.land value) :=
  ⟨hrole, fun id hlatest => (hid id hlatest).symm⟩

theorem sound_listed {load : Bootstrap} {workspaces : List Id} (h : Sound roleOf s)
    (hid : workspaces = [] ∨ chosen load.activeOrganizationId workspaces = [] →
      ∀ id ∈ s.latest, id = []) : Sound roleOf (s.listed load workspaces) := by
  unfold listed
  split
  · rename_i hempty
    exact sound_land (.inl rfl) (hid (.inl hempty))
  · dsimp only
    split
    · exact h.of_eq rfl rfl
    · split
      · rename_i hnone
        exact sound_land (.inl rfl) (hid (.inr hnone))
      · exact h.of_eq rfl rfl

theorem sound_next {a : ShellAct} (h : Sound roleOf s) (hok : Orderly roleOf s a)
    (hs : next roleOf a s = some s') : Sound roleOf s' := by
  obtain ⟨hswitch, hland⟩ := hok
  cases a with
  | load org =>
    cases hs
    exact h.of_eq rfl rfl
  | hold =>
    cases hs
    exact h.of_eq rfl rfl
  | listed workspaces =>
    simp only [next] at hs
    split at hs
    · rename_i org hload
      cases hs
      simp only [lands, hload] at hland
      exact sound_listed h fun hempty id hid => hland [] (by rw [if_pos hempty]; rfl) id hid
    · cases hs
  | activated =>
    simp only [next] at hs
    split at hs
    · cases hs
      exact h.of_eq rfl rfl
    · cases hs
  | read =>
    simp only [next] at hs
    split at hs
    · rename_i org workspaces activeId hload
      obtain ⟨role, hrole, rfl⟩ := Option.map_eq_some_iff.mp hs
      simp only [lands, hload] at hland
      exact sound_land (.inr hrole.symm) fun id hid => hland activeId rfl id hid
    · cases hs
  | failed =>
    simp only [next] at hs
    split at hs
    · cases hs
      exact ⟨.inl rfl, fun id hid => (hland [] rfl id hid).symm⟩
    · cases hs
  | onSwitch workspaceId =>
    cases hs
    refine ⟨hswitch workspaceId rfl, fun id hid => ?_⟩
    simp only [Shell.latest, List.map_append, List.map_cons, List.map_nil, List.getLast?_concat] at hid
    exact Option.some.inj hid
  | switchActivated k =>
    simp only [next] at hs
    split at hs
    · rename_i workspaceId hk
      cases hs
      exact h.of_eq rfl (latest_setStage hk _)
    · cases hs
  | switchRejected k =>
    simp only [next] at hs
    split at hs
    · rename_i workspaceId hk
      cases hs
      exact h.of_eq rfl (latest_setStage hk _)
    · cases hs
  | switchRead k =>
    simp only [next] at hs
    split at hs
    · rename_i workspaceId hk
      obtain ⟨role, hrole, rfl⟩ := Option.map_eq_some_iff.mp hs
      exact (h.writeRole hk (.inr hrole.symm)).of_eq rfl
        (latest_setStage (by rwa [switches_writeRole]) _)
    · cases hs
  | switchUnread k =>
    simp only [next] at hs
    split at hs
    · rename_i workspaceId hk
      cases hs
      exact (h.writeRole hk (.inl rfl)).of_eq rfl
        (latest_setStage (by rwa [switches_writeRole]) _)
    · cases hs

/-! ## What a step out of order leads to -/

/-- How many switches are under way. -/
def unsettled (s : Shell) : Nat := s.switches.countP fun w => decide (w.stage ≠ .settled)

/-- A switch under way that fails is settled, and moves neither what is shown nor what is latest. -/
theorem refuse_one (roleOf : Id → Option MemberRole) (hk : s.switches[k]? = some w)
    (hw : w.stage ≠ .settled) :
    ∃ a s', a.refuses = true ∧ next roleOf a s = some s' ∧
      s'.bootstrap.load = s.bootstrap.load ∧ s'.activeId = s.activeId ∧ s'.latest = s.latest ∧
      s'.unsettled + 1 = s.unsettled := by
  have hcount : (s.switches.set k ⟨w.workspaceId, .settled⟩).countP
      (fun w => decide (w.stage ≠ .settled)) + 1 = s.unsettled := by
    obtain ⟨hlt, hget⟩ := List.getElem?_eq_some_iff.mp hk
    have hpos : 0 < s.unsettled :=
      List.countP_pos_iff.mpr ⟨w, List.mem_of_getElem? hk, decide_eq_true hw⟩
    rw [List.countP_set hlt, hget, if_pos (decide_eq_true hw), if_neg (by simp)]
    exact Nat.succ_pred_eq_of_pos hpos
  obtain ⟨workspaceId, stage⟩ := w
  cases stage with
  | activating =>
    exact ⟨.switchRejected k, s.setStage k ⟨workspaceId, .activating⟩ .settled, rfl,
      by simp only [next, hk], rfl, rfl, latest_setStage hk _, hcount⟩
  | reading =>
    refine ⟨.switchUnread k, (s.writeRole k none).setStage k ⟨workspaceId, .reading⟩ .settled, rfl,
      by simp only [next, hk], load_writeRole k none, activeId_writeRole k none, ?_, ?_⟩
    · rw [latest_setStage (by rwa [switches_writeRole]), Shell.latest, switches_writeRole]
      rfl
    · rw [unsettled, setStage, switches_writeRole]
      exact hcount
  | settled => exact absurd rfl hw

/-- Once the load is through, the switches under way may all fail. -/
theorem refuse_all (roleOf : Id → Option MemberRole) (hload : s.bootstrap.load = none) :
    ∃ s', Reach (next roleOf) (fun _ a => a.refuses = true) s s' ∧ s'.AtRest ∧
      s'.activeId = s.activeId ∧ s'.latest = s.latest := by
  induction hn : s.unsettled generalizing s with
  | zero =>
    refine ⟨s, .refl, ⟨hload, fun w hw => ?_⟩, rfl, rfl⟩
    simpa using List.countP_eq_zero.mp hn w hw
  | succ n ih =>
    have hpos : 0 < s.unsettled := by omega
    obtain ⟨w, hw, hstage⟩ := List.countP_pos_iff.mp hpos
    obtain ⟨k, hk⟩ := List.getElem?_of_mem hw
    obtain ⟨a, s₁, ha, hnext, hload', hid, hlatest, hcount⟩ :=
      refuse_one roleOf hk (of_decide_eq_true hstage)
    obtain ⟨s', hrun, hrest, hid', hlatest'⟩ := ih (hload'.trans hload) (by omega)
    have hfirst : Reach (next roleOf) (fun _ a => a.refuses = true) s s₁ := .step .refl ha hnext
    exact ⟨s', hfirst.trans hrun, hrest, hid'.trans hid, hlatest'.trans hlatest⟩

/-- Where a load lands. -/
theorem landed {a : ShellAct} {id : Id} (ha : id ∈ s.lands a) (hs : next roleOf a s = some s') :
    s'.bootstrap.load = none ∧ s'.activeId = id ∧ s'.latest = s.latest := by
  cases a with
  | listed workspaces =>
    simp only [lands] at ha
    split at ha
    · rename_i org hload
      split at ha
      · rename_i hempty
        cases ha
        simp only [next, hload] at hs
        cases hs
        unfold listed
        by_cases hnil : workspaces = []
        · rw [if_pos hnil]
          exact ⟨rfl, rfl, rfl⟩
        · have hchosen : chosen org workspaces = [] := hempty.resolve_left hnil
          rw [if_neg hnil]
          simp only [hchosen, ne_eq, not_true_eq_false, false_and, if_false, if_true]
          exact ⟨rfl, rfl, rfl⟩
      · cases ha
    · cases ha
  | read =>
    simp only [lands] at ha
    split at ha
    · rename_i hload
      cases ha
      simp only [next, hload] at hs
      obtain ⟨role, _, rfl⟩ := Option.map_eq_some_iff.mp hs
      exact ⟨rfl, rfl, rfl⟩
    · cases ha
  | failed =>
    cases ha
    simp only [next] at hs
    split at hs
    · cases hs
      exact ⟨rfl, rfl, rfl⟩
    · cases hs
  | _ => cases ha

/-- Along every orderly run the role shown is none or the user's in the workspace shown, and at rest the
workspace shown is that of the latest switch. The first step out of order breaks this, at once or as soon
as the switches under way fail. -/
theorem role_of_active (h : Reach (next roleOf) (Orderly roleOf) initial s) :
    (RoleShown roleOf s ∧ s.SwitchShown) ∧
      ∀ a s', next roleOf a s = some s' → ¬ Orderly roleOf s a →
        ∃ s'', Reach (next roleOf) (fun _ a => a.refuses = true) s' s'' ∧
          ¬ (RoleShown roleOf s'' ∧ s''.SwitchShown) := by
  have hsound : Sound roleOf s :=
    h.inv sound_initial fun s a s' hi hok hs => sound_next hi hok hs
  refine ⟨⟨hsound.role, fun _ => hsound.latest⟩, fun a s' hs hnot => ?_⟩
  by_cases hland : ∀ id ∈ s.lands a, ∀ id' ∈ s.latest, id' = id
  · -- a switch under another role, which stays
    have hswitch : ¬ ∀ workspaceId, a = .onSwitch workspaceId →
        s.activeRole = none ∨ s.activeRole = roleOf workspaceId := fun h => hnot ⟨h, hland⟩
    push Not at hswitch
    obtain ⟨workspaceId, rfl, hsome, hother⟩ := hswitch
    cases hs
    exact ⟨_, .refl, fun hshown => hshown.1.elim hsome hother⟩
  · -- a load on top of a switch to another workspace
    push Not at hland
    obtain ⟨id, hid, id', hid', hne⟩ := hland
    obtain ⟨hload, hactive, hlatest⟩ := landed hid hs
    obtain ⟨s'', hrun, hrest, hactive', hlatest'⟩ := refuse_all roleOf hload
    refine ⟨s'', hrun, fun hshown => hne ?_⟩
    rw [← hactive, ← hactive']
    exact (hshown.2 hrest id' (by rwa [hlatest', hlatest])).symm

/-- The user's roles in two workspaces, and in a third the same as in the first. -/
def twoRoles (id : Id) : Option MemberRole :=
  if id = js "a" ∨ id = js "c" then some .admin else if id = js "b" then some .member else none

/-- A test of `Orderly`. -/
def orderly (roleOf : Id → Option MemberRole) (s : Shell) (a : ShellAct) : Bool :=
  (match a with
    | .onSwitch workspaceId => s.activeRole = none || s.activeRole = roleOf workspaceId
    | _ => true) &&
  (s.lands a).all fun id => s.latest.all fun id' => id' = id

theorem orderly_ok (s : Shell) (a : ShellAct) (h : orderly roleOf s a = true) : Orderly roleOf s a := by
  obtain ⟨hswitch, hland⟩ := Bool.and_eq_true_iff.mp h
  refine ⟨fun workspaceId ha => ?_, fun id hid id' hid' => ?_⟩
  · subst ha
    simpa using hswitch
  · rw [Option.mem_def.mp hid] at hland
    have hall : s.latest.all (fun id' => id' = id) = true := hland
    rw [Option.mem_def.mp hid'] at hall
    exact of_decide_eq_true hall

/-- The shell has loaded. -/
def loaded : List ShellAct := [.load (some (js "a")), .listed [js "a", js "b", js "c"], .read]

/-- A switch to a workspace where the user has the same role, and its answers. -/
theorem role_of_active_same_role : ∃ s, Reach (next twoRoles) (Orderly twoRoles) initial s ∧
    s.activeId = js "c" ∧ s.activeRole = some .admin ∧ RoleShown twoRoles s ∧ s.SwitchShown := by
  let acts : List ShellAct := loaded ++ [.onSwitch (js "c"), .switchActivated 0, .switchRead 0]
  have hrun : Reach (next twoRoles) (Orderly twoRoles) initial
      (after (next twoRoles) (orderly twoRoles) acts initial) :=
    reach_after orderly_ok (by decide)
  exact ⟨_, hrun, by decide, by decide, (role_of_active hrun).1⟩

/-- A switch whose `setActive` fails: at rest the admin of one workspace is shown as that of another, where
the user is a member. And a load that was under way takes the shell back. -/
theorem role_of_another :
    (¬ ∀ roleOf s, Reach (next roleOf) (fun _ _ => True) initial s → RoleShown roleOf s) ∧
      ¬ ∀ roleOf s, Reach (next roleOf) (fun _ _ => True) initial s → s.SwitchShown := by
  have hreach : ∀ acts, (play (next twoRoles) (fun _ _ => true) acts initial).isSome = true →
      Reach (next twoRoles) (fun _ _ => True) initial
        (after (next twoRoles) (fun _ _ => true) acts initial) :=
    fun acts h => reach_after (fun _ _ _ => trivial) h
  constructor
  · intro h
    have hrun := hreach (loaded ++ [.onSwitch (js "b"), .switchRejected 0]) (by decide)
    have hshown := h twoRoles _ hrun
    revert hshown
    unfold RoleShown
    decide
  · intro h
    have hrun := hreach (loaded ++ [.load (some (js "a")), .onSwitch (js "c"), .switchActivated 0,
      .switchRead 0, .listed [js "a", js "b", js "c"], .read]) (by decide)
    have hshown := h twoRoles _ hrun ⟨by decide, by decide⟩ (js "c") (by decide)
    revert hshown
    decide

end Shell

end Web
end Kurul
