import Mathlib.Data.List.Induction
import Kurul.PosixPath

/-!
# Kurul.PosixFs

A file system as its places: a finite tree of directories, files and symbolic links, and how a path
is followed through it. A place is the names on the way from the root, through directories only.

* `follow`             — the place a path leads to, through at most so many links behind each other.
* `Settled`            — places that are no link; a path never leads anywhere else (`follow_settled`),
  and the path made of its names leads to it (`follow_absolute`).
* `lookup_removeAll`   — what removing some subtrees leaves.
* `follow_restricted`  — a path still leads where it did if and only if nothing on its trail is gone.
-/

namespace PosixFs

open PosixPath (Text Name slash dot)

abbrev Place : Type := List Text

inductive Node (C : Type) where
  | file (content : C)
  | link (target : Text)
  | dir

variable {C : Type}

def Node.isDir : Node C → Bool
  | .dir => true
  | _ => false

def Node.isLink : Node C → Bool
  | .link _ => true
  | _ => false

/-- What stands at a place among some entries; the root is always there. -/
def lookupIn (entries : List (Place × Node C)) (p : Place) : Option (Node C) :=
  if p = [] then some .dir else (entries.find? fun e => e.1 = p).map Prod.snd

structure Fs (C : Type) where
  entries : List (Place × Node C)
  nodup : (entries.map Prod.fst).Nodup
  names : ∀ e ∈ entries, e.1 ≠ [] ∧ ∀ n ∈ e.1, Name n
  parent : ∀ e ∈ entries, (lookupIn entries e.1.dropLast).any Node.isDir = true

variable {fs fs' : Fs C} {p q r cur : Place} {n : Text} {node : Node C}

def Fs.lookup (fs : Fs C) (p : Place) : Option (Node C) := lookupIn fs.entries p

def Fs.isDir (fs : Fs C) (p : Place) : Bool := (fs.lookup p).any Node.isDir

/-- The names in a directory. -/
def Fs.children (fs : Fs C) (p : Place) : List Text :=
  fs.entries.filterMap fun e => if e.1.dropLast = p then e.1.getLast? else none

/-! ## Following a path -/

/-- One segment further. A link is followed from the directory it stands in. -/
def enter (fs : Fs C) (follow : Place → Text → Option Place) (cur : Place) (segment : Text) :
    Option Place :=
  if fs.isDir cur = false then none
  else if segment = [] ∨ segment = [dot] then some cur
  else if segment = [dot, dot] then some cur.dropLast
  else
    match fs.lookup (cur ++ [segment]) with
    | none => none
    | some (.link target) => follow cur target
    | some _ => some (cur ++ [segment])

def along (enter : Place → Text → Option Place) : Place → List Text → Option Place
  | cur, [] => some cur
  | cur, segment :: rest => (enter cur segment).bind fun next => along enter next rest

/-- Where a path starts. -/
def origin (cur : Place) (text : Text) : Place := if PosixPath.isAbsolute text then [] else cur

/-- The place a path leads to from a directory, with a bound on links behind each other. -/
def follow (fs : Fs C) : Nat → Place → Text → Option Place
  | 0, _, _ => none
  | links + 1, cur, text => along (enter fs (follow fs links)) (origin cur text) (text.splitOn slash)

/-! ## Places -/

@[simp] theorem lookup_nil (fs : Fs C) : fs.lookup [] = some .dir := by
  rw [Fs.lookup, lookupIn, if_pos rfl]

theorem lookup_of_ne (hp : p ≠ []) :
    fs.lookup p = (fs.entries.find? fun e => e.1 = p).map Prod.snd := if_neg hp

theorem mem_entries (h : fs.lookup p = some node) (hp : p ≠ []) : (p, node) ∈ fs.entries := by
  rw [lookup_of_ne hp] at h
  obtain ⟨e, he, rfl⟩ := Option.map_eq_some_iff.mp h
  obtain rfl : e.1 = p := by simpa using List.find?_some he
  exact List.mem_of_find?_eq_some he

theorem lookup_isSome_of_mem {e : Place × Node C} (he : e ∈ fs.entries) :
    (fs.lookup e.1).isSome = true := by
  rw [lookup_of_ne (fs.names e he).1, Option.isSome_map, List.find?_isSome]
  exact ⟨e, he, decide_eq_true rfl⟩

theorem names_of_lookup (h : fs.lookup p = some node) : ∀ n ∈ p, Name n := by
  by_cases hp : p = []
  · subst hp
    exact List.forall_mem_nil Name
  · exact (fs.names _ (mem_entries h hp)).2

/-- Above what exists there are directories. -/
theorem isDir_of_lookup_append (h : (fs.lookup (p ++ n :: q)).isSome = true) : fs.isDir p = true := by
  induction q using List.reverseRecOn generalizing n with
  | nil =>
    obtain ⟨node, hnode⟩ := Option.isSome_iff_exists.mp h
    have hparent := fs.parent _ (mem_entries hnode (by simp))
    rwa [List.dropLast_concat] at hparent
  | append_singleton q m ih =>
    obtain ⟨node, hnode⟩ := Option.isSome_iff_exists.mp h
    have hparent := fs.parent _ (mem_entries hnode (by simp))
    have hdrop : (p ++ n :: (q ++ [m])).dropLast = p ++ n :: q := by
      rw [← List.cons_append, ← List.append_assoc, List.dropLast_concat]
    rw [hdrop] at hparent
    refine ih (n := n) ?_
    rw [Option.isSome_iff_exists]
    obtain ⟨d, hd, _⟩ := (Option.any_eq_true _ _).mp hparent
    exact ⟨d, hd⟩

/-- A place that exists and is no link. -/
def Settled (fs : Fs C) (p : Place) : Prop := (fs.lookup p).any (fun node => !node.isLink) = true

theorem settled_of_isDir (h : fs.isDir p = true) : Settled fs p := by
  unfold Settled
  unfold Fs.isDir at h
  cases hnode : fs.lookup p with
  | none => simp [hnode] at h
  | some node =>
    cases node with
    | dir => rfl
    | file content => simp [hnode, Node.isDir] at h
    | link target => simp [hnode, Node.isDir] at h

theorem isDir_dropLast (h : fs.isDir p = true) : fs.isDir p.dropLast = true := by
  rcases List.eq_nil_or_concat p with rfl | ⟨init, n, rfl⟩
  · exact h
  · rw [List.concat_eq_append] at h ⊢
    rw [List.dropLast_concat]
    unfold Fs.isDir at h
    refine isDir_of_lookup_append (q := []) (n := n) ?_
    obtain ⟨d, hd, _⟩ := (Option.any_eq_true _ _).mp h
    exact Option.isSome_iff_exists.mpr ⟨d, hd⟩

theorem Settled.isSome (h : Settled fs p) : (fs.lookup p).isSome = true := by
  obtain ⟨node, hnode, _⟩ := (Option.any_eq_true _ _).mp h
  exact Option.isSome_iff_exists.mpr ⟨node, hnode⟩

theorem Settled.names (h : Settled fs p) : ∀ n ∈ p, Name n := by
  obtain ⟨node, hnode, _⟩ := (Option.any_eq_true _ _).mp h
  exact names_of_lookup hnode

/-- What is above a settled place is settled. -/
theorem Settled.above (h : Settled fs (p ++ q)) : Settled fs p := by
  cases q with
  | nil => rwa [List.append_nil] at h
  | cons n q => exact settled_of_isDir (isDir_of_lookup_append h.isSome)

/-! ## Where paths lead -/

theorem enter_settled {f : Place → Text → Option Place}
    (hf : ∀ cur text r, f cur text = some r → Settled fs r) {segment : Text}
    (h : enter fs f cur segment = some r) : Settled fs r := by
  unfold enter at h
  split at h
  · cases h
  · rename_i hdir
    have hdir : fs.isDir cur = true := by simpa using hdir
    split at h
    · cases h
      exact settled_of_isDir hdir
    · split at h
      · cases h
        exact settled_of_isDir (isDir_dropLast hdir)
      · split at h
        · cases h
        · exact hf _ _ _ h
        · rename_i node hlink hnode
          cases h
          unfold Settled
          rw [hnode]
          cases node with
          | link target => exact absurd rfl (hlink target)
          | dir => rfl
          | file content => rfl

theorem along_settled {e : Place → Text → Option Place}
    (he : ∀ cur segment r, e cur segment = some r → Settled fs r) {segments : List Text}
    (hne : segments ≠ []) (h : along e cur segments = some r) : Settled fs r := by
  induction segments generalizing cur with
  | nil => exact absurd rfl hne
  | cons segment rest ih =>
    obtain ⟨next, hnext, hrest⟩ := Option.bind_eq_some_iff.mp h
    cases rest with
    | nil =>
      cases hrest
      exact he _ _ _ hnext
    | cons segment' rest => exact ih (by simp) hrest

/-- A path never leads to a link. The induction is on the links followed. -/
theorem follow_settled {links : Nat} {text : Text} (h : follow fs links cur text = some r) :
    Settled fs r := by
  induction links generalizing cur text r with
  | zero => cases h
  | succ links ih =>
    exact along_settled (fun _ _ _ => enter_settled fun _ _ _ => ih) (List.splitOn_ne_nil slash text) h

theorem along_append {e : Place → Text → Option Place} (ss ts : List Text) :
    along e cur (ss ++ ts) = (along e cur ss).bind fun next => along e next ts := by
  induction ss generalizing cur with
  | nil => rfl
  | cons segment ss ih =>
    rw [List.cons_append, along, along, Option.bind_assoc]
    exact congrArg _ (funext fun next => ih)

/-- A segment that stays where it is. -/
def stays (segment : Text) : Bool := segment = [] || segment = [dot]

theorem along_not_isDir {f : Place → Text → Option Place} (hcur : fs.isDir cur = false)
    {segments : List Text} (hne : segments ≠ []) : along (enter fs f) cur segments = none := by
  obtain ⟨segment, rest, rfl⟩ := List.exists_cons_of_ne_nil hne
  rw [along, enter, if_pos hcur]
  rfl

/-- Segments that stay where they are can be left out before another one. -/
theorem along_stays {f : Place → Text → Option Place} (segments : List Text) (last : Text) :
    along (enter fs f) cur (segments ++ [last]) =
      along (enter fs f) cur (segments.filter (fun segment => !stays segment) ++ [last]) := by
  induction segments generalizing cur with
  | nil => rfl
  | cons segment rest ih =>
    by_cases hstays : stays segment = true
    · rw [List.filter_cons_of_neg (by simp [hstays]), List.cons_append, along, ← ih]
      cases hdir : fs.isDir cur with
      | false =>
        rw [along_not_isDir hdir (by simp), enter, if_pos hdir]
        rfl
      | true =>
        have hhere : segment = [] ∨ segment = [dot] := by simpa [stays] using hstays
        rw [enter, if_neg (by simp [hdir]), if_pos hhere]
        rfl
    · rw [List.filter_cons_of_pos (by simp [hstays]), List.cons_append, List.cons_append, along, along]
      exact congrArg _ (funext fun next => ih)

theorem enter_name {f : Place → Text → Option Place} (hn : Name n) (h : Settled fs (cur ++ [n])) :
    enter fs f cur n = some (cur ++ [n]) := by
  have hdir : fs.isDir cur = true := isDir_of_lookup_append h.isSome
  obtain ⟨node, hnode, hlink⟩ := (Option.any_eq_true _ _).mp h
  rw [enter, if_neg (by simp [hdir]), if_neg (by simp [hn.nonempty, hn.notDot]), if_neg hn.notDots,
    hnode]
  cases node with
  | link target => cases hlink
  | dir => rfl
  | file content => rfl

/-- The names of a settled place lead to it. -/
theorem along_names {f : Place → Text → Option Place} (h : Settled fs (p ++ q)) :
    along (enter fs f) p q = some (p ++ q) := by
  induction q generalizing p with
  | nil => rw [along, List.append_nil]
  | cons n q ih =>
    have happ : p ++ n :: q = (p ++ [n]) ++ q := by simp
    rw [happ] at h ⊢
    have hn : Name n := h.names n (by simp)
    rw [along, enter_name hn h.above]
    exact ih h

/-- The path made of the names of a settled place leads to it. -/
theorem follow_absolute (links : Nat) (cur : Place) (h : Settled fs p) :
    follow fs (links + 1) cur (PosixPath.absolute p) = some p := by
  have horigin : origin cur (PosixPath.absolute p) = [] := rfl
  have hroot : enter fs (follow fs links) [] [] = some [] := rfl
  rw [follow, horigin]
  by_cases hp : p = []
  · subst hp
    rfl
  · have hsplit : (PosixPath.absolute p).splitOn slash = if true then [] :: p else p :=
      PosixPath.splitOn_render (PosixPath.climbed_of_names h.names) hp
    rw [hsplit, if_pos rfl, along, hroot]
    exact along_names (p := []) h

/-! ## Directories -/

theorem mem_children : n ∈ fs.children p ↔ (fs.lookup (p ++ [n])).isSome = true := by
  rw [Fs.children, List.mem_filterMap]
  constructor
  · rintro ⟨e, he, hlast⟩
    split at hlast
    · rename_i hp
      have hcut := List.dropLast_append_getLast? n hlast
      rw [hp] at hcut
      rw [hcut]
      exact lookup_isSome_of_mem he
    · cases hlast
  · intro h
    obtain ⟨node, hnode⟩ := Option.isSome_iff_exists.mp h
    exact ⟨_, mem_entries hnode (by simp), by simp⟩

/-! ## Removing -/

/-- The file system without a subtree. -/
def Fs.remove (fs : Fs C) (root : Place) : Fs C where
  entries := fs.entries.filter fun e => !root.isPrefixOf e.1
  nodup := fs.nodup.sublist ((List.filter_sublist).map Prod.fst)
  names e he := fs.names e (List.mem_of_mem_filter he)
  parent e he := by
    obtain ⟨he, hkept⟩ := List.mem_filter.mp he
    have hparent := fs.parent e he
    unfold lookupIn at hparent ⊢
    split
    · rfl
    · rename_i hp
      rw [if_neg hp] at hparent
      -- nothing above what stays is below the root of the subtree
      have hfind : ((fs.entries.filter fun e => !root.isPrefixOf e.1).find?
          fun d => d.1 = e.1.dropLast) = fs.entries.find? fun d => d.1 = e.1.dropLast := by
        rw [List.find?_filter]
        congr 1
        funext d
        by_cases hd : d.1 = e.1.dropLast
        · have hkept : root.isPrefixOf d.1 = false := by
            rw [Bool.eq_false_iff]
            intro hpre
            rw [List.isPrefixOf_iff_prefix, hd] at hpre
            have := hpre.trans (List.dropLast_prefix e.1)
            rw [← List.isPrefixOf_iff_prefix] at this
            simp [this] at hkept
          simp [hkept]
        · simp [hd]
      rw [hfind]
      exact hparent

theorem lookup_remove {root : Place} (hroot : root ≠ []) (p : Place) :
    (fs.remove root).lookup p = if root <+: p then none else fs.lookup p := by
  by_cases hp : p = []
  · subst hp
    rw [if_neg (by simpa using hroot)]
    rfl
  · rw [lookup_of_ne hp, lookup_of_ne hp]
    have hfind : (fs.remove root).entries.find? (fun e => e.1 = p) =
        if root <+: p then none else fs.entries.find? fun e => e.1 = p := by
      rw [Fs.remove, List.find?_filter]
      split
      · rename_i hpre
        rw [List.find?_eq_none]
        rintro e he hand
        simp only [Bool.not_eq_eq_eq_not, Bool.not_true, decide_eq_true_eq] at hand
        rw [hand.2, ← Bool.not_eq_true, List.isPrefixOf_iff_prefix] at hand
        exact hand.1 hpre
      · rename_i hpre
        congr 1
        funext e
        by_cases he : e.1 = p
        · rw [← List.isPrefixOf_iff_prefix, Bool.not_eq_true] at hpre
          simp [he, hpre]
        · simp [he]
    rw [hfind]
    split
    · rfl
    · rfl

def Fs.removeAll (fs : Fs C) (roots : List Place) : Fs C := roots.foldl Fs.remove fs

/-- What removing some subtrees leaves. -/
theorem lookup_removeAll {roots : List Place} (hroots : ∀ root ∈ roots, root ≠ []) (p : Place) :
    (fs.removeAll roots).lookup p = if ∃ root ∈ roots, root <+: p then none else fs.lookup p := by
  induction roots generalizing fs with
  | nil => simp [Fs.removeAll]
  | cons root roots ih =>
    obtain ⟨hroot, hroots⟩ := List.forall_mem_cons.mp hroots
    have hstep : (fs.removeAll (root :: roots)).lookup p =
        if ∃ root ∈ roots, root <+: p then none else (fs.remove root).lookup p := ih hroots
    rw [hstep, lookup_remove hroot]
    by_cases hpre : root <+: p
    · simp [hpre]
    · simp [hpre]

/-! ## The trail of a path -/

/-- The places looked at on one segment: the directory, what stands there under the name, and what a
link leads through. -/
def trailAt (fs : Fs C) (inner : Place → Text → List Place) (cur : Place) (segment : Text) :
    List Place :=
  if segment = [] ∨ segment = [dot] ∨ segment = [dot, dot] then [cur]
  else
    match fs.lookup (cur ++ [segment]) with
    | some (.link target) => cur :: (cur ++ [segment]) :: inner cur target
    | _ => [cur, cur ++ [segment]]

def trailAlong (e : Place → Text → Option Place) (t : Place → Text → List Place) :
    Place → List Text → List Place
  | _, [] => []
  | cur, segment :: rest =>
    t cur segment ++ ((e cur segment).map fun next => trailAlong e t next rest).getD []

/-- The places looked at on the way. -/
def trail (fs : Fs C) : Nat → Place → Text → List Place
  | 0, _, _ => []
  | links + 1, cur, text =>
    trailAlong (enter fs (follow fs links)) (trailAt fs (trail fs links)) (origin cur text)
      (text.splitOn slash)

/-- The same file system with some places gone. -/
structure Restricted (fs fs' : Fs C) (gone : Place → Prop) : Prop where
  missing : ∀ p, gone p → fs'.lookup p = none
  kept : ∀ p, ¬gone p → fs'.lookup p = fs.lookup p

section Restricted

variable {gone : Place → Prop} {segment : Text}

/-- One function of a place and a text goes on leading where another did, if nothing on the trail is
gone. -/
def Follows (gone : Place → Prop) (t : Place → Text → List Place)
    (f f' : Place → Text → Option Place) : Prop :=
  ∀ cur text r, f cur text = some r →
    ∀ x, f' cur text = some x ↔ x = r ∧ ∀ q ∈ t cur text, ¬gone q

theorem isDir_restricted (h : Restricted fs fs' gone) (hdir : fs.isDir cur = true) :
    fs'.isDir cur = true ↔ ¬gone cur := by
  unfold Fs.isDir at hdir ⊢
  constructor
  · intro hdir' hgone
    rw [h.missing cur hgone] at hdir'
    cases hdir'
  · intro hkept
    rwa [h.kept cur hkept]

theorem enter_restricted (h : Restricted fs fs' gone) {f f' : Place → Text → Option Place}
    {inner : Place → Text → List Place} (hf : Follows gone inner f f') :
    Follows gone (trailAt fs inner) (enter fs f) (enter fs' f') := by
  intro cur segment r hr x
  unfold enter at hr ⊢
  split at hr
  · cases hr
  · rename_i hdir
    have hdir' := isDir_restricted h (by simpa using hdir : fs.isDir cur = true)
    by_cases hcur : gone cur
    · -- the directory itself is gone
      have hnot : fs'.isDir cur = false := by
        rw [← Bool.not_eq_true, hdir', not_not]
        exact hcur
      have hmem : cur ∈ trailAt fs inner cur segment := by
        unfold trailAt
        split
        · exact List.mem_singleton_self cur
        · split
          · exact List.mem_cons_self
          · exact List.mem_cons_self
      rw [if_pos hnot]
      exact iff_of_false (by simp) fun hall => hall.2 cur hmem hcur
    · rw [if_neg (by simp [hdir'.mpr hcur])]
      unfold trailAt
      split at hr
      · rename_i hhere
        cases hr
        rw [if_pos hhere, if_pos (by tauto)]
        simp [hcur, eq_comm]
      · rename_i hhere
        rw [if_neg hhere]
        split at hr
        · rename_i hup
          cases hr
          rw [if_pos hup, if_pos (by tauto)]
          simp [hcur, eq_comm]
        · rename_i hup
          rw [if_neg hup, if_neg (by tauto)]
          by_cases hnext : gone (cur ++ [segment])
          · have hmem : ∀ rest : List Place, cur ++ [segment] ∈ cur :: (cur ++ [segment]) :: rest := by
              simp
            rw [h.missing _ hnext]
            refine iff_of_false (by simp) fun hall => ?_
            split at hall
            · exact hall.2 _ (hmem _) hnext
            · exact hall.2 _ (hmem _) hnext
          · rw [h.kept _ hnext]
            cases hnode : fs.lookup (cur ++ [segment]) with
            | none =>
              rw [hnode] at hr
              cases hr
            | some node =>
              rw [hnode] at hr
              cases node with
              | link target =>
                have hlink := hf cur target r hr x
                simp only [hlink, List.forall_mem_cons]
                tauto
              | dir =>
                cases hr
                simp only [List.forall_mem_cons, hcur, hnext, Option.some.injEq]
                simp [eq_comm]
              | file content =>
                cases hr
                simp only [List.forall_mem_cons, hcur, hnext, Option.some.injEq]
                simp [eq_comm]

theorem along_restricted {e e' : Place → Text → Option Place} {t : Place → Text → List Place}
    (he : Follows gone t e e') {segments : List Text} (hr : along e cur segments = some r) (x : Place) :
    along e' cur segments = some x ↔ x = r ∧ ∀ q ∈ trailAlong e t cur segments, ¬gone q := by
  induction segments generalizing cur with
  | nil =>
    cases hr
    simp [along, trailAlong, eq_comm]
  | cons segment rest ih =>
    obtain ⟨next, hnext, hrest⟩ := Option.bind_eq_some_iff.mp hr
    have hhead := he cur segment next hnext
    have htail := ih hrest
    rw [along, trailAlong, hnext, Option.bind_eq_some_iff]
    simp only [Option.map_some, Option.getD_some, List.mem_append, or_imp, forall_and]
    constructor
    · rintro ⟨y, hy, hx⟩
      obtain ⟨rfl, hkept⟩ := (hhead y).mp hy
      obtain ⟨rfl, hkept'⟩ := htail.mp hx
      exact ⟨rfl, hkept, hkept'⟩
    · rintro ⟨rfl, hkept, hkept'⟩
      exact ⟨next, (hhead next).mpr ⟨rfl, hkept⟩, htail.mpr ⟨rfl, hkept'⟩⟩

/-- A path still leads where it did if and only if nothing on its trail is gone. The induction is on
the links followed. -/
theorem follow_restricted (h : Restricted fs fs' gone) (links : Nat) :
    Follows gone (trail fs links) (follow fs links) (follow fs' links) := by
  induction links with
  | zero =>
    intro cur text r hr
    cases hr
  | succ links ih =>
    intro cur text r hr x
    exact along_restricted (enter_restricted h ih) hr x

end Restricted

theorem restricted_removeAll (fs : Fs C) {roots : List Place} (hroots : ∀ root ∈ roots, root ≠ []) :
    Restricted fs (fs.removeAll roots) fun p => ∃ root ∈ roots, root <+: p := by
  constructor
  · intro p hp
    rw [lookup_removeAll hroots, if_pos hp]
  · intro p hp
    rw [lookup_removeAll hroots, if_neg hp]

end PosixFs
