import Mathlib.Data.List.Basic
import Mathlib.Order.Fin.Basic
import Kurul.Numerals

/-!
# Kurul.PosixPath

Absolute paths as Node's `path` resolves them: a text cut at its slashes, where empty segments and `.`
say nothing and `..` leaves the last name.

* `names_absolute`    — a normalised path and its names.
* `names_child`       — the names of what is behind a slash.
* `relative_below`    — the relative path to something below is made of the names on the way.
* `relative_outside`  — to anything else it starts with two dots.
* `joinAll_name`      — a name joined to a path that is in normal form.
-/

namespace PosixPath

abbrev Text : Type := List (Fin 65536)

def slash : Fin 65536 := 47

def dot : Fin 65536 := 46

def isAbsolute (s : Text) : Bool := s.head? = some slash

/-- A name that can stand in a normalised path. -/
structure Name (n : Text) : Prop where
  nonempty : n ≠ []
  notDot : n ≠ [dot]
  notDots : n ≠ [dot, dot]
  noSlash : slash ∉ n

instance (n : Text) : Decidable (Name n) :=
  decidable_of_iff ((n ≠ [] ∧ n ≠ [dot]) ∧ n ≠ [dot, dot] ∧ slash ∉ n)
    ⟨fun h => ⟨h.1.1, h.1.2, h.2.1, h.2.2⟩, fun h => ⟨⟨h.nonempty, h.notDot⟩, h.notDots, h.noSlash⟩⟩

/-- One segment further. -/
def enter (ns : List Text) (segment : Text) : List Text :=
  if segment = [] ∨ segment = [dot] then ns
  else if segment = [dot, dot] then ns.dropLast
  else ns ++ [segment]

/-- The names that are left of an absolute path when it is normalised. -/
def names (s : Text) : List Text := (s.splitOn slash).foldl enter []

def joinNames (ns : List Text) : Text := [slash].intercalate ns

/-- The normalised path. -/
def absolute (ns : List Text) : Text := slash :: joinNames ns

/-- `path.resolve(root, key)`, for an absolute root. -/
def resolve (root key : Text) : Text :=
  absolute (names (if isAbsolute key then key else root ++ slash :: key))

/-- `path.join(path, name)`, for an absolute path. -/
def join (path name : Text) : Text := absolute (names (path ++ slash :: name))

/-- How many names two paths have in common from the start. -/
def common : List Text → List Text → Nat
  | a :: s, b :: t => if a = b then common s t + 1 else 0
  | _, _ => 0

/-- `path.relative(source, target)`, for absolute paths. -/
def relative (source target : Text) : Text :=
  let k := common (names source) (names target)
  joinNames (List.replicate ((names source).length - k) [dot, dot] ++ (names target).drop k)

section Names

variable {s t : Text} {ns ms acc : List Text} {n : Text}

theorem not_mem_splitOn {segment : Text} (h : segment ∈ s.splitOn slash) : slash ∉ segment := by
  induction s generalizing segment with
  | nil =>
    obtain rfl : segment = [] := by simpa using h
    exact List.not_mem_nil
  | cons c s ih =>
    rw [List.splitOn_cons_eq_if_modifyHead] at h
    split at h
    · rcases List.mem_cons.mp h with rfl | h
      · exact List.not_mem_nil
      · exact ih h
    · rename_i hc
      obtain ⟨first, rest, hsplit⟩ := List.exists_cons_of_ne_nil (List.splitOn_ne_nil slash s)
      rw [hsplit, List.modifyHead_cons] at h
      rcases List.mem_cons.mp h with rfl | h
      · have hfirst := ih (hsplit ▸ List.mem_cons_self)
        intro hmem
        rcases List.mem_cons.mp hmem with heq | hmem
        · exact hc (by simp [← heq])
        · exact hfirst hmem
      · exact ih (hsplit ▸ List.mem_cons_of_mem first h)

/-- A name is entered as it is. -/
theorem enter_name (h : Name n) (ns : List Text) : enter ns n = ns ++ [n] := by
  rw [enter, if_neg, if_neg h.notDots]
  rintro (hnil | hdot)
  · exact h.nonempty hnil
  · exact h.notDot hdot

theorem foldl_enter_names (h : ∀ n ∈ ns, Name n) (acc : List Text) : ns.foldl enter acc = acc ++ ns := by
  induction ns generalizing acc with
  | nil => simp
  | cons n ns ih =>
    obtain ⟨hn, hns⟩ := List.forall_mem_cons.mp h
    rw [List.foldl_cons, enter_name hn, ih hns]
    simp

/-- Only names are left. -/
theorem foldl_enter_spec (hacc : ∀ n ∈ acc, Name n) {segments : List Text}
    (hseg : ∀ segment ∈ segments, slash ∉ segment) : ∀ n ∈ segments.foldl enter acc, Name n := by
  induction segments generalizing acc with
  | nil => exact hacc
  | cons segment segments ih =>
    obtain ⟨hsegment, hsegments⟩ := List.forall_mem_cons.mp hseg
    refine ih ?_ hsegments
    unfold enter
    split
    · exact hacc
    · rename_i hsome
      split
      · exact fun n hn => hacc n ((List.dropLast_sublist acc).subset hn)
      · rename_i hdots
        rw [not_or] at hsome
        intro n hn
        rcases List.mem_append.mp hn with hn | hn
        · exact hacc n hn
        · rw [List.mem_singleton.mp hn]
          exact ⟨hsome.1, hsome.2, hdots, hsegment⟩

theorem name_of_mem_names (h : n ∈ names s) : Name n :=
  foldl_enter_spec (List.forall_mem_nil Name) (fun _ => not_mem_splitOn) n h

/-- What is behind a slash is entered from what is before it. -/
theorem names_append (s t : Text) : names (s ++ slash :: t) = (t.splitOn slash).foldl enter (names s) := by
  rw [names, List.splitOn_append_cons_self, List.foldl_append]
  rfl

@[simp] theorem names_nil : names [] = [] := by
  simp [names, enter]

theorem splitOn_joinNames (h : ∀ n ∈ ns, slash ∉ n) (hne : ns ≠ []) :
    (joinNames ns).splitOn slash = ns := List.splitOn_intercalate slash h hne

/-- Names behind a slash. -/
theorem names_child (h : ∀ n ∈ ns, Name n) (s : Text) : names (s ++ slash :: joinNames ns) = names s ++ ns := by
  rw [names_append]
  by_cases hne : ns = []
  · subst hne
    have hempty : ([] : Text).splitOn slash = [[]] := List.splitOn_nil slash
    simp [joinNames, hempty, enter]
  · rw [splitOn_joinNames (fun n hn => (h n hn).noSlash) hne, foldl_enter_names h]

theorem names_absolute (h : ∀ n ∈ ns, Name n) : names (absolute ns) = ns := by
  have hchild := names_child h []
  rwa [names_nil, List.nil_append, List.nil_append] at hchild

theorem names_resolve (root key : Text) :
    names (resolve root key) = names (if isAbsolute key then key else root ++ slash :: key) :=
  names_absolute fun _ => name_of_mem_names

theorem names_join (h : Name n) (path : Text) : names (join path n) = names path ++ [n] := by
  have hone : ∀ m ∈ [n], Name m := fun m hm => List.mem_singleton.mp hm ▸ h
  have hchild := names_child hone path
  have hjoin : joinNames [n] = n := by simp [joinNames, List.intercalate]
  rw [hjoin] at hchild
  rw [join, names_absolute fun _ => name_of_mem_names, hchild]

/-- Different names make different paths. -/
theorem absolute_injective (hns : ∀ n ∈ ns, Name n) (hms : ∀ n ∈ ms, Name n)
    (h : absolute ns = absolute ms) : ns = ms := by
  rw [← names_absolute hns, h, names_absolute hms]

/-- A text made of names is not absolute. -/
theorem not_isAbsolute_joinNames (h : ∀ n ∈ ns, Name n) : isAbsolute (joinNames ns) = false := by
  cases ns with
  | nil => rfl
  | cons n ns =>
    have hn := h n List.mem_cons_self
    obtain ⟨c, n, rfl⟩ := List.exists_cons_of_ne_nil hn.nonempty
    have hc : c ≠ slash := fun heq => hn.noSlash (heq ▸ List.mem_cons_self)
    have hhead : (joinNames ((c :: n) :: ns)).head? = some c := by
      cases ns with
      | nil => simp [joinNames, List.intercalate]
      | cons m ns => simp [joinNames, List.intercalate]
    simp [isAbsolute, hhead, hc]

end Names

/-! ## Relative paths -/

section Relative

variable {s t : List Text} {source target : Text} {ns : List Text}

theorem common_append (s t : List Text) : common s (s ++ t) = s.length := by
  induction s with
  | nil => cases t <;> rfl
  | cons a s ih =>
    rw [List.cons_append, common, if_pos rfl, ih]
    rfl

theorem common_le (s t : List Text) : common s t ≤ s.length := by
  induction s generalizing t with
  | nil => cases t <;> exact Nat.le_refl 0
  | cons a s ih =>
    cases t with
    | nil => exact Nat.zero_le _
    | cons b t =>
      rw [common]
      split
      · exact Nat.succ_le_succ (ih t)
      · exact Nat.zero_le _

/-- With all names of the first in common, the second is below it. -/
theorem prefix_of_common (h : common s t = s.length) : ∃ below, t = s ++ below := by
  induction s generalizing t with
  | nil => exact ⟨t, rfl⟩
  | cons a s ih =>
    cases t with
    | nil => cases h
    | cons b t =>
      rw [common] at h
      split at h
      · rename_i heq
        obtain ⟨below, rfl⟩ := ih (Nat.succ.inj h)
        exact ⟨below, by rw [heq]; rfl⟩
      · cases h

theorem relative_below (h : names target = names source ++ ns) : relative source target = joinNames ns := by
  simp [relative, h, common_append]

/-- To what is not below, the way starts by going up. -/
theorem relative_outside (h : ∀ below, names target ≠ names source ++ below) :
    [dot, dot] <+: relative source target := by
  have hlt : common (names source) (names target) < (names source).length := by
    refine Nat.lt_of_le_of_ne (common_le _ _) fun heq => ?_
    obtain ⟨below, hbelow⟩ := prefix_of_common heq
    exact h below hbelow
  obtain ⟨m, hm⟩ : ∃ m, (names source).length - common (names source) (names target) = m + 1 :=
    ⟨_, (Nat.succ_pred_eq_of_pos (Nat.sub_pos_of_lt hlt)).symm⟩
  simp only [relative, hm, List.replicate_succ, List.cons_append]
  cases List.replicate m [dot, dot] ++ (names target).drop (common (names source) (names target)) with
  | nil => simp [joinNames, List.intercalate]
  | cons n ns => simp [joinNames, List.intercalate]

end Relative

/-! ## Joining -/

/-- One segment further, with `..` kept where there is nothing to leave and the path is relative. -/
def climb (rooted : Bool) (ns : List Text) (segment : Text) : List Text :=
  if segment = [] ∨ segment = [dot] then ns
  else if segment = [dot, dot] then
    if ns = [] ∨ ns.getLast? = some [dot, dot] then
      if rooted then ns else ns ++ [[dot, dot]]
    else ns.dropLast
  else ns ++ [segment]

/-- The text of some segments, from the root or not. -/
def render (rooted : Bool) (ns : List Text) : Text :=
  if rooted then absolute ns else joinNames ns

/-- `path.normalize`. -/
def normalize (s : Text) : Text :=
  let rooted := isAbsolute s
  let ns := (s.splitOn slash).foldl (climb rooted) []
  if ns = [] then
    if rooted then [slash]
    else if s.getLast? = some slash then [dot, slash]
    else [dot]
  else if s.getLast? = some slash then render rooted ns ++ [slash]
  else render rooted ns

/-- `path.join(...args)`. -/
def joinAll (args : List Text) : Text := normalize (joinNames (args.filter fun a => a ≠ []))

section Joining

variable {rooted : Bool} {ns : List Text} {n s : Text}

/-- What climbing leaves: names, behind the steps up that had nothing to leave. -/
def Climbed (rooted : Bool) (ns : List Text) : Prop :=
  ∃ k names, ns = List.replicate k [dot, dot] ++ names ∧ (∀ n ∈ names, Name n) ∧
    (rooted = true → k = 0)

theorem climb_name (h : Name n) (rooted : Bool) (ns : List Text) : climb rooted ns n = ns ++ [n] := by
  rw [climb, if_neg, if_neg h.notDots]
  rintro (hnil | hdot)
  · exact h.nonempty hnil
  · exact h.notDot hdot

theorem not_name_dots : ¬Name [dot, dot] := fun h => h.notDots rfl

theorem Climbed.climb (h : Climbed rooted ns) {segment : Text} (hs : slash ∉ segment) :
    Climbed rooted (climb rooted ns segment) := by
  obtain ⟨k, names, rfl, hnames, hk⟩ := h
  unfold PosixPath.climb
  split
  · exact ⟨k, names, rfl, hnames, hk⟩
  · rename_i hsome
    rw [not_or] at hsome
    split
    · split
      · rename_i hend
        split
        · exact ⟨k, names, rfl, hnames, hk⟩
        · rename_i hrel
          -- the last segment is a step up, so no names follow
          obtain rfl : names = [] := by
            rcases List.eq_nil_or_concat names with hnil | ⟨init, n, rfl⟩
            · exact hnil
            · rw [List.concat_eq_append] at hnames hend
              rcases hend with hend | hend
              · simp at hend
              · rw [← List.append_assoc, List.getLast?_concat, Option.some.injEq] at hend
                exact absurd (hend ▸ hnames n (by simp)) not_name_dots
          exact ⟨k + 1, [], by simp [List.replicate_succ'], by simp, fun hr => absurd hr hrel⟩
      · rename_i hend
        rw [not_or] at hend
        rcases List.eq_nil_or_concat names with rfl | ⟨init, n, rfl⟩
        · cases k with
          | zero => exact absurd rfl hend.1
          | succ k => exact absurd (by simp [List.replicate_succ']) hend.2
        · rw [List.concat_eq_append, ← List.append_assoc, List.dropLast_concat]
          exact ⟨k, init, rfl, fun m hm => hnames m (by simp [hm]), hk⟩
    · rename_i hdots
      refine ⟨k, names ++ [segment], by rw [List.append_assoc], ?_, hk⟩
      intro n hn
      rcases List.mem_append.mp hn with hn | hn
      · exact hnames n hn
      · rw [List.mem_singleton.mp hn]
        exact ⟨hsome.1, hsome.2, hdots, hs⟩

theorem climbed_foldl (hns : Climbed rooted ns) {segments : List Text}
    (hs : ∀ segment ∈ segments, slash ∉ segment) :
    Climbed rooted (segments.foldl (PosixPath.climb rooted) ns) := by
  induction segments generalizing ns with
  | nil => exact hns
  | cons segment segments ih =>
    obtain ⟨hsegment, hsegments⟩ := List.forall_mem_cons.mp hs
    exact ih (hns.climb hsegment) hsegments

theorem climbed_splitOn (rooted : Bool) (s : Text) :
    Climbed rooted ((s.splitOn slash).foldl (PosixPath.climb rooted) []) :=
  climbed_foldl ⟨0, [], rfl, List.forall_mem_nil Name, fun _ => rfl⟩ fun _ => not_mem_splitOn

theorem foldl_climb_names {names : List Text} (h : ∀ n ∈ names, Name n) (acc : List Text) :
    names.foldl (PosixPath.climb rooted) acc = acc ++ names := by
  induction names generalizing acc with
  | nil => simp
  | cons n names ih =>
    obtain ⟨hn, hnames⟩ := List.forall_mem_cons.mp h
    rw [List.foldl_cons, climb_name hn, ih hnames]
    simp

theorem foldl_climb_dots (k j : Nat) :
    (List.replicate k [dot, dot]).foldl (PosixPath.climb false) (List.replicate j [dot, dot]) =
      List.replicate (j + k) [dot, dot] := by
  induction k generalizing j with
  | zero => rfl
  | succ k ih =>
    have hup : PosixPath.climb false (List.replicate j [dot, dot]) [dot, dot] =
        List.replicate (j + 1) [dot, dot] := by
      cases j with
      | zero => rfl
      | succ j =>
        have hlast : (List.replicate (j + 1) [dot, dot]).getLast? = some [dot, dot] := by
          simp [List.replicate_succ']
        rw [PosixPath.climb, if_neg (by decide), if_pos rfl, if_pos (.inr hlast), if_neg (by decide),
          ← List.replicate_succ']
    rw [List.replicate_succ, List.foldl_cons, hup, ih, Nat.add_right_comm, Nat.add_assoc]

/-- Climbing again changes nothing. -/
theorem Climbed.again (h : Climbed rooted ns) : ns.foldl (PosixPath.climb rooted) [] = ns := by
  obtain ⟨k, names, rfl, hnames, hk⟩ := h
  rw [List.foldl_append, foldl_climb_names hnames]
  cases rooted with
  | true => simp [hk rfl]
  | false =>
    have hdots := foldl_climb_dots k 0
    rw [List.replicate_zero, Nat.zero_add] at hdots
    rw [hdots]

theorem Climbed.noSlash (h : Climbed rooted ns) (hn : n ∈ ns) : slash ∉ n := by
  obtain ⟨k, names, rfl, hnames, _⟩ := h
  rcases List.mem_append.mp hn with hn | hn
  · rw [List.eq_of_mem_replicate hn]
    decide
  · exact (hnames n hn).noSlash

theorem Climbed.nonempty (h : Climbed rooted ns) (hn : n ∈ ns) : n ≠ [] := by
  obtain ⟨k, names, rfl, hnames, _⟩ := h
  rcases List.mem_append.mp hn with hn | hn
  · rw [List.eq_of_mem_replicate hn]
    decide
  · exact (hnames n hn).nonempty

/-- A path in normal form that ends with a name. -/
theorem Climbed.name (h : Climbed rooted ns) (hn : Name n) : Climbed rooted (ns ++ [n]) := by
  rw [← climb_name hn rooted ns]
  exact h.climb hn.noSlash

theorem splitOn_render (h : Climbed rooted ns) (hne : ns ≠ []) :
    (render rooted ns).splitOn slash = if rooted then [] :: ns else ns := by
  have hjoin := splitOn_joinNames (fun _ hm => h.noSlash hm) hne
  cases rooted with
  | false => exact hjoin
  | true =>
    have hsplit : (slash :: joinNames ns).splitOn slash = [] :: (joinNames ns).splitOn slash := by
      rw [List.splitOn_cons_eq_if_modifyHead, if_pos (beq_self_eq_true slash)]
    rw [hjoin] at hsplit
    exact hsplit

theorem isAbsolute_render (h : Climbed rooted ns) (hne : ns ≠ []) :
    isAbsolute (render rooted ns) = rooted := by
  cases rooted with
  | true => rfl
  | false =>
    obtain ⟨m, ms, rfl⟩ := List.exists_cons_of_ne_nil hne
    have hm := h.nonempty List.mem_cons_self
    have hslash := h.noSlash List.mem_cons_self
    obtain ⟨c, m, rfl⟩ := List.exists_cons_of_ne_nil hm
    have hc : c ≠ slash := fun heq => hslash (heq ▸ List.mem_cons_self)
    cases ms with
    | nil => simp [isAbsolute, render, joinNames, List.intercalate, hc]
    | cons _ _ => simp [isAbsolute, render, joinNames, List.intercalate, hc]

theorem getLast?_append_name (h : Name n) (s : Text) : (s ++ n).getLast? ≠ some slash := by
  intro hlast
  rw [List.getLast?_append_of_ne_nil _ h.nonempty] at hlast
  exact h.noSlash (List.mem_of_getLast? hlast)

/-- A name behind a path that is not empty: the path is put into normal form, the name stays. -/
theorem joinAll_name (hs : s ≠ []) (hn : Name n) :
    joinAll [s, n] = render (isAbsolute s)
      ((s.splitOn slash).foldl (PosixPath.climb (isAbsolute s)) [] ++ [n]) := by
  have hargs : joinNames ([s, n].filter fun a => a ≠ []) = s ++ slash :: n := by
    simp [hs, hn.nonempty, joinNames, List.intercalate]
  have habs : isAbsolute (s ++ slash :: n) = isAbsolute s := by
    obtain ⟨c, s, rfl⟩ := List.exists_cons_of_ne_nil hs
    rfl
  have hsplit : (s ++ slash :: n).splitOn slash = s.splitOn slash ++ [n] := by
    rw [List.splitOn_append_cons_self]
    congr 1
    have hone : (joinNames [n]).splitOn slash = [n] :=
      splitOn_joinNames (fun m hm => List.mem_singleton.mp hm ▸ hn.noSlash) (by simp)
    simpa [joinNames, List.intercalate] using hone
  have hlast : (s ++ slash :: n).getLast? ≠ some slash := by
    have := getLast?_append_name hn (s ++ [slash])
    rwa [List.append_assoc] at this
  rw [joinAll, hargs, normalize, habs, hsplit, List.foldl_append, List.foldl_cons, List.foldl_nil,
    climb_name hn]
  simp only [List.append_eq_nil_iff, List.cons_ne_self, and_false, if_false, if_neg hlast]

theorem render_ne_nil (h : Climbed rooted ns) (hne : ns ≠ []) : render rooted ns ≠ [] := by
  intro hnil
  have hsplit := splitOn_render h hne
  rw [hnil, List.splitOn_nil] at hsplit
  cases rooted with
  | true =>
    rw [if_pos rfl] at hsplit
    exact hne (List.cons.inj hsplit).2.symm
  | false =>
    have hmem : ([] : Text) ∈ ns := by
      rw [if_neg (by decide)] at hsplit
      rw [← hsplit]
      exact List.mem_singleton_self _
    exact h.nonempty hmem rfl

/-- A name behind a path in normal form. -/
theorem joinAll_render (h : Climbed rooted ns) (hne : ns ≠ []) (hn : Name n) :
    joinAll [render rooted ns, n] = render rooted (ns ++ [n]) := by
  rw [joinAll_name (render_ne_nil h hne) hn, isAbsolute_render h hne, splitOn_render h hne]
  cases rooted with
  | false => simp [h.again]
  | true =>
    have hroot : PosixPath.climb true [] [] = [] := rfl
    simp [hroot, h.again]

theorem joinNames_append {ms : List Text} (hns : ns ≠ []) (hms : ms ≠ []) :
    joinNames (ns ++ ms) = joinNames ns ++ slash :: joinNames ms := by
  induction ns with
  | nil => exact absurd rfl hns
  | cons n ns ih =>
    cases ns with
    | nil =>
      obtain ⟨m, ms, rfl⟩ := List.exists_cons_of_ne_nil hms
      simp [joinNames, List.intercalate]
    | cons n' ns =>
      have hstep : ∀ ls : List Text, joinNames (n :: n' :: ls) = n ++ slash :: joinNames (n' :: ls) := by
        intro ls
        simp [joinNames, List.intercalate]
      rw [List.cons_append, List.cons_append, hstep, ← List.cons_append, ih (by simp), hstep]
      simp

theorem Climbed.name_of_rooted (h : Climbed true ns) (hn : n ∈ ns) : Name n := by
  obtain ⟨k, names, rfl, hnames, hk⟩ := h
  simp only [hk rfl, List.replicate_zero, List.nil_append] at hn
  exact hnames n hn

theorem climbed_of_names (h : ∀ n ∈ ns, Name n) : Climbed true ns := ⟨0, ns, rfl, h, fun _ => rfl⟩

end Joining

end PosixPath
