import Kurul.Retention.SweepSystem

/-!
# Kurul.Retention.OrphanSweep

What the orphan sweep removes, and what it leaves.

* `Sweeping`      — how a sweep stands, kept by each of its steps and by everybody else's.
* `Inv`           — what holds along every run.
* `orphan_sweep`  — no claimed file and no young one is removed, and no old one is left that nobody
  claimed.
-/

namespace Kurul
namespace CleanupWorker

open Lts AttachmentService

/-! ## The sweep -/

section Sweep

variable {env : BackupEnv} {s s' : System} {sw : Sweep} {key : StorageKey}

/-- The keys that are still to be looked at before the next entry. -/
def Sweep.pending (sw : Sweep) : List StorageKey :=
  match sw.stage with
  | .listing | .flushing => sw.batch
  | .removing _ rest => rest
  | _ => []

/-- Files from here on are too young. -/
def Sweep.cut (env : BackupEnv) (sw : Sweep) : Instant := sw.asOf - orphanGraceMs env

/-- Of the files that were there when the directory was opened, those that still are have been named. -/
def Complete (s : System) (sw : Sweep) : Prop :=
  ∀ key ∈ sw.present, s.files.disk.get key = none ∨ key ∈ sw.listed

structure Sweeping (env : BackupEnv) (s : System) (sw : Sweep) : Prop where
  asOf : sw.asOf ≤ s.now
  cutoff : sw.cutoff = some (sw.cut env)
  aged : ∀ key ∈ sw.pending, Aged s (sw.cut env) key
  unclaimed : ∀ claimed rest, sw.stage = .removing claimed rest → ∀ key ∈ rest, key ∉ claimed →
    ¬ s.files.Claimed key
  asked : ∀ claimed rest, sw.stage = .removing claimed rest → ∀ key ∈ claimed, key ∈ s.claimed
  removed : ∀ r ∈ s.removals, Aged s (sw.cut env) r.key ∧ ¬ s.files.Claimed r.key ∧
    s.files.disk.get r.key = none ∧
    ∀ file, r.file = some file → file.modifiedAt < sw.cut env ∧ sw.asOf ≤ r.time
  count : sw.removed = s.removals.length
  distinct : (s.removals.map Removal.key ++ sw.pending).Nodup
  named : ∀ key ∈ s.removals.map Removal.key ++ sw.pending, key ∈ sw.listed
  taken : ∀ key ∈ sw.present, Taken s key
  present : ∀ key file, s.files.disk.get key = some file → file.modifiedAt < sw.cut env →
    key ∈ sw.present
  claims : ∀ key, s.files.Claimed key → key ∈ s.claimed
  /-- An old file that was named is to be looked at still, or somebody claimed it. -/
  seen : sw.stage ≠ .threw → ∀ key ∈ sw.listed, ∀ file, s.files.disk.get key = some file →
    file.modifiedAt < sw.cut env → key ∈ sw.pending ∨ key ∈ s.claimed
  last : sw.last = true → Complete s sw ∨ ceiling ≤ sw.removed
  returned : ∀ n, sw.stage = .returned n → n = sw.removed ∧ (Complete s sw ∨ ceiling ≤ n)

theorem Aged.taken {c : Instant} (h : Aged s c key) : Taken s key :=
  ⟨h.1, fun u hu hkey => (h.2.2 u hu hkey).1⟩

/-- What the others do is nothing to a sweep. -/
theorem Sweeping.aside (h : Sweeping env s sw) (ha : Aside (sw.cut env) s s') : Sweeping env s' sw := by
  have hcomplete : Complete s sw → Complete s' sw := fun hc key hkey =>
    (hc key hkey).imp (ha.gone key (h.taken key hkey)) id
  exact {
    asOf := le_trans h.asOf ha.now
    cutoff := h.cutoff
    aged := fun key hkey => ha.aged key (h.aged key hkey)
    unclaimed := fun claimed rest hstage key hkey hnot =>
      ha.unclaimed key (h.aged key (by rw [Sweep.pending, hstage]; exact hkey))
        (h.unclaimed claimed rest hstage key hkey hnot)
    asked := fun claimed rest hstage key hkey =>
      ha.claimed key (h.asked claimed rest hstage key hkey)
    removed := fun r hr => by
      rw [ha.removals] at hr
      obtain ⟨haged, hnot, hgone, hfile⟩ := h.removed r hr
      exact ⟨ha.aged _ haged, ha.unclaimed _ haged hnot, ha.gone _ haged.taken hgone, hfile⟩
    count := by rw [ha.removals]; exact h.count
    distinct := by rw [ha.removals]; exact h.distinct
    named := by rw [ha.removals]; exact h.named
    taken := fun key hkey => ha.taken key (h.taken key hkey)
    present := fun key file hget hold => h.present key file (ha.old key file hget hold) hold
    claims := ha.claims h.claims
    seen := fun hstage key hkey file hget hold =>
      (h.seen hstage key hkey file (ha.old key file hget hold) hold).imp id (ha.claimed key)
    last := fun hlast => (h.last hlast).imp hcomplete id
    returned := fun n hn => ⟨(h.returned n hn).1, (h.returned n hn).2.imp hcomplete id⟩ }

/-- The state of the sweep is nothing to the files. -/
theorem aside_sweep {c : Instant} (sw : Option Sweep) : Aside c s { s with sweep := sw } where
  removals := rfl
  now := le_rfl
  old _ _ h _ := h
  aged _ h := h
  gone _ _ h := h
  unclaimed _ _ h := h
  taken _ h := h
  claimed _ h := h
  claims h := h

theorem Sweeping.flushed (h : Sweeping env s sw) (hstage : sw.stage ≠ .threw) (hp : sw.pending = []) :
    Sweeping env s sw.flushed := by
  have hlisted : sw.flushed.listed = sw.listed := by unfold Sweep.flushed; split <;> rfl
  have hpresent : sw.flushed.present = sw.present := by unfold Sweep.flushed; split <;> rfl
  have hcount : sw.flushed.removed = sw.removed := by unfold Sweep.flushed; split <;> rfl
  have hcut : sw.flushed.cut env = sw.cut env := by unfold Sweep.flushed; split <;> rfl
  have hpending : sw.flushed.pending = [] := by unfold Sweep.flushed; split <;> rfl
  have hcomplete : Complete s sw.flushed ↔ Complete s sw := by
    rw [Complete, hpresent, hlisted, Complete]
  have hstages : (∃ n, sw.flushed.stage = .returned n ∧ n = sw.removed ∧
      (sw.last = true ∨ ceiling ≤ sw.removed)) ∨ sw.flushed.stage = .listing := by
    unfold Sweep.flushed
    split
    · rename_i hend
      exact .inl ⟨_, rfl, rfl, by simpa using hend⟩
    · exact .inr rfl
  have hremoving : ∀ claimed rest, sw.flushed.stage ≠ .removing claimed rest := by
    intro claimed rest hst
    rcases hstages with ⟨n, hn, _⟩ | hl
    · rw [hn] at hst; cases hst
    · rw [hl] at hst; cases hst
  exact {
    asOf := by unfold Sweep.flushed; split <;> exact h.asOf
    cutoff := by
      rw [hcut]
      unfold Sweep.flushed
      split <;> exact h.cutoff
    aged := fun key hkey => by rw [hpending] at hkey; cases hkey
    unclaimed := fun claimed rest hst => absurd hst (hremoving claimed rest)
    asked := fun claimed rest hst => absurd hst (hremoving claimed rest)
    removed := fun r hr => by
      have hasOf : sw.flushed.asOf = sw.asOf := by unfold Sweep.flushed; split <;> rfl
      rw [hcut, hasOf]
      exact h.removed r hr
    count := hcount.trans h.count
    distinct := by
      have hd := h.distinct
      rw [hp] at hd
      rwa [hpending]
    named := fun key hkey => by
      rw [hpending] at hkey
      rw [hlisted]
      exact h.named key (by rwa [hp])
    taken := by rw [hpresent]; exact h.taken
    present := by rw [hpresent, hcut]; exact h.present
    claims := h.claims
    seen := fun _ key hkey file hget hold => by
      rw [hlisted] at hkey
      rw [hcut] at hold
      rw [hpending, ← hp]
      exact h.seen hstage key hkey file hget hold
    last := fun hlast => by
      have hlast' : sw.last = true := by
        unfold Sweep.flushed at hlast
        split at hlast <;> exact hlast
      rw [hcomplete, hcount]
      exact h.last hlast'
    returned := fun n hn => by
      rcases hstages with ⟨m, hm, hmcount, hwhy⟩ | hl
      · rw [hm] at hn
        cases hn
        refine ⟨hmcount.trans hcount.symm, ?_⟩
        rw [hcomplete, hmcount]
        rcases hwhy with hlast | hceil
        · exact h.last hlast
        · exact .inr hceil
      · rw [hl] at hn
        cases hn }

/-- A key is set aside for the batch, or passed over as too young. -/
structure Names (key : StorageKey) (took : Bool) (sw sw' : Sweep) : Prop where
  asOf : sw'.asOf = sw.asOf
  cutoff : sw'.cutoff = sw.cutoff
  present : sw'.present = sw.present
  removed : sw'.removed = sw.removed
  listed : sw'.listed = sw.listed ++ [key]
  pending : sw'.pending = if took then sw.pending ++ [key] else sw.pending
  stage : sw'.stage = .listing ∨ sw'.stage = .flushing
  last : sw'.last = true → sw.last = true ∨ ceiling ≤ sw.removed

theorem list_names (modifiedAt : Instant) (hstage : sw.stage = .listing) :
    Names key (!young sw.cutoff modifiedAt) sw (sw.list key modifiedAt) := by
  have hp : sw.pending = sw.batch := by rw [Sweep.pending, hstage]
  unfold Sweep.list
  dsimp only
  split
  · rename_i hyoung
    exact ⟨rfl, rfl, rfl, rfl, rfl, by simp [Sweep.pending, hstage, hyoung], .inl hstage, .inl⟩
  · rename_i hold
    split
    · exact ⟨rfl, rfl, rfl, rfl, rfl, by simp [Sweep.pending, hstage, hold], .inr rfl, .inl⟩
    · split
      · rename_i hceil
        exact ⟨rfl, rfl, rfl, rfl, rfl, by simp [Sweep.pending, hstage, hold], .inr rfl,
          fun _ => .inr hceil⟩
      · exact ⟨rfl, rfl, rfl, rfl, rfl, by simp [Sweep.pending, hstage, hold], .inl hstage, .inl⟩

theorem Sweeping.list (htidy : s.Tidy) (h : Sweeping env s sw) (hstage : sw.stage = .listing)
    {file : StoredFile} (hget : s.files.disk.get key = some file)
    (hnew : key ∉ sw.listed) : Sweeping env s (sw.list key file.modifiedAt) := by
  have hn : Names key (!young sw.cutoff file.modifiedAt) sw (sw.list key file.modifiedAt) :=
    list_names file.modifiedAt hstage
  have hcut : (sw.list key file.modifiedAt).cut env = sw.cut env := by
    rw [Sweep.cut, hn.asOf, Sweep.cut]
  have hyoung : young sw.cutoff file.modifiedAt = true ↔ sw.cut env ≤ file.modifiedAt := by
    rw [h.cutoff]
    simp [young]
  have hmem : ∀ k ∈ (sw.list key file.modifiedAt).pending, k ∈ sw.pending ∨
      k = key ∧ file.modifiedAt < sw.cut env := by
    intro k hk
    rw [hn.pending] at hk
    split at hk
    · rename_i htook
      rcases List.mem_append.mp hk with hk | hk
      · exact .inl hk
      · refine .inr ⟨List.mem_singleton.mp hk, not_le.mp fun hle => ?_⟩
        rw [hyoung.mpr hle] at htook
        cases htook
    · exact .inl hk
  have hsub : ∀ k ∈ sw.pending, k ∈ (sw.list key file.modifiedAt).pending := by
    intro k hk
    rw [hn.pending]
    split
    · exact List.mem_append_left _ hk
    · exact hk
  have hcomplete : Complete s sw → Complete s (sw.list key file.modifiedAt) := by
    intro hc k hk
    rw [hn.present] at hk
    rw [hn.listed]
    exact (hc k hk).imp id (List.mem_append_left _)
  exact {
    asOf := by rw [hn.asOf]; exact h.asOf
    cutoff := by rw [hcut, hn.cutoff]; exact h.cutoff
    aged := fun k hk => by
      rw [hcut]
      rcases hmem k hk with hk | ⟨rfl, hold⟩
      · exact h.aged k hk
      · refine ⟨htidy.disk k file hget, fun f hf => ?_, fun u hu hkey => ⟨fun hwrite => ?_, fun t ht => ?_⟩⟩
        · rw [hget] at hf
          cases hf
          exact hold
        · rw [← hkey, htidy.unwritten u hu hwrite] at hget
          cases hget
        · have hat := htidy.written u hu file (by rw [hkey]; exact hget)
          rw [ht] at hat
          cases hat
          exact hold
    unclaimed := fun claimed rest hst => by
      rcases hn.stage with hl | hl <;> rw [hl] at hst <;> cases hst
    asked := fun claimed rest hst => by
      rcases hn.stage with hl | hl <;> rw [hl] at hst <;> cases hst
    removed := fun r hr => by
      rw [hcut, hn.asOf]
      exact h.removed r hr
    count := by rw [hn.removed]; exact h.count
    distinct := by
      rw [hn.pending]
      split
      · rw [← List.append_assoc]
        refine List.nodup_append.mpr ⟨h.distinct, List.nodup_singleton _, fun k hk k' hk' heq => ?_⟩
        rw [List.mem_singleton.mp hk'] at heq
        exact hnew (heq ▸ h.named k hk)
      · exact h.distinct
    named := fun k hk => by
      rw [hn.listed]
      rcases List.mem_append.mp hk with hk | hk
      · exact List.mem_append_left _ (h.named k (List.mem_append_left _ hk))
      · rcases hmem k hk with hk | ⟨rfl, _⟩
        · exact List.mem_append_left _ (h.named k (List.mem_append_right _ hk))
        · exact List.mem_append_right _ List.mem_cons_self
    taken := by rw [hn.present]; exact h.taken
    present := by rw [hn.present, hcut]; exact h.present
    claims := h.claims
    seen := fun _ k hk f hf hold => by
      rw [hcut] at hold
      rw [hn.listed] at hk
      rcases List.mem_append.mp hk with hk | hk
      · exact (h.seen (by simp [hstage]) k hk f hf hold).imp (hsub k) id
      · rw [List.mem_singleton.mp hk] at hf ⊢
        rw [hget] at hf
        cases hf
        refine .inl ?_
        have hnot : young sw.cutoff file.modifiedAt = false :=
          Bool.eq_false_iff.mpr fun hy => not_lt.mpr (hyoung.mp hy) hold
        rw [hn.pending, hnot]
        exact List.mem_append_right _ List.mem_cons_self
    last := fun hlast => by
      rw [hn.removed]
      rcases hn.last hlast with hlast | hceil
      · exact (h.last hlast).imp hcomplete id
      · exact .inr hceil
    returned := fun n hst => by
      rcases hn.stage with hl | hl <;> rw [hl] at hst <;> cases hst }

/-- Whoever is at the end of the directory is complete. -/
theorem Sweeping.endOfDirectory (h : Sweeping env s sw) (hstage : sw.stage = .listing)
    (hall : Complete s sw) : Sweeping env s { sw with last := true, stage := .flushing } := by
  have hp : sw.pending = sw.batch := by rw [Sweep.pending, hstage]
  exact {
    asOf := h.asOf
    cutoff := h.cutoff
    aged := fun key hkey => h.aged key (by rw [hp]; exact hkey)
    unclaimed := fun _ _ hst => by cases hst
    asked := fun _ _ hst => by cases hst
    removed := h.removed
    count := h.count
    distinct := by
      have hd := h.distinct
      rwa [hp] at hd
    named := fun key hkey => h.named key (by rw [hp]; exact hkey)
    taken := h.taken
    present := h.present
    claims := h.claims
    seen := fun _ key hkey file hget hold =>
      (h.seen (by simp [hstage]) key hkey file hget hold).imp (fun hmem => by rwa [hp] at hmem) id
    last := fun _ => .inl hall
    returned := fun _ hst => by cases hst }

/-- The claims are asked for once, before the loop over the batch. -/
theorem Sweeping.query (h : Sweeping env s sw) (hstage : sw.stage = .flushing) :
    Sweeping env s { sw with
      stage := .removing (sw.batch.filter fun key => decide (s.files.Claimed key)) sw.batch } := by
  have hp : sw.pending = sw.batch := by rw [Sweep.pending, hstage]
  exact {
    asOf := h.asOf
    cutoff := h.cutoff
    aged := fun key hkey => h.aged key (by rw [hp]; exact hkey)
    unclaimed := fun claimed rest hst key hkey hnot => by
      cases hst
      exact fun hclaimed => hnot (List.mem_filter.mpr ⟨hkey, decide_eq_true hclaimed⟩)
    asked := fun claimed rest hst key hkey => by
      cases hst
      exact h.claims key (of_decide_eq_true (List.mem_filter.mp hkey).2)
    removed := h.removed
    count := h.count
    distinct := by
      have hd := h.distinct
      rwa [hp] at hd
    named := fun key hkey => h.named key (by rw [hp]; exact hkey)
    taken := h.taken
    present := h.present
    claims := h.claims
    seen := fun _ key hkey file hget hold =>
      (h.seen (by simp [hstage]) key hkey file hget hold).imp (fun hmem => by rwa [hp] at hmem) id
    last := h.last
    returned := fun _ hst => by cases hst }

/-- A claimed key is passed over. -/
theorem Sweeping.skip {claimed rest : List StorageKey} (h : Sweeping env s sw)
    (hstage : sw.stage = .removing claimed (key :: rest)) (hmem : key ∈ claimed) :
    Sweeping env s { sw with stage := .removing claimed rest } := by
  have hp : sw.pending = key :: rest := by rw [Sweep.pending, hstage]
  have hsub : ∀ k ∈ rest, k ∈ sw.pending := fun k hk => by rw [hp]; exact List.mem_cons_of_mem _ hk
  exact {
    asOf := h.asOf
    cutoff := h.cutoff
    aged := fun k hk => h.aged k (hsub k hk)
    unclaimed := fun claimed' rest' hst k hk hnot => by
      cases hst
      exact h.unclaimed claimed (key :: rest) hstage k (List.mem_cons_of_mem _ hk) hnot
    asked := fun claimed' rest' hst k hk => by
      cases hst
      exact h.asked claimed (key :: rest) hstage k hk
    removed := h.removed
    count := h.count
    distinct := by
      refine h.distinct.sublist ((List.Sublist.refl _).append ?_)
      rw [hp]
      exact List.sublist_cons_self _ _
    named := fun k hk => by
      rcases List.mem_append.mp hk with hk | hk
      · exact h.named k (List.mem_append_left _ hk)
      · exact h.named k (List.mem_append_right _ (hsub k hk))
    taken := h.taken
    present := h.present
    claims := h.claims
    seen := fun _ k hk file hget hold => by
      rcases h.seen (by simp [hstage]) k hk file hget hold with hpending | hc
      · rw [hp] at hpending
        rcases List.mem_cons.mp hpending with rfl | hrest
        · exact .inr (h.asked claimed _ hstage _ hmem)
        · exact .inl hrest
      · exact .inr hc
    last := h.last
    returned := fun _ hst => by cases hst }

/-- Any other is removed. -/
theorem Sweeping.remove {claimed rest : List StorageKey} (h : Sweeping env s sw)
    (hstage : sw.stage = .removing claimed (key :: rest)) (hnot : key ∉ claimed) :
    Sweeping env { s with
      files := s.files.remove key
      removals := s.removals ++ [⟨key, s.files.disk.get key, s.now⟩] }
      { sw with removed := sw.removed + 1, stage := .removing claimed rest } := by
  have hp : sw.pending = key :: rest := by rw [Sweep.pending, hstage]
  have hsub : ∀ k ∈ rest, k ∈ sw.pending := fun k hk => by rw [hp]; exact List.mem_cons_of_mem _ hk
  have hkey : key ∈ sw.pending := by rw [hp]; exact List.mem_cons_self
  have hless : ∀ {k file}, (s.files.remove key).disk.get k = some file →
      s.files.disk.get k = some file := by
    intro k file hget
    rw [Files.get_remove] at hget
    split at hget
    · cases hget
    · exact hget
  have hgone : ∀ {k}, s.files.disk.get k = none → (s.files.remove key).disk.get k = none := by
    intro k hnone
    rw [Files.get_remove, hnone, ite_self]
  have haged : ∀ {k}, Aged s (sw.cut env) k → Aged { s with
      files := s.files.remove key
      removals := s.removals ++ [⟨key, s.files.disk.get key, s.now⟩] } (sw.cut env) k :=
    fun ha => ⟨ha.1, fun file hget => ha.2.1 file (hless hget), ha.2.2⟩
  have hcomplete : Complete s sw → ∀ k ∈ sw.present,
      (s.files.remove key).disk.get k = none ∨ k ∈ sw.listed :=
    fun hc k hk => (hc k hk).imp hgone id
  -- the key has changed sides
  have hkeys : (s.removals ++ [(⟨key, s.files.disk.get key, s.now⟩ : Removal)]).map Removal.key ++ rest =
      s.removals.map Removal.key ++ key :: rest := by simp
  exact {
    asOf := h.asOf
    cutoff := h.cutoff
    aged := fun k hk => haged (h.aged k (hsub k hk))
    unclaimed := fun claimed' rest' hst k hk hk' => by
      cases hst
      exact h.unclaimed claimed (key :: rest) hstage k (List.mem_cons_of_mem _ hk) hk'
    asked := fun claimed' rest' hst k hk => by
      cases hst
      exact h.asked claimed (key :: rest) hstage k hk
    removed := fun r hr => by
      rcases List.mem_append.mp hr with hr | hr
      · obtain ⟨ha, hunclaimed, hnone, hfile⟩ := h.removed r hr
        exact ⟨haged ha, hunclaimed, hgone hnone, hfile⟩
      · rw [List.mem_singleton.mp hr]
        refine ⟨haged (h.aged key hkey),
          h.unclaimed claimed (key :: rest) hstage key List.mem_cons_self hnot, ?_, fun file hget => ?_⟩
        · show (s.files.remove key).disk.get key = none
          rw [Files.get_remove, if_pos rfl]
        · exact ⟨(h.aged key hkey).2.1 file hget, h.asOf⟩
    count := by rw [List.length_append, ← h.count]; rfl
    distinct := by
      have hd := h.distinct
      rw [hp] at hd
      exact (congrArg List.Nodup hkeys).mpr hd
    named := fun k hk => by
      have hk := (congrArg (k ∈ ·) hkeys).mp hk
      exact h.named k (by rwa [hp])
    taken := h.taken
    present := fun k file hget hold => h.present k file (hless hget) hold
    claims := h.claims
    seen := fun _ k hk file hget hold => by
      rcases h.seen (by simp [hstage]) k hk file (hless hget) hold with hpending | hc
      · rw [hp] at hpending
        rcases List.mem_cons.mp hpending with rfl | hrest
        · rw [Files.get_remove, if_pos rfl] at hget
          cases hget
        · exact .inl hrest
      · exact .inr hc
    last := fun hlast => (h.last hlast).imp hcomplete fun hceil => Nat.le_succ_of_le hceil
    returned := fun _ hst => by cases hst }

theorem Sweeping.fail (h : Sweeping env s sw) : Sweeping env s { sw with stage := .threw } where
  asOf := h.asOf
  cutoff := h.cutoff
  aged _ hk := by cases hk
  unclaimed _ _ hst := by cases hst
  asked _ _ hst := by cases hst
  removed := h.removed
  count := h.count
  distinct := h.distinct.sublist ((List.Sublist.refl _).append (List.nil_sublist _))
  named k hk := by
    rcases List.mem_append.mp hk with hk | hk
    · exact h.named k (List.mem_append_left _ hk)
    · cases hk
  taken := h.taken
  present := h.present
  claims := h.claims
  seen hst := absurd rfl hst
  last := h.last
  returned _ hst := by cases hst

/-- A sweep begins with what there is. -/
theorem Sweeping.start (htidy : s.Tidy) {asOf : Instant} {opens : Bool} (hasOf : asOf ≤ s.now)
    (hdate : (date (asOf - orphanGraceMs env)).isSome = true)
    (hunclaimed : ∀ key, s.files.Claimed key → key ∈ s.claimed) (hnone : s.removals = []) :
    Sweeping env s (.start env asOf opens s.files) := by
  have hpending : (Sweep.start env asOf opens s.files).pending = [] := by
    unfold Sweep.start Sweep.pending
    cases opens <;> rfl
  have hpresent : ∀ key, key ∈ (Sweep.start env asOf opens s.files).present ↔
      ∃ file, s.files.disk.get key = some file := by
    intro key
    simp only [JsMap.get_eq_some]
    constructor
    · intro hkey
      obtain ⟨⟨_, file⟩, hmem, rfl⟩ := List.mem_map.mp hkey
      exact ⟨file, hmem⟩
    · rintro ⟨file, hmem⟩
      exact List.mem_map.mpr ⟨_, hmem, rfl⟩
  have hstage : (Sweep.start env asOf opens s.files).stage = .listing ∨
      (Sweep.start env asOf opens s.files).stage = .unread := by
    cases opens
    · exact .inr rfl
    · exact .inl rfl
  have hremoving : ∀ claimed rest,
      (Sweep.start env asOf opens s.files).stage ≠ .removing claimed rest := by
    intro claimed rest hst
    rcases hstage with hl | hl <;> rw [hl] at hst <;> cases hst
  exact {
    asOf := hasOf
    cutoff := by
      unfold Sweep.start
      unfold date at hdate ⊢
      split at hdate
      · rename_i habs
        exact if_pos habs
      · cases hdate
    aged := fun key hkey => by rw [hpending] at hkey; cases hkey
    unclaimed := fun claimed rest hst => absurd hst (hremoving claimed rest)
    asked := fun claimed rest hst => absurd hst (hremoving claimed rest)
    removed := fun r hr => by rw [hnone] at hr; cases hr
    count := by rw [hnone]; rfl
    distinct := by rw [hnone, hpending]; exact List.nodup_nil
    named := fun key hkey => by rw [hnone, hpending] at hkey; cases hkey
    taken := fun key hkey => by
      obtain ⟨file, hget⟩ := (hpresent key).mp hkey
      refine ⟨htidy.disk key file hget, fun u hu hukey hwrite => ?_⟩
      rw [← hukey, htidy.unwritten u hu hwrite] at hget
      cases hget
    present := fun key file hget _ => (hpresent key).mpr ⟨file, hget⟩
    claims := hunclaimed
    seen := fun _ key hkey => by cases hkey
    last := fun hlast => by cases hlast
    returned := fun n hst => by rcases hstage with hl | hl <;> rw [hl] at hst <;> cases hst }

/-! ## Runs -/

/-- What holds along every run. -/
structure Inv (env : BackupEnv) (s : System) : Prop where
  tidy : s.Tidy
  before : s.sweep = none → s.removals = []
  sweeping : ∀ sw, s.sweep = some sw → Sweeping env s sw

theorem System.Initial.inv (h : s.Initial) : Inv env s where
  tidy := h.tidy
  before _ := h.removals
  sweeping sw hsw := by rw [h.sweep] at hsw; cases hsw

theorem day_le_grace : msPerDay ≤ orphanGraceMs env := le_max_right _ _

/-- A step of somebody else. -/
theorem Inv.aside (h : Inv env s) (htidy : s'.Tidy) (hsweep : s'.sweep = s.sweep)
    (ha : ∀ c, c + msPerDay ≤ s.now → Aside c s s') : Inv env s' where
  tidy := htidy
  before hnone := by
    have haside := ha (s.now - msPerDay) (by omega)
    rw [haside.removals]
    exact h.before (hsweep.symm.trans hnone)
  sweeping sw hsw := by
    have hs := h.sweeping sw (hsweep.symm.trans hsw)
    refine hs.aside (ha _ ?_)
    have hasOf := hs.asOf
    have hday : msPerDay ≤ orphanGraceMs env := day_le_grace
    unfold Sweep.cut Instant at *
    omega

/-- A step of the sweep leaves it as a sweep. -/
theorem Inv.of_sweeping (h : Inv env s) {sw' : Sweep} (hs : Sweeping env s sw') :
    Inv env { s with sweep := some sw' } where
  tidy := h.tidy.fewer (fun _ _ hget => hget) (fun _ hc => hc) rfl rfl
  before hnone := by cases hnone
  sweeping sw hsw := by
    cases hsw
    exact hs.aside (aside_sweep _)

theorem Inv.sweepNext (h : Inv env s) (hsw : s.sweep = some sw) {a : FileAct}
    (hs : s.sweepNext a sw = some s') : Inv env s' := by
  have hsweeping := h.sweeping sw hsw
  unfold System.sweepNext at hs
  split at hs
  · -- a file is named
    rename_i key hstage
    split at hs
    · cases hs
    · rename_i hnew
      obtain ⟨file, hget, rfl⟩ := Option.map_eq_some_iff.mp hs
      exact h.of_sweeping (hsweeping.list h.tidy hstage hget hnew)
  · rename_i hstage
    split at hs
    · rename_i hall
      cases hs
      refine h.of_sweeping (hsweeping.endOfDirectory hstage fun key hkey => ?_)
      simpa using List.all_eq_true.mp hall key hkey
    · cases hs
  · rename_i hstage
    split at hs
    · rename_i hempty
      cases hs
      refine h.of_sweeping (hsweeping.flushed (by simp [hstage]) ?_)
      rw [Sweep.pending, hstage]
      exact hempty
    · cases hs
      exact h.of_sweeping (hsweeping.query hstage)
  · rename_i hstage
    cases hs
    refine h.of_sweeping (hsweeping.flushed (by simp [hstage]) ?_)
    rw [Sweep.pending, hstage]
  · rename_i claimed key rest hstage
    split at hs
    · rename_i hmem
      cases hs
      exact h.of_sweeping (hsweeping.skip hstage hmem)
    · rename_i hnot
      cases hs
      have hless : ∀ {k file}, (s.files.remove key).disk.get k = some file →
          s.files.disk.get k = some file := by
        intro k file hget
        rw [Files.get_remove] at hget
        split at hget
        · cases hget
        · exact hget
      exact {
        tidy := h.tidy.fewer (fun _ _ hget => hless hget) (fun _ hc => hc) rfl rfl
        before := fun hnone => by cases hnone
        sweeping := fun sw' hsw' => by
          cases hsw'
          exact (hsweeping.remove hstage hnot).aside (aside_sweep _) }
  · cases hs
    exact h.of_sweeping hsweeping.fail
  · cases hs
    exact h.of_sweeping hsweeping.fail
  · cases hs
    exact h.of_sweeping hsweeping.fail
  · cases hs

/-- Every step that is promised keeps the invariant. -/
theorem Inv.next (h : Inv env s) {a : FileAct} (hok : Promised env s a)
    (hs : s.next env a = some s') : Inv env s' := by
  cases a with
  | tick d =>
    cases hs
    exact h.aside (h.tidy.fewer (fun _ _ hget => hget) (fun _ hc => hc) rfl rfl) rfl
      fun _ _ => aside_tick d
  | beginUpload u =>
    obtain ⟨hstage, hat, hfresh⟩ := hok
    cases hs
    exact h.aside (tidy_begin h.tidy hstage hfresh) rfl fun _ _ => aside_begin hfresh
  | upload i fate =>
    obtain ⟨u, hi, hs⟩ := Option.bind_eq_some_iff.mp hs
    obtain ⟨⟨u', w'⟩, hstep, rfl⟩ := Option.map_eq_some_iff.mp hs
    obtain ⟨hid, hdid⟩ := Upload.step_did hstep
    refine h.aside (tidy_upload h.tidy hi hid hdid) rfl fun c hc =>
      aside_upload h.tidy hi hid hdid ?_ fun htx hgoes t ht => ?_
    · refine le_trans ?_ hc
      unfold msPerDay Instant at *
      omega
    · -- the commit is less than a day behind the write
      have hcommit : s.now < t + msPerDay := by
        rw [hgoes] at hok
        exact hok u hi htx t ht
      unfold Instant at *
      omega
  | deleteRow id =>
    cases hs
    refine h.aside (h.tidy.fewer (fun _ _ hget => hget) (fun key hc => ?_) rfl rfl) rfl
      fun _ _ => aside_deleteRow id
    obtain ⟨row, hrow, hkey⟩ := hc
    exact ⟨row, (List.mem_filter.mp hrow).1, hkey⟩
  | startSweep asOf opens =>
    obtain ⟨hasOf, hdate⟩ := hok
    simp only [System.next] at hs
    split at hs
    · cases hs
      have htidy : ({ s with removals := [], claimed := Files.claims s.files } : System).Tidy :=
        h.tidy.fewer (fun _ _ hget => hget) (fun _ hc => hc) rfl rfl
      exact {
        tidy := htidy.fewer (fun _ _ hget => hget) (fun _ hc => hc) rfl rfl
        before := fun hnone => by cases hnone
        sweeping := fun sw' hsw' => by
          cases hsw'
          exact (Sweeping.start htidy hasOf hdate (fun _ hc => mem_claims.mpr hc) rfl).aside
            (aside_sweep _) }
    · cases hs
  | list key | endOfDirectory | query | remove | fail =>
    obtain ⟨sw, hsw, hs⟩ := Option.bind_eq_some_iff.mp hs
    exact h.sweepNext hsw hs

/-- Along every run: what a sweep has removed is claimed by no row, was older than the grace period,
hence than every dump that was not, and when the sweep has returned below its ceiling every old file it
has left was claimed at some time since it began. -/
theorem orphan_sweep (env : BackupEnv) {s₀ s : System} (h₀ : s₀.Initial)
    (hrun : Reach (System.next env) (Promised env) s₀ s) :
    (∀ r ∈ s.removals, ¬ s.files.Claimed r.key) ∧
    (∀ r ∈ s.removals, ∀ file, r.file = some file →
      file.modifiedAt + orphanGraceMs env < r.time ∧
      ∀ dump : Instant, r.time - max env.interval 0 * max env.keep 1 * 1000 ≤ dump →
        file.modifiedAt < dump) ∧
    ∀ sw n, s.sweep = some sw → sw.stage = .returned n →
      n = s.removals.length ∧ (s.removals.map Removal.key).Nodup ∧
      (∀ r ∈ s.removals, s.files.disk.get r.key = none) ∧
      (n < ceiling → ∀ key file, s.files.disk.get key = some file →
        file.modifiedAt < sw.asOf - orphanGraceMs env → key ∈ s.claimed) := by
  have hinv : Inv env s := hrun.inv h₀.inv fun s a s' hi hok hs => hi.next hok hs
  -- there is nothing removed without a sweep
  have hremoval : ∀ r ∈ s.removals, ∃ sw, s.sweep = some sw := by
    intro r hr
    cases hsw : s.sweep with
    | none => rw [hinv.before hsw] at hr; cases hr
    | some sw => exact ⟨sw, rfl⟩
  refine ⟨fun r hr => ?_, fun r hr file hfile => ?_, fun sw n hsw hreturned => ?_⟩
  · obtain ⟨sw, hsw⟩ := hremoval r hr
    exact ((hinv.sweeping sw hsw).removed r hr).2.1
  · obtain ⟨sw, hsw⟩ := hremoval r hr
    obtain ⟨hold, htime⟩ := ((hinv.sweeping sw hsw).removed r hr).2.2.2 file hfile
    have hgrace : max env.interval 0 * max env.keep 1 * 1000 ≤ orphanGraceMs env := le_max_left _ _
    unfold Sweep.cut Instant at *
    exact ⟨by omega, fun dump hdump => by omega⟩
  · have hs := hinv.sweeping sw hsw
    have hp : sw.pending = [] := by rw [Sweep.pending, hreturned]
    obtain ⟨hn, hcomplete⟩ := hs.returned n hreturned
    refine ⟨hn.trans hs.count, ?_, fun r hr => (hs.removed r hr).2.2.1, fun hbelow key file hget hold => ?_⟩
    · have hd := hs.distinct
      rwa [hp, List.append_nil] at hd
    · have hc : Complete s sw := hcomplete.resolve_right (not_le.mpr hbelow)
      have hlisted : key ∈ sw.listed := by
        rcases hc key (hs.present key file hget hold) with hnone | hlisted
        · rw [hget] at hnone; cases hnone
        · exact hlisted
      rcases hs.seen (by simp [hreturned]) key hlisted file hget hold with hpending | hclaimed
      · rw [hp] at hpending; cases hpending
      · exact hclaimed

/-- Two files of eight days, and a row for one of them. -/
def twoOld : System where
  now := 8 * msPerDay
  files := {
    disk := .ofEntries [(js "ab/cd/1", ⟨[1], 0⟩), (js "ab/cd/2", ⟨[2], 0⟩)]
    rows := [⟨js "2", js "t", js "ada", .file, js "kept.txt", some (js "ab/cd/2"), none, none, none, 0⟩] }
  uploads := []
  used := [js "ab/cd/1", js "ab/cd/2"]
  sweep := none
  removals := []
  claimed := []

theorem twoOld_initial : twoOld.Initial where
  uploads := rfl
  sweep := rfl
  removals := rfl
  disk key file hget := by
    have hall : ∀ e ∈ twoOld.files.disk.entries.rows, e.1 ∈ twoOld.used := by decide +kernel
    exact hall _ (JsMap.get_eq_some.mp hget)
  rows key h := by
    have hall : ∀ row ∈ twoOld.files.rows, ∀ key ∈ row.storageKey, key ∈ twoOld.used := by
      decide +kernel
    obtain ⟨row, hrow, hkey⟩ := h
    exact hall row hrow key hkey

/-- The one without a row is removed. -/
theorem twoOld_swept : ∃ s, Reach (System.next .default) (Promised .default) twoOld s ∧
    s.removals.map Removal.key = [js "ab/cd/1"] ∧ s.files.disk.entries.rows.length = 1 ∧
    ∀ r ∈ s.removals, ¬ s.files.Claimed r.key := by
  let acts : List FileAct := [.startSweep (8 * msPerDay) true, .list (js "ab/cd/2"),
    .list (js "ab/cd/1"), .endOfDirectory, .query, .remove, .remove, .remove]
  have hrun : Reach (System.next .default) (Promised .default) twoOld
      (after (System.next .default) (promised .default) acts twoOld) :=
    reach_after (fun _ _ => promised_ok) (by decide +kernel)
  exact ⟨_, hrun, by decide +kernel, by decide +kernel,
    (orphan_sweep .default twoOld_initial hrun).1⟩

end Sweep

end CleanupWorker
end Kurul
