/-!
# Kurul.Lts

Systems that move one action at a time. `next a s` is the state after `a`, if `a` can happen in `s`.

* `Reach`     — the states of the runs whose every step meets a condition.
* `Reach.inv` — what holds at the start and survives every such step holds along every run.
* `play`, `after` — runs that can be computed.
-/

namespace Lts

variable {σ α : Type} {next : α → σ → Option σ} {Ok : σ → α → Prop} {s₀ s s' : σ}

/-- The states reached from `s₀` by steps that meet a condition on the action and the state before
it. -/
inductive Reach (next : α → σ → Option σ) (Ok : σ → α → Prop) (s₀ : σ) : σ → Prop where
  | refl : Reach next Ok s₀ s₀
  | step {s s' : σ} {a : α} (h : Reach next Ok s₀ s) (hok : Ok s a) (hs : next a s = some s') :
      Reach next Ok s₀ s'

/-- An invariant: it holds at the start, and every step that meets the condition keeps it. -/
theorem Reach.inv {I : σ → Prop} (hinit : I s₀)
    (hstep : ∀ s a s', I s → Ok s a → next a s = some s' → I s') (h : Reach next Ok s₀ s) :
    I s := by
  induction h with
  | refl => exact hinit
  | step _ hok hs ih => exact hstep _ _ _ ih hok hs

theorem Reach.mono {Ok' : σ → α → Prop} (hok : ∀ s a, Ok s a → Ok' s a)
    (h : Reach next Ok s₀ s) : Reach next Ok' s₀ s := by
  induction h with
  | refl => exact .refl
  | step _ ho hs ih => exact ih.step (hok _ _ ho) hs

theorem Reach.trans {s'' : σ} (h : Reach next Ok s s') (h' : Reach next Ok s' s'') :
    Reach next Ok s s'' := by
  induction h' with
  | refl => exact h
  | step _ ho hs ih => exact ih.step ho hs

/-- The state a list of actions leads to, if each of them can happen and meets a test. -/
def play (next : α → σ → Option σ) (ok : σ → α → Bool) : List α → σ → Option σ
  | [], s => some s
  | a :: rest, s => if ok s a then (next a s).bind (play next ok rest) else none

/-- A list of actions that goes through is a run. -/
theorem reach_play {ok : σ → α → Bool} (hok : ∀ s a, ok s a = true → Ok s a) {acts : List α} :
    ∀ {s s'}, Reach next Ok s₀ s → play next ok acts s = some s' → Reach next Ok s₀ s' := by
  induction acts with
  | nil =>
    intro s s' hs h
    cases h
    exact hs
  | cons a rest ih =>
    intro s s' hs h
    simp only [play] at h
    split at h
    · rename_i ha
      obtain ⟨s₁, hnext, hrest⟩ := Option.bind_eq_some_iff.mp h
      exact ih (hs.step (hok s a ha) hnext) hrest
    · cases h

/-- Where a list of actions leads, if it goes through. -/
def after (next : α → σ → Option σ) (ok : σ → α → Bool) (acts : List α) (s : σ) : σ :=
  (play next ok acts s).getD s

theorem reach_after {ok : σ → α → Bool} (hok : ∀ s a, ok s a = true → Ok s a) {acts : List α}
    (h : (play next ok acts s₀).isSome = true) : Reach next Ok s₀ (after next ok acts s₀) := by
  obtain ⟨s, hs⟩ := Option.isSome_iff_exists.mp h
  rw [after, hs]
  exact reach_play hok .refl hs

/-- A list of actions that leads to a state that passes a test. -/
theorem exists_reach {ok : σ → α → Bool} (hok : ∀ s a, ok s a = true → Ok s a) {acts : List α}
    {test : σ → Bool} (h : (play next ok acts s₀).any test = true) :
    ∃ s, Reach next Ok s₀ s ∧ test s = true := by
  obtain ⟨s, hs, htest⟩ := (Option.any_eq_true _ _).mp h
  exact ⟨s, reach_play hok .refl hs, htest⟩

/-! ## Things under way -/

section UnderWay

variable {β : Type} {l : List β} {k : Nat} {x y new : β}

/-- A thing under way is the one taken out or one of the others. -/
theorem mem_or_mem_eraseIdx (hk : l[k]? = some x) (hy : y ∈ l) : y = x ∨ y ∈ l.eraseIdx k := by
  by_cases heq : y = x
  · exact .inl heq
  · obtain ⟨j, hj⟩ := List.getElem?_of_mem hy
    refine .inr (List.mem_eraseIdx_iff_getElem?.mpr ⟨j, fun hjk => heq ?_, hj⟩)
    rw [hjk, hk] at hj
    exact (Option.some.inj hj).symm

theorem mem_or_mem_set (hk : l[k]? = some x) (hy : y ∈ l) : y = x ∨ y ∈ l.set k new := by
  by_cases heq : y = x
  · exact .inl heq
  · obtain ⟨j, hj⟩ := List.getElem?_of_mem hy
    refine .inr (List.mem_iff_getElem?.mpr ⟨j, ?_⟩)
    rw [List.getElem?_set_ne, hj]
    intro hkj
    rw [← hkj, hk] at hj
    exact heq (Option.some.inj hj).symm

/-- What is put in the place of one thing leaves the others. -/
theorem mem_set_of_mem_eraseIdx (hy : y ∈ l.eraseIdx k) : y ∈ l.set k new := by
  obtain ⟨j, hjk, hj⟩ := List.mem_eraseIdx_iff_getElem?.mp hy
  exact List.mem_iff_getElem?.mpr ⟨j, by rwa [List.getElem?_set_ne (Ne.symm hjk)]⟩

/-- What replaces a thing under way is under way. -/
theorem mem_set_self (hk : l[k]? = some x) : new ∈ l.set k new :=
  List.mem_set (List.getElem?_eq_some_iff.mp hk).1 new

end UnderWay

end Lts
