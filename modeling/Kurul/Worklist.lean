import Mathlib.Data.List.Nodup
import Mathlib.Data.List.Dedup
import Mathlib.Data.List.Perm.Subperm

/-!
# Kurul.Worklist

A worklist that remembers keys. A node goes on the stack when its key is new; a round takes the last
node put there and puts what it expands to. Two nodes of one key count as one: the first is expanded,
the other never is.

* `exists_run`      — with finitely many keys in sight the loop ends.
* `Finished`        — what a finished loop has seen: the keys of nodes reached from the roots, closed
  under expanding one node for each key.
* `mem_seen_iff`    — where a key stands for one node, it is the closure.
* `run_error`       — the loop fails for a node that is reached.
-/

namespace Worklist

variable {β κ ε : Type} [DecidableEq κ]

structure State (β κ : Type) where
  seen : List κ
  stack : List β

def empty : State β κ := ⟨[], []⟩

/-- A node of a new key is put on the stack. -/
def add (key : β → κ) (s : State β κ) (b : β) : State β κ :=
  if key b ∈ s.seen then s else ⟨s.seen ++ [key b], b :: s.stack⟩

def addAll (key : β → κ) (s : State β κ) (bs : List β) : State β κ := bs.foldl (add key) s

/-- The loop for a number of rounds; `none` when they are not enough. -/
def run (key : β → κ) (expand : β → Except ε (List β)) :
    Nat → State β κ → Option (Except ε (List κ))
  | 0, _ => none
  | fuel + 1, s =>
    match s.stack with
    | [] => some (.ok s.seen)
    | b :: rest =>
      match expand b with
      | .error e => some (.error e)
      | .ok bs => run key expand fuel (addAll key ⟨s.seen, rest⟩ bs)

/-- What expanding leads to from the roots. -/
inductive Reached (expand : β → Except ε (List β)) (roots : List β) : β → Prop where
  | root {b : β} (h : b ∈ roots) : Reached expand roots b
  | step {b c : β} {bs : List β} (h : Reached expand roots b) (hb : expand b = .ok bs) (hc : c ∈ bs) :
      Reached expand roots c

variable {key : β → κ} {expand : β → Except ε (List β)} {roots : List β} {s : State β κ}

/-! ## Adding nodes -/

/-- What adding some nodes to a state makes of it: new keys, each with its node on the stack. -/
structure Grown (key : β → κ) (bs : List β) (s s' : State β κ) : Prop where
  nodup : s.seen.Nodup → s'.seen.Nodup
  seen : ∀ k, k ∈ s'.seen ↔ k ∈ s.seen ∨ ∃ b ∈ bs, key b = k
  pushed : ∃ new, s'.stack = new ++ s.stack ∧ (∀ b ∈ new, b ∈ bs) ∧
    (∀ k, k ∈ s'.seen ↔ k ∈ s.seen ∨ ∃ b ∈ new, key b = k) ∧
    s'.seen.length = s.seen.length + new.length

omit [DecidableEq κ] in
theorem Grown.trans {bs cs : List β} {s' s'' : State β κ} (h : Grown key bs s s')
    (h' : Grown key cs s' s'') : Grown key (bs ++ cs) s s'' := by
  obtain ⟨new, hstack, hbs, hnew, hlen⟩ := h.pushed
  obtain ⟨new', hstack', hcs, hnew', hlen'⟩ := h'.pushed
  refine ⟨h'.nodup ∘ h.nodup, ?_, new' ++ new, by rw [hstack', hstack, List.append_assoc], ?_, ?_, ?_⟩
  · intro k
    rw [h'.seen, h.seen]
    simp only [List.mem_append, or_and_right, exists_or, or_assoc]
  · intro b hb
    rcases List.mem_append.mp hb with hb | hb
    · exact List.mem_append_right _ (hcs b hb)
    · exact List.mem_append_left _ (hbs b hb)
  · intro k
    rw [hnew', hnew]
    simp only [List.mem_append, or_and_right, exists_or, or_assoc]
    rw [or_comm (a := ∃ x ∈ new, key x = k)]
  · rw [hlen', hlen, List.length_append]
    omega

theorem add_grown (b : β) : Grown key [b] s (add key s b) := by
  by_cases hb : key b ∈ s.seen
  · have hsame : add key s b = s := if_pos hb
    rw [hsame]
    refine ⟨id, ?_, [], rfl, by simp, by simp, rfl⟩
    intro k
    constructor
    · exact .inl
    · rintro (hk | ⟨c, hc, rfl⟩)
      · exact hk
      · rwa [List.mem_singleton.mp hc]
  · have hnew : add key s b = ⟨s.seen ++ [key b], b :: s.stack⟩ := if_neg hb
    rw [hnew]
    refine ⟨?_, by simp [eq_comm], [b], rfl, by simp, by simp [eq_comm], by simp⟩
    intro hnd
    exact List.nodup_append.mpr ⟨hnd, List.nodup_singleton _, by
      rintro k hk _ hmem rfl
      rw [List.mem_singleton.mp hmem] at hk
      exact hb hk⟩

theorem addAll_grown (key : β → κ) (s : State β κ) (bs : List β) : Grown key bs s (addAll key s bs) := by
  induction bs generalizing s with
  | nil => exact ⟨id, by simp [addAll], [], rfl, by simp, by simp [addAll], rfl⟩
  | cons b bs ih => exact (add_grown b).trans (ih _)

/-! ## What a loop has seen -/

/-- The invariant of the loop, with the nodes expanded so far. -/
structure Inv (key : β → κ) (expand : β → Except ε (List β)) (roots done : List β)
    (s : State β κ) : Prop where
  nodup : s.seen.Nodup
  keys : ∀ k, k ∈ s.seen ↔ ∃ b ∈ done ++ s.stack, key b = k
  sound : ∀ b ∈ done ++ s.stack, Reached expand roots b
  roots : ∀ b ∈ roots, key b ∈ s.seen
  expanded : ∀ b ∈ done, ∃ bs, expand b = .ok bs ∧ ∀ c ∈ bs, key c ∈ s.seen

theorem inv_start : Inv key expand roots [] (addAll key empty roots) := by
  have hgrown := addAll_grown key empty roots
  obtain ⟨new, hstack, hroots, hnew, _⟩ := hgrown.pushed
  have hstack : (addAll key empty roots).stack = new := by simpa [empty] using hstack
  refine ⟨hgrown.nodup List.nodup_nil, ?_, ?_, ?_, by simp⟩
  · intro k
    rw [hnew, hstack]
    simp [empty]
  · intro b hb
    rw [hstack] at hb
    exact .root (hroots b (by simpa using hb))
  · intro b hb
    exact (hgrown.seen _).mpr (.inr ⟨b, hb, rfl⟩)

/-- One round: the node taken is expanded. -/
theorem Inv.round {done rest bs : List β} {b : β} (h : Inv key expand roots done s)
    (hstack : s.stack = b :: rest) (hb : expand b = .ok bs) :
    Inv key expand roots (b :: done) (addAll key ⟨s.seen, rest⟩ bs) := by
  have hgrown := addAll_grown key ⟨s.seen, rest⟩ bs
  obtain ⟨new, hstack', hbs, hnew, _⟩ := hgrown.pushed
  have hreached : Reached expand roots b := h.sound b (by simp [hstack])
  have hmono : ∀ k ∈ s.seen, k ∈ (addAll key ⟨s.seen, rest⟩ bs).seen :=
    fun k hk => (hgrown.seen k).mpr (.inl hk)
  refine ⟨hgrown.nodup h.nodup, ?_, ?_, fun c hc => hmono _ (h.roots c hc), ?_⟩
  · intro k
    rw [hnew, h.keys, hstack, hstack', ← exists_or]
    refine exists_congr fun c => ?_
    simp only [List.mem_append, List.mem_cons]
    tauto
  · intro c hc
    rw [hstack'] at hc
    simp only [List.mem_append, List.mem_cons] at hc
    rcases hc with (rfl | hc) | hc | hc
    · exact hreached
    · exact h.sound c (by simp [hc])
    · exact hreached.step hb (hbs c hc)
    · exact h.sound c (by simp [hstack, hc])
  · intro c hc
    rcases List.mem_cons.mp hc with rfl | hc
    · exact ⟨bs, hb, fun d hd => (hgrown.seen _).mpr (.inr ⟨d, hd, rfl⟩)⟩
    · obtain ⟨cs, hcs, hseen⟩ := h.expanded c hc
      exact ⟨cs, hcs, fun d hd => hmono _ (hseen d hd)⟩

/-- What a finished loop has seen. -/
structure Finished (key : β → κ) (expand : β → Except ε (List β)) (roots : List β) (seen : List κ) :
    Prop where
  started : ∀ b ∈ roots, key b ∈ seen
  expanded : ∀ k ∈ seen, ∃ b bs, Reached expand roots b ∧ key b = k ∧ expand b = .ok bs ∧
    ∀ c ∈ bs, key c ∈ seen

omit [DecidableEq κ] in
theorem Inv.finish {done : List β} (h : Inv key expand roots done s) (hstack : s.stack = []) :
    Finished key expand roots s.seen := by
  refine ⟨h.roots, ?_⟩
  intro k hk
  obtain ⟨b, hb, hkey⟩ := (h.keys k).mp hk
  have hdone : b ∈ done := by simpa [hstack] using hb
  obtain ⟨bs, hbs, hseen⟩ := h.expanded b hdone
  exact ⟨b, bs, h.sound b hb, hkey, hbs, hseen⟩

/-- How a run ends: with everything seen, or at a node that cannot be expanded. -/
def Ended (key : β → κ) (expand : β → Except ε (List β)) (roots : List β) :
    Except ε (List κ) → Prop
  | .ok seen => Finished key expand roots seen
  | .error e => ∃ b, Reached expand roots b ∧ expand b = .error e

theorem run_spec {fuel : Nat} {done : List β} {r : Except ε (List κ)} (h : Inv key expand roots done s)
    (hrun : run key expand fuel s = some r) : Ended key expand roots r := by
  induction fuel generalizing s done with
  | zero => cases hrun
  | succ fuel ih =>
    rw [run] at hrun
    cases hstack : s.stack with
    | nil =>
      rw [hstack] at hrun
      cases hrun
      exact h.finish hstack
    | cons b rest =>
      rw [hstack] at hrun
      cases hb : expand b with
      | error e =>
        simp only [hb] at hrun
        cases hrun
        exact ⟨b, h.sound b (by simp [hstack]), hb⟩
      | ok bs =>
        simp only [hb] at hrun
        exact ih (h.round hstack hb) hrun

theorem run_finished {fuel : Nat} {seen : List κ}
    (h : run key expand fuel (addAll key empty roots) = some (.ok seen)) :
    Finished key expand roots seen :=
  run_spec inv_start h

theorem run_error {fuel : Nat} {e : ε}
    (h : run key expand fuel (addAll key empty roots) = some (.error e)) :
    ∃ b, Reached expand roots b ∧ expand b = .error e :=
  run_spec inv_start h

omit [DecidableEq κ] in
theorem Finished.sound {seen : List κ} (h : Finished key expand roots seen) {k : κ} (hk : k ∈ seen) :
    ∃ b, Reached expand roots b ∧ key b = k := by
  obtain ⟨b, _, hb, hkey, _⟩ := h.expanded k hk
  exact ⟨b, hb, hkey⟩

omit [DecidableEq κ] in
/-- Where a key stands for one node, the loop has seen the closure. The induction is on how a node is
reached. -/
theorem Finished.mem_seen_iff {seen : List κ} (h : Finished key expand roots seen)
    (hone : ∀ b c, Reached expand roots b → Reached expand roots c → key b = key c → b = c) {k : κ} :
    k ∈ seen ↔ ∃ b, Reached expand roots b ∧ key b = k := by
  constructor
  · exact h.sound
  · rintro ⟨b, hb, rfl⟩
    induction hb with
    | root hb => exact h.started _ hb
    | @step b c bs hb hbs hc ih =>
      obtain ⟨b', bs', hb', hkey, hbs', hseen⟩ := h.expanded _ ih
      obtain rfl := hone b' b hb' hb hkey
      rw [hbs] at hbs'
      cases hbs'
      exact hseen c hc

/-! ## The loop ends -/

/-- A round takes a node off and puts one for each new key, so nodes to go and keys to come together
become fewer. -/
theorem exists_run_of_inv {all : List κ} (hall : ∀ b, Reached expand roots b → key b ∈ all)
    {done : List β} (h : Inv key expand roots done s) (fuel : Nat)
    (hfuel : s.stack.length + (all.length - s.seen.length) < fuel) :
    ∃ r, run key expand fuel s = some r := by
  induction fuel generalizing s done with
  | zero => omega
  | succ fuel ih =>
    rw [run]
    cases hstack : s.stack with
    | nil => exact ⟨_, rfl⟩
    | cons b rest =>
      cases hb : expand b with
      | error e => exact ⟨.error e, by simp only [hb]⟩
      | ok bs =>
        simp only [hb]
        have hround := h.round hstack hb
        refine ih hround ?_
        obtain ⟨new, hstack', _, _, hlen⟩ :=
          (addAll_grown key ⟨s.seen, rest⟩ bs).pushed
        have hbound : (addAll key ⟨s.seen, rest⟩ bs).seen.length ≤ all.length := by
          refine (List.subperm_of_subset hround.nodup ?_).length_le
          intro k hk
          obtain ⟨c, hc, rfl⟩ := (hround.keys k).mp hk
          exact hall c (hround.sound c hc)
        rw [hstack', hlen, List.length_append]
        rw [hlen] at hbound
        rw [hstack, List.length_cons] at hfuel
        dsimp only at hbound hfuel ⊢
        omega

theorem exists_run {all : List κ} (hall : ∀ b, Reached expand roots b → key b ∈ all) :
    ∃ fuel r, run key expand fuel (addAll key empty roots) = some r :=
  ⟨_, exists_run_of_inv hall inv_start _ (Nat.lt_succ_self _)⟩

/-- More rounds change nothing. -/
theorem run_mono {fuel fuel' : Nat} {r : Except ε (List κ)} (hle : fuel ≤ fuel')
    (h : run key expand fuel s = some r) : run key expand fuel' s = some r := by
  induction fuel generalizing s fuel' with
  | zero => cases h
  | succ fuel ih =>
    obtain ⟨fuel', rfl⟩ : ∃ n, fuel' = n + 1 := ⟨fuel' - 1, by omega⟩
    rw [run] at h ⊢
    cases hstack : s.stack with
    | nil => rwa [hstack] at h
    | cons b rest =>
      rw [hstack] at h
      cases hb : expand b with
      | error e =>
        simp only [hb] at h ⊢
        exact h
      | ok bs =>
        simp only [hb] at h ⊢
        exact ih (by omega) h

/-- Nothing to start from, nothing seen. -/
theorem run_nil (fuel : Nat) :
    run key expand (fuel + 1) (addAll key empty ([] : List β)) = some (.ok []) := rfl

end Worklist
