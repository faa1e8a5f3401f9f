import Kurul.Sql.References
import Kurul.Sql.Run
import Mathlib.Data.List.Perm.Subperm

/-!
# Kurul.Sql.Purge

Deleting rows that nothing hangs on: whatever names them names them under `SET NULL`.

* `Store.purge`       — the rows that stay, as they stay.
* `applyAll_deletion` — what such a deletion comes to.
* `Purged`            — some of the rows that are due are gone, and nothing else has happened: it holds
  of each batch, of the batches together, and once it is all of them says what is left.
* `Limit`             — what `LIMIT` may pick where no order is asked for.
* `Call.Removes`      — a call that does no more than that, alone, whether it returns or throws;
  `Removes.bind` puts two after another.
-/

namespace Sql

open Keyed

variable {K V : Type} [Keyed K V] [DecidableEq K]

/-! ## Many writes of one kind -/

namespace Store

theorem rows_applyAll_del (s : Store V) (ks : List K) :
    (s.applyAll (ks.map .del)).rows = s.rows.filter fun v => decide (key v ∉ ks) := by
  induction ks generalizing s with
  | nil => simp
  | cons k ks ih =>
    rw [List.map_cons, applyAll_cons, ih]
    simp only [apply, erase, rows_filter, List.filter_filter]
    refine List.filter_congr fun v _ => ?_
    simp only [List.mem_cons, not_or, Bool.decide_and, Bool.and_comm]

theorem rows_put_replace {s : Store V} {v : V} (h : key v ∈ s.rows.map key) :
    (s.put v).rows = s.rows.map fun u => if key u = key v then v else u := by
  rw [put, dif_pos h]

/-- Rows that are there, each rewritten in its place. -/
theorem rows_applyAll_put {f : V → V} (hkey : ∀ v, key (f v) = key v) {s : Store V} {l : List V}
    (hl : ∀ v ∈ l, v ∈ s.rows) (hnd : (l.map key).Nodup) :
    (s.applyAll (l.map fun v => .put (f v))).rows =
      s.rows.map fun v => if key v ∈ l.map key then f v else v := by
  induction l generalizing s with
  | nil => simp
  | cons a l ih =>
    rw [List.map_cons, List.nodup_cons] at hnd
    have ha := hl a List.mem_cons_self
    have hput : (s.put (f a)).rows = s.rows.map fun u => if key u = key a then f a else u := by
      rw [rows_put_replace (by rw [hkey]; exact List.mem_map_of_mem ha), hkey]
    have hstill : ∀ v ∈ l, v ∈ (s.put (f a)).rows := by
      intro v hv
      have hne : key v ≠ key a := fun h => hnd.1 (h ▸ List.mem_map_of_mem hv)
      rw [hput]
      exact List.mem_map.mpr ⟨v, hl v (List.mem_cons_of_mem _ hv), if_neg hne⟩
    rw [List.map_cons, applyAll_cons, apply, ih hstill hnd.2, hput, List.map_map]
    refine List.map_congr_left fun u hu => ?_
    by_cases h : key u = key a
    · obtain rfl := key_inj hu ha h
      have hnot : key (f u) ∉ l.map key := by rw [hkey]; exact hnd.1
      simp only [Function.comp_apply, if_true, if_neg hnot, List.map_cons, List.mem_cons, true_or]
    · simp [h]

end Store

/-! ## Rows nothing hangs on -/

variable (R : References K V)

/-- What `SET NULL` does column by column: nothing to a row that names none of the keys, and twice is as
good as at once. -/
structure References.Clears : Prop where
  clear_of_names : ∀ {ks : List K} {v : V}, R.names .setNull ks v = false →
    R.clear (fun k => decide (k ∈ ks)) v = v
  clear_clear : ∀ p p' v, R.clear p' (R.clear p v) = R.clear (fun k => p k || p' k) v

/-- The rows under these keys are gone, and what named them is cleared. -/
def Store.purge (s : Store V) (ks : List K) : Store V where
  rows := (s.rows.filter fun v => decide (key v ∉ ks)).map (R.clear fun k => decide (k ∈ ks))
  nodup := by
    rw [List.map_map, show (key ∘ R.clear fun k => decide (k ∈ ks)) = key from funext (R.key_clear _)]
    exact s.nodup.sublist (List.filter_sublist.map key)

variable {R} {s t u : Store V} {ks gone gone' : List K} {due due' q : V → Bool} {v : V}

namespace Store

theorem mem_rows_purge : v ∈ (s.purge R ks).rows ↔
    ∃ u ∈ s.rows, key u ∉ ks ∧ R.clear (fun k => decide (k ∈ ks)) u = v := by
  simp only [purge, List.mem_map, List.mem_filter, decide_eq_true_eq, and_assoc]

theorem purge_nil (hR : R.Clears) : s.purge R [] = s := by
  apply ext_rows
  have hclear : ∀ v ∈ s.rows, R.clear (fun k => decide (k ∈ ([] : List K))) v = id v :=
    fun v _ => hR.clear_of_names (by simp [References.names])
  simp only [purge, List.not_mem_nil, not_false_eq_true, decide_true, List.filter_true]
  simpa using List.map_congr_left hclear

/-- In two goes or in one. -/
theorem purge_purge (hR : R.Clears) (s : Store V) (ks ks' : List K) :
    (s.purge R ks).purge R ks' = s.purge R (ks ++ ks') := by
  apply ext_rows
  simp only [purge, List.filter_map, List.map_map, List.filter_filter, Function.comp_def, R.key_clear,
    hR.clear_clear, List.mem_append, not_or, Bool.decide_and, Bool.decide_or, Bool.and_comm]

theorem purge_congr (h : ∀ k, k ∈ gone ↔ k ∈ gone') : s.purge R gone = s.purge R gone' := by
  apply ext_rows
  simp only [purge, h]

/-- A row that goes takes no other with it and is kept by none. -/
theorem applyAll_deletion (hR : R.Clears)
    (hleaf : ∀ v ∈ s.rows, ∀ k ∈ ks, ∀ a, (k, a) ∈ R.refs v → a = .setNull) :
    ∃ ws, s.deletion R ks = some ws ∧ s.applyAll ws = s.purge R ks := by
  have hnames : ∀ v ∈ s.rows, ∀ a, a ≠ .setNull → R.names a ks v = false := by
    intro v hv a ha
    refine Bool.eq_false_iff.mpr fun h => ?_
    obtain ⟨k, hk, hr⟩ := R.names_iff.mp h
    exact ha (hleaf v hv k hk a hr)
  have hdoomed : s.doomed R ks = ks := by
    refine rounds_fixed ?_ _
    rw [cascaded, List.filter_eq_nil_iff.mpr fun v hv => ?_, List.map_nil]
    simp [hnames v hv .cascade (by decide)]
  have hrestrict : ((s.rows.filter fun v => decide (key v ∉ ks)).any (R.names .restrict ks)) = false :=
    List.any_eq_false.mpr fun v hv =>
      Bool.eq_false_iff.mp (hnames v (List.mem_of_mem_filter hv) .restrict (by decide))
  simp only [deletion, hdoomed, hrestrict, Bool.false_eq_true, if_false, Option.some.injEq,
    exists_eq_left']
  apply ext_rows
  rw [applyAll_append]
  have hdel : (s.applyAll ((s.rows.filter fun v => decide (key v ∈ ks)).map fun v => .del (key v))).rows =
      s.rows.filter fun v => decide (key v ∉ ks) := by
    rw [show ((s.rows.filter fun v => decide (key v ∈ ks)).map fun v => (.del (key v) : Write K V)) =
      ((s.rows.filter fun v => decide (key v ∈ ks)).map key).map .del from (List.map_map ..).symm,
      rows_applyAll_del]
    refine List.filter_congr fun v hv => ?_
    rw [decide_eq_decide, not_iff_not]
    refine ⟨fun h => ?_, fun h => List.mem_map.mpr ⟨v, List.mem_filter.mpr ⟨hv, by simpa⟩, rfl⟩⟩
    obtain ⟨w, hw, hkey⟩ := List.mem_map.mp h
    exact hkey ▸ by simpa using (List.mem_filter.mp hw).2
  rw [rows_applyAll_put (R.key_clear _) (fun v hv => hdel ▸ List.mem_of_mem_filter hv) ?_, hdel, purge]
  · -- a row that is not rewritten names none of the keys
    refine List.map_congr_left fun v hv => ?_
    split
    · rfl
    · rename_i hnot
      refine (hR.clear_of_names (Bool.eq_false_iff.mpr fun hn => hnot ?_)).symm
      exact List.mem_map_of_mem (List.mem_filter.mpr ⟨hv, hn⟩)
  · exact s.nodup.sublist ((List.filter_sublist.trans List.filter_sublist).map key)

/-- Counting the rows of a kind before and after. -/
theorem length_purge (hq : ∀ p v, q (R.clear p v) = q v) :
    ((s.purge R ks).rows.filter q).length + (s.rows.filter fun v => q v && decide (key v ∈ ks)).length =
      (s.rows.filter q).length := by
  have hsplit := List.length_eq_countP_add_countP (fun v => decide (key v ∈ ks)) (l := s.rows.filter q)
  simp only [List.countP_eq_length_filter, List.filter_filter, Bool.and_comm] at hsplit
  simp only [purge, List.filter_map, List.length_map, List.filter_filter, Function.comp_def, hq]
  rw [hsplit, Nat.add_comm]
  simp only [decide_not, decide_eq_true_eq]

end Store

/-! ## Some of the rows that are due -/

variable (R) in
/-- Of the rows that are due these have gone, and nothing else has happened. -/
structure Purged (due : V → Bool) (s : Store V) (gone : List K) (t : Store V) : Prop where
  nodup : gone.Nodup
  due : ∀ k ∈ gone, ∃ v ∈ s.rows, due v = true ∧ key v = k
  eq : t = s.purge R gone

namespace Purged

theorem refl (hR : R.Clears) : Purged R due s [] s where
  nodup := List.nodup_nil
  due k hk := by cases hk
  eq := (Store.purge_nil hR).symm

theorem mono (h : Purged R due s gone t) (hle : ∀ v, due v = true → due' v = true) :
    Purged R due' s gone t where
  nodup := h.nodup
  due k hk := by
    obtain ⟨v, hv, hdue, hkey⟩ := h.due k hk
    exact ⟨v, hv, hle v hdue, hkey⟩
  eq := h.eq

theorem trans (hR : R.Clears) (hdue : ∀ p v, due (R.clear p v) = due v) (h : Purged R due s gone t)
    (h' : Purged R due t gone' u) : Purged R due s (gone ++ gone') u where
  nodup := by
    refine List.nodup_append.mpr ⟨h.nodup, h'.nodup, ?_⟩
    rintro k hk k' hk' rfl
    obtain ⟨v, hv, _, hkey⟩ := h'.due k hk'
    rw [h.eq, Store.mem_rows_purge] at hv
    obtain ⟨w, _, hw, rfl⟩ := hv
    rw [R.key_clear] at hkey
    exact hw (hkey ▸ hk)
  due k hk := by
    rcases List.mem_append.mp hk with hk | hk
    · exact h.due k hk
    · obtain ⟨v, hv, hd, hkey⟩ := h'.due k hk
      rw [h.eq, Store.mem_rows_purge] at hv
      obtain ⟨w, hw, _, rfl⟩ := hv
      exact ⟨w, hw, by rwa [hdue] at hd, by rwa [R.key_clear] at hkey⟩
  eq := by rw [h'.eq, h.eq, Store.purge_purge hR]

/-- As many rows are gone as keys. -/
theorem length_gone (h : Purged R due s gone t) (p : K → Bool) :
    (s.rows.filter fun v => p (key v) && decide (key v ∈ gone)).length = gone.countP p := by
  rw [List.countP_eq_length_filter, ← List.length_map key]
  refine List.Perm.length_eq ((List.perm_ext_iff_of_nodup ?_ (h.nodup.filter p)).mpr fun k => ?_)
  · exact s.nodup.sublist (List.filter_sublist.map key)
  · simp only [List.mem_map, List.mem_filter, Bool.and_eq_true, decide_eq_true_eq]
    constructor
    · rintro ⟨v, ⟨_, hp, hk⟩, rfl⟩
      exact ⟨hk, hp⟩
    · rintro ⟨hk, hp⟩
      obtain ⟨v, hv, _, rfl⟩ := h.due k hk
      exact ⟨v, ⟨hv, hp, hk⟩, rfl⟩

theorem due_of_mem (h : Purged R due s gone t) (hv : v ∈ s.rows) (hk : key v ∈ gone) :
    due v = true := by
  obtain ⟨w, hw, hd, hkey⟩ := h.due _ hk
  rwa [Store.key_inj hw hv hkey] at hd

/-- Of the rows under some of the keys, those that are gone and those still there. -/
theorem length_keys (h : Purged R due s gone t) (p : K → Bool) :
    (t.rows.filter fun v => p (key v)).length + gone.countP p =
      (s.rows.filter fun v => p (key v)).length := by
  rw [h.eq, ← h.length_gone p]
  exact Store.length_purge fun p' v => by rw [R.key_clear]

/-- And of those that are due. -/
theorem length_due (h : Purged R due s gone t) (hclear : ∀ p v, due (R.clear p v) = due v)
    (p : K → Bool) :
    (t.rows.filter fun v => p (key v) && due v).length + gone.countP p =
      (s.rows.filter fun v => p (key v) && due v).length := by
  have hsplit : ((s.purge R gone).rows.filter fun v => p (key v) && due v).length +
      (s.rows.filter fun v => (p (key v) && due v) && decide (key v ∈ gone)).length =
        (s.rows.filter fun v => p (key v) && due v).length :=
    Store.length_purge fun p' v => by rw [R.key_clear, hclear]
  rw [← h.eq] at hsplit
  rw [← hsplit, ← h.length_gone p]
  congr 2
  refine List.filter_congr fun v hv => ?_
  by_cases hk : key v ∈ gone
  · simp [hk, h.due_of_mem hv hk]
  · simp [hk]

/-- A row that is not due stays. -/
theorem stays (h : Purged R due s gone t) (hv : v ∈ s.rows) (hdue : due v = false) :
    R.clear (fun k => decide (k ∈ gone)) v ∈ t.rows := by
  rw [h.eq, Store.mem_rows_purge]
  refine ⟨v, hv, fun hk => ?_, rfl⟩
  rw [h.due_of_mem hv hk] at hdue
  cases hdue

/-- Once none is left that is due, it is exactly those that are gone. -/
theorem complete (h : Purged R due s gone t) (hclear : ∀ p v, due (R.clear p v) = due v)
    (hnone : ∀ v ∈ t.rows, due v = false) : t = s.purge R ((s.rows.filter due).map key) := by
  rw [h.eq]
  refine Store.purge_congr fun k => ⟨fun hk => ?_, fun hk => ?_⟩
  · obtain ⟨v, hv, hd, hkey⟩ := h.due k hk
    exact List.mem_map.mpr ⟨v, List.mem_filter.mpr ⟨hv, hd⟩, hkey⟩
  · obtain ⟨v, hv, rfl⟩ := List.mem_map.mp hk
    obtain ⟨hv, hd⟩ := List.mem_filter.mp hv
    by_contra hnot
    have hstill : R.clear (fun k => decide (k ∈ gone)) v ∈ t.rows := by
      rw [h.eq]
      exact Store.mem_rows_purge.mpr ⟨v, hv, hnot, rfl⟩
    have hfalse := hnone _ hstill
    rw [hclear, hd] at hfalse
    cases hfalse

/-- Whatever is gone, the rest of what was due comes to the same. -/
theorem rest (hR : R.Clears) (hclear : ∀ p v, due (R.clear p v) = due v) (h : Purged R due s gone t) :
    t.purge R ((t.rows.filter due).map key) = s.purge R ((s.rows.filter due).map key) := by
  have hall : Purged R due t ((t.rows.filter due).map key)
      (t.purge R ((t.rows.filter due).map key)) := by
    refine ⟨t.nodup.sublist (List.filter_sublist.map key), fun k hk => ?_, rfl⟩
    obtain ⟨v, hv, rfl⟩ := List.mem_map.mp hk
    obtain ⟨hv, hd⟩ := List.mem_filter.mp hv
    exact ⟨v, hv, hd, rfl⟩
  refine (h.trans hR hclear hall).complete hclear fun v hv => ?_
  obtain ⟨w, hw, hkept, rfl⟩ := Store.mem_rows_purge.mp hv
  rw [hclear]
  refine Bool.eq_false_iff.mpr fun hd => hkept ?_
  exact List.mem_map_of_mem (List.mem_filter.mpr ⟨hw, hd⟩)

end Purged

/-! ## `LIMIT` -/

/-- `LIMIT n` with no `ORDER BY`: as many of the rows as it allows, any of them. -/
structure Limit (n : Nat) (α : Type) where
  pick : List α → List α
  subperm : ∀ l, List.Subperm (pick l) l
  length_pick : ∀ l, (pick l).length = min n l.length

/-- The first ones. -/
def Limit.first (n : Nat) (α : Type) : Limit n α where
  pick l := l.take n
  subperm l := (List.take_sublist n l).subperm
  length_pick _ := List.length_take

/-- Those picked are rows that are due. -/
theorem Purged.pick (h : List.Subperm ks ((s.rows.filter due).map key)) :
    Purged R due s ks (s.purge R ks) where
  nodup := by
    obtain ⟨l, hperm, hsub⟩ := h
    exact hperm.nodup_iff.mp ((s.nodup.sublist (List.filter_sublist.map key)).sublist hsub)
  due k hk := by
    obtain ⟨v, hv, hkey⟩ := List.mem_map.mp (h.subset hk)
    obtain ⟨hv, hd⟩ := List.mem_filter.mp hv
    exact ⟨v, hv, hd, hkey⟩
  eq := rfl

/-! ## Calls -/

section Calls

variable {S : Sig} {α β : Type} {R : References S.Key S.Row} {env : Env S} {due due' : S.Row → Bool}

/-- Alone, the call takes rows that are due and does nothing else to the database, in so many statements;
if it returns, it has taken these. And it returns unless a statement fails. -/
def Call.Removes (R : References S.Key S.Row) (env : Env S) (due : S.Row → Bool) (cost : Nat)
    (p : Call S α) (w : World S) (post : α → List S.Key → Prop) : Prop :=
  ∃ gone, Purged R due w.db gone (p.run env w).2.db ∧ (p.run env w).2.stmts ≤ w.stmts + cost ∧
    ((∀ n, env.fails n = none) → (p.run env w).1.isOk = true) ∧
    ∀ a, (p.run env w).1 = .ok a → post a gone

namespace Call.Removes

variable {cost cost' : Nat} {p : Call S α} {f : α → Call S β} {w : World S}
  {post : α → List S.Key → Prop} {post' : β → List S.Key → Prop}

theorem ret (hR : R.Clears) {a : α} (h : post a []) :
    (Call.ret a : Call S α).Removes R env due cost w post :=
  ⟨[], .refl hR, Nat.le_add_right _ _, fun _ => rfl, fun _ hb => Except.ok.inj hb ▸ h⟩

theorem bind (hR : R.Clears) (hdue : ∀ p v, due (R.clear p v) = due v)
    (hp : p.Removes R env due cost w post)
    (hf : ∀ a gone w', post a gone → Purged R due w.db gone w'.db →
      (f a).Removes R env due cost' w' fun b gone' => post' b (gone ++ gone')) :
    (p >>= f).Removes R env due (cost + cost') w post' := by
  obtain ⟨gone, hgone, hcost, hends, hpost⟩ := hp
  unfold Removes
  rw [run_bind]
  rcases hrun : p.run env w with ⟨r, w'⟩
  rw [hrun] at hgone hcost hends hpost
  dsimp only at hcost
  cases r with
  | error e =>
    refine ⟨gone, hgone, Nat.le_trans hcost (by omega), fun hn => ?_, fun b hb => by cases hb⟩
    cases hends hn
  | ok a =>
    obtain ⟨gone', hgone', hcost', hends', hpost'⟩ := hf a gone w' (hpost a rfl) hgone
    refine ⟨gone ++ gone', hgone.trans hR hdue hgone', Nat.le_trans hcost' ?_, hends', hpost'⟩
    omega

theorem mono (hp : p.Removes R env due cost w post) (hdue : ∀ v, due v = true → due' v = true)
    (hcost : cost ≤ cost') {post' : α → List S.Key → Prop}
    (hpost : ∀ a gone, Purged R due w.db gone (p.run env w).2.db → post a gone → post' a gone) :
    p.Removes R env due' cost' w post' := by
  obtain ⟨gone, hgone, hle, hends, hok⟩ := hp
  exact ⟨gone, hgone.mono hdue, by omega, hends, fun a ha => hpost a gone hgone (hok a ha)⟩

/-- One statement, which commits by itself. -/
theorem exec (hR : R.Clears) {s : Stmt S α} {e : Effect S α} {gone : List S.Key}
    (heval : s.eval w.db = .ok e) (hgone : Purged R due w.db gone (w.db.applyAll e.writes))
    (hpost : post e.result gone) : (Call.exec s).Removes R env due 1 w post := by
  unfold Removes
  simp only [Call.exec, Call.run, Stmt.run]
  cases hfails : env.fails w.stmts with
  | some fault =>
    refine ⟨[], .refl hR, by simp [Except.mapError], fun hn => ?_, fun a ha => ?_⟩
    · rw [hn] at hfails
      cases hfails
    · cases ha
  | none =>
    rw [heval]
    refine ⟨gone, hgone, by simp [Except.mapError], fun _ => rfl, fun a ha => ?_⟩
    exact Except.ok.inj ha ▸ hpost

end Call.Removes

end Calls

end Sql
