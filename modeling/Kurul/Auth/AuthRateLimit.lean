import Kurul.JsString
import Mathlib.Data.List.Chain
import Mathlib.Logic.Function.Basic

/-!
# Kurul.Auth.AuthRateLimit

The limiter in front of the sign-in endpoints: `CONSUME_SCRIPT`, the Redis commands it is made of,
and `consume`, which reads its reply. Times are in milliseconds; a rule's window is in seconds.

* `consumeScript_eq` — what an evaluation finds, answers and leaves.
* `log_filter`       — the evaluations of one key go as if there were no others.
* `stored_of_chain`  — from one opening of a window to the next one more is stored each time.
-/

namespace Kurul

/-! ## Redis -/

namespace Redis

/-- A key that holds a number, and when it goes away. -/
structure Counter where
  count : Int
  expireAt : Option Nat
  deriving DecidableEq

abbrev Keys : Type := JsString → Option Counter

inductive Failure where
  /-- `ERR increment or decrement would overflow`. -/
  | overflow
  /-- The server cannot be reached. -/
  | unavailable
  deriving DecidableEq

/-- A key is there until its time is over. -/
def lookup (keys : Keys) (now : Nat) (key : JsString) : Option Counter :=
  (keys key).filter fun c => c.expireAt.all fun t => now ≤ t

/-- `INCR`: a key that is not there counts from zero, and one that is keeps its expiry. -/
def incr (keys : Keys) (now : Nat) (key : JsString) : Except Failure (Int × Keys) :=
  let found := (lookup keys now key).getD ⟨0, none⟩
  if found.count = 2 ^ 63 - 1 then .error .overflow
  else .ok (found.count + 1, Function.update keys key (some { found with count := found.count + 1 }))

/-- `TTL`, rounded to seconds. -/
def ttl (keys : Keys) (now : Nat) (key : JsString) : Int :=
  match lookup keys now key with
  | none => -2
  | some c => match c.expireAt with
    | none => -1
    | some t => ((t - now + 500) / 1000 : Nat)

/-- `EXPIRE`. -/
def expire (keys : Keys) (now : Nat) (key : JsString) (seconds : Nat) : Keys :=
  match lookup keys now key with
  | none => keys
  | some c => Function.update keys key (some { c with expireAt := some (now + seconds * 1000) })

end Redis

/-! ## The limiter -/

namespace AuthRateLimit

open Redis

structure Rule where
  window : Nat
  max : Nat
  window_pos : 1 ≤ window
  max_pos : 1 ≤ max

/-- `CONSUME_SCRIPT`: the reply, and the keys it leaves. -/
def consumeScript (rule : Rule) (keys : Keys) (now : Nat) (key : JsString) :
    Except Failure ((Int × Int) × Keys) := do
  let (count, keys) ← incr keys now key
  let ttl := ttl keys now key
  let (ttl, keys) := if ttl < 0 then ((rule.window : Int), expire keys now key rule.window) else (ttl, keys)
  if count > rule.max then return ((0, ttl), keys)
  return ((1, -1), keys)

structure Decision where
  allowed : Bool
  retryAfter : Option Int
  deriving DecidableEq

/-- `consume`: an error lets the request through. -/
def consume (rule : Rule) : Except Failure (Int × Int) → Decision
  | .ok (allowed, retryAfter) =>
    if allowed = 1 then ⟨true, none⟩
    else ⟨false, some (if retryAfter > 0 then retryAfter else rule.window)⟩
  | .error _ => ⟨true, none⟩

/-- `AUTH_RATE_LIMIT_KEY_PREFIX`. -/
def keyPrefix : JsString := js "kurul:auth-rate-limit:"

def authKey (raw : JsString) : JsString := keyPrefix ++ raw

/-- A call of `consume` by some process: whether it gets through to the server, and when. -/
structure Attempt where
  raw : JsString
  now : Nat
  reaches : Bool

variable (rules : JsString → Rule)

/-- What the server replies, and the keys afterwards. -/
def evaluate (keys : Keys) (a : Attempt) : Except Failure ((Int × Int) × Keys) :=
  if a.reaches then consumeScript (rules a.raw) keys a.now (authKey a.raw) else .error .unavailable

def decision (keys : Keys) (a : Attempt) : Decision :=
  consume (rules a.raw) ((evaluate rules keys a).map Prod.fst)

/-- The keys after an attempt. -/
def step (keys : Keys) (a : Attempt) : Keys :=
  match evaluate rules keys a with
  | .ok (_, keys) => keys
  | .error _ => keys

/-- An evaluation of the script that has been answered: what it found under its key, and what was made
of the answer. -/
structure Evaluation where
  raw : JsString
  now : Nat
  found : Option Counter
  decision : Decision

/-- It opens a window: there is no key, or none that expires. -/
def Evaluation.opens (e : Evaluation) : Bool := e.found.all fun c => c.expireAt.isNone

/-- The count that is stored. -/
def storedOf (found : Option Counter) : Int := (found.map Counter.count).getD 0

/-- The evaluation an attempt comes to, unless it fails. -/
def evaluation (keys : Keys) (a : Attempt) : Option Evaluation :=
  match evaluate rules keys a with
  | .ok _ => some ⟨a.raw, a.now, lookup keys a.now (authKey a.raw), decision rules keys a⟩
  | .error _ => none

/-- The evaluations of a run. -/
def log : Keys → List Attempt → List Evaluation
  | _, [] => []
  | keys, a :: rest => (evaluation rules keys a).toList ++ log (step rules keys a) rest

/-! ## What one evaluation does -/

section Script

variable {rules : JsString → Rule} {rule : Rule} {keys keys' : Keys} {now : Nat} {key : JsString}
  {found : Option Counter} {c : Counter} {reply : Int × Int} {a : Attempt}

/-- When a counter goes away that is evaluated now. -/
def expiryOf (rule : Rule) (now : Nat) (found : Option Counter) : Nat :=
  (found.bind Counter.expireAt).getD (now + rule.window * 1000)

/-- The seconds the script says there are until then. -/
def secondsOf (rule : Rule) (now : Nat) (found : Option Counter) : Nat :=
  match found.bind Counter.expireAt with
  | some t => (t - now + 500) / 1000
  | none => rule.window

theorem live_of_lookup (h : lookup keys now key = some c) : ∀ t ∈ c.expireAt, now ≤ t := by
  have hlive := (Option.filter_eq_some_iff.mp h).2
  intro t ht
  rw [Option.mem_def.mp ht] at hlive
  simpa using hlive

theorem lookup_update (hlive : ∀ t ∈ c.expireAt, now ≤ t) :
    lookup (Function.update keys key (some c)) now key = some c := by
  unfold lookup
  rw [Function.update_self, Option.filter_eq_some_iff]
  refine ⟨rfl, ?_⟩
  cases hexpire : c.expireAt with
  | none => rfl
  | some t => simpa using hlive t hexpire

/-- A key that is not there counts as zero, and as one that does not expire. -/
def orZero (found : Option Counter) : Counter := found.getD ⟨0, none⟩

theorem storedOf_eq (found : Option Counter) : storedOf found = (orZero found).count := by
  cases found <;> rfl

theorem bind_expireAt (found : Option Counter) : found.bind Counter.expireAt = (orZero found).expireAt := by
  cases found <;> rfl

theorem live_orZero (hfound : lookup keys now key = found) : ∀ t ∈ (orZero found).expireAt, now ≤ t := by
  cases found with
  | none => exact nofun
  | some c => exact live_of_lookup hfound

theorem incr_eq (hfound : lookup keys now key = found) : incr keys now key =
    if storedOf found = 2 ^ 63 - 1 then .error .overflow
    else .ok (storedOf found + 1,
      Function.update keys key (some { orZero found with count := storedOf found + 1 })) := by
  rw [storedOf_eq, incr, hfound]
  rfl

theorem ttl_eq (hfound : lookup keys now key = some c) : ttl keys now key =
    match c.expireAt with
    | none => -1
    | some t => ((t - now + 500) / 1000 : Nat) := by
  rw [ttl, hfound]

theorem expire_eq (hfound : lookup keys now key = some c) (seconds : Nat) :
    expire keys now key seconds =
      Function.update keys key (some { c with expireAt := some (now + seconds * 1000) }) := by
  rw [expire, hfound]

/-- The whole script: one more is counted, and the counter goes away when it would have, or, if it never
would have, a window from now. -/
theorem consumeScript_eq (hfound : lookup keys now key = found) : consumeScript rule keys now key =
    if storedOf found = 2 ^ 63 - 1 then .error .overflow
    else .ok (if storedOf found + 1 > rule.max then (0, (secondsOf rule now found : Int)) else (1, -1),
      Function.update keys key (some ⟨storedOf found + 1, some (expiryOf rule now found)⟩)) := by
  unfold consumeScript
  rw [incr_eq hfound]
  split
  · rfl
  · have hlook : lookup (Function.update keys key
        (some { orZero found with count := storedOf found + 1 })) now key =
        some { orZero found with count := storedOf found + 1 } := lookup_update (live_orZero hfound)
    have hexpiry := bind_expireAt found
    simp only [bind, Except.bind, ttl_eq hlook, expire_eq hlook, Function.update_idem]
    unfold expiryOf secondsOf
    rw [hexpiry]
    cases (orZero found).expireAt with
    | none =>
      simp only [Option.getD_none]
      split <;> rfl
    | some t =>
      have hpos : ¬ (((t - now + 500) / 1000 : Nat) : Int) < 0 := by omega
      simp only [Option.getD_some, hpos, if_false]
      split <;> rfl

end Script

/-! ## Runs -/

section Runs

variable {rules : JsString → Rule} {keys keys' : Keys} {now : Nat} {raw : JsString} {a : Attempt}
  {attempts : List Attempt} {reply : Int × Int} {e : Evaluation}

theorem authKey_injective : Function.Injective authKey := List.append_right_injective keyPrefix

/-- What an evaluation that is answered did. -/
theorem evaluate_ok (h : evaluate rules keys a = .ok (reply, keys')) :
    (reply = if storedOf (lookup keys a.now (authKey a.raw)) + 1 > (rules a.raw).max then
        (0, (secondsOf (rules a.raw) a.now (lookup keys a.now (authKey a.raw)) : Int)) else (1, -1)) ∧
    keys' = Function.update keys (authKey a.raw) (some ⟨storedOf (lookup keys a.now (authKey a.raw)) + 1,
      some (expiryOf (rules a.raw) a.now (lookup keys a.now (authKey a.raw)))⟩) := by
  unfold evaluate at h
  split at h
  · rw [consumeScript_eq rfl] at h
    split at h
    · cases h
    · cases h
      exact ⟨rfl, rfl⟩
  · cases h

theorem step_of_ok (h : evaluate rules keys a = .ok (reply, keys')) : step rules keys a = keys' := by
  rw [step, h]

theorem step_of_error {f : Failure} (h : evaluate rules keys a = .error f) : step rules keys a = keys := by
  rw [step, h]

/-- Only the key that is counted under is touched. -/
theorem step_other {key : JsString} (hkey : key ≠ authKey a.raw) : step rules keys a key = keys key := by
  cases h : evaluate rules keys a with
  | error f => rw [step_of_error h]
  | ok r =>
    obtain ⟨reply, keys'⟩ := r
    rw [step_of_ok h, (evaluate_ok h).2, Function.update_of_ne hkey]

/-- What is evaluated under a key depends on what is stored under it alone. -/
theorem evaluate_congr (rules : JsString → Rule) {keys₂ : Keys} (h : keys (authKey a.raw) = keys₂ (authKey a.raw)) :
    (evaluate rules keys a).map Prod.fst = (evaluate rules keys₂ a).map Prod.fst ∧
    lookup keys a.now (authKey a.raw) = lookup keys₂ a.now (authKey a.raw) ∧
    step rules keys a (authKey a.raw) = step rules keys₂ a (authKey a.raw) := by
  have hlook : lookup keys a.now (authKey a.raw) = lookup keys₂ a.now (authKey a.raw) := by
    rw [lookup, lookup, h]
  refine ⟨?_, hlook, ?_⟩
  · unfold evaluate
    split
    · rw [consumeScript_eq hlook, consumeScript_eq rfl]
      split <;> rfl
    · rfl
  · unfold step evaluate
    split
    · rw [consumeScript_eq hlook, consumeScript_eq rfl]
      split
      · exact h
      · simp
    · exact h

/-- An evaluation is of the attempt's key, at the attempt's time, and of what is there then. -/
theorem evaluation_eq (h : evaluation rules keys a = some e) :
    ∃ reply keys', evaluate rules keys a = .ok (reply, keys') ∧
      e = ⟨a.raw, a.now, lookup keys a.now (authKey a.raw), consume (rules a.raw) (.ok reply)⟩ := by
  unfold evaluation at h
  split at h
  · rename_i r heval
    obtain ⟨reply, keys'⟩ := r
    obtain rfl := Option.some.inj h
    refine ⟨reply, keys', heval, ?_⟩
    rw [decision, heval]
    rfl
  · cases h

theorem raw_of_evaluation (h : evaluation rules keys a = some e) : e.raw = a.raw := by
  obtain ⟨_, _, _, rfl⟩ := evaluation_eq h
  rfl

theorem evaluation_congr {keys₂ : Keys} (h : keys (authKey a.raw) = keys₂ (authKey a.raw)) :
    evaluation rules keys a = evaluation rules keys₂ a := by
  obtain ⟨hreply, hlook, _⟩ := evaluate_congr rules h
  unfold evaluation decision
  rw [hlook, hreply]
  cases h₁ : evaluate rules keys a <;> cases h₂ : evaluate rules keys₂ a <;>
    simp [h₁, h₂, Except.map] at hreply ⊢

/-- The evaluations of one key go as if there were no attempts at others. -/
theorem log_filter (raw : JsString) (attempts : List Attempt) {keys keys₂ : Keys}
    (h : keys (authKey raw) = keys₂ (authKey raw)) :
    (log rules keys attempts).filter (fun e => e.raw = raw) =
      log rules keys₂ (attempts.filter fun a => a.raw = raw) := by
  induction attempts generalizing keys keys₂ with
  | nil => rfl
  | cons a rest ih =>
    rw [log, List.filter_append]
    by_cases hraw : a.raw = raw
    · subst hraw
      rw [List.filter_cons_of_pos (by simp), log, evaluation_congr h,
        ih (evaluate_congr rules h).2.2]
      congr 1
      refine List.filter_eq_self.mpr fun e he => ?_
      simpa using raw_of_evaluation (Option.mem_toList.mp he)
    · have hkey : authKey raw ≠ authKey a.raw := fun heq => hraw (authKey_injective heq).symm
      rw [List.filter_cons_of_neg (by simpa using hraw), ih ((step_other hkey).trans h)]
      have hnone : ((evaluation rules keys a).toList.filter fun e => e.raw = raw) = [] := by
        refine List.filter_eq_nil_iff.mpr fun e he => ?_
        rw [raw_of_evaluation (Option.mem_toList.mp he)]
        simpa using hraw
      rw [hnone, List.nil_append]

/-! ## Counting -/

/-- An evaluation that finds what the one before left has one more stored. -/
def Counts (e e' : Evaluation) : Prop := e'.opens = false → storedOf e'.found = storedOf e.found + 1

theorem log_counts (attempts : List Attempt) (keys : Keys) (hraw : ∀ a ∈ attempts, a.raw = raw) :
    (log rules keys attempts).IsChain Counts ∧
      ∀ e ∈ (log rules keys attempts).head?, e.found = lookup keys e.now (authKey raw) := by
  induction attempts generalizing keys with
  | nil => exact ⟨.nil, nofun⟩
  | cons a rest ih =>
    obtain ⟨ha, hrest⟩ := List.forall_mem_cons.mp hraw
    subst ha
    rw [log]
    cases heval : evaluation rules keys a with
    | none =>
      -- nothing was counted, and the keys are what they were
      have hsame : step rules keys a = keys := by
        unfold evaluation at heval
        split at heval
        · cases heval
        · rename_i f hf
          exact step_of_error hf
      rw [hsame]
      exact ih keys hrest
    | some e =>
      obtain ⟨reply, keys', hok, rfl⟩ := evaluation_eq heval
      obtain ⟨hchain, hhead⟩ := ih (step rules keys a) hrest
      refine ⟨List.isChain_cons.mpr ⟨fun e' he' hopens => ?_, hchain⟩, ?_⟩
      · have hfound := hhead e' he'
        rw [step_of_ok hok, (evaluate_ok hok).2, lookup, Function.update_self] at hfound
        rw [Option.filter_some] at hfound
        split at hfound
        · rw [hfound]
          rfl
        · rw [Evaluation.opens, hfound] at hopens
          cases hopens
      · rintro e' ⟨⟩
        rfl

/-- In a stretch in which no window opens but at its start, one more is stored each time. -/
theorem stored_of_chain {window : List Evaluation} (h : window.IsChain Counts)
    (hopens : ∀ e ∈ window.tail, e.opens = false) {first e : Evaluation} (hfirst : window.head? = some first)
    {n : Nat} (hn : window[n]? = some e) : storedOf e.found = storedOf first.found + n := by
  induction n generalizing e with
  | zero =>
    rw [← List.head?_eq_getElem?, hfirst] at hn
    cases hn
    simp
  | succ n ih =>
    obtain ⟨hlt, rfl⟩ := List.getElem?_eq_some_iff.mp hn
    have hprev := ih (List.getElem?_eq_getElem (by omega))
    have htail : window[n + 1] ∈ window.tail := by
      rw [← List.drop_one]
      exact List.mem_drop_iff_getElem.mpr ⟨n, by omega, by congr 1; omega⟩
    rw [List.isChain_iff_getElem.mp h n hlt (hopens _ htail), hprev]
    push_cast
    omega

/-- What the answer to an evaluation is. -/
theorem decision_of_mem (h : e ∈ log rules keys attempts) : e.decision =
    if storedOf e.found + 1 > (rules e.raw).max then
      ⟨false, some (if (secondsOf (rules e.raw) e.now e.found : Int) > 0 then
        (secondsOf (rules e.raw) e.now e.found : Int) else (rules e.raw).window)⟩
    else ⟨true, none⟩ := by
  induction attempts generalizing keys with
  | nil => cases h
  | cons a rest ih =>
    rw [log] at h
    rcases List.mem_append.mp h with h | h
    · obtain ⟨reply, keys', hok, rfl⟩ := evaluation_eq (Option.mem_toList.mp h)
      dsimp only
      rw [(evaluate_ok hok).1]
      split <;> rfl
    · exact ih h

/-! ## Expiry -/

/-- No key goes away later than a window from now. -/
def Fits (rules : JsString → Rule) (keys : Keys) (now : Nat) : Prop :=
  ∀ raw c t, keys (authKey raw) = some c → c.expireAt = some t → t ≤ now + (rules raw).window * 1000

theorem Fits.mono (h : Fits rules keys now) {later : Nat} (hle : now ≤ later) : Fits rules keys later := by
  intro raw c t hc ht
  have hfit := h raw c t hc ht
  omega

/-- A key that is there goes away at a time that has not passed, a window from now at most. -/
theorem expiryOf_spec (raw : JsString) (h : Fits rules keys now) :
    now ≤ expiryOf (rules raw) now (lookup keys now (authKey raw)) ∧
    expiryOf (rules raw) now (lookup keys now (authKey raw)) ≤ now + (rules raw).window * 1000 ∧
    secondsOf (rules raw) now (lookup keys now (authKey raw)) ≤ (rules raw).window := by
  cases hfound : lookup keys now (authKey raw) with
  | none => simp [expiryOf, secondsOf]
  | some c =>
    have hlive := live_of_lookup hfound
    have hc := (Option.filter_eq_some_iff.mp hfound).1
    cases ht : c.expireAt with
    | none => simp [expiryOf, secondsOf, ht]
    | some t =>
      have hfit := h raw c t hc ht
      have hpast := hlive t ht
      simp only [expiryOf, secondsOf, Option.bind_some, ht, Option.getD_some]
      omega

/-- The counter an evaluation leaves. -/
theorem left_spec (h : Fits rules keys a.now) (hok : evaluate rules keys a = .ok (reply, keys')) :
    ∃ c t, keys' (authKey a.raw) = some c ∧ c.expireAt = some t ∧ a.now ≤ t ∧
      t ≤ a.now + (rules a.raw).window * 1000 := by
  obtain ⟨hnow, hwindow, _⟩ := expiryOf_spec a.raw h
  rw [(evaluate_ok hok).2]
  exact ⟨_, _, Function.update_self .., rfl, hnow, hwindow⟩

theorem Fits.step (h : Fits rules keys a.now) : Fits rules (step rules keys a) a.now := by
  intro raw c t hc ht
  cases hok : evaluate rules keys a with
  | error f =>
    rw [step_of_error hok] at hc
    exact h raw c t hc ht
  | ok r =>
    obtain ⟨reply, keys'⟩ := r
    by_cases hraw : raw = a.raw
    · subst hraw
      obtain ⟨c', t', hc', ht', _, hle⟩ := left_spec h hok
      rw [step_of_ok hok, hc'] at hc
      cases hc
      rw [ht'] at ht
      cases ht
      exact hle
    · rw [step_other fun heq => hraw (authKey_injective heq)] at hc
      exact h raw c t hc ht

/-- The keys after a run. -/
def after (rules : JsString → Rule) (keys : Keys) (attempts : List Attempt) : Keys :=
  attempts.foldl (AuthRateLimit.step rules) keys

theorem Fits.after (h : Fits rules keys now) (htimes : (now :: attempts.map Attempt.now).Pairwise (· ≤ ·))
    {later : Nat} (hlater : ∀ t ∈ now :: attempts.map Attempt.now, t ≤ later) :
    Fits rules (after rules keys attempts) later := by
  induction attempts generalizing keys now with
  | nil => exact h.mono (hlater now (by simp))
  | cons a rest ih =>
    obtain ⟨hnow, hrest⟩ := List.pairwise_cons.mp htimes
    have hstep : Fits rules (AuthRateLimit.step rules keys a) a.now := (h.mono (hnow a.now (by simp))).step
    exact ih hstep hrest fun t ht => hlater t (List.mem_cons_of_mem _ ht)

theorem seconds_of_mem (h : Fits rules keys now)
    (htimes : (now :: attempts.map Attempt.now).Pairwise (· ≤ ·)) (he : e ∈ log rules keys attempts) :
    secondsOf (rules e.raw) e.now e.found ≤ (rules e.raw).window := by
  induction attempts generalizing keys now with
  | nil => cases he
  | cons a rest ih =>
    obtain ⟨hnow, hrest⟩ := List.pairwise_cons.mp htimes
    have hfits := h.mono (hnow a.now (by simp))
    rw [log] at he
    rcases List.mem_append.mp he with he | he
    · obtain ⟨_, _, _, rfl⟩ := evaluation_eq (Option.mem_toList.mp he)
      exact (expiryOf_spec a.raw hfits).2.2
    · exact ih hfits.step hrest he

/-- For every run of attempts, at times that do not go back, on keys that go away within a window if they
go away at all: an evaluation leaves its key with an expiry a window away at most; from one opening of a
window to the next an evaluation is allowed exactly if it is among the first, counted from what was
stored; the evaluations of a key are those there would be without the other keys, and an attempt touches
its own key only; a refusal names a delay of a second up to the window; and where the storage fails the
request is let through and the keys stay as they are. -/
theorem limiter_exact (rules : JsString → Rule) {keys : Keys} {start : Nat} {attempts : List Attempt}
    (htimes : (start :: attempts.map Attempt.now).Pairwise (· ≤ ·)) (hfits : Fits rules keys start) :
    (∀ before a rest, attempts = before ++ a :: rest → ∀ reply keys',
      evaluate rules (after rules keys before) a = .ok (reply, keys') →
        after rules keys (before ++ [a]) = keys' ∧ ∃ c t, keys' (authKey a.raw) = some c ∧
          c.expireAt = some t ∧ a.now ≤ t ∧ t ≤ a.now + (rules a.raw).window * 1000) ∧
    (∀ raw before window rest first,
      (log rules keys attempts).filter (fun e => e.raw = raw) = before ++ window ++ rest →
      (∀ e ∈ window.tail, e.opens = false) → window.head? = some first → ∀ (n : Nat) e, window[n]? = some e →
        (e.decision.allowed = true ↔ storedOf first.found + (n + 1) ≤ (rules raw).max)) ∧
    (∀ raw, (log rules keys attempts).filter (fun e => e.raw = raw) =
      log rules keys (attempts.filter fun a => a.raw = raw)) ∧
    (∀ keys a key, key ≠ authKey a.raw → step rules keys a key = keys key) ∧
    (∀ e ∈ log rules keys attempts, e.decision.allowed = false →
      ∃ seconds, e.decision.retryAfter = some seconds ∧ 1 ≤ seconds ∧ seconds ≤ (rules e.raw).window) ∧
    ∀ keys a f, evaluate rules keys a = .error f →
      decision rules keys a = ⟨true, none⟩ ∧ step rules keys a = keys := by
  refine ⟨?_, ?_, fun raw => log_filter raw attempts rfl, fun _ _ _ => step_other, ?_, ?_⟩
  · rintro before a rest rfl reply keys' hok
    rw [List.map_append, List.map_cons, ← List.cons_append] at htimes
    obtain ⟨hbefore, _, hlater⟩ := List.pairwise_append.mp htimes
    have hthere : Fits rules (after rules keys before) a.now :=
      hfits.after hbefore fun t ht => hlater t ht a.now (by simp)
    exact ⟨by rw [after, List.foldl_append]; exact step_of_ok hok, left_spec hthere hok⟩
  · intro raw before window rest first hsplit hopens hfirst n e hn
    have hraw : ∀ a ∈ attempts.filter fun a => a.raw = raw, a.raw = raw := fun a ha => by
      simpa using (List.mem_filter.mp ha).2
    have hchain : (log rules keys (attempts.filter fun a => a.raw = raw)).IsChain Counts :=
      (log_counts _ keys hraw).1
    rw [← log_filter raw attempts rfl, hsplit] at hchain
    have hwindow : window.IsChain Counts := hchain.left_of_append.right_of_append
    have hmem : e ∈ (log rules keys attempts).filter fun e => e.raw = raw := by
      rw [hsplit]
      exact List.mem_append_left _ (List.mem_append_right _ (List.mem_of_getElem? hn))
    obtain ⟨hlog, hraw⟩ := List.mem_filter.mp hmem
    have hkey : e.raw = raw := by simpa using hraw
    rw [decision_of_mem hlog, stored_of_chain hwindow hopens hfirst hn, hkey]
    split
    · simp only [Bool.false_eq_true, false_iff]
      omega
    · simp only [true_iff]
      omega
  · intro e he hrefused
    have hseconds := seconds_of_mem hfits htimes he
    have hpos := (rules e.raw).window_pos
    rw [decision_of_mem he] at hrefused ⊢
    split at hrefused
    · rename_i hover
      rw [if_pos hover]
      refine ⟨_, rfl, ?_⟩
      split <;> omega
    · cases hrefused
  · intro keys a f hfail
    refine ⟨?_, step_of_error hfail⟩
    rw [decision, hfail]
    rfl

/-- Three attempts within ten seconds, of which two are let through. -/
def thrice : List Attempt := [⟨js "ip", 0, true⟩, ⟨js "ip", 1, true⟩, ⟨js "ip", 2, true⟩]

theorem limiter_exact_thrice : ∃ e ∈ log (fun _ => ⟨10, 2, by decide, by decide⟩) (fun _ => none) thrice,
    e.decision.allowed = false ∧ ∃ seconds, e.decision.retryAfter = some seconds ∧ 1 ≤ seconds ∧
      seconds ≤ 10 := by
  have hany : (log (fun _ => ⟨10, 2, by decide, by decide⟩) (fun _ => none) thrice).any
      (fun e => !e.decision.allowed) = true := by decide +kernel
  obtain ⟨e, he, hrefused⟩ := List.any_eq_true.mp hany
  have hfits : Fits (fun _ => ⟨10, 2, by decide, by decide⟩) (fun _ => none) 0 := nofun
  have htimes : (0 :: thrice.map Attempt.now).Pairwise (· ≤ ·) := by decide
  have hexact := limiter_exact (fun _ => ⟨10, 2, by decide, by decide⟩) htimes hfits
  have hallowed : e.decision.allowed = false := by simpa using hrefused
  exact ⟨e, he, hallowed, hexact.2.2.2.2.1 e he hallowed⟩

end Runs

end AuthRateLimit
end Kurul
