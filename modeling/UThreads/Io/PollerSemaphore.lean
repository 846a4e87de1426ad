import UThreads.Schedulers.Scheduler02
import Mathlib.Data.Set.Card

/-!
# The semaphore of the poller

A kThread that finds nothing to run posts the semaphore of the `IOHandler`, blocks, and takes a
token back before it goes on (`blockingSwitch` of `Scheduler_01` and `Scheduler_02`). The poller
takes a token and puts it back at once, so that it polls when a kThread is blocked; its `timedwait`
may also time out (`pollerFunc`).

Tokens are anonymous, and a kThread may take the token of another one. **`tokens_counted`**: the
tokens are as many as the kThreads that have posted and not taken one back. So `trywait` fails for a
kThread only while the poller holds the one token there is.

The kThreads are those of all clusters. What they block on is left out, so a kThread may go on at
any time.
-/

namespace UThreads.PollerSemaphore

open Scheduler02 (semValueMax)

/-- Where a kThread is in `blockingSwitch`. -/
inductive Pos
  /-- before `sem.post()`, or not in `blockingSwitch` -/
  | out
  /-- after `sem.post()`, until there is a uThread -/
  | blocked
  /-- `while (!sem.trywait())`; `failed`: `trywait` has returned false -/
  | spin (failed : Bool)
  deriving DecidableEq

/-- `sem.post()` has been called, and `sem.trywait()` has not succeeded. -/
def Pos.between : Pos → Bool
  | .out => false
  | .blocked | .spin _ => true

/-- Where the poller is in `pollerFunc`. -/
inductive Poller
  /-- `sem.timedwait(ts)` -/
  | wait
  /-- `timedwait` has returned false, and `sem.post()` follows -/
  | holding
  /-- `poll(-1, 0)` -/
  | poll
  deriving DecidableEq

/-- The tokens that the poller holds. -/
def Poller.held : Poller → ℕ
  | .holding => 1
  | .wait | .poll => 0

structure State (K : Type*) where
  pos : K → Pos
  sem : ℕ
  poller : Poller

inductive Action (K : Type*)
  | post (k : K)
  /-- there is a uThread -/
  | unblock (k : K)
  | trywait (k : K)
  /-- `timedwait` gets a token -/
  | obtain
  | timeout
  /-- the poller's `sem.post()` -/
  | giveBack
  /-- `poll` returns -/
  | polled

variable {K : Type*} [DecidableEq K]

def State.goto (s : State K) (k : K) (x : Pos) : State K :=
  { s with pos := Function.update s.pos k x }

def step (s : State K) : Action K → Option (State K)
  -- `sem_post` fails at `SEM_VALUE_MAX` and is tried again
  | .post k =>
    if s.pos k = .out ∧ s.sem < semValueMax then some { s.goto k .blocked with sem := s.sem + 1 }
    else none
  | .unblock k => if s.pos k = .blocked then some (s.goto k (.spin false)) else none
  | .trywait k =>
    match s.pos k with
    | .spin _ =>
      if s.sem = 0 then some (s.goto k (.spin true))
      else some { s.goto k .out with sem := s.sem - 1 }
    | .out | .blocked => none
  | .obtain =>
    if s.poller = .wait ∧ s.sem ≠ 0 then some { s with sem := s.sem - 1, poller := .holding }
    else none
  | .timeout => if s.poller = .wait then some { s with poller := .poll } else none
  | .giveBack =>
    if s.poller = .holding ∧ s.sem < semValueMax then
      some { s with sem := s.sem + 1, poller := .poll }
    else none
  | .polled => if s.poller = .poll then some { s with poller := .wait } else none

def machine (K : Type*) [DecidableEq K] : Machine (State K) (Action K) where
  init := fun s => s = ⟨fun _ => .out, 0, .wait⟩
  step := step

/-! ## The tokens -/

/-- The kThreads between their `post` and their successful `trywait`. -/
def State.between (s : State K) : Set K := {k | (s.pos k).between = true}

structure Inv (s : State K) : Prop where
  finite : s.between.Finite
  tokens : s.sem + s.poller.held = s.between.ncard
  /-- `trywait` has failed for one kThread at most. -/
  one : ∀ j k, s.pos j = .spin true → s.pos k = .spin true → j = k

variable {s s' : State K} {j k : K}

theorem between_goto_of_eq {x : Pos} (h : x.between = (s.pos k).between) :
    (s.goto k x).between = s.between := by
  ext j
  by_cases hj : j = k
  · subst hj
    simp [State.between, State.goto, h]
  · simp [State.between, State.goto, hj]

theorem between_post (x : Pos) (hx : x.between = true) :
    (s.goto k x).between = insert k s.between := by
  ext j
  by_cases hj : j = k
  · subst hj
    simp [State.between, State.goto, hx]
  · simp [State.between, State.goto, hj]

theorem between_out : (s.goto k .out).between = s.between \ {k} := by
  ext j
  by_cases hj : j = k
  · subst hj
    simp [State.between, State.goto, Pos.between]
  · simp [State.between, State.goto, hj]

omit [DecidableEq K] in
/-- When there is no token, a kThread that is to take one is the only one, and the poller has its
token. -/
theorem Inv.alone (h : Inv s) (hk : k ∈ s.between) (hsem : s.sem = 0) :
    s.poller = .holding ∧ ∀ j ∈ s.between, j = k := by
  have htokens := h.tokens
  have hpos : 0 < s.between.ncard := (Set.ncard_pos h.finite).mpr ⟨k, hk⟩
  have hle : s.poller.held ≤ 1 := by cases s.poller <;> simp [Poller.held]
  refine ⟨?_, fun j hj => ?_⟩
  · cases hp : s.poller with
    | holding => rfl
    | wait | poll =>
      rw [hp] at htokens
      simp only [Poller.held] at htokens
      omega
  · have hone : s.between.ncard ≤ 1 := by omega
    exact (Set.ncard_le_one h.finite).mp hone j hj k hk

/-- A kThread goes on, and `trywait` has not failed for it. -/
theorem one_goto {x : Pos} (h : Inv s) (hx : x ≠ .spin true) (i j : K)
    (hi : (s.goto k x).pos i = .spin true) (hj : (s.goto k x).pos j = .spin true) : i = j := by
  have hold : ∀ i, (s.goto k x).pos i = .spin true → s.pos i = .spin true := by
    intro i hi
    by_cases hik : i = k
    · subst hik
      exact absurd (by simpa [State.goto] using hi) hx
    · simpa [State.goto, hik] using hi
  exact h.one i j (hold i hi) (hold j hj)

theorem inv_post (h : Inv s) (hk : s.pos k = .out) :
    Inv { s.goto k .blocked with sem := s.sem + 1 } := by
  have hnot : k ∉ s.between := by simp [State.between, hk, Pos.between]
  have hset : (s.goto k .blocked).between = insert k s.between := between_post .blocked rfl
  refine ⟨?_, ?_, one_goto h (by simp)⟩
  · show (s.goto k .blocked).between.Finite
    rw [hset]
    exact h.finite.insert k
  · show s.sem + 1 + s.poller.held = (s.goto k .blocked).between.ncard
    rw [hset, Set.ncard_insert_of_notMem hnot h.finite, ← h.tokens]
    omega

theorem inv_unblock (h : Inv s) (hk : s.pos k = .blocked) : Inv (s.goto k (.spin false)) := by
  have hset : (s.goto k (.spin false)).between = s.between := between_goto_of_eq (by rw [hk]; rfl)
  refine ⟨?_, ?_, one_goto h (by simp)⟩
  · rw [hset]
    exact h.finite
  · rw [hset]
    exact h.tokens

/-- `trywait` fails. -/
theorem inv_fail (h : Inv s) (hk : k ∈ s.between) (hsem : s.sem = 0) :
    Inv (s.goto k (.spin true)) := by
  have hset : (s.goto k (.spin true)).between = s.between := between_goto_of_eq (by symm; exact hk)
  obtain ⟨-, halone⟩ := h.alone hk hsem
  have honly : ∀ i, (s.goto k (.spin true)).pos i = .spin true → i = k := by
    intro i hi
    apply halone
    rw [← hset]
    simp [State.between, hi, Pos.between]
  refine ⟨?_, ?_, fun i j hi hj => (honly i hi).trans (honly j hj).symm⟩
  · rw [hset]
    exact h.finite
  · rw [hset]
    exact h.tokens

/-- `trywait` succeeds. -/
theorem inv_take (h : Inv s) (hk : k ∈ s.between) (hsem : s.sem ≠ 0) :
    Inv { s.goto k .out with sem := s.sem - 1 } := by
  have hset : (s.goto k .out).between = s.between \ {k} := between_out
  refine ⟨?_, ?_, one_goto h (by simp)⟩
  · show (s.goto k .out).between.Finite
    rw [hset]
    exact h.finite.sdiff
  · show s.sem - 1 + s.poller.held = (s.goto k .out).between.ncard
    have hcard := Set.ncard_sdiff_singleton_add_one hk h.finite
    have htokens := h.tokens
    rw [hset]
    omega

theorem inv_step {a : Action K} (h : Inv s) (hs : step s a = some s') : Inv s' := by
  cases a with
  | post k =>
    simp only [step] at hs
    split_ifs at hs with hk
    cases hs
    exact inv_post h hk.1
  | unblock k =>
    simp only [step] at hs
    split_ifs at hs with hk
    cases hs
    exact inv_unblock h hk
  | trywait k =>
    simp only [step] at hs
    split at hs
    next failed hk =>
      have hmem : k ∈ s.between := by simp [State.between, hk, Pos.between]
      split_ifs at hs with hsem
      · cases hs
        exact inv_fail h hmem hsem
      · cases hs
        exact inv_take h hmem hsem
    next => cases hs
    next => cases hs
  | obtain =>
    simp only [step] at hs
    split_ifs at hs with hp
    cases hs
    have htokens := h.tokens
    rw [hp.1] at htokens
    refine { h with tokens := ?_ }
    show s.sem - 1 + 1 = s.between.ncard
    simp only [Poller.held] at htokens
    omega
  | timeout =>
    simp only [step] at hs
    split_ifs at hs with hp
    cases hs
    exact { h with tokens := by simpa [hp, Poller.held, State.between] using h.tokens }
  | giveBack =>
    simp only [step] at hs
    split_ifs at hs with hp
    cases hs
    exact { h with tokens := by simpa [hp.1, Poller.held, State.between] using h.tokens }
  | polled =>
    simp only [step] at hs
    split_ifs at hs with hp
    cases hs
    exact { h with tokens := by simpa [hp, Poller.held, State.between] using h.tokens }

/-- **The semaphore counts the blocked kThreads**, but for a token that the poller is about to give
back. A `trywait` fails while the poller holds it only, for a kThread that is the only one to have
posted, and no second kThread comes to spin for it. -/
theorem tokens_counted (h : (machine K).Reachable s) :
    (s.between.Finite ∧ s.sem + s.poller.held = s.between.ncard) ∧
      (∀ k failed, s.pos k = .spin failed → s.sem = 0 → s.poller = .holding ∧
        ∀ j ∈ s.between, j = k) ∧
      ∀ j k, s.pos j = .spin true → s.pos k = .spin true → j = k := by
  have hinv : Inv s := by
    refine Machine.Reachable.invariant (I := Inv) ?_ (fun _ _ _ hinv hs => inv_step hinv hs) h
    rintro s rfl
    have hempty : State.between (⟨fun _ => .out, 0, .wait⟩ : State K) = ∅ := by
      ext k
      simp [State.between, Pos.between]
    exact ⟨by simp [hempty], by simp [hempty, Poller.held], by simp⟩
  refine ⟨⟨hinv.finite, hinv.tokens⟩, fun k failed hk hsem => ?_, hinv.one⟩
  exact hinv.alone (by simp [State.between, hk, Pos.between]) hsem

/-- kThread `false` posts, the poller takes its token, and `trywait` fails; then kThread `true`
posts. -/
def borrowed : List (Action Bool) :=
  [.post false, .obtain, .unblock false, .trywait false, .post true]

theorem tokens_counted_borrowed : ∃ s : State Bool, (machine Bool).Reachable s ∧
    s.pos false = .spin true ∧
    s.sem + s.poller.held = s.between.ncard ∧ s.sem + s.poller.held = 2 := by
  have hinit : (machine Bool).Reachable ⟨fun _ => .out, 0, .wait⟩ := .of_init rfl
  have hr := hinit.get borrowed (by decide +kernel)
  exact ⟨_, hr, by decide +kernel, (tokens_counted hr).1.2, by decide +kernel⟩

end UThreads.PollerSemaphore
