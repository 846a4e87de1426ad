import UThreads.Io.PollCache
import UThreads.Lib.Placement

/-!
# `PollCache`: who owns a `PollData`

* **`poll_data_shared`**: two concurrent `close` calls on one connection may both pass the check of
  `closing`, and then two open connections may have one `PollData`.
* **`poll_data_unshared`**: no `PollData` is shared as long as no `close` call comes to the check
  after another one on the same connection has cleared `closing`.
-/

namespace UThreads.PollCache

open IOHandler (Dir Slot Unblock Closer)
open IntrusiveQueue (Holds)

/-! ## Two closers -/

/-- Threads `0` and `1` close connection `0`, and both are at the check of `closing`. -/
def bothClose : List (Action ℕ ℕ) :=
  [.construct 0, .close 0 0, .close 1 0] ++ List.replicate 7 (.run 0) ++ List.replicate 6 (.run 1)

/-- Thread `0` passes the check and clears `closing`. Thread `1` passes it too. Thread `0` recycles
the object, and connection `128` gets it. Then thread `1` recycles it. -/
def bothPass : List (Action ℕ ℕ) :=
  bothClose ++ List.flatten [List.replicate 5 (.run 0), [.run 1], List.replicate 2 (.run 0),
    (List.range 128).map fun i => .construct (i + 1), List.replicate 6 (.run 1)]

set_option maxRecDepth 8000 in
/-- **A `PollData` is shared.** Two `close` calls on one connection pass the check. The object is
then in the cache while an open connection owns it, and the next connection gets it too. -/
theorem poll_data_shared :
    (∃ s : State ℕ ℕ, (machine ℕ ℕ).Reachable s ∧ s.passed 0 = 2 ∧ s.phase 128 = .opened ∧
      s.conn 128 = some 0 ∧ s.cache.head = some 0) ∧
    ∃ s : State ℕ ℕ, (machine ℕ ℕ).Reachable s ∧ s.phase 128 = .opened ∧ s.phase 129 = .opened ∧
      s.conn 128 = some 0 ∧ s.conn 129 = some 0 := by
  have hinit : (machine ℕ ℕ).Reachable initial := .of_init rfl
  -- The second run is the first one and one step more.
  have hruns : ((machine ℕ ℕ).run initial bothPass).any (fun s =>
      decide (s.passed 0 = 2 ∧ s.phase 128 = .opened ∧ s.conn 128 = some 0 ∧
        s.cache.head = some 0) &&
      ((machine ℕ ℕ).step s (.construct 129)).any fun s =>
        decide (s.phase 128 = .opened ∧ s.phase 129 = .opened ∧ s.conn 128 = some 0 ∧
          s.conn 129 = some 0)) = true := by
    decide +kernel
  obtain ⟨s, hs, hboth⟩ := (Option.any_eq_true _ _).mp hruns
  obtain ⟨hfirst, hsecond⟩ := Bool.and_eq_true_iff.mp hboth
  obtain ⟨s', hs', hsecond⟩ := (Option.any_eq_true _ _).mp hsecond
  have hreach := hinit.run hs
  exact ⟨⟨s, hreach, of_decide_eq_true hfirst⟩, s', hreach.next hs', of_decide_eq_true hsecond⟩

variable {C T : Type*} [DecidableEq C] [DecidableEq T]

/-- If a thread is at the check of `closing`, no other one on the same connection has cleared it. -/
def Uncleared (s : State C T) : Option (C × Closer) → Prop
  | none => True
  | some (c, x) => x = .cas → s.phase c = .opened ∨ s.phase c = .closing

/-- No `close` call comes to the check of `closing` after another one on the same connection has
cleared it. -/
def Arbitrated (s : State C T) : Action C T → Prop
  | .run t => Uncleared s (s.closer t)
  | .construct _ | .close _ _ | .write _ _ _ => True

instance (s : State C T) : (x : Option (C × Closer)) → Decidable (Uncleared s x)
  | none => inferInstanceAs (Decidable True)
  | some (_, _) => inferInstanceAs (Decidable (_ → _))

instance (s : State C T) : (a : Action C T) → Decidable (Arbitrated s a)
  | .run t => inferInstanceAs (Decidable (Uncleared s (s.closer t)))
  | .construct _ | .close _ _ | .write _ _ _ => inferInstanceAs (Decidable True)

/-! ## The invariant -/

/-- The phase of the connection while a thread is past the check. -/
def phase? : Closer → Option Phase
  | .delete | .resetRut | .resetWut | .resetClosing => some .closing
  | .resetOpened | .recycle => some .reset
  | _ => none

/-- Connection `c` has the object `p` and has not put it in the cache. -/
def Owns (s : State C T) (c : C) (p : ℕ) : Prop := s.conn c = some p ∧ s.phase c ≠ .closed

inductive Place (C : Type*)
  | cache
  | conn (c : C)

/-- Where object `p` is, with the objects `l` in the cache. -/
def At (s : State C T) (l : List ℕ) (p : ℕ) : Place C → Prop
  | .cache => p ∈ l
  | .conn c => Owns s c p

/-- The counts of a connection. -/
def Phase.Counts : Phase → (tried passed : ℕ) → Prop
  | .none, tried, passed | .opened, tried, passed => tried = 0 ∧ passed = 0
  | .closing, tried, passed | .reset, tried, passed | .closed, tried, passed =>
    0 < tried ∧ passed = 1

/-- The objects `l` are in the cache. -/
structure Cached (s : State C T) (l : List ℕ) : Prop where
  holds : Holds s.next s.cache l
  null : ∀ p, p ∉ l → s.next p = none
  free : ∀ p ∈ l, (s.pd p).closing = false

structure Inv (s : State C T) (l : List ℕ) : Prop where
  cached : Cached s l
  placement : Placement (At s l) (· < s.fresh)
  constructed : ∀ c, s.phase c = .none ↔ s.conn c = none
  /-- `closing` is set from the check to the reset. -/
  flag : ∀ c p, Owns s c p → ((s.pd p).closing = true ↔ s.phase c = .closing)
  /-- Who is past the check is alone. -/
  closer : ∀ t c x ph, s.closer t = some (c, x) → phase? x = some ph → s.phase c = ph
  alone : ∀ t t' c x x' ph ph', s.closer t = some (c, x) → phase? x = some ph →
    s.closer t' = some (c, x') → phase? x' = some ph' → t = t'
  counts : ∀ c, (s.phase c).Counts (s.tried c) (s.passed c)

/-- The connections and the threads that close them are the same. -/
structure Same (s s' : State C T) : Prop where
  conn : s'.conn = s.conn
  closer : s'.closer = s.closer
  phase : s'.phase = s.phase
  tried : s'.tried = s.tried
  passed : s'.passed = s.passed

section Steps

variable {s s' : State C T} {l : List ℕ} {t : T} {c : C} {p : ℕ}

/-! ### The cache -/

omit [DecidableEq C] [DecidableEq T] in
theorem allocate_spec (h : Cached s l) (hl : ∀ p ∈ l, p < s.fresh) :
    ∃ s', allocate s = some s' ∧ Cached s' (l ++ [s.fresh]) ∧ s'.fresh = s.fresh + 1 ∧
      (∀ p, p < s.fresh → s'.pd p = s.pd p) ∧ Same s s' := by
  have hnew : s.fresh ∉ l := fun hmem => Nat.lt_irrefl _ (hl _ hmem)
  have hholds : Holds (Function.update s.next s.fresh none) s.cache l :=
    h.holds.congr fun p hp => Function.update_of_ne (Nat.ne_of_lt (hl p hp)) ..
  obtain ⟨next, cache, hpush, hcache, hframe⟩ :=
    IntrusiveQueue.push_spec hholds hnew (Function.update_self ..)
  refine ⟨{ s with
    pd := Function.update s.pd s.fresh .new, next := next, cache := cache, fresh := s.fresh + 1 },
    by simp [allocate, hpush], ⟨hcache, ?_, ?_⟩, rfl, ?_, rfl, rfl, rfl, rfl, rfl⟩
  · intro p hp
    simp only [List.mem_append, List.mem_singleton, not_or] at hp
    show next p = none
    rw [hframe p hp.1, Function.update_of_ne hp.2]
    exact h.null p hp.1
  · intro p hp
    show (Function.update s.pd s.fresh .new p).closing = false
    by_cases hpf : p = s.fresh
    · rw [hpf, Function.update_self]
      rfl
    · rw [Function.update_of_ne hpf]
      simp only [List.mem_append, List.mem_singleton, hpf, or_false] at hp
      exact h.free p hp
  · intro p hp
    exact Function.update_of_ne (Nat.ne_of_lt hp) ..

omit [DecidableEq C] [DecidableEq T] in
/-- The new objects are in the cache, after the old ones. -/
theorem fill_spec (n : ℕ) (h : Cached s l) (hl : ∀ p ∈ l, p < s.fresh) :
    ∃ s', fill n s = some s' ∧ Cached s' (l ++ List.range' s.fresh n) ∧ s'.fresh = s.fresh + n ∧
      (∀ p, p < s.fresh → s'.pd p = s.pd p) ∧ Same s s' := by
  induction n generalizing s l with
  | zero => exact ⟨s, rfl, by simpa using h, rfl, fun _ _ => rfl, rfl, rfl, rfl, rfl, rfl⟩
  | succ n ih =>
    obtain ⟨s₁, halloc, hcached, hfresh, hpd, hsame⟩ := allocate_spec h hl
    have hl₁ : ∀ p ∈ l ++ [s.fresh], p < s₁.fresh := by
      intro p hp
      rw [hfresh]
      rcases List.mem_append.mp hp with hp | hp
      · exact Nat.lt_succ_of_lt (hl p hp)
      · rw [List.mem_singleton.mp hp]
        exact Nat.lt_succ_self _
    obtain ⟨s₂, hfill, hcached₂, hfresh₂, hpd₂, hsame₂⟩ := ih hcached hl₁
    refine ⟨s₂, by simp [fill, halloc, hfill], ?_, by omega, fun p hp => ?_,
      hsame₂.conn.trans hsame.conn, hsame₂.closer.trans hsame.closer,
      hsame₂.phase.trans hsame.phase,
      hsame₂.tried.trans hsame.tried, hsame₂.passed.trans hsame.passed⟩
    · rw [hfresh, List.append_assoc] at hcached₂
      exact hcached₂
    · rw [hpd₂ p (by omega), hpd p hp]

omit [DecidableEq C] [DecidableEq T] in
/-- An object is taken from the cache, which may have been filled with `n` new ones before. -/
theorem getPollData_spec (h : Cached s l) (hl : ∀ p ∈ l, p < s.fresh) :
    ∃ p l' n s', getPollData s = some (p, s') ∧ l ++ List.range' s.fresh n = p :: l' ∧
      Cached s' l' ∧
      (s'.pd p).closing = false ∧ s'.fresh = s.fresh + n ∧ (∀ q, q < s.fresh → s'.pd q = s.pd q) ∧
      Same s s' := by
  obtain ⟨n, s₁, hfill, hcached, hne, hfresh, hpd, hsame⟩ : ∃ n s₁,
      (if s.cache.head = none then fill 128 s else some s) = some s₁ ∧
      Cached s₁ (l ++ List.range' s.fresh n) ∧ l ++ List.range' s.fresh n ≠ [] ∧
      s₁.fresh = s.fresh + n ∧ (∀ q, q < s.fresh → s₁.pd q = s.pd q) ∧ Same s s₁ := by
    by_cases hempty : s.cache.head = none
    · obtain ⟨s₁, hfill, hrest⟩ := fill_spec 128 h hl
      exact ⟨128, s₁, by rw [if_pos hempty, hfill], hrest.1, by simp, hrest.2⟩
    · refine ⟨0, s, if_neg hempty, by simpa using h, ?_, rfl, fun _ _ => rfl, rfl, rfl,
        rfl, rfl, rfl⟩
      rw [h.holds.head_none_iff] at hempty
      simpa using hempty
  obtain ⟨p, l', hl'⟩ := List.exists_cons_of_ne_nil hne
  rw [hl'] at hcached
  obtain ⟨next, cache, hpop, hholds, hnull, hframe⟩ := IntrusiveQueue.pop_spec hcached.holds
  have hnodup := List.nodup_cons.mp hcached.holds.nodup
  refine ⟨p, l', n, { s₁ with next := next, cache := cache }, ?_, hl', ⟨hholds, ?_, ?_⟩, ?_,
    hfresh, hpd, hsame.conn, hsame.closer, hsame.phase, hsame.tried, hsame.passed⟩
  · simp only [getPollData, hfill, Option.bind_some, hpop, Option.map_some]
  · intro q hq
    by_cases hqp : q = p
    · rw [hqp]
      exact hnull
    · show next q = none
      rw [hframe q hqp]
      exact hcached.null q (by simp [hqp, hq])
  · exact fun q hq => hcached.free q (List.mem_cons_of_mem _ hq)
  · exact hcached.free p List.mem_cons_self

omit [DecidableEq C] [DecidableEq T] in
theorem pushPollData_spec (h : Cached s l) (hp : p ∉ l) (hfree : (s.pd p).closing = false) :
    ∃ next cache, pushPollData p s = some { s with next := next, cache := cache } ∧
      Cached { s with next := next, cache := cache } (l ++ [p]) := by
  obtain ⟨next, cache, hpush, hholds, hframe⟩ := IntrusiveQueue.push_spec h.holds hp (h.null p hp)
  refine ⟨next, cache, by simp [pushPollData, hpush], hholds, ?_, ?_⟩
  · intro q hq
    simp only [List.mem_append, List.mem_singleton, not_or] at hq
    show next q = none
    rw [hframe q hq.1]
    exact h.null q hq.1
  · intro q hq
    rcases List.mem_append.mp hq with hq | hq
    · exact h.free q hq
    · rw [List.mem_singleton.mp hq]
      exact hfree

/-! ### The steps -/

omit [DecidableEq C] [DecidableEq T] in
theorem Inv.lt_fresh (h : Inv s l) (hp : p ∈ l) : p < s.fresh := h.placement.item p .cache hp

omit [DecidableEq C] [DecidableEq T] in
theorem Inv.owner_unique (h : Inv s l) {c' : C} (hc : Owns s c p) (hc' : Owns s c' p) : c = c' := by
  have hat : At s l p (.conn c) := hc
  have hat' : At s l p (.conn c') := hc'
  exact Place.conn.inj (h.placement.unique hat hat')

omit [DecidableEq C] [DecidableEq T] in
theorem Inv.not_cached (h : Inv s l) (hc : Owns s c p) : p ∉ l := by
  intro hp
  have hat : At s l p (.conn c) := hc
  have hat' : At s l p .cache := hp
  cases h.placement.unique hat hat'

omit [DecidableEq C] [DecidableEq T] in
/-- The steps of `close` before the check, and those after it that do not touch `closing`. -/
theorem close_quiet (d : PollData) {x : Closer} (hcas : x ≠ .cas) (hreset : x ≠ .resetClosing)
    (hrecycle : x ≠ .recycle) :
    (d.close x).1.closing = d.closing ∧ phase? (d.close x).2 = phase? x := by
  cases x with
  | cas => exact absurd rfl hcas
  | resetClosing => exact absurd rfl hreset
  | recycle => exact absurd rfl hrecycle
  | testRut =>
    refine ⟨rfl, ?_⟩
    simp only [PollData.close]
    split_ifs <;> rfl
  | unblockRut u =>
    cases u with
    | ret => exact ⟨rfl, rfl⟩
    | closing | read | cas | push | pushing => exact ⟨rfl, rfl⟩
  | unblockWut u =>
    cases u with
    | ret => exact ⟨rfl, rfl⟩
    | closing | read | cas | push | pushing => exact ⟨rfl, rfl⟩
  | idle | testWut | delete | resetRut | resetWut | resetOpened | done => exact ⟨rfl, rfl⟩

omit [DecidableEq C] [DecidableEq T] in
/-- Who is past the check closes a connection that has its object. -/
theorem Inv.owns (h : Inv s l) {x : Closer} {ph : Phase} (ht : s.closer t = some (c, x))
    (hconn : s.conn c = some p) (hx : phase? x = some ph) : Owns s c p := by
  refine ⟨hconn, ?_⟩
  rw [h.closer t c x ph ht hx]
  cases x <;> simp_all [phase?] <;> simp [← hx]

omit [DecidableEq C] in
/-- Thread `t` takes a step that changes neither `closing` nor the phase. -/
theorem Inv.goto (h : Inv s l) {x y : Closer} {d : PollData} (ht : s.closer t = some (c, x))
    (hpd : s'.pd = Function.update s.pd p d) (hd : d.closing = (s.pd p).closing)
    (hcloser : s'.closer = Function.update s.closer t (some (c, y))) (hy : phase? y = phase? x)
    (hnext : s'.next = s.next) (hcache : s'.cache = s.cache) (hfresh : s'.fresh = s.fresh)
    (hconn : s'.conn = s.conn) (hphase : s'.phase = s.phase)
    (hcounts : ∀ c, (s.phase c).Counts (s'.tried c) (s'.passed c)) : Inv s' l := by
  have hclosing : ∀ q, (s'.pd q).closing = (s.pd q).closing := by
    intro q
    rw [hpd]
    by_cases hq : q = p
    · rw [hq, Function.update_self, hd]
    · rw [Function.update_of_ne hq]
  have howns : ∀ c q, Owns s' c q ↔ Owns s c q := fun c q => by unfold Owns; rw [hconn, hphase]
  -- Whoever is past the check in `s'` was so in `s`.
  have hback : ∀ t' c' x' ph, s'.closer t' = some (c', x') → phase? x' = some ph →
      ∃ x'', s.closer t' = some (c', x'') ∧ phase? x'' = some ph := by
    intro t' c' x' ph ht' hx'
    rw [hcloser] at ht'
    by_cases htt : t' = t
    · rw [htt, Function.update_self] at ht'
      obtain ⟨rfl, rfl⟩ := Prod.mk.inj (Option.some.inj ht')
      exact ⟨x, by rw [htt]; exact ht, by rw [← hy]; exact hx'⟩
    · rw [Function.update_of_ne htt] at ht'
      exact ⟨x', ht', hx'⟩
  refine ⟨⟨?_, ?_, ?_⟩, ?_, ?_, ?_, ?_, ?_, ?_⟩
  · rw [hnext, hcache]
    exact h.cached.holds
  · rw [hnext]
    exact h.cached.null
  · intro q hq
    rw [hclosing]
    exact h.cached.free q hq
  · rw [hfresh]
    refine h.placement.frame fun q pl => ?_
    cases pl with
    | cache => exact Iff.rfl
    | conn c' => exact howns c' q
  · rw [hphase, hconn]
    exact h.constructed
  · intro c' q hq
    rw [hclosing, hphase]
    exact h.flag c' q ((howns c' q).mp hq)
  · intro t' c' x' ph ht' hx'
    obtain ⟨x'', ht'', hx''⟩ := hback t' c' x' ph ht' hx'
    rw [hphase]
    exact h.closer t' c' x'' ph ht'' hx''
  · intro t₁ t₂ c' x₁ x₂ ph₁ ph₂ h₁ hx₁ h₂ hx₂
    obtain ⟨y₁, h₁, hy₁⟩ := hback t₁ c' x₁ ph₁ h₁ hx₁
    obtain ⟨y₂, h₂, hy₂⟩ := hback t₂ c' x₂ ph₂ h₂ hx₂
    exact h.alone t₁ t₂ c' y₁ y₂ ph₁ ph₂ h₁ hy₁ h₂ hy₂
  · rw [hphase]
    exact hcounts

/-- Thread `t`, past the check or passing it, brings its connection to the next phase. -/
theorem Inv.advance (h : Inv s l) {y : Closer} {d : PollData} {ph : Phase} (howns : Owns s c p)
    (hpd : s'.pd = Function.update s.pd p d)
    (hcloser : s'.closer = Function.update s.closer t (some (c, y)))
    (hphase : s'.phase = Function.update s.phase c ph) (hclosed : ph ≠ .closed) (hnone : ph ≠ .none)
    (hd : d.closing = true ↔ ph = .closing) (hy : phase? y = some ph)
    (halone : ∀ t' x ph, t' ≠ t → s.closer t' = some (c, x) → phase? x ≠ some ph)
    (hnext : s'.next = s.next) (hcache : s'.cache = s.cache) (hfresh : s'.fresh = s.fresh)
    (hconn : s'.conn = s.conn) (hcounts : ph.Counts (s'.tried c) (s'.passed c))
    (htried : ∀ c', c' ≠ c → s'.tried c' = s.tried c' ∧ s'.passed c' = s.passed c') : Inv s' l := by
  have howns' : ∀ c' q, Owns s' c' q ↔ Owns s c' q := by
    intro c' q
    unfold Owns
    rw [hconn, hphase]
    by_cases hc : c' = c
    · rw [hc, Function.update_self]
      exact and_congr_right fun _ => iff_of_true hclosed howns.2
    · rw [Function.update_of_ne hc]
  have hother : ∀ c' q, c' ≠ c → Owns s c' q → s'.pd q = s.pd q := by
    intro c' q hc hq
    rw [hpd, Function.update_of_ne]
    rintro rfl
    exact hc (h.owner_unique hq howns)
  -- Nobody else is past the check on `c`.
  have hback : ∀ t' c' x' ph', s'.closer t' = some (c', x') → phase? x' = some ph' →
      t' = t ∧ c' = c ∧ ph' = ph ∨ t' ≠ t ∧ c' ≠ c ∧ s.closer t' = some (c', x') := by
    intro t' c' x' ph' ht' hx'
    rw [hcloser] at ht'
    by_cases htt : t' = t
    · rw [htt, Function.update_self] at ht'
      obtain ⟨rfl, rfl⟩ := Prod.mk.inj (Option.some.inj ht')
      exact .inl ⟨htt, rfl, Option.some.inj (hx'.symm.trans hy)⟩
    · rw [Function.update_of_ne htt] at ht'
      refine .inr ⟨htt, ?_, ht'⟩
      rintro rfl
      exact halone t' x' ph' htt ht' hx'
  refine ⟨⟨?_, ?_, ?_⟩, ?_, ?_, ?_, ?_, ?_, ?_⟩
  · rw [hnext, hcache]
    exact h.cached.holds
  · rw [hnext]
    exact h.cached.null
  · intro q hq
    rw [hpd, Function.update_of_ne]
    · exact h.cached.free q hq
    · rintro rfl
      exact h.not_cached howns hq
  · rw [hfresh]
    refine h.placement.frame fun q pl => ?_
    cases pl with
    | cache => exact Iff.rfl
    | conn c' => exact howns' c' q
  · intro c'
    rw [hphase, hconn]
    by_cases hc : c' = c
    · rw [hc, Function.update_self, howns.1]
      simp [hnone]
    · rw [Function.update_of_ne hc]
      exact h.constructed c'
  · intro c' q hq
    have hq' := (howns' c' q).mp hq
    by_cases hc : c' = c
    · subst hc
      obtain rfl : p = q := Option.some.inj (howns.1.symm.trans hq'.1)
      rw [hpd, hphase, Function.update_self, Function.update_self]
      exact hd
    · rw [hother c' q hc hq', hphase, Function.update_of_ne hc]
      exact h.flag c' q hq'
  · intro t' c' x' ph' ht' hx'
    rw [hphase]
    rcases hback t' c' x' ph' ht' hx' with ⟨-, rfl, rfl⟩ | ⟨-, hc, ht'⟩
    · exact Function.update_self ..
    · rw [Function.update_of_ne hc]
      exact h.closer t' c' x' ph' ht' hx'
  · intro t₁ t₂ c' x₁ x₂ ph₁ ph₂ h₁ hx₁ h₂ hx₂
    rcases hback t₁ c' x₁ ph₁ h₁ hx₁ with ⟨rfl, rfl, -⟩ | ⟨-, hc, h₁⟩
    · rcases hback t₂ _ x₂ ph₂ h₂ hx₂ with ⟨rfl, -⟩ | ⟨-, hc, -⟩
      · rfl
      · exact absurd rfl hc
    · rcases hback t₂ c' x₂ ph₂ h₂ hx₂ with ⟨-, hc', -⟩ | ⟨-, -, h₂⟩
      · exact absurd hc' hc
      · exact h.alone t₁ t₂ c' x₁ x₂ ph₁ ph₂ h₁ hx₁ h₂ hx₂
  · intro c'
    rw [hphase]
    by_cases hc : c' = c
    · rw [hc, Function.update_self]
      exact hcounts
    · rw [Function.update_of_ne hc, (htried c' hc).1, (htried c' hc).2]
      exact h.counts c'

/-- Thread `t` comes to the check of `closing`. -/
theorem inv_cas (h : Inv s l) (ht : s.closer t = some (c, .cas)) (hconn : s.conn c = some p)
    (hc : s.phase c = .opened ∨ s.phase c = .closing) (hs : closeStep t c p s .cas = some s') :
    Inv s' l := by
  have howns : Owns s c p := ⟨hconn, by rcases hc with hc | hc <;> simp [hc]⟩
  have hflag := h.flag c p howns
  have hcount := h.counts c
  simp only [closeStep, PollData.close] at hs
  obtain rfl := Option.some.inj hs
  by_cases hclosing : (s.pd p).closing = true
  · -- Another call is past the check.
    have hphase := hflag.mp hclosing
    rw [hphase] at hcount
    refine h.goto ht (y := .done) (d := s.pd p) (p := p) ?_ rfl ?_ rfl ?_ ?_ ?_ ?_ ?_ ?_
    all_goals simp only [hclosing, if_true, State.goto, reduceCtorEq, if_false]
    intro c'
    by_cases hcc : c' = c
    · subst hcc
      rw [Function.update_self, hphase]
      exact ⟨Nat.succ_pos _, hcount.2⟩
    · rw [Function.update_of_ne hcc]
      exact h.counts c'
  · -- The connection is open.
    have hopen : s.phase c = .opened := hc.resolve_right fun hp => hclosing (hflag.mpr hp)
    rw [hopen] at hcount
    refine h.advance (t := t) (y := .delete) (d := { s.pd p with closing := true })
      howns ?_ ?_ ?_ (by simp) (by simp) (by simp) rfl ?_ ?_ ?_ ?_ ?_ ?_ ?_
    case refine_4 =>
      intro t' x ph _ ht' hx
      have hph := h.closer t' c x ph ht' hx
      rw [hopen] at hph
      subst hph
      cases x <;> simp [phase?] at hx
    all_goals simp only [hclosing, State.goto, Bool.false_eq_true, if_true, if_false]
    · rw [Function.update_self, Function.update_self, hcount.1, hcount.2]
      exact ⟨Nat.one_pos, rfl⟩
    · intro c' hcc
      rw [Function.update_of_ne hcc, Function.update_of_ne hcc]
      exact ⟨rfl, rfl⟩

/-- Thread `t` clears `closing`. -/
theorem inv_resetClosing (h : Inv s l) (ht : s.closer t = some (c, .resetClosing))
    (hconn : s.conn c = some p) (hs : closeStep t c p s .resetClosing = some s') : Inv s' l := by
  obtain rfl := Option.some.inj hs
  have hphase : s.phase c = .closing := h.closer t c _ _ ht rfl
  have hcount := h.counts c
  rw [hphase] at hcount
  refine h.advance (t := t) (y := .resetOpened) (h.owns ht hconn rfl) rfl rfl rfl (by simp)
    (by simp) (by simp [PollData.close]) rfl ?_ rfl rfl rfl rfl hcount fun _ _ => ⟨rfl, rfl⟩
  intro t' x ph hne ht' hx
  exact hne (h.alone t' t c x _ ph _ ht' hx ht rfl)

/-- Thread `t` puts the object in the cache. -/
theorem inv_recycle (h : Inv s l) (ht : s.closer t = some (c, .recycle)) (hconn : s.conn c = some p)
    (hs : closeStep t c p s .recycle = some s') : Inv s' (l ++ [p]) := by
  have howns : Owns s c p := h.owns ht hconn rfl
  have hphase : s.phase c = .reset := h.closer t c _ _ ht rfl
  have hfree : (s.pd p).closing = false := by
    rw [← Bool.not_eq_true, h.flag c p howns, hphase]
    simp
  have hcount := h.counts c
  rw [hphase] at hcount
  obtain ⟨next, cache, hpush, hcached⟩ := pushPollData_spec h.cached (h.not_cached howns) hfree
  simp only [closeStep, hpush, Option.map_some] at hs
  obtain rfl := Option.some.inj hs
  have howns' : ∀ c' q, Owns ({ s with
      next := next, cache := cache
      phase := Function.update s.phase c .closed }.goto t c .done) c' q ↔
      Owns s c' q ∧ c' ≠ c := by
    intro c' q
    show s.conn c' = some q ∧ Function.update s.phase c .closed c' ≠ .closed ↔ _
    by_cases hc : c' = c
    · simp [hc]
    · rw [Function.update_of_ne hc]
      exact (and_iff_left hc).symm
  have hback : ∀ t' c' x' ph, Function.update s.closer t (some (c, .done)) t' = some (c', x') →
      phase? x' = some ph → c' ≠ c ∧ s.closer t' = some (c', x') := by
    intro t' c' x' ph ht' hx'
    by_cases htt : t' = t
    · rw [htt, Function.update_self] at ht'
      obtain ⟨rfl, rfl⟩ := Prod.mk.inj (Option.some.inj ht')
      cases hx'
    · rw [Function.update_of_ne htt] at ht'
      refine ⟨?_, ht'⟩
      rintro rfl
      exact htt (h.alone t' t c' x' _ ph _ ht' hx' ht rfl)
  refine ⟨⟨hcached.holds, hcached.null, hcached.free⟩, ?_, ?_, ?_, ?_, ?_, ?_⟩
  · refine h.placement.move (t := p) (p := .conn c) (q := .cache) howns fun q pl => ?_
    cases pl with
    | cache =>
      simp only [At, List.mem_append, List.mem_singleton, and_true, reduceCtorEq, and_false,
        not_false_eq_true]
      exact or_comm
    | conn c' =>
      simp only [At, howns', reduceCtorEq, and_false, false_or, Place.conn.injEq]
      refine and_congr_right fun hq => not_congr ⟨?_, And.right⟩
      rintro rfl
      exact ⟨Option.some.inj (hq.1.symm.trans hconn), rfl⟩
  · intro c'
    show Function.update s.phase c .closed c' = .none ↔ s.conn c' = none
    by_cases hc : c' = c
    · rw [hc, Function.update_self, hconn]
      simp
    · rw [Function.update_of_ne hc]
      exact h.constructed c'
  · intro c' q hq
    obtain ⟨hq', hc⟩ := (howns' c' q).mp hq
    show (s.pd q).closing = true ↔ Function.update s.phase c .closed c' = .closing
    rw [Function.update_of_ne hc]
    exact h.flag c' q hq'
  · intro t' c' x' ph ht' hx'
    obtain ⟨hc, ht'⟩ := hback t' c' x' ph ht' hx'
    show Function.update s.phase c .closed c' = ph
    rw [Function.update_of_ne hc]
    exact h.closer t' c' x' ph ht' hx'
  · intro t₁ t₂ c' x₁ x₂ ph₁ ph₂ h₁ hx₁ h₂ hx₂
    obtain ⟨-, h₁⟩ := hback t₁ c' x₁ ph₁ h₁ hx₁
    obtain ⟨-, h₂⟩ := hback t₂ c' x₂ ph₂ h₂ hx₂
    exact h.alone t₁ t₂ c' x₁ x₂ ph₁ ph₂ h₁ hx₁ h₂ hx₂
  · intro c'
    show (Function.update s.phase c .closed c').Counts (s.tried c') (s.passed c')
    by_cases hc : c' = c
    · rw [hc, Function.update_self]
      exact hcount
    · rw [Function.update_of_ne hc]
      exact h.counts c'

omit [DecidableEq C] in
/-- Thread `t` begins a call of `close`, or returns from it. -/
theorem Inv.setCloser (h : Inv s l) {x : Option (C × Closer)}
    (hx : ∀ c y, x = some (c, y) → phase? y = none) :
    Inv { s with closer := Function.update s.closer t x } l := by
  have hback : ∀ t' c' x' ph, Function.update s.closer t x t' = some (c', x') →
      phase? x' = some ph → s.closer t' = some (c', x') := by
    intro t' c' x' ph ht' hx'
    by_cases htt : t' = t
    · rw [htt, Function.update_self] at ht'
      simp [hx c' x' ht'] at hx'
    · rwa [Function.update_of_ne htt] at ht'
  refine ⟨⟨h.cached.holds, h.cached.null, h.cached.free⟩, h.placement, h.constructed, h.flag, ?_,
    ?_, h.counts⟩
  · intro t' c' x' ph ht' hx'
    exact h.closer t' c' x' ph (hback t' c' x' ph ht' hx') hx'
  · intro t₁ t₂ c' x₁ x₂ ph₁ ph₂ h₁ hx₁ h₂ hx₂
    exact h.alone t₁ t₂ c' x₁ x₂ ph₁ ph₂ (hback t₁ c' x₁ ph₁ h₁ hx₁) hx₁
      (hback t₂ c' x₂ ph₂ h₂ hx₂) hx₂

/-- A step of thread `t`. -/
theorem inv_run (h : Inv s l) {x : Closer} (ht : s.closer t = some (c, x))
    (hconn : s.conn c = some p)
    (hc : x = .cas → s.phase c = .opened ∨ s.phase c = .closing)
    (hs : closeStep t c p s x = some s') : ∃ l', Inv s' l' := by
  by_cases hcas : x = .cas
  · subst hcas
    exact ⟨l, inv_cas h ht hconn (hc rfl) hs⟩
  by_cases hreset : x = .resetClosing
  · subst hreset
    exact ⟨l, inv_resetClosing h ht hconn hs⟩
  by_cases hrecycle : x = .recycle
  · subst hrecycle
    exact ⟨l ++ [p], inv_recycle h ht hconn hs⟩
  by_cases hdone : x = .done
  · subst hdone
    obtain rfl := Option.some.inj hs
    exact ⟨l, h.setCloser (by simp)⟩
  obtain ⟨hd, hy⟩ := close_quiet (s.pd p) hcas hreset hrecycle
  have hs' : s' = { s with pd := Function.update s.pd p ((s.pd p).close x).1 }.goto t c
      ((s.pd p).close x).2 := by
    cases x <;> first | exact (Option.some.inj hs).symm | contradiction
  subst hs'
  exact ⟨l, h.goto ht rfl hd rfl hy rfl rfl rfl rfl rfl h.counts⟩

omit [DecidableEq T] in
/-- A connection is constructed. -/
theorem inv_construct (h : Inv s l) (hc : s.conn c = none) {r : ℕ × State C T}
    (hr : getPollData s = some r) :
    ∃ l', Inv { r.2 with
      conn := Function.update s.conn c (some r.1)
      phase := Function.update s.phase c .opened } l' := by
  obtain ⟨p, l', n, s', hget, hl, hcached, hfree, hfresh, hpd, hsame⟩ :=
    getPollData_spec h.cached fun q hq => h.lt_fresh hq
  obtain rfl : (p, s') = r := Option.some.inj (hget.symm.trans hr)
  have hphase : s.phase c = .none := (h.constructed c).mpr hc
  have hcount := h.counts c
  rw [hphase] at hcount
  have hnodup : (p :: l').Nodup := by
    rw [← hl, List.nodup_append']
    refine ⟨h.cached.holds.nodup, List.nodup_range', fun q hq hq' => ?_⟩
    have hlt := h.lt_fresh hq
    rw [List.mem_range'_1] at hq'
    omega
  have hp : p ∉ l' := (List.nodup_cons.mp hnodup).1
  have howns : ∀ c' q, Owns { s' with
      conn := Function.update s.conn c (some p), phase := Function.update s.phase c .opened } c' q ↔
      c' = c ∧ q = p ∨ Owns s c' q := by
    intro c' q
    show Function.update s.conn c (some p) c' = some q ∧
      Function.update s.phase c .opened c' ≠ .closed ↔ _
    by_cases hcc : c' = c
    · simp [hcc, Owns, hc, eq_comm]
    · simp [hcc, Owns]
  have hold : ∀ c' q, Owns s c' q → q < s.fresh := fun c' q hq => h.placement.item q (.conn c') hq
  refine ⟨l', ⟨hcached.holds, hcached.null, hcached.free⟩, ?_, ?_, ?_, ?_, ?_, ?_⟩
  · -- The new objects enter the cache, and then `p` leaves it.
    have henter : Placement (At s (p :: l')) (· < s'.fresh) := by
      refine h.placement.enter (q := .cache) (fun q => s.fresh ≤ q ∧ q < s'.fresh)
        (fun q hq => by omega) (fun q => by omega) fun q pl => ?_
      cases pl with
      | cache =>
        simp only [At, and_true, ← hl, List.mem_append, List.mem_range'_1, hfresh]
        exact or_comm
      | conn c' => simp [At]
    refine henter.move (t := p) (p := .cache) (q := .conn c) List.mem_cons_self fun q pl => ?_
    cases pl with
    | cache =>
      simp only [At, reduceCtorEq, and_false, false_or, and_true, List.mem_cons]
      constructor
      · intro hq
        refine ⟨.inr hq, ?_⟩
        rintro rfl
        exact hp hq
      · rintro ⟨hq | hq, hne⟩
        · exact absurd hq hne
        · exact hq
    | conn c' =>
      simp only [At, howns, Place.conn.injEq, reduceCtorEq, and_false, not_false_eq_true, and_true]
      rw [and_comm]
  · intro c'
    show Function.update s.phase c .opened c' = .none ↔ Function.update s.conn c (some p) c' = none
    by_cases hcc : c' = c
    · simp [hcc]
    · rw [Function.update_of_ne hcc, Function.update_of_ne hcc]
      exact h.constructed c'
  · intro c' q hq
    show (s'.pd q).closing = true ↔ Function.update s.phase c .opened c' = .closing
    rcases (howns c' q).mp hq with ⟨rfl, rfl⟩ | hq'
    · rw [Function.update_self, hfree]
      simp
    · have hcc : c' ≠ c := by
        rintro rfl
        exact absurd (hc.symm.trans hq'.1) (by simp)
      rw [Function.update_of_ne hcc, hpd q (hold c' q hq')]
      exact h.flag c' q hq'
  · intro t' c' x' ph ht' hx'
    replace ht' : s.closer t' = some (c', x') := hsame.closer ▸ ht'
    show Function.update s.phase c .opened c' = ph
    have hph := h.closer t' c' x' ph ht' hx'
    have hcc : c' ≠ c := by
      rintro rfl
      rw [hphase] at hph
      subst hph
      cases x' <;> simp [phase?] at hx'
    rw [Function.update_of_ne hcc]
    exact hph
  · intro t₁ t₂ c' x₁ x₂ ph₁ ph₂ h₁ hx₁ h₂ hx₂
    exact h.alone t₁ t₂ c' x₁ x₂ ph₁ ph₂ (hsame.closer ▸ h₁) hx₁ (hsame.closer ▸ h₂) hx₂
  · intro c'
    show (Function.update s.phase c .opened c').Counts (s'.tried c') (s'.passed c')
    rw [hsame.tried, hsame.passed]
    by_cases hcc : c' = c
    · rw [hcc, Function.update_self]
      exact hcount
    · rw [Function.update_of_ne hcc]
      exact h.counts c'

omit [DecidableEq C] [DecidableEq T] in
/-- The poller or a uThread writes fields other than `closing`. -/
theorem inv_write (h : Inv s l) {d : PollData} (hd : d.closing = (s.pd p).closing) :
    Inv { s with pd := Function.update s.pd p d } l := by
  have hclosing : ∀ q, (Function.update s.pd p d q).closing = (s.pd q).closing := by
    intro q
    by_cases hq : q = p
    · rw [hq, Function.update_self, hd]
    · rw [Function.update_of_ne hq]
  refine ⟨⟨h.cached.holds, h.cached.null, fun q hq => ?_⟩, h.placement, h.constructed,
    fun c q hq => ?_, h.closer, h.alone, h.counts⟩
  · exact (hclosing q).trans (h.cached.free q hq)
  · show (Function.update s.pd p d q).closing = true ↔ _
    rw [hclosing]
    exact h.flag c q hq

theorem inv_step (h : Inv s l) {a : Action C T} (hc : Arbitrated s a) (hs : step s a = some s') :
    ∃ l', Inv s' l' := by
  cases a with
  | construct c =>
    simp only [step] at hs
    split_ifs at hs with hconn
    obtain ⟨r, hr, rfl⟩ := Option.map_eq_some_iff.mp hs
    exact inv_construct h hconn hr
  | close t c =>
    simp only [step] at hs
    split at hs
    next =>
      obtain rfl := Option.some.inj hs
      refine ⟨l, h.setCloser fun c y he => ?_⟩
      obtain ⟨rfl, rfl⟩ := Prod.mk.inj (Option.some.inj he)
      rfl
    next => cases hs
  | run t =>
    simp only [step] at hs
    split at hs
    next => cases hs
    next c x ht =>
      split at hs
      next => cases hs
      next p hconn =>
        simp only [Arbitrated, ht] at hc
        exact inv_run h ht hconn hc hs
  | write p slot opened =>
    simp only [step] at hs
    split_ifs at hs
    obtain rfl := Option.some.inj hs
    exact ⟨l, inv_write h rfl⟩

theorem inv_reachable (h : (machine C T).ReachableBy Arbitrated s) : ∃ l, Inv s l := by
  refine Machine.ReachableBy.invariant (I := fun s => ∃ l, Inv s l) ?_ ?_ h
  · rintro s rfl
    refine ⟨[], ⟨IntrusiveQueue.holds_new, fun _ _ => rfl, by simp⟩, ⟨by simp [initial], ?_⟩,
      by simp [initial],
      by simp [Owns, initial], by simp [initial], by simp [initial], fun _ => ⟨rfl, rfl⟩⟩
    intro p pl hp
    cases pl <;> simp [At, Owns, initial] at hp
  · rintro s a s' ⟨l, hl⟩ hc hs
    exact inv_step hl hc hs

/-- Each `PollData` is at most once in the cache, and is not in it while a connection that is not
closed has it; two such connections do not share one. One `close` call on a connection passes the
check. -/
structure Unshared (s : State C T) : Prop where
  cache : ∃ l, Holds s.next s.cache l ∧ l.Nodup ∧ ∀ p ∈ l, ∀ c,
    s.phase c ≠ .closed → s.conn c ≠ some p
  owners : ∀ c c' p, s.phase c ≠ .closed → s.phase c' ≠ .closed → s.conn c = some p →
    s.conn c' = some p → c = c'
  /-- `getPollData` returns an object that no connection that is not closed has. -/
  given : ∀ p s', getPollData s = some (p, s') → ∀ c, s.phase c ≠ .closed → s.conn c ≠ some p
  passed : ∀ c, 0 < s.tried c → s.passed c = 1
  untried : ∀ c, s.tried c = 0 → s.passed c = 0

/-- **No `PollData` is shared** in every run in which no `close` call comes to the check of
`closing` after another one on the same connection has cleared it. -/
theorem poll_data_unshared (h : (machine C T).ReachableBy Arbitrated s) : Unshared s := by
  obtain ⟨l, hI⟩ := inv_reachable h
  refine ⟨⟨l, hI.cached.holds, hI.cached.holds.nodup, ?_⟩, ?_, ?_, ?_, ?_⟩
  · intro p hp c hc hconn
    exact hI.not_cached ⟨hconn, hc⟩ hp
  · intro c c' p hc hc' hp hp'
    exact hI.owner_unique ⟨hp, hc⟩ ⟨hp', hc'⟩
  · intro p s' hget c hc hconn
    obtain ⟨q, l', n, s₁, hget', hl, -⟩ := getPollData_spec hI.cached fun q hq => hI.lt_fresh hq
    obtain ⟨rfl, -⟩ := Prod.mk.inj (Option.some.inj (hget'.symm.trans hget))
    have hmem : q ∈ l ++ List.range' s.fresh n := by
      rw [hl]
      exact List.mem_cons_self
    rcases List.mem_append.mp hmem with hq | hq
    · exact hI.not_cached ⟨hconn, hc⟩ hq
    · have hat : At s l q (.conn c) := ⟨hconn, hc⟩
      have hlt := hI.placement.item q _ hat
      rw [List.mem_range'_1] at hq
      omega
  · intro c hc
    have hcount := hI.counts c
    cases hp : s.phase c <;> rw [hp] at hcount
    case none | opened => simp [hcount.1] at hc
    case closing | reset | closed => exact hcount.2
  · intro c hc
    have hcount := hI.counts c
    cases hp : s.phase c <;> rw [hp] at hcount
    case none | opened => exact hcount.2
    case closing | reset | closed => exact absurd hcount.1 (by simp [hc])

/-- Thread `0` passes the check, thread `1` does not. The object is recycled, and another connection
is constructed. -/
def onePasses : List (Action ℕ ℕ) :=
  bothClose ++ [.run 0, .run 1] ++ List.replicate 7 (.run 0) ++ [.run 1, .construct 1]

theorem poll_data_unshared_onePasses :
    ∃ s : State ℕ ℕ, (machine ℕ ℕ).ReachableBy Arbitrated s ∧ s.tried 0 = 2 ∧ s.phase 0 = .closed ∧
      s.cache.tail = some 0 ∧ s.phase 1 = .opened ∧ s.conn 1 = some 1 ∧ Unshared s := by
  have hinit : (machine ℕ ℕ).ReachableBy Arbitrated initial := .init rfl
  have hr := hinit.get onePasses (by decide +kernel)
  exact ⟨_, hr, by decide +kernel, by decide +kernel, by decide +kernel, by decide +kernel,
    by decide +kernel, poll_data_unshared hr⟩

end Steps

end UThreads.PollCache
