import UThreads.Schedulers.Scheduler04Blocking

/-!
# `Scheduler_04`: no lost wake-up

The token can be stale, but it cannot be missing. While a kThread is on its `mainUT` or at
`sem.wait()`, its queue is marked empty, or the producer that has taken the mark has still to post,
or a token is there (`Wakes`). The mark is set by the `pop` that sends the kThread to its `mainUT`,
and only an exchange takes it away.

**No lost wake-up** (`no_token_no_work`). A kThread that sleeps at `sem.wait()` has popped all that
was exchanged in, or a producer has still to post.

**The sleeper is served** (`blockingSwitch_serves`). If there is work at `sem.wait()`, and no
producer is between its exchange and the end of `schedule`, then the kThread alone pops the oldest
uThread in four steps.
-/

namespace UThreads.Scheduler04

variable {S U P : Type*} [DecidableEq S] [DecidableEq U] [DecidableEq P] {L : Layout S}
  {s s' : State S U P} {a : Action S U P} {k : S}

/-! ## The token -/

/-- A kThread that is to wait for a token will get one if there is work. -/
def Wakes (s : State S U P) (k : S) : Prop :=
  (s.sched k).consumer.parking = true →
    (s.sched k).tail.marked = true ∨ (∃ p, (s.producer p).owes k = true) ∨ 0 < (s.sched k).sem

omit [DecidableEq U] in
/-- A step of a producer that takes no mark, moves no semaphore, and drops no debt. -/
theorem Wakes.advance {p : P} {x : Schedule S U} (h : Wakes s k) (hsched : s'.sched k = s.sched k)
    (hprod : s'.producer = Function.update s.producer p x)
    (hx : (s.producer p).owes k = true → x.owes k = true) : Wakes s' k := by
  intro hpark
  rw [hsched] at hpark ⊢
  refine (h hpark).imp_right (.imp_left fun ⟨q, hq⟩ => ⟨q, ?_⟩)
  rw [hprod]
  by_cases hqp : q = p
  · subst hqp
    simpa using hx hq
  · simpa [hqp] using hq

omit [DecidableEq U] [DecidableEq P] in
/-- A `Move` leaves the mark, or the kThread is not to wait. -/
theorem Move.wakes {c : Scheduler U} (hw : Wakes s k) (hm : Move s k a c) :
    c.consumer.parking = true →
      c.tail.marked = true ∨ (∃ p, (s.producer p).owes k = true) ∨ 0 < c.sem := by
  intro hpark
  cases hm with
  | enter hc => exact hw (by rw [hc]; rfl)
  | marked hc hmark => exact .inl hmark
  | mark hc he => exact .inl (Word.marked_mark _)
  | _ => simp [Consumer.parking] at hpark

theorem wakes_exchange {p : P} {kt : S} {ut : U} {node : Word} (hw : Wakes s k)
    (hp : s.producer p = .exchange kt ut node) :
    Wakes { s.set kt ((s.sched kt).exchange ut node) with
      producer := Function.update s.producer p
        (.link kt (s.sched kt).tail.unmark node (s.sched kt).tail.marked)
      place := Function.update s.place ut (.queued kt node) } k := by
  by_cases hk : k = kt
  · subst hk
    intro hpark
    by_cases hm : (s.sched k).tail.marked = true
    · -- The producer has taken the mark.
      exact .inr (.inl ⟨p, by simp [Schedule.owes, hm]⟩)
    · have hold := hw (by simpa [State.set, Scheduler.exchange] using hpark)
      rcases hold with hm' | ⟨q, hq⟩ | hsem
      · exact absurd hm' hm
      · have hqp : q ≠ p := by
          rintro rfl
          simp [hp, Schedule.owes] at hq
        exact .inr (.inl ⟨q, by simpa [hqp] using hq⟩)
      · exact .inr (.inr (by simpa [State.set, Scheduler.exchange] using hsem))
  · exact hw.advance (by simp [State.set, hk]) rfl (by simp [hp, Schedule.owes])

theorem wakes_step (h : Inv L s) (hw : Wakes s k) (hs : Step L s a s') : Wakes s' k := by
  -- A kThread that has no step keeps its promise; the one that has a step is checked here.
  have hat : ∀ {j : S} {c : Scheduler U} {t : State S U P}, t.sched = Function.update s.sched j c →
      t.producer = s.producer → (j = k → c.consumer.parking = true →
        c.tail.marked = true ∨ (∃ p, (s.producer p).owes k = true) ∨ 0 < c.sem) → Wakes t k := by
    intro j c t hsched hprod hc hpark
    by_cases hj : j = k
    · subst hj
      simp only [hsched, Function.update_self, hprod] at hpark ⊢
      exact hc rfl hpark
    · simp only [hsched, Function.update_of_ne (Ne.symm hj), hprod] at hpark ⊢
      exact hw hpark
  cases hs with
  | create | io => exact hw
  | schedule hp hu => exact hw.advance rfl rfl (by simp [hp, Schedule.owes])
  | setState hp | release hp | clear hp => exact hw.advance rfl rfl (by simp [hp, Schedule.owes])
  | exchange hp => exact wakes_exchange hw hp
  | @link p kt prev first wasEmpty hp =>
    refine hw.advance rfl rfl ?_
    rw [hp]
    cases wasEmpty <;> simp [Schedule.owes]
  | @post p kt hp =>
    by_cases hk : k = kt
    · subst hk
      exact fun _ => .inr (.inr (by simp [State.set]))
    · exact hw.advance (by simp [State.set, hk]) rfl (by simp [hp, Schedule.owes, Ne.symm hk])
  | @move j _ c hm v =>
    refine hat (j := j) (c := c) rfl rfl ?_
    rintro rfl
    exact hm.wakes hw
  | @setHead j w hhead next hc =>
    refine hat (j := j) (c := (s.sched j).setHead w hhead next) ?_ ?_ (fun _ hpark => ?_)
    · unfold State.startPop
      split <;> rfl
    · unfold State.startPop
      split <;> rfl
    · simp [Scheduler.setHead, Consumer.parking] at hpark
  | @copy j w hhead next hc =>
    have hheld : s.Held hhead (.hand j) := by simp [State.Held, hc, Consumer.hand]
    refine hat (j := j) (c := (s.sched j).ret w hhead (some (s.state next))) rfl rfl
      fun _ hpark => ?_
    simp [Scheduler.ret, parking_afterPop (h.addr hheld).ne_zero] at hpark
  | @give j ut node hc ht =>
    exact hat (j := j) rfl rfl fun _ hpark => by simp [Consumer.parking] at hpark
  | @giveNew j ut node n hc ht ha hfree =>
    exact hat (j := j) rfl rfl fun _ hpark => by simp [Consumer.parking] at hpark
  | @keep j ut node hc =>
    exact hat (j := j) rfl rfl fun _ hpark => by simp [Consumer.parking] at hpark

theorem wakes_reachable (h : (machine U P L).Reachable s) (k : S) : Inv L s ∧ Wakes s k := by
  refine h.invariant (I := fun s => Inv L s ∧ Wakes s k) ?_ fun s a s' hi hs => ?_
  · rintro s ⟨start, hstart, rfl⟩
    exact ⟨inv_initial hstart, fun _ => .inl (Word.marked_mark _)⟩
  · have hst := step_cases hs
    exact ⟨inv_step hi.1 hst, wakes_step hi.1 hi.2 hst⟩

/-! ## The kThread alone -/

/-- `pop` has returned a node with `u`. -/
def Serves (s : State S U P) (k : S) (u : U) (s' : State S U P) : Prop :=
  ∃ node, (s'.sched k).consumer = .leave node ∧ s'.state node = some u ∧
    (s'.sched k).popped = (s.sched k).popped ++ [some u]

variable {u : U} {hhead n : Word}

theorem serves_copy (hc : (s.sched k).consumer = .copy .blocking hhead n)
    (hu : s.state n = some u) : (machine U P L).Within (.switch k) 1 s (Serves s k u) := by
  refine .step (by simp [machine, Scheduler04.step, switchStep, hc]; rfl) (.now ⟨hhead, ?_, ?_, ?_⟩)
  · simp [State.set, Scheduler.ret, afterPop]
  · simpa using hu
  · simp [State.set, Scheduler.ret, Scheduler.popped, hu]

/-- The steps before leave what `pop` has returned as it is. -/
theorem serves_of (h : (s'.sched k).popped = (s.sched k).popped) {i : ℕ}
    (hw : (machine U P L).Within (.switch k) i s' (Serves s' k u)) :
    (machine U P L).Within (.switch k) i s' (Serves s k u) := by
  obtain ⟨m, t, hm, hrun, node, hleave, hstate, hpopped⟩ := hw
  exact ⟨m, t, hm, hrun, node, hleave, hstate, hpopped.trans (by rw [h])⟩

theorem serves_setHead (hc : (s.sched k).consumer = .setHead .blocking hhead n)
    (hu : s.state n = some u) : (machine U P L).Within (.switch k) 2 s (Serves s k u) := by
  refine .step (t := (s.startPop k (s.state n)).set k ((s.sched k).setHead .blocking hhead n))
    (by simp [machine, Scheduler04.step, switchStep, hc])
      (serves_of ?_ (serves_copy (consumer_set _ k _) ?_))
  · simp [State.set, Scheduler.setHead, Scheduler.popped]
  · rw [hu]
    exact hu

theorem serves_readNext (hc : (s.sched k).consumer = .readNext .blocking hhead)
    (hn : s.next (s.sched k).head = n) (hnull : n ≠ 0#64) (hu : s.state n = some u) :
    (machine U P L).Within (.switch k) 3 s (Serves s k u) := by
  refine .step (t := s.set k { s.sched k with consumer := .setHead .blocking hhead n })
    (by simp [machine, Scheduler04.step, switchStep, hc, hn, hnull])
    (serves_of ?_ (serves_setHead (consumer_set _ k _) hu))
  simp [State.set, Scheduler.popped]

theorem serves_wait (hc : (s.sched k).consumer = .wait) (hsem : 0 < (s.sched k).sem)
    (hn : s.next (s.sched k).head = n) (hnull : n ≠ 0#64) (hu : s.state n = some u) :
    (machine U P L).Within (.switch k) 4 s (Serves s k u) := by
  refine .step (t := s.set k { s.sched k with
      sem := (s.sched k).sem - 1, consumer := .readNext .blocking (s.sched k).head })
    (by simp [machine, Scheduler04.step, switchStep, hc, hsem])
    (serves_of ?_ (serves_readNext (n := n) (consumer_set _ k _) ?_ hnull hu))
  · simp [State.set, Scheduler.popped]
  · simpa [State.set] using hn

/-! ## Main results -/

/-- A kThread that finds no token has no work, or its token is still to come. -/
theorem no_token_no_work (h : (machine U P L).Reachable s) (hc : (s.sched k).consumer = .wait)
    (hsem : (s.sched k).sem = 0) :
    ((s.sched k).tail.marked = true ∧ (s.sched k).popped = (s.sched k).pushed.map some) ∨
      ∃ p, (s.producer p).owes k = true := by
  obtain ⟨hinv, hw⟩ := wakes_reachable h k
  rcases hw (by rw [hc]; rfl) with hm | ho | hpos
  · have hq : (s.sched k).queue.tail = [] := by rw [(hinv.sched k).marked hm]; rfl
    have hcont := (hinv.sched k).content
    rw [Scheduler.values, transit_of_quiet (by rw [hc]; rfl), hq] at hcont
    exact .inl ⟨hm, by simpa using hcont⟩
  · exact .inr ho
  · omega

/-- The second uThread is scheduled and has no token yet when `mainUT` waits. -/
def waitThenExchange : List (Action Bool Bool Unit) :=
  List.flatten [[.create false 16#64, .create true 32#64], scheduleRun false false,
    popRun false 48#64, [.nonBlockingSwitch false false], List.replicate 3 (.switch false),
    [.blockingSwitch false, .schedule () true false], List.replicate 4 (.producer ())]

theorem no_token_no_work_waitThenExchange :
    ∃ s, (machine Bool Unit twoSchedulers).Reachable s ∧ (s.sched false).consumer = .wait ∧
      (s.sched false).pushed = [false, true] ∧
      (((s.sched false).tail.marked = true ∧ (s.sched false).popped =
        (s.sched false).pushed.map some) ∨ ∃ p, (s.producer p).owes false = true) := by
  have hinit : (machine Bool Unit twoSchedulers).Reachable
    (initial twoSchedulers fun _ => .mainUT) := .of_init ⟨_, fun _ => .inl rfl, rfl⟩
  have hr := hinit.get waitThenExchange (by decide +kernel)
  exact ⟨_, hr, by decide +kernel, by decide +kernel,
    no_token_no_work hr (by decide +kernel) (by decide +kernel)⟩

/-- Between the exchange and the end of `schedule`. -/
def Schedule.finishing (k : S) : Schedule S U → Bool
  | .link kt _ _ _ | .post kt => decide (kt = k)
  | _ => false

/-- A kThread at `sem.wait()` that has work pops the oldest uThread. -/
theorem blockingSwitch_serves {l : List (Option U)} (h : (machine U P L).Reachable s)
    (hc : (s.sched k).consumer = .wait) (hidle : ∀ p, (s.producer p).finishing k = false)
    (hwork : (s.sched k).pushed.map some = (s.sched k).popped ++ some u :: l) :
    (machine U P L).Within (.switch k) 4 s fun s' => ∃ node, (s'.sched k).consumer = .leave node ∧
      s'.state node = some u ∧ (s'.sched k).popped = (s.sched k).popped ++ [some u] := by
  obtain ⟨hinv, hw⟩ := wakes_reachable h k
  have hcont := (hinv.sched k).content
  rw [Scheduler.values, transit_of_quiet (by rw [hc]; rfl), hwork, List.nil_append,
    List.append_cancel_left_eq] at hcont
  obtain ⟨n, R, hq, hu, -⟩ := List.map_eq_cons_iff.mp hcont
  have htail : (s.sched k).queue.tail ≠ [] := by simp [hq]
  have hsem : 0 < (s.sched k).sem := by
    rcases hw (by rw [hc]; rfl) with hm | ⟨p, hp⟩ | hpos
    · exact absurd (by rw [(hinv.sched k).marked hm]; rfl) htail
    · have hi := hidle p
      cases hpos : s.producer p <;> simp_all [Schedule.owes, Schedule.finishing]
    · exact hpos
  have hnext : s.next (s.sched k).head ≠ 0#64 := by
    intro hnull
    obtain ⟨p, first, w, hp, -⟩ := hinv.pending_link htail hnull
    have hi := hidle p
    simp [hp, Schedule.finishing] at hi
  have hadj : Adjacent (s.sched k).queue (s.sched k).head n := by
    rw [(hinv.sched k).queue_eq, hq]
    exact .inl ⟨rfl, rfl⟩
  obtain ⟨hn, -⟩ := ((hinv.sched k).chain.joined _ n hadj).resolve_right fun hg => hnext hg.1
  exact serves_wait hc hsem hn (hn ▸ hnext) hu

theorem blockingSwitch_serves_waitThenExchange :
    ∃ s, (machine Bool Unit twoSchedulers).Reachable s ∧ (s.sched false).pushed = [false, true] ∧
      (machine Bool Unit twoSchedulers).Within (.switch false) 4 s fun s' =>
        ∃ node, (s'.sched false).consumer = .leave node ∧ s'.state node = some true ∧
          (s'.sched false).popped = (s.sched false).popped ++ [some true] := by
  have hinit : (machine Bool Unit twoSchedulers).Reachable
    (initial twoSchedulers fun _ => .mainUT) := .of_init ⟨_, fun _ => .inl rfl, rfl⟩
  have hr := hinit.get (waitThenExchange ++ List.replicate 2 (.producer ())) (by decide +kernel)
  exact ⟨_, hr, by decide +kernel,
    blockingSwitch_serves (l := []) hr (by decide +kernel) (by decide +kernel) (by decide +kernel)⟩

end UThreads.Scheduler04
