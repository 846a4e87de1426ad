import UThreads.Schedulers.Scheduler04Proof

/-!
# `Scheduler_04`: the token in `blockingSwitch`

A producer posts the semaphore when its push takes the mark away. `nonBlockingSwitch` pops without
taking the token, so a token may be left when its node is gone. `blockingSwitch` waits for a token
and then uses the node of `pop` without a null check. `Scheduler_02` waits again in this place.

* `stale_token`: a run in which `blockingSwitch` dereferences a null node.
* `blockingSwitch_pops`: in runs where a push takes the mark away only while the kThread is on its
  `mainUT` or at `sem.wait()` (`Answered`), the `pop` that follows a `sem.wait()` returns a node
  with a scheduled uThread.

The invariant is `Token`: there is at most one token, in the semaphore or still to be posted; while
there is one, the kThread is to wait for it and its queue is not marked; and a queue that is not
marked then has a node to pop.
-/

namespace UThreads.Scheduler04

variable {S U P : Type*}

/-! ## The stale token -/

/-- The first uThread runs and yields, which marks the queue empty. The second is scheduled, with a
token, and popped by `nonBlockingSwitch` when the first one ends. When it ends too, `mainUT` finds
the token and an empty queue. -/
def staleRun : List (Action Bool Bool Unit) :=
  List.flatten [[.create false 16#64, .create true 32#64],
    scheduleRun false false, popRun false 48#64,
    -- the first uThread yields: `pop` marks the queue and returns `nullptr`
    [.nonBlockingSwitch false true], List.replicate 3 (.switch false),
    scheduleRun true false,
    -- it ends: `pop` returns the node of the second uThread, and no token is taken
    [.nonBlockingSwitch false false], List.replicate 6 (.switch false),
    -- the second uThread ends: the queue is empty, and `mainUT` goes on
    [.nonBlockingSwitch false false], List.replicate 3 (.switch false),
    -- the token is there, and `pop` returns `nullptr`
    [.blockingSwitch false], List.replicate 3 (.switch false)]

theorem stale_token :
    ∃ s s', (machine Bool Unit twoSchedulers).Reachable s ∧
      (s.sched false).consumer = .leave 0#64 ∧
      (machine Bool Unit twoSchedulers).run s [.switch false, .switch false] = some s' ∧
      (s'.sched false).consumer = .crashed := by
  have hinit : (machine Bool Unit twoSchedulers).Reachable
      (initial twoSchedulers fun _ => .mainUT) :=
    .of_init ⟨_, fun _ => .inl rfl, rfl⟩
  have h := hinit.get staleRun (by decide +kernel)
  exact ⟨_, _, h, by decide +kernel, rfl, by decide +kernel⟩

/-! ## The token -/

section Token

variable [DecidableEq S] [DecidableEq U] [DecidableEq P] {L : Layout S} {s s' : State S U P}
  {a : Action S U P} {k : S}

/-- The producer has taken the mark of queue `k` and has still to post. -/
def Schedule.owes (k : S) : Schedule S U → Bool
  | .link kt _ _ wasEmpty => decide (kt = k) && wasEmpty
  | .post kt => decide (kt = k)
  | _ => false

/-- The kThread is to wait for a token. -/
def Consumer.parking : Consumer U → Bool
  | .mainUT | .wait => true
  | _ => false

/-- The exchange of a push takes the mark only while the kThread is to wait for a token. -/
def Answered (s : State S U P) : Action S U P → Prop
  | .producer p =>
    match s.producer p with
    | .exchange kt _ _ => (s.sched kt).tail.marked = true → (s.sched kt).consumer.parking = true
    | _ => True
  | _ => True

instance (s : State S U P) (a : Action S U P) : Decidable (Answered s a) :=
  match a with
  | .producer p =>
    match hp : s.producer p with
    | .exchange kt _ _ =>
      decidable_of_iff ((s.sched kt).tail.marked = true → (s.sched kt).consumer.parking = true)
        (by simp [Answered, hp])
    | .idle | .setState .. | .release .. | .clear .. | .link .. | .post .. =>
      .isTrue (by simp [Answered, hp])
  | .create _ _ | .schedule _ _ _ | .nonBlockingSwitch _ _ | .blockingSwitch _ | .switch _
  | .giveNew _ _ | .io _ => inferInstanceAs (Decidable True)

/-- A token of scheduler `k` is in its semaphore, or producer `p` has still to post it. -/
def State.token (s : State S U P) (k : S) : Option P → Prop
  | none => 0 < (s.sched k).sem
  | some p => (s.producer p).owes k = true

structure Token (s : State S U P) (k : S) : Prop where
  le : (s.sched k).sem ≤ 1
  one : ∀ y z, s.token k y → s.token k z → y = z
  held : ∀ y, s.token k y →
    (s.sched k).consumer.parking = true ∧ (s.sched k).tail.marked = false
  work : (s.sched k).consumer.parking = true →
    (s.sched k).tail.marked = true ∨ (s.sched k).queue.tail ≠ []

omit [DecidableEq U] [DecidableEq P] in
/-- The scheduler is the same, and so are the producers that are to post. -/
theorem Token.congr (h : Token s k) (hsched : s'.sched k = s.sched k)
    (howes : ∀ p, (s'.producer p).owes k = (s.producer p).owes k) : Token s' k := by
  have htoken : s'.token k = s.token k := by
    funext y
    cases y <;> simp [State.token, hsched, howes]
  refine ⟨?_, ?_, ?_, ?_⟩
  · rw [hsched]; exact h.le
  · rw [htoken]; exact h.one
  · rw [htoken, hsched]; exact h.held
  · rw [hsched]; exact h.work

omit [DecidableEq U] in
/-- Producer `p` goes on, and is to post after it as before. -/
theorem Token.advance {p : P} {x : Schedule S U} (h : Token s k) (hsched : s'.sched k = s.sched k)
    (hprod : s'.producer = Function.update s.producer p x)
    (hx : x.owes k = (s.producer p).owes k) : Token s' k := by
  refine h.congr hsched fun q => ?_
  rw [hprod]
  by_cases hq : q = p
  · rw [hq, Function.update_self, hx]
  · rw [Function.update_of_ne hq]

omit [DecidableEq U] [DecidableEq P] in
/-- The kThread is not to wait, so there is no token; it goes on. -/
theorem Token.unparked {c : Scheduler U} (h : Token s k)
    (hpark : (s.sched k).consumer.parking = false) (hsched : s'.sched k = c)
    (hprod : s'.producer = s.producer) (hsem : c.sem = (s.sched k).sem)
    (hwork : c.consumer.parking = true → c.tail.marked = true ∨ c.queue.tail ≠ []) :
    Token s' k := by
  have hnone : ∀ y, ¬s'.token k y := by
    intro y hy
    have hy' : s.token k y := by
      cases y <;> simpa [State.token, hsched, hprod, hsem] using hy
    rw [(h.held y hy').1] at hpark
    cases hpark
  refine ⟨by rw [hsched, hsem]; exact h.le, fun y _ hy => absurd hy (hnone y),
    fun y hy => absurd hy (hnone y), by rw [hsched]; exact hwork⟩

/-- The exchange of producer `p`: if it takes the mark, `p` has the token. -/
theorem token_exchange {p : P} {ut : U} {node : Word} (hI : Inv L s) (h : Token s k)
    (hp : s.producer p = .exchange k ut node) (hb : Answered s (.producer p)) :
    Token { s.set k ((s.sched k).exchange ut node) with
      producer := Function.update s.producer p
        (.link k (s.sched k).tail.unmark node (s.sched k).tail.marked)
      place := Function.update s.place ut (.queued k node) } k := by
  have hnode : node.marked = false :=
    (hI.addr (y := .producer p) (by simp [State.Held, hp, Schedule.carried])).even
  have hqueue : ((s.sched k).exchange ut node).queue.tail ≠ [] := by
    rw [(hI.sched k).tail_exchange ut node]
    exact List.concat_ne_nil node _
  -- With the mark there was no token; without it there is no new one.
  have htoken : ∀ y, State.token { s.set k ((s.sched k).exchange ut node) with
      producer := Function.update s.producer p
        (.link k (s.sched k).tail.unmark node (s.sched k).tail.marked)
      place := Function.update s.place ut (.queued k node) } k y →
      (s.sched k).tail.marked = true ∧ y = some p ∨ (s.sched k).tail.marked = false ∧
      s.token k y := by
    intro y hy
    cases hm : (s.sched k).tail.marked with
    | true =>
      refine .inl ⟨rfl, ?_⟩
      by_contra hne
      have hold : s.token k y := by
        cases y with
        | none => simpa [State.token, State.set, Scheduler.exchange] using hy
        | some q => simpa [State.token, show q ≠ p by rintro rfl; exact hne rfl] using hy
      rw [(h.held y hold).2] at hm
      cases hm
    | false =>
      refine .inr ⟨rfl, ?_⟩
      cases y with
      | none => simpa [State.token, State.set, Scheduler.exchange] using hy
      | some q =>
        by_cases hq : q = p
        · simp [State.token, hq, hm, Schedule.owes] at hy
        · simpa [State.token, hq] using hy
  have hpark : (s.sched k).tail.marked = true → (s.sched k).consumer.parking = true := by
    simpa [Answered, hp] using hb
  refine ⟨by simpa [State.set, Scheduler.exchange] using h.le, fun y z hy hz => ?_, fun y hy => ?_,
    fun _ => .inr (by simpa [State.set] using hqueue)⟩
  · rcases htoken y hy with ⟨hm, rfl⟩ | ⟨hm, hy⟩ <;> rcases htoken z hz with ⟨hm', rfl⟩ | ⟨hm', hz⟩
    · rfl
    · simp [hm] at hm'
    · simp [hm] at hm'
    · exact h.one y z hy hz
  · refine ⟨?_, by simpa [State.set, Scheduler.exchange] using hnode⟩
    have hold : (s.sched k).consumer.parking = true := by
      rcases htoken y hy with ⟨hm, -⟩ | ⟨-, hy⟩
      · exact hpark hm
      · exact (h.held y hy).1
    simpa [State.set, Scheduler.exchange] using hold

omit [DecidableEq U] in
/-- `sem.post()`: the token goes to the semaphore. -/
theorem token_post {p : P} (h : Token s k) (hp : s.producer p = .post k) :
    Token { s.set k { s.sched k with sem := (s.sched k).sem + 1 } with
      producer := Function.update s.producer p .idle } k := by
  have howed : s.token k (some p) := by simp [State.token, hp, Schedule.owes]
  have hsem : (s.sched k).sem = 0 := by
    by_contra hne
    exact absurd (h.one none (some p) (Nat.pos_of_ne_zero hne) howed) (by simp)
  have hnone : ∀ y, State.token { s.set k { s.sched k with sem := (s.sched k).sem + 1 } with
      producer := Function.update s.producer p .idle } k y → y = none := by
    intro y hy
    cases y with
    | none => rfl
    | some q =>
      by_cases hq : q = p
      · simp [State.token, hq, Schedule.owes] at hy
      · have hold : s.token k (some q) := by simpa [State.token, hq] using hy
        exact absurd (Option.some.inj (h.one _ _ hold howed)) hq
  refine ⟨by simp [State.set, hsem], fun y z hy hz => (hnone y hy).trans (hnone z hz).symm,
    fun y _ => ?_, by simpa [State.set] using h.work⟩
  simpa [State.set] using h.held _ howed

omit [DecidableEq U] [DecidableEq P] in
theorem Move.token {c : Scheduler U} (h : Token s k) (hm : Move s k a c) (hsched : s'.sched k = c)
    (hprod : s'.producer = s.producer) : Token s' k := by
  cases hm with
  | enter hc =>
    have htoken : s'.token k = s.token k := by
      funext y
      cases y <;> simp [State.token, hsched, hprod]
    refine ⟨by rw [hsched]; exact h.le, by rw [htoken]; exact h.one, fun y hy => ?_, fun _ => ?_⟩
    · rw [hsched]
      exact ⟨rfl, (h.held y (htoken ▸ hy)).2⟩
    · rw [hsched]
      exact h.work (by rw [hc]; rfl)
  | wait hc hs =>
    -- The kThread takes the only token.
    have hzero : (s'.sched k).sem = 0 := by
      rw [hsched]
      exact Nat.sub_eq_zero_of_le h.le
    have hnone : ∀ y, ¬s'.token k y := by
      intro y hy
      cases y with
      | none => exact absurd hy (by simp [State.token, hzero])
      | some p =>
        have hold : s.token k (some p) := by simpa [State.token, hprod] using hy
        exact absurd (h.one (some p) none hold hs) (by simp)
    refine ⟨by omega, fun y _ hy => absurd hy (hnone y), fun y hy => absurd hy (hnone y), ?_⟩
    rw [hsched]
    rintro ⟨⟩
  | marked hc ht =>
    exact h.unparked (by rw [hc]; rfl) hsched hprod rfl fun _ => .inl ht
  | mark hc he =>
    exact h.unparked (by rw [hc]; rfl) hsched hprod rfl fun _ => .inl (Word.marked_mark _)
  | start _ hc | noNext hc _ | next hc _ | behind hc _ | last hc _ | spin hc | linked hc | retry hc
  | leave hc | null hc | noValue hc _ _ | value hc _ _ =>
    exact h.unparked (by rw [hc]; rfl) hsched hprod rfl (by rintro ⟨⟩)

omit [DecidableEq U] [DecidableEq P] in
theorem parking_afterPop {node : Word} {w : Switch} (h : node ≠ 0#64) :
    (afterPop node w : Consumer U).parking = false := by
  cases w <;> simp [afterPop, h, Consumer.parking]

theorem token_step (hI : Inv L s) (h : Token s k) (hb : Answered s a) (hs : Step L s a s') :
    Token s' k := by
  -- A kThread that is not `k` leaves scheduler `k` as it is.
  have hat : ∀ {j : S} {c : Scheduler U} {t : State S U P}, t.sched = Function.update s.sched j c →
      t.producer = s.producer → (j = k → t.sched k = c → Token t k) → Token t k := by
    intro j c t hsched hprod hc
    by_cases hj : j = k
    · exact hc hj (by rw [hsched, hj, Function.update_self])
    · exact h.congr (by rw [hsched, Function.update_of_ne (Ne.symm hj)]) fun q => by rw [hprod]
  cases hs with
  | create | io => exact h.congr rfl fun _ => rfl
  | schedule hp hu => exact h.advance rfl rfl (by rw [hp]; rfl)
  | setState hp | release hp | clear hp => exact h.advance rfl rfl (by rw [hp]; rfl)
  | @exchange p kt ut node hp =>
    by_cases hk : k = kt
    · subst hk
      exact token_exchange hI h hp hb
    · exact h.advance (by simp [State.set, hk]) rfl (by simp [hp, Schedule.owes, Ne.symm hk])
  | @link p kt prev first wasEmpty hp =>
    refine h.advance rfl rfl ?_
    rw [hp]
    cases wasEmpty <;> simp [Schedule.owes]
  | @post p kt hp =>
    by_cases hk : k = kt
    · subst hk
      exact token_post h hp
    · exact h.advance (by simp [State.set, hk]) rfl (by simp [hp, Schedule.owes, Ne.symm hk])
  | @move j _ c hm v =>
    refine hat (j := j) (c := c) rfl rfl ?_
    rintro rfl hsched
    exact hm.token h hsched rfl
  | @setHead j w hhead next hc =>
    refine hat (j := j) (c := (s.sched j).setHead w hhead next) ?_ ?_ ?_
    · unfold State.startPop
      split <;> rfl
    · unfold State.startPop
      split <;> rfl
    · rintro rfl hsched
      refine h.unparked (by rw [hc]; rfl) hsched ?_ rfl (by rintro ⟨⟩)
      unfold State.startPop
      split <;> rfl
  | @copy j w hhead next hc =>
    have hheld : s.Held hhead (.hand j) := by simp [State.Held, hc, Consumer.hand]
    refine hat (j := j) (c := (s.sched j).ret w hhead (some (s.state next))) rfl rfl ?_
    rintro rfl hsched
    refine h.unparked (by rw [hc]; rfl) hsched rfl rfl fun hpark => ?_
    simp [Scheduler.ret, parking_afterPop (hI.addr hheld).ne_zero] at hpark
  | @give j ut node hc ht =>
    refine hat (j := j) rfl rfl ?_
    rintro rfl hsched
    exact h.unparked (by rw [hc]; rfl) hsched rfl rfl (by rintro ⟨⟩)
  | @giveNew j ut node n hc ht ha hfree =>
    refine hat (j := j) rfl rfl ?_
    rintro rfl hsched
    exact h.unparked (by rw [hc]; rfl) hsched rfl rfl (by rintro ⟨⟩)
  | @keep j ut node hc =>
    refine hat (j := j) rfl rfl ?_
    rintro rfl hsched
    exact h.unparked (by rw [hc]; rfl) hsched rfl rfl (by rintro ⟨⟩)

omit [DecidableEq U] [DecidableEq P] in
/-- A kThread that passes `sem.wait()` has something to pop. -/
theorem Token.queue (h : Token s k) (hc : (s.sched k).consumer = .wait)
    (hs : 0 < (s.sched k).sem) : (s.sched k).queue.tail ≠ [] := by
  have hm := (h.held none hs).2
  refine (h.work (by rw [hc]; rfl)).resolve_left fun hmark => ?_
  rw [hm] at hmark
  cases hmark

end Token

/-! ## What is popped in `blockingSwitch` -/

section Fed

variable [DecidableEq S] [DecidableEq U] [DecidableEq P] {L : Layout S} {s s' : State S U P}
  {a : Action S U P} {k : S}

/-- In `blockingSwitch` the queue is not empty until `pop` has taken a node. -/
def Scheduler.Fed (c : Scheduler U) : Prop :=
  match c.consumer with
  | .readNext .blocking _ | .readTail .blocking _ | .spin .blocking _ => c.queue.tail ≠ []
  | .leave node | .getState node => node ≠ 0#64
  | .cas .blocking _ | .crashed => False
  | _ => True

omit [DecidableEq U] [DecidableEq P] in
theorem Move.fed (h : Inv L s) (hf : (s.sched k).Fed) (ht : Token s k) {c : Scheduler U}
    (hm : Move s k a c) : c.Fed := by
  have hinv := h.sched k
  unfold Scheduler.Fed at hf
  cases hm with
  | start yield hc => trivial
  | enter hc => trivial
  | wait hc hs => exact ht.queue hc hs
  | @noNext w hhead hc hn =>
    rw [hc] at hf
    cases w <;> exact hf
  | next hc hn => trivial
  | @marked w hhead hc hmark =>
    rw [hc] at hf
    cases w with
    | blocking =>
      -- A marked queue is empty.
      exact absurd (by rw [hinv.marked hmark]; rfl) hf
    | nonBlocking yield => cases yield <;> trivial
  | @behind w hhead hc hne =>
    rw [hc] at hf
    cases w <;> exact hf
  | @last w hhead hc he =>
    rw [hc] at hf
    cases w with
    | blocking =>
      -- A tail at the head means an empty queue.
      refine hf (hinv.eq_single ?_)
      rw [← he, Word.unmark_of_even (h.addr (y := .head k) rfl).even]
    | nonBlocking yield => trivial
  | @spin w hhead hc =>
    rw [hc] at hf
    cases w <;> exact hf
  | @linked w hhead hc =>
    rw [hc] at hf
    cases w <;> exact hf
  | @mark w hhead hc he =>
    rw [hc] at hf
    cases w with
    | blocking => exact hf.elim
    | nonBlocking yield => cases yield <;> trivial
  | @retry w hhead hc =>
    rw [hc] at hf
    cases w with
    | blocking => exact hf.elim
    | nonBlocking yield => trivial
  | leave hc =>
    rw [hc] at hf
    exact hf
  | null hc =>
    rw [hc] at hf
    exact absurd rfl hf
  | noValue hc hn hv =>
    have htaken := h.places.hand k (by simp [hc, Consumer.hand, nonNull_of_ne hn])
    simp [State.taken, hc, Consumer.taken, nonNull_of_ne hn, hv] at htaken
  | value hc hn hv => trivial

omit [DecidableEq U] [DecidableEq P] in
theorem fed_exchange (h : Inv L s) (hf : (s.sched k).Fed) (ut : U) (node : Word) :
    ((s.sched k).exchange ut node).Fed := by
  have htail : ((s.sched k).exchange ut node).queue.tail ≠ [] := by
    rw [(h.sched k).tail_exchange ut node]
    exact List.concat_ne_nil node _
  unfold Scheduler.Fed at hf ⊢
  simp only [Scheduler.exchange] at htail ⊢
  split <;> simp_all

theorem fed_step (h : Inv L s) (hf : ∀ k, (s.sched k).Fed) (ht : ∀ k, Token s k)
    (hs : Step L s a s') (k : S) : (s'.sched k).Fed := by
  -- Only the scheduler of the step changes.
  have hat : ∀ {j : S} {c : Scheduler U}, c.Fed → (Function.update s.sched j c k).Fed := by
    intro j c hc
    by_cases hk : k = j
    · subst hk; rw [Function.update_self]; exact hc
    · rw [Function.update_of_ne hk]; exact hf k
  cases hs with
  | create | schedule | setState | release | clear | link | io => exact hf k
  | @post p kt hp => exact hat (c := { s.sched kt with sem := (s.sched kt).sem + 1 }) (hf kt)
  | give | giveNew | keep => exact hat trivial
  | @exchange p kt ut node hp => exact hat (fed_exchange h (hf kt) ut node)
  | @move j _ c hm v => exact hat (hm.fed h (hf j) (ht j))
  | setHead =>
    unfold State.startPop
    split <;> exact hat trivial
  | @copy j w hhead next hc =>
    have hheld : s.Held hhead (.hand j) := by simp [State.Held, hc, Consumer.hand]
    refine hat ?_
    unfold Scheduler.Fed Scheduler.ret afterPop
    cases w with
    | blocking => exact (h.addr hheld).ne_zero
    | nonBlocking yield => simp [(h.addr hheld).ne_zero]

/-- A uThread that is being popped was exchanged into that queue. -/
theorem pushed_step (h : Inv L s)
    (hi : ∀ u k, s.place u = .popping k → u ∈ (s.sched k).pushed) (hs : Step L s a s') :
    ∀ u k, s'.place u = .popping k → u ∈ (s'.sched k).pushed := by
  intro u k hu
  have hgrow : ∀ x ∈ (s.sched k).pushed, x ∈ (s'.sched k).pushed := by
    intro x hx
    rcases hs.history h k with ⟨hp, -⟩ | ⟨v, hp, -⟩ | ⟨v, hp, -⟩ | ⟨hp, -, -⟩ <;> rw [hp]
    · exact hx
    · exact List.mem_append_left _ hx
    · exact hx
    · exact hx
  -- Only `head = next` makes a uThread one that is being popped.
  have hsame : s.place u = .popping k → u ∈ (s'.sched k).pushed := fun hp => hgrow u (hi u k hp)
  have hother : ∀ {v : U} {x : Place S P}, Function.update s.place v x u = .popping k →
      x ≠ .popping k → u ∈ (s'.sched k).pushed := by
    intro v x hp hx
    by_cases hv : u = v
    · subst hv; rw [Function.update_self] at hp; exact absurd hp hx
    · rw [Function.update_of_ne hv] at hp; exact hsame hp
  cases hs with
  | create | schedule | exchange | keep => exact hother hu (by simp)
  | setState | release | clear | link | post | move | copy | give | giveNew | io => exact hsame hu
  | @setHead j w hhead next hc =>
    obtain ⟨-, R, htail, -, v, hv, -⟩ := h.first_queued hc
    have hmem : v ∈ (s.sched j).pushed := by
      have hin : some v ∈ (s.sched j).pushed.map some := by
        rw [← (h.sched j).content, Scheduler.values, htail]
        simp [hv]
      simpa using hin
    rw [hv] at hu
    by_cases huv : u = v
    · subst huv
      simp only [State.startPop, State.set, Function.update_self, Place.popping.injEq] at hu
      subst hu
      exact hgrow u hmem
    · simp only [State.startPop, State.set, Function.update_of_ne huv] at hu
      exact hsame hu

/-- What holds in every run in which a push takes the mark only from a kThread that is to wait. -/
structure AnsweredInv (L : Layout S) (s : State S U P) : Prop where
  inv : Inv L s
  token : ∀ k, Token s k
  fed : ∀ k, (s.sched k).Fed
  pushed : ∀ u k, s.place u = .popping k → u ∈ (s.sched k).pushed

theorem reachable_answeredInv (h : (machine U P L).ReachableBy Answered s) : AnsweredInv L s := by
  refine h.invariant (I := AnsweredInv L) ?_ fun s a s' hi hb hs => ?_
  · rintro s ⟨start, hstart, rfl⟩
    refine ⟨inv_initial hstart, fun k => ?_, fun k => ?_,
      fun u k hu => absurd hu (by simp [initial])⟩
    · have hnone : ∀ y, ¬(initial L start : State S U P).token k y := by
        intro y
        cases y <;> simp [State.token, initial, newScheduler, Schedule.owes]
      exact ⟨Nat.zero_le _, fun y _ hy => absurd hy (hnone y), fun y hy => absurd hy (hnone y),
        fun _ => .inl (Word.marked_mark _)⟩
    · unfold Scheduler.Fed initial newScheduler
      rcases hstart k with hk | hk <;> simp [hk]
  · have hst := step_cases hs
    exact ⟨inv_step hi.inv hst, fun k => token_step hi.inv (hi.token k) hb hst,
      fed_step hi.inv hi.fed hi.token hst, pushed_step hi.inv hi.pushed hst⟩

/-! ## `pop` returns -/

/-- The kThread is in the `pop` of `blockingSwitch`. -/
def Consumer.inBlockingPop : Consumer U → Bool
  | .readNext .blocking _ | .setHead .blocking _ _ | .copy .blocking _ _ | .readTail .blocking _
  | .spin .blocking _ | .cas .blocking _ => true
  | _ => false

/-- Some steps from here, the `pop` in `blockingSwitch` has returned a node. -/
def Returns (L : Layout S) (s : State S U P) (k : S) : Prop :=
  ∃ as s', (machine U P L).run s as = some s' ∧
    ∃ node, node ≠ 0#64 ∧ (s'.sched k).consumer = .leave node

theorem Returns.step (hs : step L s a = some s') (h : Returns L s' k) : Returns L s k := by
  obtain ⟨as, t, hrun, hnode⟩ := h
  exact ⟨a :: as, t, by simpa [Machine.run, machine, hs] using hrun, hnode⟩

omit [DecidableEq U] [DecidableEq P] in
theorem consumer_set (s : State S U P) (k : S) (c : Scheduler U) :
    ((s.set k c).sched k).consumer = c.consumer := by
  simp [State.set]

theorem returns_copy (h : Inv L s) {hhead n : Word}
    (hc : (s.sched k).consumer = .copy .blocking hhead n) : Returns L s k := by
  have hheld : s.Held hhead (.hand k) := by simp [State.Held, hc, Consumer.hand]
  refine .step (a := .switch k) (by simp [Scheduler04.step, switchStep, hc]; rfl) ?_
  exact ⟨[], _, rfl, hhead, (h.addr hheld).ne_zero, by simp [State.set, Scheduler.ret, afterPop]⟩

theorem returns_setHead (h : Inv L s) {hhead n : Word}
    (hc : (s.sched k).consumer = .setHead .blocking hhead n) : Returns L s k := by
  refine .step (a := .switch k) (by simp [Scheduler04.step, switchStep, hc]; rfl) ?_
  exact returns_copy (inv_setHead h hc) (consumer_set _ k _)

theorem returns_readNext (h : Inv L s) {hhead : Word}
    (hc : (s.sched k).consumer = .readNext .blocking hhead)
    (hn : s.next (s.sched k).head ≠ 0#64) : Returns L s k := by
  refine .step (a := .switch k) (by simp [Scheduler04.step, switchStep, hc, hn]; rfl) ?_
  exact returns_setHead (inv_move h (.next hc hn) s.ioSem)
    (consumer_set _ k _)

theorem returns_spin (h : Inv L s) {hhead : Word}
    (hc : (s.sched k).consumer = .spin .blocking hhead)
    (hn : s.next (s.sched k).head ≠ 0#64) : Returns L s k := by
  refine .step (a := .switch k) (by simp [Scheduler04.step, switchStep, hc, hn]; rfl) ?_
  exact returns_readNext (inv_move h (.linked hc) s.ioSem)
    (consumer_set _ k _) (by simpa [State.set] using hn)

theorem returns_readTail (h : Inv L s) {hhead : Word}
    (hc : (s.sched k).consumer = .readTail .blocking hhead) (hq : (s.sched k).queue.tail ≠ [])
    (hn : s.next (s.sched k).head ≠ 0#64) : Returns L s k := by
  have hinv := h.sched k
  have hm : (s.sched k).tail.marked = false :=
    Bool.eq_false_iff.mpr fun hm => hq (by rw [hinv.marked hm]; rfl)
  have hne : (s.sched k).head ≠ (s.sched k).tail := fun he => hq (hinv.eq_single (by
    rw [← he, Word.unmark_of_even (h.addr (y := .head k) rfl).even]))
  refine .step (a := .switch k) (by simp [Scheduler04.step, switchStep, hc, hm, hne]; rfl) ?_
  exact returns_spin (inv_move h (.behind hc hne) s.ioSem)
    (consumer_set _ k _) (by simpa [State.set] using hn)

/-- Once the pointer of the head is written, `pop` returns by itself. -/
theorem returns_of_next (h : Inv L s) (hf : (s.sched k).Fed)
    (hc : (s.sched k).consumer.inBlockingPop = true)
    (hn : s.next (s.sched k).head ≠ 0#64) : Returns L s k := by
  unfold Consumer.inBlockingPop at hc
  unfold Scheduler.Fed at hf
  split at hc
  · next hhead hp => exact returns_readNext h hp hn
  · next hhead n hp => exact returns_setHead h hp
  · next hhead n hp => exact returns_copy h hp
  · next hhead hp =>
    rw [hp] at hf
    exact returns_readTail h hp hf hn
  · next hhead hp => exact returns_spin h hp hn
  · next hhead hp =>
    rw [hp] at hf
    exact hf.elim
  · cases hc

omit [DecidableEq U] [DecidableEq P] in
/-- A null pointer at the head of a queue that is not empty is one that a producer will write. -/
theorem Inv.pending_link (h : Inv L s) (hq : (s.sched k).queue.tail ≠ [])
    (hn : s.next (s.sched k).head = 0#64) :
    ∃ p first w, s.producer p = .link k (s.sched k).head first w ∧ first ≠ 0#64 := by
  have hinv := h.sched k
  obtain ⟨b, R, hR⟩ := List.exists_cons_of_ne_nil hq
  have hqueue : (s.sched k).queue = (s.sched k).head :: b :: R := by rw [hinv.queue_eq, hR]
  have hb : b ≠ 0#64 := hinv.chain.ne_null b (by rw [hqueue]; simp)
  have hadj : Adjacent (s.sched k).queue (s.sched k).head b := by
    rw [hqueue]
    exact .inl ⟨rfl, rfl⟩
  rcases hinv.chain.joined _ b hadj with ⟨he, -⟩ | ⟨-, p, hp⟩
  · exact absurd (he.symm.trans hn) hb
  · unfold State.pend at hp
    cases hpos : s.producer p with
    | link kt prev first w =>
      simp only [hpos, Schedule.promise, Option.ite_none_right_eq_some, Option.some.injEq,
        Prod.mk.injEq] at hp
      obtain ⟨rfl, rfl, rfl⟩ := hp
      exact ⟨p, first, w, hpos, hb⟩
    | _ => simp [hpos, Schedule.promise] at hp

omit [DecidableEq S] [DecidableEq U] in
/-- In the `pop` of `blockingSwitch`, the queue is not empty or a node is already taken. -/
theorem Scheduler.Fed.cases {c : Scheduler U} (hf : c.Fed) (hc : c.consumer.inBlockingPop = true) :
    c.queue.tail ≠ [] ∨ ∃ hhead n, c.consumer = .setHead .blocking hhead n ∨
      c.consumer = .copy .blocking hhead n := by
  unfold Consumer.inBlockingPop at hc
  unfold Scheduler.Fed at hf
  split at hc
  · next hp => rw [hp] at hf; exact .inl hf
  · next hhead n hp => exact .inr ⟨hhead, n, .inl hp⟩
  · next hhead n hp => exact .inr ⟨hhead, n, .inr hp⟩
  · next hp => rw [hp] at hf; exact .inl hf
  · next hp => rw [hp] at hf; exact .inl hf
  · next hp => rw [hp] at hf; exact hf.elim
  · cases hc

/-- The `pop` in `blockingSwitch` returns once the producer of the first node has written its
pointer. -/
theorem returns_of_fed (h : Inv L s) (hf : (s.sched k).Fed)
    (hc : (s.sched k).consumer.inBlockingPop = true) : Returns L s k := by
  rcases hf.cases hc with hq | ⟨hhead, n, hp | hp⟩
  · by_cases hn : s.next (s.sched k).head = 0#64
    · obtain ⟨p, first, w, hp, hfirst⟩ := h.pending_link hq hn
      refine .step (a := .producer p) (by simp [Scheduler04.step, scheduleStep, hp]; rfl) ?_
      exact returns_of_next (inv_link h hp) hf hc (by simpa using hfirst)
    · exact returns_of_next h hf hc hn
  · exact returns_setHead h hp
  · exact returns_copy h hp

/-- **`blockingSwitch` pops a uThread** in every run in which a push takes the mark only from a
kThread that is to wait for a token. It never dereferences a null node; what its `pop` returns is a
node with a uThread that was scheduled there; and its `pop` returns. -/
theorem blockingSwitch_pops (h : (machine U P L).ReachableBy Answered s) (k : S) :
    (s.sched k).consumer ≠ .crashed ∧
    (∀ node, (s.sched k).consumer = .leave node → node ≠ 0#64 ∧
      ∃ ut, s.state node = some ut ∧ ut ∈ (s.sched k).pushed) ∧
    ((s.sched k).consumer.inBlockingPop = true → ∃ as s', (machine U P L).run s as = some s' ∧
      ∃ node, node ≠ 0#64 ∧ (s'.sched k).consumer = .leave node) := by
  obtain ⟨hi, -, hfed, hpushed⟩ := reachable_answeredInv h
  have hf := hfed k
  refine ⟨fun hc => ?_, fun node hc => ?_, returns_of_fed hi hf⟩
  · simp only [Scheduler.Fed, hc] at hf
  · simp only [Scheduler.Fed, hc] at hf
    have htaken := hi.places.hand k (by simp [hc, Consumer.hand, nonNull_of_ne hf])
    obtain ⟨ut, hut⟩ := Option.ne_none_iff_exists'.mp htaken
    refine ⟨hf, ut, ?_, hpushed ut k ((hi.places.popping ut k).mpr hut)⟩
    simpa [State.taken, hc, Consumer.taken, nonNull_of_ne hf] using hut

end Fed

theorem blockingSwitch_pops_one :
    ∃ s, (machine Bool Unit twoSchedulers).ReachableBy Answered s ∧
      ∃ node, (s.sched false).consumer = .leave node ∧ node ≠ 0#64 ∧
        ∃ ut, s.state node = some ut ∧ ut ∈ (s.sched false).pushed := by
  have hinit : (machine Bool Unit twoSchedulers).ReachableBy Answered
      (initial twoSchedulers fun _ => .mainUT) :=
    .init ⟨_, fun _ => .inl rfl, rfl⟩
  have h := hinit.get (List.flatten [[.create false 16#64], scheduleRun false false,
    [.blockingSwitch false], List.replicate 4 (.switch false)]) (by decide +kernel)
  exact ⟨_, h, 2#64, by decide +kernel, (blockingSwitch_pops h false).2.1 _ (by decide +kernel)⟩

end UThreads.Scheduler04
