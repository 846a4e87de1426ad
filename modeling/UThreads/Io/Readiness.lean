import UThreads.Io.IOHandlerProof

/-!
# No lost readiness

One uThread uses one direction of a connection that nobody closes. From a system call that returned
`EAGAIN` until the uThread consumes the next notification, the readiness of its descriptor is on
its way (`Coming`): in a queued event, in the hands of the poller, or as `POLL_READY` in the slot.
A notification that `unblock` drops because it finds `POLL_READY` is not lost, since the uThread
tries its system call again after it has consumed that `POLL_READY`.

Main result: `no_lost_readiness`.
-/

namespace UThreads.IOHandler

variable {K : Type*}

/-- The actions when only the uThread of direction `d` uses the connection, and nobody closes it. -/
def Action.only (d : Dir) : Action K → Prop
  | .call e | .syscall e _ | .run e => e = d
  | .close => False
  | _ => True

instance (d : Dir) : (a : Action K) → Decidable (a.only d)
  | .call e | .syscall e _ | .run e => inferInstanceAs (Decidable (e = d))
  | .close => inferInstanceAs (Decidable False)
  | .deliver _ | .elsewhere _ | .poll | .rise _ _ | .fall _ | .stale _ =>
    inferInstanceAs (Decidable True)

/-- The poller has still to look at the slot of direction `d` for an event. -/
def Processing (s : State K) (d : Dir) : Prop :=
  ∃ u todo, s.poller = .unblock u todo ∧ (u.utp? = some d ∨ d ∈ todo)

/-- The poller is processing an event for direction `d`, or queueing its uThread. -/
def InProcess (s : State K) (d : Dir) : Prop := Processing s d ∨ s.poller.ut? = some d

/-- Suspended, with `postSwitchFunc` finished, and not on a bulk queue or run queue. -/
def Pos.asleep (x : Pos) : Prop := x = .parked ∨ x = .dropped ∨ x = .taken

/-- The uThread of direction `d` will hear of the readiness of its descriptor. -/
def Coming (s : State K) (d : Dir) : Prop :=
  0 < s.events d ∨ Processing s d ∨ s.slot d = .ready

/-- From a system call that returned `EAGAIN` until the next notification is consumed. -/
def Pos.waiting : Pos → Bool
  | .opened | .openCas | .openAdd | .blockRead | .blockFlag | .suspend => true
  | .hookClosing | .hookFlag | .hookRead _ | .hookCas _ | .parked => true
  | _ => false

/-- In `block`, after `open`. -/
def Pos.afterOpen : Pos → Bool
  | .opened | .openCas | .openAdd => false
  | x => x.waiting

/-- The invariant with one uThread on one direction. -/
structure Alert (d : Dir) (s : State K) : Prop where
  closing : s.closing = false
  closer : s.closer = .idle
  other : ∀ e, e ≠ d → s.pos e = .idle
  opened : s.opened = true → s.registered = true ∨ s.pos d = .openAdd
  registered : (s.pos d).afterOpen = true → s.registered = true
  flag : (s.pos d).flagged = true → Dir.of s.isBlockingOnRead = d
  utp : ∀ q, (s.pos d).utp? = some q → q = d
  parked : s.pos d = .parked → s.slot d = .parked d
  dropped : s.pos d ≠ .dropped
  cas : ∀ u todo q, s.poller = .unblock u todo → u ≠ .cas q .ready
  coming : (s.pos d).waiting = true → s.registered = true → s.fdReady d = true → Coming s d

section OneDirection

variable {home : Dir → K} {s s' : State K} {d : Dir}

/-- The uThread comes to `y`. -/
theorem Alert.move (h : Alert d s) {y : Pos} (hpos : s'.pos = Function.update s.pos d y)
    (hclosing : s'.closing = s.closing) (hcloser : s'.closer = s.closer)
    (hcas : ∀ u todo q, s'.poller = .unblock u todo → u ≠ .cas q .ready)
    (hopen : s'.opened = true → s'.registered = true ∨ y = .openAdd)
    (hreg : y.afterOpen = true → s'.registered = true)
    (hflag : y.flagged = true → Dir.of s'.isBlockingOnRead = d)
    (hutp : ∀ q, y.utp? = some q → q = d) (hpark : y = .parked → s'.slot d = .parked d)
    (hdrop : y ≠ .dropped)
    (hcome : y.waiting = true → s'.registered = true → s'.fdReady d = true → Coming s' d) :
    Alert d s' := by
  have hd : s'.pos d = y := by rw [hpos, Function.update_self]
  refine ⟨hclosing.trans h.closing, hcloser.trans h.closer, ?_, ?_, ?_, ?_, ?_, ?_, ?_, hcas, ?_⟩
  · intro e he
    rw [hpos, Function.update_of_ne he]
    exact h.other e he
  · rw [hd]; exact hopen
  · rw [hd]; exact hreg
  · rw [hd]; exact hflag
  · rw [hd]; exact hutp
  · rw [hd]; exact hpark
  · rw [hd]; exact hdrop
  · rw [hd]; exact hcome

theorem alert_run (h : Alert d s) (hs : run d s = some s') : Alert d s' := by
  unfold run at hs
  have hopen := h.opened
  have hreg := h.registered
  have hflag := h.flag
  have hutp := h.utp
  have hcome := h.coming
  cases hd : s.pos d <;> rw [hd] at hopen hreg hflag hutp hcome <;> simp only [hd] at hs
  case idle | syscall | parked | dropped | taken | bulkQueue => cases hs
  case opened =>
    cases hs
    replace hopen := fun ho => (hopen ho).resolve_right nofun
    split_ifs with ho
    · exact h.move rfl rfl rfl h.cas (fun ho => .inl (hopen ho))
        (fun _ => hopen ho) nofun nofun nofun nofun hcome
    · exact h.move rfl rfl rfl h.cas (fun ho => .inl (hopen ho)) nofun nofun nofun nofun nofun hcome
  case openCas =>
    cases hs
    replace hopen := fun ho => (hopen ho).resolve_right nofun
    split_ifs with ho
    · exact h.move rfl rfl rfl h.cas (fun ho => .inl (hopen ho))
        (fun _ => hopen ho) nofun nofun nofun nofun hcome
    · exact h.move rfl rfl rfl h.cas (fun _ => .inr rfl) nofun nofun nofun nofun nofun hcome
  case openAdd =>
    cases hs
    refine h.move rfl rfl rfl h.cas (fun _ => .inl rfl) (fun _ => rfl) nofun nofun nofun nofun ?_
    intro _ _ hready
    have hready' : s.fdReady d = true := hready
    refine .inl ?_
    show 0 < if s.fdReady d then s.events d + 1 else s.events d
    rw [if_pos hready']
    exact Nat.succ_pos _
  case blockRead =>
    cases hs
    replace hopen := fun ho => (hopen ho).resolve_right nofun
    split_ifs
    · exact h.move rfl rfl rfl h.cas (fun ho => .inl (hopen ho)) nofun nofun nofun nofun nofun nofun
    · exact h.move rfl rfl rfl h.cas (fun ho => .inl (hopen ho)) hreg nofun nofun nofun nofun hcome
  case blockFlag =>
    cases hs
    refine h.move rfl rfl rfl h.cas (fun ho => .inl ((hopen ho).resolve_right nofun)) hreg
      (fun _ => ?_) nofun nofun nofun hcome
    cases d <;> rfl
  case suspend =>
    cases hs
    exact h.move rfl rfl rfl h.cas (fun ho => .inl ((hopen ho).resolve_right nofun)) hreg
      hflag nofun nofun nofun hcome
  case hookClosing =>
    rw [h.closing] at hs
    cases hs
    exact h.move rfl rfl rfl h.cas (fun ho => .inl ((hopen ho).resolve_right nofun)) hreg
      hflag nofun nofun nofun hcome
  case hookFlag =>
    cases hs
    refine h.move rfl rfl rfl h.cas (fun ho => .inl ((hopen ho).resolve_right nofun)) hreg
      nofun ?_ nofun nofun hcome
    rintro q ⟨rfl⟩
    exact hflag rfl
  case hookRead q =>
    cases hs
    replace hopen := fun ho => (hopen ho).resolve_right nofun
    split_ifs
    · exact h.move rfl rfl rfl h.cas (fun ho => .inl (hopen ho)) nofun nofun hutp nofun nofun nofun
    · exact h.move rfl rfl rfl h.cas (fun ho => .inl (hopen ho)) hreg nofun hutp nofun nofun hcome
  case hookCas q =>
    cases hs
    obtain rfl := hutp q rfl
    replace hopen := fun ho => (hopen ho).resolve_right nofun
    split_ifs with hq
    · refine h.move rfl rfl rfl h.cas (fun ho => .inl (hopen ho)) hreg nofun nofun
        (fun _ => Function.update_self ..) nofun ?_
      -- The slot was empty, so the notification is not in it.
      intro hw hr hready
      rcases hcome hw hr hready with he | hp | hslot
      · exact .inl he
      · exact .inr (.inl hp)
      · rw [hq] at hslot; cases hslot
    · exact h.move rfl rfl rfl h.cas (fun ho => .inl (hopen ho)) hreg nofun hutp nofun nofun hcome
  case blockClear | hookClear | hookResume | runQueue =>
    cases hs
    exact h.move rfl rfl rfl h.cas (fun ho => .inl ((hopen ho).resolve_right nofun)) nofun
      nofun nofun nofun nofun nofun

/-- The uThread stays where it is, and its notification stays on its way. -/
theorem Alert.stay (h : Alert d s) (hpos : s'.pos = s.pos) (hclosing : s'.closing = s.closing)
    (hcloser : s'.closer = s.closer) (hopened : s'.opened = s.opened)
    (hreg : s'.registered = s.registered) (hflag : s'.isBlockingOnRead = s.isBlockingOnRead)
    (hslot : s.slot d = .parked d → s'.slot d = .parked d)
    (hcas : ∀ u todo q, s'.poller = .unblock u todo → u ≠ .cas q .ready)
    (hcome : s'.registered = true → s'.fdReady d = true → (s.fdReady d = true → Coming s d) →
      Coming s' d) : Alert d s' := by
  refine ⟨hclosing.trans h.closing, hcloser.trans h.closer, ?_, ?_, ?_, ?_, ?_, ?_, ?_, hcas, ?_⟩
  · rw [hpos]; exact h.other
  · rw [hpos, hopened, hreg]; exact h.opened
  · rw [hpos, hreg]; exact h.registered
  · rw [hpos, hflag]; exact h.flag
  · rw [hpos]; exact h.utp
  · rw [hpos]; exact fun hp => hslot (h.parked hp)
  · rw [hpos]; exact h.dropped
  · rw [hpos]
    intro hw hr hready
    exact hcome hr hready fun hf => h.coming hw (hreg ▸ hr) hf

variable [DecidableEq K]

/-- The poller's `unblock` for an event: it leaves `POLL_READY` in the slot, or takes the uThread
out of it. -/
theorem alert_unblock {c : Option Dir} {u u' : Unblock Dir} {todo : List Dir} {t : State K}
    (hp : Places home s.slot s.pos s.bulkQueue u.ut? c) (h : Alert d s)
    (hpl : s.poller = .unblock u todo) (hu : UnblockStep home s u t u') :
    Alert d { t with poller := .unblock u' todo } := by
  -- A step that keeps the slot it works on, or leaves `POLL_READY` there.
  have hproc : ∀ {s' : State K}, s'.poller = .unblock u' todo → s'.events = s.events →
      (s.slot d = .ready → s'.slot d = .ready) →
      (u.utp? = some d → u'.utp? = some d ∨ s'.slot d = .ready) → Coming s d → Coming s' d := by
    rintro s' hpl' hev hready hutp (he | ⟨v, l, hv, hd⟩ | hslot)
    · exact .inl (hev ▸ he)
    · obtain ⟨rfl, rfl⟩ := Poller.unblock.inj (hpl.symm.trans hv)
      rcases hd with hd | hd
      · rcases hutp hd with hd | hd
        · exact .inr (.inl ⟨u', todo, hpl', .inl hd⟩)
        · exact .inr (.inr hd)
      · exact .inr (.inl ⟨u', todo, hpl', .inr hd⟩)
    · exact .inr (.inr (hready hslot))
  cases hu with
  | closed hc => rw [h.closing] at hc; cases hc
  | enter | retry =>
    refine h.stay rfl rfl rfl rfl rfl rfl id ?_ fun _ hf hcm => hproc rfl rfl id .inl (hcm hf)
    rintro v l r ⟨rfl, rfl⟩
    exact nofun
  | push =>
    refine h.stay rfl rfl rfl rfl rfl rfl id ?_ fun _ hf hcm => hproc rfl rfl id nofun (hcm hf)
    rintro v l r ⟨rfl, rfl⟩
    exact nofun
  | @ready q hq =>
    refine h.stay rfl rfl rfl rfl rfl rfl id ?_ fun _ hf hcm => hproc rfl rfl id ?_ (hcm hf)
    · rintro v l r ⟨rfl, rfl⟩
      exact nofun
    · rintro ⟨rfl⟩
      exact .inr hq
  | @read q hq =>
    refine h.stay rfl rfl rfl rfl rfl rfl id ?_ fun _ hf hcm => hproc rfl rfl id .inl (hcm hf)
    rintro v l r ⟨rfl, rfl⟩ hcas
    exact hq (Unblock.cas.inj hcas).2
  | @set q old x hq hold hx =>
    have hne : old ≠ .ready := fun he => h.cas _ _ q hpl (he ▸ rfl)
    rw [if_neg hne] at hx
    subst hx
    refine h.stay rfl rfl rfl rfl rfl rfl ?_ ?_ fun _ hf hcm => hproc rfl rfl ?_ ?_ (hcm hf)
    · intro hd
      show Function.update s.slot q .ready d = _
      by_cases hdq : d = q
      · subst hdq
        exact absurd (hq.symm.trans hd) (hold d)
      · rw [Function.update_of_ne hdq]
        exact hd
    · rintro v l r ⟨rfl, rfl⟩
      exact nofun
    · intro hd
      show Function.update s.slot q .ready d = _
      by_cases hdq : d = q
      · rw [hdq, Function.update_self]
      · rw [Function.update_of_ne hdq]
        exact hd
    · rintro ⟨rfl⟩
      exact .inr (Function.update_self ..)
  | @take q ut hq =>
    obtain rfl : ut = d := by
      by_contra hne
      have hpark := hp.parked q ut hq
      rw [h.other ut hne] at hpark
      cases hpark
    have hpark := hp.parked q ut hq
    have hopen := h.opened
    rw [hpark] at hopen
    refine h.move rfl rfl rfl ?_ (fun ho => .inl ((hopen ho).resolve_right nofun)) nofun nofun nofun
      nofun nofun nofun
    rintro v l r ⟨rfl, rfl⟩
    exact nofun
  | @pushed ut =>
    have htaken : s.pos ut = .taken := (hp.taken ut).mpr (.inl rfl)
    obtain rfl : ut = d := by
      by_contra hne
      rw [h.other ut hne] at htaken
      cases htaken
    have hopen := h.opened
    rw [htaken] at hopen
    refine h.move rfl rfl rfl ?_ (fun ho => .inl ((hopen ho).resolve_right nofun)) nofun nofun nofun
      nofun nofun nofun
    rintro v l r ⟨rfl, rfl⟩
    exact nofun
  | ret =>
    exact h.stay rfl rfl rfl rfl rfl rfl id (fun v l q hv => h.cas v l q (hpl.trans hv))
      fun _ hf hcm => hproc rfl rfl id .inl (hcm hf)

omit [DecidableEq K] in
theorem Poller.next_ne_cas {todo l : List Dir} {u : Unblock Dir} {q : Dir} {old : Slot Dir}
    (h : (Poller.next todo : Poller K) = .unblock u l) : u ≠ .cas q old := by
  cases todo with
  | nil => cases h
  | cons d todo => cases h; exact nofun

omit [DecidableEq K] in
/-- A direction that is still to come is processed next, or stays to come. -/
theorem Processing.next {todo : List Dir} (hs : s.poller = .next todo) (hd : d ∈ todo) :
    Processing s d := by
  cases todo with
  | nil => cases hd
  | cons e todo =>
    refine ⟨.closing e, todo, hs, ?_⟩
    rcases List.mem_cons.mp hd with rfl | hd
    · exact .inl rfl
    · exact .inr hd

/-- The flush moves the uThread on if it is on that bulk queue. -/
theorem alert_flush (hI : Inv home s) (h : Alert d s) {k : K} {ks : List K}
    (hpl : s.poller = .flush (k :: ks)) : Alert d { s.flush k with poller := .zero k ks } := by
  have hcome : ∀ {s' : State K}, s'.events = s.events → s'.slot = s.slot → Coming s d →
      Coming s' d := by
    rintro s' hev hslot (he | ⟨u, todo, hu, -⟩ | hr)
    · exact .inl (hev ▸ he)
    · rw [hpl] at hu; cases hu
    · exact .inr (.inr (hslot ▸ hr))
  have hin : ∀ e, e ∈ s.bulkQueue k → e = d ∧ s.pos d = .bulkQueue := by
    intro e he
    have hpos : s.pos e = .bulkQueue := by
      rw [hI.places.queued e, ← hI.places.at_home k e he]
      exact he
    have hed : e = d := by
      by_contra hne
      rw [h.other e hne] at hpos
      cases hpos
    exact ⟨hed, hed ▸ hpos⟩
  unfold State.flush
  split_ifs
  · by_cases hd : d ∈ s.bulkQueue k
    · have hopen := h.opened
      rw [(hin d hd).2] at hopen
      refine h.move (y := .runQueue) ?_ rfl rfl nofun
        (fun ho => .inl ((hopen ho).resolve_right nofun)) nofun nofun nofun nofun nofun nofun
      funext e
      by_cases he : e = d
      · rw [he, Function.update_self]
        exact if_pos hd
      · rw [Function.update_of_ne he]
        exact if_neg fun hm => he (hin e hm).1
    · refine h.stay ?_ rfl rfl rfl rfl rfl id nofun fun _ hf hcm => hcome rfl rfl (hcm hf)
      funext e
      exact if_neg fun hm => hd ((hin e hm).1 ▸ hm)
  · exact h.stay rfl rfl rfl rfl rfl rfl id nofun fun _ hf hcm => hcome rfl rfl (hcm hf)

theorem alert_poll {kts : List K} (hI : Inv home s) (h : Alert d s)
    (hs : poll home kts s = some s') : Alert d s' := by
  have hp := hI.places
  -- Outside `PollReady` no event is being processed.
  have hkeep : ∀ {s' : State K},
      (∀ u todo, s.poller = .unblock u todo → u.utp? ≠ some d ∧ d ∉ todo) →
      s'.events = s.events → s'.slot = s.slot → Coming s d → Coming s' d := by
    rintro s' hno hev hslot (he | ⟨u, todo, hu, hd⟩ | hr)
    · exact .inl (hev ▸ he)
    · exact absurd hd (not_or.mpr (hno u todo hu))
    · exact .inr (.inr (hslot ▸ hr))
  cases poll_step hs with
  | start hpl | bulkPush hpl | finish hpl | other hpl | flushed hpl | zero hpl =>
    exact h.stay rfl rfl rfl rfl rfl rfl id nofun fun _ hf hcm =>
      hkeep (fun u todo hu => by rw [hpl] at hu; cases hu) rfl rfl (hcm hf)
  | @ret res todo hpl =>
    refine h.stay rfl rfl rfl rfl rfl rfl id (fun u l q hu => Poller.next_ne_cas hu)
      fun _ hf hcm => ?_
    rcases hcm hf with he | ⟨u, l, hu, hd⟩ | hr
    · exact .inl he
    · obtain ⟨rfl, rfl⟩ := Poller.unblock.inj (hpl.symm.trans hu)
      exact .inr (.inl (.next rfl (hd.resolve_left nofun)))
    · exact .inr (.inr hr)
  | unblock hpl _ hu =>
    rw [hpl] at hp
    exact alert_unblock hp h hpl hu
  | @flush k ks hpl => exact alert_flush hI h hpl

theorem alert_step {kts : List K} (hI : Inv home s) (h : Alert d s) {a : Action K} (ha : a.only d)
    (hs : step home kts s a = some s') : Alert d s' := by
  cases a with
  | call e =>
    obtain rfl : e = d := ha
    obtain ⟨hd, rfl⟩ := step_call hs
    have hopen := h.opened
    rw [hd] at hopen
    exact h.move rfl rfl rfl h.cas (fun ho => .inl ((hopen ho).resolve_right nofun)) nofun
      nofun nofun nofun nofun nofun
  | syscall e again =>
    obtain rfl : e = d := ha
    have hopen := h.opened
    obtain ⟨hd, ⟨-, hready, rfl⟩ | rfl⟩ := step_syscall hs
    · -- `EAGAIN`: the descriptor is not ready.
      rw [hd] at hopen
      refine h.move rfl rfl rfl h.cas (fun ho => .inl ((hopen ho).resolve_right nofun)) nofun
        nofun nofun nofun nofun fun _ _ hf => ?_
      exact absurd (hready.symm.trans hf) nofun
    · rw [hd] at hopen
      exact h.move rfl rfl rfl h.cas (fun ho => .inl ((hopen ho).resolve_right nofun)) nofun
        nofun nofun nofun nofun nofun
  | run e =>
    obtain rfl : e = d := ha
    exact alert_run h hs
  | deliver dirs =>
    obtain ⟨hg, rfl⟩ := step_deliver hs
    refine h.stay rfl rfl rfl rfl rfl rfl id (fun u l q hu => Poller.next_ne_cas hu)
      fun _ hf hcm => ?_
    rcases hcm hf with he | ⟨u, l, hu, -⟩ | hr
    · by_cases hd : d ∈ dirs
      · exact .inr (.inl (.next rfl hd))
      · refine .inl ?_
        show 0 < if d ∈ dirs then s.events d - 1 else s.events d
        rw [if_neg hd]
        exact he
    · rw [hg] at hu; cases hu
    · exact .inr (.inr hr)
  | elsewhere k =>
    obtain ⟨hp, rfl⟩ := step_elsewhere hs
    refine h.stay rfl rfl rfl rfl rfl rfl id nofun fun _ hf hcm => ?_
    rcases hcm hf with he | ⟨u, l, hu, -⟩ | hr
    · exact .inl he
    · rw [hp] at hu; cases hu
    · exact .inr (.inr hr)
  | poll => exact alert_poll hI h hs
  | close => exact ha.elim
  | rise e merge =>
    cases hs
    refine h.stay rfl rfl rfl rfl rfl rfl id h.cas fun hr hf hcm => ?_
    replace hr : s.registered = true := hr
    replace hf : Function.update s.fdReady e true d = true := hf
    by_cases he : d = e
    · subst he
      refine .inl ?_
      show 0 < (if _ then Function.update s.events d (s.events d + 1) else s.events) d
      split_ifs with hm
      · rw [Function.update_self]
        exact Nat.succ_pos _
      · exact (not_not.mp fun hn => hm ⟨hr, hn⟩).2
    · rw [Function.update_of_ne he] at hf
      rcases hcm hf with hev | hp | hslot
      · refine .inl ?_
        show 0 < (if _ then Function.update s.events e (s.events e + 1) else s.events) d
        split_ifs
        · rw [Function.update_of_ne he]
          exact hev
        · exact hev
      · exact .inr (.inl hp)
      · exact .inr (.inr hslot)
  | fall e =>
    cases hs
    refine h.stay rfl rfl rfl rfl rfl rfl id h.cas fun hr hf hcm => ?_
    replace hf : Function.update s.fdReady e false d = true := hf
    by_cases he : d = e
    · rw [he, Function.update_self] at hf
      cases hf
    · rw [Function.update_of_ne he] at hf
      exact hcm hf
  | stale e =>
    cases hs
    refine h.stay rfl rfl rfl rfl rfl rfl id h.cas fun _ hf hcm => ?_
    rcases hcm hf with hev | hp | hslot
    · refine .inl ?_
      show 0 < Function.update s.events e (s.events e + 1) d
      by_cases he : d = e
      · rw [he, Function.update_self]
        exact Nat.succ_pos _
      · rw [Function.update_of_ne he]
        exact hev
    · exact .inr (.inl hp)
    · exact .inr (.inr hslot)

omit [DecidableEq K] in
theorem alert_initial (fdReady : Dir → Bool) : Alert d (initial fdReady : State K) :=
  ⟨rfl, rfl, fun _ _ => rfl, nofun, nofun, nofun, nofun, nofun, nofun, nofun, nofun⟩

/-- **No readiness notification is lost.** Let one uThread use one direction of an open connection.
It is never left asleep with the descriptor ready and no event for it queued or in process; and
every suspension but the present one was followed by exactly one hand-over. -/
theorem no_lost_readiness {rt : Runtime K}
    (h : (machine rt).ReachableBy (fun _ a => a.only d) s) :
    ¬((s.pos d).asleep ∧ s.fdReady d = true ∧ s.events d = 0 ∧ ¬InProcess s d) ∧
      s.suspensions d = s.handovers d + (s.pos d).unhanded := by
  have hI : Inv rt.home s ∧ Alert d s := by
    refine Machine.ReachableBy.invariant (I := fun s => Inv rt.home s ∧ Alert d s) ?_ ?_ h
    · rintro s ⟨fdReady, rfl⟩
      exact ⟨inv_initial fdReady, alert_initial fdReady⟩
    · rintro s a s' ⟨hI, hA⟩ ha hs
      exact ⟨inv_step hI hs, alert_step hI hA ha hs⟩
  obtain ⟨hI, hA⟩ := hI
  refine ⟨?_, hI.counted.handovers d⟩
  rintro ⟨hparked | hdropped | htaken, hready, hev, hproc⟩
  rotate_left
  · exact hA.dropped hdropped
  · have hhand := (hI.places.taken d).mp htaken
    rw [hA.closer] at hhand
    exact hproc (.inr (hhand.resolve_right nofun))
  have hcoming : Coming s d :=
    hA.coming (by rw [hparked]; rfl) (hA.registered (by rw [hparked]; rfl)) hready
  rcases hcoming with he | hp | hslot
  · omega
  · exact hproc (.inl hp)
  · rw [hA.parked hparked] at hslot
    cases hslot

/-- The reader finds nothing to read and parks; then data arrives. -/
def readerParks : List (Action ℕ) :=
  List.flatten [[.call .read, .syscall .read true], List.replicate 10 (.run .read),
    [.rise .read false]]

theorem no_lost_readiness_readerParks :
    ∃ s : State ℕ, (machine oneKThread).ReachableBy (fun _ a => a.only .read) s ∧
      (s.pos .read).asleep ∧ s.fdReady .read = true ∧ (0 < s.events .read ∨ InProcess s .read) := by
  have hinit : (machine oneKThread).ReachableBy (fun _ a => Action.only .read a)
      (initial fun _ => false) := .init ⟨_, rfl⟩
  have hr := hinit.get readerParks (by decide +kernel)
  refine ⟨_, hr, .inl (by decide +kernel), by decide +kernel, ?_⟩
  by_contra hno
  rw [not_or] at hno
  exact (no_lost_readiness hr).1
    ⟨.inl (by decide +kernel), by decide +kernel, Nat.eq_zero_of_not_pos hno.1, hno.2⟩

end OneDirection

end UThreads.IOHandler
