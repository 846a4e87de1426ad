import UThreads.Generic.BlockingMPSCQueue
import UThreads.Lib.Fifo

/-!
# `BlockingMPSCQueue` is a FIFO

**The invariant** (`Inv s Q`). The nodes `Q` from `head` to `tail` form a chain with gaps
(`GapChain`): between its exchange and its link, a producer has promised a pointer that is still
null. Without the stub, `Q` holds exactly the elements that were exchanged in and not yet popped.

The stub is in `Q` except while `pop` has taken it off and not yet exchanged it back. A marked
tail means that `Q` is the stub alone.

Main results: `pops_are_fifo`, and `refines_fifo`: every run is a run of the plain FIFO list.
-/

namespace UThreads.BlockingMPSCQueue

variable {P : Type*}

/-! ## Promises -/

/-- The pointer a thread in `insert` has still to write. -/
def State.pend (s : State P) (t : Option P) : Option (Word × Word) :=
  match s.ins t with
  | .link prev first _ => some (prev, first)
  | _ => none

/-- The nodes a thread brings to `insert`, before its exchange. -/
def State.bringing (s : State P) (t : Option P) (first last : Word) (c : List Word) : Prop :=
  s.ins t = .clear first last c ∨ s.ins t = .exchange first last c

/-- The element `pop` has taken off the queue and not yet returned. -/
def State.inHand (s : State P) : List Word :=
  match s.pop with
  | .clear l => [l]
  | _ => []

theorem pend_eq_none {s : State P} {t : Option P} {first last : Word} {c : List Word}
    (h : s.bringing t first last c) : s.pend t = none := by
  rcases h with h | h <;> simp [State.pend, h]

/-! ## The invariant -/

/-- What the consumer's position says about the stub and the first node. -/
def ConsumerInv (stub : Word) (s : State P) (Q : List Word) : Prop :=
  match s.pop with
  | .idle | .readHead => s.ins none = .idle ∧ stub ∈ Q
  | .readTail | .cas | .waitStub => s.ins none = .idle ∧ stub ∈ Q ∧ s.head = stub
  | .takeStub => s.ins none = .idle ∧ stub ∈ Q ∧ s.head = stub ∧ s.next stub ≠ 0#64
  | .reinsert =>
    match s.ins none with
    | .clear f l c => f = stub ∧ l = stub ∧ c = [stub] ∧ stub ∉ Q
    | .exchange f l c => f = stub ∧ l = stub ∧ c = [stub] ∧ stub ∉ Q ∧ s.next stub = 0#64
    | .link _ _ _ | .idle => stub ∈ Q ∧ s.head ≠ stub
  | .waitHead => s.ins none = .idle ∧ stub ∈ Q ∧ s.head ≠ stub
  | .advance => s.ins none = .idle ∧ stub ∈ Q ∧ s.head ≠ stub ∧ s.next s.head ≠ 0#64
  | .clear l => s.ins none = .idle ∧ stub ∈ Q ∧ s.place l = .popping

/-- The nodes `Q` are the queue. -/
structure Inv (stub : Word) (s : State P) (Q : List Word) : Prop where
  chain : GapChain 0#64 s.next s.pend Q
  head : Q.head? = some s.head
  tail : Q.getLast? = some s.tail.unmark
  marked : s.tail.marked = true → Q = [stub]
  queued : ∀ a, s.place a = .queued ↔ a ∈ Q ∧ a ≠ stub
  isStub : ∀ a, s.place a = .stub ↔ a = stub
  addr : ∀ a, s.place a ≠ .free → a.IsAddr
  /-- The elements pushed are those popped, the one in hand, and those in the queue. -/
  content : s.popped ++ s.inHand ++ Q.filter (· ≠ stub) = s.pushed
  elements : ∀ a ∈ s.pushed, a.IsAddr ∧ a ≠ stub
  /-- Before its exchange a producer has a linked chain of its own. -/
  producer : ∀ p first last c, s.bringing (some p) first last c →
    c.head? = some first ∧ c.getLast? = some last ∧ c.Nodup ∧
      (∀ a ∈ c, s.place a = .pushing p) ∧ ∀ a b, Adjacent c a b → s.next a = b
  /-- When it comes to the exchange, the last link is null. -/
  cleared : ∀ p first last c, s.ins (some p) = .exchange first last c → s.next last = 0#64
  consumer : ConsumerInv stub s Q

namespace Inv

variable {stub : Word} {s : State P} {Q : List Word}

theorem stub_addr (h : Inv stub s Q) : stub.IsAddr :=
  h.addr stub (by rw [(h.isStub stub).mpr rfl]; exact nofun)

/-- A node that is neither queued nor the stub is not in the chain. -/
theorem not_mem (h : Inv stub s Q) {a : Word} {pl : Place P} (ha : s.place a = pl)
    (hq : pl ≠ .queued) (hs : pl ≠ .stub) : a ∉ Q ∧ a ≠ stub := by
  have hne : a ≠ stub := fun e => hs (ha ▸ (h.isStub a).mpr e)
  exact ⟨fun hQ => hq (ha ▸ (h.queued a).mpr ⟨hQ, hne⟩), hne⟩

theorem head_mem (h : Inv stub s Q) : s.head ∈ Q := List.mem_of_head? h.head

end Inv

/-- The consumer's part is kept by steps that leave its position and the head alone, keep the
stub where it is, and clear no link of the queue. -/
theorem ConsumerInv.mono {stub : Word} {s s' : State P} {Q Q' : List Word}
    (h : ConsumerInv stub s Q) (hQ : s.head ∈ Q) (hpop : s'.pop = s.pop)
    (hins : s'.ins none = s.ins none) (hhead : s'.head = s.head) (hstub : stub ∈ Q' ↔ stub ∈ Q)
    (hnext : ∀ a ∈ Q, s.next a ≠ 0#64 → s'.next a ≠ 0#64)
    (hnull : stub ∉ Q → s'.next stub = s.next stub)
    (hplace : ∀ a, s.place a = .popping → s'.place a = .popping) : ConsumerInv stub s' Q' := by
  unfold ConsumerInv at h ⊢
  rw [hpop]
  cases hp : s.pop with
  | idle | readHead | readTail | cas | waitStub | waitHead =>
    simp only [hp] at h
    simpa only [hins, hhead, hstub] using h
  | takeStub =>
    simp only [hp] at h
    rw [hins, hhead, hstub]
    exact ⟨h.1, h.2.1, h.2.2.1, hnext stub h.2.1 h.2.2.2⟩
  | advance =>
    simp only [hp] at h
    rw [hins, hhead, hstub]
    exact ⟨h.1, h.2.1, h.2.2.1, hnext s.head hQ h.2.2.2⟩
  | clear l =>
    simp only [hp] at h
    rw [hins, hstub]
    exact ⟨h.1, h.2.1, hplace l h.2.2⟩
  | reinsert =>
    simp only [hp] at h
    rw [hins]
    cases hi : s.ins none with
    | idle | link =>
      simp only [hi] at h
      simpa only [hhead, hstub] using h
    | clear =>
      simp only [hi] at h
      simpa only [hstub] using h
    | exchange =>
      simp only [hi] at h
      obtain ⟨hf, hl, hc, hnQ, hn⟩ := h
      exact ⟨hf, hl, hc, fun hQ' => hnQ (hstub.mp hQ'), by rw [hnull hnQ]; exact hn⟩

/-- The consumer is in `insert` only to put the stub back. -/
theorem ConsumerInv.reinsert {stub : Word} {s : State P} {Q : List Word}
    (h : ConsumerInv stub s Q) (hi : s.ins none ≠ .idle) : s.pop = .reinsert := by
  unfold ConsumerInv at h
  cases hp : s.pop with
  | reinsert => rfl
  | _ => simp only [hp] at h; exact absurd h.1 hi

/-! ## The promises after a step of `insert` -/

section Promises

variable [DecidableEq P] (s : State P) (t : Option P)

theorem pend_update_link (prev first : Word) (w : Bool) (s' : State P)
    (hs : s'.ins = Function.update s.ins t (.link prev first w)) :
    s'.pend = Function.update s.pend t (some (prev, first)) := by
  funext u
  unfold State.pend
  rw [hs]
  by_cases hu : u = t
  · subst hu; simp
  · simp [Function.update_of_ne hu]

theorem pend_update_idle (i : Insert) (hi : ∀ prev first w, i ≠ .link prev first w) (s' : State P)
    (hs : s'.ins = Function.update s.ins t i) : s'.pend = Function.update s.pend t none := by
  funext u
  unfold State.pend
  rw [hs]
  by_cases hu : u = t
  · subst hu
    rw [Function.update_self, Function.update_self]
    cases i with
    | link prev first w => exact absurd rfl (hi prev first w)
    | _ => rfl
  · simp [Function.update_of_ne hu]

theorem pend_update_same (i : Insert) (hi : ∀ prev first w, i ≠ .link prev first w)
    (ht : s.pend t = none) (s' : State P) (hs : s'.ins = Function.update s.ins t i) :
    s'.pend = s.pend := by
  rw [pend_update_idle s t i hi s' hs, ← ht, Function.update_eq_self]

end Promises

/-! ## Steps outside `insert` -/

section Steps

variable {stub : Word} {s s' : State P} {Q : List Word}

theorem inv_initial (hstub : stub.IsAddr) : Inv (P := P) stub (initial stub) [stub] where
  chain := GapChain.single hstub.ne_zero rfl fun _ => rfl
  head := rfl
  tail := by rw [initial, Word.unmark_mark hstub.even]; rfl
  marked := fun _ => rfl
  queued := fun a => by by_cases ha : a = stub <;> simp [initial, ha]
  isStub := fun a => by by_cases ha : a = stub <;> simp [initial, ha]
  addr := fun a ha => by
    by_cases hs : a = stub
    · exact hs ▸ hstub
    · simp [initial, hs] at ha
  content := by simp [initial, State.popped, State.inHand]
  elements := by simp [initial]
  producer := fun p first last c h => by rcases h with h | h <;> cases h
  cleared := fun p first last c h => by cases h
  consumer := ⟨rfl, List.mem_singleton_self stub⟩

/-- The owner of a free node writes its link. -/
theorem inv_write (h : Inv stub s Q) {a v : Word} (ha : s.place a = .free) :
    Inv stub { s with next := Function.update s.next a v } Q := by
  obtain ⟨haQ, has⟩ := h.not_mem ha nofun nofun
  have hne : ∀ b ∈ Q, Function.update s.next a v b = s.next b := fun b hb =>
    Function.update_of_ne (ne_of_mem_of_not_mem hb haQ) _ _
  have hpush : ∀ b p, s.place b = .pushing p → Function.update s.next a v b = s.next b :=
    fun b p hb => Function.update_of_ne (fun e => by rw [e, ha] at hb; cases hb) _ _
  exact { h with
    chain := h.chain.frame hne
    producer := fun p first last c hc => by
      obtain ⟨hf, hl, hnd, hp, hadj⟩ := h.producer p first last c hc
      exact ⟨hf, hl, hnd, hp, fun x y hxy => (hpush x p (hp x hxy.mem.1)).trans (hadj x y hxy)⟩
    cleared := fun p first last c hc => by
      obtain ⟨-, hl, -, hp, -⟩ := h.producer p first last c (.inr hc)
      exact (hpush last p (hp last (List.mem_of_getLast? hl))).trans (h.cleared p first last c hc)
    consumer := h.consumer.mono h.head_mem rfl rfl rfl Iff.rfl
      (fun b hb hn => (hne b hb).trans_ne hn) (fun _ => Function.update_of_ne has.symm _ _)
      fun _ hb => hb }

/-- A step of `pop` that changes only the consumer's position. -/
theorem inv_move (h : Inv stub s Q) (x : Pop)
    (hx : State.inHand { s with pop := x } = s.inHand)
    (hc : ConsumerInv stub { s with pop := x } Q) : Inv stub { s with pop := x } Q :=
  { h with
    content := by rw [hx]; exact h.content
    consumer := hc }

/-- `pop` returns `nullptr`. -/
theorem inv_ret_none (h : Inv stub s Q) (hx : s.inHand = [])
    (hi : s.ins none = .idle) (hQ : stub ∈ Q) : Inv stub (s.ret none) Q :=
  { h with
    content := by
      have := h.content
      rw [hx] at this
      simpa [State.popped, State.ret, State.inHand] using this
    consumer := ⟨hi, hQ⟩ }

/-- With the stub both first and last, the queue is the stub alone. -/
theorem Inv.eq_single (h : Inv stub s Q) (hh : s.head = stub) (ht : s.tail.unmark = stub) :
    Q = [stub] := by
  have hhead := hh ▸ h.head
  have htail := ht ▸ h.tail
  match Q, hhead, htail, h.chain.nodup with
  | [a], hhead, _, _ => simpa using hhead
  | a :: b :: R, hhead, htail, hnd =>
    obtain rfl : a = stub := by simpa using hhead
    rw [List.getLast?_cons_cons] at htail
    exact absurd (List.mem_of_getLast? htail) (List.nodup_cons.mp hnd).1

/-- The successful CAS marks the empty queue. -/
theorem inv_mark (h : Inv stub s Q) (hp : s.pop = .cas) (ht : s.tail = stub) :
    Inv stub { s.ret none with tail := stub.mark } Q := by
  have hc := h.consumer
  simp only [ConsumerInv, hp] at hc
  obtain ⟨hi, hQ, hh⟩ := hc
  have hun : s.tail.unmark = stub := by rw [ht, Word.unmark_of_even h.stub_addr.even]
  have h' := inv_ret_none h (by simp [State.inHand, hp]) hi hQ
  exact { h' with
    tail := by rw [Word.unmark_mark h.stub_addr.even, ← hun]; exact h.tail
    marked := fun _ => h.eq_single hh hun }

/-- `l = head; head = head->next`: the first element is in the consumer's hand. -/
theorem inv_advance (h : Inv stub s Q) (hp : s.pop = .advance) :
    ∃ Q', Inv stub { s with
      head := s.next s.head
      pop := .clear s.head
      place := Function.update s.place s.head .popping } Q' := by
  have hc := h.consumer
  simp only [ConsumerInv, hp] at hc
  obtain ⟨hi, hstub, hh, hn⟩ := hc
  obtain ⟨R, hQ, hR⟩ := h.chain.advance h.head hn
  have hnd := hQ ▸ h.chain.nodup
  rw [List.nodup_cons] at hnd
  have hplace : ∀ a, a ≠ s.head → Function.update s.place s.head .popping a = s.place a :=
    fun a ha => Function.update_of_ne ha _ _
  have hqueued : s.place s.head = .queued := (h.queued s.head).mpr ⟨h.head_mem, hh⟩
  refine ⟨s.next s.head :: R, { h with
    chain := hR
    head := rfl
    tail := by rw [← h.tail, hQ, List.getLast?_cons_cons]
    marked := fun hm => ?_
    queued := fun a => ?_
    isStub := fun a => ?_
    addr := fun a ha => ?_
    content := ?_
    producer := fun q f l d hd => ?_
    consumer := ?_ }⟩
  · rw [h.marked hm] at hQ; cases hQ
  · by_cases ha : a = s.head
    · subst ha
      simpa using fun hm => absurd hm (by simpa using hnd.1)
    · show Function.update s.place s.head .popping a = .queued ↔ _
      rw [hplace a ha, h.queued a, hQ, List.mem_cons]
      exact ⟨fun hm => ⟨hm.1.resolve_left ha, hm.2⟩, fun hm => ⟨.inr hm.1, hm.2⟩⟩
  · by_cases ha : a = s.head
    · subst ha; simpa using hh
    · show Function.update s.place s.head .popping a = .stub ↔ _
      rw [hplace a ha]
      exact h.isStub a
  · by_cases hah : a = s.head
    · subst hah; exact h.addr _ (by rw [hqueued]; exact nofun)
    · exact h.addr a (by rw [← hplace a hah]; exact ha)
  · have hcont := h.content
    rw [hQ, List.filter_cons_of_pos (by simpa using hh)] at hcont
    simpa [State.inHand, hp, State.popped] using hcont
  · obtain ⟨h1, h2, h3, h4, h5⟩ := h.producer q f l d hd
    refine ⟨h1, h2, h3, fun a ha => ?_, h5⟩
    refine (hplace a ?_).trans (h4 a ha)
    rintro rfl
    rw [h4 s.head ha] at hqueued
    cases hqueued
  · simp only [ConsumerInv, Function.update_self, and_true]
    rw [hQ, List.mem_cons] at hstub
    exact ⟨hi, hstub.resolve_left hh.symm⟩

/-- `l->next = nullptr; return l`: the element is free again. -/
theorem inv_ret_some (h : Inv stub s Q) {l : Word} (hp : s.pop = .clear l) :
    Inv stub { s.ret (some l) with
      next := Function.update s.next l 0#64
      place := Function.update s.place l .free } Q := by
  have hc := h.consumer
  simp only [ConsumerInv, hp] at hc
  obtain ⟨hi, hstub, hl⟩ := hc
  obtain ⟨hlQ, hls⟩ := h.not_mem hl nofun nofun
  have hplace : ∀ a, a ≠ l → Function.update s.place l .free a = s.place a :=
    fun a ha => Function.update_of_ne ha _ _
  have hpush : ∀ q a, s.place a = .pushing q → a ≠ l := fun q a ha e => by
    rw [e, hl] at ha; cases ha
  exact {
    chain := h.chain.frame fun a ha => Function.update_of_ne (ne_of_mem_of_not_mem ha hlQ) _ _
    head := h.head
    tail := h.tail
    marked := h.marked
    queued := fun a => by
      by_cases ha : a = l
      · subst ha; simpa using fun hm => absurd hm hlQ
      · show Function.update s.place l .free a = .queued ↔ _
        rw [hplace a ha]
        exact h.queued a
    isStub := fun a => by
      by_cases ha : a = l
      · subst ha; simpa using hls
      · show Function.update s.place l .free a = .stub ↔ _
        rw [hplace a ha]
        exact h.isStub a
    addr := fun a ha => by
      by_cases hal : a = l
      · subst hal; simp at ha
      · exact h.addr a (by rw [← hplace a hal]; exact ha)
    content := by
      have hcont := h.content
      simpa [State.inHand, hp, State.popped, State.ret] using hcont
    elements := h.elements
    producer := fun q f m d hd => by
      obtain ⟨h1, h2, h3, h4, h5⟩ := h.producer q f m d hd
      exact ⟨h1, h2, h3, fun a ha => (hplace a (hpush q a (h4 a ha))).trans (h4 a ha),
        fun x y hxy => (Function.update_of_ne (hpush q x (h4 x hxy.mem.1)) _ _).trans (h5 x y hxy)⟩
    cleared := fun q f m d hd => by
      obtain ⟨-, h2, -, h4, -⟩ := h.producer q f m d (.inr hd)
      exact (Function.update_of_ne (hpush q m (h4 m (List.mem_of_getLast? h2))) _ _).trans
        (h.cleared q f m d hd)
    consumer := ⟨hi, hstub⟩ }

/-! ## Steps of `push` and `insert` -/

variable [DecidableEq P]

/-- A producer calls `push`. -/
theorem inv_push (h : Inv stub s Q) {p : P} {c : List Word} (hs : push p c s = some s') :
    Inv stub s' Q := by
  unfold push at hs
  cases hf : c.head? with
  | none => simp [hf] at hs
  | some first =>
    cases hl : c.getLast? with
    | none => simp [hf, hl] at hs
    | some last =>
      simp only [hf, hl] at hs
      split_ifs at hs with hg
      cases hs
      obtain ⟨hidle, hnd, hfree, hchain⟩ := hg
      simp only [List.all_eq_true, decide_eq_true_eq] at hfree
      have hold : ∀ a, s.place a ≠ .free → a ∉ c := fun a ha hc => ha (hfree a hc).2
      have hplace : ∀ a pl, s.place a = pl → pl ≠ .free →
          (if a ∈ c then Place.pushing p else s.place a) = pl := fun a pl ha hpl => by
        rw [if_neg (hold a (ha ▸ hpl)), ha]
      have hmem : ∀ a pl, (if a ∈ c then Place.pushing p else s.place a) = pl →
          pl ≠ .pushing p → s.place a = pl := fun a pl ha hpl => by
        by_cases hc : a ∈ c
        · rw [if_pos hc] at ha; exact absurd ha.symm hpl
        · rwa [if_neg hc] at ha
      have hpend : (State.pend (P := P) { s with
          ins := Function.update s.ins (some p) (.clear first last c)
          place := fun a => if a ∈ c then .pushing p else s.place a }) = s.pend :=
        pend_update_same s (some p) (.clear first last c) (fun _ _ _ => nofun)
          (by simp [State.pend, hidle]) _ rfl
      exact {
        chain := by rw [hpend]; exact h.chain
        head := h.head
        tail := h.tail
        marked := h.marked
        queued := fun a => by
          rw [← h.queued a]
          exact ⟨fun ha => hmem a _ ha nofun, fun ha => hplace a _ ha nofun⟩
        isStub := fun a => by
          rw [← h.isStub a]
          exact ⟨fun ha => hmem a _ ha nofun, fun ha => hplace a _ ha nofun⟩
        addr := fun a ha => by
          by_cases hc : a ∈ c
          · exact (hfree a hc).1
          · exact h.addr a (by simpa [hc] using ha)
        content := h.content
        elements := h.elements
        producer := fun q f l d hd => by
          by_cases hq : q = p
          · subst hq
            have : (first, last, c) = (f, l, d) := by
              rcases hd with hd | hd <;> simp at hd ⊢
              exact hd
            cases this
            exact ⟨hf, hl, hnd, fun a ha => if_pos ha, Adjacent.isChain_iff.mp hchain⟩
          · have hd' : s.bringing (some q) f l d := by
              simpa [State.bringing, Function.update_of_ne (show some q ≠ some p by simpa)] using hd
            obtain ⟨h1, h2, h3, h4, h5⟩ := h.producer q f l d hd'
            exact ⟨h1, h2, h3, fun a ha => hplace a _ (h4 a ha) nofun, h5⟩
        cleared := fun q f l d hd => by
          by_cases hq : q = p
          · subst hq; simp at hd
          · exact h.cleared q f l d (by
              simpa [Function.update_of_ne (show some q ≠ some p by simpa)] using hd)
        consumer := h.consumer.mono h.head_mem rfl (by simp) rfl Iff.rfl
          (fun _ _ hn => hn) (fun _ => rfl) fun a ha => hplace a _ ha nofun }

/-- `last.next = nullptr` in a producer. -/
theorem inv_clear (h : Inv stub s Q) {p : P} {first last : Word} {c : List Word}
    (hi : s.ins (some p) = .clear first last c) :
    Inv stub { s with
      next := Function.update s.next last 0#64
      ins := Function.update s.ins (some p) (.exchange first last c) } Q := by
  obtain ⟨hf, hl, hnd, hplace, hadj⟩ := h.producer p first last c (.inl hi)
  have hlast := hplace last (List.mem_of_getLast? hl)
  obtain ⟨hlQ, hls⟩ := h.not_mem hlast nofun nofun
  have hne : ∀ b ∈ Q, Function.update s.next last 0#64 b = s.next b := fun b hb =>
    Function.update_of_ne (ne_of_mem_of_not_mem hb hlQ) _ _
  have hother : ∀ q b, q ≠ p → s.place b = .pushing q →
      Function.update s.next last 0#64 b = s.next b := fun q b hq hb =>
    Function.update_of_ne (fun e => hq (by rw [e, hlast] at hb; cases hb; rfl)) _ _
  have hpend : (State.pend (P := P) { s with
      next := Function.update s.next last 0#64
      ins := Function.update s.ins (some p) (.exchange first last c) }) = s.pend :=
    pend_update_same s (some p) (.exchange first last c) (fun _ _ _ => nofun)
      (pend_eq_none (.inl hi)) _ rfl
  exact { h with
    chain := by rw [hpend]; exact h.chain.frame hne
    producer := fun q f l d hd => by
      by_cases hq : q = p
      · subst hq
        have : (first, last, c) = (f, l, d) := by
          rcases hd with hd | hd <;> simp at hd ⊢
          exact hd
        cases this
        refine ⟨hf, hl, hnd, hplace, fun x y hxy => ?_⟩
        have hx : x ≠ last := fun e => hxy.ne_last hnd (e ▸ hl)
        exact (Function.update_of_ne hx _ _).trans (hadj x y hxy)
      · have hd' : s.bringing (some q) f l d := by
          simpa [State.bringing, Function.update_of_ne (show some q ≠ some p by simpa)] using hd
        obtain ⟨h1, h2, h3, h4, h5⟩ := h.producer q f l d hd'
        exact ⟨h1, h2, h3, h4, fun x y hxy => (hother q x hq (h4 x hxy.mem.1)).trans (h5 x y hxy)⟩
    cleared := fun q f l d hd => by
      by_cases hq : q = p
      · subst hq
        obtain ⟨-, rfl, -⟩ : first = f ∧ last = l ∧ c = d := by simpa using hd
        exact Function.update_self ..
      · have hd' : s.ins (some q) = .exchange f l d := by
          simpa [Function.update_of_ne (show some q ≠ some p by simpa)] using hd
        obtain ⟨-, h2, -, h4, -⟩ := h.producer q f l d (.inr hd')
        exact (hother q l hq (h4 l (List.mem_of_getLast? h2))).trans (h.cleared q f l d hd')
    consumer := h.consumer.mono h.head_mem rfl (by simp) rfl Iff.rfl
      (fun b hb hn => (hne b hb).trans_ne hn) (fun _ => Function.update_of_ne hls.symm _ _)
      fun _ hb => hb }

/-- `tail.exchange(&last)` in a producer: its chain is now the end of the queue. -/
theorem inv_exchange (h : Inv stub s Q) {p : P} {first last : Word} {c : List Word}
    (hi : s.ins (some p) = .exchange first last c) :
    Inv stub { s with
      tail := last
      ins := Function.update s.ins (some p) (.link s.tail.unmark first s.tail.marked)
      place := fun a => if a ∈ c then .queued else s.place a
      pushed := s.pushed ++ c } (Q ++ c) := by
  obtain ⟨hf, hl, hnd, hplace, hadj⟩ := h.producer p first last c (.inr hi)
  have hout : ∀ a ∈ c, a ∉ Q ∧ a ≠ stub := fun a ha => h.not_mem (hplace a ha) nofun nofun
  have haddr : ∀ a ∈ c, a.IsAddr := fun a ha => h.addr a (by rw [hplace a ha]; exact nofun)
  have hlastc := List.mem_of_getLast? hl
  have hcne : c ≠ [] := List.ne_nil_of_mem hlastc
  have hnotc : ∀ a, s.place a ≠ .pushing p → a ∉ c := fun a ha hc => ha (hplace a hc)
  have hpend := pend_update_link s (some p) s.tail.unmark first s.tail.marked { s with
      tail := last
      ins := Function.update s.ins (some p) (.link s.tail.unmark first s.tail.marked)
      place := fun a => if a ∈ c then .queued else s.place a
      pushed := s.pushed ++ c } rfl
  exact {
    chain := by
      rw [hpend]
      refine h.chain.exchange h.tail hf (pend_eq_none (.inr hi)) hnd (fun a ha => (hout a ha).1)
        (fun a ha => (haddr a ha).ne_zero) hadj fun a ha => ?_
      obtain rfl : last = a := by rw [hl] at ha; cases ha; rfl
      exact h.cleared p first last c hi
    head := by rw [List.head?_append_of_ne_nil _ (List.ne_nil_of_mem h.head_mem)]; exact h.head
    tail := by
      rw [List.getLast?_append_of_ne_nil _ hcne, hl, Word.unmark_of_even (haddr last hlastc).even]
    marked := fun hm => by rw [(haddr last hlastc).even] at hm; cases hm
    queued := fun a => by
      by_cases hc : a ∈ c
      · simp [hc, (hout a hc).2]
      · simpa [hc] using h.queued a
    isStub := fun a => by
      by_cases hc : a ∈ c
      · simp [hc, (hout a hc).2]
      · simpa [hc] using h.isStub a
    addr := fun a ha => by
      by_cases hc : a ∈ c
      · exact haddr a hc
      · exact h.addr a (by simpa [hc] using ha)
    content := by
      have hfil : c.filter (· ≠ stub) = c :=
        List.filter_eq_self.mpr fun a ha => by simpa using (hout a ha).2
      rw [List.filter_append, hfil, ← List.append_assoc]
      exact congrArg (· ++ c) h.content
    elements := fun a ha =>
      (List.mem_append.mp ha).elim (h.elements a) fun hc => ⟨haddr a hc, (hout a hc).2⟩
    producer := fun q f l d hd => by
      by_cases hq : q = p
      · subst hq; rcases hd with hd | hd <;> simp at hd
      · have hd' : s.bringing (some q) f l d := by
          simpa [State.bringing, Function.update_of_ne (show some q ≠ some p by simpa)] using hd
        obtain ⟨h1, h2, h3, h4, h5⟩ := h.producer q f l d hd'
        refine ⟨h1, h2, h3, fun a ha => ?_, h5⟩
        have hne : s.place a ≠ .pushing p := by
          rw [h4 a ha]
          exact fun e => hq (by cases e; rfl)
        exact (if_neg (hnotc a hne)).trans (h4 a ha)
    cleared := fun q f l d hd => by
      by_cases hq : q = p
      · subst hq; simp at hd
      · exact h.cleared q f l d (by
          simpa [Function.update_of_ne (show some q ≠ some p by simpa)] using hd)
    consumer := h.consumer.mono h.head_mem rfl (by simp) rfl
      ⟨fun hm => (List.mem_append.mp hm).resolve_right fun hc => (hout stub hc).2 rfl,
        fun hm => List.mem_append_left c hm⟩
      (fun _ _ hn => hn) (fun _ => rfl) fun a ha => by
        rw [← ha]
        exact if_neg (hnotc a (by rw [ha]; exact nofun)) }

/-- `prev->next = &first`, in a producer or in the consumer. -/
theorem inv_link (h : Inv stub s Q) {t : Option P} {prev first : Word} {w : Bool}
    (hi : s.ins t = .link prev first w) :
    Inv stub { s with
      next := Function.update s.next prev first
      ins := Function.update s.ins t .idle } Q := by
  have ht : s.pend t = some (prev, first) := by simp [State.pend, hi]
  obtain ⟨hprev, hfirst⟩ := (h.chain.promised t prev first ht).mem
  have hout : ∀ q a, s.place a = .pushing q →
      Function.update s.next prev first a = s.next a := fun q a ha =>
    Function.update_of_ne (ne_of_mem_of_not_mem hprev (h.not_mem ha nofun nofun).1).symm _ _
  have hback : ∀ q f l d, State.bringing { s with
      next := Function.update s.next prev first
      ins := Function.update s.ins t .idle } (some q) f l d → s.bringing (some q) f l d := by
    intro q f l d hd
    by_cases hq : some q = t
    · subst hq; rcases hd with hd | hd <;> simp at hd
    · simpa [State.bringing, Function.update_of_ne hq] using hd
  exact { h with
    chain := by
      rw [pend_update_idle s t .idle (fun _ _ _ => nofun) _ rfl]
      exact h.chain.link ht
    producer := fun q f l d hd => by
      obtain ⟨h1, h2, h3, h4, h5⟩ := h.producer q f l d (hback q f l d hd)
      exact ⟨h1, h2, h3, h4, fun x y hxy => (hout q x (h4 x hxy.mem.1)).trans (h5 x y hxy)⟩
    cleared := fun q f l d hd => by
      have hd' : s.ins (some q) = .exchange f l d := by
        by_cases hq : some q = t
        · subst hq; simp at hd
        · simpa [Function.update_of_ne hq] using hd
      obtain ⟨-, h2, -, h4, -⟩ := h.producer q f l d (.inr hd')
      exact (hout q l (h4 l (List.mem_of_getLast? h2))).trans (h.cleared q f l d hd')
    consumer := by
      cases t with
      | some p =>
        refine h.consumer.mono h.head_mem rfl (by simp) rfl Iff.rfl (fun b hb hn => ?_)
          (fun hs => Function.update_of_ne (ne_of_mem_of_not_mem hprev hs).symm _ _) fun _ ha => ha
        by_cases hbp : b = prev
        · exact (congrArg _ hbp).trans_ne (by simpa using h.chain.ne_null first hfirst)
        · exact (Function.update_of_ne hbp _ _).trans_ne hn
      | none =>
        -- The consumer links only the stub it re-inserts.
        have hp := h.consumer.reinsert (by rw [hi]; exact nofun)
        have hc := h.consumer
        simp only [ConsumerInv, hp, hi] at hc
        simpa [ConsumerInv, hp] using hc }

/-- `stub.next = nullptr`, before the stub is exchanged back. -/
theorem inv_stub_clear (h : Inv stub s Q) {first last : Word} {c : List Word}
    (hi : s.ins none = .clear first last c) :
    Inv stub { s with
      next := Function.update s.next last 0#64
      ins := Function.update s.ins none (.exchange first last c) } Q := by
  have hp := h.consumer.reinsert (by rw [hi]; exact nofun)
  have hc := h.consumer
  simp only [ConsumerInv, hp, hi] at hc
  obtain ⟨rfl, rfl, rfl, hQ⟩ := hc
  have hout : ∀ q a, s.place a = .pushing q →
      Function.update s.next last 0#64 a = s.next a := fun q a ha =>
    Function.update_of_ne (h.not_mem ha nofun nofun).2 _ _
  have hpend := pend_update_same s none (.exchange last last [last]) (fun _ _ _ => nofun)
    (pend_eq_none (.inl hi)) { s with
      next := Function.update s.next last 0#64
      ins := Function.update s.ins none (.exchange last last [last]) } rfl
  exact { h with
    chain := by
      rw [hpend]
      exact h.chain.frame fun a ha => Function.update_of_ne (ne_of_mem_of_not_mem ha hQ) _ _
    producer := fun q f l d hd => by
      obtain ⟨h1, h2, h3, h4, h5⟩ := h.producer q f l d (by simpa [State.bringing] using hd)
      exact ⟨h1, h2, h3, h4, fun x y hxy => (hout q x (h4 x hxy.mem.1)).trans (h5 x y hxy)⟩
    cleared := fun q f l d hd => by
      have hd' : s.ins (some q) = .exchange f l d := by simpa using hd
      obtain ⟨-, h2, -, h4, -⟩ := h.producer q f l d (.inr hd')
      exact (hout q l (h4 l (List.mem_of_getLast? h2))).trans (h.cleared q f l d hd')
    consumer := by simp [ConsumerInv, hp, hQ] }

/-- `tail.exchange(&stub)`: the stub is back, at the end of the queue. -/
theorem inv_stub_exchange (h : Inv stub s Q) {first last : Word} {c : List Word}
    (hi : s.ins none = .exchange first last c) :
    Inv stub { s with
      tail := last
      ins := Function.update s.ins none (.link s.tail.unmark first s.tail.marked) }
      (Q ++ [stub]) := by
  have hp := h.consumer.reinsert (by rw [hi]; exact nofun)
  have hc := h.consumer
  simp only [ConsumerInv, hp, hi] at hc
  obtain ⟨rfl, rfl, rfl, hQ, hn⟩ := hc
  have hhead : s.head ≠ last := ne_of_mem_of_not_mem h.head_mem hQ
  have hpend := pend_update_link s none s.tail.unmark last s.tail.marked { s with
      tail := last
      ins := Function.update s.ins none (.link s.tail.unmark last s.tail.marked) } rfl
  exact { h with
    chain := by
      rw [hpend]
      refine h.chain.exchange h.tail rfl (pend_eq_none (.inr hi)) (List.nodup_singleton _)
        (by simpa using hQ) (by simpa using h.stub_addr.ne_zero)
        (fun x y hxy => absurd hxy (Adjacent.singleton _ x y)) fun a ha => ?_
      obtain rfl : last = a := by simpa using ha
      exact hn
    head := by rw [List.head?_append_of_ne_nil _ (List.ne_nil_of_mem h.head_mem)]; exact h.head
    tail := by
      rw [List.getLast?_append_of_ne_nil _ (by simp), Word.unmark_of_even h.stub_addr.even]
      rfl
    marked := fun hm => by rw [h.stub_addr.even] at hm; cases hm
    queued := fun a => by
      rw [h.queued a]
      simp only [List.mem_append, List.mem_singleton]
      exact ⟨fun ha => ⟨.inl ha.1, ha.2⟩, fun ha => ⟨ha.1.resolve_right ha.2, ha.2⟩⟩
    content := by
      have hcont := h.content
      rw [List.filter_append, List.filter_cons_of_neg (by simp), List.filter_nil, List.append_nil]
      exact hcont
    producer := fun q f l d hd => h.producer q f l d (by simpa [State.bringing] using hd)
    cleared := fun q f l d hd => h.cleared q f l d (by simpa using hd)
    consumer := by simp [ConsumerInv, hp, hhead] }

/-- `head = stub.next`: the stub is off the queue. -/
theorem inv_take_stub (h : Inv stub s Q) (hp : s.pop = .takeStub) :
    ∃ Q', Inv stub { s with
      head := s.next stub
      ins := Function.update s.ins none (.clear stub stub [stub])
      pop := .reinsert } Q' := by
  have hc := h.consumer
  simp only [ConsumerInv, hp] at hc
  obtain ⟨hi, -, hh, hn⟩ := hc
  obtain ⟨R, rfl, hR⟩ := h.chain.advance (hh ▸ h.head) hn
  have hnd := List.nodup_cons.mp h.chain.nodup
  have hpend := pend_update_same s none (.clear stub stub [stub]) (fun _ _ _ => nofun)
    (by simp [State.pend, hi]) { s with
      head := s.next stub
      ins := Function.update s.ins none (.clear stub stub [stub])
      pop := .reinsert } rfl
  refine ⟨s.next stub :: R, { h with
    chain := by rw [hpend]; exact hR
    head := rfl
    tail := by rw [← h.tail, List.getLast?_cons_cons]
    marked := fun hm => absurd (h.marked hm) (by simp)
    queued := fun a => ?_
    content := ?_
    producer := fun q f l d hd => h.producer q f l d (by simpa [State.bringing] using hd)
    cleared := fun q f l d hd => h.cleared q f l d (by simpa using hd)
    consumer := by simpa [ConsumerInv] using hnd.1 }⟩
  · rw [h.queued a, List.mem_cons]
    exact ⟨fun ha => ⟨ha.1.resolve_left ha.2, ha.2⟩, fun ha => ⟨.inr ha.1, ha.2⟩⟩
  · have hcont := h.content
    rw [List.filter_cons_of_neg (by simp)] at hcont
    simpa [State.inHand, hp, State.popped] using hcont

/-! ## Every step -/

theorem inv_insert (h : Inv stub s Q) {t : Option P} (hs : insert t s = some s') :
    ∃ Q', Inv stub s' Q' := by
  unfold insert at hs
  cases hi : s.ins t with
  | idle => simp [hi] at hs
  | clear first last c =>
    simp only [hi] at hs
    cases hs
    cases t with
    | some p => exact ⟨Q, inv_clear h hi⟩
    | none => exact ⟨Q, inv_stub_clear h hi⟩
  | exchange first last c =>
    simp only [hi] at hs
    cases hs
    cases t with
    | some p => exact ⟨Q ++ c, inv_exchange h hi⟩
    | none => exact ⟨Q ++ [stub], inv_stub_exchange h hi⟩
  | link prev first w =>
    simp only [hi] at hs
    cases hs
    exact ⟨Q, inv_link h hi⟩

theorem inv_popStep (h : Inv stub s Q) (hs : popStep stub s = some s') :
    ∃ Q', Inv stub s' Q' := by
  have hc := h.consumer
  unfold popStep at hs
  unfold ConsumerInv at hc
  cases hp : s.pop with
  | idle =>
    simp only [hp] at hs hc
    cases hs
    exact ⟨Q, inv_move h _ (by simp [State.inHand, hp]) hc⟩
  | readHead =>
    simp only [hp] at hs hc
    cases hs
    refine ⟨Q, inv_move h _ ?_ ?_⟩ <;> by_cases hh : s.head = stub
    · simp [State.inHand, hp, hh]
    · simp [State.inHand, hp, hh]
    · simpa [ConsumerInv, hh] using hc
    · simpa [ConsumerInv, hh] using hc
  | readTail =>
    simp only [hp] at hs hc
    by_cases hm : s.tail.marked
    · simp only [hm, if_true] at hs
      cases hs
      exact ⟨Q, inv_ret_none h (by simp [State.inHand, hp]) hc.1 hc.2.1⟩
    · simp only [hm] at hs
      cases hs
      exact ⟨Q, inv_move h _ (by simp [State.inHand, hp]) hc⟩
  | cas =>
    simp only [hp] at hs hc
    by_cases ht : s.tail = stub
    · rw [if_pos ht] at hs
      cases hs
      exact ⟨Q, inv_mark h hp ht⟩
    · rw [if_neg ht] at hs
      cases hs
      exact ⟨Q, inv_move h _ (by simp [State.inHand, hp]) hc⟩
  | waitStub =>
    simp only [hp] at hs hc
    cases hs
    refine ⟨Q, inv_move h _ ?_ ?_⟩ <;> by_cases hn : s.next stub = 0#64
    · simp [State.inHand, hp, hn]
    · simp [State.inHand, hp, hn]
    · simpa [ConsumerInv, hn] using hc
    · simpa [ConsumerInv, hn] using hc
  | takeStub =>
    simp only [hp] at hs
    cases hs
    exact inv_take_stub h hp
  | reinsert =>
    simp only [hp] at hs hc
    split_ifs at hs with hi
    cases hs
    simp only [hi] at hc
    exact ⟨Q, inv_move h _ (by simp [State.inHand, hp]) ⟨hi, hc⟩⟩
  | waitHead =>
    simp only [hp] at hs hc
    cases hs
    refine ⟨Q, inv_move h _ ?_ ?_⟩ <;> by_cases hn : s.next s.head = 0#64
    · simp [State.inHand, hp, hn]
    · simp [State.inHand, hp, hn]
    · simpa [ConsumerInv, hn] using hc
    · simpa [ConsumerInv, hn] using hc
  | advance =>
    simp only [hp] at hs
    cases hs
    exact inv_advance h hp
  | clear l =>
    simp only [hp] at hs
    cases hs
    exact ⟨Q, inv_ret_some h hp⟩

theorem inv_step (h : Inv stub s Q) {a : Action P} (hs : step stub s a = some s') :
    ∃ Q', Inv stub s' Q' := by
  cases a with
  | write a v =>
    simp only [step] at hs
    split_ifs at hs with ha
    cases hs
    exact ⟨Q, inv_write h ha⟩
  | push p c => exact ⟨Q, inv_push h hs⟩
  | insert t => exact inv_insert h hs
  | pop => exact inv_popStep h hs

theorem inv_reachable {stub : Word.Addr} (h : (machine P stub).Reachable s) :
    ∃ Q, Inv stub s Q :=
  h.invariant (I := fun s => ∃ Q, Inv stub s Q)
    (fun _ h0 => ⟨[stub.1], h0 ▸ inv_initial stub.2⟩) fun _ _ _ ⟨_, hI⟩ hs => inv_step hI hs

/-! ## What `pop` returns -/

/-- The two places where `pop` returns `nullptr`: it reads a marked tail, or its CAS succeeds. -/
def ReturnsNull (stub : Word) (s : State P) : Prop :=
  (s.pop = .readTail ∧ s.tail.marked = true) ∨ (s.pop = .cas ∧ s.tail = stub)

/-- The elements exchanged in and not yet returned. -/
def State.contents (s : State P) : List Word := s.pushed.drop s.popped.length

theorem insert_effect {t : Option P} (hs : insert t s = some s') :
    ∃ c, s'.pushed = s.pushed ++ c ∧ s'.results = s.results := by
  unfold insert at hs
  cases hi : s.ins t with
  | idle => simp [hi] at hs
  | exchange first last c =>
    simp only [hi] at hs
    cases hs
    cases t with
    | some p => exact ⟨c, rfl, rfl⟩
    | none => exact ⟨[], (List.append_nil _).symm, rfl⟩
  | _ =>
    simp only [hi] at hs
    cases hs
    exact ⟨[], (List.append_nil _).symm, rfl⟩

theorem push_effect {p : P} {c : List Word} (hs : push p c s = some s') :
    s'.pushed = s.pushed ∧ s'.results = s.results := by
  unfold push at hs
  split at hs
  · split_ifs at hs
    cases hs
    exact ⟨rfl, rfl⟩
  · cases hs

/-- What a step of `pop` does: it returns the element in hand, it returns `nullptr`, or it returns
nothing yet. -/
theorem popStep_effect (hs : popStep stub s = some s') :
    s'.pushed = s.pushed ∧
      (s'.results = s.results ∨ (∃ l, s.pop = .clear l ∧ s'.results = s.results ++ [some l]) ∨
        (ReturnsNull stub s ∧ s'.results = s.results ++ [none])) := by
  unfold popStep at hs
  cases hp : s.pop with
  | readTail =>
    simp only [hp] at hs
    by_cases hm : s.tail.marked
    · simp only [hm, if_true] at hs
      cases hs
      exact ⟨rfl, .inr (.inr ⟨.inl ⟨hp, hm⟩, rfl⟩)⟩
    · simp only [hm] at hs
      cases hs
      exact ⟨rfl, .inl rfl⟩
  | cas =>
    simp only [hp] at hs
    by_cases ht : s.tail = stub
    · rw [if_pos ht] at hs
      cases hs
      exact ⟨rfl, .inr (.inr ⟨.inr ⟨hp, ht⟩, rfl⟩)⟩
    · rw [if_neg ht] at hs
      cases hs
      exact ⟨rfl, .inl rfl⟩
  | clear l =>
    simp only [hp] at hs
    cases hs
    exact ⟨rfl, .inr (.inl ⟨l, rfl, rfl⟩)⟩
  | reinsert =>
    simp only [hp] at hs
    split_ifs at hs
    cases hs
    exact ⟨rfl, .inl rfl⟩
  | _ =>
    simp only [hp] at hs
    cases hs
    exact ⟨rfl, .inl rfl⟩

/-- What a step does to the elements pushed and to the results. -/
theorem step_effect {a : Action P} (hs : step stub s a = some s') :
    (∃ c, s'.pushed = s.pushed ++ c ∧ s'.results = s.results) ∨
      (∃ l, s.pop = .clear l ∧ s'.pushed = s.pushed ∧ s'.results = s.results ++ [some l]) ∨
      (ReturnsNull stub s ∧ s'.pushed = s.pushed ∧ s'.results = s.results ++ [none]) := by
  have hnone : s'.pushed = s.pushed → s'.results = s.results →
      ∃ c, s'.pushed = s.pushed ++ c ∧ s'.results = s.results :=
    fun hp hr => ⟨[], by rw [hp, List.append_nil], hr⟩
  cases a with
  | write a v =>
    simp only [step] at hs
    split_ifs at hs
    cases hs
    exact .inl (hnone rfl rfl)
  | push p c => exact .inl (hnone (push_effect hs).1 (push_effect hs).2)
  | insert t => exact .inl (insert_effect hs)
  | pop =>
    obtain ⟨hp, hr | ⟨l, hl, hr⟩ | ⟨hn, hr⟩⟩ := popStep_effect hs
    · exact .inl (hnone hp hr)
    · exact .inr (.inl ⟨l, hl, hp, hr⟩)
    · exact .inr (.inr ⟨hn, hp, hr⟩)

omit [DecidableEq P] in
/-- With the queue down to the stub and nothing in hand, all elements have been popped. -/
theorem Inv.popped_eq (h : Inv stub s [stub]) (hx : s.inHand = []) : s.popped = s.pushed := by
  have hcont := h.content
  rw [hx, List.filter_cons_of_neg (by simp)] at hcont
  simpa using hcont

omit [DecidableEq P] in
/-- Where `pop` returns `nullptr`, every element exchanged in has been popped. -/
theorem Inv.empty_of_null (h : Inv stub s Q) (hn : ReturnsNull stub s) : s.popped = s.pushed := by
  have hc := h.consumer
  have hQ : Q = [stub] ∧ s.inHand = [] := by
    rcases hn with ⟨hp, hm⟩ | ⟨hp, ht⟩
    · exact ⟨h.marked hm, by simp [State.inHand, hp]⟩
    · simp only [ConsumerInv, hp] at hc
      exact ⟨h.eq_single hc.2.2 (by rw [ht, Word.unmark_of_even h.stub_addr.even]),
        by simp [State.inHand, hp]⟩
  obtain ⟨rfl, hx⟩ := hQ
  exact h.popped_eq hx

omit [DecidableEq P] in
theorem Inv.contents_eq (h : Inv stub s Q) : s.contents = s.inHand ++ Q.filter (· ≠ stub) := by
  rw [State.contents, ← h.content, List.append_assoc, List.drop_left]

end Steps

/-- The queue as its specification sees it. -/
def State.fifo (s : State P) : Fifo.State Word := ⟨s.contents, s.results⟩

/-- **Every run of the queue is a run of the plain FIFO list**: an exchange enqueues its whole
chain, the return of an element dequeues it, the return of `nullptr` reports an empty queue. -/
theorem refines_fifo [DecidableEq P] (stub : Word.Addr) {s : State P}
    (h : (machine P stub).Reachable s) : (Fifo.machine Word).Reachable s.fifo := by
  refine h.map State.fifo (fun s h0 => h0 ▸ rfl) fun s a s' hr hs => .inr ?_
  obtain ⟨Q, hI⟩ := inv_reachable hr
  have hpre : s.popped.length ≤ s.pushed.length := by
    rw [← hI.content, List.append_assoc, List.length_append]
    exact Nat.le_add_right _ _
  rcases step_effect hs with ⟨c, hp, hres⟩ | ⟨l, hl, hp, hres⟩ | ⟨hn, hp, hres⟩
  · have hc : s'.contents = s.contents ++ c := by
      have hsame : s'.popped = s.popped := by rw [State.popped, hres, State.popped]
      rw [State.contents, hsame, hp, List.drop_append_of_le_length hpre, State.contents]
    exact ⟨.enqueue c, by simp [Fifo.machine, Fifo.step, State.fifo, hc, hres]⟩
  · have hc : s.contents = l :: s'.contents := by
      have hhand : s.contents = l :: Q.filter (· ≠ stub) := by
        rw [hI.contents_eq, State.inHand, hl]
        rfl
      have hlen : s'.popped.length = s.popped.length + 1 := by simp [State.popped, hres]
      have htail : s'.contents = s.contents.tail := by
        rw [State.contents, hlen, hp, State.contents, List.tail_drop]
      rw [htail, hhand, List.tail_cons]
    exact ⟨.dequeue, by simp [Fifo.machine, Fifo.step, State.fifo, hc, hres]⟩
  · have hall := hI.empty_of_null hn
    have hc : s.contents = [] := by rw [State.contents, hall, List.drop_length]
    have hc' : s'.contents = [] := by
      have hlen : s'.popped = s.popped := by simp [State.popped, hres]
      rw [State.contents, hlen, hp]
      exact hc
    exact ⟨.empty, by simp [Fifo.machine, Fifo.step, State.fifo, hc, hc', hres]⟩

/-- **The queue is a FIFO.** In every reachable state the elements `pop` has returned are a prefix
of the elements pushed, in the order of the producers' exchanges; the stub is never returned; and
`pop` returns `nullptr` only where it reads a marked tail or its CAS succeeds, and only when every
element exchanged in has been popped. -/
theorem pops_are_fifo [DecidableEq P] (stub : Word.Addr) {s : State P}
    (h : (machine P stub).Reachable s) :
    s.popped <+: s.pushed ∧ stub.1 ∉ s.popped ∧
      ∀ a s', (machine P stub).step s a = some s' → s'.results = s.results ++ [none] →
        ReturnsNull stub s ∧ s.popped = s.pushed := by
  obtain ⟨Q, hI⟩ := inv_reachable h
  have hpre : s.popped <+: s.pushed := by
    rw [← hI.content, List.append_assoc]
    exact List.prefix_append _ _
  refine ⟨hpre, fun hm => (hI.elements _ (hpre.subset hm)).2 rfl, fun a s' hs hr => ?_⟩
  rcases step_effect hs with ⟨c, -, hsame⟩ | ⟨l, -, -, hl⟩ | ⟨hn, -⟩
  · rw [hsame] at hr; simp at hr
  · rw [hl] at hr; simp at hr
  · exact ⟨hn, hI.empty_of_null hn⟩

/-- Producer `0` pushes a chain of two, producer `1` a single element; `1` exchanges first, `0`
links first; the consumer pops twice. -/
def twoProducers : List (Action ℕ) :=
  List.flatten [[.write 32 48, .push 0 [32, 48], .push 1 [64], .insert (some 0), .insert (some 1),
      .insert (some 1), .insert (some 0), .insert (some 0), .insert (some 1)],
    List.replicate 6 .pop, List.replicate 3 (.insert none), List.replicate 9 .pop]

theorem pops_are_fifo_twoProducers :
    ∃ s, (machine ℕ ⟨16, by decide⟩).Reachable s ∧ s.pushed = [64, 32, 48] ∧
      s.popped = [64, 32] ∧ s.popped <+: s.pushed := by
  have hinit : (machine ℕ ⟨16, by decide⟩).Reachable (initial 16) := .of_init rfl
  have hr := hinit.get twoProducers (by decide +kernel)
  exact ⟨_, hr, by decide +kernel, by decide +kernel, (pops_are_fifo _ hr).1⟩

end UThreads.BlockingMPSCQueue
