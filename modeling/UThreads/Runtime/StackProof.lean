import UThreads.Runtime.Stack

/-!
# `Stack.S`: context switching restores contexts

**The code.** `exec_push` and `exec_pop` say what pushing and popping a list of registers does;
`REGRESTORE` pops in the reverse order of `REGSAVE`. From them come `stackSwitch_spec`,
`stackInit_spec` and `stackStub_spec`.

**The system.** `Inv` says that the stack of every context that does not run has what is saved of it
(`Stored`), and that a processor in the post-switch function has the registers of the context it is
about to enter (`Entered`). A step changes the words of at most two contexts, so the others are kept
(`Inv.change`).

Main result: `contexts_restored`.
-/

namespace UThreads.Stack

/-! ## The code -/

section Code

variable {stub : Word} {c : Core} {rs : List Reg} {vs : List Word}

theorem exec_append (a b : List Instr) : exec stub (a ++ b) c = exec stub b (exec stub a c) :=
  List.foldl_append

theorem exec_cons (i : Instr) (code : List Instr) :
    exec stub (i :: code) c = exec stub code (i.exec stub c) :=
  rfl

/-- What a push does; `v` is the word that is pushed. -/
structure Pushed (c : Core) (v : Word) (c' : Core) : Prop where
  rip : c'.rip = c.rip
  reg : ∀ r, r ≠ .rsp → c'.reg r = c.reg r
  rsp : (c'.reg .rsp).toNat + 8 = (c.reg .rsp).toNat
  top : c'.mem (c'.reg .rsp) = v
  mem : ∀ a, a ≠ c'.reg .rsp → c'.mem a = c.mem a

theorem pushed_push (r : Reg) (h : 8 ≤ (c.reg .rsp).toNat) :
    Pushed c (c.reg r) (Instr.exec stub (.push r) c) where
  rip := rfl
  reg q hq := by simp [Instr.exec, hq]
  rsp := by simpa [Instr.exec] using Word.toNat_sub_ofNat 8 (by decide) h
  top := by simp [Instr.exec]
  mem a ha := by
    simp only [Instr.exec, Function.update_self] at ha ⊢
    exact Function.update_of_ne ha ..

theorem pushed_call (ret : Word) (h : 8 ≤ (c.reg .rsp).toNat) : Pushed c ret (c.call ret) where
  rip := rfl
  reg q hq := by simp [Core.call, hq]
  rsp := by simpa [Core.call] using Word.toNat_sub_ofNat 8 (by decide) h
  top := by simp [Core.call]
  mem a ha := by
    simp only [Core.call, Function.update_self] at ha ⊢
    exact Function.update_of_ne ha ..

/-- What any number of pushes does; `vs` are the words that stand in memory then, from `rsp` up. -/
structure PushedAll (c : Core) (vs : List Word) (c' : Core) : Prop where
  rip : c'.rip = c.rip
  reg : ∀ r, r ≠ .rsp → c'.reg r = c.reg r
  rsp : (c'.reg .rsp).toNat + 8 * vs.length = (c.reg .rsp).toNat
  frame : Frame c'.mem (c'.reg .rsp) vs
  mem : ∀ a, ¬Within (c'.reg .rsp) (c.reg .rsp) a → c'.mem a = c.mem a

theorem PushedAll.cons {c₁ c₂ : Core} {v : Word} (h : Pushed c v c₁) (hs : PushedAll c₁ vs c₂) :
    PushedAll c (vs ++ [v]) c₂ := by
  have hrsp := h.rsp
  have hrsps := hs.rsp
  have haddr : c₂.reg .rsp + BitVec.ofNat 64 (8 * vs.length) = c₁.reg .rsp := by
    apply BitVec.eq_of_toNat_eq
    rw [BitVec.toNat_add, BitVec.toNat_ofNat]
    omega
  refine ⟨hs.rip.trans h.rip, fun r hr => (hs.reg r hr).trans (h.reg r hr), ?_, ?_, fun a ha => ?_⟩
  · rw [List.length_append, List.length_singleton]
    omega
  · refine Frame.append.mpr ⟨hs.frame, ?_, trivial⟩
    rw [haddr, hs.mem _ fun hw => by have := hw.2; omega]
    exact h.top
  · rw [hs.mem a fun hw => ha ⟨hw.1, by have := hw.2; omega⟩]
    apply h.mem
    rintro rfl
    exact ha ⟨by omega, by omega⟩

/-- Registers are pushed: they stand in memory in the reverse order. -/
theorem exec_push (stub : Word) (c : Core) (rs : List Reg) (hrs : Reg.rsp ∉ rs)
    (hroom : 8 * rs.length ≤ (c.reg .rsp).toNat) :
    PushedAll c (rs.reverse.map c.reg) (exec stub (rs.map .push) c) := by
  induction rs generalizing c with
  | nil => exact ⟨rfl, fun _ _ => rfl, by simp [exec], trivial, fun _ _ => rfl⟩
  | cons r rs ih =>
    rw [List.length_cons] at hroom
    simp only [List.mem_cons, not_or] at hrs
    have hpush : Pushed c (c.reg r) (Instr.exec stub (.push r) c) := pushed_push r (by omega)
    have hall := ih (Instr.exec stub (.push r) c) hrs.2 (by have := hpush.rsp; omega)
    have hregs : rs.reverse.map (Instr.exec stub (.push r) c).reg = rs.reverse.map c.reg := by
      apply List.map_congr_left
      intro q hq
      apply hpush.reg
      rintro rfl
      exact hrs.2 (List.mem_reverse.mp hq)
    rw [hregs] at hall
    simpa [exec_cons] using hall.cons hpush

/-- Registers are popped: they get the words that stand in memory from `rsp` up. -/
theorem exec_pop (stub : Word) (c : Core) (rs : List Reg) (hrs : Reg.rsp ∉ rs) (hnodup : rs.Nodup)
    (hlength : vs.length = rs.length) (hframe : Frame c.mem (c.reg .rsp) vs) :
    ∃ c', exec stub (rs.map .pop) c = c' ∧ c'.rip = c.rip ∧ c'.mem = c.mem ∧ rs.map c'.reg = vs ∧
      c'.reg .rsp = c.reg .rsp + BitVec.ofNat 64 (8 * rs.length) ∧
      ∀ r, r ∉ rs → r ≠ .rsp → c'.reg r = c.reg r := by
  refine ⟨_, rfl, ?_⟩
  induction rs generalizing c vs with
  | nil =>
    rw [List.length_nil, List.length_eq_zero_iff] at hlength
    simp [exec, hlength]
  | cons r rs ih =>
    obtain ⟨v, vs, rfl⟩ := List.exists_cons_of_length_eq_add_one hlength
    simp only [List.mem_cons, not_or] at hrs
    obtain ⟨hr, hnodup⟩ := List.nodup_cons.mp hnodup
    have hrsp : (Instr.exec stub (.pop r) c).reg .rsp = c.reg .rsp + 8#64 := by
      simp [Instr.exec, Function.update_of_ne hrs.1]
    have hreg : (Instr.exec stub (.pop r) c).reg r = v := by
      simpa [Instr.exec] using hframe.1
    obtain ⟨hrip, hmem, hvs, hsp, hother⟩ := ih (Instr.exec stub (.pop r) c) hrs.2 hnodup
      (by simpa using hlength) (by rw [hrsp]; exact hframe.2)
    rw [List.map_cons, exec_cons]
    refine ⟨hrip, hmem, ?_, ?_, fun q hq hq' => ?_⟩
    · rw [List.map_cons, hvs, hother r hr (Ne.symm hrs.1), hreg]
    · rw [hsp, hrsp, List.length_cons, BitVec.add_assoc]
      congr 1
      apply BitVec.eq_of_toNat_eq
      simp
      omega
    · simp only [List.mem_cons, not_or] at hq
      rw [hother q hq.2 hq']
      simp [Instr.exec, hq.1, hq']

theorem regSave_eq : regSave = calleeSaved.reverse.map .push := rfl

theorem regRestore_eq : regRestore = calleeSaved.map .pop := rfl

/-- **`stackSwitch`**, called with the return address `ret`, when the words `vs` stand at the next
stack pointer and nothing that it writes is among them. -/
theorem stackSwitch_spec (stub : Word) (c : Core) (ret sp : Word)
    (hsp : sp.toNat + 56 = (c.reg .rsp).toNat) (hlength : vs.length = calleeSaved.length)
    (hframe : ∀ mem, (∀ a, ¬Within sp (c.reg .rsp) a → a ≠ c.reg .rdx → mem a = c.mem a) →
      Frame mem (c.reg .rcx) vs)
    (hcell : ¬Within sp (c.reg .rsp) (c.reg .rdx)) :
    ∃ c', exec stub stackSwitch (c.call ret) = c' ∧ c'.rip = c.reg .r8 ∧
      calleeSaved.map c'.reg = vs ∧ c'.reg .rsp = c.reg .rcx + 48#64 ∧
      c'.reg .rdi = c.reg .rdi ∧ c'.reg .rsi = c.reg .rsi ∧
      Frame c'.mem sp (calleeSaved.map c.reg ++ [ret]) ∧ c'.mem (c.reg .rdx) = sp ∧
      ∀ a, ¬Within sp (c.reg .rsp) a → a ≠ c.reg .rdx → c'.mem a = c.mem a := by
  have hcall : Pushed c ret (c.call ret) := pushed_call ret (by omega)
  have hsave := exec_push stub (c.call ret) calleeSaved.reverse (by decide)
    (by have := hcall.rsp; simp [calleeSaved]; omega)
  rw [← regSave_eq, List.reverse_reverse] at hsave
  have hregs : calleeSaved.map (c.call ret).reg = calleeSaved.map c.reg := by
    apply List.map_congr_left
    intro r hr
    apply hcall.reg
    rintro rfl
    revert hr
    decide
  rw [hregs] at hsave
  have hpushed := hsave.cons hcall
  generalize hc₁ : exec stub regSave (c.call ret) = c₁ at hpushed
  have hrsp₁ : c₁.reg .rsp = sp := by
    apply BitVec.eq_of_toNat_eq
    have := hpushed.rsp
    simp [calleeSaved] at this
    omega
  -- the stack pointers are exchanged
  let c₂ : Core := ⟨Function.update c₁.reg .rsp (c.reg .rcx), c₁.rip,
    Function.update c₁.mem (c.reg .rdx) sp⟩
  have hc₂ : exec stub [.store .rsp 0#64 .rdx, .mov .rcx .rsp] c₁ = c₂ := by
    simp [exec, Instr.exec, hrsp₁, hpushed.reg, c₂]
  have hmem₂ : ∀ a, ¬Within sp (c.reg .rsp) a → a ≠ c.reg .rdx → c₂.mem a = c.mem a := by
    intro a ha hne
    simp only [c₂, Function.update_of_ne hne]
    exact hpushed.mem a (hrsp₁ ▸ ha)
  obtain ⟨c₃, hc₃, -, hmem₃, hvs, hrsp₃, hother⟩ := exec_pop stub c₂ calleeSaved (by decide)
    (by decide) hlength (hframe c₂.mem hmem₂)
  have hreg₃ : ∀ r, r ∉ calleeSaved → r ≠ .rsp → c₃.reg r = c.reg r := by
    intro r hr hr'
    rw [hother r hr hr']
    simp only [c₂, Function.update_of_ne hr']
    exact hpushed.reg r hr'
  refine ⟨{ c₃ with rip := c₃.reg .r8 }, ?_, hreg₃ _ (by decide) (by decide), hvs, ?_,
    hreg₃ _ (by decide) (by decide), hreg₃ _ (by decide) (by decide), ?_, ?_, fun a ha hne => ?_⟩
  · rw [stackSwitch, exec_append, exec_append, exec_append, hc₁, hc₂, regRestore_eq, hc₃]
    rfl
  · rw [hrsp₃]
    simp [c₂, calleeSaved]
  · have htop : sp.toNat + 8 * (calleeSaved.map c.reg ++ [ret]).length ≤ (c.reg .rsp).toNat := by
      simp [calleeSaved]
      omega
    refine (hrsp₁ ▸ hpushed.frame).congr (le_refl sp.toNat) htop fun a ha => ?_
    have hne : a ≠ c.reg .rdx := fun he => hcell (he ▸ ha)
    rw [hmem₃]
    exact Function.update_of_ne hne ..
  · rw [hmem₃]
    exact Function.update_self ..
  · rw [hmem₃]
    exact hmem₂ a ha hne

/-- **`stackInit`**, with the top of the new stack 64 bytes above `b`, stores seven words from `b`
up and returns `b`. -/
theorem stackInit_spec (stub : Word) (c : Core) {b : Word} (hb : c.reg .rdi = b + 64#64) :
    ∃ c', exec stub stackInit c = c' ∧ c'.reg .rax = b ∧ (∀ r ∈ calleeSaved, c'.reg r = c.reg r) ∧
      c'.reg .rsp = c.reg .rsp + 8#64 ∧
      c'.mem = storeAll c.mem b
        [0#64, c.reg .rsi, c.reg .rdx, c.reg .rcx, c.reg .r8, c.reg .r9, stub] := by
  refine ⟨_, rfl, ?_, ?_, ?_, ?_⟩
  · simp [stackInit, exec, Instr.exec, hb, BitVec.add_assoc]
  · simp [stackInit, exec, Instr.exec, calleeSaved]
  · simp [stackInit, exec, Instr.exec]
  · simp [stackInit, exec, Instr.exec, hb, BitVec.add_assoc, storeAll]

/-- **`stackStub`** passes the arguments, and pushes `rbp` twice for the frame that `rbp` points at
then. -/
theorem stackStub_spec (stub : Word) (c : Core) {b : Word}
    (hb : b.toNat + 16 = (c.reg .rsp).toNat) :
    ∃ c', exec stub stackStub c = c' ∧ c'.rip = c.reg .rbx ∧ c'.reg .rdi = c.reg .r12 ∧
      c'.reg .rsi = c.reg .r13 ∧ c'.reg .rdx = c.reg .r14 ∧ c'.reg .rcx = c.reg .r15 ∧
      c'.reg .rbp = b ∧ c'.reg .rsp = b ∧ Frame c'.mem b [c.reg .rbp, c.reg .rbp] ∧
      ∀ a, ¬Within b (c.reg .rsp) a → c'.mem a = c.mem a := by
  let c₁ : Core := exec stub [.mov .r12 .rdi, .mov .r13 .rsi, .mov .r14 .rdx, .mov .r15 .rcx] c
  have hpush := exec_push stub c₁ [.rbp, .rbp] (by decide) (by
    simp [c₁, exec, Instr.exec]
    omega)
  generalize hc₂ : exec stub ([.rbp, .rbp].map .push) c₁ = c₂ at hpush
  have hrsp : c₂.reg .rsp = b := by
    apply BitVec.eq_of_toNat_eq
    have := hpush.rsp
    simp [c₁, exec, Instr.exec] at this
    omega
  refine ⟨exec stub [.mov .rsp .rbp, .jmp .rbx] c₂, ?_, ?_, ?_, ?_, ?_, ?_, ?_, ?_, ?_, ?_⟩
  · rw [← hc₂]
    rfl
  · simp [exec, Instr.exec, hpush.reg, c₁]
  · simp [exec, Instr.exec, hpush.reg, c₁]
  · simp [exec, Instr.exec, hpush.reg, c₁]
  · simp [exec, Instr.exec, hpush.reg, c₁]
  · simp [exec, Instr.exec, hpush.reg, c₁]
  · simp [exec, Instr.exec, hrsp]
  · simp [exec, Instr.exec, hrsp]
  · have hframe := hpush.frame
    rw [hrsp] at hframe
    simpa [exec, Instr.exec, c₁] using hframe
  · intro a ha
    rw [← hrsp] at ha
    exact hpush.mem a ha

end Code

/-! ## The invariant -/

section System

variable {P T : Type*} {L : Layout T} {s s' : State P T} {p : P} {t u : T} {w : Saved}

/-- The callee-saved registers that a context goes on with. -/
def Saved.words : Saved → List Word
  | .prepared func a1 a2 a3 a4 => [0#64, func, a1, a2, a3, a4]
  | .called reg _ => calleeSaved.map reg

/-- The address at which it goes on. -/
def Saved.rip (L : Layout T) : Saved → Word
  | .prepared .. => L.stub
  | .called _ ret => ret

/-- The `rsp` that it goes on with. -/
def Saved.rsp (L : Layout T) (t : T) : Saved → Word
  | .prepared .. => L.top t - 8#64
  | .called reg _ => reg .rsp

/-- Only what `stackInit` has prepared goes on at `stackStub`. -/
def Saved.Returns (L : Layout T) : Saved → Prop
  | .prepared .. => True
  | .called _ ret => ret ≠ L.stub

/-- The stack of `t` has what is saved of it from `sp` up. -/
structure Stored (L : Layout T) (mem : Word → Word) (t : T) (w : Saved) (sp : Word) : Prop where
  bottom : (L.lo t).toNat ≤ sp.toNat
  rsp : sp.toNat + 56 = (w.rsp L t).toNat
  top : (w.rsp L t).toNat ≤ (L.top t).toNat
  frame : Frame mem sp (w.words ++ [w.rip L])
  returns : w.Returns L

/-- The registers are those of `t`, but for the return address on the stack. -/
structure Entered (L : Layout T) (mem : Word → Word) (reg : Reg → Word) (t : T) (w : Saved) :
    Prop where
  words : calleeSaved.map reg = w.words
  bottom : (L.lo t).toNat ≤ (reg .rsp).toNat
  rsp : (reg .rsp).toNat + 8 = (w.rsp L t).toNat
  top : (w.rsp L t).toNat ≤ (L.top t).toNat
  rip : mem (reg .rsp) = w.rip L
  returns : w.Returns L

/-- The context that a processor is in. -/
def Pos.ctx : Pos T → T
  | .run t | .post t | .stub t => t

/-- What holds of processor `p`. -/
def CpuOk (L : Layout T) (s : State P T) (p : P) : Prop :=
  match s.pos p with
  | .run t => s.ctx t = .running p
  | .post t => ∃ w, s.ctx t = .entering p w ∧ Entered L s.mem (s.reg p) t w
  | .stub t => ∃ func a1 a2 a3 a4, s.ctx t = .entering p (.prepared func a1 a2 a3 a4) ∧
      calleeSaved.map (s.reg p) = [0#64, func, a1, a2, a3, a4] ∧ s.reg p .rsp = L.top t - 8#64

structure Inv (L : Layout T) (s : State P T) : Prop where
  cpu : ∀ p, CpuOk L s p
  ready : ∀ t w, s.ctx t = .ready w → Stored L s.mem t w (s.mem (L.stackPointer t))

theorem inv_initial (h : Initial s) : Inv L s where
  cpu p := by
    obtain ⟨t, hpos, hctx⟩ := h.pos p
    simpa [CpuOk, hpos] using hctx
  ready t w hw := by
    rcases h.ctx t with hidle | ⟨p, hrun⟩
    · simp [hidle] at hw
    · simp [hrun] at hw

/-- A processor is the owner of its context. -/
theorem CpuOk.owner (h : CpuOk L s p) :
    s.ctx (s.pos p).ctx = .running p ∨ ∃ w, s.ctx (s.pos p).ctx = .entering p w := by
  unfold CpuOk at h
  cases hpos : s.pos p with
  | run t =>
    rw [hpos] at h
    exact .inl h
  | post t =>
    rw [hpos] at h
    obtain ⟨w, hw, -⟩ := h
    exact .inr ⟨w, hw⟩
  | stub t =>
    rw [hpos] at h
    obtain ⟨func, a1, a2, a3, a4, hw, -⟩ := h
    exact .inr ⟨_, hw⟩

theorem Inv.ctx_ne (h : Inv L s) {q : P} (hq : q ≠ p) : (s.pos q).ctx ≠ (s.pos p).ctx := by
  intro he
  have hp := (h.cpu p).owner
  have hq' := (h.cpu q).owner
  rw [he] at hq'
  rcases hp with hp | ⟨w, hp⟩ <;> rcases hq' with hq' | ⟨w', hq'⟩ <;> rw [hp] at hq'
  · exact hq (Ctx.running.inj hq').symm
  · simp at hq'
  · simp at hq'
  · exact hq (Ctx.entering.inj hq').1.symm

/-- The words of the stack of its context are all a processor depends on. -/
theorem CpuOk.congr (h : CpuOk L s p) (hpos : s'.pos p = s.pos p) (hreg : s'.reg p = s.reg p)
    (hctx : s'.ctx (s.pos p).ctx = s.ctx (s.pos p).ctx)
    (hmem : ∀ a, Within (L.lo (s.pos p).ctx) (L.top (s.pos p).ctx) a → s'.mem a = s.mem a) :
    CpuOk L s' p := by
  unfold CpuOk at h ⊢
  rw [hpos, hreg]
  cases ht : s.pos p with
  | run t =>
    rw [ht] at h hctx
    exact hctx.trans h
  | post t =>
    rw [ht] at h hctx hmem
    obtain ⟨w, hw, he⟩ := h
    refine ⟨w, hctx.trans hw, { he with rip := ?_ }⟩
    have hrsp := he.rsp
    have hin : Within (L.lo t) (L.top t) (s.reg p .rsp) := ⟨he.bottom, hrsp ▸ he.top⟩
    rw [hmem _ hin]
    exact he.rip
  | stub t =>
    rw [ht] at h hctx
    obtain ⟨func, a1, a2, a3, a4, hw, he⟩ := h
    exact ⟨func, a1, a2, a3, a4, hctx.trans hw, he⟩

theorem Stored.congr {mem mem' : Word → Word} {sp : Word} (h : Stored L mem t w sp)
    (hmem : ∀ a, Within (L.lo t) (L.top t) a → mem' a = mem a) : Stored L mem' t w sp := by
  refine { h with frame := h.frame.congr h.bottom ?_ hmem }
  have hrsp := h.rsp
  have htop := h.top
  cases w <;> simp [Saved.words, calleeSaved] <;> omega

/-- **A step of processor `p`** that changes the contexts in `X` only. -/
theorem Inv.change (h : Inv L s) (X : T → Prop) (hcpu : CpuOk L s' p)
    (hother : ∀ q, q ≠ p → s'.pos q = s.pos q ∧ s'.reg q = s.reg q ∧ ¬X (s.pos q).ctx)
    (hctx : ∀ v, ¬X v → s'.ctx v = s.ctx v)
    (hmem : ∀ v, ¬X v → ∀ a, Within (L.lo v) (L.top v) a ∨ a = L.stackPointer v →
    s'.mem a = s.mem a)
    (hready : ∀ v w, X v → s'.ctx v = .ready w → Stored L s'.mem v w (s'.mem (L.stackPointer v))) :
    Inv L s' := by
  refine ⟨fun q => ?_, fun v w hv => ?_⟩
  · by_cases hq : q = p
    · exact hq ▸ hcpu
    · obtain ⟨hpos, hreg, hx⟩ := hother q hq
      exact (h.cpu q).congr hpos hreg (hctx _ hx) fun a ha => hmem _ hx a (.inl ha)
  · by_cases hx : X v
    · exact hready v w hx hv
    · rw [hctx v hx] at hv
      rw [hmem v hx _ (.inr rfl)]
      exact (h.ready v w hv).congr fun a ha => hmem v hx a (.inl ha)

/-! ## The steps -/

theorem Inv.ne_of_run (h : Inv L s) (hpos : s.pos p = .run u) (ht : s.ctx t ≠ .running p) :
    t ≠ u := by
  have hcpu := h.cpu p
  rw [CpuOk, hpos] at hcpu
  rintro rfl
  exact ht hcpu

theorem Layout.toNat_top_sub (L : Layout T) (t : T) {n : ℕ} (hn : n ≤ 64) :
    (L.top t - BitVec.ofNat 64 n).toNat + n = (L.top t).toNat :=
  Word.toNat_sub_ofNat n (by omega) (by have := L.room t; omega)

theorem Room.toNat_sub {rsp : Word} {n : ℕ} (h : Room L t rsp n) :
    (rsp - BitVec.ofNat 64 n).toNat + n = rsp.toNat :=
  Word.toNat_sub_ofNat n (by have := h.1; have := rsp.isLt; omega) (by have := h.1; omega)

/-- A word of the stack of `t` is no word of another context. -/
theorem Layout.ne_of_within (L : Layout T) (htu : u ≠ t) {a b : Word}
    (ha : Within (L.lo t) (L.top t) a)
    (hb : Within (L.lo u) (L.top u) b ∨ b = L.stackPointer u) : b ≠ a := by
  rintro rfl
  rcases hb with hb | rfl
  · have := L.disjoint t u (Ne.symm htu)
    have := ha.1
    have := ha.2
    have := hb.1
    have := hb.2
    omega
  · exact L.outside t u ha

/-- A word of free memory is no word of a context. -/
theorem Layout.ne_of_free (L : Layout T) {a b : Word} (ha : L.free a = true)
    (hb : Within (L.lo u) (L.top u) b ∨ b = L.stackPointer u) : b ≠ a := by
  rintro rfl
  rcases hb with hb | hb
  · exact L.free_stack b ha u hb
  · exact L.free_stackPointer b ha u hb

theorem inv_write (h : Inv L s) {a v : Word} (hs : write L p a v s = some s') : Inv L s' := by
  have hother : ∀ q, q ≠ p → ¬(s.pos q).ctx = (s.pos p).ctx := fun q hq => h.ctx_ne hq
  unfold write at hs
  cases hpos : s.pos p with
  | run t =>
    simp only [hpos, Option.ite_none_right_eq_some, Option.some.injEq] at hs
    obtain ⟨ha, rfl⟩ := hs
    have hrun : s.ctx t = .running p := by
      have := h.cpu p
      rwa [CpuOk, hpos] at this
    rw [hpos] at hother
    refine h.change (· = t) (by simpa [CpuOk, hpos] using hrun)
      (fun q hq => ⟨rfl, rfl, hother q hq⟩)
      (fun _ _ => rfl) (fun u hu b hb => Function.update_of_ne ?_ ..) fun u w hu hw => ?_
    · rcases ha with ha | ha
      · exact L.ne_of_within hu ha hb
      · exact L.ne_of_free ha hb
    · subst hu
      simp [hrun] at hw
  | post t =>
    simp only [hpos, Option.ite_none_right_eq_some, Option.some.injEq] at hs
    obtain ⟨ha, rfl⟩ := hs
    have hcpu := h.cpu p
    rw [CpuOk, hpos] at hcpu
    obtain ⟨w, hw, he⟩ := hcpu
    rw [hpos] at hother
    have hrsp := he.rsp
    have htop := he.top
    have hne : s.reg p .rsp ≠ a := by
      rcases ha with ha | ha
      · rintro rfl
        have := ha.2
        omega
      · exact L.ne_of_free ha (.inl ⟨he.bottom, by omega⟩)
    refine h.change (· = t) ?_ (fun q hq => ⟨rfl, rfl, hother q hq⟩)
      (fun _ _ => rfl) (fun u hu b hb => Function.update_of_ne ?_ ..) fun u w hu hw => ?_
    · simp only [CpuOk, hpos]
      refine ⟨w, hw, { he with rip := ?_ }⟩
      rw [Function.update_of_ne hne]
      exact he.rip
    · rcases ha with ha | ha
      · exact L.ne_of_within hu ⟨ha.1, by have := ha.2; omega⟩ hb
      · exact L.ne_of_free ha hb
    · subst hu
      simp_all
  | stub t => simp [hpos] at hs

variable [DecidableEq P] [DecidableEq T]

/-- What `prepare` does, when the code of `u` calls it. -/
structure Prepared (L : Layout T) (s : State P T) (p : P) (t u : T) (func a1 a2 a3 a4 : Word)
    (s' : State P T) : Prop where
  pos : s.pos p = .run u
  idle : s.ctx t = .idle
  room : Room L u (s.reg p .rsp) 8
  pos' : s'.pos = s.pos
  ctx' : s'.ctx = Function.update s.ctx t (.ready (.prepared func a1 a2 a3 a4))
  reg' : ∀ q, q ≠ p → s'.reg q = s.reg q
  stackPointer : s'.mem (L.stackPointer t) = L.top t - 64#64
  frame : Frame s'.mem (L.top t - 64#64) [0#64, func, a1, a2, a3, a4, L.stub]
  mem : ∀ a, ¬Within (L.top t - 64#64) (L.top t - 8#64) a →
    ¬Within (s.reg p .rsp - 8#64) (s.reg p .rsp) a → a ≠ L.stackPointer t → s'.mem a = s.mem a

theorem prepared_of_prepare {func a1 a2 a3 a4 ret : Word}
    (hs : prepare L p t func a1 a2 a3 a4 ret s = some s') :
    ∃ u, Prepared L s p t u func a1 a2 a3 a4 s' := by
  unfold prepare at hs
  split at hs
  next u hpos hidle =>
    rw [Option.ite_none_right_eq_some, Option.some.injEq] at hs
    obtain ⟨hroom, rfl⟩ := hs
    have hrm := L.room t
    have hb := L.toNat_top_sub t (n := 64) (by omega)
    have ht := L.toNat_top_sub t (n := 8) (by omega)
    have hr := hroom.toNat_sub
    obtain ⟨c', hc', hrax, -, -, hmem⟩ := stackInit_spec L.stub
      (((s.core p).set [(.rdi, L.top t), (.rsi, func), (.rdx, a1), (.rcx, a2), (.r8, a3),
        (.r9, a4)]).call ret) (b := L.top t - 64#64) (by simp [Core.call, Core.set])
    have hmem : c'.mem = storeAll (Function.update s.mem (s.reg p .rsp - 8#64) ret)
        (L.top t - 64#64) [0#64, func, a1, a2, a3, a4, L.stub] := by
      simpa [Core.call, Core.set, State.core] using hmem
    have hlt : (L.top t - 64#64).toNat + 8 * 7 ≤ (L.top t - 8#64).toNat := by omega
    have hin : ∀ a, Within (L.top t - 64#64) (L.top t - 8#64) a → a ≠ L.stackPointer t := by
      rintro a ha rfl
      exact L.outside t t ⟨by have := ha.1; omega, by have := ha.2; omega⟩
    simp only [hc']
    refine ⟨u, hpos, hidle, hroom, rfl, rfl, fun q hq => ?_, ?_, ?_, fun a ha ha' hne => ?_⟩
    · simp [State.setCore, hq]
    · simp [State.setCore, hrax]
    · have hframe : Frame c'.mem (L.top t - 64#64) [0#64, func, a1, a2, a3, a4, L.stub] :=
        hmem ▸ frame_storeAll hlt
      refine hframe.congr (le_refl _) hlt fun a ha => ?_
      simp only [State.setCore, Function.update_of_ne (hin a ha)]
    · simp only [State.setCore, Function.update_of_ne hne]
      rw [hmem, storeAll_of_not_within hlt ha]
      refine Function.update_of_ne ?_ ..
      rintro rfl
      exact ha' ⟨le_refl _, by omega⟩
  next => simp at hs

theorem inv_prepare (h : Inv L s) {func a1 a2 a3 a4 ret : Word}
    (hs : prepare L p t func a1 a2 a3 a4 ret s = some s') : Inv L s' := by
  obtain ⟨u, hp⟩ := prepared_of_prepare hs
  have htu : t ≠ u := h.ne_of_run hp.pos (by simp [hp.idle])
  have hrm := L.room t
  have hb := L.toNat_top_sub t (n := 64) (by omega)
  have ht := L.toNat_top_sub t (n := 8) (by omega)
  have hroom := hp.room
  have hr := hroom.toNat_sub
  refine h.change (fun v => v = t ∨ v = u) (p := p) ?_
    (fun q hq => ⟨by rw [hp.pos'], hp.reg' q hq, ?_⟩)
    (fun v hv => ?_) (fun v hv a ha => ?_) fun v w hv hw => ?_
  · have hcpu := h.cpu p
    rw [CpuOk, hp.pos] at hcpu
    rw [CpuOk, hp.pos', hp.pos, hp.ctx']
    simpa [Ne.symm htu] using hcpu
  · have hne := h.ctx_ne hq
    rw [hp.pos] at hne
    rintro (hqt | hqu)
    · have howner := (h.cpu q).owner
      rw [hqt, hp.idle] at howner
      simp at howner
    · exact hne hqu
  · rw [not_or] at hv
    rw [hp.ctx', Function.update_of_ne hv.1]
  · rw [not_or] at hv
    refine hp.mem a (fun hw => ?_) (fun hw => ?_) ?_
    · exact L.ne_of_within hv.1 ⟨by have := hw.1; omega, by have := hw.2; omega⟩ ha rfl
    · exact L.ne_of_within hv.2 ⟨by have := hw.1; have := hroom.1; omega,
        by have := hw.2; have := hroom.2; omega⟩ ha rfl
    · rintro rfl
      rcases ha with ha | ha
      · exact L.outside v t ha
      · exact hv.1 (L.injective ha).symm
  · rw [hp.ctx'] at hw
    rcases hv with rfl | rfl
    · rw [Function.update_self, Ctx.ready.injEq] at hw
      subst hw
      rw [hp.stackPointer]
      exact ⟨by omega, by rw [Saved.rsp]; omega, by rw [Saved.rsp]; omega, hp.frame, trivial⟩
    · have hcpu := h.cpu p
      rw [CpuOk, hp.pos] at hcpu
      rw [Function.update_of_ne (Ne.symm htu), hcpu] at hw
      simp at hw

/-- What `switch` does, when the code of `u` calls it. -/
structure Switched (L : Layout T) (s : State P T) (p : P) (t u : T) (w : Saved)
    (next args post ret : Word) (s' : State P T) : Prop where
  pos : s.pos p = .run u
  ready : s.ctx t = .ready w
  room : Room L u (s.reg p .rsp) 56
  returns : ret ≠ L.stub
  pos' : s'.pos = Function.update s.pos p (.post t)
  ctx' : s'.ctx = Function.update (Function.update s.ctx u (.ready (.called (s.reg p) ret))) t
    (.entering p w)
  reg' : ∀ q, q ≠ p → s'.reg q = s.reg q
  rip : s'.rip p = post
  args : s'.reg p .rdi = next ∧ s'.reg p .rsi = args
  words : calleeSaved.map (s'.reg p) = w.words
  rsp : s'.reg p .rsp = s.mem (L.stackPointer t) + 48#64
  stackPointer : s'.mem (L.stackPointer u) = s.reg p .rsp - 56#64
  frame : Frame s'.mem (s.reg p .rsp - 56#64) (calleeSaved.map (s.reg p) ++ [ret])
  mem : ∀ a, ¬Within (s.reg p .rsp - 56#64) (s.reg p .rsp) a → a ≠ L.stackPointer u →
    s'.mem a = s.mem a

theorem switched_of_switch (h : Inv L s) {next args post ret : Word}
    (hs : switch L p t next args post ret s = some s') :
    ∃ u w, Switched L s p t u w next args post ret s' := by
  unfold switch at hs
  split at hs
  next u w hpos hready =>
    rw [Option.ite_none_right_eq_some, Option.some.injEq] at hs
    obtain ⟨⟨hroom, hret⟩, rfl⟩ := hs
    have htu : t ≠ u := h.ne_of_run hpos (by simp [hready])
    have hsp := hroom.toNat_sub
    have hin : ∀ {a}, Within (s.reg p .rsp - 56#64) (s.reg p .rsp) a →
      Within (L.lo u) (L.top u) a :=
      fun ha => ⟨by have := ha.1; have := hroom.1; omega, ha.2.trans hroom.2⟩
    obtain ⟨c, hc⟩ : ∃ c, (s.core p).set [(.rdi, next), (.rsi, args), (.rdx, L.stackPointer u),
      (.rcx, s.mem (L.stackPointer t)), (.r8, post)] = c := ⟨_, rfl⟩
    have hcrsp : c.reg .rsp = s.reg p .rsp := by simp [← hc, Core.set, State.core]
    have hcmem : c.mem = s.mem := by simp [← hc, Core.set, State.core]
    have hcrdx : c.reg .rdx = L.stackPointer u := by simp [← hc, Core.set]
    have hcrcx : c.reg .rcx = s.mem (L.stackPointer t) := by simp [← hc, Core.set]
    have hcsaved : calleeSaved.map c.reg = calleeSaved.map (s.reg p) := by
      simp [← hc, calleeSaved, Core.set, State.core]
    have hnext : ∀ mem, (∀ a, ¬Within (s.reg p .rsp - 56#64) (c.reg .rsp) a → a ≠ c.reg .rdx →
        mem a = c.mem a) → Frame mem (c.reg .rcx) w.words := by
      intro mem hmem
      rw [hcrsp, hcrdx, hcmem] at hmem
      have hkeep : ∀ a, Within (L.lo t) (L.top t) a → mem a = s.mem a := fun a ha =>
        hmem a (fun hw => L.ne_of_within htu (hin hw) (.inl ha) rfl) fun he =>
        L.outside t u (he ▸ ha)
      have hstored := (h.ready t w hready).congr hkeep
      rw [hcrcx]
      exact (Frame.append.mp hstored.frame).1
    obtain ⟨c', hc', hrip, hwords, hrsp, hrdi, hrsi, hframe, hcell, hmem⟩ := stackSwitch_spec
      L.stub c ret (s.reg p .rsp - 56#64) (by rw [hcrsp]; exact hsp)
      (by cases w <;> rfl) hnext (by rw [hcrsp, hcrdx]; exact fun hw => L.outside u u (hin hw))
    simp only [hc, hc']
    rw [hcsaved] at hframe
    rw [hcrdx] at hcell
    rw [hcrsp, hcrdx, hcmem] at hmem
    refine ⟨u, w, hpos, hready, hroom, hret, rfl, rfl, fun q hq => ?_, ?_, ?_, ?_, ?_, hcell,
      hframe, hmem⟩
    · simp [State.setCore, hq]
    · simp [State.setCore, hrip, ← hc, Core.set]
    · simp [State.setCore, hrdi, hrsi, ← hc, Core.set]
    · simpa [State.setCore] using hwords
    · simp [State.setCore, hrsp, hcrcx]
  next => simp at hs

theorem inv_switch (h : Inv L s) {next args post ret : Word}
    (hs : switch L p t next args post ret s = some s') : Inv L s' := by
  obtain ⟨u, w, hp⟩ := switched_of_switch h hs
  have htu : t ≠ u := h.ne_of_run hp.pos (by simp [hp.ready])
  have hroom := hp.room
  have hsp := hroom.toNat_sub
  have hin : ∀ {a}, Within (s.reg p .rsp - 56#64) (s.reg p .rsp) a → Within (L.lo u) (L.top u) a :=
    fun ha => ⟨by have := ha.1; have := hroom.1; omega, ha.2.trans hroom.2⟩
  have hkeep : ∀ v, v ≠ u → ∀ a, Within (L.lo v) (L.top v) a ∨ a = L.stackPointer v →
      s'.mem a = s.mem a := by
    intro v hv a ha
    refine hp.mem a (fun hw => L.ne_of_within hv (hin hw) ha rfl) ?_
    rintro rfl
    rcases ha with ha | ha
    · exact L.outside v u ha
    · exact hv (L.injective ha).symm
  refine h.change (fun v => v = t ∨ v = u) (p := p) ?_ (fun q hq => ⟨?_, hp.reg' q hq, ?_⟩)
    (fun v hv => ?_) (fun v hv => hkeep v fun he => hv (.inr he)) fun v w' hv hw => ?_
  · have hstored := (h.ready t w hp.ready).congr fun a ha => hkeep t htu a (.inl ha)
    have hrsp := hstored.rsp
    have htop := hstored.top
    have hbottom := hstored.bottom
    have hlength : w.words.length = 6 := by cases w <;> rfl
    have haddr : (s'.reg p .rsp).toNat + 8 = (w.rsp L t).toNat := by
      rw [hp.rsp, BitVec.toNat_add, BitVec.toNat_ofNat]
      have := (L.top t).isLt
      omega
    have hret := (Frame.append.mp hstored.frame).2.1
    rw [hlength] at hret
    simp only [CpuOk, hp.pos', hp.ctx', Function.update_self]
    exact ⟨w, rfl, hp.words, by omega, haddr, htop, hp.rsp ▸ hret, hstored.returns⟩
  · rw [hp.pos', Function.update_of_ne hq]
  · have hne := h.ctx_ne hq
    rw [hp.pos] at hne
    rintro (hqt | hqu)
    · have howner := (h.cpu q).owner
      rw [hqt, hp.ready] at howner
      simp at howner
    · exact hne hqu
  · rw [not_or] at hv
    rw [hp.ctx', Function.update_of_ne hv.1, Function.update_of_ne hv.2]
  · rw [hp.ctx'] at hw
    rcases hv with rfl | rfl
    · simp at hw
    · rw [Function.update_of_ne (Ne.symm htu), Function.update_self, Ctx.ready.injEq] at hw
      subst hw
      rw [hp.stackPointer]
      exact ⟨by have := hroom.1; omega, hsp, hroom.2, hp.frame, hp.returns⟩

/-- The post-switch function returns: the registers are those that are saved of the context. -/
structure Returned (L : Layout T) (s : State P T) (p : P) (t : T) (w : Saved) (s' : State P T) :
    Prop where
  pos : s.pos p = .post t
  ctx : s.ctx t = .entering p w
  mem' : s'.mem = s.mem
  reg' : ∀ q, q ≠ p → s'.reg q = s.reg q
  words : calleeSaved.map (s'.reg p) = w.words
  rsp : s'.reg p .rsp = w.rsp L t
  rip : s'.rip p = w.rip L
  next : (∃ func a1 a2 a3 a4, w = .prepared func a1 a2 a3 a4 ∧
      s'.pos = Function.update s.pos p (.stub t) ∧ s'.ctx = s.ctx) ∨
    (∃ reg ret, w = .called reg ret) ∧ s'.pos = Function.update s.pos p (.run t) ∧
      s'.ctx = Function.update s.ctx t (.running p)

theorem returned_of_ret (h : Inv L s) {reg : Reg → Word} (hs : ret L p reg s = some s') :
    ∃ t w, Returned L s p t w s' := by
  unfold ret at hs
  cases hpos : s.pos p with
  | run t => simp [hpos] at hs
  | stub t => simp [hpos] at hs
  | post t =>
    simp only [hpos, Option.ite_none_right_eq_some, List.all_eq_true, decide_eq_true_eq] at hs
    obtain ⟨hreg, hs⟩ := hs
    have hcpu := h.cpu p
    rw [CpuOk, hpos] at hcpu
    obtain ⟨w, hctx, he⟩ := hcpu
    have hrsp : reg .rsp = s.reg p .rsp := hreg _ (by simp)
    have hwords : calleeSaved.map (Function.update reg .rsp (reg .rsp + 8#64)) = w.words := by
      rw [← he.words]
      apply List.map_congr_left
      intro r hr
      have hne : r ≠ .rsp := by
        rintro rfl
        revert hr
        decide
      rw [Function.update_of_ne hne]
      exact hreg r (List.mem_cons_of_mem _ hr)
    have hnext : reg .rsp + 8#64 = w.rsp L t := by
      apply BitVec.eq_of_toNat_eq
      have := he.rsp
      have := (w.rsp L t).isLt
      rw [hrsp, BitVec.toNat_add, BitVec.toNat_ofNat]
      omega
    have hrip : (exec L.stub [.ret] { s.core p with reg := reg }).rip = w.rip L := by
      simpa [exec, Instr.exec, hrsp, State.core] using he.rip
    have hreturns := he.returns
    refine ⟨t, w, ?_⟩
    rw [hrip] at hs
    cases w with
    | prepared func a1 a2 a3 a4 =>
      have hstub : Saved.rip L (.prepared func a1 a2 a3 a4) = L.stub := rfl
      rw [if_pos hstub, Option.some.injEq] at hs
      subst hs
      refine ⟨hpos, hctx, rfl, fun q hq => by simp [State.setCore, hq], ?_, ?_, ?_,
        .inl ⟨func, a1, a2, a3, a4, rfl, rfl, rfl⟩⟩
      · simpa [State.setCore, exec, Instr.exec] using hwords
      · simpa [State.setCore, exec, Instr.exec] using hnext
      · simpa [State.setCore] using hrip
    | called reg₀ ret₀ =>
      have hstub : Saved.rip L (.called reg₀ ret₀) ≠ L.stub := hreturns
      rw [if_neg hstub, Option.some.injEq] at hs
      subst hs
      refine ⟨hpos, hctx, rfl, fun q hq => by simp [State.setCore, hq], ?_, ?_, ?_,
        .inr ⟨⟨reg₀, ret₀, rfl⟩, rfl, rfl⟩⟩
      · simpa [State.setCore, exec, Instr.exec] using hwords
      · simpa [State.setCore, exec, Instr.exec] using hnext
      · simpa [State.setCore] using hrip

theorem inv_ret (h : Inv L s) {reg : Reg → Word} (hs : ret L p reg s = some s') : Inv L s' := by
  obtain ⟨t, w, hp⟩ := returned_of_ret h hs
  have hother : ∀ q, q ≠ p → ¬(s.pos q).ctx = t := by
    intro q hq
    have hne := h.ctx_ne hq
    rwa [hp.pos] at hne
  rcases hp.next with ⟨func, a1, a2, a3, a4, rfl, hpos', hctx'⟩ | ⟨-, hpos', hctx'⟩
  · refine h.change (· = t) ?_
      (fun q hq => ⟨by rw [hpos', Function.update_of_ne hq], hp.reg' q hq, hother q hq⟩)
      (fun v _ => by rw [hctx']) (fun v _ a _ => by rw [hp.mem']) fun v w hv hw => ?_
    · simp only [CpuOk, hpos', Function.update_self]
      exact ⟨func, a1, a2, a3, a4, by rw [hctx', hp.ctx], hp.words, hp.rsp⟩
    · subst hv
      simp [hctx', hp.ctx] at hw
  · refine h.change (· = t) ?_
      (fun q hq => ⟨by rw [hpos', Function.update_of_ne hq], hp.reg' q hq, hother q hq⟩)
      (fun v hv => by rw [hctx', Function.update_of_ne hv]) (fun v _ a _ => by rw [hp.mem'])
        fun v w hv hw => ?_
    · simp [CpuOk, hpos', hctx']
    · subst hv
      simp [hctx'] at hw

/-- `stackStub` enters the function that the context was prepared for. -/
structure Started (L : Layout T) (s : State P T) (p : P) (t : T) (func a1 a2 a3 a4 : Word)
    (s' : State P T) : Prop where
  pos : s.pos p = .stub t
  ctx : s.ctx t = .entering p (.prepared func a1 a2 a3 a4)
  pos' : s'.pos = Function.update s.pos p (.run t)
  ctx' : s'.ctx = Function.update s.ctx t (.running p)
  reg' : ∀ q, q ≠ p → s'.reg q = s.reg q
  rip : s'.rip p = func
  args : s'.reg p .rdi = a1 ∧ s'.reg p .rsi = a2 ∧ s'.reg p .rdx = a3 ∧ s'.reg p .rcx = a4
  rsp : s'.reg p .rbp = L.top t - 24#64 ∧ s'.reg p .rsp = L.top t - 24#64
  frame : Frame s'.mem (L.top t - 24#64) [0#64, 0#64]
  mem : ∀ a, ¬Within (L.lo t) (L.top t) a → s'.mem a = s.mem a

theorem started_of_stub (h : Inv L s) (hs : stub L p s = some s') :
    ∃ t func a1 a2 a3 a4, Started L s p t func a1 a2 a3 a4 s' := by
  unfold stub at hs
  cases hpos : s.pos p with
  | run t => simp [hpos] at hs
  | post t => simp [hpos] at hs
  | stub t =>
    simp only [hpos, Option.some.injEq] at hs
    subst hs
    have hcpu := h.cpu p
    rw [CpuOk, hpos] at hcpu
    obtain ⟨func, a1, a2, a3, a4, hctx, hwords, hrsp⟩ := hcpu
    simp only [calleeSaved, List.map_cons, List.map_nil, List.cons.injEq, and_true] at hwords
    obtain ⟨hrbp, hrbx, hr12, hr13, hr14, hr15⟩ := hwords
    have htop := L.toNat_top_sub t (n := 24) (by omega)
    have htop' := L.toNat_top_sub t (n := 8) (by omega)
    obtain ⟨c', hc', hrip, h1, h2, h3, h4, hbp, hsp, hframe, hmem⟩ := stackStub_spec L.stub
      (s.core p) (b := L.top t - 24#64) (by simp only [State.core, hrsp]; omega)
    simp only [State.core] at hc' hrip h1 h2 h3 h4 hframe hmem
    refine ⟨t, func, a1, a2, a3, a4, hpos, hctx, rfl, rfl, fun q hq => by simp [State.setCore, hq],
      ?_, ?_, ?_, ?_, fun a ha => ?_⟩
    · simp [State.setCore, State.core, hc', hrip, hrbx]
    · simp [State.setCore, State.core, hc', h1, h2, h3, h4, hr12, hr13, hr14, hr15]
    · simp [State.setCore, State.core, hc', hbp, hsp]
    · simpa [State.setCore, State.core, hc', hrbp] using hframe
    · simp only [State.setCore, State.core, hc']
      refine hmem a fun hw => ha ⟨?_, ?_⟩
      · have := hw.1
        have := L.room t
        omega
      · have := hw.2
        rw [hrsp] at this
        omega

theorem inv_stub (h : Inv L s) (hs : stub L p s = some s') : Inv L s' := by
  obtain ⟨t, func, a1, a2, a3, a4, hp⟩ := started_of_stub h hs
  have hother : ∀ q, q ≠ p → ¬(s.pos q).ctx = t := by
    intro q hq
    have hne := h.ctx_ne hq
    rwa [hp.pos] at hne
  refine h.change (· = t) (by simp [CpuOk, hp.pos', hp.ctx'])
    (fun q hq => ⟨by rw [hp.pos', Function.update_of_ne hq], hp.reg' q hq, hother q hq⟩)
    (fun v hv => by rw [hp.ctx', Function.update_of_ne hv]) (fun v hv a ha => hp.mem a fun hw => ?_)
    fun v w hv hw => ?_
  · exact L.ne_of_within hv hw ha rfl
  · subst hv
    simp [hp.ctx'] at hw

theorem inv_step (h : Inv L s) (a : Action P T) (hs : step L s a = some s') : Inv L s' := by
  cases a with
  | write p a v => exact inv_write h hs
  | regs p reg rip =>
    simp only [step] at hs
    cases hpos : s.pos p with
    | run t =>
      simp only [hpos, Option.some.injEq] at hs
      subst hs
      have hcpu := h.cpu p
      rw [CpuOk, hpos] at hcpu
      exact h.change (fun _ => False) (p := p) (by simpa [CpuOk, hpos] using hcpu)
        (fun q hq => ⟨rfl, by simp [hq], not_false⟩) (fun _ _ => rfl) (fun _ _ _ _ => rfl)
          (fun _ _ hf => hf.elim)
    | post t => simp [hpos] at hs
    | stub t => simp [hpos] at hs
  | prepare p t func a1 a2 a3 a4 ret => exact inv_prepare h hs
  | switch p t next args post ret => exact inv_switch h hs
  | ret p reg => exact inv_ret h hs
  | stub p => exact inv_stub h hs
  | discard t =>
    simp only [step] at hs
    split at hs
    next w hw =>
      rw [Option.some.injEq] at hs
      subst hs
      refine ⟨fun p => (h.cpu p).congr rfl rfl ?_ fun _ _ => rfl, fun v w' hv => ?_⟩
      · refine Function.update_of_ne ?_ ..
        intro he
        have howner := (h.cpu p).owner
        rw [he, hw] at howner
        simp at howner
      · by_cases hvt : v = t
        · simp [hvt] at hv
        · simp only [Function.update_of_ne hvt] at hv
          exact h.ready v w' hv
    next => simp at hs

theorem inv_reachable (h : (machine P L).Reachable s) : Inv L s :=
  h.invariant (I := Inv L) (fun _ => inv_initial) fun _ a _ h hs => inv_step h a hs

/-! ## The result -/

/-- What every switch does, in state `s`. -/
structure Restores (L : Layout T) (s : State P T) : Prop where
  /-- `stackInit` prepares a context. It writes to the stack of that context, and its caller to its
  own stack and to the stack pointer. -/
  prepare : ∀ p t func a1 a2 a3 a4 ret s', step L s (.prepare p t func a1 a2 a3 a4 ret) = some s' →
    s'.ctx t = .ready (.prepared func a1 a2 a3 a4) ∧ ∃ u, s.pos p = .run u ∧
      ∀ a, ¬Within (L.lo t) (L.top t) a → ¬Within (L.lo u) (L.top u) a → a ≠ L.stackPointer t →
        s'.mem a = s.mem a
  /-- `stackSwitch`, called by `u`, saves the registers of `u` and goes to the post-switch function
  with its arguments, on the stack of `t`. It writes to the stack of `u` and to its stack
  pointer. -/
  switch : ∀ p t next args post ret s', step L s (.switch p t next args post ret) = some s' →
    ∃ u w, s.pos p = .run u ∧ s.ctx t = .ready w ∧
      s'.ctx u = .ready (.called (s.reg p) ret) ∧ s'.ctx t = .entering p w ∧ s'.pos p = .post t ∧
      s'.rip p = post ∧ s'.reg p .rdi = next ∧ s'.reg p .rsi = args ∧
      ∀ a, ¬Within (L.lo u) (L.top u) a → a ≠ L.stackPointer u → s'.mem a = s.mem a
  /-- The post-switch function and the stub are on the stack of a context that was switched to. -/
  entering : ∀ p t, s.pos p = .post t ∨ s.pos p = .stub t → ∃ w, s.ctx t = .entering p w
  /-- The post-switch function returns to a context that has called `stackSwitch`: the registers are
  as they were then, and the return address is that of the call. -/
  resume : ∀ p t reg₀ ret₀ reg s', s.pos p = .post t → s.ctx t = .entering p (.called reg₀ ret₀) →
    step L s (.ret p reg) = some s' →
      (∀ r ∈ Reg.rsp :: calleeSaved, s'.reg p r = reg₀ r) ∧ s'.rip p = ret₀ ∧ s'.pos p = .run t ∧
        s'.mem = s.mem
  /-- It returns to the stub of a context that was prepared. -/
  first : ∀ p t func a1 a2 a3 a4 reg s', s.pos p = .post t →
    s.ctx t = .entering p (.prepared func a1 a2 a3 a4) → step L s (.ret p reg) = some s' →
      s'.rip p = L.stub ∧ s'.pos p = .stub t ∧ s'.ctx = s.ctx ∧ s'.mem = s.mem
  /-- The stub enters `func` with its arguments, and with `rbp` at a frame of two zero words. -/
  start : ∀ p t func a1 a2 a3 a4, s.pos p = .stub t →
    s.ctx t = .entering p (.prepared func a1 a2 a3 a4) →
    ∃ s', step L s (.stub p) = some s' ∧ s'.pos p = .run t ∧ s'.rip p = func ∧
      s'.reg p .rdi = a1 ∧ s'.reg p .rsi = a2 ∧ s'.reg p .rdx = a3 ∧ s'.reg p .rcx = a4 ∧
      s'.reg p .rsp = s'.reg p .rbp ∧ Frame s'.mem (s'.reg p .rbp) [0#64, 0#64] ∧
      ∀ a, ¬Within (L.lo t) (L.top t) a → s'.mem a = s.mem a

/-- **Context switching restores contexts**, over every run of any number of processors and
contexts. -/
theorem contexts_restored (h : (machine P L).Reachable s) : Restores L s := by
  have hinv := inv_reachable h
  refine ⟨fun p t func a1 a2 a3 a4 ret s' hs => ?_, fun p t next args post ret s' hs => ?_,
    fun p t hpos => ?_, fun p t reg₀ ret₀ reg s' hpos hctx hs => ?_,
    fun p t func a1 a2 a3 a4 reg s' hpos hctx hs => ?_, fun p t func a1 a2 a3 a4 hpos hctx => ?_⟩
  · obtain ⟨u, hp⟩ := prepared_of_prepare hs
    have hb := L.toNat_top_sub t (n := 64) (by omega)
    have ht := L.toNat_top_sub t (n := 8) (by omega)
    have hrm := L.room t
    have hr := hp.room.toNat_sub
    refine ⟨by simp [hp.ctx'], u, hp.pos, fun a hat hau hne =>
      hp.mem a (fun hw => hat ?_) (fun hw => hau ?_) hne⟩
    · exact ⟨by have := hw.1; omega, by have := hw.2; omega⟩
    · exact ⟨by have := hw.1; have := hp.room.1; omega, hw.2.trans hp.room.2⟩
  · obtain ⟨u, w, hp⟩ := switched_of_switch hinv hs
    have htu : t ≠ u := hinv.ne_of_run hp.pos (by simp [hp.ready])
    have hsp := hp.room.toNat_sub
    refine ⟨u, w, hp.pos, hp.ready, by simp [hp.ctx', Ne.symm htu], by simp [hp.ctx'],
      by simp [hp.pos'], hp.rip,
      hp.args.1, hp.args.2, fun a ha hne => hp.mem a (fun hw => ha ?_) hne⟩
    exact ⟨by have := hw.1; have := hp.room.1; omega, hw.2.trans hp.room.2⟩
  · have hcpu := hinv.cpu p
    rcases hpos with hpos | hpos <;> rw [CpuOk, hpos] at hcpu
    · obtain ⟨w, hw, -⟩ := hcpu
      exact ⟨w, hw⟩
    · obtain ⟨func, a1, a2, a3, a4, hw, -⟩ := hcpu
      exact ⟨_, hw⟩
  · obtain ⟨t', w, hp⟩ := returned_of_ret hinv hs
    obtain rfl : t = t' := Pos.post.inj (hpos.symm.trans hp.pos)
    obtain rfl : w = .called reg₀ ret₀ := (Ctx.entering.inj (hp.ctx.symm.trans hctx)).2
    rcases hp.next with ⟨_, _, _, _, _, he, -⟩ | ⟨-, hpos', -⟩
    · simp at he
    · refine ⟨fun r hr => ?_, hp.rip, by simp [hpos'], hp.mem'⟩
      rcases List.mem_cons.mp hr with rfl | hr
      · exact hp.rsp
      · exact List.map_inj_left.mp hp.words r hr
  · obtain ⟨t', w, hp⟩ := returned_of_ret hinv hs
    obtain rfl : t = t' := Pos.post.inj (hpos.symm.trans hp.pos)
    obtain rfl : w = .prepared func a1 a2 a3 a4 := (Ctx.entering.inj (hp.ctx.symm.trans hctx)).2
    rcases hp.next with ⟨_, _, _, _, _, -, hpos', hctx'⟩ | ⟨⟨_, _, he⟩, -⟩
    · exact ⟨hp.rip, by simp [hpos'], hctx', hp.mem'⟩
    · simp at he
  · obtain ⟨s', hs⟩ : ∃ s', stub L p s = some s' := by
      rw [stub, hpos]
      exact ⟨_, rfl⟩
    obtain ⟨t', func', a1', a2', a3', a4', hp⟩ := started_of_stub hinv hs
    obtain rfl : t = t' := Pos.stub.inj (hpos.symm.trans hp.pos)
    have hsame := (Ctx.entering.inj (hp.ctx.symm.trans hctx)).2
    simp only [Saved.prepared.injEq] at hsame
    obtain ⟨rfl, rfl, rfl, rfl, rfl⟩ := hsame
    exact ⟨s', hs, by simp [hp.pos'], hp.rip, hp.args.1, hp.args.2.1, hp.args.2.2.1, hp.args.2.2.2,
      by rw [hp.rsp.1, hp.rsp.2], by rw [hp.rsp.1]; exact hp.frame, hp.mem⟩

end System

/-- The stacks of two contexts. -/
def twoStacks : Layout Bool where
  stub := 0x1000#64
  lo
    | false => 0x10000#64
    | true => 0x30000#64
  top
    | false => 0x20000#64
    | true => 0x40000#64
  stackPointer
    | false => 0x20020#64
    | true => 0x40020#64
  free _ := false
  room := by decide
  disjoint := by decide
  outside := by decide
  injective := by decide
  free_stack := by simp
  free_stackPointer := by simp

/-- One processor runs the first of the two contexts. -/
def oneRuns : State Unit Bool where
  mem _ := 0#64
  reg _
    | .rsp => 0x1fff0#64
    | _ => 7#64
  rip _ := 0x2000#64
  pos _ := .run false
  ctx
    | false => .running ()
    | true => .idle

theorem reachable_oneRuns : (machine Unit twoStacks).Reachable oneRuns := by
  refine .of_init ⟨fun _ => ⟨false, rfl, rfl⟩, fun t => ?_⟩
  cases t
  · exact .inr ⟨(), rfl⟩
  · exact .inl rfl

/-- The second context is prepared and entered, and calls `stackSwitch` for the first one. -/
def thereAndBack : List (Action Unit Bool) :=
  [.prepare () true 0x3000#64 1#64 2#64 3#64 4#64 0x2010#64,
    .switch () true 0#64 0#64 0x4000#64 0x2020#64,
    .ret () fun
      | .rsp => 0x3fff0#64
      | .rbp => 0#64
      | .rbx => 0x3000#64
      | .r12 => 1#64
      | .r13 => 2#64
      | .r14 => 3#64
      | .r15 => 4#64
      | _ => 9#64,
    .stub (),
    .switch () false 0#64 0#64 0x4000#64 0x3010#64]

/-- The post-switch function is about to return to the first context. -/
theorem contexts_restored_back : ∃ s, (machine Unit twoStacks).Reachable s ∧
    s.pos () = .post false ∧
    Restores twoStacks s := by
  have hs := reachable_oneRuns.get thereAndBack (by decide +kernel)
  exact ⟨_, hs, by decide +kernel, contexts_restored hs⟩

end UThreads.Stack
