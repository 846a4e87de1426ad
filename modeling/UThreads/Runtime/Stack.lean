import UThreads.Lib.Machine
import UThreads.Lib.StackFrame

/-!
# `Stack.S`: the model

The assembly code of `runtime/Stack.S` over the instructions it uses, and the system that runs it:
any number of processors (the kernel threads) that switch among any number of contexts.

**The code.** `stackSwitch`, `stackInit` and `stackStub` are lists of instructions. `Instr.exec`
executes one on the registers of a processor and the memory, which is word-addressed.

**The contexts.** Every context has a stack from `lo` up to `top`, where its uThread object begins,
and a field `stackPointer` outside all stacks. A processor runs the code of one context. In between,
this code writes to its own stack (`write`) and does anything with the registers (`regs`); it may
also write to memory that is part of no context (`free`). It prepares an idle context with
`stackInit`, as `start` does, and calls `stackSwitch`, as `kThread::switchContext` does.

**The post-switch function** runs on the stack of the next context. It writes below `rsp` (`write`),
and returns with `rsp` and the callee-saved registers as it found them (`ret`), to the address on
the top of the stack.

**Bookkeeping.** `ctx` says what every context is in use for. `Saved` is what is known of a context
that does not run: the arguments of `stackInit`, or the registers before the last call of
`stackSwitch` and the return address of that call.
-/

namespace UThreads.Stack

inductive Reg
  | rax | rbx | rcx | rdx | rsi | rdi | rbp | rsp | r8 | r9 | r12 | r13 | r14 | r15
  deriving DecidableEq

/-- What an instruction works on. -/
structure Core where
  reg : Reg → Word
  rip : Word
  mem : Word → Word

/-- The instructions, with the operands in the order of the source. -/
inductive Instr
  | push (r : Reg)
  | pop (r : Reg)
  /-- `movq %src, %dst` -/
  | mov (src dst : Reg)
  /-- `movq %src, off(%base)` -/
  | store (src : Reg) (off : Word) (base : Reg)
  /-- `movq $v, off(%base)` -/
  | storeImm (v off : Word) (base : Reg)
  /-- `leaq off(%base), %dst` -/
  | lea (off : Word) (base dst : Reg)
  /-- `lea stackStub(%rip), %dst` -/
  | leaStub (dst : Reg)
  /-- `jmpq *%r` -/
  | jmp (r : Reg)
  | ret

/-- One instruction; `stub` is the address of `stackStub`. -/
def Instr.exec (stub : Word) : Instr → Core → Core
  | .push r, c =>
    let sp := c.reg .rsp - 8#64
    { c with reg := Function.update c.reg .rsp sp, mem := Function.update c.mem sp (c.reg r) }
  | .pop r, c =>
    let sp := c.reg .rsp
    { c with reg := Function.update (Function.update c.reg .rsp (sp + 8#64)) r (c.mem sp) }
  | .mov src dst, c => { c with reg := Function.update c.reg dst (c.reg src) }
  | .store src off base, c => { c with mem := Function.update c.mem (c.reg base + off) (c.reg src) }
  | .storeImm v off base, c => { c with mem := Function.update c.mem (c.reg base + off) v }
  | .lea off base dst, c => { c with reg := Function.update c.reg dst (c.reg base + off) }
  | .leaStub dst, c => { c with reg := Function.update c.reg dst stub }
  | .jmp r, c => { c with rip := c.reg r }
  | .ret, c =>
    let sp := c.reg .rsp
    { c with reg := Function.update c.reg .rsp (sp + 8#64), rip := c.mem sp }

def exec (stub : Word) (code : List Instr) (c : Core) : Core :=
  code.foldl (fun c i => i.exec stub c) c

/-- `call`: the return address is pushed. -/
def Core.call (c : Core) (ret : Word) : Core :=
  let sp := c.reg .rsp - 8#64
  { c with reg := Function.update c.reg .rsp sp, mem := Function.update c.mem sp ret }

/-- The caller sets registers. -/
def Core.set (c : Core) (args : List (Reg × Word)) : Core :=
  { c with reg := args.foldl (fun reg x => Function.update reg x.1 x.2) c.reg }

/-! ## The code -/

/-- `REGSAVE` -/
def regSave : List Instr := [.push .r15, .push .r14, .push .r13, .push .r12, .push .rbx, .push .rbp]

/-- `REGRESTORE` -/
def regRestore : List Instr := [.pop .rbp, .pop .rbx, .pop .r12, .pop .r13, .pop .r14, .pop .r15]

/-- `stackSwitch(nextuThread, args, &currSP, nextSP, post-func)` -/
def stackSwitch : List Instr :=
  regSave ++ [.store .rsp 0#64 .rdx, .mov .rcx .rsp] ++ regRestore ++ [.jmp .r8]

/-- `stackInit(stack, func, arg1, arg2, arg3, arg4)` -/
def stackInit : List Instr :=
  [.storeImm 0#64 (-64#64) .rdi,
    .store .rsi (-56#64) .rdi,
    .store .rdx (-48#64) .rdi,
    .store .rcx (-40#64) .rdi,
    .store .r8 (-32#64) .rdi,
    .store .r9 (-24#64) .rdi,
    .leaStub .rax,
    .store .rax (-16#64) .rdi,
    .lea (-64#64) .rdi .rax,
    .ret]

def stackStub : List Instr :=
  [.mov .r12 .rdi, .mov .r13 .rsi, .mov .r14 .rdx, .mov .r15 .rcx, .push .rbp, .push .rbp,
    .mov .rsp .rbp, .jmp .rbx]

/-! ## The system -/

/-- Where the contexts are in memory. -/
structure Layout (T : Type*) where
  /-- the address of `stackStub` -/
  stub : Word
  lo : T → Word
  /-- the address of the uThread object -/
  top : T → Word
  /-- the address of `stackPointer` -/
  stackPointer : T → Word
  /-- memory that is part of no context -/
  free : Word → Bool
  room : ∀ t, (lo t).toNat + 64 ≤ (top t).toNat
  disjoint : ∀ t u, t ≠ u → (top t).toNat ≤ (lo u).toNat ∨ (top u).toNat ≤ (lo t).toNat
  outside : ∀ t u, ¬Within (lo t) (top t) (stackPointer u)
  injective : Function.Injective stackPointer
  free_stack : ∀ a, free a = true → ∀ t, ¬Within (lo t) (top t) a
  free_stackPointer : ∀ a, free a = true → ∀ t, a ≠ stackPointer t

/-- What a context that does not run goes on with. -/
inductive Saved
  /-- by `stackInit(top, func, a1, a2, a3, a4)` -/
  | prepared (func a1 a2 a3 a4 : Word)
  /-- by `stackSwitch`, with the registers before the call and the return address -/
  | called (reg : Reg → Word) (ret : Word)

inductive Ctx (P : Type*)
  | idle
  | ready (w : Saved)
  /-- processor `p` has switched to it and has not come to its code -/
  | entering (p : P) (w : Saved)
  | running (p : P)

/-- Where a processor is. -/
inductive Pos (T : Type*)
  /-- in the code of context `t` -/
  | run (t : T)
  /-- in the post-switch function, on the stack of `t` -/
  | post (t : T)
  /-- at `stackStub`, on the stack of `t` -/
  | stub (t : T)
  deriving DecidableEq

structure State (P T : Type*) where
  mem : Word → Word
  reg : P → Reg → Word
  rip : P → Word
  pos : P → Pos T
  ctx : T → Ctx P

variable {P T : Type*} [DecidableEq P] [DecidableEq T]

def State.core (s : State P T) (p : P) : Core := ⟨s.reg p, s.rip p, s.mem⟩

def State.setCore (s : State P T) (p : P) (c : Core) : State P T :=
  { s with
    mem := c.mem
    reg := Function.update s.reg p c.reg
    rip := Function.update s.rip p c.rip }

/-- The callee-saved registers of the ABI. -/
def calleeSaved : List Reg := [.rbp, .rbx, .r12, .r13, .r14, .r15]

/-- There are `n` bytes below `rsp` in the stack of `t`. -/
def Room (L : Layout T) (t : T) (rsp : Word) (n : ℕ) : Prop :=
  (L.lo t).toNat + n ≤ rsp.toNat ∧ rsp.toNat ≤ (L.top t).toNat

instance (L : Layout T) (t : T) (rsp : Word) (n : ℕ) : Decidable (Room L t rsp n) :=
  inferInstanceAs (Decidable (_ ∧ _))

/-- A processor writes a word. -/
def write (L : Layout T) (p : P) (a v : Word) (s : State P T) : Option (State P T) :=
  match s.pos p with
  | .run t =>
    if Within (L.lo t) (L.top t) a ∨ L.free a = true then
      some { s with mem := Function.update s.mem a v }
    else none
  | .post t =>
    -- only below `rsp`
    if Within (L.lo t) (s.reg p .rsp) a ∨ L.free a = true then
      some { s with mem := Function.update s.mem a v }
    else none
  | .stub _ => none

/-- `stackPointer = stackInit(stackPointer, func, a1, a2, a3, a4)` for the idle context `t`, by the
code of another context -/
def prepare (L : Layout T) (p : P) (t : T) (func a1 a2 a3 a4 ret : Word) (s : State P T) :
    Option (State P T) :=
  match s.pos p, s.ctx t with
  | .run u, .idle =>
    if Room L u (s.reg p .rsp) 8 then
      let c := (s.core p).set
        [(.rdi, L.top t), (.rsi, func), (.rdx, a1), (.rcx, a2), (.r8, a3), (.r9, a4)]
      let c := exec L.stub stackInit (c.call ret)
      some
        { s.setCore p { c with mem := Function.update c.mem (L.stackPointer t) (c.reg .rax) } with
        ctx := Function.update s.ctx t (.ready (.prepared func a1 a2 a3 a4)) }
    else none
  | _, _ => none

/-- `stackSwitch(next, args, &stackPointer of u, stackPointer of t, post)`, called by the code of
`u`, up to the jump to the post-switch function -/
def switch (L : Layout T) (p : P) (t : T) (next args post ret : Word) (s : State P T) :
    Option (State P T) :=
  match s.pos p, s.ctx t with
  | .run u, .ready w =>
    if Room L u (s.reg p .rsp) 56 ∧ ret ≠ L.stub then
      let c := (s.core p).set
        [(.rdi, next), (.rsi, args), (.rdx, L.stackPointer u), (.rcx, s.mem (L.stackPointer t)),
          (.r8, post)]
      let c := exec L.stub stackSwitch (c.call ret)
      some { s.setCore p c with
        pos := Function.update s.pos p (.post t)
        ctx := Function.update (Function.update s.ctx u (.ready (.called (s.reg p) ret))) t
          (.entering p w) }
    else none
  | _, _ => none

/-- The post-switch function returns, with the registers `reg`. -/
def ret (L : Layout T) (p : P) (reg : Reg → Word) (s : State P T) : Option (State P T) :=
  match s.pos p with
  | .post t =>
    if (Reg.rsp :: calleeSaved).all fun r => reg r = s.reg p r then
      let c := exec L.stub [.ret] { s.core p with reg := reg }
      if c.rip = L.stub then some { s.setCore p c with pos := Function.update s.pos p (.stub t) }
      else some { s.setCore p c with
        pos := Function.update s.pos p (.run t)
        ctx := Function.update s.ctx t (.running p) }
    else none
  | _ => none

/-- `stackStub` -/
def stub (L : Layout T) (p : P) (s : State P T) : Option (State P T) :=
  match s.pos p with
  | .stub t => some { s.setCore p (exec L.stub stackStub (s.core p)) with
      pos := Function.update s.pos p (.run t)
      ctx := Function.update s.ctx t (.running p) }
  | _ => none

/-- What can happen next. -/
inductive Action (P T : Type*)
  | write (p : P) (a v : Word)
  /-- the code of a context changes the registers -/
  | regs (p : P) (reg : Reg → Word) (rip : Word)
  | prepare (p : P) (t : T) (func a1 a2 a3 a4 ret : Word)
  | switch (p : P) (t : T) (next args post ret : Word)
  | ret (p : P) (reg : Reg → Word)
  | stub (p : P)
  /-- a context that does not run is given up -/
  | discard (t : T)

def step (L : Layout T) (s : State P T) : Action P T → Option (State P T)
  | .write p a v => write L p a v s
  | .regs p reg rip =>
    match s.pos p with
    | .run _ =>
      some { s with reg := Function.update s.reg p reg, rip := Function.update s.rip p rip }
    | _ => none
  | .prepare p t func a1 a2 a3 a4 ret => prepare L p t func a1 a2 a3 a4 ret s
  | .switch p t next args post ret => switch L p t next args post ret s
  | .ret p reg => ret L p reg s
  | .stub p => stub L p s
  | .discard t =>
    match s.ctx t with
    | .ready _ => some { s with ctx := Function.update s.ctx t .idle }
    | _ => none

/-- Every processor runs the code of a context of its own; the other contexts are idle. -/
structure Initial (s : State P T) : Prop where
  pos : ∀ p, ∃ t, s.pos p = .run t ∧ s.ctx t = .running p
  ctx : ∀ t, s.ctx t = .idle ∨ ∃ p, s.ctx t = .running p

def machine (P : Type*) [DecidableEq P] (L : Layout T) : Machine (State P T) (Action P T) where
  init := Initial
  step := step L

end UThreads.Stack
