import UThreads.Runtime.HandoverRep
import UThreads.Runtime.HandoverRun

/-!
# How uThreads are handed over: clean links

**Theorem (`links_clean`).** In every run without user calls of `resume()`, of either scheduler and
with any number of clusters, kThreads, uThreads, blocking queues and poll slots: the links of a
uThread that is in no container, and not in the chain between a bulk queue and a run queue, are
null, and the assertions hold at every call.

The run on the links is matched by one on lists (`links_lists`), step by step. The invariant of the
latter says where every uThread is and what the counters count, and gives the precondition of every
call (`plan_pre`).

The theorem needs that `bulkCounter` of a new `ClusterVar` is 0 in `Scheduler_01`. Nothing
initialises it (`links_unclean`).
-/

namespace UThreads.Handover

variable {U K C B D : Type*} [DecidableEq U] [DecidableEq K] [DecidableEq C] [DecidableEq B]
  [DecidableEq D]

variable {cfg : Config K C} {s s' : Ctl U K C B D} {l : Lists U K C B} {u : U} {k home : K}
  {p : Loc K C B D} {q : Queue K C} {x : Call U K C B D}

/-! ## The precondition of every call -/

omit [DecidableEq U] [DecidableEq K] [DecidableEq C] [DecidableEq B] [DecidableEq D] in
theorem Inv.free (h : Inv False True cfg s l) (hp : At s l u p) (hpx : ∀ x, p ≠ .cont x)
    (x : Cont K C B) : u ∉ l x :=
  fun hx => hpx x (h.eq_of_at hp (q := .cont x) hx)

/-- Does a user call `resume()`? -/
def Action.calls : Action U K C B D → Bool
  | .resume _ _ => true
  | _ => false

/-- Is the memory of a new `bulkCounter` 0? -/
def Action.zeroed (cfg : Config K C) : Action U K C B D → Bool
  | .newCluster _ n => decide (cfg.sched = .one → n = 0)
  | _ => true

variable {σ : Type*} {t : Ctl U K C B D × σ} {a : Action U K C B D}

/-- No user calls `resume()`. -/
def Uncalled (_ : Ctl U K C B D × σ) (a : Action U K C B D) : Prop := a.calls = false

/-- Besides, the memory of a new `bulkCounter` is 0. -/
def Zeroed (cfg : Config K C) (t : Ctl U K C B D × σ) (a : Action U K C B D) : Prop :=
  Uncalled t a ∧ a.zeroed cfg = true

instance : Decidable (Uncalled t a) := inferInstanceAs (Decidable (_ = _))

instance : Decidable (Zeroed cfg t a) := inferInstanceAs (Decidable (_ ∧ _))

omit [DecidableEq U] [DecidableEq K] [DecidableEq C] [DecidableEq B] [DecidableEq D] in
theorem Uncalled.ne_resume (h : Uncalled t a) (u : U) (home : K) : a ≠ .resume u home := by
  rintro rfl
  cases h

omit [DecidableEq U] [DecidableEq K] [DecidableEq C] [DecidableEq B] [DecidableEq D] in
theorem Zeroed.allowed (h : Zeroed cfg t a) : Allowed False True cfg (t.1, l) a := by
  cases a with
  | newCluster c n => exact fun _ => of_decide_eq_true h.2
  | resume u home => exact absurd rfl (h.1.ne_resume u home)
  | switch k home choice => exact False.elim
  | bulkPush j => exact False.elim
  | pushChain => exact not_false
  | _ => trivial

omit [DecidableEq C] in
theorem rep_initial : Rep (Store.empty : Store U K C B) fun _ => [] := by
  refine ⟨fun
    | .runQueue k => [.stub k]
    | .bq b => [.anchor b]
    | .queue _ | .cache
    | .chain => [], ⟨fun x => framed_holds _ x, fun x => ?_, ?_, fun z hz => ?_⟩, fun x => ?_⟩
  · cases x with
    | runQueue k => exact ⟨MPSCQueue.holds_new rfl, by simp [NoPrev, Store.empty]⟩
    | queue q => exact ⟨IntrusiveQueue.holds_new, by simp [NoPrev]⟩
    | bq b => exact ⟨[], rfl, LinkRing.nil rfl rfl⟩
    | cache => exact ⟨IntrusiveStack.holds_new, by simp [NoPrev]⟩
    | chain => exact ⟨rfl, by simp [NoPrev]⟩
  · intro z x y hx hy
    cases x <;> cases y <;> simp_all
  · cases z with
    | ut u => rfl
    | stub k => rfl
    | anchor b => simpa using hz (.bq b)
  · cases x with
    | runQueue k => exact MPSCQueue.elements_cons_stub List.not_mem_nil
    | queue | bq | cache | chain => rfl

def one (sched : Scheduler) : Config Unit Unit := ⟨sched, fun _ => (), 1000⟩

/-- `initUT` waits on a blocking queue. -/
def parked : List (Action Unit Unit Unit Unit Unit) :=
  [.newCluster () 0, .defaultKT () (), .wait () (), .switch () () true, .switch () () true]

/-- Two clusters with a kThread each, and `Scheduler_01`. -/
def two : Config Bool Bool := ⟨.one, id, 1000⟩

/-- The memory of `bulkCounter` in the second cluster is 5. `initUT` waits at a poll slot of the
first one; the poller takes it from there and calls `bulkPush`, which has pushed the first
cluster. -/
def pushed : List (Action Unit Bool Bool Unit Unit) :=
  List.flatten [[.newCluster false 0, .newCluster true 5, .defaultKT false (), .newkThread true,
    .block false ()], List.replicate 4 (.switch false false true),
    [.poll, .unblock (), .prepareBulkPush, .bulkPush (.cluster false)]]

end UThreads.Handover
