import UThreads.Runtime.KThread
import UThreads.Lib.Filed
import UThreads.Lib.Update

/-!
# kThreads and uThreads: places and the invariant

**Places** (`Place`, `State.items`). A uThread can be executing on a kThread, switched out by one,
in a run queue, in a `BlockingQueue`, or held by a kThread that wakes it. From the pop to the stack
switch both the old and the new uThread belong to the kThread and count as executing on it; from
the stack switch on the old one is switched out, until it is in a queue or destroyed.

**The invariant** (`Inv`). Started uThreads are filed in the places (`Filed`). The record of a
uThread agrees with its place (`Content`), and with the position of the kThread that executes it
or switches it out (`Fits`). Home kThreads belong to the clusters of their uThreads (`World`). A
kThread that has yet to release a mutex for the uThread it switches out finds that uThread in
`owner`, and so does one that has yet to resume through `owner` (`Claims`).

At the end, the two kinds of steps: those that move one uThread (`Inv.transfer`, `Inv.move`), and
those that move none (`Inv.stay`).
-/

namespace UThreads.Runtime

variable {K U C M B : Type*}

/-! ## Places -/

inductive Place (K M B : Type*)
  | executing (k : K)
  | switchingOut (k : K)
  | runQueue (k : K)
  | blockingQueue (q : Queue M B)
  | waker (k : K)

namespace KThread

variable (t : KThread U C M B)

/-- The uThreads that are on this kThread. -/
def executing : List U :=
  match t.pos with
  | .absent => []
  | .run | .pop _ => t.currentUT.toList
  | .stackSwitch next _ => t.currentUT.toList ++ [next]
  | .postSwitch next _ | .unlock next _ | .finish next => [next]

/-- The uThread that `postSwitchFunc` has yet to deal with. -/
def switchingOut : List U :=
  match t.pos with
  | .postSwitch _ _ => t.currentUT.toList
  | _ => []

/-- The uThread that the last lines of `postSwitchFunc` make the current one. -/
def next : Option U :=
  match t.pos with
  | .stackSwitch next _ | .postSwitch next _ | .unlock next _ | .finish next => some next
  | .absent | .run | .pop _ => none

/-- The current uThread, when the queue it blocks on comes with a mutex. -/
def claimFor : Option (Queue M B) → Option (U × B)
  | some (.client b) => t.currentUT.map (·, b)
  | some (.mutex _) | none => none

/-- The uThread for which a mutex is still to be released, and the queue it blocks on. -/
def claim : Option (U × B) :=
  match t.pos with
  | .pop args | .stackSwitch _ args | .postSwitch _ args => t.claimFor args
  | .unlock _ q => t.claimFor (some q)
  | .absent | .run | .finish _ => none

/-- Where the uThread of `claim` is. -/
def claimPlace (k : K) : Place K M B :=
  match t.pos with
  | .postSwitch _ _ => .switchingOut k
  | .unlock _ q => .blockingQueue q
  | _ => .executing k

/-- What the world outside sees of a kThread: does it exist, its cluster, its `mainUT`. -/
def core : Bool × Option C × Option U :=
  match t.pos with
  | .absent => (false, t.localCluster, t.mainUT)
  | _ => (true, t.localCluster, t.mainUT)

variable {t}

theorem claimFor_eq {args : Option (Queue M B)} {u : U} {b : B} :
    t.claimFor args = some (u, b) ↔ args = some (.client b) ∧ t.currentUT = some u := by
  rcases args with _ | (m | c)
  · simp [claimFor]
  · simp [claimFor]
  · simp [claimFor, and_comm]

end KThread

/-- What the world outside sees of a uThread; its state only before it is started. -/
def UThread.core (x : UThread K C) : Life K × Option K × Option C × Option UState :=
  match x.life with
  | .created => (.created, x.homekThread, x.currentCluster, some x.state)
  | l => (l, x.homekThread, x.currentCluster, none)

namespace State

variable (s : State K U C M B)

def items : Place K M B → List U
  | .executing k => (s.kt k).executing
  | .switchingOut k => (s.kt k).switchingOut
  | .runQueue k => s.runQueue k
  | .blockingQueue q => s.bq q
  | .waker k => (s.hands k).map Held.ut

/-- Started and not yet destroyed. -/
def Started (u : U) : Prop := (s.ut u).life = .started

end State

/-! ## The invariant -/

/-- What the place of a uThread says about its record. -/
def Content (ut : U → UThread K C) : Place K M B → U → Prop
  | .executing _, _ | .switchingOut _, _ => True
  | .runQueue k, u => (ut u).life = .started ∧ (ut u).saved = true ∧ (ut u).homekThread = some k
  | .blockingQueue _, u | .waker _, u =>
    (ut u).life = .started ∧ (ut u).saved = true ∧ (ut u).state = .waiting

/-- `u` runs on `k`: it is the `mainUT`, or at home there. -/
def Runs (ut : U → UThread K C) (k : K) (t : KThread U C M B) (u : U) : Prop :=
  t.mainUT = some u ∨ (ut u).life = .started ∧ (ut u).homekThread = some k

/-- `u` has called `switchContext(args)` on `k`. -/
def Leaves (ut : U → UThread K C) (k : K) (u : U) (args : Option (Queue M B)) : Prop :=
  (ut u).life = .started ∧
    match (ut u).state with
    | .yield => (ut u).homekThread = some k ∧ args = none
    | .migrate | .terminated => args = none
    | .waiting => ∃ q, args = some q
    | .initialized | .ready | .running => False

/-- The position of a kThread, and the records of the uThreads it executes or switches out. -/
def Fits (ut : U → UThread K C) (k : K) (t : KThread U C M B) : Prop :=
  match t.pos with
  | .absent => True
  | .run => ∃ u, t.currentUT = some u ∧ Runs ut k t u
  | .pop args => ∃ u, t.currentUT = some u ∧ Leaves ut k u args
  | .stackSwitch next args =>
    Runs ut k t next ∧ ∃ u, t.currentUT = some u ∧ (t.mainUT = some u ∨ Leaves ut k u args)
  | .postSwitch next args =>
    Runs ut k t next ∧ ∃ u, t.currentUT = some u ∧
      (t.mainUT = some u ∨ Leaves ut k u args ∧ (ut u).saved = true)
  | .unlock next _ | .finish next => Runs ut k t next

/-- kThreads and their clusters, uThreads and their homes. -/
structure World (s : State K U C M B) : Prop where
  homed : ∀ u, (s.ut u).life = .started → ∃ k c, (s.ut u).homekThread = some k ∧
    (s.ut u).currentCluster = some c ∧ k ∈ (s.cluster c).ktVector
  created : ∀ u, (s.ut u).life = .created →
    (s.ut u).state = .initialized ∧ (s.ut u).homekThread = none
  members : ∀ c k, k ∈ (s.cluster c).ktVector →
    (s.kt k).localCluster = some c ∧ (s.kt k).pos ≠ .absent
  mains : ∀ k m, (s.kt k).mainUT = some m → (s.ut m).life = .mainUT k

/-- What is still to be done with the owner of a mutex. -/
structure Claims (mutexOf : B → M) (s : State K U C M B) : Prop where
  claimed : ∀ k u b, (s.kt k).claim = some (u, b) →
    s.owner (mutexOf b) = some u ∧ s.Started u ∧ u ∈ s.items ((s.kt k).claimPlace k)
  alone : ∀ j k u b b', (s.kt j).claim = some (u, b) → (s.kt k).claim = some (u, b') → j = k
  via : ∀ k, ∀ h ∈ s.hands k, ∀ m, h.via = some m → s.owner m = some h.ut

structure Inv (mutexOf : B → M) (s : State K U C M B) : Prop where
  filed : Filed s.items s.Started
  content : ∀ p, ∀ u ∈ s.items p, Content s.ut p u
  fits : ∀ k, Fits s.ut k (s.kt k)
  world : World s
  claims : Claims mutexOf s

/-! ## Frames -/

section Frames

variable {mutexOf : B → M} {s s' : State K U C M B} {k : K} {u w : U}

theorem Content.congr {ut ut' : U → UThread K C} {p : Place K M B} (h : Content ut p u)
    (hu : ut' u = ut u) : Content ut' p u := by
  cases p <;> simp_all [Content]

theorem Runs.congr {ut ut' : U → UThread K C} {t : KThread U C M B} (h : Runs ut k t u)
    (hl : (ut' u).life = (ut u).life) (hh : (ut' u).homekThread = (ut u).homekThread) :
    Runs ut' k t u := by
  simpa only [Runs, hl, hh] using h

theorem Leaves.congr {ut ut' : U → UThread K C} {args : Option (Queue M B)}
    (h : Leaves ut k u args) (hl : (ut' u).life = (ut u).life)
    (hh : (ut' u).homekThread = (ut u).homekThread) (hst : (ut' u).state = (ut u).state) :
    Leaves ut' k u args := by
  simpa only [Leaves, hl, hh, hst] using h

/-- A kThread sees the records of the uThreads that are on it, and no others. -/
theorem Fits.congr {ut ut' : U → UThread K C} {t : KThread U C M B} (h : Fits ut k t)
    (hu : ∀ u, u ∈ t.executing ∨ u ∈ t.switchingOut → ut' u = ut u) : Fits ut' k t := by
  have hruns : ∀ u, u ∈ t.executing → Runs ut k t u → Runs ut' k t u := by
    intro u hmem hr
    have he := hu u (.inl hmem)
    exact hr.congr (by rw [he]) (by rw [he])
  have hleaves : ∀ u (args : Option (Queue M B)), u ∈ t.executing ∨ u ∈ t.switchingOut →
      Leaves ut k u args → Leaves ut' k u args := by
    intro u args hmem hl
    have he := hu u hmem
    exact hl.congr (by rw [he]) (by rw [he]) (by rw [he])
  unfold Fits KThread.executing KThread.switchingOut at *
  cases hpos : t.pos <;> simp only [hpos] at h hu hruns hleaves ⊢
  case run =>
    obtain ⟨u, hc, hr⟩ := h
    exact ⟨u, hc, hruns u (by simp_all) hr⟩
  case pop args =>
    obtain ⟨u, hc, hl⟩ := h
    exact ⟨u, hc, hleaves u _ (by simp_all) hl⟩
  case stackSwitch next args =>
    obtain ⟨hr, u, hc, hl⟩ := h
    refine ⟨hruns next (by simp_all) hr, u, hc, hl.imp_right fun hl => ?_⟩
    exact hleaves u args (by simp_all) hl
  case postSwitch next args =>
    obtain ⟨hr, u, hc, hl⟩ := h
    refine ⟨hruns next (by simp_all) hr, u, hc, hl.imp_right fun hl => ?_⟩
    have hmem : u ∈ [next] ∨ u ∈ t.currentUT.toList := by simp [hc]
    exact ⟨hleaves u args hmem hl.1, by rw [hu u hmem]; exact hl.2⟩
  case unlock next q => exact hruns next (by simp_all) h
  case finish next => exact hruns next (by simp_all) h

theorem UThread.of_core {x y : UThread K C} (h : x.core = y.core) :
    x.life = y.life ∧ x.homekThread = y.homekThread ∧ x.currentCluster = y.currentCluster ∧
      (y.life = .created → x.state = y.state) := by
  unfold UThread.core at h
  split at h <;> split at h <;> simp_all

theorem KThread.of_core {x y : KThread U C M B} (h : x.core = y.core) :
    (x.pos = .absent ↔ y.pos = .absent) ∧ x.localCluster = y.localCluster ∧
    x.mainUT = y.mainUT := by
  unfold KThread.core at h
  split at h <;> split at h <;> simp_all

theorem started_congr (hu : ∀ u, (s'.ut u).core = (s.ut u).core) : s'.Started = s.Started := by
  funext u
  rw [State.Started, State.Started, (UThread.of_core (hu u)).1]

theorem World.congr (h : World s) (hu : ∀ u, (s'.ut u).core = (s.ut u).core)
    (hk : ∀ k, (s'.kt k).core = (s.kt k).core)
    (hc : ∀ c, (s'.cluster c).ktVector = (s.cluster c).ktVector) : World s' where
  homed := fun u hl => by
    obtain ⟨hlife, hhome, hcluster, -⟩ := UThread.of_core (hu u)
    obtain ⟨k, c, hold⟩ := h.homed u (hlife ▸ hl)
    exact ⟨k, c, by rw [hhome, hcluster, hc c]; exact hold⟩
  created := fun u hl => by
    obtain ⟨hlife, hhome, -, hstate⟩ := UThread.of_core (hu u)
    rw [hlife] at hl
    rw [hstate hl, hhome]
    exact h.created u hl
  members := fun c k hm => by
    obtain ⟨hpos, hcluster, -⟩ := KThread.of_core (hk k)
    rw [hcluster, ne_eq, hpos]
    exact h.members c k (hc c ▸ hm)
  mains := fun k m hm => by
    rw [(UThread.of_core (hu m)).1]
    exact h.mains k m ((KThread.of_core (hk k)).2.2 ▸ hm)

/-- A uThread other than a `mainUT` gets another record. -/
theorem World.update (h : World s) (hut : ∀ u, u ≠ w → s'.ut u = s.ut u)
    (hk : ∀ k, (s'.kt k).core = (s.kt k).core)
    (hc : ∀ c, (s'.cluster c).ktVector = (s.cluster c).ktVector)
    (hmain : ∀ k, (s.ut w).life ≠ .mainUT k)
    (hhomed : (s'.ut w).life = .started → ∃ k c, (s'.ut w).homekThread = some k ∧
      (s'.ut w).currentCluster = some c ∧ k ∈ (s.cluster c).ktVector)
    (hcreated : (s'.ut w).life = .created →
      (s'.ut w).state = .initialized ∧ (s'.ut w).homekThread = none) : World s' where
  homed := fun u hl => by
    by_cases hu : u = w
    · subst hu
      simpa only [hc] using hhomed hl
    · simp only [hut u hu, hc] at hl ⊢
      exact h.homed u hl
  created := fun u hl => by
    by_cases hu : u = w
    · subst hu
      exact hcreated hl
    · rw [hut u hu] at hl ⊢
      exact h.created u hl
  members := fun c k hm => by
    obtain ⟨hpos, hcluster, -⟩ := KThread.of_core (hk k)
    rw [hcluster, ne_eq, hpos]
    exact h.members c k (hc c ▸ hm)
  mains := fun k m hm => by
    have hold : (s.ut m).life = .mainUT k := h.mains k m ((KThread.of_core (hk k)).2.2 ▸ hm)
    have hne : m ≠ w := fun he => hmain k (he ▸ hold)
    rw [hut m hne]
    exact hold

/-- A step of `k` that leaves the owners alone. A claim of `k` is an old one, or on a uThread that
nobody claims. -/
theorem Claims.step (h : Claims mutexOf s) (howner : s'.owner = s.owner)
    (hhands : ∀ j, ∀ x ∈ s'.hands j,
      x ∈ s.hands j ∨ ∀ m, x.via = some m → s.owner m = some x.ut)
    (hkt : ∀ j, j ≠ k → s'.kt j = s.kt j)
    (hothers : ∀ j, j ≠ k → ∀ u b, (s.kt j).claim = some (u, b) →
      s'.Started u ∧ u ∈ s'.items ((s.kt j).claimPlace j))
    (hk : ∀ u b, (s'.kt k).claim = some (u, b) →
      s'.Started u ∧ u ∈ s'.items ((s'.kt k).claimPlace k) ∧
      ((s.kt k).claim = some (u, b) ∨
        s.owner (mutexOf b) = some u ∧ ∀ j b', (s.kt j).claim ≠ some (u, b'))) :
    Claims mutexOf s' := by
  have hold : ∀ j, j ≠ k → ∀ u b, (s'.kt j).claim = some (u, b) → (s.kt j).claim = some (u, b) := by
    intro j hj u b hu
    rwa [hkt j hj] at hu
  -- two kThreads with a claim on one uThread, one of them `k`
  have hne : ∀ j, j ≠ k → ∀ u b b', (s'.kt j).claim = some (u, b) →
      (s'.kt k).claim ≠ some (u, b') := by
    intro j hj u b b' hu hu'
    rcases (hk u b' hu').2.2 with hc | ⟨-, hfree⟩
    · exact hj (h.alone j k u b b' (hold j hj u b hu) hc)
    · exact hfree j b (hold j hj u b hu)
  refine ⟨fun j u b hu => ?_, fun i j u b b' hi hj => ?_, fun j x hx m hm => ?_⟩
  · rw [howner]
    by_cases hj : j = k
    · subst hj
      obtain ⟨hstarted, hmem, hc⟩ := hk u b hu
      exact ⟨hc.elim (fun hc => (h.claimed j u b hc).1) And.left, hstarted, hmem⟩
    · have hc := hold j hj u b hu
      rw [hkt j hj]
      exact ⟨(h.claimed j u b hc).1, hothers j hj u b hc⟩
  · by_cases hik : i = k
    · subst hik
      by_contra hne'
      exact hne j (Ne.symm hne') u b' b hj hi
    · by_cases hjk : j = k
      · subst hjk
        exact absurd hj (hne i hik u b b' hi)
      · exact h.alone i j u b b' (hold i hik u b hi) (hold j hjk u b' hj)
  · rw [howner]
    rcases hhands j x hx with hx | hx
    · exact h.via j x hx m hm
    · exact hx m hm

/-- The owner of a mutex that nobody has yet to release or to resume through. -/
theorem Claims.setOwner [DecidableEq M] (h : Claims mutexOf s) (m : M) (o : Option U)
    (hclaim : ∀ j u b, (s.kt j).claim = some (u, b) → mutexOf b ≠ m)
    (hvia : ∀ j, ∀ x ∈ s.hands j, x.via ≠ some m) :
    Claims mutexOf { s with owner := Function.update s.owner m o } where
  claimed := fun j u b hc => by
    obtain ⟨howner, hstarted, hmem⟩ := h.claimed j u b hc
    exact ⟨(Function.update_of_ne (hclaim j u b hc) ..).trans howner, hstarted, hmem⟩
  alone := h.alone
  via := fun j x hx m' hm => by
    have hne : m' ≠ m := fun he => hvia j x hx (he ▸ hm)
    exact (Function.update_of_ne hne ..).trans (h.via j x hx m' hm)

/-- The uThread of a claim is on its kThread, or already in its queue. -/
theorem KThread.claimPlace_eq {t : KThread U C M B} {b : B} (hc : t.claim = some (u, b)) :
    t.claimPlace k = .executing k ∨ t.claimPlace k = .switchingOut k ∨
      t.claimPlace k = (.blockingQueue (.client b) : Place K M B) := by
  unfold KThread.claim at hc
  unfold KThread.claimPlace
  cases hpos : t.pos <;> simp_all [KThread.claimFor_eq]

end Frames

/-! ## What is where -/

section Where

variable {mutexOf : B → M} {s s' : State K U C M B} {j k : K} {u w : U} {p q : Place K M B}

/-- Is this a place on kThread `k`? -/
def Place.On (p : Place K M B) (k : K) : Prop := p = .executing k ∨ p = .switchingOut k

theorem Place.On.unique (hj : p.On j) (hk : p.On k) : j = k := by
  rcases hj with rfl | rfl <;> rcases hk with hk | hk <;> cases hk <;> rfl

theorem Fits.main_or_started {ut : U → UThread K C} {t : KThread U C M B} (h : Fits ut k t)
    (hu : u ∈ t.executing ∨ u ∈ t.switchingOut) :
    t.mainUT = some u ∨ (ut u).life = .started := by
  unfold Fits KThread.executing KThread.switchingOut at *
  cases hpos : t.pos <;>
    simp only [hpos, Option.mem_toList, List.mem_append, List.mem_singleton,
      List.not_mem_nil, or_false, Runs, Leaves] at h hu
  all_goals grind

theorem Fits.runs_next {ut : U → UThread K C} {t : KThread U C M B} (h : Fits ut k t)
    (hn : t.next = some u) : Runs ut k t u := by
  unfold Fits KThread.next at *
  cases hpos : t.pos <;> simp only [hpos] at h hn <;> cases hn
  · exact h.1
  · exact h.1
  · exact h
  · exact h

namespace Inv

variable (h : Inv mutexOf s)
include h

theorem life_of_on (hp : p.On k) (hu : u ∈ s.items p) :
    (s.ut u).life = .mainUT k ∨ (s.ut u).life = .started := by
  have hon : u ∈ (s.kt k).executing ∨ u ∈ (s.kt k).switchingOut := by
    rcases hp with rfl | rfl
    · exact .inl hu
    · exact .inr hu
  exact ((h.fits k).main_or_started hon).imp_left (h.world.mains k u)

/-- A uThread is on one kThread only. -/
theorem on_unique (hp : p.On j) (hq : q.On k) (hup : u ∈ s.items p) (huq : u ∈ s.items q) :
    j = k := by
  rcases h.life_of_on hp hup with hl | hl
  · rcases h.life_of_on hq huq with hl' | hl' <;> rw [hl] at hl' <;> cases hl'
    rfl
  · have hpq : p = q := h.filed.unique hl hup huq
    subst hpq
    exact hp.unique hq

/-- Kept by a kThread when the record of a uThread changes that is not on it. -/
theorem fits_congr (hkt : s'.kt j = s.kt j) (hut : ∀ u, u ≠ w → s'.ut u = s.ut u)
    (hw : ∀ p : Place K M B, p.On j → w ∉ s.items p) : Fits s'.ut j (s'.kt j) := by
  rw [hkt]
  refine (h.fits j).congr fun u hu => hut u fun he => ?_
  subst he
  rcases hu with hu | hu
  · exact hw (.executing j) (.inl rfl) hu
  · exact hw (.switchingOut j) (.inr rfl) hu

theorem content_congr (hut : ∀ u, u ≠ w → s'.ut u = s.ut u) (hp : p.On k) (hw : w ∈ s.items p)
    (hu : u ∈ s.items q) : Content s'.ut q u := by
  by_cases he : u = w
  · subst he
    have hold := h.content q u hu
    cases q with
    | executing | switchingOut => trivial
    | runQueue | blockingQueue | waker =>
      exact absurd (h.filed.unique hold.1 hw hu) (by rcases hp with rfl | rfl <;> simp)
  · exact (h.content q u hu).congr (hut u he)

/-- Only the uThreads of a semaphore or condition variable can be claimed elsewhere. -/
theorem not_claimed (hw : s.Started w) (hp : w ∈ s.items p) (hon : ¬p.On j)
    (hclient : ∀ b, p ≠ .blockingQueue (.client b)) (b : B) : (s.kt j).claim ≠ some (w, b) := by
  intro hc
  have hplace := h.filed.unique hw hp (h.claims.claimed j w b hc).2.2
  rcases KThread.claimPlace_eq (k := j) hc with he | he | he <;> rw [he] at hplace
  · exact hon (.inl hplace)
  · exact hon (.inr hplace)
  · exact hclient b hplace

end Inv

/-! ## The two kinds of steps -/

/-- A uThread moves, and at most the kThread `k` changes its position. -/
theorem Inv.transfer (h : Inv mutexOf s) (hw : s.Started w) (ht : Transfer s.items s'.items w p q)
    (hon : ∀ j, p.On j → j = k) (hut : ∀ u, u ≠ w → s'.ut u = s.ut u)
    (hcore : (s'.ut w).core = (s.ut w).core) (hkt : ∀ j, j ≠ k → s'.kt j = s.kt j)
    (hkcore : (s'.kt k).core = (s.kt k).core) (hcluster : s'.cluster = s.cluster)
    (hcontent : Content s'.ut q w) (hfits : Fits s'.ut k (s'.kt k))
    (hclaims : Claims mutexOf s') : Inv mutexOf s' := by
  have hucore : ∀ u, (s'.ut u).core = (s.ut u).core := by
    intro u
    by_cases hu : u = w
    · rw [hu, hcore]
    · rw [hut u hu]
  have hktcore : ∀ j, (s'.kt j).core = (s.kt j).core := by
    intro j
    by_cases hj : j = k
    · rw [hj, hkcore]
    · rw [hkt j hj]
  refine ⟨?_, fun r u hu => ?_, fun j => ?_, ?_, hclaims⟩
  · rw [started_congr hucore]
    exact ht.filed h.filed hw
  · by_cases huw : u = w
    · subst huw
      rw [ht.eq_of_mem h.filed hw hu]
      exact hcontent
    · exact (h.content r u ((ht.mem_iff_of_ne huw).mp hu)).congr (hut u huw)
  · by_cases hj : j = k
    · subst hj
      exact hfits
    · refine h.fits_congr (hkt j hj) hut fun r hr hwr => hj (hon j ?_)
      rw [h.filed.unique hw ht.mem hwr]
      exact hr
  · exact h.world.congr hucore hktcore fun c => by rw [hcluster]

/-- **A uThread moves**, and the owners stay. -/
theorem Inv.move (h : Inv mutexOf s) (hw : s.Started w) (ht : Transfer s.items s'.items w p q)
    (hon : ∀ j, p.On j → j = k) (hut : ∀ u, u ≠ w → s'.ut u = s.ut u)
    (hcore : (s'.ut w).core = (s.ut w).core) (hkt : ∀ j, j ≠ k → s'.kt j = s.kt j)
    (hkcore : (s'.kt k).core = (s.kt k).core) (hcluster : s'.cluster = s.cluster)
    (hcontent : Content s'.ut q w) (hfits : Fits s'.ut k (s'.kt k)) (howner : s'.owner = s.owner)
    (hhands : ∀ j, ∀ x ∈ s'.hands j,
      x ∈ s.hands j ∨ ∀ m, x.via = some m → s.owner m = some x.ut)
    (hfree : ∀ j, j ≠ k → ∀ b, (s.kt j).claim ≠ some (w, b))
    (hclaim : ∀ u b, (s'.kt k).claim = some (u, b) → (s.kt k).claim = some (u, b) ∧
      u ∈ s'.items ((s'.kt k).claimPlace k)) : Inv mutexOf s' := by
  have hstarted : ∀ u, s.Started u → s'.Started u := by
    intro u hu
    by_cases huw : u = w
    · rw [State.Started, huw, (UThread.of_core hcore).1]
      exact hw
    · rw [State.Started, hut u huw]
      exact hu
  refine h.transfer hw ht hon hut hcore hkt hkcore hcluster hcontent hfits ?_
  refine h.claims.step howner hhands hkt (fun j hj u b hc => ?_) fun u b hc => ?_
  · obtain ⟨-, hu, hmem⟩ := h.claims.claimed j u b hc
    have huw : u ≠ w := fun he => hfree j hj b (he ▸ hc)
    exact ⟨hstarted u hu, (ht.mem_iff_of_ne huw).mpr hmem⟩
  · obtain ⟨hold, hmem⟩ := hclaim u b hc
    exact ⟨hstarted u (h.claims.claimed k u b hold).2.1, hmem, .inl hold⟩

/-- **A uThread moves** from a queue or a waker, and no kThread changes its position. -/
theorem Inv.hand (h : Inv mutexOf s) (k : K) (hw : s.Started w)
    (ht : Transfer s.items s'.items w p q) (hon : ∀ j, ¬p.On j)
    (hut : ∀ u, u ≠ w → s'.ut u = s.ut u) (hcore : (s'.ut w).core = (s.ut w).core)
    (hkt : s'.kt = s.kt) (hcluster : s'.cluster = s.cluster) (hcontent : Content s'.ut q w)
    (howner : s'.owner = s.owner)
    (hhands : ∀ j, ∀ x ∈ s'.hands j,
      x ∈ s.hands j ∨ ∀ m, x.via = some m → s.owner m = some x.ut)
    (hfree : ∀ j b, (s.kt j).claim ≠ some (w, b)) : Inv mutexOf s' := by
  refine h.move (k := k) hw ht (fun j hj => absurd hj (hon j)) hut hcore (fun j _ => by rw [hkt])
    (by rw [hkt]) hcluster hcontent ?_ howner hhands (fun j _ => hfree j) fun u b hc => ?_
  · refine h.fits_congr (by rw [hkt]) hut fun r hr hwr => hon k ?_
    rw [h.filed.unique hw ht.mem hwr]
    exact hr
  · rw [hkt] at hc ⊢
    have huw : u ≠ w := fun he => hfree k b (he ▸ hc)
    exact ⟨hc, (ht.mem_iff_of_ne huw).mpr (h.claims.claimed k u b hc).2.2⟩

/-- The places that are not on `k`, when only `k` does something. -/
theorem State.items_congr (hkt : ∀ j, j ≠ k → s'.kt j = s.kt j) (hrun : s'.runQueue = s.runQueue)
    (hbq : s'.bq = s.bq) (hhands : s'.hands = s.hands) (hp : ¬p.On k) : s'.items p = s.items p := by
  cases p with
  | executing j => simp only [State.items, hkt j fun he => hp (.inl (by rw [he]))]
  | switchingOut j => simp only [State.items, hkt j fun he => hp (.inr (by rw [he]))]
  | runQueue j => simp only [State.items, hrun]
  | blockingQueue b => simp only [State.items, hbq]
  | waker j => simp only [State.items, hhands]

/-- **No uThread moves**: kThread `k` changes its position, and the record of a uThread `w` that is
on `k`. -/
theorem Inv.stay (h : Inv mutexOf s) (hp : p.On k) (hw : w ∈ s.items p)
    (hut : ∀ u, u ≠ w → s'.ut u = s.ut u) (hlife : (s'.ut w).life = (s.ut w).life)
    (hkt : ∀ j, j ≠ k → s'.kt j = s.kt j) (hitems : ∀ r, ¬r.On k → s'.items r = s.items r)
    (hmem : ∀ r, r.On k → ∀ u, s.Started u → (u ∈ s'.items r ↔ u ∈ s.items r))
    (hnodup : ∀ r, r.On k → (s'.items r).Nodup)
    (hworld : World s') (hfits : Fits s'.ut k (s'.kt k)) (howner : s'.owner = s.owner)
    (hhands : s'.hands = s.hands)
    (hclaim : ∀ u b, (s'.kt k).claim = some (u, b) →
      s.Started u ∧ u ∈ s'.items ((s'.kt k).claimPlace k) ∧
      ((s.kt k).claim = some (u, b) ∨
        s.owner (mutexOf b) = some u ∧ ∀ j b', (s.kt j).claim ≠ some (u, b'))) :
    Inv mutexOf s' := by
  have hstarted : s'.Started = s.Started := by
    funext u
    by_cases hu : u = w
    · rw [State.Started, State.Started, hu, hlife]
    · rw [State.Started, State.Started, hut u hu]
  refine ⟨?_, fun r u hu => ?_, fun j => ?_, hworld, ?_⟩
  · rw [hstarted]
    refine h.filed.congr (fun u hu r => ?_) fun r => ?_
    · by_cases hr : r.On k
      · exact hmem r hr u hu
      · rw [hitems r hr]
    · by_cases hr : r.On k
      · exact hnodup r hr
      · rw [hitems r hr]
        exact h.filed.nodup r
  · by_cases hr : r.On k
    · rcases hr with rfl | rfl <;> trivial
    · rw [hitems r hr] at hu
      exact h.content_congr hut hp hw hu
  · by_cases hj : j = k
    · subst hj
      exact hfits
    · exact h.fits_congr (hkt j hj) hut fun r hr hwr => hj (h.on_unique hr hp hwr hw)
  · refine h.claims.step howner (fun j x hx => .inl (hhands ▸ hx)) hkt (fun j hj u b hc => ?_) ?_
    · obtain ⟨-, hu, hmem⟩ := h.claims.claimed j u b hc
      rw [hstarted, hitems]
      · exact ⟨hu, hmem⟩
      · intro hon
        rcases KThread.claimPlace_eq (k := j) hc with he | he | he <;> rw [he] at hon
        · exact hj (Place.On.unique (.inl rfl) hon)
        · exact hj (Place.On.unique (.inr rfl) hon)
        · rcases hon with hon | hon <;> cases hon
    · rw [hstarted]
      exact hclaim

end Where

end UThreads.Runtime
