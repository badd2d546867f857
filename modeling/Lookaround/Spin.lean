import Lookaround.Library.Interleave
import Lookaround.Runs

/-!
# The lock

`setdataloc` guards its critical sections with `ngx_spinlock` and a store of 0. Here a worker takes single steps: the tests
of the lock word, the pauses between them, the exchange, and inside a section the put into the id map, each counter, each
child that is made and the linking of the item. The steps of the workers are interleaved, and each is atomic.

* `SpinPc`, `spinStep` : the loops of `ngx_spinlock` (`ngx_spinlock.c`);
* `OutStep` : the steps of `setdataloc` outside the lock;
* `Stage`, `micro` : the steps of the two sections, down to the rounds of `create_child_mapnode`;
* `SpinMoves` : the steps of a call;
* `spin_mutex` : in every run the lock word says whether a worker is in a section, no two are, and a worker that waits for
  a free lock gets it.
-/

namespace Lookaround

open NlaCoreData Library

/-! ## `ngx_spinlock` -/

/-- Where a worker is in `ngx_spinlock`: `n` is the number of pauses before the attempt, 0 at the head of the loop. -/
inductive SpinPc where
  | load (n : Nat)
  | cas (n : Nat)
  | pause (n i : Nat)
  | yield

/-- `NLA_DEF_LOCK_SPIN`. -/
def defLockSpin : Nat := 100

/-- After an attempt that failed. -/
def SpinPc.retry (ncpu n : Nat) : SpinPc :=
  let next := if n = 0 then 1 else n * 2
  if 1 < ncpu ∧ next < defLockSpin then .pause next 0 else .yield

/-- A step that does not take the lock. -/
def spinStep (ncpu lock : Nat) : SpinPc → Option SpinPc
  | .load n => some (if lock = 0 then .cas n else .retry ncpu n)
  | .cas n => if lock = 0 then none else some (.retry ncpu n)
  | .pause n i => some (if i < n then .pause n (i + 1) else .load n)
  | .yield => some (.load 0)

/-! ## Outside the lock -/

/-- What a section is for. -/
inductive Job where
  | insert (d : DataPtr)
  | move (d : DataPtr)

def Job.node : Job → DataPtr
  | .insert d => d
  | .move d => d

/-- Where a call is outside the lock. -/
inductive OutPhase where
  | idle
  | absent
  | found (d : DataPtr)
  | inPlace (d : DataPtr)
  | stamp (d : DataPtr)

/-- What follows a step outside the lock. -/
inductive OutNext where
  | go (phase : OutPhase)
  | enter (job : Job)
  | done

/-- The node of a new id, before it is in the id map. -/
def NlaCoreData.withNewNode (s : NlaCoreData) (op : SetItem) : NlaCoreData :=
  { s with dataNodes := s.dataNodes ++ [newDataNode op.id op.loc op.iStatus op.iType] }

/-- The steps of `setdataloc` outside the lock. -/
inductive OutStep (op : SetItem) (s : NlaCoreData) : OutPhase → NlaCoreData → OutNext → Prop
  | lookupNone (h : s.getdatanode op.id = none) : OutStep op s .idle s (.go .absent)
  | lookupSome {d : DataPtr} (h : s.getdatanode op.id = some d) : OutStep op s .idle s (.go (.found d))
  | alloc : OutStep op s .absent (s.withNewNode op) (.enter (.insert s.dataNodes.length))
  | testIn {d : DataPtr} (h : s.inCell d op.loc = .ok true) : OutStep op s (.found d) s (.go (.inPlace d))
  | testOut {d : DataPtr} (h : s.inCell d op.loc = .ok false) : OutStep op s (.found d) s (.enter (.move d))
  | write {d : DataPtr} : OutStep op s (.inPlace d) (s.setLoc d op.loc) (.go (.stamp d))
  | stamp {d : DataPtr} : OutStep op s (.stamp d) (s.setTime d op.now) .done

/-! ## The sections -/

/-- Where a worker is in a section. -/
inductive Stage where
  | put
  | remove
  | setLoc
  | visit (p : MapPtr)
  | grow (p : MapPtr) (childs : List (Fin 4))
  | choose (p : MapPtr)
  | link (p : MapPtr)

def Job.start : Job → Stage
  | .insert _ => .put
  | .move _ => .remove

/-- The branch `adddatanode` takes in the node `p`, which is `m`. -/
def afterVisit (conf : Conf) (p : MapPtr) (m : NlaMapNode) : Stage :=
  if m.iLevel ≥ conf.nMapMaxLevel then .link p else if m.apChilds 0 = none then .grow p [0, 1, 2, 3] else .choose p

/-- The id map with the node `d` for the id of the call. -/
def NlaCoreData.putNode (s : NlaCoreData) (op : SetItem) (d : DataPtr) : NlaCoreData :=
  { s with pId2dataMap := (smPutPtrvalue true true s.pId2dataMap op.id (some d)).2 }

/-- One step of a section for the node `d`; `none` is its end. -/
def micro (conf : Conf) (op : SetItem) (d : DataPtr) : Stage → NlaCoreData → Except Fault (NlaCoreData × Option Stage)
  | .put, s => .ok (s.putNode op d, some (.visit s.pMapRoot))
  | .remove, s => do
    let s ← s.removeDatanodeFromMap conf (conf.nMapMaxLevel.toNat + 1) (some s.pMapRoot) (some d)
    return (s, some .setLoc)
  | .setLoc, s => do
    let _ ← s.dataAt d
    return (s.setLoc d op.loc, some (.visit s.pMapRoot))
  | .visit p, s => do
    let m ← s.mapAt p
    return (s.bump p, some (afterVisit conf p m))
  | .grow p [], s => .ok (s, some (.choose p))
  | .grow p (i :: childs), s => do
    let m ← s.mapAt p
    let s ← createChild .succeed p m s i
    return (s, some (.grow p childs))
  | .choose p, s => do
    let m ← s.mapAt p
    let n ← s.dataAt d
    match getChildRcIdx m.rc n.data.loc with
    | none => return (s, none)
    | some i => do
      let child ← nonNull (m.apChilds i)
      return (s, some (.visit child))
  | .link p, s => do
    let s ← s.linkHead p d
    return (s, none)

/-! ## The steps of a call -/

/-- Where a worker is in its call. -/
inductive SpinPhase where
  | out (phase : OutPhase)
  | spin (job : Job) (pc : SpinPc)
  | inside (job : Job) (stage : Option Stage)

/-- The worker goes to the lock when it has a section before it. -/
def OutNext.toSpin : OutNext → Option SpinPhase
  | .go phase => some (.out phase)
  | .enter job => some (.spin job (.load 0))
  | .done => none

/-- What the workers share. -/
structure Shared where
  lock : Nat
  data : NlaCoreData

/-- The steps of a call; `none` is its end. -/
inductive SpinMoves (conf : Conf) (ncpu : Nat) (op : SetItem) (w : Shared) : SpinPhase → Shared → Option SpinPhase → Prop
  | out {phase : OutPhase} {s : NlaCoreData} {next : OutNext} (h : OutStep op w.data phase s next) :
      SpinMoves conf ncpu op w (.out phase) { w with data := s } next.toSpin
  | spin {job : Job} {pc pc' : SpinPc} (h : spinStep ncpu w.lock pc = some pc') :
      SpinMoves conf ncpu op w (.spin job pc) w (some (.spin job pc'))
  | acquire {job : Job} {n : Nat} (h : w.lock = 0) :
      SpinMoves conf ncpu op w (.spin job (.cas n)) { w with lock := 1 } (some (.inside job (some job.start)))
  | micro {job : Job} {stage : Stage} {s : NlaCoreData} {next : Option Stage}
      (h : micro conf op job.node stage w.data = .ok (s, next)) :
      SpinMoves conf ncpu op w (.inside job (some stage)) { w with data := s } (some (.inside job next))
  | release {job : Job} :
      SpinMoves conf ncpu op w (.inside job none) { w with lock := 0 } (some (.out (.stamp job.node)))

/-- Workers that run `setdataloc` with the lock. -/
abbrev SpinCfg := Net Shared SpinPhase SetItem

abbrev SpinStep (conf : Conf) (ncpu : Nat) : Nat → SpinCfg → SpinCfg → Prop := Net.Step (.out .idle) (SpinMoves conf ncpu)

/-- The configurations of the runs from `c0` whose every step meets `P`. -/
abbrev SpinReach (conf : Conf) (ncpu : Nat) (P : SpinCfg → Nat → Prop) (c0 : SpinCfg) : SpinCfg → Prop :=
  Net.Reach (.out .idle) (SpinMoves conf ncpu) P c0

/-- The lock is free, and the workers have their calls before them. -/
def startSpinCfg (s : NlaCoreData) (todos : List (List SetItem)) : SpinCfg :=
  Net.start (.out .idle) { lock := 0, data := s } todos

/-! ## Mutual exclusion -/

/-- The worker is in a section. -/
def SpinPhase.Inside (phase : SpinPhase) : Prop := ∃ job stage, phase = .inside job stage

/-- The lock word is 1 when a worker is in a section and 0 when none is, there is not more than one, and the pauses of
the waiting workers are bounded. -/
structure Locked (c : SpinCfg) : Prop where
  free : c.shared.lock = 0 → ∀ (i : Nat) (w : Proc SpinPhase SetItem), c.procs[i]? = some w → ¬ w.phase.Inside
  held : c.shared.lock ≠ 0 → c.shared.lock = 1 ∧ ∃ (i : Nat) (w : Proc SpinPhase SetItem),
    c.procs[i]? = some w ∧ w.phase.Inside
  unique : ∀ (i j : Nat) (w v : Proc SpinPhase SetItem), c.procs[i]? = some w → c.procs[j]? = some v →
    w.phase.Inside → v.phase.Inside → i = j
  pauses : ∀ (i : Nat) (w : Proc SpinPhase SetItem) (job : Job) (n k : Nat), c.procs[i]? = some w →
    w.phase = .spin job (.pause n k) → n < defLockSpin

variable {conf : Conf} {ncpu i : Nat} {op : SetItem} {s s1 t : NlaCoreData} {todos : List (List SetItem)} {c c' : SpinCfg}
  {w w' : Proc SpinPhase SetItem} {P : SpinCfg → Nat → Prop} {d : Nat}

theorem locked_start (s : NlaCoreData) (todos : List (List SetItem)) : Locked (startSpinCfg s todos) where
  free := by
    rintro - i w hw ⟨job, stage, hphase⟩
    have hidle := Net.phase_start hw
    rw [hphase] at hidle
    cases hidle
  held := fun h => absurd rfl h
  unique := by
    rintro i j w v hw - ⟨job, stage, hphase⟩ -
    have hidle := Net.phase_start hw
    rw [hphase] at hidle
    cases hidle
  pauses := by
    intro i w job n k hw hphase
    have hidle := Net.phase_start hw
    rw [hphase] at hidle
    cases hidle

/-- A step that leaves the lock word alone, of a worker that stays inside or outside. -/
theorem Locked.same {shared : Shared} (h : Locked c) (hw : c.procs[i]? = some w) (hlock : shared.lock = c.shared.lock)
    (hin : w'.phase.Inside ↔ w.phase.Inside) (hpause : ∀ job n k, w'.phase = .spin job (.pause n k) → n < defLockSpin) :
    Locked { shared := shared, procs := c.procs.set i w' } where
  free := by
    intro h0 j v hv
    change shared.lock = 0 at h0
    rw [hlock] at h0
    rcases Net.procs_cases hv with ⟨-, rfl⟩ | ⟨-, hv⟩
    · rw [hin]
      exact h.free h0 i w hw
    · exact h.free h0 j v hv
  held := by
    intro h1
    change shared.lock ≠ 0 at h1
    rw [hlock] at h1
    obtain ⟨h1, j, v, hv, hvin⟩ := h.held h1
    refine ⟨hlock.trans h1, j, ?_⟩
    by_cases hji : j = i
    · subst hji
      obtain rfl := Option.some.inj (hw.symm.trans hv)
      exact ⟨w', List.getElem?_set_self (List.getElem?_eq_some_iff.mp hw).1, hin.mpr hvin⟩
    · exact ⟨v, by rw [List.getElem?_set_ne (Ne.symm hji), hv], hvin⟩
  unique := by
    intro j k v u hv hu hvin huin
    have back : ∀ {j : Nat} {v : Proc SpinPhase SetItem}, (c.procs.set i w')[j]? = some v → v.phase.Inside →
        ∃ v0, c.procs[j]? = some v0 ∧ v0.phase.Inside := by
      intro j v hv hvin
      rcases Net.procs_cases hv with ⟨rfl, rfl⟩ | ⟨-, hv⟩
      · exact ⟨w, hw, hin.mp hvin⟩
      · exact ⟨v, hv, hvin⟩
    obtain ⟨v0, hv0, hvin0⟩ := back hv hvin
    obtain ⟨u0, hu0, huin0⟩ := back hu huin
    exact h.unique j k v0 u0 hv0 hu0 hvin0 huin0
  pauses := by
    intro j v job n k hv hphase
    rcases Net.procs_cases hv with ⟨-, rfl⟩ | ⟨-, hv⟩
    · exact hpause job n k hphase
    · exact h.pauses j v job n k hv hphase

/-- The exchange of 0 for 1. -/
theorem Locked.acquire {shared : Shared} (h : Locked c) (hw : c.procs[i]? = some w) (h0 : c.shared.lock = 0)
    (hlock : shared.lock = 1) (hin : w'.phase.Inside) : Locked { shared := shared, procs := c.procs.set i w' } where
  free := by
    intro hz
    rw [show shared.lock = 0 from hz] at hlock
    cases hlock
  held := fun _ => ⟨hlock, i, w', List.getElem?_set_self (List.getElem?_eq_some_iff.mp hw).1, hin⟩
  unique := by
    have only : ∀ {j : Nat} {v : Proc SpinPhase SetItem}, (c.procs.set i w')[j]? = some v → v.phase.Inside → j = i := by
      intro j v hv hvin
      rcases Net.procs_cases hv with ⟨rfl, -⟩ | ⟨-, hv⟩
      · rfl
      · exact absurd hvin (h.free h0 j v hv)
    intro j k v u hv hu hvin huin
    rw [only hv hvin, only hu huin]
  pauses := by
    intro j v job n k hv hphase
    rcases Net.procs_cases hv with ⟨-, rfl⟩ | ⟨-, hv⟩
    · obtain ⟨job', stage, hstage⟩ := hin
      rw [hphase] at hstage
      cases hstage
    · exact h.pauses j v job n k hv hphase

/-- The store of 0. -/
theorem Locked.release {shared : Shared} (h : Locked c) (hw : c.procs[i]? = some w) (hin : w.phase.Inside)
    (hlock : shared.lock = 0) (hout : w'.phase = .out (.stamp d)) :
    Locked { shared := shared, procs := c.procs.set i w' } := by
  have none_inside : ∀ {j : Nat} {v : Proc SpinPhase SetItem}, (c.procs.set i w')[j]? = some v → ¬ v.phase.Inside := by
    intro j v hv hvin
    rcases Net.procs_cases hv with ⟨-, rfl⟩ | ⟨hji, hv⟩
    · obtain ⟨job, stage, hphase⟩ := hvin
      rw [hout] at hphase
      cases hphase
    · exact hji (h.unique j i v w hv hw hvin hin)
  refine ⟨fun _ j v hv => none_inside hv, fun h1 => absurd hlock h1, ?_, ?_⟩
  · intro j k v u hv _ hvin
    exact absurd hvin (none_inside hv)
  · intro j v job n k hv hphase
    rcases Net.procs_cases hv with ⟨-, rfl⟩ | ⟨-, hv⟩
    · rw [hout] at hphase
      cases hphase
    · exact h.pauses j v job n k hv hphase

/-- A waiting worker pauses fewer times than `NLA_DEF_LOCK_SPIN` before each attempt. -/
theorem spinStep_pause {lock n k : Nat} {pc : SpinPc} (h : spinStep ncpu lock pc = some (.pause n k))
    (hpc : ∀ n k, pc = .pause n k → n < defLockSpin) : n < defLockSpin := by
  have hretry : ∀ m, SpinPc.retry ncpu m = .pause n k → n < defLockSpin := by
    intro m hm
    change (if 1 < ncpu ∧ (if m = 0 then 1 else m * 2) < defLockSpin then SpinPc.pause _ 0 else .yield) = _ at hm
    by_cases hlt : 1 < ncpu ∧ (if m = 0 then 1 else m * 2) < defLockSpin
    · rw [if_pos hlt] at hm
      cases hm
      exact hlt.2
    · rw [if_neg hlt] at hm
      cases hm
  unfold spinStep at h
  cases pc with
  | load m =>
      simp only [Option.some.injEq] at h
      split_ifs at h
      exact hretry m h
  | cas m =>
      simp only at h
      split_ifs at h
      exact hretry m (Option.some.inj h)
  | pause m j =>
      simp only [Option.some.injEq] at h
      split_ifs at h
      cases h
      exact hpc _ j rfl
  | yield => cases h

/-- **Every step keeps the lock word right.** -/
theorem Locked.step (h : Locked c) (hs : SpinStep conf ncpu i c c') : Locked c' := by
  cases hs with
  | @mk w op rest shared next hw htodo hop =>
      generalize hphase : w.phase = phase at hop
      cases hop with
      | @out phase s next hout =>
          refine h.same hw rfl ⟨?_, ?_⟩ ?_
          · rintro ⟨job, stage, hin⟩
            cases next <;> cases hin
          · rintro ⟨job, stage, hin⟩
            rw [hphase] at hin
            cases hin
          · intro job n k hp
            cases next <;> cases hp
      | @spin job pc pc' hspin =>
          refine h.same hw rfl ⟨?_, ?_⟩ ?_
          · rintro ⟨job', stage, hin⟩
            cases hin
          · rintro ⟨job', stage, hin⟩
            rw [hphase] at hin
            cases hin
          · intro job' n k hp
            cases hp
            exact spinStep_pause hspin fun n k hpc => h.pauses i w job n k hw (by rw [hphase, hpc])
      | @acquire job n h0 => exact h.acquire hw h0 rfl ⟨job, _, rfl⟩
      | @micro job stage s next hm =>
          refine h.same hw rfl ⟨fun _ => ⟨job, _, hphase⟩, fun _ => ⟨job, next, rfl⟩⟩ ?_
          intro job' n k hp
          cases hp
      | @release job => exact h.release hw ⟨job, none, hphase⟩ rfl rfl

theorem SpinReach.locked (hr : SpinReach conf ncpu P (startSpinCfg s todos) c) : Locked c :=
  hr.invariant (locked_start s todos) fun _ _ _ h _ hs => h.step hs

/-- With `k` steps of its own the worker `i` gets into the section of `job`. -/
def Acquires (conf : Conf) (ncpu i : Nat) (job : Job) (todo : List SetItem) (k : Nat) (c : SpinCfg) : Prop :=
  ∃ c', Net.Solo (.out .idle) (SpinMoves conf ncpu) i k c c' ∧ c'.shared = { c.shared with lock := 1 } ∧
    c'.procs[i]? = some { phase := .inside job (some job.start), todo := todo }

section Acquires

variable {job : Job} {todo : List SetItem} {k n : Nat} {pc : SpinPc}

/-- A step that waits. -/
theorem Acquires.wait (pc' : SpinPc) (hw : c.procs[i]? = some { phase := .spin job pc, todo := todo }) (htodo : todo ≠ [])
    (hpc : spinStep ncpu c.shared.lock pc = some pc')
    (h : ∀ c1 : SpinCfg, c1.shared = c.shared → c1.procs[i]? = some { phase := .spin job pc', todo := todo } →
      Acquires conf ncpu i job todo k c1) : Acquires conf ncpu i job todo (k + 1) c := by
  obtain ⟨op, rest, rfl⟩ := List.exists_cons_of_ne_nil htodo
  have hlt := (List.getElem?_eq_some_iff.mp hw).1
  have hstep : SpinStep conf ncpu i c
      { shared := c.shared, procs := c.procs.set i { phase := .spin job pc', todo := op :: rest } } :=
    .mk hw rfl (SpinMoves.spin hpc)
  obtain ⟨c', hsolo, hshared, hin⟩ := h { c with procs := c.procs.set i _ } rfl (List.getElem?_set_self hlt)
  exact ⟨c', .succ hstep hsolo, hshared, hin⟩

theorem acquires_cas (hw : c.procs[i]? = some { phase := .spin job (.cas n), todo := todo }) (htodo : todo ≠ [])
    (h0 : c.shared.lock = 0) : Acquires conf ncpu i job todo 1 c := by
  obtain ⟨op, rest, rfl⟩ := List.exists_cons_of_ne_nil htodo
  have hlt := (List.getElem?_eq_some_iff.mp hw).1
  exact ⟨_, .succ (.mk hw rfl (.acquire h0)) (.zero _), rfl, List.getElem?_set_self hlt⟩

theorem acquires_load (hw : c.procs[i]? = some { phase := .spin job (.load n), todo := todo }) (htodo : todo ≠ [])
    (h0 : c.shared.lock = 0) : Acquires conf ncpu i job todo 2 c := by
  apply Acquires.wait (.cas n) hw htodo
  · rw [spinStep, if_pos h0]
  · intro c1 hc1 hw1
    exact acquires_cas hw1 htodo (by rw [hc1, h0])

/-- The induction is on the pauses that are left. -/
theorem acquires_pause {r : Nat} (hr : n - k = r)
    (hw : c.procs[i]? = some { phase := .spin job (.pause n k), todo := todo }) (htodo : todo ≠ [])
    (h0 : c.shared.lock = 0) : Acquires conf ncpu i job todo (r + 3) c := by
  induction r generalizing c k with
  | zero =>
      apply Acquires.wait (.load n) hw htodo
      · rw [spinStep, if_neg (by omega)]
      · intro c1 hc1 hw1
        exact acquires_load hw1 htodo (by rw [hc1, h0])
  | succ r ih =>
      rw [show r + 1 + 3 = r + 3 + 1 by omega]
      apply Acquires.wait (.pause n (k + 1)) hw htodo
      · rw [spinStep, if_pos (by omega)]
      · intro c1 hc1 hw1
        exact ih (by omega) hw1 (by rw [hc1, h0])

theorem Locked.acquires (h : Locked c) (hw : c.procs[i]? = some { phase := .spin job pc, todo := todo })
    (htodo : todo ≠ []) (h0 : c.shared.lock = 0) :
    ∃ k, k ≤ defLockSpin + 2 ∧ Acquires conf ncpu i job todo k c := by
  cases pc with
  | load n => exact ⟨2, by decide, acquires_load hw htodo h0⟩
  | cas n => exact ⟨1, by decide, acquires_cas hw htodo h0⟩
  | pause n k =>
      have hn := h.pauses i _ job n k hw rfl
      exact ⟨n - k + 3, by omega, acquires_pause rfl hw htodo h0⟩
  | yield =>
      refine ⟨3, by decide, ?_⟩
      apply Acquires.wait (.load 0) hw htodo rfl
      intro c1 hc1 hw1
      exact acquires_load hw1 htodo (by rw [hc1, h0])

end Acquires

/-- **The lock excludes, and a free lock is taken.** In every configuration of every run the lock word is 0 when no worker
is in a section and 1 when one is, two never are, and when the word is 0 any waiting worker is in its section after at most
`NLA_DEF_LOCK_SPIN + 2` steps of its own, wherever it is in the loops. -/
theorem spin_mutex (hr : SpinReach conf ncpu P (startSpinCfg s todos) c) :
    (c.shared.lock = 0 ↔ ∀ (i : Nat) (w : Proc SpinPhase SetItem), c.procs[i]? = some w → ¬ w.phase.Inside) ∧
      (c.shared.lock = 0 ∨ c.shared.lock = 1) ∧
      (∀ (i j : Nat) (w v : Proc SpinPhase SetItem), c.procs[i]? = some w → c.procs[j]? = some v →
        w.phase.Inside → v.phase.Inside → i = j) ∧
      ∀ (i : Nat) (job : Job) (pc : SpinPc) (todo : List SetItem), c.shared.lock = 0 → todo ≠ [] →
        c.procs[i]? = some { phase := .spin job pc, todo := todo } →
          ∃ k, k ≤ defLockSpin + 2 ∧ Acquires conf ncpu i job todo k c := by
  have h := SpinReach.locked hr
  refine ⟨⟨h.free, fun hout => ?_⟩, ?_, h.unique, ?_⟩
  · by_contra h1
    obtain ⟨-, i, w, hw, hin⟩ := h.held h1
    exact hout i w hw hin
  · by_cases h0 : c.shared.lock = 0
    · exact Or.inl h0
    · exact Or.inr (h.held h0).1
  · intro i job pc todo h0 htodo hw
    exact h.acquires hw htodo h0

/-- One worker has the lock, and the other pauses. -/
theorem spin_mutex_two : ∃ c : SpinCfg,
    SpinReach ⟨0⟩ 2 (fun _ _ => True) (startSpinCfg (initCoreData 1 Nat.one_pos) [[setA 5 5], [setB 5 5]]) c ∧
      c.shared.lock = 1 ∧ c.procs[1]? = some { phase := .spin (.insert 1) (.pause 1 0), todo := [setB 5 5] } ∧
      ∀ (j : Nat) (v : Proc SpinPhase SetItem), c.procs[j]? = some v → v.phase.Inside → j = 0 := by
  have hrun : ∃ (c : SpinCfg) (w : Proc SpinPhase SetItem),
      SpinReach ⟨0⟩ 2 (fun _ _ => True) (startSpinCfg (initCoreData 1 Nat.one_pos) [[setA 5 5], [setB 5 5]]) c ∧
        c.shared.lock = 1 ∧ c.procs[1]? = some { phase := .spin (.insert 1) (.pause 1 0), todo := [setB 5 5] } ∧
        c.procs[0]? = some w ∧ w.phase = .inside (.insert 0) (some .put) := by
    refine ⟨_, _, .step (.step (.step (.step (.step (.step (.step .init trivial
      (.mk (i := 0) rfl rfl (.out (.lookupNone rfl)))) trivial (.mk (i := 0) rfl rfl (.out .alloc))) trivial
      (.mk (i := 0) rfl rfl (.spin rfl))) trivial (.mk (i := 0) rfl rfl (.acquire rfl))) trivial
      (.mk (i := 1) rfl rfl (.out (.lookupNone rfl)))) trivial (.mk (i := 1) rfl rfl (.out .alloc))) trivial
      (.mk (i := 1) rfl rfl (.spin rfl)), rfl, rfl, rfl, rfl⟩
  obtain ⟨c, w, hr, hlock, hwait, hw, hin⟩ := hrun
  obtain ⟨-, -, honly, -⟩ := spin_mutex hr
  exact ⟨c, hr, hlock, hwait, fun j v hv hvin => honly j 0 v w hv hw hvin ⟨_, _, hin⟩⟩

end Lookaround
