import Lookaround.Inserts

/-!
# Runs that insert

* `FirstTime` : the calls do not find their ids in the map;
* `Hands` : the data nodes the workers have in hand are different ones;
* `Inserting`, `Inserting.step` : what every step of such a run keeps.
-/

namespace Lookaround

open NlaCoreData Library

variable {conf : Conf} {ncpu i : Nat} {op : SetItem} {s' : NlaCoreData} {c c' : SpinCfg} {d : Nat}
  {w w' : Proc SpinPhase SetItem} {done : Finset DataPtr}

/-! ## Runs -/

/-- The call of the worker does not find its id. -/
def FirstTime (c : SpinCfg) (i : Nat) : Prop :=
  ∀ (w : Proc SpinPhase SetItem) (op : SetItem) (rest : List SetItem), c.procs[i]? = some w → w.todo = op :: rest →
    w.phase = .out .idle → c.shared.data.getdatanode op.id = none

/-- The phases of such a call. -/
def SpinPhase.Inserts : SpinPhase → Prop
  | .out .idle => True
  | .out .absent => True
  | .out (.found _) => False
  | .out (.inPlace _) => False
  | .out (.stamp _) => True
  | .spin job _ => job = .insert job.node
  | .inside job _ => job = .insert job.node

/-- The node of the section a worker waits for or is in. -/
def SpinPhase.hand : SpinPhase → Option DataPtr
  | .out _ => none
  | .spin job _ => some job.node
  | .inside job _ => some job.node

/-- The node the worker has still to put in a list. -/
def SpinPhase.waiting : SpinPhase → Option DataPtr
  | .spin job _ => some job.node
  | .inside job (some _) => some job.node
  | _ => none

theorem SpinPhase.hand_of_waiting {phase : SpinPhase} (h : phase.waiting = some d) : phase.hand = some d := by
  cases phase with
  | out phase => cases h
  | spin job pc => exact h
  | inside job o =>
      cases o with
      | none => cases h
      | some c => exact h

/-- The nodes in hand are there and different, and those in `done` are out of all hands. -/
structure Hands (done : Finset DataPtr) (c : SpinCfg) : Prop where
  lt : ∀ (i : Nat) (w : Proc SpinPhase SetItem) (d : Nat), c.procs[i]? = some w → w.phase.hand = some d →
    d < c.shared.data.dataNodes.length
  apart : ∀ (i j : Nat) (w v : Proc SpinPhase SetItem) (d : Nat), c.procs[i]? = some w → c.procs[j]? = some v →
    w.phase.hand = some d → v.phase.hand = some d → i = j
  done_lt : ∀ d ∈ done, d < c.shared.data.dataNodes.length
  done_out : ∀ d ∈ done, ∀ (i : Nat) (w : Proc SpinPhase SetItem), c.procs[i]? = some w → w.phase.hand ≠ some d

/-- A step that takes no node, or keeps the one it has. -/
theorem Hands.keep {shared : Shared} (h : Hands done c) (hw : c.procs[i]? = some w)
    (hhand : ∀ d, w'.phase.hand = some d → w.phase.hand = some d)
    (hlen : c.shared.data.dataNodes.length ≤ shared.data.dataNodes.length) :
    Hands done { shared := shared, procs := c.procs.set i w' } := by
  have back : ∀ {j : Nat} {v : Proc SpinPhase SetItem} {d : Nat}, (c.procs.set i w')[j]? = some v → v.phase.hand = some d →
      ∃ v0, c.procs[j]? = some v0 ∧ v0.phase.hand = some d := by
    intro j v d hv hd
    rcases Net.procs_cases hv with ⟨rfl, rfl⟩ | ⟨-, hv⟩
    · exact ⟨w, hw, hhand d hd⟩
    · exact ⟨v, hv, hd⟩
  refine ⟨fun j v d hv hd => ?_, fun j k v u d hv hu hd hd' => ?_, fun d hd => (h.done_lt d hd).trans_le hlen, ?_⟩
  · obtain ⟨v0, hv0, hd0⟩ := back hv hd
    exact (h.lt j v0 d hv0 hd0).trans_le hlen
  · obtain ⟨v0, hv0, hd0⟩ := back hv hd
    obtain ⟨u0, hu0, hd1⟩ := back hu hd'
    exact h.apart j k v0 u0 d hv0 hu0 hd0 hd1
  · intro d hd j v hv hin
    obtain ⟨v0, hv0, hd0⟩ := back hv hin
    exact h.done_out d hd j v0 hv0 hd0

/-- A step that takes a new node. -/
theorem Hands.take {shared : Shared} (h : Hands done c)
    (hhand : w'.phase.hand = some c.shared.data.dataNodes.length)
    (hlen : shared.data.dataNodes.length = c.shared.data.dataNodes.length + 1) :
    Hands done { shared := shared, procs := c.procs.set i w' } := by
  have hlt : ∀ d, d < c.shared.data.dataNodes.length → d < shared.data.dataNodes.length := fun d hd => by omega
  have hnew : ∀ d, w'.phase.hand = some d → ¬ d < c.shared.data.dataNodes.length := by
    intro d hd
    rw [← Option.some.inj (hhand.symm.trans hd)]
    exact lt_irrefl _
  refine ⟨fun j v d hv hd => ?_, fun j k v u d hv hu hd hd' => ?_, fun d hd => hlt d (h.done_lt d hd), ?_⟩
  · rcases Net.procs_cases hv with ⟨-, rfl⟩ | ⟨-, hv⟩
    · rw [← Option.some.inj (hhand.symm.trans hd)]
      change _ < shared.data.dataNodes.length
      omega
    · exact hlt d (h.lt j v d hv hd)
  · rcases Net.procs_cases hv with ⟨rfl, rfl⟩ | ⟨-, hv⟩
    · rcases Net.procs_cases hu with ⟨rfl, -⟩ | ⟨-, hu⟩
      · rfl
      · exact absurd (h.lt k u d hu hd') (hnew d hd)
    · have hjlt := h.lt j v d hv hd
      rcases Net.procs_cases hu with ⟨-, rfl⟩ | ⟨-, hu⟩
      · exact absurd hjlt (hnew d hd')
      · exact h.apart j k v u d hv hu hd hd'
  · intro d hd j v hv hin
    rcases Net.procs_cases hv with ⟨-, rfl⟩ | ⟨-, hv⟩
    · exact hnew d hin (h.done_lt d hd)
    · exact h.done_out d hd j v hv hin

/-- A step that lets its node go. -/
theorem Hands.release {shared : Shared} (h : Hands done c) (hw : c.procs[i]? = some w) (hhand : w.phase.hand = some d)
    (hnone : w'.phase.hand = none) (hlen : shared.data.dataNodes.length = c.shared.data.dataNodes.length) :
    Hands (insert d done) { shared := shared, procs := c.procs.set i w' } := by
  have hkeep : Hands done { shared := shared, procs := c.procs.set i w' } :=
    h.keep hw (fun e he => by rw [hnone] at he; cases he) hlen.ge
  refine ⟨hkeep.lt, hkeep.apart, fun e he => ?_, fun e he j v hv hin => ?_⟩
  · rcases Finset.mem_insert.mp he with rfl | he
    · exact (h.lt i w e hw hhand).trans_eq hlen.symm
    · exact hkeep.done_lt e he
  · rcases Finset.mem_insert.mp he with rfl | he
    · rcases Net.procs_cases hv with ⟨-, rfl⟩ | ⟨hji, hv⟩
      · rw [hnone] at hin
        cases hin
      · exact hji (h.apart j i v w e hv hw hin hhand)
    · exact hkeep.done_out e he j v hv hin

/-- The nodes that are done are fewer than all. -/
theorem Hands.card_lt (h : Hands done c) (hw : c.procs[i]? = some w) (hhand : w.phase.hand = some d) :
    done.card < c.shared.data.dataNodes.length := by
  have hnot : d ∉ done := fun hd => h.done_out d hd i w hw hhand
  have hsub : insert d done ⊆ Finset.range c.shared.data.dataNodes.length := by
    intro e he
    rw [Finset.mem_range]
    rcases Finset.mem_insert.mp he with rfl | he
    · exact h.lt i w e hw hhand
    · exact h.done_lt e he
  have hcard := Finset.card_le_card hsub
  rw [Finset.card_insert_of_notMem hnot, Finset.card_range] at hcard
  exact hcard

/-- What holds in the runs whose calls insert; the sections of the nodes in `done` are over. -/
structure Inserting (conf : Conf) (done : Finset DataPtr) (c : SpinCfg) : Prop where
  ok : ReadOk c
  growing : Growing conf.nMapMaxLevel c.shared.data
  lists : Lists c.shared.data
  hands : Hands done c
  phases : ∀ (i : Nat) (w : Proc SpinPhase SetItem), c.procs[i]? = some w → w.phase.Inserts
  waits : ∀ (i : Nat) (w : Proc SpinPhase SetItem) (d : Nat), c.procs[i]? = some w → w.phase.waiting = some d →
    c.shared.data.cell d = none
  free : c.shared.lock = 0 → Counted done.card 0 c.shared.data
  held : ∀ (i : Nat) (w : Proc SpinPhase SetItem) (job : Job) (o : Option Stage), c.procs[i]? = some w →
    w.phase = .inside job o → Descending conf.nMapMaxLevel done.card c.shared.data job.node o

/-- A step outside the sections. -/
theorem Inserting.outside {u : Touch} {shared : Shared} (h : Inserting conf done c) (hu : u.Quiet)
    (hdata : shared.data = u.apply c.shared.data) (hlock : shared.lock = c.shared.lock)
    (hok : ReadOk { shared := shared, procs := c.procs.set i w' })
    (hhands : Hands done { shared := shared, procs := c.procs.set i w' }) (hphase : w'.phase.Inserts)
    (hwait : ∀ d, w'.phase.waiting = some d → c.shared.data.cell d = none) (hout : ¬ w'.phase.Inside) :
    Inserting conf done { shared := shared, procs := c.procs.set i w' } ∧ Later c.shared.data shared.data := by
  refine ⟨⟨hok, ?_, ?_, hhands, fun j v hv => ?_, fun j v d hv hd => ?_, fun h0 => ?_, fun j v job o hv hin => ?_⟩, ?_⟩
  · change Growing _ shared.data
    rw [hdata]
    exact h.growing.apply u
  · change Lists shared.data
    rw [hdata]
    exact h.lists.apply hu
  · rcases Net.procs_cases hv with ⟨-, rfl⟩ | ⟨-, hv⟩
    · exact hphase
    · exact h.phases j v hv
  · change shared.data.cell d = none
    rw [hdata, u.cell_apply]
    rcases Net.procs_cases hv with ⟨-, rfl⟩ | ⟨-, hv⟩
    · exact hwait d hd
    · exact h.waits j v d hv hd
  · change Counted _ 0 shared.data
    rw [hdata]
    exact (h.free (hlock.symm.trans h0)).apply u
  · change Descending _ _ shared.data _ _
    rw [hdata]
    rcases Net.procs_cases hv with ⟨-, rfl⟩ | ⟨-, hv⟩
    · exact absurd ⟨job, o, hin⟩ hout
    · exact (h.held j v job o hv hin).apply hu
  · rw [hdata]
    exact Later.apply hu

/-- A step of the call outside the lock. -/
theorem Inserting.out {phase : OutPhase} {next : OutNext} {rest : List SetItem} (h : Inserting conf done c)
    (hfirst : FirstTime c i) (hw : c.procs[i]? = some w) (htodo : w.todo = op :: rest) (hphase : w.phase = .out phase)
    (hs : OutStep op c.shared.data phase s' next)
    (hok : ReadOk { shared := { c.shared with data := s' }, procs := c.procs.set i (w.after (.out .idle) next.toSpin) }) :
    Inserting conf done
      { shared := { c.shared with data := s' }, procs := c.procs.set i (w.after (.out .idle) next.toSpin) } ∧
      Later c.shared.data s' := by
  have hin := h.phases i w hw
  rw [hphase] at hin
  cases hs with
  | lookupNone _ =>
      refine h.outside (u := .nothing) (fun _ _ hc => by cases hc) rfl rfl hok ?_ trivial (fun _ hd => by cases hd) ?_
      · exact h.hands.keep hw (fun _ hd => by cases hd) (le_refl _)
      · rintro ⟨job, o, hc⟩
        cases hc
  | lookupSome hd =>
      rw [hfirst w op rest hw htodo hphase] at hd
      cases hd
  | alloc =>
      refine h.outside (u := .alloc op) (fun _ _ hc => by cases hc) rfl rfl hok (h.hands.take rfl ?_) rfl (fun d hd => ?_) ?_
      · exact List.length_append
      · cases hd
        change (c.shared.data.dataNodes[c.shared.data.dataNodes.length]?).bind _ = none
        rw [List.getElem?_eq_none_iff.mpr (le_refl _)]
        rfl
      · rintro ⟨job, o, hc⟩
        cases hc
  | testIn _ => exact absurd hin id
  | testOut _ => exact absurd hin id
  | write => exact absurd hin id
  | @stamp d =>
      refine h.outside (u := .time d op.now) (fun _ _ hc => by cases hc) rfl rfl hok ?_ trivial (fun _ hd => by cases hd) ?_
      · exact h.hands.keep hw (fun _ hd => by cases hd) (length_modifyData _).ge
      · rintro ⟨job, o, hc⟩
        cases hc

/-- The worker gets the lock. -/
theorem Inserting.acquire {job : Job} {pc : SpinPc} (h : Inserting conf done c) (hw : c.procs[i]? = some w)
    (hphase : w.phase = .spin job pc) (h0 : c.shared.lock = 0)
    (hok : ReadOk
      { shared := { c.shared with lock := 1 }, procs := c.procs.set i { w with phase := .inside job (some job.start) } }) :
    Inserting conf done
      { shared := { c.shared with lock := 1 }, procs := c.procs.set i { w with phase := .inside job (some job.start) } } := by
  have hjob : job = .insert job.node := by
    have := h.phases i w hw
    rw [hphase] at this
    exact this
  have hhand : w.phase.hand = some job.node := by
    rw [hphase]
    rfl
  refine ⟨hok, h.growing, h.lists, ?_, fun j v hv => ?_, fun j v d hv hd => ?_, (fun hz => by cases hz), ?_⟩
  · refine h.hands.keep hw (fun d hd => ?_) (le_refl _)
    rw [hhand]
    exact hd
  · rcases Net.procs_cases hv with ⟨-, rfl⟩ | ⟨-, hv⟩
    · exact hjob
    · exact h.phases j v hv
  · rcases Net.procs_cases hv with ⟨-, rfl⟩ | ⟨-, hv⟩
    · apply h.waits i w d hw
      rw [hphase]
      exact hd
    · exact h.waits j v d hv hd
  · intro j v job' o hv hin
    rcases Net.procs_cases hv with ⟨-, rfl⟩ | ⟨-, hv⟩
    · cases hin
      rw [hjob]
      exact ⟨h.free h0, _, item_of_getElem? (List.getElem?_eq_getElem (h.hands.lt i w job.node hw hhand))⟩
    · exact absurd ⟨job', o, hin⟩ (h.ok.locked.free h0 j v hv)

/-- A step of a section. -/
theorem Inserting.micro {job : Job} {stage : Stage} {o : Option Stage} (h : Inserting conf done c)
    (hw : c.procs[i]? = some w) (hphase : w.phase = .inside job (some stage))
    (hs : MicroStep conf op job.node c.shared.data stage s' o) (hlen : c.shared.data.dataNodes.length < 2 ^ 32)
    (hle : c.shared.data.dataNodes.length ≤ s'.dataNodes.length)
    (hok : ReadOk { shared := { c.shared with data := s' }, procs := c.procs.set i { w with phase := .inside job o } }) :
    Inserting conf done
      { shared := { c.shared with data := s' }, procs := c.procs.set i { w with phase := .inside job o } } ∧
      Later c.shared.data s' := by
  have hhand : w.phase.hand = some job.node := by
    rw [hphase]
    rfl
  have hinside : w.phase.Inside := ⟨job, _, hphase⟩
  have hN : done.card + 1 < 2 ^ 32 := (Nat.succ_le_of_lt (h.hands.card_lt hw hhand)).trans_lt hlen
  have hfree : c.shared.data.cell job.node = none := by
    apply h.waits i w job.node hw
    rw [hphase]
    rfl
  have hg := hs.inserts h.growing h.lists (h.ok.held i w job _ hw hphase) (h.held i w job _ hw hphase) hfree hN
  refine ⟨⟨hok, hg.growing, hg.lists, ?_, fun j v hv => ?_, fun j v d hv hd => ?_, fun h0 => ?_, ?_⟩, hg.later⟩
  · refine h.hands.keep hw (fun d hd => ?_) hle
    rw [hhand]
    exact hd
  · rcases Net.procs_cases hv with ⟨-, rfl⟩ | ⟨-, hv⟩
    · have := h.phases i w hw
      rw [hphase] at this
      exact this
    · exact h.phases j v hv
  · rcases Net.procs_cases hv with ⟨-, rfl⟩ | ⟨hji, hv⟩
    · cases o with
      | none => cases hd
      | some stage' =>
          cases hd
          exact hg.free stage' rfl
    · -- another worker has another node
      have hne : d ≠ job.node := by
        rintro rfl
        exact hji (h.hands.apart j i v w _ hv hw (SpinPhase.hand_of_waiting hd) hhand)
      exact (hs.cell_of_ne hne).trans (h.waits j v d hv hd)
  · exact absurd hinside (h.ok.locked.free h0 i w hw)
  · intro j v job' o' hv hin
    rcases Net.procs_cases hv with ⟨-, rfl⟩ | ⟨hji, hv⟩
    · cases hin
      exact hg.descending
    · exact absurd (h.ok.locked.unique j i v w hv hw ⟨job', o', hin⟩ hinside) hji

/-- The lock is given back: one more section is over. -/
theorem Inserting.release {job : Job} (h : Inserting conf done c) (hw : c.procs[i]? = some w)
    (hphase : w.phase = .inside job none)
    (hok : ReadOk
      { shared := { c.shared with lock := 0 }, procs := c.procs.set i { w with phase := .out (.stamp job.node) } }) :
    Inserting conf (insert job.node done)
      { shared := { c.shared with lock := 0 }, procs := c.procs.set i { w with phase := .out (.stamp job.node) } } := by
  have hhand : w.phase.hand = some job.node := by
    rw [hphase]
    rfl
  have hnot : job.node ∉ done := fun hd => h.hands.done_out _ hd i w hw hhand
  have hall : ∀ q : Nat, (c.shared.data.countAt q).toNat ≤ done.card + 1 := h.held i w job none hw hphase
  refine ⟨hok, h.growing, h.lists, h.hands.release hw hhand rfl rfl, fun j v hv => ?_,
    fun j v d hv hd => ?_, fun _ => ?_, ?_⟩
  · rcases Net.procs_cases hv with ⟨-, rfl⟩ | ⟨-, hv⟩
    · trivial
    · exact h.phases j v hv
  · rcases Net.procs_cases hv with ⟨-, rfl⟩ | ⟨-, hv⟩
    · cases hd
    · exact h.waits j v d hv hd
  · rw [Finset.card_insert_of_notMem hnot]
    exact ⟨fun q => (hall q).trans (Nat.le_succ _), fun q _ _ _ => hall q⟩
  · intro j v job' o hv hin
    exact absurd ⟨job', o, hin⟩ (hok.locked.free rfl j v hv)

/-- **Every step of a run that inserts** keeps the tree and the lists, and what a query has read of them. -/
theorem Inserting.step (h : Inserting conf done c) (hfirst : FirstTime c i) (hs : SpinStep conf ncpu i c c')
    (hlen : c.shared.data.dataNodes.length < 2 ^ 32) :
    ∃ done', Inserting conf done' c' ∧ Later c.shared.data c'.shared.data := by
  obtain ⟨hok, hgrows⟩ := h.ok.step hs
  cases hs with
  | @mk w op rest shared next hw htodo hop =>
      generalize hphase : w.phase = phase at hop
      cases hop with
      | @out phase s' next hout => exact ⟨done, h.out hfirst hw htodo hphase hout hok⟩
      | @spin job pc pc' hspin =>
          have hin := h.phases i w hw
          rw [hphase] at hin
          refine ⟨done, h.outside (u := .nothing) (fun _ _ hc => by cases hc) rfl rfl hok ?_ hin (fun d hd => ?_) ?_⟩
          · refine h.hands.keep hw (fun d hd => ?_) (le_refl _)
            rw [hphase]
            exact hd
          · apply h.waits i w d hw
            rw [hphase]
            exact hd
          · rintro ⟨job', o, hc⟩
            cases hc
      | @acquire job n h0 => exact ⟨done, h.acquire hw hphase h0 hok, Later.refl _⟩
      | @micro job stage s' next hm =>
          exact ⟨done, h.micro hw hphase (micro_eq_ok.mp hm) hlen hgrows.data hok⟩
      | @release job => exact ⟨_, h.release hw hphase hok, Later.refl _⟩

variable {iHashSize : Nat} {todos : List (List SetItem)}

/-- There is no item yet. -/
theorem lists_init (iHashSize : Nat) (h0 : 0 < iHashSize) : Lists (initCoreData iHashSize h0) := by
  have hhead : ∀ q : Nat, (initCoreData iHashSize h0).head q = none := by
    intro q
    rw [head, initCoreData, List.getElem?_singleton]
    split_ifs <;> rfl
  refine ⟨fun q => ?_, fun d q hr => ?_, fun d q hr => ?_, pruned_init iHashSize h0⟩
  · rw [hhead]
    exact ⟨[], .nil⟩
  · rw [hhead] at hr
    cases hr
  · rw [hhead] at hr
    cases hr

theorem counted_init (iHashSize : Nat) (h0 : 0 < iHashSize) : Counted 0 0 (initCoreData iHashSize h0) := by
  have hcount : ∀ q : Nat, (initCoreData iHashSize h0).countAt q = 0 := by
    intro q
    rw [countAt, initCoreData, List.getElem?_singleton]
    split_ifs <;> rfl
  refine ⟨fun q => ?_, fun q _ _ _ => ?_⟩
  · rw [hcount]
    exact Nat.zero_le _
  · rw [hcount]
    exact Nat.zero_le _

theorem hands_start (s : NlaCoreData) (todos : List (List SetItem)) : Hands ∅ (startSpinCfg s todos) where
  lt := by
    intro i w d hw hd
    rw [Net.phase_start hw] at hd
    cases hd
  apart := by
    intro i j w v d hw _ hd
    rw [Net.phase_start hw] at hd
    cases hd
  done_lt := fun d hd => absurd hd (Finset.notMem_empty d)
  done_out := fun d hd => absurd hd (Finset.notMem_empty d)

theorem inserting_start (conf : Conf) (h0 : 0 < iHashSize) (todos : List (List SetItem)) :
    Inserting conf ∅ (startSpinCfg (initCoreData iHashSize h0) todos) where
  ok := readOk_start h0 todos
  growing := (shape_init conf.nMapMaxLevel iHashSize h0).growing
  lists := lists_init iHashSize h0
  hands := hands_start _ todos
  phases := by
    intro i w hw
    rw [Net.phase_start hw]
    trivial
  waits := by
    intro i w d hw hd
    rw [Net.phase_start hw] at hd
    cases hd
  free := fun _ => counted_init iHashSize h0
  held := by
    intro i w job o hw hphase
    rw [Net.phase_start hw] at hphase
    cases hphase

end Lookaround
