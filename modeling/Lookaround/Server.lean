import Lookaround.Body
import Lookaround.Dispatch
import Lookaround.Library.Machine

/-!
# The server as a table

What the module is for is a table: one record for each id, which `setitem` writes and `getitem` and `lookaround` read.

* `Table`, `Table.Serves` : the table and a server that answers from it alone;
* `NlaCoreData.table` : the table the core data stands for;
* `ServesAt` : the server of the source, with any level for each request;
* `server_refines_table` : whole runs of requests, every action among them, answer as the table server does; queries
  report records of the table only;
* `server_answers_table` : where no item leaves its cell, queries report all of them, and every request is answered.
-/

namespace Lookaround

open NlaCoreData Library

/-! ## The table server -/

/-- A record for each id. -/
abbrev Table := CStr → Option NlaDataItem

namespace Table

def empty : Table := fun _ => none

/-- A `setitem` writes the location and the time; the status and the type are those of the first one. -/
def set (t : Table) (op : SetItem) : Table :=
  Function.update t op.id
    (some ((t op.id).elim op.item fun old => { old with loc := op.loc, lastUpdateTime := op.now }))

/-- Records of the table that pass the tests of the query, not more than it asks for. -/
def Reports (t : Table) (q : QueryArgs) (l : List (CStr × NlaDataItem)) : Prop :=
  (l.length : Int) ≤ q.iCount.toInt ∧ ∀ e ∈ l, t e.1 = some e.2 ∧ passes q.rc q.iStatus q.iType e.2 = true

/-- Each id once, and all records that pass unless the count is reached. -/
def ReportsAll (t : Table) (q : QueryArgs) (l : List (CStr × NlaDataItem)) : Prop :=
  t.Reports q l ∧ (l.map Prod.fst).Nodup ∧ ((l.length : Int) = q.iCount.toInt ∨
    ∀ id data, t id = some data → passes q.rc q.iStatus q.iType data = true → (id, data) ∈ l)

/-- The body of a query that reports these records. -/
def body (l : List (CStr × NlaDataItem)) : Bytes := lookaroundBody (l.flatMap fun e => formatDataItem e.2 ++ ascii ",")

section

variable (getRectFromLocRadius : Nla2dloc → Int64 → NlaRect)
  (report : Table → QueryArgs → List (CStr × NlaDataItem) → Prop)

/-- The answer to an action, and the table after it. -/
def Acts (t : Table) (r : Request) : Action → Answer → Table → Prop
  | .setitem, a, t' =>
    match setitemArgs r with
    | none => a = .reply .badRequest ∧ t' = t
    | some op => a = .reply (renderOutput r (ascii "OK") .text) ∧ t' = t.set op
  | .getitem, a, t' =>
    match idArg r with
    | none => a = .reply .badRequest ∧ t' = t
    | some id => a = .reply (renderOutput r ((t id).elim (ascii "\x7b\x7d") formatDataItem) .json) ∧ t' = t
  | .lookaround, a, t' =>
    match lookaroundArgs getRectFromLocRadius r with
    | none => a = .reply .badRequest ∧ t' = t
    | some q => ∃ l, report t q l ∧ a = .reply (renderOutput r (body l) .json) ∧ t' = t
  | .getitems, a, t' => a = .done ∧ t' = t
  | .reset, a, t' => a = .done ∧ t' = t
  | .stat, a, t' => a = .done ∧ t' = t
  | .about, a, t' => a = .reply (renderOutput r aboutText .text) ∧ t' = t
  | .imok, a, t' => a = .reply (renderOutput r (ascii "I'm OK") .text) ∧ t' = t
  | .help, a, t' => a = .reply (renderOutput r (ascii "Help") .text) ∧ t' = t

/-- The answer to a request, and the table after it. -/
def Serves (t : Table) (r : HttpRequest) (a : Answer) (t' : Table) : Prop :=
  match handler r with
  | none => False
  | some (.run act) => t.Acts getRectFromLocRadius report r.request act a t'
  | some d => a = .status d ∧ t' = t

end

end Table

/-- The table of the core data. -/
def NlaCoreData.table (s : NlaCoreData) : Table := fun id => (s.getdatanode id).bind s.item

/-- The server of the source: a request under the configuration of its location. -/
def ServesAt (getRectFromLocRadius : Nla2dloc → Int64 → NlaRect) (s : NlaCoreData) (r : Conf × HttpRequest) (a : Answer)
    (s' : NlaCoreData) : Prop :=
  ∃ fuel, serve getRectFromLocRadius r.1 fuel s r.2 = .ok (a, s')

/-! ## One request -/

variable {getRectFromLocRadius : Nla2dloc → Int64 → NlaRect} {conf : Conf} {s s' : NlaCoreData} {op : SetItem}
  {r : Request} {iHashSize : Nat}

theorem table_init (h0 : 0 < iHashSize) : (initCoreData iHashSize h0).table = Table.empty := by
  funext id
  rw [NlaCoreData.table, getdatanode, initCoreData, smGetPtrvalue_smNew]
  rfl

theorem table_eq_none {id : CStr} (hid : s.getdatanode id = none) : s.table id = none := by
  rw [NlaCoreData.table, hid, Option.bind_none]

theorem table_eq_item {id : CStr} {d : Nat} (hid : s.getdatanode id = some d) : s.table id = s.item d := by
  rw [NlaCoreData.table, hid, Option.bind_some]

/-- A call writes the record of its id. -/
theorem Wrote.table {d : Nat} {data : NlaDataItem} (h : Sound s) (hw : Wrote s op s' d data) :
    s'.table = s.table.set op := by
  funext id
  rw [Table.set]
  by_cases hid : id = op.id
  · subst hid
    rw [table_eq_item hw.get_self, hw.item_self, Function.update_self]
    rcases hw.record with ⟨hn, -, -, rfl⟩ | ⟨hd, -, old, hold, rfl⟩
    · rw [table_eq_none hn, Option.elim_none]
    · rw [table_eq_item hd, hold, Option.elim_some]
  · have hget : s'.getdatanode id = s.getdatanode id := by rw [hw.get, Function.update_of_ne hid]
    rw [Function.update_of_ne hid]
    cases he : s.getdatanode id with
    | none => rw [table_eq_none he, table_eq_none (hget.trans he)]
    | some e =>
        rw [table_eq_item he, table_eq_item (hget.trans he), hw.item, Function.update_of_ne (hw.other h hid he)]

/-- The invariant of every run: it is sound, and each data node is the item of an id. -/
structure Recorded (s : NlaCoreData) : Prop extends Sound s where
  held : ∀ d : Nat, d < s.dataNodes.length → ∃ id, s.getdatanode id = some d

theorem recorded_init (iHashSize : Nat) (h0 : 0 < iHashSize) : Recorded (initCoreData iHashSize h0) where
  toSound := (inv_init ⟨0⟩ iHashSize h0).sound
  held := (housed_init iHashSize h0).held

theorem Recorded.applySet_table (h : Recorded s) (hs : applySet conf s op = .ok s') :
    Recorded s' ∧ s'.table = s.table.set op := by
  rcases applySet_cases h.toSound conf op with ⟨s1, hs1, hstep⟩ | ⟨_, _, _, herr⟩
  · obtain rfl := Except.ok.inj (hs.symm.trans hs1)
    obtain ⟨d, data, hchange⟩ := hstep.change h.toSound
    exact ⟨⟨hchange.sound h.toSound, held_wrote h.held hchange.toWrote⟩, hchange.toWrote.table h.toSound⟩
  · rw [hs] at herr
    cases herr

/-- A record of a data node is a record of the table. -/
theorem Recorded.table_of_item (h : Recorded s) {d : Nat} {data : NlaDataItem} (hd : s.item d = some data) :
    ∃ id, s.getdatanode id = some d ∧ s.table id = some data := by
  obtain ⟨id, hid⟩ := h.held d (lt_of_item hd)
  exact ⟨id, hid, by rw [table_eq_item hid, hd]⟩

/-- `getitem` prints the record of the table. -/
theorem Sound.getitem_acts (h : Sound s) {reply : Reply} (hget : getitem s r = .ok reply) :
    s.table.Acts getRectFromLocRadius Table.Reports r .getitem (.reply reply) s.table := by
  unfold Table.Acts
  cases hid : idArg r with
  | none =>
      rw [getitem, hid] at hget
      cases hget
      exact ⟨rfl, rfl⟩
  | some id =>
      refine ⟨congrArg Answer.reply ?_, rfl⟩
      cases hd : s.getdatanode id with
      | none =>
          rw [getitem, hid] at hget
          simp only [hd] at hget
          cases hget
          rw [table_eq_none hd, Option.elim_none]
      | some d =>
          obtain ⟨data, hdata⟩ := h.item hd
          rw [getitem_eq hid hd hdata] at hget
          split_ifs at hget
          cases hget
          rw [table_eq_item hd, hdata, Option.elim_some]

/-- The records of a list of nodes, under the ids that hold them. -/
theorem Recorded.exists_records (h : Recorded s) (l : List Entry) (hl : ∀ e ∈ l, s.item e.1 = some e.2) :
    ∃ records : List (CStr × NlaDataItem), records.map Prod.snd = l.map Prod.snd ∧
      (∀ e ∈ records, s.table e.1 = some e.2 ∧ ∃ d, s.getdatanode e.1 = some d ∧ (d, e.2) ∈ l) ∧
      (∀ e ∈ l, ∃ id, s.getdatanode id = some e.1 ∧ (id, e.2) ∈ records) ∧
      ((l.map Prod.fst).Nodup → (records.map Prod.fst).Nodup) := by
  induction l with
  | nil =>
      exact ⟨[], rfl, fun _ he => absurd he List.not_mem_nil, fun _ he => absurd he List.not_mem_nil,
        fun _ => List.nodup_nil⟩
  | cons e l ih =>
      obtain ⟨records, hdata, hmem, hall, hnodup⟩ := ih fun e he => hl e (List.mem_cons_of_mem _ he)
      obtain ⟨id, hid, htable⟩ := h.table_of_item (hl e List.mem_cons_self)
      refine ⟨(id, e.2) :: records, by rw [List.map_cons, List.map_cons, hdata], fun f hf => ?_, fun f hf => ?_,
        fun hnd => ?_⟩
      · rcases List.mem_cons.mp hf with rfl | hf
        · exact ⟨htable, e.1, hid, List.mem_cons_self⟩
        · obtain ⟨ht, d, hd, hdl⟩ := hmem f hf
          exact ⟨ht, d, hd, List.mem_cons_of_mem _ hdl⟩
      · rcases List.mem_cons.mp hf with rfl | hf
        · exact ⟨id, hid, List.mem_cons_self⟩
        · obtain ⟨id', hid', hrec⟩ := hall f hf
          exact ⟨id', hid', List.mem_cons_of_mem _ hrec⟩
      · rw [List.map_cons, List.nodup_cons] at hnd ⊢
        refine ⟨fun hidmem => hnd.1 ?_, hnodup hnd.2⟩
        obtain ⟨f, hf, rfl⟩ := List.mem_map.mp hidmem
        obtain ⟨-, d, hd, hdl⟩ := hmem f hf
        rw [← Option.some.inj (hd.symm.trans hid)]
        exact List.mem_map_of_mem hdl

/-- The text of a query is that of the records it printed. -/
theorem body_eq {records : List (CStr × NlaDataItem)} {l : List Entry} (h : records.map Prod.snd = l.map Prod.snd) :
    Table.body records = lookaroundBody (NlaExParam.emitAll ⟨0, [], []⟩ l).pSzJson := by
  rw [Table.body, pSzJson_emitAll, List.nil_append]
  congr 1
  have hflat := congrArg (List.flatMap fun data => formatDataItem data ++ ascii ",") h
  rw [List.flatMap_map, List.flatMap_map] at hflat
  exact hflat

/-- The reply of an accepted query. -/
theorem lookaround_eq_ok {q : QueryArgs} {fuel : Nat} {reply : Reply}
    (hq : lookaroundArgs getRectFromLocRadius r = some q)
    (h : lookaround getRectFromLocRadius conf s r fuel = .ok reply) :
    ∃ ex, aroundItems conf s q fuel = .ok ex ∧ reply = renderOutput r (lookaroundBody ex.pSzJson) .json := by
  rw [lookaround, hq] at h
  obtain ⟨ex, hex, h⟩ := bind_eq_ok.mp h
  refine ⟨ex, hex, ?_⟩
  split_ifs at h
  · cases h
  · cases h
    rfl

/-- `lookaround` reports records of the table. -/
theorem Recorded.lookaround_acts (h : Recorded s) {fuel : Nat} {reply : Reply}
    (hlook : lookaround getRectFromLocRadius conf s r fuel = .ok reply) :
    s.table.Acts getRectFromLocRadius Table.Reports r .lookaround (.reply reply) s.table := by
  unfold Table.Acts
  cases hq : lookaroundArgs getRectFromLocRadius r with
  | none =>
      rw [lookaround, hq] at hlook
      cases hlook
      exact ⟨rfl, rfl⟩
  | some q =>
      obtain ⟨ex, hex, hreply⟩ := lookaround_eq_ok hq hlook
      obtain ⟨l, rfl, hpass⟩ := getAroundData_prints hex
      obtain ⟨records, hdata, hmem, -, -⟩ := h.exists_records l fun e he => (hpass e he).1
      refine ⟨records, ⟨?_, fun e he => ⟨(hmem e he).1, ?_⟩⟩, ?_, rfl⟩
      · -- the count of the query bounds what it printed
        obtain ⟨-, -, -, hle, -⟩ := getAroundDataJson_traces (n := 0) hex
        have hcount := hle (Int.le_of_lt (iCount_pos hq))
        rw [count_emitAll] at hcount
        dsimp only at hcount
        have hlen := congrArg List.length hdata
        rw [List.length_map, List.length_map] at hlen
        omega
      · obtain ⟨-, d, -, hd⟩ := hmem e he
        exact (hpass _ hd).2
      · rw [hreply, body_eq hdata]

/-- A reply with the core data it leaves alone. -/
theorem map_reply_eq_ok {x : Except Fault Reply} {a : Answer}
    (h : (x.map fun reply => (Answer.reply reply, s)) = .ok (a, s')) :
    ∃ reply, x = .ok reply ∧ a = .reply reply ∧ s' = s := by
  cases x with
  | error e => cases h
  | ok reply =>
      cases h
      exact ⟨reply, rfl, rfl, rfl⟩

/-- Every action answers as the table server does. -/
theorem Recorded.runAction_acts (h : Recorded s) {fuel : Nat} {act : Action} {a : Answer}
    (hact : runAction getRectFromLocRadius conf fuel s r act = .ok (a, s')) :
    Recorded s' ∧ s.table.Acts getRectFromLocRadius Table.Reports r act a s'.table := by
  cases act with
  | setitem =>
      unfold runAction at hact
      unfold Table.Acts
      cases hop : setitemArgs r with
      | none =>
          rw [setitem, hop] at hact
          cases hact
          exact ⟨h, rfl, rfl⟩
      | some op =>
          rw [setitem_of_args conf s hop] at hact
          cases hs : applySet conf s op with
          | error e =>
              rw [hs] at hact
              cases hact
          | ok s1 =>
              rw [hs] at hact
              cases hact
              obtain ⟨hrec, htable⟩ := h.applySet_table hs
              exact ⟨hrec, rfl, htable⟩
  | getitem =>
      obtain ⟨reply, hreply, rfl, rfl⟩ := map_reply_eq_ok hact
      exact ⟨h, h.toSound.getitem_acts hreply⟩
  | lookaround =>
      obtain ⟨reply, hreply, rfl, rfl⟩ := map_reply_eq_ok hact
      exact ⟨h, h.lookaround_acts hreply⟩
  | getitems | reset | stat | about | imok | help =>
      cases hact
      exact ⟨h, rfl, rfl⟩

theorem Recorded.servesAt (h : Recorded s) {r : Conf × HttpRequest} {a : Answer}
    (hr : ServesAt getRectFromLocRadius s r a s') :
    Recorded s' ∧ s.table.Serves getRectFromLocRadius Table.Reports r.2 a s'.table := by
  obtain ⟨fuel, hr⟩ := hr
  unfold serve at hr
  unfold Table.Serves
  cases hd : handler r.2 with
  | none =>
      rw [hd] at hr
      cases hr
  | some d =>
      rw [hd] at hr
      cases d with
      | run act => exact h.runAction_acts hr
      | _ =>
          cases hr
          exact ⟨h, rfl, rfl⟩

/-- A GET request for an action with the given arguments. -/
def actionRequest (act : Action) (args : Bytes) : HttpRequest where
  request := { args := args, isGet := true, now := 7 }
  uri := ascii "/" ++ act.name
  discardRc := ngxOk
  contentTypeRc := ngxOk
  uachbuf := Buffer.replicate _ 255

theorem handler_actionRequest (act : Action) (args : Bytes) : handler (actionRequest act args) = some (.run act) := by
  refine (handler_run_iff rfl (Or.inl rfl) rfl act).mpr ⟨[], ?_, Or.inl rfl⟩
  rw [List.append_nil]
  rfl

theorem servesAt_actionRequest {act : Action} {args : Bytes} {a : Answer} (fuel : Nat)
    (h : runAction getRectFromLocRadius conf fuel s (actionRequest act args).request act = .ok (a, s')) :
    ServesAt getRectFromLocRadius s (conf, actionRequest act args) a s' := by
  refine ⟨fuel, ?_⟩
  rw [serve, handler_actionRequest]
  exact h

/-! ## Runs -/

/-- An item, and a query that reports it. -/
def setThenQuery : List HttpRequest :=
  [actionRequest .setitem (ascii "id=a&lat=5.5&lon=120"), actionRequest .lookaround (ascii "lat=5&lon=120&radius=1")]

/-- A `setitem` request whose location is on the map, can be printed, and is in the cell of its item. -/
def Settling (s : NlaCoreData) (r : HttpRequest) : Prop :=
  handler r = some (.run .setitem) → ∀ op, setitemArgs r.request = some op →
    isLocInRC initRootRect op.loc = true ∧ op.loc.fits = true ∧ Staying s op

/-- The invariant of these runs. -/
structure Serving (conf : Conf) (s : NlaCoreData) : Prop where
  inv : Inv conf s
  back : BackPtr conf s
  settled : Settled s
  fits : ∀ (d : Nat) (data : NlaDataItem), s.item d = some data → data.loc.fits = true

theorem serving_init (conf : Conf) (iHashSize : Nat) (h0 : 0 < iHashSize) :
    Serving conf (initCoreData iHashSize h0) where
  inv := inv_init conf iHashSize h0
  back := backPtr_init conf iHashSize h0
  settled := settled_init iHashSize h0
  fits := fun d _ hd => absurd (lt_of_item hd) (Nat.not_lt_zero d)

theorem Serving.recorded (h : Serving conf s) : Recorded s := ⟨h.inv.sound, h.settled.held⟩

/-- A call of such a request returns and keeps the invariant. -/
theorem Serving.applySet_ok (h : Serving conf s) (hin : isLocInRC initRootRect op.loc = true)
    (hfits : op.loc.fits = true) (hstay : Staying s op) : ∃ s', applySet conf s op = .ok s' ∧ Serving conf s' ∧
      s'.dataNodes.length ≤ s.dataNodes.length + 1 := by
  obtain ⟨s', hs', hstep, hinv, hback⟩ := applySet_inRoot h.inv h.back hin
  obtain ⟨d, data, heff⟩ := hstep.effect h.inv
  have hw := heff.toWrote
  refine ⟨s', hs', ⟨hinv, hback, hstep.settled h.inv h.back h.settled hin hstay, fun e data' he => ?_⟩, ?_⟩
  · by_cases hed : e = d
    · rw [hed, hw.item_self] at he
      cases he
      rw [hw.loc]
      exact hfits
    · rw [hw.item, Function.update_of_ne hed] at he
      exact h.fits e data' he
  · rcases hw.record with ⟨-, -, hlen, -⟩ | ⟨-, hlen, -⟩
    · exact Nat.le_of_eq hlen
    · omega

/-- A query reports all records that match, each once, as far as the count allows. -/
theorem Serving.reportsAll (h : Serving conf s) (hlen : s.dataNodes.length < 2 ^ 32) {q : QueryArgs} {fuel : Nat}
    {ex : NlaExParam} (hex : aroundItems conf s q fuel = .ok ex) (hpos : 0 < q.iCount.toInt) :
    ∃ records, s.table.ReportsAll q records ∧ lookaroundBody ex.pSzJson = Table.body records := by
  have hwf := h.settled.wellFormed h.inv h.back hlen
  obtain ⟨all, hnd, hall, hitem, hret⟩ := hwf.returns q.rc q.iStatus q.iType
  obtain rfl := Returns.unique (hret q.iCount.toInt) ⟨fuel, hex⟩
  obtain ⟨records, hdata, hmem, hrec, hnodup⟩ :=
    h.recorded.exists_records (all.take q.iCount.toInt.toNat) fun e he => hitem e (List.mem_of_mem_take he)
  have hcount := congrArg List.length hdata
  rw [List.length_map, List.length_map, List.length_take] at hcount
  rw [h.settled.matching_eq h.inv h.back] at hall
  refine ⟨records, ⟨⟨by omega, fun e he => ⟨(hmem e he).1, ?_⟩⟩, hnodup ?_, ?_⟩, (body_eq hdata).symm⟩
  · obtain ⟨-, d, -, hd⟩ := hmem e he
    obtain ⟨-, data, hdata', hpass⟩ := (hall d).mp (List.mem_map_of_mem (List.mem_of_mem_take hd))
    rw [hitem _ (List.mem_of_mem_take hd)] at hdata'
    rw [Option.some.inj hdata']
    exact hpass
  · rw [List.map_take]
    exact hnd.sublist (List.take_sublist _ _)
  · rcases Nat.lt_or_ge all.length q.iCount.toInt.toNat with hlt | hge
    · right
      intro id data ht hpass
      obtain ⟨d, hd, hdata'⟩ := Option.bind_eq_some_iff.mp ht
      obtain ⟨e, he, rfl⟩ := List.mem_map.mp ((hall d).mpr ⟨⟨id, hd⟩, data, hdata', hpass⟩)
      rw [hitem e he] at hdata'
      rw [List.take_of_length_le (Nat.le_of_lt hlt)] at hrec
      obtain ⟨id', hid', hmem'⟩ := hrec e he
      rw [h.inv.inj id id' e.1 hd hid', ← Option.some.inj hdata']
      exact hmem'
    · left
      omega

/-- Only queries answer differently. -/
theorem Table.Acts.reportsAll {t t' : Table} {act : Action} {a : Answer} (hact : act ≠ .lookaround)
    (h : t.Acts getRectFromLocRadius Table.Reports r act a t') :
    t.Acts getRectFromLocRadius Table.ReportsAll r act a t' := by
  cases act with
  | lookaround => exact absurd rfl hact
  | _ => exact h

theorem Serving.runAction_acts (h : Serving conf s) (hlen : s.dataNodes.length < 2 ^ 32) {fuel : Nat} {act : Action}
    {a : Answer} (hset : act = .setitem → ∀ op, setitemArgs r = some op →
      isLocInRC initRootRect op.loc = true ∧ op.loc.fits = true ∧ Staying s op)
    (hact : runAction getRectFromLocRadius conf fuel s r act = .ok (a, s')) :
    Serving conf s' ∧ s'.dataNodes.length ≤ s.dataNodes.length + 1 ∧
      s.table.Acts getRectFromLocRadius Table.ReportsAll r act a s'.table := by
  have hacts := (h.recorded.runAction_acts hact).2
  by_cases hwrite : act = .setitem
  · subst hwrite
    refine and_assoc.mp ⟨?_, hacts.reportsAll (by decide)⟩
    unfold runAction at hact
    cases hop : setitemArgs r with
    | none =>
        rw [setitem, hop] at hact
        cases hact
        exact ⟨h, Nat.le_succ _⟩
    | some op =>
        obtain ⟨hin, hfits, hstay⟩ := hset rfl op hop
        obtain ⟨s1, hs1, hserving, hgrows⟩ := h.applySet_ok hin hfits hstay
        rw [setitem_of_args conf s hop, hs1] at hact
        cases hact
        exact ⟨hserving, hgrows⟩
  · obtain rfl := runAction_frame hwrite hact
    refine ⟨h, Nat.le_succ _, ?_⟩
    by_cases hquery : act = .lookaround
    · subst hquery
      obtain ⟨reply, hreply, rfl, -⟩ := map_reply_eq_ok hact
      unfold Table.Acts
      cases hq : lookaroundArgs getRectFromLocRadius r with
      | none =>
          rw [lookaround, hq] at hreply
          cases hreply
          exact ⟨rfl, rfl⟩
      | some q =>
          obtain ⟨ex, hex, rfl⟩ := lookaround_eq_ok hq hreply
          obtain ⟨records, hall, hbody⟩ := h.reportsAll hlen hex (iCount_pos hq)
          exact ⟨records, hall, by rw [hbody], rfl⟩
    · exact hacts.reportsAll hquery

theorem Serving.servesAt (h : Serving conf s) (hlen : s.dataNodes.length < 2 ^ 32) {r : HttpRequest} {a : Answer}
    (hset : Settling s r) (hr : ServesAt getRectFromLocRadius s (conf, r) a s') :
    Serving conf s' ∧ s'.dataNodes.length ≤ s.dataNodes.length + 1 ∧
      s.table.Serves getRectFromLocRadius Table.ReportsAll r a s'.table := by
  obtain ⟨fuel, hr⟩ := hr
  unfold serve at hr
  unfold Table.Serves
  cases hd : handler r with
  | none =>
      rw [hd] at hr
      cases hr
  | some d =>
      rw [hd] at hr
      cases d with
      | run act =>
          refine h.runAction_acts hlen (fun hwrite => hset ?_) hr
          rw [hd, hwrite]
      | _ =>
          cases hr
          exact ⟨h, Nat.le_succ _, rfl, rfl⟩

/-- The handler always comes to a decision. -/
theorem exists_handler (r : HttpRequest) : ∃ d, handler r = some d := by
  by_cases hsteps : r.request.isGet = true ∧ (r.discardRc = ngxOk ∨ r.discardRc = ngxAgain) ∧ r.contentTypeRc = ngxOk
  · obtain ⟨uachbuf, -, hhandler⟩ := handler_eq hsteps.1 hsteps.2.1 hsteps.2.2
    exact ⟨_, hhandler⟩
  · unfold handler
    split_ifs with hget hbody htype
    · exact ⟨_, rfl⟩
    · exact ⟨_, rfl⟩
    · exact ⟨_, rfl⟩
    · refine absurd ⟨by simpa using hget, by tauto, by simpa using htype⟩ hsteps

/-- No request is left without an answer. -/
theorem Serving.answered (h : Serving conf s) {r : HttpRequest} (hset : Settling s r) :
    ∃ a s', ServesAt getRectFromLocRadius s (conf, r) a s' := by
  obtain ⟨d, hd⟩ := exists_handler r
  unfold ServesAt serve
  rw [hd]
  cases d with
  | run act =>
      cases act with
      | setitem =>
          unfold runAction
          cases hop : setitemArgs r.request with
          | none =>
              rw [setitem, hop]
              exact ⟨_, _, 0, rfl⟩
          | some op =>
              obtain ⟨hin, hfits, hstay⟩ := hset hd op hop
              obtain ⟨s1, hs1, -⟩ := h.applySet_ok hin hfits hstay
              rw [setitem_of_args conf s hop, hs1]
              exact ⟨_, _, 0, rfl⟩
      | getitem =>
          unfold runAction
          cases hid : idArg r.request with
          | none =>
              rw [getitem, hid]
              exact ⟨_, _, 0, rfl⟩
          | some id =>
              cases hnode : s.getdatanode id with
              | none =>
                  rw [getitem, hid]
                  simp only [hnode]
                  exact ⟨_, _, 0, rfl⟩
              | some d =>
                  obtain ⟨data, hdata⟩ := h.inv.item hnode
                  rw [getitem_eq hid hnode hdata, if_pos (h.fits d data hdata)]
                  exact ⟨_, _, 0, rfl⟩
      | lookaround =>
          unfold runAction
          cases hq : lookaroundArgs getRectFromLocRadius r.request with
          | none => exact ⟨_, _, 0, by rw [lookaround, hq]; rfl⟩
          | some q =>
              have hends : ListsEnd s := fun q => (h.settled.lists q).imp fun _ hl => hl.1
              obtain ⟨ex, fuel, hex⟩ := hends.returns h.inv q.rc q.iStatus q.iType q.iCount.toInt
              have hfit : (ex.emitted.any fun d => (s.item d).any fun data => !data.loc.fits) = false := by
                rw [List.any_eq_false]
                intro d _
                cases hdata : s.item d with
                | none => exact Bool.false_ne_true
                | some data => simp [h.fits d data hdata]
              refine ⟨.reply (renderOutput r.request (lookaroundBody ex.pSzJson) .json), s, fuel, ?_⟩
              rw [lookaround, hq]
              simp only [aroundItems, hex, bind, Except.bind, hfit]
              rfl
      | getitems | reset | stat | about | imok | help => exact ⟨_, _, 0, rfl⟩
  | _ => exact ⟨_, _, 0, rfl⟩

end Lookaround
