import Lookaround.Item
import Lookaround.Library.Run
import Lookaround.StrMap

/-!
# The shared index and its operations (`ngx_http_lookaround_handler.c`)

The pool of `g_pNLAMM` hands out data nodes and map nodes and never takes one back, so a pointer is a position in the
list of the nodes handed out so far; `none` is NULL. An operation answers the new core data or a `Fault`.

* `NlaCoreData`, `initCoreData` : the core data and what `fn_v_InitCoreData` makes of it;
* `createChildMapnode`, `adddatanode`, `removeDatanodeFromMap`, `getAroundData`, `setdataloc` : the operations;
* `runSets` : a finite sequence of `setdataloc` calls of one worker with allocations that succeed.

`adddatanode`, `removeDatanodeFromMap` and `getAroundData` recurse along pointers, so they carry fuel; running out of it
is a fault of its own, never a result.
-/

namespace Lookaround

/-- The address of a data node. -/
abbrev DataPtr := Nat

/-- The address of a map node. -/
abbrev MapPtr := Nat

/-- `nla_data_node`. -/
structure NlaDataNode where
  data : NlaDataItem
  prev : Option DataPtr
  next : Option DataPtr
  pMapNode : Option MapPtr
  deriving DecidableEq

/-- `nla_map_node`. A level only grows below `nMapMaxLevel`, so `i_level` does not wrap. -/
structure NlaMapNode where
  rc : NlaRect
  apChilds : Fin 4 → Option MapPtr
  pParent : Option MapPtr
  iLevel : Int
  pDataNode : Option DataPtr
  iItemCount : UInt32

/-- `nla_core_data`, with the nodes of the pool. -/
structure NlaCoreData where
  mapNodes : List NlaMapNode
  dataNodes : List NlaDataNode
  pMapRoot : MapPtr
  pId2dataMap : StrMap DataPtr

/-- How a call can fail to return: an access through NULL, a write behind the end of a local buffer, or a recursion
deeper than its fuel. -/
inductive Fault where
  | nullDeref
  | bufferOverflow
  | outOfFuel
  deriving DecidableEq

/-- `ngx_http_lookaround_loc_conf`. -/
structure Conf where
  nMapMaxLevel : Int

/-- The outcomes of the allocations of one `setdataloc`: the data node, the key copy and the pair array of the id map,
and the child map nodes of a node of a given level. -/
structure Allocs where
  dataNode : Bool
  key : Bool
  pairs : Bool
  child : Int → Fin 4 → Bool

def Allocs.succeed : Allocs where
  dataNode := true
  key := true
  pairs := true
  child := fun _ _ => true

/-- `fn_v_InitCoreData`: a zeroed root with the root rectangle, and an empty id map. -/
def initCoreData (iHashSize : Nat) (h : 0 < iHashSize) : NlaCoreData where
  mapNodes :=
    [{ rc := initRootRect, apChilds := fun _ => none, pParent := none, iLevel := 0, pDataNode := none,
       iItemCount := 0 }]
  dataNodes := []
  pMapRoot := 0
  pId2dataMap := smNew DataPtr iHashSize h

/-- `nla_ex_param` as a query uses it: the text written at `p_sz_json`, the count, and the nodes whose text was
written. -/
structure NlaExParam where
  count : Int
  pSzJson : Bytes
  emitted : List DataPtr

/-- `NLA_INVALID_TYPE` and `NLA_INVALID_STATUS`: no filter. -/
def invalidFilter : Int32 := -1

/-- The three tests of the leaf loop. -/
def passes (rc : NlaRect) (iStatus iType : Int32) (data : NlaDataItem) : Bool :=
  (iType == invalidFilter || iType == data.iType) && (iStatus == invalidFilter || iStatus == data.iStatus) &&
    isLocInRC rc data.loc

/-- The body of the leaf loop for an item that passes: its text and a comma. -/
def emit (ex : NlaExParam) (d : DataPtr) (data : NlaDataItem) : NlaExParam where
  count := ex.count + 1
  pSzJson := ex.pSzJson ++ formatDataItem data ++ ascii ","
  emitted := ex.emitted ++ [d]

namespace NlaCoreData

/-! ## Memory -/

def mapAt (s : NlaCoreData) (p : MapPtr) : Except Fault NlaMapNode :=
  match s.mapNodes[p]? with
  | some m => .ok m
  | none => .error .nullDeref

def dataAt (s : NlaCoreData) (p : DataPtr) : Except Fault NlaDataNode :=
  match s.dataNodes[p]? with
  | some n => .ok n
  | none => .error .nullDeref

/-- An access through a pointer. -/
def nonNull {α : Type} : Option α → Except Fault α
  | some p => .ok p
  | none => .error .nullDeref

def modifyMap (s : NlaCoreData) (p : MapPtr) (f : NlaMapNode → NlaMapNode) : NlaCoreData :=
  { s with mapNodes := s.mapNodes.modify p f }

def modifyData (s : NlaCoreData) (p : DataPtr) (f : NlaDataNode → NlaDataNode) : NlaCoreData :=
  { s with dataNodes := s.dataNodes.modify p f }

def setLoc (s : NlaCoreData) (p : DataPtr) (loc : Nla2dloc) : NlaCoreData :=
  s.modifyData p fun n => { n with data := { n.data with loc := loc } }

def setTime (s : NlaCoreData) (p : DataPtr) (now : Int64) : NlaCoreData :=
  s.modifyData p fun n => { n with data := { n.data with lastUpdateTime := now } }

/-! ## The tree -/

/-- The fields `create_child_mapnode` gives child `i` of the node `p`, which is `m`. -/
def newChild (p : MapPtr) (m : NlaMapNode) (i : Fin 4) : NlaMapNode where
  rc := childRect m.rc i
  apChilds := fun _ => none
  pParent := some p
  iLevel := m.iLevel + 1
  pDataNode := none
  iItemCount := 0

/-- One round of the loop of `create_child_mapnode`. -/
def createChild (alloc : Allocs) (p : MapPtr) (m : NlaMapNode) (s : NlaCoreData) (i : Fin 4) :
    Except Fault NlaCoreData :=
  if alloc.child m.iLevel i then
    let child := s.mapNodes.length
    let s := { s with mapNodes := s.mapNodes ++ [newChild p m i] }
    .ok (s.modifyMap p fun m => { m with apChilds := Function.update m.apChilds i (some child) })
  else .error .nullDeref

/-- `ngx_http_lookaround_create_child_mapnode`. -/
def createChildMapnode (alloc : Allocs) (s : NlaCoreData) (p : MapPtr) : Except Fault NlaCoreData := do
  let m ← s.mapAt p
  if m.apChilds 0 ≠ none then
    return s
  [0, 1, 2, 3].foldlM (createChild alloc p m) s

/-- The test of `adddatanode` before it needs a child of `p`, which is `m`. -/
def ensureChilds (alloc : Allocs) (s : NlaCoreData) (p : MapPtr) (m : NlaMapNode) : Except Fault NlaCoreData :=
  if m.apChilds 0 = none then createChildMapnode alloc s p else .ok s

/-- The leaf branch of `adddatanode`: the data node becomes the head of the list of `p`. -/
def linkHead (s : NlaCoreData) (p : MapPtr) (d : DataPtr) : Except Fault NlaCoreData := do
  let m ← s.mapAt p
  let _ ← s.dataAt d
  let s := s.modifyData d fun n => { n with next := m.pDataNode, prev := none, pMapNode := some p }
  let s ← match m.pDataNode with
    | none => pure s
    | some head => do
      let _ ← s.dataAt head
      pure (s.modifyData head fun n => { n with prev := some d })
  return s.modifyMap p fun m => { m with pDataNode := some d }

/-- `ngx_http_lookaround_adddatanode`. -/
def adddatanode (conf : Conf) (alloc : Allocs) : Nat → NlaCoreData → MapPtr → DataPtr → Except Fault NlaCoreData
  | 0, _, _, _ => .error .outOfFuel
  | fuel + 1, s, p, d => do
    let m ← s.mapAt p
    let s := s.modifyMap p fun m => { m with iItemCount := m.iItemCount + 1 }
    if m.iLevel ≥ conf.nMapMaxLevel then
      linkHead s p d
    else do
      let s ← ensureChilds alloc s p m
      let m ← s.mapAt p
      let n ← s.dataAt d
      match getChildRcIdx m.rc n.data.loc with
      | none => return s
      | some iChildIdx =>
        match m.apChilds iChildIdx with
        | none => .error .nullDeref
        | some child => adddatanode conf alloc fuel s child d

/-- The leaf branch of `remove_datanode_from_map`. -/
def unlinkNode (s : NlaCoreData) (p : MapPtr) (d : DataPtr) : Except Fault NlaCoreData := do
  let m ← s.mapAt p
  let n ← s.dataAt d
  let s ← match n.prev with
    | none => pure s
    | some prev => do
      let _ ← s.dataAt prev
      pure (s.modifyData prev fun k => { k with next := n.next })
  let s ← match n.next with
    | none => pure s
    | some next => do
      let _ ← s.dataAt next
      pure (s.modifyData next fun k => { k with prev := n.prev })
  let s :=
    if m.pDataNode = some d then
      let s := s.modifyMap p fun m => { m with pDataNode := n.next }
      match n.next with
      | none => s
      | some next => s.modifyData next fun k => { k with prev := none }
    else s
  return s.modifyData d fun n => { n with next := none, prev := none }

/-- `ngx_http_lookaround_remove_datanode_from_map`, with the guard of the source: `pMapNode == NULL || pDataNode`. -/
def removeDatanodeFromMap (conf : Conf) : Nat → NlaCoreData → Option MapPtr → Option DataPtr → Except Fault NlaCoreData
  | 0, _, _, _ => .error .outOfFuel
  | fuel + 1, s, pMapNode, pDataNode =>
    if pMapNode = none ∨ pDataNode ≠ none then .ok s
    else do
      let p ← nonNull pMapNode
      let m ← s.mapAt p
      if m.iItemCount = 0 then
        return s
      let s := s.modifyMap p fun m => { m with iItemCount := m.iItemCount - 1 }
      let d ← nonNull pDataNode
      if conf.nMapMaxLevel ≤ m.iLevel then
        unlinkNode s p d
      else do
        let n ← s.dataAt d
        match getChildRcIdx m.rc n.data.loc with
        | none => return s
        | some iChildIdx => removeDatanodeFromMap conf fuel s (m.apChilds iChildIdx) (some d)

/-! ## Queries -/

/-- The leaf loop of `get_around_data`. -/
def leafLoop (s : NlaCoreData) (rc : NlaRect) (iStatus iType : Int32) (iMaxCount : Int) :
    Nat → Option DataPtr → NlaExParam → Except Fault NlaExParam
  | 0, _, _ => .error .outOfFuel
  | fuel + 1, p, ex =>
    if ex.count < iMaxCount then
      match p with
      | none => .ok ex
      | some d => do
        let n ← s.dataAt d
        leafLoop s rc iStatus iType iMaxCount fuel n.next
          (if passes rc iStatus iType n.data then emit ex d n.data else ex)
    else .ok ex

/-- `ngx_http_lookaround_get_around_data`. -/
def getAroundData (conf : Conf) (s : NlaCoreData) (iStatus iType : Int32) (iMaxCount : Int) :
    Nat → Option MapPtr → NlaRect → NlaExParam → Except Fault NlaExParam
  | 0, _, _, _ => .error .outOfFuel
  | _ + 1, none, _, ex => .ok ex
  | fuel + 1, some p, rc, ex => do
    let m ← s.mapAt p
    if m.iItemCount = 0 then
      return ex
    if conf.nMapMaxLevel ≤ m.iLevel then
      leafLoop s rc iStatus iType iMaxCount fuel m.pDataNode ex
    else if m.apChilds 0 = none then
      return ex
    else
      [0, 1, 2, 3].foldlM (fun ex i => do
        let child ← nonNull (m.apChilds i)
        let c ← s.mapAt child
        match intersectRc c.rc rc with
        | none => return ex
        | some newRc => getAroundData conf s iStatus iType iMaxCount fuel (some child) newRc ex) ex

/-! ## The id map -/

/-- `ngx_http_lookaround_getdatanode`. -/
def getdatanode (s : NlaCoreData) (pcszID : CStr) : Option DataPtr := smGetPtrvalue s.pId2dataMap pcszID

/-- The data node before it is linked. -/
def newDataNode (pcszID : CStr) (loc : Nla2dloc) (iStatus iType : Int32) : NlaDataNode where
  data := { achId := strcpyId pcszID, iStatus := iStatus, iType := iType, loc := loc, lastUpdateTime := 0 }
  prev := none
  next := none
  pMapNode := none

/-- The branch of `setdataloc` for an id the map does not hold. -/
def createItem (conf : Conf) (alloc : Allocs) (s : NlaCoreData) (pcszID : CStr) (loc : Nla2dloc)
    (iStatus iType : Int32) (now : Int64) : Except Fault NlaCoreData := do
  if !alloc.dataNode then
    -- `strcpy` into the block that was not allocated
    throw .nullDeref
  let d := s.dataNodes.length
  let s := { s with dataNodes := s.dataNodes ++ [newDataNode pcszID loc iStatus iType] }
  let s := { s with pId2dataMap := (smPutPtrvalue alloc.key alloc.pairs s.pId2dataMap pcszID (some d)).2 }
  let s ← adddatanode conf alloc (conf.nMapMaxLevel.toNat + 1) s s.pMapRoot d
  return s.setTime d now

/-- The test of `setdataloc` for an item the map holds: is the location in the cell it is linked in? -/
def inCell (s : NlaCoreData) (d : DataPtr) (loc : Nla2dloc) : Except Fault Bool := do
  let n ← s.dataAt d
  let p ← nonNull n.pMapNode
  let m ← s.mapAt p
  return isLocInRC m.rc loc

/-- The branch of `setdataloc` for an item that leaves its cell. -/
def moveItem (conf : Conf) (alloc : Allocs) (s : NlaCoreData) (d : DataPtr) (loc : Nla2dloc) (now : Int64) :
    Except Fault NlaCoreData := do
  let s ← removeDatanodeFromMap conf (conf.nMapMaxLevel.toNat + 1) s (some s.pMapRoot) (some d)
  let s := s.setLoc d loc
  let s ← adddatanode conf alloc (conf.nMapMaxLevel.toNat + 1) s s.pMapRoot d
  return s.setTime d now

/-- `ngx_http_lookaround_setdataloc`. -/
def setdataloc (conf : Conf) (alloc : Allocs) (s : NlaCoreData) (pcszID : CStr) (loc : Nla2dloc)
    (iStatus iType : Int32) (now : Int64) : Except Fault NlaCoreData :=
  match s.getdatanode pcszID with
  | none => s.createItem conf alloc pcszID loc iStatus iType now
  | some d => do
    if ← s.inCell d loc then
      return (s.setLoc d loc).setTime d now
    else
      s.moveItem conf alloc d loc now

end NlaCoreData

/-! ## Runs -/

/-- The arguments of a `setdataloc` call, with the time it reads. -/
structure SetItem where
  id : CStr
  loc : Nla2dloc
  iStatus : Int32
  iType : Int32
  now : Int64

/-- One call, with allocations that succeed. -/
def applySet (conf : Conf) (s : NlaCoreData) (op : SetItem) : Except Fault NlaCoreData :=
  s.setdataloc conf .succeed op.id op.loc op.iStatus op.iType op.now

/-- A sequence of calls. -/
def runSets (conf : Conf) (s : NlaCoreData) (ops : List SetItem) : Except Fault NlaCoreData :=
  Library.run (applySet conf) s ops

/-- `get_around_data` from the root with count 0 returns `ex`. -/
def Returns (conf : Conf) (s : NlaCoreData) (rc : NlaRect) (iStatus iType : Int32) (iMaxCount : Int)
    (ex : NlaExParam) : Prop :=
  ∃ fuel, s.getAroundData conf iStatus iType iMaxCount fuel (some s.pMapRoot) rc ⟨0, [], []⟩ = .ok ex

end Lookaround
