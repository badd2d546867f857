import Lookaround.Library.Pool
import Lookaround.Library.Run
import Lookaround.StrMap

/-!
# The string map in its pool (`ngx_http_lookaround_strmap.c`)

The string map once more, now with the blocks it is made of: the header, the bucket array, a pair array for each bucket
and a copy of each key, all from one pool of `libmm`. `mm_calloc` answers a zeroed block or NULL, `mm_realloc` keeps the
old cells and answers the block where it was, moved, or NULL, and `mm_free` does nothing for NULL. `free` of a block that
`malloc` did not hand out is undefined, as is an access outside the blocks: both end the run with a `Misuse`.

* `smNew`, `smPutPtrvalue`, `smGetPtrvalue`, `smRemovePtrvalue`, `smExists`, `smPtrvalueDelete` : maps of pointers;
* `smPut`, `smGet`, `smDelete` : maps of strings, whose copies are in the pool as well.
-/

namespace Lookaround

namespace Pooled

open Library

/-- Undefined behaviour. -/
inductive Misuse where
  /-- outside the blocks of the pool, or beyond the end of one -/
  | access
  /-- `free` of a block of the pool -/
  | free
  deriving DecidableEq

/-! ## Blocks -/

/-- `Pair`: the value is a `void *`, of any type, or a `char *` into the pool. -/
structure Pair (V : Type) where
  key : Option Addr
  value : Option V

/-- `Bucket`. -/
structure Bucket where
  count : Nat
  pairs : Option Addr

/-- `StrMap`. -/
structure Header where
  count : Nat
  buckets : Addr

inductive Block (V : Type) where
  | chars (cells : Bytes)
  | pairs (cells : List (Pair V))
  | buckets (cells : List Bucket)
  | map (header : Header)

variable {V : Type}

def charsAt (h : Pool (Block V)) (a : Addr) : Except Misuse Bytes :=
  match h.load a with
  | some (.chars cells) => .ok cells
  | _ => .error .access

def pairsAt (h : Pool (Block V)) (a : Addr) : Except Misuse (List (Pair V)) :=
  match h.load a with
  | some (.pairs cells) => .ok cells
  | _ => .error .access

def bucketsAt (h : Pool (Block V)) (a : Addr) : Except Misuse (List Bucket) :=
  match h.load a with
  | some (.buckets cells) => .ok cells
  | _ => .error .access

def mapAt (h : Pool (Block V)) (a : Addr) : Except Misuse Header :=
  match h.load a with
  | some (.map header) => .ok header
  | _ => .error .access

/-- A NULL pointer, or one into the pool. -/
def nonNull (a : Option Addr) : Except Misuse Addr := a.elim (.error .access) .ok

def checked {α : Type} (x : Option α) : Except Misuse α := x.elim (.error .access) .ok

/-! ## `libmm` and `string.h` -/

/-- `mm_calloc`. -/
def mmCalloc (granted : Bool) (h : Pool (Block V)) (b : Block V) : Option Addr × Pool (Block V) :=
  if granted then (some (h.alloc b).1, (h.alloc b).2) else (none, h)

/-- What `mm_realloc` may do. -/
inductive Resize where
  | refused
  | inPlace
  | moved
  deriving DecidableEq

/-- `mm_realloc` of the block at `a`, which is to be `b` then. -/
def mmRealloc (r : Resize) (h : Pool (Block V)) (a : Addr) (b : Block V) : Except Misuse (Option Addr × Pool (Block V)) :=
  match r with
  | .refused => .ok (none, h)
  | .inPlace => do
    let h ← checked (h.store a b)
    return (some a, h)
  | .moved => do
    let h' ← checked ((h.alloc b).2.free a)
    return (some (h.alloc b).1, h')

/-- `mm_free`. -/
def mmFree (h : Pool (Block V)) : Option Addr → Except Misuse (Pool (Block V))
  | none => .ok h
  | some a => checked (h.free a)

/-- `strcmp(...) == 0` of two texts with their terminators; `none` is a read beyond the end. -/
def strcmp : Bytes → Bytes → Option Bool
  | a :: as, b :: bs => if a ≠ b then some false else if a = 0 then some true else strcmp as bs
  | _, _ => none

/-- `strlen`. -/
def strlen (cells : Bytes) : Option Nat := cells.findIdx? (· = 0)

/-- `strcpy`; `none` is a write beyond the end. -/
def strcpy (cells : Bytes) (src : CStr) : Option Bytes :=
  if src.bytes.length + 1 ≤ cells.length then some (src.bytes ++ 0 :: cells.drop (src.bytes.length + 1)) else none

/-- `strcpy` into a block. -/
def strcpyTo (h : Pool (Block V)) (a : Addr) (src : CStr) : Except Misuse (Pool (Block V)) := do
  let cells ← charsAt h a
  let cells ← checked (strcpy cells src)
  checked (h.store a (.chars cells))

/-! ## Maps of pointers -/

/-- `sm_new`: the outcomes of its two allocations. -/
def smNew (okMap okBuckets : Bool) (h : Pool (Block V)) (capacity : Nat) : Except Misuse (Option Addr × Pool (Block V)) :=
  match mmCalloc okMap h (.map ⟨0, 0⟩) with
  | (none, h) => .ok (none, h)
  | (some map, h) =>
    match mmCalloc okBuckets h (.buckets (List.replicate capacity ⟨0, none⟩)) with
    | (none, _) => .error .free
    | (some buckets, h) => do
      let h ← checked (h.store map (.map ⟨capacity, buckets⟩))
      return (some map, h)

/-- `&map->buckets[hash(key) % map->count]`: the bucket array, the index and the bucket. -/
def bucketFor (h : Pool (Block V)) (map : Addr) (key : CStr) : Except Misuse (Addr × List Bucket × Nat × Bucket) := do
  let header ← mapAt h map
  let buckets ← bucketsAt h header.buckets
  let index := (StrMap.hash key).toNat % header.count
  let bucket ← checked buckets[index]?
  return (header.buckets, buckets, index, bucket)

/-- The pairs of a bucket, read one by one. -/
def pairsOf (h : Pool (Block V)) (bucket : Bucket) : Except Misuse (List (Pair V)) :=
  if bucket.count = 0 then .ok []
  else do
    let a ← nonNull bucket.pairs
    let pairs ← pairsAt h a
    if pairs.length < bucket.count then .error .access else .ok (pairs.take bucket.count)

/-- The loop of `get_pair`. -/
def getPairLoop (h : Pool (Block V)) (key : CStr) : List (Pair V) → Except Misuse (Option Nat)
  | [] => .ok none
  | pair :: rest =>
    match pair.key, pair.value with
    | some k, some _ => do
      let cells ← charsAt h k
      let same ← checked (strcmp cells (key.bytes ++ [0]))
      if same then return some 0
      let i ← getPairLoop h key rest
      return i.map (· + 1)
    | _, _ => do
      let i ← getPairLoop h key rest
      return i.map (· + 1)

/-- `get_pair`: the index of the pair in the array. -/
def getPair (h : Pool (Block V)) (bucket : Bucket) (key : CStr) : Except Misuse (Option (Nat × Pair V)) := do
  let pairs ← pairsOf h bucket
  let i ← getPairLoop h key pairs
  match i with
  | none => return none
  | some i => do
    let pair ← checked pairs[i]?
    return some (i, pair)

/-- A write to `bucket->pairs[i]`. -/
def setPair (h : Pool (Block V)) (bucket : Bucket) (i : Nat) (pair : Pair V) : Except Misuse (Pool (Block V)) := do
  let a ← nonNull bucket.pairs
  let pairs ← pairsAt h a
  if i < pairs.length then checked (h.store a (.pairs (pairs.set i pair))) else .error .access

/-- `sm_get_ptrvalue`. -/
def smGetPtrvalue (h : Pool (Block V)) (map : Addr) (key : CStr) : Except Misuse (Option V) := do
  let (_, _, _, bucket) ← bucketFor h map key
  let found ← getPair h bucket key
  return found.bind fun e => e.2.value

/-- `sm_exists`. -/
def smExists (h : Pool (Block V)) (map : Addr) (key : CStr) : Except Misuse Bool := do
  let (_, _, _, bucket) ← bucketFor h map key
  let found ← getPair h bucket key
  return found.isSome

/-- `sm_remove_ptrvalue`. -/
def smRemovePtrvalue (h : Pool (Block V)) (map : Addr) (key : CStr) : Except Misuse (Pool (Block V)) := do
  let (_, _, _, bucket) ← bucketFor h map key
  match ← getPair h bucket key with
  | none => return h
  | some (i, pair) => do
    let h ← mmFree h pair.key
    setPair h bucket i ⟨none, none⟩

/-- The outcomes of the allocations of a put. -/
structure PutAllocs where
  key : Bool
  value : Bool
  pairs : Bool
  resize : Resize

/-- Room for one more pair in a bucket: the new bucket, which is written to the bucket array. -/
def growBucket (alloc : PutAllocs) (h : Pool (Block V)) (bucket : Bucket) : Except Misuse (Bucket × Pool (Block V)) :=
  if bucket.count = 0 then
    match mmCalloc alloc.pairs h (.pairs [⟨none, none⟩]) with
    | (none, _) => .error .free
    | (some pairs, h) => .ok (⟨1, some pairs⟩, h)
  else do
    let a ← nonNull bucket.pairs
    let pairs ← pairsAt h a
    match ← mmRealloc alloc.resize h a (.pairs (pairs ++ [⟨none, none⟩])) with
    | (none, _) => .error .free
    | (some pairs, h) => .ok (⟨bucket.count + 1, some pairs⟩, h)

/-- What both puts do with a new pair: `key` is copied to the block `newKey`. -/
def addPair (alloc : PutAllocs) (h : Pool (Block V)) (buckets : Addr) (cells : List Bucket) (index : Nat) (bucket : Bucket)
    (newKey : Addr) (key : CStr) (value : Option V) : Except Misuse (Pool (Block V)) := do
  let (bucket, h) ← growBucket alloc h bucket
  let h ← checked (h.store buckets (.buckets (cells.set index bucket)))
  let h ← setPair h bucket (bucket.count - 1) ⟨some newKey, value⟩
  strcpyTo h newKey key

/-- `sm_put_ptrvalue`: the returned 1 or 0, and the pool. -/
def smPutPtrvalue (alloc : PutAllocs) (h : Pool (Block V)) (map : Addr) (key : CStr) (value : Option V) :
    Except Misuse (Bool × Pool (Block V)) := do
  let (buckets, cells, index, bucket) ← bucketFor h map key
  match ← getPair h bucket key with
  | some (i, pair) => do
    let h ← setPair h bucket i { pair with value := value }
    return (true, h)
  | none =>
    match mmCalloc alloc.key h (.chars (List.replicate (key.bytes.length + 1) 0)) with
    | (none, h) => return (false, h)
    | (some newKey, h) => do
      let h ← addPair alloc h buckets cells index bucket newKey key value
      return (true, h)

/-- The inner loop of the two deletes. -/
def deletePairs (freeValue : Pool (Block V) → Option V → Except Misuse (Pool (Block V))) (h : Pool (Block V))
    (pairs : List (Pair V)) : Except Misuse (Pool (Block V)) :=
  pairs.foldlM (fun h pair => do
    let h ← mmFree h pair.key
    freeValue h pair.value) h

/-- What both deletes do; they differ in the values. -/
def deleteWith (freeValue : Pool (Block V) → Option V → Except Misuse (Pool (Block V))) (h : Pool (Block V)) (map : Addr) :
    Except Misuse (Pool (Block V)) := do
  let header ← mapAt h map
  let buckets ← bucketsAt h header.buckets
  let h ← (buckets.take header.count).foldlM (fun h bucket => do
    let pairs ← pairsOf h bucket
    let h ← deletePairs freeValue h pairs
    mmFree h bucket.pairs) h
  let h ← mmFree h (some header.buckets)
  mmFree h (some map)

/-- `sm_ptrvalue_delete`. -/
def smPtrvalueDelete (h : Pool (Block V)) (map : Addr) : Except Misuse (Pool (Block V)) :=
  deleteWith (fun h _ => .ok h) h map

/-! ## Maps of strings -/

/-- The old block `old` of a value, which has `text`, is resized to a longer one. -/
def lengthenText (alloc : PutAllocs) (h : Pool (Block Addr)) (bucket : Bucket) (i : Nat) (pair : Pair Addr) (old : Addr)
    (text : Bytes) (value : CStr) : Except Misuse (Bool × Pool (Block Addr)) := do
  let longer := (text ++ List.replicate value.bytes.length 0).take (value.bytes.length + 1)
  match ← mmRealloc alloc.resize h old (.chars longer) with
  | (none, h) => return (false, h)
  | (some new, h) => do
    let h ← setPair h bucket i { pair with value := some new }
    let h ← strcpyTo h new value
    return (true, h)

/-- The part of `sm_put` for a key that is there. -/
def replaceText (alloc : PutAllocs) (h : Pool (Block Addr)) (bucket : Bucket) (i : Nat) (pair : Pair Addr) (value : CStr) :
    Except Misuse (Bool × Pool (Block Addr)) := do
  let old ← nonNull pair.value
  let text ← charsAt h old
  let len ← checked (strlen text)
  if len < value.bytes.length then lengthenText alloc h bucket i pair old text value
  else do
    let h ← strcpyTo h old value
    return (true, h)

/-- `sm_put`. -/
def smPut (alloc : PutAllocs) (h : Pool (Block Addr)) (map : Addr) (key value : CStr) :
    Except Misuse (Bool × Pool (Block Addr)) := do
  let (buckets, cells, index, bucket) ← bucketFor h map key
  match ← getPair h bucket key with
  | some (i, pair) => replaceText alloc h bucket i pair value
  | none =>
    match mmCalloc alloc.key h (.chars (List.replicate (key.bytes.length + 1) 0)) with
    | (none, h) => return (false, h)
    | (some newKey, h) =>
      match mmCalloc alloc.value h (.chars (List.replicate (value.bytes.length + 1) 0)) with
      | (none, _) => .error .free
      | (some newValue, h) => do
        let h ← addPair alloc h buckets cells index bucket newKey key (some newValue)
        let h ← strcpyTo h newValue value
        return (true, h)

/-- `sm_get` with its buffer, or without one: the returned number, and the buffer. -/
def smGet (h : Pool (Block Addr)) (map : Addr) (key : CStr) (outBuf : Option Bytes) (nOutBuf : Nat) :
    Except Misuse (Nat × Option Bytes) := do
  let (_, _, _, bucket) ← bucketFor h map key
  match ← getPair h bucket key with
  | none => return (0, outBuf)
  | some (_, pair) => do
    let value ← nonNull pair.value
    let text ← charsAt h value
    let len ← checked (strlen text)
    match outBuf with
    | none => if nOutBuf = 0 then return (len + 1, none) else return (0, none)
    | some buf =>
      if nOutBuf ≤ len then return (0, some buf)
      else do
        let buf ← checked (strcpy buf (CStr.ofBuffer text))
        return (1, some buf)

/-- `sm_delete`. -/
def smDelete (h : Pool (Block Addr)) (map : Addr) : Except Misuse (Pool (Block Addr)) := deleteWith mmFree h map

end Pooled

end Lookaround
