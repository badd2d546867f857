import Lookaround.Bytes
import Lookaround.Rect

/-!
# Data items and their text (`nla_data_item`, `fn_v_FormatDeg`, `fn_v_FormatDataItem`)

* `NlaDataItem` : the record, `achId` being its 32 bytes;
* `fmtInt`, `fmtInt06` : the conversions `%d` (also `%lld`) and `%06d`;
* `formatDeg`, `formatDataItem` : the texts the module prints; `Nla2dloc.fits` : when printing stays in its buffers.
-/

namespace Lookaround

/-- `NLA_DATA_ID_MAX_LEN`. -/
def dataIdMaxLen : Nat := 32

/-- `nla_data_item`. -/
structure NlaDataItem where
  achId : Bytes
  iStatus : Int32
  iType : Int32
  loc : Nla2dloc
  lastUpdateTime : Int64
  deriving DecidableEq

/-- `strcpy` of an id into the zeroed `ach_id`: the terminator of an id of 32 bytes falls behind the field, on
`i_status`, which is written next. -/
def strcpyId (id : CStr) : Bytes := (id.bytes ++ List.replicate dataIdMaxLen 0).take dataIdMaxLen

theorem length_strcpyId (id : CStr) : (strcpyId id).length = dataIdMaxLen := by
  rw [strcpyId, List.length_take, List.length_append, List.length_replicate]
  omega

theorem strcpyId_eq {id : CStr} (h : id.bytes.length ≤ dataIdMaxLen) :
    strcpyId id = id.bytes ++ List.replicate (dataIdMaxLen - id.bytes.length) 0 := by
  rw [strcpyId, List.take_append, List.take_of_length_le h, List.take_replicate, Nat.min_eq_left (Nat.sub_le _ _)]

/-- The little-endian bytes of an `int`. -/
def intBytes (x : Int32) : Bytes :=
  let u := x.toUInt32
  [u.toUInt8, (u >>> 8).toUInt8, (u >>> 16).toUInt8, (u >>> 24).toUInt8]

/-- The little-endian bytes of a `time_t`. -/
def timeBytes (x : Int64) : Bytes :=
  let u := x.toUInt64
  [u.toUInt8, (u >>> 8).toUInt8, (u >>> 16).toUInt8, (u >>> 24).toUInt8, (u >>> 32).toUInt8, (u >>> 40).toUInt8,
    (u >>> 48).toUInt8, (u >>> 56).toUInt8]

@[simp] theorem length_intBytes (x : Int32) : (intBytes x).length = 4 := rfl

@[simp] theorem length_timeBytes (x : Int64) : (timeBytes x).length = 8 := rfl

/-- The memory of an item. -/
def NlaDataItem.memory (data : NlaDataItem) : Bytes :=
  data.achId ++ intBytes data.iStatus ++ intBytes data.iType ++ intBytes data.loc.lat ++ intBytes data.loc.lon ++
    timeBytes data.lastUpdateTime

/-- What `%s` prints of `pData->ach_id`. -/
def NlaDataItem.idText (data : NlaDataItem) : Bytes := (CStr.ofBuffer data.memory).bytes

/-! ## `sprintf` -/

/-- Decimal digits, without leading zeros. -/
def fmtNat (n : Nat) : Bytes := (Nat.toDigits 10 n).map fun c => c.toNat.toUInt8

/-- `%d`. -/
def fmtInt (x : Int) : Bytes := if x < 0 then ascii "-" ++ fmtNat x.natAbs else fmtNat x.natAbs

/-- Zeros in front, up to `width` bytes. -/
def padZeros (width : Nat) (digits : Bytes) : Bytes := List.replicate (width - digits.length) 48 ++ digits

/-- `%06d`: the sign counts as one of the six places. -/
def fmtInt06 (x : Int) : Bytes :=
  if x < 0 then ascii "-" ++ padZeros 5 (fmtNat x.natAbs) else padZeros 6 (fmtNat x.natAbs)

/-- `fn_v_FormatDeg`. -/
def formatDeg (deg : NLADeg) : Bytes :=
  fmtInt (deg / 1000000).toInt ++ ascii "." ++ fmtInt06 (deg % 1000000).toInt

/-- `fn_v_FormatDataItem`. -/
def formatDataItem (data : NlaDataItem) : Bytes :=
  ascii "\x7b\"id\":\"" ++ data.idText ++
  ascii "\",\"status\":\"" ++ fmtInt data.iStatus.toInt ++
  ascii "\",\"type\":\"" ++ fmtInt data.iType.toInt ++
  ascii "\",\"lat\":\"" ++ formatDeg data.loc.lat ++
  ascii "\",\"lon\":\"" ++ formatDeg data.loc.lon ++
  ascii "\",\"uptime\":\"" ++ fmtInt data.lastUpdateTime.toInt ++ ascii "\"\x7d"

/-- `NLA_DEG_MAX_BUF_LEN`: the size of `achBufLat` and `achBufLon`. -/
def degMaxBufLen : Nat := 12

/-- `fn_v_FormatDataItem` writes the two coordinates, each with its terminator, inside its local buffers. -/
def Nla2dloc.fits (loc : Nla2dloc) : Bool :=
  (formatDeg loc.lat).length < degMaxBufLen && (formatDeg loc.lon).length < degMaxBufLen

example : formatDeg (-1500000) = ascii "-1.-500000" := by decide

end Lookaround
