import Lookaround.Handler

/-!
# Dispatch (`ngx_http_lookaround_handler`, `fn_i_get_action`)

* `getAction` : the first segment of a URI, copied byte by byte into a buffer of 33 bytes; `none` is an access behind
  the URI or behind the buffer;
* `handler` : the steps of the handler up to the action it runs; `serve` : the request with that action;
* `getAction_eq` : what is in the buffer afterwards;
* `handler_dispatch` : which URIs run which action.
-/

namespace Lookaround

open Library (Buffer)

/-- The actions, in the order in which the handler compares their names. -/
inductive Action where
  | lookaround
  | setitem
  | getitem
  | getitems
  | reset
  | stat
  | about
  | imok
  | help
  deriving DecidableEq

namespace Action

/-- `NLA_ACTION_LOOKAROUND` and the other names. -/
def name : Action → Bytes
  | lookaround => ascii "lookaround"
  | setitem => ascii "setitem"
  | getitem => ascii "getitem"
  | getitems => ascii "getitems"
  | reset => ascii "reset"
  | stat => ascii "stat"
  | about => ascii "about"
  | imok => ascii "imok"
  | help => ascii "help"

def all : List Action := [lookaround, setitem, getitem, getitems, reset, stat, about, imok, help]

theorem mem_all (a : Action) : a ∈ all := by cases a <;> decide

end Action

/-- `NLA_ACTION_MAXLEN`. -/
def actionMaxLen : Nat := 32

/-- `u_char uachbuf[ NLA_ACTION_MAXLEN + 1 ]`. -/
abbrev ActionBuf := Buffer UInt8 (actionMaxLen + 1)

/-- The bytes at which the copy stops: NUL, `?`, `#` and `/`. -/
def endsAction (c : UInt8) : Bool := c == 0 || c == 63 || c == 35 || c == 47

/-- The loop of `fn_i_get_action`; `left` is `NLA_ACTION_MAXLEN - i`. A URI is in memory, so that its length is not
negative as an `ngx_int_t`. -/
def getActionLoop (uri : Bytes) : Nat → Nat → ActionBuf → Option (Nat × ActionBuf)
  | 0, i, buf => some (i, buf)
  | left + 1, i, buf =>
    if i < uri.length - 2 + 1 then
      uri[i + 1]?.bind fun c =>
        if endsAction c then some (i, buf) else (buf.put i c).bind fun buf => getActionLoop uri left (i + 1) buf
    else some (i, buf)

/-- `fn_i_get_action`; `sizeof( NLA_URI_ROOT )` is 2. -/
def getAction (uri : Bytes) (pszoBuf : ActionBuf) : Option (Nat × ActionBuf) := do
  let buf ← pszoBuf.put 0 0
  if uri.length < 2 then
    return (0, buf)
  let c ← uri[0]?
  if c ≠ 47 then
    return (0, buf)
  let (i, buf) ← getActionLoop uri actionMaxLen 0 buf
  let buf ← buf.put i 0
  return (i, buf)

/-- The comparisons of the handler, with `uachbuf` read up to its first NUL. -/
def dispatch (uachbuf : CStr) : Option Action := Action.all.find? fun a => uachbuf.bytes = a.name

/-- A request as the handler finds it: with what `ngx_http_discard_request_body` and `ngx_http_set_content_type` answer
for it, and what is on the stack where `uachbuf` will be. -/
structure HttpRequest where
  request : Request
  uri : Bytes
  discardRc : Int64
  contentTypeRc : Int64
  uachbuf : ActionBuf

/-- What the handler does: it answers a status, or it runs an action. -/
inductive Dispatched where
  | notAllowed
  | rc (rc : Int64)
  | internalServerError
  | badRequest
  | run (a : Action)
  deriving DecidableEq

/-- `NGX_OK` and `NGX_AGAIN`. -/
def ngxOk : Int64 := 0
def ngxAgain : Int64 := -2

/-- `ngx_http_lookaround_handler`. -/
def handler (r : HttpRequest) : Option Dispatched :=
  if !r.request.isGet then some .notAllowed
  else if r.discardRc ≠ ngxOk ∧ r.discardRc ≠ ngxAgain then some (.rc r.discardRc)
  else if r.contentTypeRc ≠ ngxOk then some .internalServerError
  else do
    let buf ← r.uachbuf.put actionMaxLen 0
    let (_, buf) ← getAction r.uri buf
    match dispatch (CStr.ofBuffer buf.cells) with
    | some a => return .run a
    | none => return .badRequest

/-- What a request comes to: a status of the handler, the reply of an action, or `NGX_DONE`. -/
inductive Answer where
  | status (d : Dispatched)
  | reply (reply : Reply)
  | done

/-- The text of `ngx_http_lookaround_about`. -/
def aboutText : Bytes := ascii "Version 0.1\nDeveloped by Cui Yingjie (nihuo)"

/-- The actions, with allocations that succeed. -/
def runAction (getRectFromLocRadius : Nla2dloc → Int64 → NlaRect) (conf : Conf) (fuel : Nat) (s : NlaCoreData)
    (r : Request) : Action → Except Fault (Answer × NlaCoreData)
  | .lookaround => (lookaround getRectFromLocRadius conf s r fuel).map fun reply => (.reply reply, s)
  | .setitem => (setitem conf .succeed s r).map fun (reply, s) => (.reply reply, s)
  | .getitem => (getitem s r).map fun reply => (.reply reply, s)
  | .getitems => .ok (.done, s)
  | .reset => .ok (.done, s)
  | .stat => .ok (.done, s)
  | .about => .ok (.reply (renderOutput r aboutText .text), s)
  | .imok => .ok (.reply (renderOutput r (ascii "I'm OK") .text), s)
  | .help => .ok (.reply (renderOutput r (ascii "Help") .text), s)

/-- A request, served. -/
def serve (getRectFromLocRadius : Nla2dloc → Int64 → NlaRect) (conf : Conf) (fuel : Nat) (s : NlaCoreData)
    (r : HttpRequest) : Except Fault (Answer × NlaCoreData) :=
  match handler r with
  | none => .error .bufferOverflow
  | some (.run a) => runAction getRectFromLocRadius conf fuel s r.request a
  | some d => .ok (.status d, s)

/-! ## The first segment -/

/-- What the loop copies: the bytes of the segment, as long as there is room. -/
def segment (left : Nat) (rest : Bytes) : Bytes := (rest.takeWhile fun c => !endsAction c).take left

theorem segment_cons_end {c : UInt8} (h : endsAction c = true) (left : Nat) (rest : Bytes) :
    segment left (c :: rest) = [] := by
  rw [segment, List.takeWhile_cons_of_neg (by simp [h]), List.take_nil]

theorem segment_cons {c : UInt8} (h : endsAction c = false) (left : Nat) (rest : Bytes) :
    segment (left + 1) (c :: rest) = c :: segment left rest := by
  rw [segment, List.takeWhile_cons_of_pos (by simp [h]), List.take_succ_cons, segment]

theorem endsAction_of_mem_segment {left : Nat} {rest : Bytes} {c : UInt8} (h : c ∈ segment left rest) :
    endsAction c = false := by
  simpa using List.mem_takeWhile_imp (List.mem_of_mem_take h)

/-- The loop writes the segment of what is behind the root and the bytes it has copied. -/
theorem getActionLoop_eq {uri : Bytes} (hlen : 2 ≤ uri.length) (left i : Nat) (buf : ActionBuf) :
    getActionLoop uri left i buf = (buf.putAll i (segment left (uri.drop (i + 1)))).map fun buf =>
      (i + (segment left (uri.drop (i + 1))).length, buf) := by
  induction left generalizing i buf with
  | zero => rfl
  | succ left ih =>
      rw [getActionLoop]
      cases hrest : uri.drop (i + 1) with
      | nil =>
          rw [List.drop_eq_nil_iff] at hrest
          rw [if_neg (by omega)]
          rfl
      | cons c rest =>
          have hget : uri[i + 1]? = some c := by rw [← List.head?_drop, hrest, List.head?_cons]
          have hlt := (List.getElem?_eq_some_iff.mp hget).1
          have hdrop : uri.drop (i + 1 + 1) = rest := by rw [← List.drop_drop, hrest, List.drop_one, List.tail_cons]
          rw [if_pos (by omega), hget, Option.bind_some]
          cases hc : endsAction c with
          | true =>
              rw [segment_cons_end hc, if_pos rfl]
              rfl
          | false =>
              rw [segment_cons hc, if_neg Bool.false_ne_true, Buffer.putAll, List.length_cons]
              cases buf.put i c with
              | none => rfl
              | some buf' =>
                  rw [Option.bind_some, Option.bind_some, ih, hdrop, Nat.add_right_comm, Nat.add_assoc]

/-- The first segment of a URI, as far as the buffer takes it; nothing for a URI that does not start with `/`. -/
def firstSegment : Bytes → Bytes
  | 47 :: rest => segment actionMaxLen rest
  | _ => []

theorem firstSegment_of_ne {c : UInt8} (h : c ≠ 47) (rest : Bytes) : firstSegment (c :: rest) = [] := by
  unfold firstSegment
  split
  · rename_i heq
    cases heq
    exact absurd rfl h
  · rfl

theorem firstSegment_singleton (c : UInt8) : firstSegment [c] = [] := by
  by_cases hc : c = 47
  · rw [hc]
    rfl
  · exact firstSegment_of_ne hc []

/-- **`fn_i_get_action` stays inside the URI and the buffer**, and leaves the first segment there. -/
theorem getAction_eq (uri : Bytes) (buf : ActionBuf) : ∃ buf',
    getAction uri buf = some ((firstSegment uri).length, buf') ∧
      (CStr.ofBuffer buf'.cells).bytes = firstSegment uri := by
  obtain ⟨buf0, hbuf0, hempty⟩ := (putAll_terminated buf List.not_mem_nil).mpr (by decide)
  rw [List.nil_append, Buffer.putAll_singleton] at hbuf0
  unfold getAction
  rw [hbuf0]
  simp only [bind, Option.bind_some, pure]
  match uri with
  | [] => exact ⟨buf0, rfl, hempty⟩
  | [c] =>
      rw [firstSegment_singleton]
      exact ⟨buf0, rfl, hempty⟩
  | c :: c' :: rest =>
      rw [if_neg (by simp)]
      simp only [List.getElem?_cons_zero, Option.bind_some]
      by_cases hc : c = 47
      · subst hc
        rw [if_neg (by simp), getActionLoop_eq (by simp)]
        have hlen : (segment actionMaxLen (c' :: rest)).length ≤ actionMaxLen := List.length_take_le _ _
        have hnul : 0 ∉ segment actionMaxLen (c' :: rest) := by
          intro h0
          exact absurd (endsAction_of_mem_segment h0) (by decide)
        -- the segment, and the terminator behind it
        obtain ⟨buf', hbuf', hread⟩ := (putAll_terminated buf0 hnul).mpr (Nat.lt_succ_of_le hlen)
        rw [Buffer.putAll_append, Nat.zero_add] at hbuf'
        obtain ⟨buf1, hbuf1, hlast⟩ := Option.bind_eq_some_iff.mp hbuf'
        rw [Buffer.putAll_singleton] at hlast
        refine ⟨buf', ?_, hread⟩
        rw [List.drop_succ_cons, List.drop_zero, hbuf1]
        simp only [Option.map_some, Option.bind_some, Nat.zero_add, hlast]
        rfl
      · rw [if_pos (by simpa using hc), firstSegment_of_ne hc]
        exact ⟨buf0, rfl, hempty⟩

/-! ## Which action runs -/

/-- The URIs of an action: `/`, its name, and nothing or a suffix that starts with `/`, `?`, `#` or NUL. -/
def Action.Accepts (a : Action) (uri : Bytes) : Prop :=
  ∃ suffix, uri = ascii "/" ++ a.name ++ suffix ∧
    (suffix = [] ∨ ∃ c rest, suffix = c :: rest ∧ (c = 47 ∨ c = 63 ∨ c = 35 ∨ c = 0))

theorem endsAction_iff {c : UInt8} : endsAction c = true ↔ c = 47 ∨ c = 63 ∨ c = 35 ∨ c = 0 := by
  simp only [endsAction, Bool.or_eq_true, beq_iff_eq]
  tauto

theorem Action.name_inj {a b : Action} (h : a.name = b.name) : a = b := by
  have hall : ∀ a ∈ Action.all, ∀ b ∈ Action.all, a.name = b.name → a = b := by decide
  exact hall a a.mem_all b b.mem_all h

/-- Names are short, not empty, and have none of the bytes at which the copy stops. -/
theorem Action.name_plain (a : Action) :
    a.name ≠ [] ∧ a.name.length < actionMaxLen ∧ ∀ c ∈ a.name, endsAction c = false := by
  have hall : (a.name.all fun c => !endsAction c) = true := by cases a <;> decide
  refine ⟨by cases a <;> decide, by cases a <;> decide, fun c hc => ?_⟩
  simpa using List.all_eq_true.mp hall c hc

/-- A short name is the copied segment exactly when it is the whole segment. -/
theorem segment_eq_iff {name rest : Bytes} {left : Nat} (hlen : name.length < left)
    (hplain : ∀ c ∈ name, endsAction c = false) : segment left rest = name ↔
      ∃ suffix, rest = name ++ suffix ∧ (suffix = [] ∨ ∃ c tail, suffix = c :: tail ∧ endsAction c = true) := by
  constructor
  · intro h
    have hwhole : (rest.takeWhile fun c => !endsAction c) = name := by
      rw [segment] at h
      have htake := congrArg List.length h
      rw [List.length_take] at htake
      rwa [List.take_of_length_le (by omega)] at h
    refine ⟨rest.dropWhile fun c => !endsAction c, ?_, ?_⟩
    · rw [← hwhole, List.takeWhile_append_dropWhile]
    · cases hdrop : rest.dropWhile fun c => !endsAction c with
      | nil => exact Or.inl rfl
      | cons c tail =>
          have hhead := List.head?_dropWhile_not (fun c => !endsAction c) rest
          rw [hdrop] at hhead
          exact Or.inr ⟨c, tail, rfl, by simpa using hhead⟩
  · rintro ⟨suffix, rfl, hsuffix⟩
    have hnil : (suffix.takeWhile fun c => !endsAction c) = [] := by
      rcases hsuffix with rfl | ⟨c, tail, rfl, hc⟩
      · rfl
      · exact List.takeWhile_cons_of_neg (by simp [hc])
    rw [segment, List.takeWhile_append_of_pos (fun c hc => by simp [hplain c hc]), hnil, List.append_nil]
    exact List.take_of_length_le (Nat.le_of_lt hlen)

theorem firstSegment_eq_iff (a : Action) (uri : Bytes) : firstSegment uri = a.name ↔ a.Accepts uri := by
  obtain ⟨hne, hlen, hplain⟩ := a.name_plain
  unfold firstSegment Action.Accepts
  split
  · rename_i rest
    rw [segment_eq_iff hlen hplain]
    simp only [endsAction_iff]
    constructor
    · rintro ⟨suffix, rfl, hsuffix⟩
      exact ⟨suffix, rfl, hsuffix⟩
    · rintro ⟨suffix, heq, hsuffix⟩
      exact ⟨suffix, List.tail_eq_of_cons_eq heq, hsuffix⟩
  · rename_i hroot
    refine iff_of_false (fun h => hne h.symm) ?_
    rintro ⟨suffix, rfl, -⟩
    exact hroot _ rfl

theorem dispatch_eq_some_iff {uachbuf : CStr} {a : Action} : dispatch uachbuf = some a ↔ uachbuf.bytes = a.name := by
  constructor
  · intro h
    simpa using List.find?_some h
  · intro h
    cases hd : dispatch uachbuf with
    | none =>
        have hnone := List.find?_eq_none.mp hd a a.mem_all
        exact absurd h (by simpa using hnone)
    | some b =>
        have hb : uachbuf.bytes = b.name := by simpa using List.find?_some hd
        rw [Action.name_inj (h.symm.trans hb)]

/-- A GET request that passes the first steps runs the action of its first segment. -/
theorem handler_eq {r : HttpRequest} (hget : r.request.isGet = true)
    (hbody : r.discardRc = ngxOk ∨ r.discardRc = ngxAgain) (htype : r.contentTypeRc = ngxOk) :
    ∃ uachbuf : CStr, uachbuf.bytes = firstSegment r.uri ∧
      handler r = some ((dispatch uachbuf).elim .badRequest .run) := by
  obtain ⟨buf, hbuf, -⟩ := Buffer.put_eq_some (b := r.uachbuf) (by decide : actionMaxLen < actionMaxLen + 1) 0
  obtain ⟨buf', haction, hseg⟩ := getAction_eq r.uri buf
  have hrc : ¬ (r.discardRc ≠ ngxOk ∧ r.discardRc ≠ ngxAgain) := by tauto
  refine ⟨CStr.ofBuffer buf'.cells, hseg, ?_⟩
  rw [handler, hget, if_neg (by decide), if_neg hrc, if_neg (not_not.mpr htype), hbuf]
  simp only [bind, Option.bind_some, haction, pure]
  cases dispatch (CStr.ofBuffer buf'.cells) <;> rfl

theorem handler_run_iff {r : HttpRequest} (hget : r.request.isGet = true)
    (hbody : r.discardRc = ngxOk ∨ r.discardRc = ngxAgain) (htype : r.contentTypeRc = ngxOk) (a : Action) :
    handler r = some (.run a) ↔ a.Accepts r.uri := by
  obtain ⟨uachbuf, hseg, hhandler⟩ := handler_eq hget hbody htype
  rw [← firstSegment_eq_iff, ← hseg, ← dispatch_eq_some_iff, hhandler]
  cases dispatch uachbuf with
  | none => simp
  | some b => simp

/-- **Dispatch accepts exactly its grammar.** A GET request that passes the body and content-type steps runs the action
whose URI it has, and is answered `NGX_HTTP_BAD_REQUEST` when it has the URI of none; for no URI does `fn_i_get_action`
leave the URI or its buffer. -/
theorem handler_dispatch {r : HttpRequest} (hget : r.request.isGet = true)
    (hbody : r.discardRc = ngxOk ∨ r.discardRc = ngxAgain) (htype : r.contentTypeRc = ngxOk) :
    (∀ a, handler r = some (.run a) ↔ a.Accepts r.uri) ∧
      (handler r = some .badRequest ↔ ∀ a : Action, ¬ a.Accepts r.uri) ∧
      ∀ buf, (getAction r.uri buf).isSome = true := by
  obtain ⟨uachbuf, -, hhandler⟩ := handler_eq hget hbody htype
  have hrun := handler_run_iff hget hbody htype
  refine ⟨hrun, ?_, fun buf => ?_⟩
  · constructor
    · intro hbad a ha
      rw [(hrun a).mpr ha] at hbad
      cases hbad
    · intro hnone
      cases hd : dispatch uachbuf with
      | none => rw [hhandler, hd, Option.elim_none]
      | some b =>
          refine absurd ((hrun b).mp ?_) (hnone b)
          rw [hhandler, hd, Option.elim_some]
  · obtain ⟨buf', hbuf', -⟩ := getAction_eq r.uri buf
    rw [hbuf']
    rfl

/-- An action runs only behind the first steps. -/
theorem handler_run_steps {r : HttpRequest} {a : Action} (h : handler r = some (.run a)) :
    r.request.isGet = true ∧ (r.discardRc = ngxOk ∨ r.discardRc = ngxAgain) ∧ r.contentTypeRc = ngxOk := by
  unfold handler at h
  by_cases hget : r.request.isGet = true
  · by_cases hbody : r.discardRc ≠ ngxOk ∧ r.discardRc ≠ ngxAgain
    · rw [hget, if_neg (by decide), if_pos hbody] at h
      cases h
    · by_cases htype : r.contentTypeRc = ngxOk
      · exact ⟨hget, by tauto, htype⟩
      · rw [hget, if_neg (by decide), if_neg hbody, if_pos htype] at h
        cases h
  · rw [Bool.not_eq_true] at hget
    rw [hget] at h
    cases h

theorem runAction_frame {getRectFromLocRadius : Nla2dloc → Int64 → NlaRect} {conf : Conf} {fuel : Nat}
    {s s' : NlaCoreData} {r : Request} {a : Action} {answer : Answer} (ha : a ≠ .setitem)
    (h : runAction getRectFromLocRadius conf fuel s r a = .ok (answer, s')) : s' = s := by
  have hmap : ∀ reply : Except Fault Reply, (reply.map fun reply => (Answer.reply reply, s)) = .ok (answer, s') →
      s' = s := by
    intro reply hreply
    cases reply with
    | error e => cases hreply
    | ok reply =>
        cases hreply
        rfl
  cases a with
  | setitem => exact absurd rfl ha
  | lookaround => exact hmap _ h
  | getitem => exact hmap _ h
  | getitems | reset | stat | about | imok | help =>
      cases h
      rfl

/-- **Only `setitem` writes**: a request without the URI of `setitem` leaves the core data alone. -/
theorem serve_frame {getRectFromLocRadius : Nla2dloc → Int64 → NlaRect} {conf : Conf} {fuel : Nat}
    {s s' : NlaCoreData} {r : HttpRequest} {answer : Answer} (hset : ¬ Action.setitem.Accepts r.uri)
    (h : serve getRectFromLocRadius conf fuel s r = .ok (answer, s')) : s' = s := by
  unfold serve at h
  split at h
  · cases h
  · rename_i a ha
    refine runAction_frame ?_ h
    rintro rfl
    obtain ⟨hget, hbody, htype⟩ := handler_run_steps ha
    exact hset ((handler_run_iff hget hbody htype _).mp ha)
  · cases h
    rfl

/-- A GET request for the given URI. -/
def getUri (uri : Bytes) : HttpRequest where
  request := { args := [], isGet := true, now := 0 }
  uri := uri
  discardRc := ngxOk
  contentTypeRc := ngxOk
  uachbuf := Buffer.replicate _ 255

/-- `getitem` with a suffix, `getitems`, a segment of 33 bytes, and the root. -/
theorem handler_dispatch_getitem : handler (getUri (ascii "/getitem/x")) = some (.run .getitem) ∧
    handler (getUri (ascii "/getitems")) = some (.run .getitems) ∧
    handler (getUri (ascii "/" ++ List.replicate 33 97)) = some .badRequest ∧
    handler (getUri (ascii "/")) = some .badRequest := by
  have hdispatch : ∀ uri, (∀ a, handler (getUri uri) = some (.run a) ↔ a.Accepts uri) ∧ _ := fun uri =>
    handler_dispatch (r := getUri uri) rfl (Or.inl rfl) rfl
  refine ⟨((hdispatch _).1 _).mpr ⟨ascii "/x", rfl, Or.inr ⟨47, [120], rfl, Or.inl rfl⟩⟩,
    ((hdispatch _).1 _).mpr ⟨[], rfl, Or.inl rfl⟩, by decide +kernel, by decide +kernel⟩

end Lookaround
