/-
  NetServer.Chat.History — `GET /api/rooms/{id}/messages` of
  `features/chat/http_chat.c`.

  `handle_messages_get` reads two numbers from the query, cuts the second to
  a page size and asks `chat_room_since` for the page, whatever the first one
  is.  The page the API describes is `documentedPage`: the newest messages
  when no cursor is given, the next ones above the cursor otherwise.

  Main results:
    • `strtol_longText`  — what is read from the text of a number;
    • `handleMessagesGet_documented_iff` — when the answer is the documented
      page: always above a cursor, and without one as long as the room fits
      on the page.
-/
import NetServer.Chat.Json
import NetServer.Http.Proto

namespace NetServer.Chat

open NetServer.Lib
open NetServer.Lib.OrderedLog
open NetServer.Http

/-! ## §1. The handler. -/

/-- The page size for a limit: at least 1, at most 100. -/
def clampLimit (limit : Int) : Nat :=
  let limit := if limit < 1 then 1 else limit
  let limit := if 100 < limit then 100 else limit
  limit.toNat

/-- `since` of the query; the value is read into `tmp[32]`. -/
def querySince (query : List UInt8) : Int :=
  match httpQueryGet query (ascii "since") 32 with
  | some tmp => strtol tmp
  | none => 0

/-- `limit` of the query, before it is cut to a page size. -/
def queryLimit (query : List UInt8) : Int :=
  match httpQueryGet query (ascii "limit") 32 with
  | some tmp => atoi tmp
  | none => 50

/-- The messages `handle_messages_get` answers with. -/
def handleMessagesGet (db : ChatDb) (roomId : Int) (query : List UInt8) : List ChatMsg :=
  chatDbMessagesSince db roomId (querySince query) (clampLimit (queryLimit query)) 100

/-! ## §2. The documented page. -/

/-- The messages of a room above a cursor. -/
def rowsAbove (db : ChatDb) (roomId since : Int) : List MessageRow :=
  (db.roomRows roomId).filter (fun m => since < m.id)

/-- The page of the API's description: the newest messages without a cursor, the
first ones above it otherwise. -/
def documentedPage (db : ChatDb) (roomId : Int) (since limit : Option Int) : List ChatMsg :=
  let page := clampLimit (limit.getD 50)
  if since.getD 0 = 0 then
    ((db.roomRows roomId).drop ((db.roomRows roomId).length - page)).map rowToMsg
  else ((rowsAbove db roomId (since.getD 0)).take page).map rowToMsg

/-- A query gives a parameter the text of a number, or does not have it.  The
handler sees as much of the text as its buffer takes. -/
def Carries (query key : List UInt8) (n : Option Int) : Prop :=
  httpQueryGet query key 32 = n.map fun n => (longText n).take 31

/-- A number as an `int`: first as the nearest `long`, then its low 32 bits. -/
def asInt (n : Int) : Int := Int.bmod (max longMin (min n longMax)) (2 ^ 32)

/-- The answer to a request is the documented page: without a cursor the room
fits on the page, above a cursor the page ends where it should.  Both pages
count: the one asked for, and the one of the limit read as an `int`. -/
def PageFits (db : ChatDb) (roomId : Int) (since limit : Option Int) : Prop :=
  let asked := clampLimit (limit.getD 50)
  let read := clampLimit ((limit.map asInt).getD 50)
  let count := (rowsAbove db roomId (since.getD 0)).length
  if since.getD 0 = 0 then count ≤ asked ∧ count ≤ read else min asked count = min read count

/-! ## §3. Reading a number. -/

/-- The first `k` digits of a number are the number, as far as it is below a
bound of fewer digits. -/
theorem decimalValue_take (n : Nat) {k bound : Nat} (hk : 0 < k) (hbound : bound ≤ 10 ^ (k - 1)) :
    min (decimalValue ((decimal n).take k)) bound = min n bound := by
  by_cases hn : n < 10 ^ k
  · rw [List.take_of_length_le (decimal_length hk hn), decimalValue_decimal]
  -- more than `k` digits: both sides are the bound
  have hpow : 10 ^ (k - 1) ≤ 10 ^ k := Nat.pow_le_pow_right (by decide) (by omega)
  have hnum := decimal_numeral n
  have hlen : k < (decimal n).length := by
    have hn0 : n ≠ 0 := by
      rintro rfl
      exact hn (Nat.pow_pos (by decide))
    unfold decimal
    rw [if_neg hn0, List.length_map, List.length_reverse]
    by_contra hle
    exact hn ((Nat.digits_length_le_iff (by decide) n).mp (by omega))
  obtain ⟨d, ds, hds⟩ := List.exists_cons_of_ne_nil hnum.nonempty
  obtain ⟨j, rfl⟩ : ∃ j, k = j + 1 := ⟨k - 1, by omega⟩
  rw [hds] at hlen
  have hd0 : d ≠ 48 := by
    rintro rfl
    have hone := hnum.head (by rw [hds]; rfl)
    rw [hds] at hone
    omega
  have hd : isDigit d = true := hnum.digits d (by rw [hds]; exact List.mem_cons_self)
  have hbig := pow_le_decimalValue (ds.take j) hd hd0
  have htake : (ds.take j).length = j := by
    rw [List.length_take]
    simp only [List.length_cons] at hlen
    omega
  rw [htake] at hbig
  rw [hds, List.take_succ_cons, min_eq_right (le_trans hbound hbig), min_eq_right]
  omega

/-- **Reading a number back.**  `strtol` of as much of its text as the buffer
takes is the number, or the end of the range it is beyond. -/
theorem strtol_longText (n : Int) :
    strtol ((longText n).take 31) = max longMin (min n longMax) := by
  have hdigits : ∀ m k, ∀ d ∈ (decimal m).take k, isDigit d = true :=
    fun m k d hd => (decimal_numeral m).digits d (List.mem_of_mem_take hd)
  unfold longText
  by_cases hn : n < 0
  · have hval := @decimalValue_take n.natAbs 30 (2 ^ 63) (by decide) (by decide)
    rw [if_pos hn, List.take_succ_cons, strtol_minus (hdigits _ _)]
    unfold longMin longMax
    omega
  · have hval := @decimalValue_take n.toNat 31 (2 ^ 63 - 1) (by decide) (by decide)
    have hne : (decimal n.toNat).take 31 ≠ [] := by
      intro hnil
      exact (decimal_numeral n.toNat).nonempty (List.take_eq_nil_iff.mp hnil |>.resolve_left (by decide))
    have hstr := @strtol_digits _ [] 0 hne (hdigits _ _) rfl
    rw [List.append_nil] at hstr
    rw [if_neg hn, show (decimal n.toNat).take 31 = List.replicate 0 32 ++ (decimal n.toNat).take 31
      from rfl, hstr]
    unfold longMin longMax
    omega

theorem querySince_eq {query : List UInt8} {since : Option Int}
    (h : Carries query (ascii "since") since) :
    querySince query = max longMin (min (since.getD 0) longMax) := by
  unfold querySince
  rw [h]
  cases since with
  | none => decide
  | some n => exact strtol_longText n

theorem queryLimit_eq {query : List UInt8} {limit : Option Int}
    (h : Carries query (ascii "limit") limit) : queryLimit query = (limit.map asInt).getD 50 := by
  unfold queryLimit
  rw [h]
  cases limit with
  | none => rfl
  | some n =>
    show atoi ((longText n).take 31) = asInt n
    unfold atoi asInt
    rw [strtol_longText]

/-! ## §4. The answer. -/

theorem clampLimit_range (limit : Int) : 0 < clampLimit limit ∧ clampLimit limit ≤ 100 := by
  unfold clampLimit
  dsimp only
  split <;> split <;> omega

/-- The answer: the first messages above the cursor. -/
theorem handleMessagesGet_eq {db : ChatDb} (hdb : db.Wf) (roomId : Int) {query : List UInt8}
    {since limit : Option Int} (hsince : Carries query (ascii "since") since)
    (hlimit : Carries query (ascii "limit") limit) (hpos : 0 ≤ since.getD 0) :
    handleMessagesGet db roomId query
      = ((rowsAbove db roomId (since.getD 0)).take (clampLimit ((limit.map asInt).getD 50))).map
          rowToMsg := by
  unfold handleMessagesGet
  rw [messagesSince_eq hdb, querySince_eq hsince, queryLimit_eq hlimit,
    Nat.min_eq_left (clampLimit_range _).2]
  -- a cursor beyond the range of `long` is beyond every id
  have hrows : (db.roomRows roomId).filter
      (fun m => max longMin (min (since.getD 0) longMax) < m.id)
      = rowsAbove db roomId (since.getD 0) := by
    unfold rowsAbove
    apply List.filter_congr
    intro m hm
    have hle := hdb.le_seq m (mem_roomRows.mp hm).1
    have hlt := hdb.seq_lt
    have hmin : longMin ≤ 0 := by decide
    congr 1
    apply propext
    constructor <;> intro h <;> omega
  rw [hrows]

/-- Messages keep the ids of their rows, so equal pages have equal rows. -/
theorem map_rowToMsg_inj {db : ChatDb} (hdb : db.Wf) {l l' : List MessageRow}
    (hl : ∀ m ∈ l, m ∈ db.messages) (hl' : ∀ m ∈ l', m ∈ db.messages)
    (h : l.map rowToMsg = l'.map rowToMsg) : l = l' := by
  have hids : l.map MessageRow.id = l'.map MessageRow.id := by
    have hmap := congrArg (List.map ChatMsg.id) h
    rw [List.map_map, List.map_map] at hmap
    exact hmap
  induction l generalizing l' with
  | nil =>
    cases l' with
    | nil => rfl
    | cons m' l' => exact absurd hids (by simp)
  | cons m l ih =>
    cases l' with
    | nil => exact absurd hids (by simp)
    | cons m' l' =>
      simp only [List.map_cons, List.cons.injEq] at hids h
      have hm := eq_of_key_eq hdb.ascending (hl m List.mem_cons_self) (hl' m' List.mem_cons_self)
        hids.1
      rw [hm, ih (fun x hx => hl x (List.mem_cons_of_mem _ hx))
        (fun x hx => hl' x (List.mem_cons_of_mem _ hx)) h.2 hids.2]

/-- **When the answer is the documented page.**  For every table, every request
whose parameters are numbers or absent and whose cursor is not negative: exactly
when `PageFits`. -/
theorem handleMessagesGet_documented_iff {db : ChatDb} (hdb : db.Wf) (roomId : Int)
    {query : List UInt8} {since limit : Option Int} (hsince : Carries query (ascii "since") since)
    (hlimit : Carries query (ascii "limit") limit) (hpos : 0 ≤ since.getD 0) :
    handleMessagesGet db roomId query = documentedPage db roomId since limit
      ↔ PageFits db roomId since limit := by
  rw [handleMessagesGet_eq hdb roomId hsince hlimit hpos]
  have hmem : ∀ m ∈ rowsAbove db roomId (since.getD 0), m ∈ db.messages := by
    intro m hm
    exact (mem_roomRows.mp (List.mem_of_mem_filter hm)).1
  unfold documentedPage PageFits
  dsimp only
  have hread := (clampLimit_range ((limit.map asInt).getD 50)).1
  have hasked := (clampLimit_range (limit.getD 50)).1
  split
  · -- without a cursor every message of the room is above it
    rename_i hzero
    have hall : rowsAbove db roomId (since.getD 0) = db.roomRows roomId := by
      unfold rowsAbove
      rw [List.filter_eq_self]
      intro m hm
      have hpos := hdb.pos m (mem_roomRows.mp hm).1
      rw [decide_eq_true_eq]
      omega
    rw [hall] at hmem ⊢
    rw [and_comm, ← take_eq_newest_iff (roomRows_ascending hdb roomId) hread hasked]
    constructor
    · intro h
      exact map_rowToMsg_inj hdb (fun m hm => hmem m (List.mem_of_mem_take hm))
        (fun m hm => hmem m (List.mem_of_mem_drop hm)) h
    · intro h
      rw [h]
  · rw [eq_comm (a := min (clampLimit (limit.getD 50)) _), ← List.take_eq_take_iff]
    constructor
    · intro h
      exact map_rowToMsg_inj hdb (fun m hm => hmem m (List.mem_of_mem_take hm))
        (fun m hm => hmem m (List.mem_of_mem_take hm)) h
    · intro h
      rw [h]

/-- A room with two messages. -/
def twoMessages : ChatDb :=
  { messages := [⟨1, 1, ascii "ann", 0, ascii "one"⟩, ⟨2, 1, ascii "ann", 0, ascii "two"⟩]
    seq := 2
    presence := [] }

theorem twoMessages_wf : twoMessages.Wf := by
  refine ⟨?_, ?_, ?_, ?_, ?_⟩
  · unfold Ascending
    decide
  all_goals decide

theorem handleMessagesGet_documented_two :
    handleMessagesGet twoMessages 1 (ascii "since=0&limit=2")
      = documentedPage twoMessages 1 (some 0) (some 2) := by
  refine (handleMessagesGet_documented_iff twoMessages_wf 1 ?_ ?_ (by decide)).mpr ?_
  · unfold Carries
    decide +kernel
  · unfold Carries
    decide +kernel
  · unfold PageFits
    decide +kernel

/-- **The oldest page instead of the newest.**  A room of two messages, and a
request for the newest one: the answer is the oldest. -/
theorem handleMessagesGet_oldest :
    twoMessages.Wf ∧ Carries (ascii "limit=1") (ascii "since") none
      ∧ Carries (ascii "limit=1") (ascii "limit") (some 1)
      ∧ (handleMessagesGet twoMessages 1 (ascii "limit=1")).map ChatMsg.id = [1]
      ∧ (documentedPage twoMessages 1 none (some 1)).map ChatMsg.id = [2]
      ∧ handleMessagesGet twoMessages 1 (ascii "limit=1")
        ≠ documentedPage twoMessages 1 none (some 1) := by
  refine ⟨twoMessages_wf, ?_, ?_, ?_, ?_, ?_⟩
  · unfold Carries
    decide +kernel
  · unfold Carries
    decide +kernel
  all_goals decide +kernel

end NetServer.Chat
