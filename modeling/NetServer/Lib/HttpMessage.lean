/-
  NetServer.Lib.HttpMessage — the receiver of an HTTP/1 response.

  The head is read line by line up to the first empty line; a line ends at LF,
  with or without a CR before it.  The body of a response with a Content-Length
  are the next so many bytes.  What has not arrived yet cannot change what has
  been read (`readHead_append`, `readMessage_append`), so that a response is read
  the same way however it is cut, and no proper part of it is taken for a whole
  one (`readMessage_part`).

    • `readLines_lines`   — lines that were written are read back;
    • `readHead_head`     — and so is a head;
    • `readMessage_whole` — and a message.
-/
import NetServer.Lib.CString

namespace NetServer.Lib.HttpMessage

/-! ## §1. Lines. -/

def stripCr (line : List UInt8) : List UInt8 :=
  if line.getLast? = some 13 then line.dropLast else line

/-- The lines up to the first empty one, and what follows it; `cur` is the part of a line
that has been read. -/
def readLines : List UInt8 → List UInt8 → Option (List (List UInt8) × List UInt8)
  | _, [] => none
  | cur, b :: p =>
      if b = 10 then
        if stripCr cur = [] then some ([], p)
        else (readLines [] p).map fun (ls, rest) => (stripCr cur :: ls, rest)
      else readLines (cur ++ [b]) p

/-- More bytes are left over. -/
theorem readLines_append {cur p rest : List UInt8} {ls : List (List UInt8)}
    (h : readLines cur p = some (ls, rest)) (t : List UInt8) :
    readLines cur (p ++ t) = some (ls, rest ++ t) := by
  induction p generalizing cur ls with
  | nil => exact absurd h nofun
  | cons b p ih =>
    unfold readLines at h
    rw [List.cons_append]
    unfold readLines
    split_ifs at h with hb hcr
    · cases h
      rw [if_pos hb, if_pos hcr]
    · obtain ⟨⟨ls', rest'⟩, hrest, heq⟩ := Option.map_eq_some_iff.mp h
      cases heq
      rw [if_pos hb, if_neg hcr, ih hrest]
      rfl
    · rw [if_neg hb]
      exact ih h

/-- The bytes of a line. -/
theorem readLines_text (cur p : List UInt8) {text : List UInt8} (htext : 10 ∉ text) :
    readLines cur (text ++ p) = readLines (cur ++ text) p := by
  induction text generalizing cur with
  | nil => rw [List.append_nil, List.nil_append]
  | cons b text ih =>
    have hb : b ≠ 10 := fun hb => htext (by rw [hb]; exact List.mem_cons_self)
    rw [List.cons_append]
    conv_lhs => unfold readLines
    rw [if_neg hb, ih _ (fun hmem => htext (List.mem_cons_of_mem _ hmem)), List.append_assoc]
    rfl

theorem stripCr_concat (line : List UInt8) : stripCr (line ++ [13]) = line := by
  unfold stripCr
  rw [List.getLast?_concat, if_pos rfl, List.dropLast_concat]

/-- The text of some lines and the empty line behind them. -/
def writeLines : List (List UInt8) → List UInt8
  | [] => [13, 10]
  | l :: ls => l ++ 13 :: 10 :: writeLines ls

/-- **What was written is read back.** -/
theorem readLines_lines (rest : List UInt8) :
    ∀ ls : List (List UInt8), (∀ l ∈ ls, l ≠ [] ∧ 10 ∉ l) →
      readLines [] (writeLines ls ++ rest) = some (ls, rest)
  | [], _ => rfl
  | l :: ls, hls => by
    obtain ⟨hne, hl⟩ := hls l List.mem_cons_self
    have hsplit : writeLines (l :: ls) ++ rest = (l ++ [13]) ++ 10 :: (writeLines ls ++ rest) := by
      show (l ++ 13 :: 10 :: writeLines ls) ++ rest = _
      simp only [List.append_assoc, List.cons_append, List.nil_append]
    have h13 : 10 ∉ l ++ [13] := by
      intro hmem
      rcases List.mem_append.mp hmem with hmem | hmem
      · exact hl hmem
      · exact absurd hmem (by decide)
    rw [hsplit, readLines_text [] _ h13, List.nil_append]
    unfold readLines
    rw [if_pos rfl, stripCr_concat, if_neg hne,
      readLines_lines rest ls (fun l' hl' => hls l' (List.mem_cons_of_mem _ hl'))]
    rfl

/-! ## §2. Heads. -/

structure Head where
  status : Nat
  fields : List (List UInt8 × List UInt8)
  deriving Repr, DecidableEq

/-- The status of a status line: version, blank, three digits, and a reason behind a
blank. -/
def statusLine (start : List UInt8) : Option Nat :=
  let code := (start.drop 9).take 3
  if (start.take 5 = ascii "HTTP/" ∧ start[8]? = some 32) ∧ code.length = 3 ∧ code.all isDigit
      ∧ (start.drop 12).head?.all (· == 32) then some (decimalValue code)
  else none

def trim (p : List UInt8) : List UInt8 :=
  ((p.dropWhile fun b => b == 32 || b == 9).reverse.dropWhile fun b => b == 32 || b == 9).reverse

/-- A field: name, colon, value between blanks. -/
def fieldLine (line : List UInt8) : Option (List UInt8 × List UInt8) :=
  if 58 ∈ line then
    some (line.takeWhile (· ≠ 58), trim ((line.dropWhile (· ≠ 58)).drop 1))
  else none

/-- A text without blanks around it. -/
theorem trim_eq {p : List UInt8} (hhead : ∀ b, p.head? = some b → b ≠ 32 ∧ b ≠ 9)
    (hlast : ∀ b, p.getLast? = some b → b ≠ 32 ∧ b ≠ 9) : trim p = p := by
  have hkeep : ∀ q : List UInt8, (∀ b, q.head? = some b → b ≠ 32 ∧ b ≠ 9) →
      q.dropWhile (fun b => b == 32 || b == 9) = q := by
    intro q hq
    cases q with
    | nil => rfl
    | cons b q =>
      obtain ⟨h32, h9⟩ := hq b rfl
      rw [List.dropWhile_cons, if_neg (by simp [h32, h9])]
  unfold trim
  rw [hkeep p hhead, hkeep p.reverse, List.reverse_reverse]
  intro b hb
  rw [List.head?_reverse] at hb
  exact hlast b hb

/-- **A field that was written is read back.** -/
theorem fieldLine_write {name value : List UInt8} (hname : 58 ∉ name)
    (hhead : ∀ b, value.head? = some b → b ≠ 32 ∧ b ≠ 9)
    (hlast : ∀ b, value.getLast? = some b → b ≠ 32 ∧ b ≠ 9) :
    fieldLine (name ++ 58 :: 32 :: value) = some (name, value) := by
  have hall : ∀ b ∈ name, decide (b ≠ 58) = true := by
    intro b hb
    rw [decide_eq_true_eq]
    rintro rfl
    exact hname hb
  have hblank : trim (32 :: value) = trim value := rfl
  unfold fieldLine
  rw [if_pos (by simp), List.takeWhile_append_of_pos hall, List.takeWhile_cons,
    if_neg (by decide), List.append_nil, List.dropWhile_append_of_pos hall, List.dropWhile_cons,
    if_neg (by decide), List.drop_one, List.tail_cons, hblank, trim_eq hhead hlast]

def readHead (bytes : List UInt8) : Option (Head × List UInt8) :=
  (readLines [] bytes).bind fun (ls, rest) =>
    match ls with
    | [] => none
    | first :: fields =>
        (statusLine first).bind fun status =>
          (fields.mapM fieldLine).map fun fs => (⟨status, fs⟩, rest)

/-- The value of a field; letter case does not matter in its name. -/
def Head.get (h : Head) (name : List UInt8) : Option (List UInt8) :=
  (h.fields.find? fun f => f.1.map toLower == name.map toLower).map Prod.snd

theorem readHead_append {bytes rest : List UInt8} {h : Head} (hread : readHead bytes = some (h, rest))
    (t : List UInt8) : readHead (bytes ++ t) = some (h, rest ++ t) := by
  unfold readHead at hread ⊢
  obtain ⟨⟨ls, rest'⟩, hlines, hhead⟩ := Option.bind_eq_some_iff.mp hread
  rw [readLines_append hlines t]
  cases ls with
  | nil => exact absurd hhead nofun
  | cons first fields =>
    obtain ⟨status, hstatus, hfs⟩ := Option.bind_eq_some_iff.mp hhead
    obtain ⟨fs, hfields, heq⟩ := Option.map_eq_some_iff.mp hfs
    cases heq
    show ((statusLine first).bind fun status =>
      (fields.mapM fieldLine).map fun fs => ((⟨status, fs⟩ : Head), rest ++ t)) = _
    rw [hstatus, Option.bind_some, hfields]
    rfl

/-- No proper part of a head is read as one. -/
theorem readHead_part {p bytes : List UInt8} {h : Head} (hread : readHead bytes = some (h, []))
    (hp : p <+: bytes) (hne : p ≠ bytes) : readHead p = none := by
  rcases Option.eq_none_or_eq_some (readHead p) with hnone | ⟨⟨h', rest⟩, hsome⟩
  · exact hnone
  · obtain ⟨t, ht⟩ := hp
    have hmore := readHead_append hsome t
    rw [ht, hread] at hmore
    have hrest : [] = rest ++ t := congrArg Prod.snd (Option.some.inj hmore)
    have ht' : t = [] := (List.append_eq_nil_iff.mp hrest.symm).2
    rw [ht', List.append_nil] at ht
    exact absurd ht hne

/-- **A head that was written is read back.** -/
theorem readHead_head {first : List UInt8} {fields : List (List UInt8)} {status : Nat}
    {fs : List (List UInt8 × List UInt8)} (hfirst : first ≠ [] ∧ 10 ∉ first)
    (hfields : ∀ l ∈ fields, l ≠ [] ∧ 10 ∉ l) (hstatus : statusLine first = some status)
    (hfs : fields.mapM fieldLine = some fs) (rest : List UInt8) :
    readHead (writeLines (first :: fields) ++ rest) = some (⟨status, fs⟩, rest) := by
  have hlines := readLines_lines rest (first :: fields) (by
    intro l hl
    rcases List.mem_cons.mp hl with rfl | hl
    · exact hfirst
    · exact hfields l hl)
  unfold readHead
  rw [hlines]
  show ((statusLine first).bind fun status =>
    (fields.mapM fieldLine).map fun fs => ((⟨status, fs⟩ : Head), rest)) = _
  rw [hstatus, Option.bind_some, hfs]
  rfl

/-! ## §3. Messages with a length. -/

structure Message where
  head : Head
  body : List UInt8
  deriving Repr, DecidableEq

/-- The length a head announces. -/
def Head.contentLength (h : Head) : Option Nat :=
  (h.get (ascii "Content-Length")).bind fun v =>
    if v ≠ [] ∧ v.all isDigit then some (decimalValue v) else none

/-- A message with a length: `none` as long as a byte of it is missing. -/
def readMessage (bytes : List UInt8) : Option (Message × List UInt8) :=
  (readHead bytes).bind fun (h, rest) =>
    h.contentLength.bind fun n =>
      if n ≤ rest.length then some (⟨h, rest.take n⟩, rest.drop n) else none

/-- **A message that was written is read back**, and what follows it is left. -/
theorem readMessage_whole {bytes rest : List UInt8} {h : Head}
    (hhead : ∀ t, readHead (bytes ++ t) = some (h, t)) {body : List UInt8}
    (hlen : h.contentLength = some body.length) :
    readMessage (bytes ++ (body ++ rest)) = some (⟨h, body⟩, rest) := by
  unfold readMessage
  rw [hhead]
  show (h.contentLength.bind fun n => if n ≤ (body ++ rest).length
    then some ((⟨h, (body ++ rest).take n⟩ : Message), (body ++ rest).drop n) else none) = _
  rw [hlen, Option.bind_some, if_pos (by rw [List.length_append]; omega), List.take_left,
    List.drop_left]

/-- **No proper part of a message is taken for a message.** -/
theorem readMessage_part {bytes p body : List UInt8} {h : Head}
    (hhead : ∀ t, readHead (bytes ++ t) = some (h, t)) (hlen : h.contentLength = some body.length)
    (hp : p <+: bytes ++ body) (hne : p ≠ bytes ++ body) : readMessage p = none := by
  unfold readMessage
  rcases Option.eq_none_or_eq_some (readHead p) with hnone | ⟨⟨h', rest⟩, hsome⟩
  · rw [hnone]
    rfl
  · obtain ⟨t, ht⟩ := hp
    have hmore := readHead_append hsome t
    rw [ht, hhead] at hmore
    obtain ⟨hh, hbody⟩ := Prod.mk.inj (Option.some.inj hmore)
    have hshort : ¬ body.length ≤ rest.length := by
      intro hle
      have hlength := congrArg List.length hbody
      rw [List.length_append] at hlength
      have ht' : t = [] := List.length_eq_zero_iff.mp (by omega)
      rw [ht', List.append_nil] at ht
      exact hne ht
    rw [hsome]
    show (h'.contentLength.bind fun n => if n ≤ rest.length
      then some ((⟨h', rest.take n⟩ : Message), rest.drop n) else none) = none
    rw [← hh, hlen, Option.bind_some, if_neg hshort]

end NetServer.Lib.HttpMessage
