/-
  NetServer.Web.Payload — what the server reads of a post that `web/app.js` sends.

  The form sends `JSON.stringify({ user, body })`.  `json_get_string` does not
  parse it: it looks for the first place where the quoted key stands, and reads
  the string behind it.  Quotes inside a value are escaped, so a value cannot
  hold a quoted key; but a value that ends in a quote and the key, or is the key,
  makes one together with its own closing quote.

    • `jsonStringLoop_stringify` — a value is read back;
    • `afterMatch_key_body` — where the search for the key `body` ends;
    • `payload_read_iff` — which posts are read as they were meant.
-/
import NetServer.Chat.HttpChat

namespace NetServer.Web

open NetServer.Lib
open NetServer.Chat

/-! ## §1. The payload. -/

/-- A character of the form's fields: printable ASCII, newline, tab or CR. -/
def isTyped (b : UInt8) : Bool := isPrintable b || b == 10 || b == 9 || b == 13

/-- `JSON.stringify` on one of those characters. -/
def stringifyByte (b : UInt8) : List UInt8 :=
  if b = 34 then [92, 34]
  else if b = 92 then [92, 92]
  else if b = 10 then [92, 110]
  else if b = 9 then [92, 116]
  else if b = 13 then [92, 114]
  else [b]

/-- A string between its quotes. -/
def stringifyText (text : List UInt8) : List UInt8 := text.flatMap stringifyByte

/-- `JSON.stringify({ user, body })`. -/
def stringifyPost (user body : List UInt8) : List UInt8 :=
  ascii "\x7b\"user\":\"" ++ stringifyText user ++ ascii "\",\"body\":\"" ++ stringifyText body
    ++ ascii "\"\x7d"

/-- A character stands for itself, or is a backslash and a second byte. -/
theorem stringifyByte_cases (b : UInt8) :
    (b ≠ 34 ∧ b ≠ 92 ∧ stringifyByte b = [b]) ∨ ∃ e, stringifyByte b = [92, e]
      ∧ (e = 34 ↔ b = 34)
      ∧ (if e = 110 then 10 else if e = 116 then 9 else if e = 114 then 13 else e) = b := by
  unfold stringifyByte
  by_cases h34 : b = 34
  · exact Or.inr ⟨34, by rw [if_pos h34], by simp [h34], h34.symm⟩
  by_cases h92 : b = 92
  · exact Or.inr ⟨92, by rw [if_neg h34, if_pos h92], by simp [h34], h92.symm⟩
  by_cases h10 : b = 10
  · exact Or.inr ⟨110, by rw [if_neg h34, if_neg h92, if_pos h10], by simp [h34], h10.symm⟩
  by_cases h9 : b = 9
  · refine Or.inr ⟨116, ?_, by simp [h34], h9.symm⟩
    rw [if_neg h34, if_neg h92, if_neg h10, if_pos h9]
  by_cases h13 : b = 13
  · refine Or.inr ⟨114, ?_, by simp [h34], h13.symm⟩
    rw [if_neg h34, if_neg h92, if_neg h10, if_neg h9, if_pos h13]
  · refine Or.inl ⟨h34, h92, ?_⟩
    rw [if_neg h34, if_neg h92, if_neg h10, if_neg h9, if_neg h13]

/-! ## §2. Reading a value. -/

/-- A value that fits is read up to its closing quote. -/
theorem jsonStringLoop_stringify (rest : List UInt8) :
    ∀ (text : List UInt8) (room : Nat), text.length ≤ room →
      jsonStringLoop room (stringifyText text ++ 34 :: rest) = text
  | [], 0, _ => rfl
  | [], room + 1, _ => by
      show jsonStringLoop (room + 1) (34 :: rest) = []
      rw [jsonStringLoop.eq_def]
      exact if_pos rfl
  | b :: text, 0, h => absurd h (Nat.not_succ_le_zero _)
  | b :: text, room + 1, h => by
      have htail := jsonStringLoop_stringify rest text room (Nat.le_of_succ_le_succ h)
      show jsonStringLoop (room + 1) (stringifyByte b ++ stringifyText text ++ 34 :: rest) = b :: text
      rcases stringifyByte_cases b with ⟨h34, h92, hb⟩ | ⟨e, hb, -, hback⟩
      · rw [hb]
        show jsonStringLoop (room + 1) (b :: (stringifyText text ++ 34 :: rest)) = _
        rw [jsonStringLoop.eq_def]
        dsimp only
        rw [if_neg h34, if_neg h92, htail]
      · rw [hb]
        show jsonStringLoop (room + 1) (92 :: e :: (stringifyText text ++ 34 :: rest)) = _
        rw [jsonStringLoop.eq_def]
        dsimp only
        rw [if_neg (by decide), if_pos rfl, hback, htail]

/-! ## §3. Looking for a key. -/

/-- A quoted key does not start at another byte. -/
theorem afterMatch_skip {pat text : List UInt8} {b : UInt8} (h : b ≠ 34) :
    afterMatch (34 :: pat) (b :: text) = afterMatch (34 :: pat) text := by
  have hno : (34 :: pat).isPrefixOf (b :: text) = false := by
    rw [List.isPrefixOf_cons_cons, Bool.and_eq_false_iff]
    exact Or.inl (beq_false_of_ne h.symm)
  rw [afterMatch, hno]
  rfl

/-- Behind a quote: the key and a quote, or the search goes on. -/
theorem afterMatch_quote (pat text : List UInt8) :
    afterMatch (34 :: pat) (34 :: text)
      = if pat.isPrefixOf text then some (text.drop pat.length) else afterMatch (34 :: pat) text := by
  have hhead : (34 :: pat).isPrefixOf (34 :: text) = pat.isPrefixOf text := by
    rw [List.isPrefixOf_cons_cons]
    rfl
  rw [afterMatch, hhead]
  rfl

/-- A word that needs no escapes, with a quote behind it, stands at the start of
a value exactly when it is the value. -/
theorem quoted_word_iff (rest : List UInt8) :
    ∀ (word text : List UInt8), (∀ b ∈ word, stringifyByte b = [b]) →
      ((word ++ [34]).isPrefixOf (stringifyText text ++ 34 :: rest) = true ↔ text = word)
  | [], [], _ => by
      show ([34] : List UInt8).isPrefixOf (34 :: rest) = true ↔ _
      simp
  | [], b :: text, _ => by
      refine iff_of_false ?_ nofun
      show ¬ ([34] : List UInt8).isPrefixOf
        (stringifyByte b ++ stringifyText text ++ 34 :: rest) = true
      rcases stringifyByte_cases b with ⟨h34, -, hb⟩ | ⟨e, hb, -, -⟩
      · rw [hb]
        simpa using h34.symm
      · rw [hb]
        simp
  | c :: word, text, hword => by
      have hc := hword c List.mem_cons_self
      have hplain : c ≠ 34 ∧ c ≠ 92 := by
        rcases stringifyByte_cases c with ⟨h34, h92, -⟩ | ⟨e, he, -, -⟩
        · exact ⟨h34, h92⟩
        · rw [hc] at he
          cases he
      cases text with
      | nil =>
          refine iff_of_false ?_ nofun
          show ¬ (c :: (word ++ [34])).isPrefixOf (34 :: rest) = true
          rw [List.isPrefixOf_cons_cons, Bool.and_eq_true, beq_iff_eq]
          exact fun h => hplain.1 h.1
      | cons b text =>
          have htail := quoted_word_iff rest word text fun x hx =>
            hword x (List.mem_cons_of_mem _ hx)
          show (c :: (word ++ [34])).isPrefixOf
            (stringifyByte b ++ stringifyText text ++ 34 :: rest) = true ↔ _
          rcases stringifyByte_cases b with ⟨-, -, hb⟩ | ⟨e, hb, -, -⟩
          · rw [hb]
            show (c :: (word ++ [34])).isPrefixOf (b :: (stringifyText text ++ 34 :: rest)) = true ↔ _
            rw [List.isPrefixOf_cons_cons, Bool.and_eq_true, beq_iff_eq, htail, List.cons.injEq,
              @eq_comm _ c b]
          · -- an escaped character is not one of the word's
            refine iff_of_false ?_ ?_
            · rw [hb]
              show ¬ (c :: (word ++ [34])).isPrefixOf
                (92 :: e :: (stringifyText text ++ 34 :: rest)) = true
              rw [List.isPrefixOf_cons_cons, Bool.and_eq_true, beq_iff_eq]
              exact fun h => hplain.2 h.1
            · intro h
              cases h
              rw [hc] at hb
              cases hb

/-- A word that needs no escapes is its own text. -/
theorem stringifyText_plain :
    ∀ word : List UInt8, (∀ b ∈ word, stringifyByte b = [b]) → stringifyText word = word
  | [], _ => rfl
  | b :: word, h => by
      have htail := stringifyText_plain word fun x hx => h x (List.mem_cons_of_mem _ hx)
      show stringifyByte b ++ stringifyText word = b :: word
      rw [h b List.mem_cons_self, htail]
      rfl

section Search

variable {word : List UInt8} (hword : ∀ b ∈ word, stringifyByte b = [b]) (rest : List UInt8)
include hword

/-- The search at a quote with a value behind it. -/
theorem afterMatch_value (text : List UInt8) :
    afterMatch (34 :: (word ++ [34])) (34 :: (stringifyText text ++ 34 :: rest))
      = if text = word then some rest
        else afterMatch (34 :: (word ++ [34])) (stringifyText text ++ 34 :: rest) := by
  rw [afterMatch_quote]
  by_cases h : text = word
  · have hpre := (quoted_word_iff rest word text hword).mpr h
    rw [if_pos hpre, if_pos h, h, stringifyText_plain word hword, List.length_append]
    congr 1
    have hdrop : (word ++ [34] ++ rest).drop (word ++ [34]).length = rest := List.drop_left
    rw [List.length_append, List.append_assoc] at hdrop
    exact hdrop
  · have hpre : ¬ (word ++ [34]).isPrefixOf (stringifyText text ++ 34 :: rest) = true :=
      fun h' => h ((quoted_word_iff rest word text hword).mp h')
    rw [if_neg hpre, if_neg h]

/-- The search through a value: it stops inside when the value ends in a quote
and the word. -/
theorem afterMatch_text :
    ∀ text : List UInt8,
      afterMatch (34 :: (word ++ [34])) (stringifyText text ++ 34 :: rest)
        = if 34 :: word <:+ text then some rest
          else afterMatch (34 :: (word ++ [34])) (34 :: rest)
  | [] => by
      rw [if_neg (fun h => by cases List.suffix_nil.mp h)]
      rfl
  | b :: text => by
      have htail := afterMatch_text text
      show afterMatch _ (stringifyByte b ++ stringifyText text ++ 34 :: rest) = _
      by_cases h34 : b = 34
      · subst h34
        show afterMatch _ (92 :: 34 :: (stringifyText text ++ 34 :: rest)) = _
        rw [afterMatch_skip (by decide), afterMatch_value hword, htail]
        by_cases h : text = word
        · rw [if_pos h, h, if_pos (List.suffix_refl _)]
        · have hiff : 34 :: word <:+ 34 :: text ↔ 34 :: word <:+ text := by
            rw [List.suffix_cons_iff, List.cons.injEq, or_iff_right]
            exact fun hw => h hw.2.symm
          rw [if_neg h, if_congr hiff rfl rfl]
      · have hiff : 34 :: word <:+ b :: text ↔ 34 :: word <:+ text := by
          rw [List.suffix_cons_iff, List.cons.injEq, or_iff_right]
          exact fun hw => h34 hw.1.symm
        rw [if_congr hiff rfl rfl, ← htail]
        rcases stringifyByte_cases b with ⟨-, -, hb⟩ | ⟨e, hb, he, -⟩
        · rw [hb]
          exact afterMatch_skip h34
        · rw [hb]
          show afterMatch _ (92 :: e :: (stringifyText text ++ 34 :: rest)) = _
          rw [afterMatch_skip (by decide), afterMatch_skip (fun h => h34 (he.mp h))]

end Search

/-! ## §4. The post as the server reads it. -/

/-- A form field: one to `max - 1` characters. -/
structure Field (max : Nat) where
  text : List UInt8
  ne_nil : text ≠ []
  length_lt : text.length < max
  typed : ∀ b ∈ text, isTyped b

/-- The bytes behind the user's value. -/
def payloadTail (body : List UInt8) : List UInt8 :=
  44 :: 34 :: (ascii "body" ++ 34 :: 58 :: 34 :: (stringifyText body ++ 34 :: [125]))

/-- The payload, cut at the quotes of the first value. -/
theorem stringifyPost_eq (user body : List UInt8) :
    stringifyPost user body
      = 123 :: 34 :: (ascii "user"
          ++ 34 :: 58 :: 34 :: (stringifyText user ++ 34 :: payloadTail body)) := by
  simp [stringifyPost, payloadTail, ascii]

/-- The key `user` is found where it stands. -/
theorem afterMatch_key_user (user body : List UInt8) :
    afterMatch (34 :: (ascii "user" ++ [34])) (stringifyPost user body)
      = some (58 :: 34 :: (stringifyText user ++ 34 :: payloadTail body)) := by
  rw [stringifyPost_eq, afterMatch_skip (by decide), afterMatch_quote]
  rfl

/-- The key `body` is found in the user's value when that is the key or ends in
a quote and the key, and otherwise where it stands. -/
theorem afterMatch_key_body (user body : List UInt8) :
    afterMatch (34 :: (ascii "body" ++ [34])) (stringifyPost user body)
      = if 34 :: ascii "body" <:+ 34 :: user then some (payloadTail body)
        else some (58 :: 34 :: (stringifyText body ++ 34 :: [125])) := by
  have hplain : ∀ b ∈ ascii "body", stringifyByte b = [b] := by decide +kernel
  have hhead : afterMatch (34 :: (ascii "body" ++ [34])) (stringifyPost user body)
      = afterMatch (34 :: (ascii "body" ++ [34]))
          (34 :: (stringifyText user ++ 34 :: payloadTail body)) := by
    rw [stringifyPost_eq]
    rfl
  have htail : afterMatch (34 :: (ascii "body" ++ [34])) (34 :: payloadTail body)
      = some (58 :: 34 :: (stringifyText body ++ 34 :: [125])) := rfl
  rw [hhead, afterMatch_value hplain, afterMatch_text hplain, htail]
  by_cases h : user = ascii "body"
  · rw [if_pos h, h, if_pos (List.suffix_refl _)]
  · have hiff : 34 :: ascii "body" <:+ 34 :: user ↔ 34 :: ascii "body" <:+ user := by
      rw [List.suffix_cons_iff, List.cons.injEq, or_iff_right]
      exact fun hw => h hw.2.symm
    rw [if_neg h, if_congr hiff rfl rfl]

/-- A key with a quoted value behind it reads that value. -/
theorem jsonGetString_value {payload key text rest : List UInt8} {outsz : Nat}
    (hkey : afterMatch (34 :: (key ++ [34])) payload
      = some (58 :: 34 :: (stringifyText text ++ 34 :: rest)))
    (hlen : text.length < outsz) : jsonGetString payload key outsz = some text := by
  unfold jsonGetString
  rw [List.cons_append, hkey]
  show some (jsonStringLoop (outsz - 1) (stringifyText text ++ 34 :: rest)) = some text
  rw [jsonStringLoop_stringify rest text (outsz - 1) (by omega)]

/-- The server reads the user and the body that were sent exactly when the user
is not `body` and does not end in `"body`. -/
theorem payload_read_iff (user : Field chatUserMax) (body : Field chatBodyMax) :
    (jsonGetString (stringifyPost user.text body.text) (ascii "user") chatUserMax = some user.text
      ∧ jsonGetString (stringifyPost user.text body.text) (ascii "body") chatBodyMax = some body.text)
      ↔ ¬ 34 :: ascii "body" <:+ 34 :: user.text := by
  have huser := jsonGetString_value (afterMatch_key_user user.text body.text) user.length_lt
  rw [and_iff_right huser]
  have hkey := afterMatch_key_body user.text body.text
  by_cases h : 34 :: ascii "body" <:+ 34 :: user.text
  · refine iff_of_false ?_ (not_not_intro h)
    -- behind the key stands the comma between the members
    rw [if_pos h] at hkey
    unfold jsonGetString
    rw [List.cons_append, hkey]
    intro hsome
    cases hsome
  · rw [if_neg h] at hkey
    exact iff_of_true (jsonGetString_value hkey body.length_lt) h

/-- A two-line message with a quote and a backslash in it, sent by `ann`. -/
def annField : Field chatUserMax := ⟨ascii "ann", by decide, by decide, by decide +kernel⟩
def linesField : Field chatBodyMax :=
  ⟨ascii "say \"hi\\\"\n\tbye\r", by decide, by decide, by decide +kernel⟩

theorem payload_read_lines :
    jsonGetString (stringifyPost annField.text linesField.text) (ascii "user") chatUserMax
        = some annField.text
      ∧ jsonGetString (stringifyPost annField.text linesField.text) (ascii "body") chatBodyMax
        = some linesField.text :=
  (payload_read_iff annField linesField).mpr (by decide +kernel)

/-- A user called `body`. -/
def bodyField : Field chatUserMax := ⟨ascii "body", by decide, by decide, by decide +kernel⟩

/-- The user's own name is taken for the key, and the post is refused. -/
theorem payload_user_body :
    jsonGetString (stringifyPost bodyField.text linesField.text) (ascii "body") chatBodyMax = none
      ∧ handleMessagesPost 1 (stringifyPost bodyField.text linesField.text) = .closing := by
  decide +kernel

end NetServer.Web
