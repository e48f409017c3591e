/-
  NetServer.Lib.Json — reading JSON texts.

  A reader for the whole of the format: blanks, the three names, numbers with
  fraction and exponent, strings with every escape (a `\u` pair of surrogates
  is one character), arrays and objects.  A string's value is its UTF-8 text,
  a number's a mantissa and a power of ten, an object's its members in order.

  The rules are for texts written without blanks, as programs write them:
    • `Spells` — what stands between the quotes of a string, byte by byte;
    • `Reads`  — what stands in a value's place, before a separator;
    • `parse_object` — an object of such members is read back;
    • `parse_array` — an array of such objects is;
    • `parse_pair` — an object with an array in it is.
-/
import Mathlib.Data.List.Forall2
import NetServer.Lib.CString

namespace NetServer.Lib

/-- A JSON value; a number is `mantissa * 10 ^ exponent`. -/
inductive Json where
  | null
  | bool (b : Bool)
  | num (mantissa exponent : Int)
  | str (text : List UInt8)
  | arr (items : List Json)
  | obj (members : List (List UInt8 × Json))

namespace Json

/-! ## §1. Strings. -/

def isBlank (b : UInt8) : Bool := b == 32 || b == 9 || b == 10 || b == 13

def skipBlanks (p : List UInt8) : List UInt8 := p.dropWhile isBlank

/-- The escapes of one letter. -/
def simpleEscape (e : UInt8) : Option UInt8 :=
  if e = 34 then some 34
  else if e = 92 then some 92
  else if e = 47 then some 47
  else if e = 98 then some 8
  else if e = 102 then some 12
  else if e = 110 then some 10
  else if e = 114 then some 13
  else if e = 116 then some 9
  else none

def hexDigit (b : UInt8) : Option Nat :=
  if 48 ≤ b ∧ b ≤ 57 then some (b.toNat - 48)
  else if 97 ≤ b ∧ b ≤ 102 then some (b.toNat - 87)
  else if 65 ≤ b ∧ b ≤ 70 then some (b.toNat - 55)
  else none

/-- Four hexadecimal digits. -/
def hexUnit : List UInt8 → Option (Nat × List UInt8)
  | a :: b :: c :: d :: p => do
      let a ← hexDigit a
      let b ← hexDigit b
      let c ← hexDigit c
      let d ← hexDigit d
      some (((a * 16 + b) * 16 + c) * 16 + d, p)
  | _ => none

/-- The UTF-8 bytes of a code point. -/
def utf8 (c : Nat) : List UInt8 :=
  if c < 0x80 then [UInt8.ofNat c]
  else if c < 0x800 then [UInt8.ofNat (0xC0 + c / 64), UInt8.ofNat (0x80 + c % 64)]
  else if c < 0x10000 then
    [UInt8.ofNat (0xE0 + c / 4096), UInt8.ofNat (0x80 + c / 64 % 64), UInt8.ofNat (0x80 + c % 64)]
  else
    [UInt8.ofNat (0xF0 + c / 262144), UInt8.ofNat (0x80 + c / 4096 % 64),
      UInt8.ofNat (0x80 + c / 64 % 64), UInt8.ofNat (0x80 + c % 64)]

/-- Behind a backslash and `u`; a high surrogate needs a low one behind it. -/
def unicodeEscape (p : List UInt8) : Option (List UInt8 × List UInt8) :=
  match hexUnit p with
  | none => none
  | some (u, p) =>
      if 0xD800 ≤ u ∧ u < 0xDC00 then
        match p with
        | 92 :: 117 :: p =>
            match hexUnit p with
            | none => none
            | some (v, p) =>
                if 0xDC00 ≤ v ∧ v < 0xE000 then
                  some (utf8 (0x10000 + (u - 0xD800) * 0x400 + (v - 0xDC00)), p)
                else none
        | _ => none
      else if 0xDC00 ≤ u ∧ u < 0xE000 then none
      else some (utf8 u, p)

/-- Behind a backslash: the bytes meant, and the rest. -/
def escapeSequence : List UInt8 → Option (List UInt8 × List UInt8)
  | [] => none
  | e :: p => if e = 117 then unicodeEscape p else (simpleEscape e).map fun b => ([b], p)

/-- The rest of a text behind the byte `b`. -/
def expect (b : UInt8) : List UInt8 → Option (List UInt8)
  | [] => none
  | c :: p => if c = b then some p else none

/-- A string behind its opening quote, in at most `fuel` characters. -/
def chars : Nat → List UInt8 → Option (List UInt8 × List UInt8)
  | 0, _ => none
  | _ + 1, [] => none
  | fuel + 1, b :: p =>
      if b = 34 then some ([], p)
      else if b = 92 then
        (escapeSequence p).bind fun (text, p) =>
          (chars fuel p).map fun (s, p) => (text ++ s, p)
      else if b < 32 then none
      else (chars fuel p).map fun (s, p) => (b :: s, p)

/-- A string behind its opening quote; every character takes a byte. -/
def string (p : List UInt8) : Option (List UInt8 × List UInt8) := chars (p.length + 1) p

/-! ## §2. Numbers. -/

/-- The digits of the whole part: no zero in front of others. -/
def wholePart (p : List UInt8) : Option (List UInt8 × List UInt8) :=
  let ds := p.takeWhile isDigit
  if ds = [] ∨ ds.head? = some 48 ∧ ds.length ≠ 1 then none else some (ds, p.dropWhile isDigit)

/-- The digits of a fraction, if there is one. -/
def fraction : List UInt8 → Option (List UInt8 × List UInt8)
  | 46 :: p =>
      let ds := p.takeWhile isDigit
      if ds = [] then none else some (ds, p.dropWhile isDigit)
  | p => some ([], p)

/-- The digits of an exponent behind its sign. -/
def exponentDigits (p : List UInt8) : Option (Int × List UInt8) :=
  let ds := p.takeWhile isDigit
  if ds = [] then none else some (decimalValue ds, p.dropWhile isDigit)

/-- An exponent, if there is one. -/
def exponent : List UInt8 → Option (Int × List UInt8)
  | [] => some (0, [])
  | e :: p =>
      if e = 101 ∨ e = 69 then
        match p with
        | 45 :: p => (exponentDigits p).map fun (x, p) => (-x, p)
        | 43 :: p => exponentDigits p
        | p => exponentDigits p
      else some (0, e :: p)

/-- A number without its sign. -/
def magnitude (p : List UInt8) : Option (Nat × Int × List UInt8) := do
  let (ds, p) ← wholePart p
  let (fs, p) ← fraction p
  let (x, p) ← exponent p
  some (decimalValue (ds ++ fs), x - fs.length, p)

def number : List UInt8 → Option (Json × List UInt8)
  | 45 :: p => (magnitude p).map fun (m, x, p) => (num (-m) x, p)
  | p => (magnitude p).map fun (m, x, p) => (num m x, p)

/-! ## §3. Values. -/

/-- One of the names `null`, `true` and `false`. -/
def name (p : List UInt8) : Option (Json × List UInt8) :=
  if (ascii "null").isPrefixOf p then some (null, p.drop 4)
  else if (ascii "true").isPrefixOf p then some (bool true, p.drop 4)
  else if (ascii "false").isPrefixOf p then some (bool false, p.drop 5)
  else none

mutual

/-- A value; `fuel` bounds the members, the items and the nesting. -/
def value : Nat → List UInt8 → Option (Json × List UInt8)
  | 0, _ => none
  | fuel + 1, p =>
      match skipBlanks p with
      | [] => none
      | b :: p =>
          if b = 34 then (string p).map fun (s, p) => (str s, p)
          else if b = 123 then
            match expect 125 (skipBlanks p) with
            | some p => some (obj [], p)
            | none => (members fuel p).map fun (ms, p) => (obj ms, p)
          else if b = 91 then
            match expect 93 (skipBlanks p) with
            | some p => some (arr [], p)
            | none => (items fuel p).map fun (vs, p) => (arr vs, p)
          else if b = 110 ∨ b = 116 ∨ b = 102 then name (b :: p)
          else number (b :: p)

/-- The members of an object, up to its closing brace. -/
def members : Nat → List UInt8 → Option (List (List UInt8 × Json) × List UInt8)
  | 0, _ => none
  | fuel + 1, p =>
      (expect 34 (skipBlanks p)).bind fun p => (string p).bind fun (k, p) =>
        (expect 58 (skipBlanks p)).bind fun p => (value fuel p).bind fun (v, p) =>
          match skipBlanks p with
          | [] => none
          | c :: p =>
              if c = 44 then (members fuel p).map fun (ms, p) => ((k, v) :: ms, p)
              else if c = 125 then some ([(k, v)], p)
              else none

/-- The items of an array, up to its closing bracket. -/
def items : Nat → List UInt8 → Option (List Json × List UInt8)
  | 0, _ => none
  | fuel + 1, p =>
      (value fuel p).bind fun (v, p) =>
        match skipBlanks p with
        | [] => none
        | c :: p =>
            if c = 44 then (items fuel p).map fun (vs, p) => (v :: vs, p)
            else if c = 93 then some ([v], p)
            else none

end

/-- A whole text: one value with nothing but blanks around it. -/
def parse (p : List UInt8) : Option Json :=
  match value (p.length + 1) p with
  | some (v, p) => if skipBlanks p = [] then some v else none
  | none => none

/-! ## §4. Strings as they are written. -/

/-- `t` between two quotes is the string `s`. -/
def Spells (t s : List UInt8) : Prop :=
  ∀ fuel rest, t.length < fuel → chars fuel (t ++ 34 :: rest) = some (s, rest)

theorem spells_nil : Spells [] [] := by
  intro fuel rest hfuel
  obtain ⟨n, rfl⟩ : ∃ n, fuel = n + 1 := Nat.exists_eq_succ_of_ne_zero (Nat.ne_of_gt hfuel)
  rfl

theorem Spells.plain {t s : List UInt8} (h : Spells t s) {b : UInt8} (hquote : b ≠ 34)
    (hslash : b ≠ 92) (hcontrol : ¬ b < 32) : Spells (b :: t) (b :: s) := by
  intro fuel rest hfuel
  obtain ⟨n, rfl⟩ : ∃ n, fuel = n + 1 := Nat.exists_eq_succ_of_ne_zero (Nat.ne_zero_of_lt hfuel)
  have hrest := h n rest (Nat.lt_of_succ_lt_succ hfuel)
  rw [List.cons_append, chars, if_neg hquote, if_neg hslash, if_neg hcontrol, hrest]
  rfl

/-- A backslash and what is behind it. -/
theorem Spells.sequence {t s e text : List UInt8} (h : Spells t s)
    (he : ∀ p, escapeSequence (e ++ p) = some (text, p)) : Spells (92 :: e ++ t) (text ++ s) := by
  intro fuel rest hfuel
  obtain ⟨n, rfl⟩ : ∃ n, fuel = n + 1 := Nat.exists_eq_succ_of_ne_zero (Nat.ne_zero_of_lt hfuel)
  have hlen : t.length < n := by
    simp only [List.cons_append, List.length_cons, List.length_append] at hfuel
    omega
  have hrest := h n rest hlen
  rw [List.cons_append, List.cons_append, List.append_assoc, chars, if_neg (by decide), if_pos rfl,
    he, Option.bind_some]
  dsimp only
  rw [hrest]
  rfl

theorem Spells.escaped {t s : List UInt8} (h : Spells t s) {e b : UInt8}
    (he : simpleEscape e = some b) : Spells (92 :: e :: t) (b :: s) := by
  -- a letter of its own is not the `u` of a code point
  have hunicode : e ≠ 117 := by
    rintro rfl
    have hnone : simpleEscape 117 = none := by decide
    exact absurd (hnone.symm.trans he) nofun
  have hescape : ∀ p, escapeSequence ([e] ++ p) = some ([b], p) := by
    intro p
    rw [List.singleton_append, escapeSequence, if_neg hunicode, he]
    rfl
  exact h.sequence hescape

theorem Spells.string_eq {t s : List UInt8} (h : Spells t s) (rest : List UInt8) :
    string (t ++ 34 :: rest) = some (s, rest) := by
  apply h
  rw [List.length_append, List.length_cons]
  omega

/-! ## §5. Values as they are written. -/

/-- Nothing that could go on with a number, and no blank. -/
def Separated (rest : List UInt8) : Prop := ∃ p, rest = 44 :: p ∨ rest = 125 :: p

/-- `t` is the value `v` wherever a separator follows. -/
def Reads (t : List UInt8) (v : Json) : Prop :=
  ∀ fuel rest, 0 < fuel → Separated rest → value fuel (t ++ rest) = some (v, rest)

theorem reads_string {t s : List UInt8} (h : Spells t s) : Reads (34 :: t ++ [34]) (str s) := by
  intro fuel rest hfuel _
  obtain ⟨n, rfl⟩ : ∃ n, fuel = n + 1 := Nat.exists_eq_succ_of_ne_zero (Nat.ne_of_gt hfuel)
  have htext : 34 :: t ++ [34] ++ rest = 34 :: (t ++ 34 :: rest) := by simp
  have hskip : skipBlanks (34 :: (t ++ 34 :: rest)) = 34 :: (t ++ 34 :: rest) := rfl
  rw [htext, value, hskip]
  show (if (34 : UInt8) = 34 then (string (t ++ 34 :: rest)).map _ else _) = _
  rw [if_pos rfl, h.string_eq]
  rfl

/-- Digits as a number is written: at least one, and no zero in front of others. -/
structure Numeral (ds : List UInt8) : Prop where
  nonempty : ds ≠ []
  digits : ∀ d ∈ ds, isDigit d = true
  head : ds.head? = some 48 → ds.length = 1

theorem Separated.takeWhile_isDigit {rest : List UInt8} (h : Separated rest) :
    rest.takeWhile isDigit = [] ∧ rest.dropWhile isDigit = rest := by
  obtain ⟨p, rfl | rfl⟩ := h
  · exact ⟨rfl, rfl⟩
  · exact ⟨rfl, rfl⟩

theorem magnitude_numeral {ds rest : List UInt8} (h : Numeral ds) (hrest : Separated rest) :
    magnitude (ds ++ rest) = some (decimalValue ds, 0, rest) := by
  obtain ⟨htake, hdrop⟩ := hrest.takeWhile_isDigit
  have hwhole : wholePart (ds ++ rest) = some (ds, rest) := by
    unfold wholePart
    rw [List.takeWhile_append_of_pos h.digits, List.dropWhile_append_of_pos h.digits, htake, hdrop,
      List.append_nil]
    rw [if_neg]
    rintro (hnil | ⟨hhead, hlen⟩)
    · exact h.nonempty hnil
    · exact hlen (h.head hhead)
  have hfraction : fraction rest = some ([], rest) := by
    obtain ⟨p, rfl | rfl⟩ := hrest <;> rfl
  have hexponent : exponent rest = some (0, rest) := by
    obtain ⟨p, rfl | rfl⟩ := hrest <;> rfl
  unfold magnitude
  simp only [hwhole, hfraction, hexponent, Option.bind_eq_bind, Option.bind_some, List.append_nil]
  rfl

theorem reads_numeral {ds : List UInt8} (h : Numeral ds) : Reads ds (num (decimalValue ds) 0) := by
  intro fuel rest hfuel hrest
  obtain ⟨n, rfl⟩ : ∃ n, fuel = n + 1 := Nat.exists_eq_succ_of_ne_zero (Nat.ne_of_gt hfuel)
  obtain ⟨d, ds', rfl⟩ := List.exists_cons_of_ne_nil h.nonempty
  have hd := h.digits d List.mem_cons_self
  have hne : ∀ b : UInt8, isDigit b = false → d ≠ b := by
    rintro b hb rfl
    exact Bool.false_ne_true (hb.symm.trans hd)
  have hblank : isBlank d = false := by
    unfold isBlank
    simp only [Bool.or_eq_false_iff, beq_eq_false_iff_ne]
    exact ⟨⟨⟨hne 32 (by decide), hne 9 (by decide)⟩, hne 10 (by decide)⟩, hne 13 (by decide)⟩
  have hskip : skipBlanks (d :: ds' ++ rest) = d :: ds' ++ rest := by
    unfold skipBlanks
    rw [List.cons_append, List.dropWhile_cons, hblank]
    rfl
  have hnumber : number (d :: ds' ++ rest) = some (num (decimalValue (d :: ds')) 0, rest) := by
    have hsign : number (d :: ds' ++ rest)
        = (magnitude (d :: ds' ++ rest)).map fun (m, x, p) => (num m x, p) := by
      rw [List.cons_append, number]
      intro p heq
      exact hne 45 (by decide) (List.cons.inj heq).1
    rw [hsign, magnitude_numeral h hrest]
    rfl
  rw [value, hskip]
  show (if d = 34 then _ else if d = 123 then _ else if d = 91 then _
    else if d = 110 ∨ d = 116 ∨ d = 102 then _ else number (d :: ds' ++ rest)) = _
  rw [if_neg (hne 34 (by decide)), if_neg (hne 123 (by decide)), if_neg (hne 91 (by decide)),
    if_neg, hnumber]
  rintro (h | h | h)
  · exact hne 110 (by decide) h
  · exact hne 116 (by decide) h
  · exact hne 102 (by decide) h

/-! ## §6. Objects as they are written. -/

/-- A member: its name, its value's text and its value. -/
structure Member where
  key : List UInt8
  text : List UInt8
  val : Json

/-- The member's name between quotes, a colon, the value. -/
def Member.write (m : Member) : List UInt8 := 34 :: m.key ++ 34 :: 58 :: m.text

/-- The members with commas between them. -/
def writeMembers : List Member → List UInt8
  | [] => []
  | [m] => m.write
  | m :: ms => m.write ++ 44 :: writeMembers ms

def writeObject (ms : List Member) : List UInt8 := 123 :: writeMembers ms ++ [125]

structure Member.Ok (m : Member) : Prop where
  key : Spells m.key m.key
  text : Reads m.text m.val

/-- One member, before what follows it. -/
theorem members_write {m : Member} (hm : m.Ok) {fuel : Nat} (hfuel : 0 < fuel) {c : UInt8}
    {p : List UInt8} (hsep : Separated (c :: p)) :
    members (fuel + 1) (m.write ++ c :: p)
      = if c = 44 then (members fuel p).map fun (ms, p) => ((m.key, m.val) :: ms, p)
        else if c = 125 then some ([(m.key, m.val)], p)
        else none := by
  have htext : m.write ++ c :: p = 34 :: (m.key ++ 34 :: (58 :: (m.text ++ c :: p))) := by
    simp [Member.write]
  have hopen : expect 34 (skipBlanks (34 :: (m.key ++ 34 :: (58 :: (m.text ++ c :: p)))))
      = some (m.key ++ 34 :: (58 :: (m.text ++ c :: p))) := rfl
  have hcolon : expect 58 (skipBlanks (58 :: (m.text ++ c :: p))) = some (m.text ++ c :: p) := rfl
  have hskip : skipBlanks (c :: p) = c :: p := by
    obtain ⟨q, h | h⟩ := hsep <;> cases h <;> rfl
  rw [htext, members, hopen, Option.bind_some, hm.key.string_eq, Option.bind_some]
  dsimp only
  rw [hcolon, Option.bind_some, hm.text fuel _ hfuel hsep, Option.bind_some]
  dsimp only
  rw [hskip]

theorem members_writeMembers (rest : List UInt8) :
    ∀ (ms : List Member) (fuel : Nat), ms ≠ [] → ms.length < fuel → (∀ m ∈ ms, m.Ok) →
      members fuel (writeMembers ms ++ 125 :: rest)
        = some (ms.map fun m => (m.key, m.val), rest)
  | [], _, hne, _, _ => absurd rfl hne
  | [m], fuel, _, hfuel, hok => by
      obtain ⟨n, rfl⟩ : ∃ n, fuel = n + 1 := Nat.exists_eq_succ_of_ne_zero (Nat.ne_zero_of_lt hfuel)
      have hpos : 0 < n := Nat.lt_of_succ_lt_succ hfuel
      rw [writeMembers, members_write (hok m List.mem_cons_self) hpos ⟨rest, Or.inr rfl⟩,
        if_neg (by decide), if_pos rfl]
      rfl
  | m :: m' :: ms, fuel, _, hfuel, hok => by
      obtain ⟨n, rfl⟩ : ∃ n, fuel = n + 1 := Nat.exists_eq_succ_of_ne_zero (Nat.ne_zero_of_lt hfuel)
      have hlen : (m' :: ms).length < n := Nat.lt_of_succ_lt_succ hfuel
      have htail := members_writeMembers rest (m' :: ms) n (by simp) hlen
        fun x hx => hok x (List.mem_cons_of_mem _ hx)
      have htext : writeMembers (m :: m' :: ms) ++ 125 :: rest
          = m.write ++ 44 :: (writeMembers (m' :: ms) ++ 125 :: rest) := by
        rw [writeMembers]
        · simp
        · simp
      rw [htext, members_write (hok m List.mem_cons_self) (Nat.zero_lt_of_lt hlen)
        ⟨_, Or.inl rfl⟩, if_pos rfl, htail]
      rfl

/-- Members start with a quote, and take more bytes than they are. -/
theorem writeMembers_shape :
    ∀ ms : List Member, ms ≠ [] → ∃ p, writeMembers ms = 34 :: p ∧ ms.length ≤ p.length
  | [], hne => absurd rfl hne
  | [m], _ => ⟨m.key ++ 34 :: 58 :: m.text, rfl, by simp; omega⟩
  | m :: m' :: ms, _ => by
      obtain ⟨p, hp, hlen⟩ := writeMembers_shape (m' :: ms) (by simp)
      refine ⟨m.key ++ 34 :: 58 :: m.text ++ 44 :: 34 :: p, ?_, ?_⟩
      · rw [writeMembers, hp]
        · rfl
        · simp
      · simp only [List.length_cons, List.length_append] at hlen ⊢
        omega

/-- `t` is the value `v` whatever follows, once there is fuel for `n` levels and
members. -/
def ReadsWithin (n : Nat) (t : List UInt8) (v : Json) : Prop :=
  ∀ fuel rest, n < fuel → value fuel (t ++ rest) = some (v, rest)

theorem readsWithin_object {ms : List Member} (hne : ms ≠ []) (hok : ∀ m ∈ ms, m.Ok) :
    ReadsWithin (ms.length + 1) (writeObject ms) (obj (ms.map fun m => (m.key, m.val))) := by
  intro fuel rest hfuel
  obtain ⟨n, rfl⟩ : ∃ n, fuel = n + 1 := Nat.exists_eq_succ_of_ne_zero (Nat.ne_zero_of_lt hfuel)
  obtain ⟨p, hp, -⟩ := writeMembers_shape ms hne
  have htext : writeObject ms ++ rest = 123 :: 34 :: (p ++ 125 :: rest) := by
    unfold writeObject
    rw [hp]
    simp
  have hmembers := members_writeMembers rest ms n hne (Nat.lt_of_succ_lt_succ hfuel) hok
  rw [hp] at hmembers
  have hskip : skipBlanks (123 :: 34 :: (p ++ 125 :: rest)) = 123 :: 34 :: (p ++ 125 :: rest) := rfl
  have hclose : expect 125 (skipBlanks (34 :: (p ++ 125 :: rest))) = none := rfl
  rw [htext, value, hskip]
  dsimp only
  rw [if_neg (by decide), if_pos rfl, hclose]
  dsimp only
  rw [← List.cons_append, hmembers]
  rfl

/-- A text that is a value by itself. -/
theorem ReadsWithin.parse {n : Nat} {t : List UInt8} {v : Json} (h : ReadsWithin n t v)
    (hn : n ≤ t.length) : parse t = some v := by
  have hvalue := h (t.length + 1) [] (Nat.lt_succ_of_le hn)
  rw [List.append_nil] at hvalue
  unfold Json.parse
  rw [hvalue]
  rfl

theorem length_lt_writeObject {ms : List Member} (hne : ms ≠ []) :
    ms.length < (writeObject ms).length := by
  obtain ⟨p, hp, hlen⟩ := writeMembers_shape ms hne
  unfold writeObject
  rw [hp]
  simp only [List.cons_append, List.length_cons, List.length_append]
  omega

/-- **An object is read back**, its members in order. -/
theorem parse_object {ms : List Member} (hne : ms ≠ []) (hok : ∀ m ∈ ms, m.Ok) :
    parse (writeObject ms) = some (obj (ms.map fun m => (m.key, m.val))) :=
  (readsWithin_object hne hok).parse (length_lt_writeObject hne)

/-! ## §7. Arrays as they are written. -/

/-- The items with commas between them. -/
def writeItems : List (List UInt8) → List UInt8
  | [] => []
  | [t] => t
  | t :: ts => t ++ 44 :: writeItems ts

def writeArray (ts : List (List UInt8)) : List UInt8 := 91 :: writeItems ts ++ [93]

theorem writeItems_cons (t t' : List UInt8) (ts : List (List UInt8)) :
    writeItems (t :: t' :: ts) = t ++ 44 :: writeItems (t' :: ts) := by
  rw [writeItems]
  simp

theorem mem_writeItems {b : UInt8} :
    ∀ {ts : List (List UInt8)}, b ∈ writeItems ts → b = 44 ∨ ∃ t ∈ ts, b ∈ t
  | [], h => absurd h List.not_mem_nil
  | [t], h => Or.inr ⟨t, List.mem_singleton_self t, h⟩
  | t :: t' :: ts, h => by
      rw [writeItems_cons, List.mem_append, List.mem_cons] at h
      rcases h with h | h | h
      · exact Or.inr ⟨t, List.mem_cons_self, h⟩
      · exact Or.inl h
      · rcases mem_writeItems h with h | ⟨x, hx, hb⟩
        · exact Or.inl h
        · exact Or.inr ⟨x, List.mem_cons_of_mem _ hx, hb⟩

theorem length_writeItems_le {k : Nat} :
    ∀ {ts : List (List UInt8)}, (∀ t ∈ ts, t.length ≤ k) →
      (writeItems ts).length ≤ ts.length * (k + 1)
  | [], _ => Nat.zero_le _
  | [t], h => by
      have ht := h t (List.mem_singleton_self t)
      rw [writeItems, List.length_singleton]
      omega
  | t :: t' :: ts, h => by
      have ht := h t List.mem_cons_self
      have htail := length_writeItems_le fun x hx => h x (List.mem_cons_of_mem t hx)
      rw [writeItems_cons, List.length_append, List.length_cons, List.length_cons, Nat.succ_mul]
      omega

/-- A text that can stand in an array: it is a value, and starts like one. -/
structure Item (n : Nat) (t : List UInt8) (v : Json) : Prop where
  reads : ReadsWithin n t v
  length : n ≤ t.length
  head : ∃ b p, t = b :: p ∧ isBlank b = false ∧ b ≠ 93

/-- One item, before what follows it. -/
theorem items_write {n : Nat} {t : List UInt8} {v : Json} (ht : ReadsWithin n t v) {fuel : Nat}
    (hfuel : n < fuel) {c : UInt8} (hc : isBlank c = false) (p : List UInt8) :
    items (fuel + 1) (t ++ c :: p)
      = if c = 44 then (items fuel p).map fun (vs, p) => (v :: vs, p)
        else if c = 93 then some ([v], p)
        else none := by
  have hskip : skipBlanks (c :: p) = c :: p := by
    unfold skipBlanks
    rw [List.dropWhile_cons, hc]
    rfl
  rw [items, ht fuel _ hfuel, Option.bind_some]
  dsimp only
  rw [hskip]

theorem items_writeItems {n : Nat} (rest : List UInt8) :
    ∀ (ts : List (List UInt8)) (vs : List Json) (fuel : Nat), ts ≠ [] → ts.length + n < fuel →
      List.Forall₂ (Item n) ts vs → items fuel (writeItems ts ++ 93 :: rest) = some (vs, rest)
  | [], _, _, hne, _, _ => absurd rfl hne
  | [t], vs, fuel, _, hfuel, hall => by
      obtain ⟨k, rfl⟩ : ∃ k, fuel = k + 1 := Nat.exists_eq_succ_of_ne_zero (Nat.ne_zero_of_lt hfuel)
      obtain ⟨v, vs', hv, hnil, rfl⟩ := List.forall₂_cons_left_iff.mp hall
      rw [List.forall₂_nil_left_iff.mp hnil]
      have hk : n < k := by
        rw [List.length_singleton] at hfuel
        omega
      rw [writeItems, items_write hv.reads hk (by decide), if_neg (by decide), if_pos rfl]
  | t :: t' :: ts, vs, fuel, _, hfuel, hall => by
      obtain ⟨k, rfl⟩ : ∃ k, fuel = k + 1 := Nat.exists_eq_succ_of_ne_zero (Nat.ne_zero_of_lt hfuel)
      obtain ⟨v, vs', hv, htail, rfl⟩ := List.forall₂_cons_left_iff.mp hall
      have hk : (t' :: ts).length + n < k := by
        rw [List.length_cons] at hfuel
        omega
      have hrec := items_writeItems rest (t' :: ts) vs' k (by simp) hk htail
      have htext : writeItems (t :: t' :: ts) ++ 93 :: rest
          = t ++ 44 :: (writeItems (t' :: ts) ++ 93 :: rest) := by
        rw [writeItems]
        · simp
        · simp
      rw [htext, items_write hv.reads (by omega) (by decide), if_pos rfl, hrec]
      rfl

/-- Items start with no blank and no closing bracket, and leave fuel for themselves. -/
theorem writeItems_shape {n : Nat} :
    ∀ (ts : List (List UInt8)) (vs : List Json), ts ≠ [] → List.Forall₂ (Item n) ts vs →
      ∃ b p, writeItems ts = b :: p ∧ isBlank b = false ∧ b ≠ 93
        ∧ ts.length + n ≤ (writeItems ts).length + 1
  | [], _, hne, _ => absurd rfl hne
  | [t], vs, _, hall => by
      obtain ⟨v, vs', hv, -, -⟩ := List.forall₂_cons_left_iff.mp hall
      obtain ⟨b, p, hbp, hblank, hclose⟩ := hv.head
      have hlen := hv.length
      refine ⟨b, p, hbp, hblank, hclose, ?_⟩
      rw [writeItems, List.length_singleton]
      omega
  | t :: t' :: ts, vs, _, hall => by
      obtain ⟨v, vs', hv, htail, -⟩ := List.forall₂_cons_left_iff.mp hall
      obtain ⟨b, p, hbp, hblank, hclose⟩ := hv.head
      obtain ⟨b', p', -, -, -, hlen⟩ := writeItems_shape (t' :: ts) vs' (by simp) htail
      have htext : writeItems (t :: t' :: ts) = t ++ 44 :: writeItems (t' :: ts) := by
        rw [writeItems]
        simp
      refine ⟨b, p ++ 44 :: writeItems (t' :: ts), ?_, hblank, hclose, ?_⟩
      · rw [htext, hbp]
        rfl
      · rw [htext, hbp]
        simp only [List.cons_append, List.length_cons, List.length_append] at hlen ⊢
        omega

theorem readsWithin_array {n : Nat} {ts : List (List UInt8)} {vs : List Json}
    (hall : List.Forall₂ (Item n) ts vs) :
    ReadsWithin (ts.length + n + 1) (writeArray ts) (arr vs) := by
  intro fuel rest hfuel
  obtain ⟨k, rfl⟩ : ∃ k, fuel = k + 1 := Nat.exists_eq_succ_of_ne_zero (Nat.ne_zero_of_lt hfuel)
  by_cases hne : ts = []
  · subst hne
    rw [List.forall₂_nil_left_iff.mp hall]
    rfl
  obtain ⟨b, p, hbp, hblank, hclose, -⟩ := writeItems_shape ts vs hne hall
  have hitems := items_writeItems rest ts vs k hne (Nat.lt_of_succ_lt_succ hfuel) hall
  have htext : writeArray ts ++ rest = 91 :: (writeItems ts ++ 93 :: rest) := by simp [writeArray]
  have hskip : skipBlanks (91 :: (writeItems ts ++ 93 :: rest))
      = 91 :: (writeItems ts ++ 93 :: rest) := rfl
  have hopen : expect 93 (skipBlanks (writeItems ts ++ 93 :: rest)) = none := by
    unfold skipBlanks
    rw [hbp, List.cons_append, List.dropWhile_cons, hblank]
    exact if_neg hclose
  rw [htext, value, hskip]
  dsimp only
  rw [if_neg (by decide), if_neg (by decide), if_pos rfl, hopen]
  dsimp only
  rw [hitems]
  rfl

theorem length_le_writeArray {n : Nat} {ts : List (List UInt8)} {vs : List Json} (hne : ts ≠ [])
    (hall : List.Forall₂ (Item n) ts vs) : ts.length + n + 1 ≤ (writeArray ts).length := by
  obtain ⟨b, p, -, -, -, hlen⟩ := writeItems_shape ts vs hne hall
  unfold writeArray
  rw [List.length_append, List.length_cons, List.length_singleton]
  omega

/-- **An array is read back**, its items in order. -/
theorem parse_array {n : Nat} {ts : List (List UInt8)} {vs : List Json}
    (hall : List.Forall₂ (Item n) ts vs) : parse (writeArray ts) = some (arr vs) := by
  by_cases hne : ts = []
  · subst hne
    rw [List.forall₂_nil_left_iff.mp hall]
    rfl
  · exact (readsWithin_array hall).parse (length_le_writeArray hne hall)

/-- A string as an item. -/
theorem item_string {t s : List UInt8} (h : Spells t s) : Item 1 (34 :: t ++ [34]) (str s) := by
  refine ⟨?_, by simp, 34, t ++ [34], rfl, by decide, by decide⟩
  intro fuel rest hfuel
  obtain ⟨n, rfl⟩ : ∃ n, fuel = n + 1 := Nat.exists_eq_succ_of_ne_zero (Nat.ne_zero_of_lt hfuel)
  have htext : 34 :: t ++ [34] ++ rest = 34 :: (t ++ 34 :: rest) := by simp
  have hskip : skipBlanks (34 :: (t ++ 34 :: rest)) = 34 :: (t ++ 34 :: rest) := rfl
  rw [htext, value, hskip]
  show (if (34 : UInt8) = 34 then (string (t ++ 34 :: rest)).map _ else _) = _
  rw [if_pos rfl, h.string_eq]
  rfl

/-- A member whose value needs fuel of its own, in front of the closing brace. -/
theorem members_last {key text : List UInt8} {v : Json} {n : Nat} (hkey : Spells key key)
    (htext : ReadsWithin n text v) {fuel : Nat} (hfuel : n < fuel) (rest : List UInt8) :
    members (fuel + 1) (34 :: key ++ 34 :: 58 :: (text ++ 125 :: rest)) = some ([(key, v)], rest) := by
  have hopen : expect 34 (skipBlanks (34 :: key ++ 34 :: 58 :: (text ++ 125 :: rest)))
      = some (key ++ 34 :: 58 :: (text ++ 125 :: rest)) := rfl
  have hcolon : expect 58 (skipBlanks (58 :: (text ++ 125 :: rest))) = some (text ++ 125 :: rest) := rfl
  rw [members, hopen, Option.bind_some, hkey.string_eq, Option.bind_some]
  dsimp only
  rw [hcolon, Option.bind_some, htext fuel _ hfuel, Option.bind_some]
  rfl

/-- **An object of a plain member and one that holds a value of its own** is read back. -/
theorem parse_pair {m : Member} (hm : m.Ok) {key text : List UInt8} {v : Json} {n : Nat}
    (hkey : Spells key key) (htext : ReadsWithin n text v) (hn : n ≤ text.length) :
    parse (123 :: (m.write ++ 44 :: (34 :: key ++ 34 :: 58 :: (text ++ [125]))))
      = some (obj [(m.key, m.val), (key, v)]) := by
  have hlen : ∃ k, (m.write ++ 44 :: (34 :: key ++ 34 :: 58 :: (text ++ [125]))).length = k + 1
      ∧ n < k := by
    refine ⟨m.write.length + key.length + text.length + 4, ?_, by omega⟩
    simp only [List.length_append, List.length_cons, List.length_nil]
    omega
  obtain ⟨k, hlen, hk⟩ := hlen
  have hlast := members_last hkey htext hk []
  have hfirst := @members_write m hm (k + 1) (Nat.succ_pos k) 44
    (34 :: key ++ 34 :: 58 :: (text ++ [125])) ⟨_, Or.inl rfl⟩
  rw [if_pos rfl, hlast] at hfirst
  have hskip : skipBlanks (123 :: (m.write ++ 44 :: (34 :: key ++ 34 :: 58 :: (text ++ [125]))))
      = 123 :: (m.write ++ 44 :: (34 :: key ++ 34 :: 58 :: (text ++ [125]))) := rfl
  have hclose : expect 125 (skipBlanks (m.write ++ 44 :: (34 :: key ++ 34 :: 58 :: (text ++ [125]))))
      = none := rfl
  unfold parse
  rw [List.length_cons, hlen, value, hskip]
  dsimp only
  rw [if_neg (by decide), if_pos rfl, hclose]
  dsimp only
  rw [hfirst]
  rfl

end Json

end NetServer.Lib
