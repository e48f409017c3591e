/-
  NetServer.Lib.CString — the C library's byte and string scans, over lists.

  A pointer is the list of the bytes from it on, a region `[p, p + n)` is the
  list of its bytes.  A function that takes a length gets the region; `strtol`
  takes no length and gets everything from its pointer on, whatever region
  the caller thinks it is in.

  Main results:
    • `idxOf?_append_cons` — a scan stops at the first separator.
    • `strncaseEq_iff`     — the case-insensitive comparison with a literal.
    • `strtol_field`       — a number followed by a non-digit is read exactly;
    • `strtol_digits`, `strtol_minus` — a longer one saturates;
    • `strtol_line`, `strtol_blank` — when the line it is on matters;
    • `strtol_numeral`, `numeral_of_strtolEnd` — the text that is converted.
-/
import Mathlib.Data.Nat.Digits.Defs
import Mathlib.Data.List.Basic
import Mathlib.Data.List.TakeWhile

namespace NetServer.Lib

/-! ## §1. Literals and scans. -/

/-- The bytes of an ASCII literal, without its terminating NUL. -/
def ascii (s : String) : List UInt8 := s.toList.map fun c => UInt8.ofNat c.toNat

/-- A C string: the bytes before the first NUL. -/
def cString (p : List UInt8) : List UInt8 := p.takeWhile (· ≠ 0)

theorem cString_cons (b : UInt8) (p : List UInt8) :
    cString (b :: p) = if b = 0 then [] else b :: cString p := by
  unfold cString
  rw [List.takeWhile_cons]
  by_cases hb : b = 0
  · rw [if_pos hb, if_neg (by rw [hb]; decide)]
  · rw [if_neg hb, if_pos (decide_eq_true hb)]

/-- Without a NUL the whole buffer is the string. -/
theorem cString_of_notMem {p : List UInt8} (h : 0 ∉ p) : cString p = p := by
  unfold cString
  rw [List.takeWhile_eq_self_iff]
  intro b hb
  rw [decide_eq_true_eq]
  rintro rfl
  exact h hb

/-- A string ends at the NUL written behind it. -/
theorem cString_append_nul {text : List UInt8} (h : 0 ∉ text) (tail : List UInt8) :
    cString (text ++ 0 :: tail) = text := by
  unfold cString
  rw [List.takeWhile_append_of_pos, List.takeWhile_cons, if_neg (by decide), List.append_nil]
  intro c hc
  rw [decide_eq_true_eq]
  rintro rfl
  exact h hc

/-- `memchr` finds a byte at the end of the part that does not hold it. -/
theorem idxOf?_append_cons {a b : List UInt8} {c : UInt8} (h : c ∉ a) :
    (a ++ c :: b).idxOf? c = some a.length := by
  induction a with
  | nil => simp [List.idxOf?_cons]
  | cons x xs ih =>
    have hx : x ≠ c := fun hxc => h (by simp [hxc])
    have hxs : c ∉ xs := fun hm => h (List.mem_cons_of_mem _ hm)
    rw [List.cons_append, List.idxOf?_cons, if_neg (by simpa using hx), ih hxs]
    rfl

/-! ## §2. Comparison without regard to letter case. -/

/-- `tolower` in the C locale. -/
def toLower (b : UInt8) : UInt8 := if 65 ≤ b ∧ b ≤ 90 then b + 32 else b

/-- `!strncasecmp (a, b, n)`: equal up to `n` bytes or up to a common NUL. -/
def strncaseEq : Nat → List UInt8 → List UInt8 → Bool
  | 0, _, _ => true
  | n + 1, a :: as, b :: bs => toLower a == toLower b && (a == 0 || strncaseEq n as bs)
  | _ + 1, _, _ => false

theorem toLower_eq_zero {b : UInt8} : toLower b = 0 ↔ b = 0 := by
  constructor
  · intro h
    unfold toLower at h
    split at h
    · rename_i hr
      have h1 : (65 : Nat) ≤ b.toNat := UInt8.le_iff_toNat_le.mp hr.1
      have h2 : b.toNat ≤ 90 := UInt8.le_iff_toNat_le.mp hr.2
      have h3 : (b + 32).toNat = 0 := by rw [h]; rfl
      rw [UInt8.toNat_add] at h3
      have h4 : (32 : UInt8).toNat = 32 := rfl
      omega
    · exact h
  · intro h
    subst h
    rfl

/-- Against a literal without NUL the comparison is equality of the
lower-cased bytes. -/
theorem strncaseEq_iff (lit : List UInt8) (hlit : 0 ∉ lit) :
    ∀ p : List UInt8, strncaseEq lit.length p lit = true ↔
      (p.take lit.length).map toLower = lit.map toLower := by
  induction lit with
  | nil => intro p; simp [strncaseEq]
  | cons b bs ih =>
    intro p
    have hb : b ≠ 0 := fun h => hlit (by simp [h])
    cases p with
    | nil => simp [strncaseEq]
    | cons a as =>
      have hstep := ih (fun h => hlit (List.mem_cons_of_mem _ h)) as
      simp only [List.length_cons, strncaseEq, Bool.and_eq_true, beq_iff_eq, Bool.or_eq_true,
        List.take_succ_cons, List.map_cons, List.cons.injEq]
      constructor
      · rintro ⟨hab, ha | hrest⟩
        · -- A common NUL would make the literal hold one.
          subst ha
          exact absurd (toLower_eq_zero.mp hab.symm) hb
        · exact ⟨hab, hstep.mp hrest⟩
      · rintro ⟨hab, hrest⟩
        exact ⟨hab, Or.inr (hstep.mpr hrest)⟩

/-- `strncasecmp` against a literal no longer than the line reads the line only. -/
theorem strncaseEq_take (lit : List UInt8) (hlit : 0 ∉ lit) {p line : List UInt8}
    (hp : p.take line.length = line) (hlen : lit.length ≤ line.length) :
    strncaseEq lit.length p lit = strncaseEq lit.length line lit := by
  rw [Bool.eq_iff_iff, strncaseEq_iff lit hlit, strncaseEq_iff lit hlit, ← hp,
    List.take_take, Nat.min_eq_left hlen]

/-! ## §3. Decimal numbers. -/

def isSpace (b : UInt8) : Bool := b == 32 || (9 ≤ b && b ≤ 13)

def isDigit (b : UInt8) : Bool := 48 ≤ b && b ≤ 57

def longMax : Int := 2 ^ 63 - 1
def longMin : Int := -2 ^ 63

/-- The value of the leading decimal digits. -/
def digitsValue (p : List UInt8) : Nat :=
  (p.takeWhile isDigit).foldl (fun acc d => 10 * acc + (d.toNat - 48)) 0

/-- `strtol (p, NULL, 10)`: blanks, an optional sign, digits; saturating. -/
def strtol (p : List UInt8) : Int :=
  match p.dropWhile isSpace with
  | 43 :: q => min (digitsValue q) longMax
  | 45 :: q => max (-(digitsValue q)) longMin
  | q => min (digitsValue q) longMax

/-- `atoi`: a `long` cut to the 32 bits of an `int`. -/
def atoi (p : List UInt8) : Int := Int.bmod (strtol p) (2 ^ 32)

/-- The number a string of decimal digits denotes. -/
def decimalValue (ds : List UInt8) : Nat :=
  Nat.ofDigits 10 (ds.reverse.map fun d => d.toNat - 48)

theorem decimalValue_cons (d : UInt8) (ds : List UInt8) :
    decimalValue (d :: ds) = decimalValue ds + 10 ^ ds.length * (d.toNat - 48) := by
  simp [decimalValue, Nat.ofDigits_append]

theorem foldl_digits (ds : List UInt8) :
    ∀ acc, ds.foldl (fun acc d => 10 * acc + (d.toNat - 48)) acc
      = acc * 10 ^ ds.length + decimalValue ds := by
  induction ds with
  | nil => intro acc; simp [decimalValue]
  | cons d ds ih =>
    intro acc
    rw [List.foldl_cons, ih, decimalValue_cons, List.length_cons, pow_succ]
    ring

theorem digitsValue_eq {ds rest : List UInt8} (hds : ∀ d ∈ ds, isDigit d = true)
    (hrest : rest.takeWhile isDigit = []) : digitsValue (ds ++ rest) = decimalValue ds := by
  unfold digitsValue
  rw [List.takeWhile_append_of_pos hds, hrest, List.append_nil, foldl_digits]
  simp

/-- A number whose first digit is not zero is at least a power of ten. -/
theorem pow_le_decimalValue {d : UInt8} (ds : List UInt8) (hd : isDigit d = true) (h0 : d ≠ 48) :
    10 ^ ds.length ≤ decimalValue (d :: ds) := by
  have hpos : 1 ≤ d.toNat - 48 := by
    simp only [isDigit, Bool.and_eq_true, decide_eq_true_eq, UInt8.le_iff_toNat_le] at hd
    have hne : d.toNat ≠ (48 : UInt8).toNat := fun h => h0 (UInt8.toNat_inj.mp h)
    have h48 : (48 : UInt8).toNat = 48 := rfl
    omega
  rw [decimalValue_cons]
  calc 10 ^ ds.length = 10 ^ ds.length * 1 := (Nat.mul_one _).symm
    _ ≤ 10 ^ ds.length * (d.toNat - 48) := Nat.mul_le_mul_left _ hpos
    _ ≤ decimalValue ds + 10 ^ ds.length * (d.toNat - 48) := Nat.le_add_left _ _

/-- A digit is not a blank. -/
theorem isSpace_of_isDigit {d : UInt8} (hd : isDigit d = true) : isSpace d = false := by
  simp only [isDigit, Bool.and_eq_true, decide_eq_true_eq, UInt8.le_iff_toNat_le] at hd
  simp only [isSpace, Bool.or_eq_false_iff, beq_eq_false_iff_ne, Bool.and_eq_false_iff,
    decide_eq_false_iff_not, UInt8.le_iff_toNat_le]
  have h48 : (48 : UInt8).toNat = 48 := rfl
  have h13 : (13 : UInt8).toNat = 13 := rfl
  refine ⟨fun h => ?_, Or.inr (by omega)⟩
  subst h
  exact absurd hd.1 (by decide)

/-- Blanks, digits and then anything that is no digit: the digits are read. -/
theorem strtol_digits {ds rest : List UInt8} (k : Nat) (hne : ds ≠ [])
    (hds : ∀ d ∈ ds, isDigit d = true) (hrest : rest.takeWhile isDigit = []) :
    strtol (List.replicate k 32 ++ ds ++ rest) = min (decimalValue ds : Int) longMax := by
  obtain ⟨d, ds', rfl⟩ := List.exists_cons_of_ne_nil hne
  have hd := hds d List.mem_cons_self
  have hspace := isSpace_of_isDigit hd
  -- The blanks end at the first digit, the digits at the rest.
  have hdrop : (List.replicate k 32 ++ (d :: ds') ++ rest).dropWhile isSpace
      = (d :: ds') ++ rest := by
    rw [List.append_assoc, List.dropWhile_append_of_pos]
    · simp [hspace]
    · intro x hx
      rw [List.eq_of_mem_replicate hx]
      rfl
  have hval := digitsValue_eq hds hrest
  unfold strtol
  rw [hdrop]
  -- no sign: a digit is neither '+' nor '-'
  have h43 : d ≠ 43 := fun h => by subst h; exact absurd hd (by decide)
  have h45 : d ≠ 45 := fun h => by subst h; exact absurd hd (by decide)
  rw [List.cons_append] at hval ⊢
  split
  · rename_i q hq
    exact absurd (List.cons.inj hq).1 h43
  · rename_i q hq
    exact absurd (List.cons.inj hq).1 h45
  · rw [hval]

theorem strtol_field {ds rest : List UInt8} (k : Nat) (hne : ds ≠ [])
    (hds : ∀ d ∈ ds, isDigit d = true) (hrest : rest.takeWhile isDigit = [])
    (hmax : (decimalValue ds : Int) ≤ longMax) :
    strtol (List.replicate k 32 ++ ds ++ rest) = decimalValue ds := by
  rw [strtol_digits k hne hds hrest, min_eq_left hmax]

/-- A minus sign and digits. -/
theorem strtol_minus {ds : List UInt8} (hds : ∀ d ∈ ds, isDigit d = true) :
    strtol (45 :: ds) = max (-(decimalValue ds : Int)) longMin := by
  have hval : digitsValue ds = decimalValue ds := by
    have hfull := @digitsValue_eq ds [] hds rfl
    rwa [List.append_nil] at hfull
  have hdrop : (45 :: ds).dropWhile isSpace = 45 :: ds := rfl
  unfold strtol
  rw [hdrop]
  show max (-(digitsValue ds : Int)) longMin = _
  rw [hval]

/-! ## §4. Numbers on a line. -/

/-- Digits do not go on behind a newline. -/
theorem digitsValue_append {p : List UInt8} (h : 10 ∈ p) (rest : List UInt8) :
    digitsValue (p ++ rest) = digitsValue p := by
  have hshort : (p.takeWhile isDigit).length ≠ p.length := by
    intro hlen
    have hall := (List.takeWhile_prefix isDigit).eq_of_length hlen
    rw [List.takeWhile_eq_self_iff] at hall
    exact absurd (hall 10 h) (by decide)
  unfold digitsValue
  rw [List.takeWhile_append, if_neg hshort]

/-- Behind the blanks: a sign, or the first digit. -/
theorem strtol_cons {p : List UInt8} {c : UInt8} {q : List UInt8}
    (hp : p.dropWhile isSpace = c :: q) :
    strtol p = if c = 43 then min ((digitsValue q : Nat) : Int) longMax
      else if c = 45 then max (-((digitsValue q : Nat) : Int)) longMin
      else min ((digitsValue (c :: q) : Nat) : Int) longMax := by
  unfold strtol
  rw [hp]
  split
  · rename_i heq
    cases heq
    rfl
  · rename_i heq
    cases heq
    rfl
  · rename_i hplus hminus
    rw [if_neg (fun h => hplus q (by rw [h])), if_neg (fun h => hminus q (by rw [h]))]

/-- **A number is on its line.**  On a line that is not blank, `strtol` reads
nothing behind the newline. -/
theorem strtol_line {line : List UInt8} (hend : line.getLast? = some 10)
    (hblank : line.all isSpace = false) (rest : List UInt8) :
    strtol (line ++ rest) = strtol line := by
  have hne : line.dropWhile isSpace ≠ [] := by
    intro hnil
    rw [List.dropWhile_eq_nil_iff] at hnil
    rw [List.all_eq_true.mpr hnil] at hblank
    exact absurd hblank (by decide)
  obtain ⟨c, q, hq⟩ := List.exists_cons_of_ne_nil hne
  have hdrop : (line ++ rest).dropWhile isSpace = c :: (q ++ rest) := by
    rw [List.dropWhile_append, if_neg (by simpa using hne), hq, List.cons_append]
  have hc : isSpace c = false := by
    have hhead := List.head_dropWhile_not isSpace hne
    simpa [hq] using hhead
  -- the newline is behind the first byte that is no blank
  have hmem : 10 ∈ q := by
    rw [← List.takeWhile_append_dropWhile (p := isSpace) (l := line), hq,
      List.getLast?_append_cons] at hend
    rcases List.mem_cons.mp (List.mem_of_getLast? hend) with h | h
    · rw [← h] at hc
      exact absurd hc (by decide)
    · exact h
  have hval := digitsValue_append (List.mem_cons_of_mem c hmem) rest
  rw [List.cons_append] at hval
  rw [strtol_cons hdrop, strtol_cons hq, digitsValue_append hmem, hval]

/-- On a blank line `strtol` reads what stands behind it. -/
theorem strtol_blank {line : List UInt8} (h : line.all isSpace = true) (rest : List UInt8) :
    strtol (line ++ rest) = strtol rest := by
  unfold strtol
  rw [List.dropWhile_append_of_pos (List.all_eq_true.mp h)]

/-! ## §4. Where a number ends. -/

/-- The sign that may stand before the digits, as a number of bytes. -/
def signLength (q : List UInt8) : Nat := if q.head? = some 43 ∨ q.head? = some 45 then 1 else 0

/-- The digits behind blanks and sign. -/
def numberDigits (p : List UInt8) : List UInt8 :=
  ((p.dropWhile isSpace).drop (signLength (p.dropWhile isSpace))).takeWhile isDigit

/-- `e - p` after `strtol (p, &e, 10)`: 0 when there is nothing to convert. -/
def strtolEnd (p : List UInt8) : Nat :=
  if (numberDigits p).length = 0 then 0
  else (p.takeWhile isSpace).length + signLength (p.dropWhile isSpace) + (numberDigits p).length

/-- A text that `strtol` converts to the end: blanks, an optional sign and
digits, with the value it gives. -/
def Numeral (text : List UInt8) (v : Int) : Prop :=
  ∃ blanks sign ds, text = blanks ++ sign ++ ds ∧ (∀ b ∈ blanks, isSpace b = true)
    ∧ (sign = [] ∨ sign = [43] ∨ sign = [45]) ∧ ds ≠ [] ∧ (∀ d ∈ ds, isDigit d = true)
    ∧ v = if sign = [45] then max (-(decimalValue ds : Int)) longMin
        else min (decimalValue ds : Int) longMax

theorem take_signLength (q : List UInt8) :
    (q.take (signLength q) = [] ∨ q.take (signLength q) = [43] ∨ q.take (signLength q) = [45])
      ∧ (q.take (signLength q)).length = signLength q := by
  unfold signLength
  cases q with
  | nil => exact ⟨Or.inl rfl, rfl⟩
  | cons c q =>
      rw [List.head?_cons]
      split_ifs with hc
      · refine ⟨Or.inr ?_, rfl⟩
        rcases hc with hc | hc
        · exact Or.inl (by rw [Option.some.inj hc]; rfl)
        · exact Or.inr (by rw [Option.some.inj hc]; rfl)
      · exact ⟨Or.inl rfl, rfl⟩

/-- Behind the blanks: the value of sign and digits. -/
theorem strtol_signed {p sign ds rest : List UInt8} (hp : p.dropWhile isSpace = sign ++ ds ++ rest)
    (hsign : sign = [] ∨ sign = [43] ∨ sign = [45]) (hne : ds ≠ [])
    (hds : ∀ d ∈ ds, isDigit d = true) (hrest : rest.takeWhile isDigit = []) :
    strtol p = if sign = [45] then max (-(decimalValue ds : Int)) longMin
      else min (decimalValue ds : Int) longMax := by
  have hval := digitsValue_eq hds hrest
  rcases hsign with rfl | rfl | rfl
  · obtain ⟨d, ds', rfl⟩ := List.exists_cons_of_ne_nil hne
    have hd := hds d List.mem_cons_self
    have hplus : d ≠ 43 := fun h => absurd (h ▸ hd) (by decide)
    have hminus : d ≠ 45 := fun h => absurd (h ▸ hd) (by decide)
    rw [strtol_cons hp, if_neg hplus, if_neg hminus, if_neg (by decide), ← hval]
    rfl
  · rw [strtol_cons hp, if_pos rfl, if_neg (by decide), ← hval]
    rfl
  · rw [strtol_cons hp, if_neg (by decide), if_pos rfl, if_pos rfl, ← hval]
    rfl

/-- **A numeral is converted to its end**, whatever stands behind it but a digit. -/
theorem strtol_numeral {text rest : List UInt8} {v : Int} (h : Numeral text v)
    (hrest : rest.takeWhile isDigit = []) :
    strtol (text ++ rest) = v ∧ strtolEnd (text ++ rest) = text.length := by
  obtain ⟨blanks, sign, ds, rfl, hblanks, hsign, hne, hds, rfl⟩ := h
  obtain ⟨d, ds', hcons⟩ := List.exists_cons_of_ne_nil hne
  have hd : isDigit d = true := hds d (hcons ▸ List.mem_cons_self)
  -- the byte behind the blanks is no blank
  have hstop : (sign ++ ds ++ rest).dropWhile isSpace = sign ++ ds ++ rest
      ∧ (sign ++ ds ++ rest).takeWhile isSpace = [] := by
    rw [hcons]
    have hspace := isSpace_of_isDigit hd
    rcases hsign with rfl | rfl | rfl
    · simp [hspace]
    · exact ⟨rfl, rfl⟩
    · exact ⟨rfl, rfl⟩
  have hassoc : blanks ++ sign ++ ds ++ rest = blanks ++ (sign ++ ds ++ rest) := by
    simp only [List.append_assoc]
  have hdrop : (blanks ++ sign ++ ds ++ rest).dropWhile isSpace = sign ++ ds ++ rest := by
    rw [hassoc, List.dropWhile_append_of_pos hblanks, hstop.1]
  have htake : (blanks ++ sign ++ ds ++ rest).takeWhile isSpace = blanks := by
    rw [hassoc, List.takeWhile_append_of_pos hblanks, hstop.2, List.append_nil]
  have hlen : signLength (sign ++ ds ++ rest) = sign.length := by
    have hplus : d ≠ 43 := fun h => absurd (h ▸ hd) (by decide)
    have hminus : d ≠ 45 := fun h => absurd (h ▸ hd) (by decide)
    unfold signLength
    rw [hcons]
    rcases hsign with rfl | rfl | rfl
    · simp [hplus, hminus]
    · rfl
    · rfl
  have hdigits : numberDigits (blanks ++ sign ++ ds ++ rest) = ds := by
    unfold numberDigits
    rw [hdrop, hlen, List.append_assoc, List.drop_left, List.takeWhile_append_of_pos hds, hrest,
      List.append_nil]
  refine ⟨strtol_signed hdrop hsign hne hds hrest, ?_⟩
  unfold strtolEnd
  rw [hdigits, hdrop, htake, hlen, if_neg (fun h => hne (List.length_eq_zero_iff.mp h)),
    List.length_append, List.length_append]

/-- **What was converted is a numeral.** -/
theorem numeral_of_strtolEnd {p : List UInt8} (h : strtolEnd p ≠ 0) :
    Numeral (p.take (strtolEnd p)) (strtol p) := by
  have hne : numberDigits p ≠ [] := by
    intro hnil
    unfold strtolEnd at h
    rw [hnil] at h
    exact h rfl
  have hend : strtolEnd p = (p.takeWhile isSpace).length + signLength (p.dropWhile isSpace)
      + (numberDigits p).length :=
    if_neg (fun hz => hne (List.length_eq_zero_iff.mp hz))
  have hdigit : ∀ d ∈ numberDigits p, isDigit d = true := by
    intro d hd
    exact List.mem_takeWhile_imp hd
  -- the part behind the blanks: sign, digits, rest
  have hparts : p.dropWhile isSpace
      = (p.dropWhile isSpace).take (signLength (p.dropWhile isSpace)) ++ numberDigits p
        ++ ((p.dropWhile isSpace).drop (signLength (p.dropWhile isSpace))).dropWhile isDigit := by
    unfold numberDigits
    rw [List.append_assoc, List.takeWhile_append_dropWhile, List.take_append_drop]
  have hrest : (((p.dropWhile isSpace).drop (signLength (p.dropWhile isSpace))).dropWhile
      isDigit).takeWhile isDigit = [] := by
    generalize (p.dropWhile isSpace).drop (signLength (p.dropWhile isSpace)) = q
    induction q with
    | nil => rfl
    | cons b q ih =>
        by_cases hb : isDigit b = true
        · rw [List.dropWhile_cons_of_pos hb]
          exact ih
        · rw [List.dropWhile_cons_of_neg hb, List.takeWhile_cons_of_neg hb]
  obtain ⟨hsign, hlen⟩ := take_signLength (p.dropWhile isSpace)
  refine ⟨p.takeWhile isSpace, _, numberDigits p, ?_, fun b hb => List.mem_takeWhile_imp hb, hsign,
    hne, hdigit, strtol_signed hparts hsign hne hdigit hrest⟩
  have hall : p = p.takeWhile isSpace
      ++ (p.dropWhile isSpace).take (signLength (p.dropWhile isSpace)) ++ numberDigits p
      ++ ((p.dropWhile isSpace).drop (signLength (p.dropWhile isSpace))).dropWhile isDigit := by
    rw [List.append_assoc, List.append_assoc, ← List.append_assoc _ (numberDigits p), ← hparts,
      List.takeWhile_append_dropWhile]
  have hcut := congrArg (List.take (strtolEnd p)) hall
  refine hcut.trans (List.take_left' ?_)
  rw [List.length_append, List.length_append, hlen, hend]

end NetServer.Lib
