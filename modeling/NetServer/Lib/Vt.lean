/-
  NetServer.Lib.Vt — a character terminal of `rows` by `cols` cells.

  Bytes are received one at a time: UTF-8 text is written at the cursor, CR, LF and
  BS move it, and of the escape sequences those for cursor position (CUP), erase
  display and erase line (ED 2, EL 2) and attributes (SGR) are understood.  Cells hold
  characters; attributes leave no trace.  A line that is full wraps when the next
  character comes, and the screen scrolls when a line feed finds the cursor on the
  last row.

    • `Draws`        — bytes that write a text and do nothing else; `Draws.append`;
    • `putAll_cell`  — a text that fits its line, cell by cell;
    • `Shows.write`, `Written.newline`, `Shows.writeAll`, `Written.goto` — the screen as
      lines (`grid`): writing one, opening the next, addressing one by its number;
    • `Whole`        — bytes that leave no sequence open.
-/
import Mathlib.Logic.Function.Basic
import NetServer.Lib.CString

namespace NetServer.Lib.Vt

/-! ## §1. The terminal. -/

/-- What the terminal is in the middle of. -/
inductive Mode where
  | ground
  /-- Behind ESC. -/
  | escape
  /-- Behind ESC `[`, with the parameter bytes so far. -/
  | control (params : List UInt8)
  /-- In a UTF-8 character: the bytes that are missing and its value so far. -/
  | utf8 (missing value : Nat)
  deriving Repr, DecidableEq

/-- `full` says that the last column of the cursor's row has just been written;
`scrolled` counts the lines that have left the screen. -/
structure Term where
  cell : Nat → Nat → Nat
  row : Nat
  col : Nat
  full : Bool
  mode : Mode
  scrolled : Nat

def blank : Nat := 32

/-- The parameters of a control sequence, separated by semicolons. -/
def paramValues : Nat → List UInt8 → List Nat
  | v, [] => [v]
  | v, b :: p => if b = 59 then v :: paramValues 0 p else paramValues (10 * v + (b.toNat - 48)) p

namespace Term

variable (rows cols : Nat)

/-- One row down; the screen scrolls on the last one. -/
def lineFeed (t : Term) : Term :=
  if t.row + 1 < rows then { t with row := t.row + 1, full := false }
  else
    { t with
      cell := fun r c => if r + 1 < rows then t.cell (r + 1) c else blank
      full := false
      scrolled := t.scrolled + 1 }

/-- Behind a full row, open the next one. -/
def wrap (t : Term) : Term := if t.full then lineFeed rows { t with col := 0 } else t

/-- The cells with a character at the cursor. -/
def marked (t : Term) (ch : Nat) : Nat → Nat → Nat :=
  Function.update t.cell t.row (Function.update (t.cell t.row) t.col ch)

/-- Write a character at the cursor, which stays within the row. -/
def mark (t : Term) (ch : Nat) : Term :=
  if t.col + 1 < cols then { t with cell := t.marked ch, col := t.col + 1 }
  else { t with cell := t.marked ch, full := true }

def putChar (t : Term) (ch : Nat) : Term := mark cols (wrap rows t) ch

/-- A complete control sequence. -/
def controlSequence (t : Term) (params : List UInt8) (final : UInt8) : Term :=
  if final = 72 then
    let ps := paramValues 0 params
    { t with
      row := min (ps[0]?.getD 0 - 1) (rows - 1)
      col := min (ps[1]?.getD 0 - 1) (cols - 1)
      full := false }
  else if final = 74 ∧ paramValues 0 params = [2] then { t with cell := fun _ _ => blank }
  else if final = 75 ∧ paramValues 0 params = [2] then
    { t with cell := Function.update t.cell t.row fun _ => blank }
  else t

/-- A byte that is not part of a sequence. -/
def receiveGround (t : Term) (b : UInt8) : Term :=
  if b = 27 then { t with mode := .escape }
  else if b = 13 then { t with col := 0, full := false }
  else if b = 10 then lineFeed rows t
  else if b = 8 then { t with col := t.col - 1, full := false }
  else if b < 32 ∨ b = 127 then t
  else if b < 128 then putChar rows cols t b.toNat
  else if b < 192 then t
  else if b < 224 then { t with mode := .utf8 1 (b.toNat - 192) }
  else if b < 240 then { t with mode := .utf8 2 (b.toNat - 224) }
  else if b < 248 then { t with mode := .utf8 3 (b.toNat - 240) }
  else t

def receive (t : Term) (b : UInt8) : Term :=
  match t.mode with
  | .ground => receiveGround rows cols t b
  | .escape => { t with mode := if b = 91 then .control [] else .ground }
  | .control params =>
      if 48 ≤ b ∧ b ≤ 63 then { t with mode := .control (params ++ [b]) }
      else if 64 ≤ b ∧ b ≤ 126 then controlSequence rows cols { t with mode := .ground } params b
      else { t with mode := .ground }
  | .utf8 missing value =>
      if 128 ≤ b ∧ b < 192 then
        let value := value * 64 + (b.toNat - 128)
        if missing ≤ 1 then putChar rows cols { t with mode := .ground } value
        else { t with mode := .utf8 (missing - 1) value }
      else { t with mode := .ground }

def feed (t : Term) (bytes : List UInt8) : Term := bytes.foldl (receive rows cols) t

/-- A text, written at the cursor. -/
def putAll (t : Term) (text : List Nat) : Term := text.foldl (putChar rows cols) t

@[simp] theorem feed_nil (t : Term) : feed rows cols t [] = t := rfl

theorem feed_append (t : Term) (p q : List UInt8) :
    feed rows cols t (p ++ q) = feed rows cols (feed rows cols t p) q :=
  List.foldl_append

theorem feed_cons (t : Term) (b : UInt8) (p : List UInt8) :
    feed rows cols t (b :: p) = feed rows cols (receive rows cols t b) p := rfl

theorem receive_ground {t : Term} (ht : t.mode = .ground) (b : UInt8) :
    receive rows cols t b = receiveGround rows cols t b := by
  unfold receive
  rw [ht]

@[simp] theorem lineFeed_mode (t : Term) : (lineFeed rows t).mode = t.mode := by
  unfold lineFeed
  split <;> rfl

@[simp] theorem putChar_mode (t : Term) (ch : Nat) : (putChar rows cols t ch).mode = t.mode := by
  have hmark : ∀ u : Term, (mark cols u ch).mode = u.mode := by
    intro u
    unfold mark
    split <;> rfl
  unfold putChar wrap
  rw [hmark]
  split
  · exact lineFeed_mode rows _
  · rfl

@[simp] theorem putAll_mode (text : List Nat) :
    ∀ t : Term, (putAll rows cols t text).mode = t.mode := by
  induction text with
  | nil => intro t; rfl
  | cons ch text ih =>
    intro t
    show (putAll rows cols (putChar rows cols t ch) text).mode = t.mode
    rw [ih, putChar_mode]

end Term

/-! ## §2. Bytes that write a text. -/

/-- The bytes write these characters at the cursor, one behind the other, and do
nothing else. -/
def Draws (rows cols : Nat) (bytes : List UInt8) (text : List Nat) : Prop :=
  ∀ t : Term, t.mode = .ground → t.feed rows cols bytes = t.putAll rows cols text

section Draws

variable {rows cols : Nat} {p q : List UInt8} {text text' : List Nat}

theorem draws_nil : Draws rows cols [] [] := fun _ _ => rfl

theorem Draws.append (hp : Draws rows cols p text) (hq : Draws rows cols q text') :
    Draws rows cols (p ++ q) (text ++ text') := by
  intro t ht
  rw [Term.feed_append, hp t ht, hq _ (by rw [Term.putAll_mode, ht])]
  exact List.foldl_append.symm

/-- A printable character of ASCII. -/
theorem draws_char {b : UInt8} (hlow : 32 ≤ b) (hhigh : b ≤ 126) : Draws rows cols [b] [b.toNat] := by
  have hall : ∀ b : UInt8, 32 ≤ b → b ≤ 126 →
      b ≠ 27 ∧ b ≠ 13 ∧ b ≠ 10 ∧ b ≠ 8 ∧ ¬ (b < 32 ∨ b = 127) ∧ b < 128 := by
    intro b h1 h2
    rw [UInt8.le_iff_toNat_le] at h1 h2
    have h1 : 32 ≤ b.toNat := h1
    have h2 : b.toNat ≤ 126 := h2
    have hne : ∀ k : UInt8, b.toNat ≠ k.toNat → b ≠ k := fun k hk heq => hk (congrArg UInt8.toNat heq)
    refine ⟨hne 27 ?_, hne 13 ?_, hne 10 ?_, hne 8 ?_, ?_, ?_⟩
    · show b.toNat ≠ 27
      omega
    · show b.toNat ≠ 13
      omega
    · show b.toNat ≠ 10
      omega
    · show b.toNat ≠ 8
      omega
    · rintro (h | h)
      · rw [UInt8.lt_iff_toNat_lt] at h
        have h : b.toNat < 32 := h
        omega
      · have h : b.toNat = 127 := congrArg UInt8.toNat h
        omega
    · rw [UInt8.lt_iff_toNat_lt]
      show b.toNat < 128
      omega
  obtain ⟨h27, h13, h10, h8, hctl, h128⟩ := hall b hlow hhigh
  intro t ht
  show Term.receive rows cols t b = t.putChar rows cols b.toNat
  rw [Term.receive_ground rows cols ht]
  unfold Term.receiveGround
  rw [if_neg h27, if_neg h13, if_neg h10, if_neg h8, if_neg hctl, if_pos h128]

theorem draws_ascii {s : List UInt8} (hs : ∀ b ∈ s, 32 ≤ b ∧ b ≤ 126) :
    Draws rows cols s (s.map UInt8.toNat) := by
  induction s with
  | nil => exact draws_nil
  | cons b s ih =>
    obtain ⟨hlow, hhigh⟩ := hs b List.mem_cons_self
    exact (draws_char hlow hhigh).append (ih fun c hc => hs c (List.mem_cons_of_mem _ hc))

/-- A character of three UTF-8 bytes. -/
theorem draws_three {a b c : UInt8} (ha : 224 ≤ a ∧ a < 240) (hb : 128 ≤ b ∧ b < 192)
    (hc : 128 ≤ c ∧ c < 192) :
    Draws rows cols [a, b, c]
      [((a.toNat - 224) * 64 + (b.toNat - 128)) * 64 + (c.toNat - 128)] := by
  have hlead : ∀ t : Term, t.mode = .ground →
      t.receive rows cols a = { t with mode := .utf8 2 (a.toNat - 224) } := by
    intro t ht
    have h1 : 224 ≤ a.toNat := UInt8.le_iff_toNat_le.mp ha.1
    have hne : ∀ k : UInt8, k.toNat < 224 → a ≠ k := by
      intro k hk heq
      rw [heq] at h1
      omega
    have hlt : ∀ k : UInt8, k.toNat ≤ 224 → ¬ a < k := by
      intro k hk hlt
      have hlt := UInt8.lt_iff_toNat_lt.mp hlt
      omega
    rw [Term.receive_ground rows cols ht]
    unfold Term.receiveGround
    rw [if_neg (hne 27 (by decide)), if_neg (hne 13 (by decide)), if_neg (hne 10 (by decide)),
      if_neg (hne 8 (by decide)), if_neg, if_neg (hlt 128 (by decide)), if_neg (hlt 192 (by decide)),
      if_neg (hlt 224 (by decide)), if_pos ha.2]
    rintro (h | h)
    · exact hlt 32 (by decide) h
    · exact hne 127 (by decide) h
  intro t ht
  rw [Term.feed_cons, hlead t ht]
  simp only [Term.feed, List.foldl_cons, List.foldl_nil, Term.receive, if_pos hb]
  rw [if_neg (show ¬ (2 ≤ 1) by decide)]
  simp only [if_pos hc]
  rw [if_pos (show 2 - 1 ≤ 1 by decide)]
  show Term.putChar rows cols { t with mode := .ground } _ = Term.putChar rows cols t _
  congr 1
  rw [← ht]

/-- The bytes end where no sequence is open. -/
def Whole (rows cols : Nat) (p : List UInt8) : Prop :=
  ∀ t : Term, t.mode = .ground → (t.feed rows cols p).mode = .ground

theorem Draws.whole (h : Draws rows cols p text) : Whole rows cols p := by
  intro t ht
  rw [h t ht, Term.putAll_mode, ht]

theorem Whole.append (hp : Whole rows cols p) (hq : Whole rows cols q) : Whole rows cols (p ++ q) := by
  intro t ht
  rw [Term.feed_append]
  exact hq _ (hp t ht)

/-- What a byte makes of the mode; the rest of the terminal has no part in it. -/
def nextMode : Mode → UInt8 → Mode
  | .ground, b =>
      if b = 27 then .escape
      else if b < 192 then .ground
      else if b < 224 then .utf8 1 (b.toNat - 192)
      else if b < 240 then .utf8 2 (b.toNat - 224)
      else if b < 248 then .utf8 3 (b.toNat - 240)
      else .ground
  | .escape, b => if b = 91 then .control [] else .ground
  | .control params, b => if 48 ≤ b ∧ b ≤ 63 then .control (params ++ [b]) else .ground
  | .utf8 missing value, b =>
      if 128 ≤ b ∧ b < 192 then
        if missing ≤ 1 then .ground else .utf8 (missing - 1) (value * 64 + (b.toNat - 128))
      else .ground

theorem receiveGround_mode {t : Term} (ht : t.mode = .ground) (b : UInt8) :
    (t.receiveGround rows cols b).mode = nextMode .ground b := by
  have hlow : ∀ k : UInt8, k < 192 → b = k → b < 192 := fun k hk heq => heq ▸ hk
  unfold Term.receiveGround
  dsimp only [nextMode]
  by_cases h27 : b = 27
  · rw [if_pos h27, if_pos h27]
  rw [if_neg h27, if_neg h27]
  by_cases h192 : b < 192
  · rw [if_pos h192]
    have hline := (Term.lineFeed_mode rows t).trans ht
    have hput := (Term.putChar_mode rows cols t b.toNat).trans ht
    split_ifs <;> first | exact ht | exact hline | exact hput
  · -- no ASCII character
    have hctl : ¬ (b < 32 ∨ b = 127) := by
      rintro (h | h)
      · exact h192 (UInt8.lt_trans h (by decide))
      · exact h192 (hlow 127 (by decide) h)
    rw [if_neg (fun h => h192 (hlow 13 (by decide) h)), if_neg (fun h => h192 (hlow 10 (by decide) h)),
      if_neg (fun h => h192 (hlow 8 (by decide) h)), if_neg hctl,
      if_neg (fun h => h192 (UInt8.lt_trans h (by decide))), if_neg h192, if_neg h192]
    split_ifs <;> first | rfl | exact ht

theorem receive_mode (t : Term) (b : UInt8) :
    (t.receive rows cols b).mode = nextMode t.mode b := by
  cases hm : t.mode with
  | ground =>
    rw [Term.receive_ground rows cols hm]
    exact receiveGround_mode hm b
  | escape =>
    unfold Term.receive
    rw [hm]
    rfl
  | control params =>
    unfold Term.receive Term.controlSequence
    rw [hm]
    dsimp only [nextMode]
    split_ifs <;> rfl
  | utf8 missing value =>
    unfold Term.receive
    rw [hm]
    dsimp only [nextMode]
    split_ifs <;> first | rfl | exact Term.putChar_mode rows cols _ _

/-- A closed text is whole when its bytes lead back to the start. -/
theorem whole_of_modes (h : p.foldl nextMode .ground = .ground) : Whole rows cols p := by
  have hmode : ∀ (p : List UInt8) (t : Term),
      (t.feed rows cols p).mode = p.foldl nextMode t.mode := by
    intro p
    induction p with
    | nil => intro t; rfl
    | cons b p ih =>
      intro t
      rw [Term.feed_cons, ih, receive_mode]
      rfl
  intro t ht
  rw [hmode, ht, h]

/-- Repeated `n` times, it writes its text `n` times. -/
theorem Draws.replicate (h : Draws rows cols p text) (n : Nat) :
    Draws rows cols (List.replicate n p).flatten (List.replicate n text).flatten := by
  induction n with
  | zero => exact draws_nil
  | succ n ih =>
    rw [List.replicate_succ, List.replicate_succ, List.flatten_cons, List.flatten_cons]
    exact h.append ih

end Draws

/-! ## §3. Control sequences. -/

section Control

variable {rows cols : Nat}

/-- ESC `[`, the parameters, the final byte. -/
def csi (params : List UInt8) (final : UInt8) : List UInt8 := 27 :: 91 :: params ++ [final]

theorem feed_params (params : List UInt8) :
    ∀ (t : Term) (seen rest : List UInt8), t.mode = .control seen →
      (∀ b ∈ params, 48 ≤ b ∧ b ≤ 63) →
      t.feed rows cols (params ++ rest)
        = Term.feed rows cols { t with mode := .control (seen ++ params) } rest := by
  induction params with
  | nil =>
    intro t seen rest ht _
    rw [List.append_nil, List.nil_append, ← ht]
  | cons b params ih =>
    intro t seen rest ht hp
    have hb : t.receive rows cols b = { t with mode := .control (seen ++ [b]) } := by
      unfold Term.receive
      rw [ht]
      exact if_pos (hp b List.mem_cons_self)
    rw [List.cons_append, Term.feed_cons, hb,
      ih _ (seen ++ [b]) rest rfl fun c hc => hp c (List.mem_cons_of_mem _ hc), List.append_assoc]
    rfl

/-- A control sequence, from its first byte to its last. -/
theorem feed_csi {t : Term} (ht : t.mode = .ground) {params : List UInt8}
    (hp : ∀ b ∈ params, 48 ≤ b ∧ b ≤ 63) {final : UInt8} (hfinal : 64 ≤ final ∧ final ≤ 126) :
    t.feed rows cols (csi params final) = t.controlSequence rows cols params final := by
  have hopen : t.feed rows cols [27, 91] = { t with mode := .control [] } := by
    show Term.receive rows cols (Term.receive rows cols t 27) 91 = _
    rw [Term.receive_ground rows cols ht]
    rfl
  have hgt : ¬ final ≤ 63 := by
    intro hle
    have h1 := UInt8.le_iff_toNat_le.mp hle
    have h2 := UInt8.le_iff_toNat_le.mp hfinal.1
    exact absurd (Nat.le_trans h2 h1) (by decide)
  show t.feed rows cols ([27, 91] ++ (params ++ [final])) = _
  rw [Term.feed_append, hopen, feed_params params _ [] [final] rfl hp, List.nil_append]
  rw [Term.feed_cons, Term.feed_nil]
  unfold Term.receive
  dsimp only
  rw [if_neg (fun h => hgt h.2), if_pos hfinal, ← ht]

/-- SGR writes nothing. -/
theorem draws_sgr (params : List UInt8) (hp : ∀ b ∈ params, 48 ≤ b ∧ b ≤ 63) :
    Draws rows cols (csi params 109) [] := by
  intro t ht
  rw [feed_csi ht hp ⟨by decide, by decide⟩]
  rfl

/-- Attributes in front of a text. -/
theorem Draws.styled {p : List UInt8} {text : List Nat} (h : Draws rows cols p text)
    (params : List UInt8) (hp : ∀ b ∈ params, 48 ≤ b ∧ b ≤ 63) :
    Draws rows cols (csi params 109 ++ p) text :=
  (draws_sgr params hp).append h

theorem paramValues_digits (ds : List UInt8) :
    ∀ (v : Nat) (rest : List UInt8), (∀ d ∈ ds, isDigit d = true) →
      paramValues v (ds ++ rest)
        = paramValues (ds.foldl (fun v d => 10 * v + (d.toNat - 48)) v) rest := by
  induction ds with
  | nil => intro v rest _; rfl
  | cons d ds ih =>
    intro v rest hds
    have hd : d ≠ 59 := by
      intro h
      have hdig := hds d List.mem_cons_self
      rw [h] at hdig
      exact absurd hdig (by decide)
    show (if d = 59 then _ else _) = _
    rw [if_neg hd]
    exact ih _ rest fun e he => hds e (List.mem_cons_of_mem _ he)

end Control

/-! ## §4. Texts within a line. -/

/-- `f` with the elements of `l` from `k` on. -/
def overlay {α : Type*} (f : Nat → α) (k : Nat) (l : List α) : Nat → α :=
  fun i => if k ≤ i then l[i - k]?.getD (f i) else f i

section Overlay

variable {α : Type*} (f : Nat → α) (k : Nat)

@[simp] theorem overlay_nil : overlay f k [] = f := by
  funext i
  unfold overlay
  split <;> rfl

theorem overlay_update (a : α) (l : List α) :
    overlay (Function.update f k a) (k + 1) l = overlay f k (a :: l) := by
  funext i
  unfold overlay
  by_cases hi : i = k
  · subst hi
    rw [if_neg (by omega), if_pos (le_refl _), Function.update_self, Nat.sub_self]
    rfl
  · rw [Function.update_of_ne hi]
    by_cases hle : k ≤ i
    · have hidx : i - k = (i - (k + 1)) + 1 := by omega
      rw [if_pos (by omega), if_pos hle, hidx, List.getElem?_cons_succ]
    · rw [if_neg (by omega), if_neg hle]

end Overlay

/-- **A text that fits its line** is written cell by cell; nothing wraps and nothing
scrolls. -/
theorem putAll_cell {rows cols : Nat} (text : List Nat) :
    ∀ t : Term, t.full = false → t.col + text.length ≤ cols →
      (t.putAll rows cols text).cell
          = Function.update t.cell t.row (overlay (t.cell t.row) t.col text)
        ∧ (t.putAll rows cols text).row = t.row
        ∧ (t.putAll rows cols text).scrolled = t.scrolled := by
  induction text with
  | nil =>
    intro t _ _
    rw [overlay_nil, Function.update_eq_self]
    exact ⟨rfl, rfl, rfl⟩
  | cons ch text ih =>
    intro t hfull hfits
    rw [List.length_cons] at hfits
    have hput : t.putChar rows cols ch = t.mark cols ch := by
      unfold Term.putChar Term.wrap
      rw [hfull]
      rfl
    have hcons : t.putAll rows cols (ch :: text) = (t.mark cols ch).putAll rows cols text := by
      rw [← hput]
      rfl
    have hmarked : Function.update (t.marked ch) t.row (overlay (t.marked ch t.row) (t.col + 1) text)
        = Function.update t.cell t.row (overlay (t.cell t.row) t.col (ch :: text)) := by
      unfold Term.marked
      rw [Function.update_idem, Function.update_self, overlay_update]
    rw [hcons]
    unfold Term.mark
    by_cases hroom : t.col + 1 < cols
    · rw [if_pos hroom]
      obtain ⟨hcell, hrow, hscr⟩ := ih { t with cell := t.marked ch, col := t.col + 1 } hfull
        (by show t.col + 1 + text.length ≤ cols; omega)
      exact ⟨hcell.trans hmarked, hrow, hscr⟩
    · -- the last column: there is no more text
      have hnil : text = [] := List.eq_nil_of_length_eq_zero (by omega)
      subst hnil
      rw [if_neg hroom, ← hmarked, overlay_nil, Function.update_eq_self]
      exact ⟨rfl, rfl, rfl⟩

/-! ## §5. The screen as lines. -/

/-- The cells of a screen with these lines. -/
def grid (lines : Nat → List Nat) : Nat → Nat → Nat := fun r => overlay (fun _ => blank) 0 (lines r)

theorem grid_update (lines : Nat → List Nat) (row : Nat) (text : List Nat) :
    Function.update (grid lines) row (overlay (fun _ => blank) 0 text)
      = grid (Function.update lines row text) := by
  funext r
  unfold grid
  by_cases hr : r = row
  · subst hr
    rw [Function.update_self, Function.update_self]
  · rw [Function.update_of_ne hr, Function.update_of_ne hr]

theorem grid_empty {lines : Nat → List Nat} {row : Nat} (h : lines row = []) :
    grid lines row = fun _ => blank := by
  unfold grid
  rw [h, overlay_nil]

/-- The screen has these lines, the cursor is at the start of line `row`, and nothing
has scrolled since `scrolled` lines had. -/
structure Shows (t : Term) (lines : Nat → List Nat) (row scrolled : Nat) : Prop where
  cell : t.cell = grid lines
  row : t.row = row
  col : t.col = 0
  full : t.full = false
  mode : t.mode = .ground
  scrolled : t.scrolled = scrolled

/-- The same, wherever the cursor is in its line. -/
structure Written (t : Term) (lines : Nat → List Nat) (row scrolled : Nat) : Prop where
  cell : t.cell = grid lines
  row : t.row = row
  mode : t.mode = .ground
  scrolled : t.scrolled = scrolled

section Lines

variable {rows cols : Nat} {t : Term} {lines : Nat → List Nat} {row scrolled : Nat}

theorem Shows.written (h : Shows t lines row scrolled) : Written t lines row scrolled :=
  ⟨h.cell, h.row, h.mode, h.scrolled⟩

/-- Write an empty line. -/
theorem Shows.write (h : Shows t lines row scrolled) (hempty : lines row = []) {bytes : List UInt8}
    {text : List Nat} (hdraws : Draws rows cols bytes text) (hfits : text.length ≤ cols) :
    Written (t.feed rows cols bytes) (Function.update lines row text) row scrolled := by
  obtain ⟨hcell, hrow, hscr⟩ :=
    @putAll_cell rows cols text t h.full (by rw [h.col, Nat.zero_add]; exact hfits)
  rw [hdraws t h.mode]
  refine ⟨?_, hrow.trans h.row, (Term.putAll_mode rows cols text t).trans h.mode,
    hscr.trans h.scrolled⟩
  rw [hcell, h.cell, h.row, h.col, grid_empty hempty, grid_update]

/-- Open the next line. -/
theorem Written.newline (h : Written t lines row scrolled) (hrow : row + 1 < rows) :
    Shows (t.feed rows cols [13, 10]) lines (row + 1) scrolled := by
  have hfeed : t.feed rows cols [13, 10] = { t with row := t.row + 1, col := 0, full := false } := by
    show Term.receive rows cols (Term.receive rows cols t 13) 10 = _
    have hcr : Term.receive rows cols t 13 = { t with col := 0, full := false } :=
      Term.receive_ground rows cols h.mode 13
    have hlf : Term.receive rows cols { t with col := 0, full := false } 10
        = Term.lineFeed rows { t with col := 0, full := false } :=
      @Term.receive_ground rows cols { t with col := 0, full := false } h.mode 10
    rw [hcr, hlf]
    unfold Term.lineFeed
    rw [if_pos (by show t.row + 1 < rows; rw [h.row]; exact hrow)]
  rw [hfeed]
  exact ⟨h.cell, by rw [← h.row], rfl, rfl, h.mode, h.scrolled⟩

/-- Write several lines, each with its line end. -/
theorem Shows.writeAll (L : List (List UInt8 × List Nat)) :
    ∀ {t : Term} {lines : Nat → List Nat} {row : Nat}, Shows t lines row scrolled →
      (∀ r, row ≤ r → lines r = []) → (∀ l ∈ L, Draws rows cols l.1 l.2 ∧ l.2.length ≤ cols) →
      row + L.length < rows →
      Shows (t.feed rows cols (L.flatMap fun l => l.1 ++ [13, 10])) (overlay lines row (L.map Prod.snd))
        (row + L.length) scrolled := by
  induction L with
  | nil =>
    intro t lines row h _ _ _
    rw [List.map_nil, overlay_nil]
    exact h
  | cons l L ih =>
    intro t lines row h hempty hL hrows
    rw [List.length_cons] at hrows ⊢
    obtain ⟨hdraws, hfits⟩ := hL l List.mem_cons_self
    have hnext : Shows (t.feed rows cols (l.1 ++ [13, 10])) (Function.update lines row l.2) (row + 1)
        scrolled := by
      rw [Term.feed_append]
      exact (h.write (hempty row (le_refl _)) hdraws hfits).newline (by omega)
    have hrest := ih hnext
      (fun r hr => by
        rw [Function.update_of_ne (by omega)]
        exact hempty r (by omega))
      (fun l' hl' => hL l' (List.mem_cons_of_mem _ hl')) (by omega)
    rw [overlay_update] at hrest
    rw [List.flatMap_cons, Term.feed_append, List.map_cons]
    have hrow : row + (L.length + 1) = row + 1 + L.length := by omega
    rw [hrow]
    exact hrest

/-- Address a line by its number, counted from one. -/
theorem Written.goto (h : Written t lines row scrolled) {ds : List UInt8}
    (hds : ∀ d ∈ ds, isDigit d = true) {k : Nat} (hk : decimalValue ds = k + 1) (hkr : k < rows) :
    Shows (t.feed rows cols (csi (ds ++ [59, 49]) 72)) lines k scrolled := by
  have hparams : ∀ b ∈ ds ++ [59, 49], (48 : UInt8) ≤ b ∧ b ≤ 63 := by
    intro b hb
    rcases List.mem_append.mp hb with hb | hb
    · have hd := hds b hb
      simp only [isDigit, Bool.and_eq_true, decide_eq_true_eq] at hd
      refine ⟨hd.1, UInt8.le_trans hd.2 (by decide)⟩
    · have hall : ∀ b ∈ ([59, 49] : List UInt8), (48 : UInt8) ≤ b ∧ b ≤ 63 := by decide +kernel
      exact hall b hb
  have hvals : paramValues 0 (ds ++ [59, 49]) = [k + 1, 1] := by
    rw [paramValues_digits ds 0 _ hds]
    rw [foldl_digits, Nat.zero_mul, Nat.zero_add, hk]
    rfl
  rw [feed_csi h.mode hparams ⟨by decide, by decide⟩]
  unfold Term.controlSequence
  rw [if_pos rfl, hvals]
  refine ⟨h.cell, ?_, ?_, rfl, h.mode, h.scrolled⟩
  · show min (k + 1 - 1) (rows - 1) = k
    omega
  · show min (1 - 1) (cols - 1) = 0
    omega

/-- Erase the line of the cursor. -/
theorem Shows.eraseLine (h : Shows t lines row scrolled) :
    Shows (t.feed rows cols (csi [50] 75)) (Function.update lines row []) row scrolled := by
  rw [feed_csi h.mode (by decide +kernel) ⟨by decide, by decide⟩]
  have herase : t.controlSequence rows cols [50] 75
      = { t with cell := Function.update t.cell t.row fun _ => blank } := rfl
  rw [herase]
  refine ⟨?_, h.row, h.col, h.full, h.mode, h.scrolled⟩
  show Function.update t.cell t.row (fun _ => blank) = _
  rw [h.cell, h.row, ← grid_update, overlay_nil]

/-- Erase everything and go to the first line, whatever the screen was. -/
theorem shows_clear (hmode : t.mode = .ground) :
    Shows (t.feed rows cols (csi [50] 74 ++ csi [] 72)) (fun _ => []) 0 t.scrolled := by
  rw [Term.feed_append, feed_csi hmode (by decide +kernel) ⟨by decide, by decide⟩]
  have herase : t.controlSequence rows cols [50] 74 = { t with cell := fun _ _ => blank } := rfl
  rw [herase, feed_csi (by exact hmode) (by decide +kernel) ⟨by decide, by decide⟩]
  refine ⟨rfl, ?_, ?_, rfl, hmode, rfl⟩
  · show min (0 - 1) (rows - 1) = 0
    omega
  · show min (0 - 1) (cols - 1) = 0
    omega

end Lines

end NetServer.Lib.Vt
