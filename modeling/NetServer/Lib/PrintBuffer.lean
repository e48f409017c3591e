/-
  NetServer.Lib.PrintBuffer — printing piece after piece into one block of memory.

  `o += snprintf (mem + o, cap - o, …)` trusts its offset: the size handed to
  `snprintf` is a difference of two `size_t`, and a piece that does not fit still
  adds its whole length.  The model writes what the call writes and fails when
  that leaves the block.

    • `print_fits`    — a piece that fits is written in full, with a NUL behind it;
    • `printAll_fits` — pieces that fit together are written one behind the other.
-/
import NetServer.Lib.CString

namespace NetServer.Lib

/-- A block of memory and the offset of the next piece.  `calls` records the
pieces printed so far, each with its offset. -/
structure PrintBuffer where
  mem : List UInt8
  o : Nat
  calls : List (Nat × List UInt8)

namespace PrintBuffer

/-- `a - b` of type `size_t`. -/
def sizeDiff (a b : Nat) : Nat := (((a : Int) - b) % UInt64.size).toNat

/-- `o += snprintf (mem + o, cap - o, …)` for a call that prints `text`; `none`
when it would write outside the block. -/
def print (b : PrintBuffer) (text : List UInt8) : Option PrintBuffer :=
  let size := sizeDiff b.mem.length b.o
  let written := if size = 0 then [] else text.take (size - 1) ++ [0]
  if b.o + written.length ≤ b.mem.length then
    some
      { mem := b.mem.take b.o ++ written ++ b.mem.drop (b.o + written.length)
        o := (b.o + text.length) % UInt64.size
        calls := b.calls ++ [(b.o, text)] }
  else none

/-- One call per piece. -/
def printAll : List (List UInt8) → PrintBuffer → Option PrintBuffer
  | [], b => some b
  | text :: ts, b => (b.print text).bind (printAll ts)

theorem printAll_singleton (text : List UInt8) : printAll [text] = fun b => b.print text := by
  funext b
  show (b.print text).bind some = b.print text
  simp

theorem printAll_append (ts ts' : List (List UInt8)) :
    ∀ b, printAll (ts ++ ts') b = (printAll ts b).bind (printAll ts') := by
  induction ts with
  | nil => intro b; rfl
  | cons text ts ih =>
    intro b
    rw [List.cons_append, printAll, printAll, Option.bind_assoc]
    congr 1
    exact funext ih

/-- The call of a piece has its offset inside the block, and room for the piece
and its NUL. -/
def Fits (cap : Nat) (call : Nat × List UInt8) : Prop := call.1 + call.2.length < cap

/-- What a number of calls that print `text` together leave behind. -/
structure Prints (b b' : PrintBuffer) (text : List UInt8) : Prop where
  size : b'.mem.length = b.mem.length
  offset : b'.o = b.o + text.length
  mem : ∃ tail, b'.mem = b.mem.take b.o ++ text ++ 0 :: tail
  calls : ∀ call ∈ b'.calls, call ∈ b.calls ∨ Fits b.mem.length call

/-- **A piece that fits is printed in full.** -/
theorem print_fits {b : PrintBuffer} {text : List UInt8} (h : Fits b.mem.length (b.o, text))
    (hsize : b.mem.length < UInt64.size) : ∃ b', b.print text = some b' ∧ Prints b b' text := by
  have hfits : b.o + text.length < b.mem.length := h
  have hdiff : sizeDiff b.mem.length b.o = b.mem.length - b.o := by
    unfold sizeDiff
    rw [Int.emod_eq_of_lt (by omega) (by omega)]
    omega
  have hwritten : (if sizeDiff b.mem.length b.o = 0 then []
      else text.take (sizeDiff b.mem.length b.o - 1) ++ [0]) = text ++ [0] := by
    rw [hdiff, if_neg (by omega), List.take_of_length_le (by omega)]
  have hlen : (text ++ [0]).length = text.length + 1 := by simp
  refine ⟨⟨b.mem.take b.o ++ (text ++ [0]) ++ b.mem.drop (b.o + (text ++ [0]).length),
    b.o + text.length, b.calls ++ [(b.o, text)]⟩, ?_, ?_⟩
  · unfold print
    dsimp only
    rw [hwritten, if_pos (by omega), Nat.mod_eq_of_lt (by omega)]
  · refine ⟨?_, rfl, ⟨b.mem.drop (b.o + (text ++ [0]).length), by simp⟩, ?_⟩
    · dsimp only
      rw [List.length_append, List.length_append, List.length_take, List.length_drop, hlen]
      omega
    · intro call hcall
      rcases List.mem_append.mp hcall with hold | hnew
      · exact Or.inl hold
      · rw [List.mem_singleton.mp hnew]
        exact Or.inr h

theorem Prints.trans {b b' b'' : PrintBuffer} {text text' : List UInt8} (hb : b.o ≤ b.mem.length)
    (h : Prints b b' text) (h' : Prints b' b'' text') : Prints b b'' (text ++ text') := by
  obtain ⟨tail, hmem⟩ := h.mem
  obtain ⟨tail', hmem'⟩ := h'.mem
  have htake : b'.mem.take b'.o = b.mem.take b.o ++ text := by
    have hlen : (b.mem.take b.o ++ text).length = b'.o := by
      rw [List.length_append, List.length_take, h.offset]
      omega
    rw [hmem, ← hlen, List.take_left]
  refine ⟨h'.size.trans h.size, ?_, ⟨tail', ?_⟩, ?_⟩
  · rw [h'.offset, h.offset, List.length_append, Nat.add_assoc]
  · rw [hmem', htake, List.append_assoc (List.take b.o b.mem)]
  · intro call hcall
    rcases h'.calls call hcall with hold | hfits
    · exact h.calls call hold
    · rw [h.size] at hfits
      exact Or.inr hfits

/-- **Pieces that fit together are printed one behind the other.** -/
theorem printAll_fits :
    ∀ (ts : List (List UInt8)) (b : PrintBuffer), ts ≠ [] →
      b.o + ts.flatten.length < b.mem.length → b.mem.length < UInt64.size →
        ∃ b', printAll ts b = some b' ∧ Prints b b' ts.flatten
  | [], _, hne, _, _ => absurd rfl hne
  | text :: ts, b, _, hfits, hsize => by
      rw [List.flatten_cons, List.length_append] at hfits
      have hcall : Fits b.mem.length (b.o, text) := by
        unfold Fits
        dsimp only
        omega
      obtain ⟨b', hprint, hfirst⟩ := print_fits hcall hsize
      have hstep : printAll (text :: ts) b = printAll ts b' := by
        rw [printAll, hprint, Option.bind_some]
      rw [hstep, List.flatten_cons]
      by_cases hts : ts = []
      · subst hts
        refine ⟨b', rfl, ?_⟩
        rw [List.flatten_nil, List.append_nil]
        exact hfirst
      · have hroom : b'.o + ts.flatten.length < b'.mem.length := by
          rw [hfirst.offset, hfirst.size]
          omega
        obtain ⟨b'', hrest, hlast⟩ := printAll_fits ts b' hts hroom (by rw [hfirst.size]; exact hsize)
        exact ⟨b'', hrest, hfirst.trans (by omega) hlast⟩

/-- What was printed from the start of the block, as a C string. -/
theorem Prints.cString_eq {b b' : PrintBuffer} {text : List UInt8} (h : Prints b b' text)
    (hstart : b.o = 0) (hnul : 0 ∉ text) : cString b'.mem = text := by
  obtain ⟨tail, hmem⟩ := h.mem
  rw [hmem, hstart, List.take_zero, List.nil_append]
  exact cString_append_nul hnul tail

end PrintBuffer

end NetServer.Lib
