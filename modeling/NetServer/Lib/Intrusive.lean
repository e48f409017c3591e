/-
  NetServer.Lib.Intrusive — singly linked lists through a field of their nodes.

  A head pointer and a `next` field per node.  A location is a place that
  holds a pointer, the head or some node's field; walking with a pointer to a
  location lets a node be removed without knowing its predecessor.

  `IsList s l` says that the pointers spell out `l`; `Loc.after front` is the
  location behind the nodes of `front`.

    • `push_isList`   — a new node in front;
    • `get_after`     — the pointer behind `front` leads to what follows;
    • `unlink_isList` — overwriting it with a node's own field removes the node;
    • `IsList.congr`  — fields of other nodes do not matter.
-/
import Mathlib.Data.List.Basic
import Mathlib.Logic.Function.Basic

namespace NetServer.Lib

variable {α : Type*}

/-- The pointers. -/
structure PtrList (α : Type*) where
  head : Option α
  next : α → Option α

/-- A place that holds a pointer. -/
inductive Loc (α : Type*) where
  | head
  | next (a : α)
  deriving Repr, DecidableEq

/-- The location behind the nodes of a list. -/
def Loc.after (front : List α) : Loc α :=
  match front.getLast? with
  | none => .head
  | some a => .next a

namespace PtrList

def get (s : PtrList α) : Loc α → Option α
  | .head => s.head
  | .next a => s.next a

/-- From pointer `p` on the nodes are `l`. -/
def Chain (next : α → Option α) : Option α → List α → Prop
  | p, [] => p = none
  | p, a :: l => p = some a ∧ Chain next (next a) l

def IsList (s : PtrList α) (l : List α) : Prop := Chain s.next s.head l

theorem Chain.head {next : α → Option α} {p : Option α} {l : List α} (h : Chain next p l) :
    p = l.head? := by
  cases l with
  | nil => exact h
  | cons a l => exact h.1

/-- Only the fields of the list's own nodes matter. -/
theorem Chain.congr {next next' : α → Option α} {p : Option α} {l : List α} (h : Chain next p l)
    (hsame : ∀ a ∈ l, next' a = next a) : Chain next' p l := by
  induction l generalizing p with
  | nil => exact h
  | cons a l ih =>
    obtain ⟨hp, hrest⟩ := h
    refine ⟨hp, ?_⟩
    rw [hsame a List.mem_cons_self]
    exact ih hrest fun b hb => hsame b (List.mem_cons_of_mem _ hb)

theorem IsList.congr {s s' : PtrList α} {l : List α} (h : s.IsList l) (hhead : s'.head = s.head)
    (hsame : ∀ a ∈ l, s'.next a = s.next a) : s'.IsList l := by
  unfold IsList
  rw [hhead]
  exact Chain.congr h hsame

/-- The pointer behind `front` leads to what follows. -/
theorem get_after {s : PtrList α} {front rest : List α} (h : s.IsList (front ++ rest)) :
    s.get (Loc.after front) = rest.head? := by
  have hchain : ∀ (front : List α) (p : Option α) (a : α), Chain s.next p (a :: front ++ rest) →
      s.next ((a :: front).getLast (List.cons_ne_nil a front)) = rest.head? := by
    intro front
    induction front with
    | nil =>
      intro p a h
      exact Chain.head h.2
    | cons b front ih =>
      intro p a h
      rw [List.getLast_cons (List.cons_ne_nil b front)]
      exact ih (s.next a) b h.2
  unfold Loc.after
  cases front with
  | nil => exact Chain.head h
  | cons a front =>
    rw [List.getLast?_eq_some_getLast (List.cons_ne_nil a front)]
    exact hchain front s.head a h

section Update

variable [DecidableEq α]

/-- Overwrite a pointer. -/
def set (s : PtrList α) (loc : Loc α) (p : Option α) : PtrList α :=
  match loc with
  | .head => { s with head := p }
  | .next a => { s with next := Function.update s.next a p }

/-- A new node in front. -/
def push (s : PtrList α) (a : α) : PtrList α :=
  { head := some a, next := Function.update s.next a s.head }

theorem push_isList {s : PtrList α} {l : List α} {a : α} (h : s.IsList l) (ha : a ∉ l) :
    (s.push a).IsList (a :: l) := by
  refine ⟨rfl, ?_⟩
  show Chain (Function.update s.next a s.head) (Function.update s.next a s.head a) l
  rw [Function.update_self]
  refine Chain.congr h ?_
  intro b hb
  refine Function.update_of_ne ?_ ..
  rintro rfl
  exact ha hb

/-- What a location other than the head belongs to. -/
theorem set_next_of_ne {s : PtrList α} {front : List α} {p : Option α} {b : α} (hb : b ∉ front) :
    (s.set (Loc.after front) p).next b = s.next b := by
  unfold Loc.after
  split
  · rfl
  · rename_i a ha
    refine Function.update_of_ne ?_ ..
    rintro rfl
    exact hb (List.mem_of_getLast? ha)

/-- **Removal.**  Overwriting the pointer that leads to a node with the node's own
field removes it. -/
theorem unlink_isList {s : PtrList α} {front rest : List α} {a : α}
    (h : s.IsList (front ++ a :: rest)) (hnodup : (front ++ a :: rest).Nodup) :
    (s.set (Loc.after front) (s.next a)).IsList (front ++ rest) := by
  -- behind a node `c` the chain is rewritten at the last node of the front
  have hchain : ∀ (front : List α) (p : Option α) (c : α),
      (c :: front ++ a :: rest).Nodup → Chain s.next p (c :: front ++ a :: rest) →
      Chain (Function.update s.next ((c :: front).getLast (List.cons_ne_nil c front)) (s.next a)) p
        (c :: front ++ rest) := by
    intro front
    induction front with
    | nil =>
      intro p c hnd h
      obtain ⟨hp, -, hrest⟩ := h
      refine ⟨hp, ?_⟩
      show Chain (Function.update s.next c (s.next a)) (Function.update s.next c (s.next a) c) rest
      rw [Function.update_self]
      refine Chain.congr hrest ?_
      intro b hb
      refine Function.update_of_ne ?_ ..
      rintro rfl
      exact (List.nodup_cons.mp hnd).1 (List.mem_cons_of_mem _ hb)
    | cons b front ih =>
      intro p c hnd h
      obtain ⟨hp, hrest⟩ := h
      have hlast : (c :: b :: front).getLast (List.cons_ne_nil c _)
          = (b :: front).getLast (List.cons_ne_nil b front) :=
        List.getLast_cons (List.cons_ne_nil b front)
      have hc : c ≠ (b :: front).getLast (List.cons_ne_nil b front) := by
        intro hc
        refine (List.nodup_cons.mp hnd).1 (List.mem_append_left _ ?_)
        rw [hc]
        exact List.getLast_mem _
      rw [hlast]
      refine ⟨hp, ?_⟩
      rw [Function.update_of_ne hc]
      exact ih (s.next c) b (List.nodup_cons.mp hnd).2 hrest
  unfold Loc.after
  cases front with
  | nil => exact h.2
  | cons c front =>
    rw [List.getLast?_eq_some_getLast (List.cons_ne_nil c front)]
    exact hchain front s.head c hnodup h

end Update

end PtrList

end NetServer.Lib
