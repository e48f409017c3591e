/-
  NetServer.Lib.OrderedLog — a log whose entries carry strictly increasing keys.

  New entries are appended with a key above all earlier ones, so the order of
  arrival is the order of the keys.  A query that sorts by key gives the log
  itself, the greatest key is the last one, and a reader that remembers the
  key it read last has read a prefix.

    • `sortAsc_eq`, `newest_eq` — ordered queries are slices of the log;
    • `take_eq_newest_iff`      — when the oldest page is the newest one;
    • `max?_key_eq`             — the greatest key is the last entry's;
    • `filter_gt_eq`            — what is above a cursor is the unread suffix;
    • `Pages.older`, `Pages.grow` — pages read backwards stay one run of the log.
-/
import Mathlib.Data.List.Sort
import Mathlib.Data.List.Pairwise
import Mathlib.Order.Defs.LinearOrder

namespace NetServer.Lib.OrderedLog

variable {α β : Type*} [LinearOrder β] (key : α → β)

/-- The keys increase strictly along the list. -/
def Ascending (l : List α) : Prop := l.Pairwise (fun a b => key a < key b)

/-- ORDER BY key ASC. -/
def sortAsc (l : List α) : List α := l.insertionSort (fun a b => key a ≤ key b)

/-- ORDER BY key DESC. -/
def sortDesc (l : List α) : List α := l.insertionSort (fun a b => key b ≤ key a)

variable {key} {l : List α}

/-! ## §1. Appending and selecting. -/

theorem ascending_concat {a : α} (h : Ascending key l) (ha : ∀ x ∈ l, key x < key a) :
    Ascending key (l ++ [a]) := by
  unfold Ascending
  rw [List.pairwise_append]
  refine ⟨h, List.pairwise_singleton _ _, ?_⟩
  intro x hx y hy
  rw [List.mem_singleton] at hy
  rw [hy]
  exact ha x hx

theorem ascending_sublist {l' : List α} (h : Ascending key l) (hs : l'.Sublist l) :
    Ascending key l' :=
  List.Pairwise.sublist hs h

theorem eq_of_key_eq (h : Ascending key l) {a b : α} (ha : a ∈ l) (hb : b ∈ l)
    (hab : key a = key b) : a = b := by
  by_contra hne
  have hneq : l.Pairwise (fun x y => key x ≠ key y) := h.imp fun hlt => ne_of_lt hlt
  have : Std.Symm (fun x y : α => key x ≠ key y) := ⟨fun x y hxy => hxy.symm⟩
  exact hneq.forall ha hb hne hab

/-- A key belongs to one entry. -/
theorem filter_key_eq [DecidableEq β] (h : Ascending key l) {a : α} (ha : a ∈ l) :
    l.filter (fun x => key x = key a) = [a] := by
  have hmem : a ∈ l.filter (fun x => key x = key a) :=
    List.mem_filter.mpr ⟨ha, decide_eq_true rfl⟩
  have hkey : ∀ x ∈ l.filter (fun x => key x = key a), key x = key a := by
    intro x hx
    exact of_decide_eq_true (List.mem_filter.mp hx).2
  have hasc : Ascending key (l.filter fun x => key x = key a) :=
    ascending_sublist h List.filter_sublist
  cases hl : l.filter (fun x => key x = key a) with
  | nil =>
    rw [hl] at hmem
    exact absurd hmem List.not_mem_nil
  | cons x rest =>
    rw [hl] at hmem hkey hasc
    cases rest with
    | nil => rw [List.mem_singleton.mp hmem]
    | cons y rest =>
      -- two entries would have increasing keys
      have hlt : key x < key y := List.rel_of_pairwise_cons hasc List.mem_cons_self
      rw [hkey x List.mem_cons_self, hkey y (List.mem_cons_of_mem _ List.mem_cons_self)] at hlt
      exact absurd hlt (lt_irrefl _)

/-! ## §2. Ordered queries. -/

/-- Sorting any rearrangement of an ascending list gives the list. -/
theorem sortAsc_of_perm {l' : List α} (h : Ascending key l) (hperm : l'.Perm l) :
    sortAsc key l' = l := by
  have : Std.Total (fun a b : α => key a ≤ key b) := ⟨fun a b => le_total (key a) (key b)⟩
  have : IsTrans α (fun a b => key a ≤ key b) := ⟨fun a b c hab hbc => le_trans hab hbc⟩
  have hp : (sortAsc key l').Perm l := (List.perm_insertionSort _ l').trans hperm
  refine List.Perm.eq_of_pairwise ?_ (List.pairwise_insertionSort _ l')
    (h.imp fun hlt => le_of_lt hlt) hp
  intro a b ha hb hab hba
  exact eq_of_key_eq h (hp.mem_iff.mp ha) hb (le_antisymm hab hba)

theorem sortDesc_eq (h : Ascending key l) : sortDesc key l = l.reverse := by
  have : Std.Total (fun a b : α => key b ≤ key a) := ⟨fun a b => le_total (key b) (key a)⟩
  have : IsTrans α (fun a b => key b ≤ key a) := ⟨fun a b c hab hbc => le_trans hbc hab⟩
  have hp : (sortDesc key l).Perm l.reverse :=
    (List.perm_insertionSort _ l).trans (List.reverse_perm l).symm
  refine List.Perm.eq_of_pairwise ?_ (List.pairwise_insertionSort _ l)
    (List.pairwise_reverse.mpr (h.imp fun hlt => le_of_lt hlt)) hp
  intro a b ha hb hba hab
  exact eq_of_key_eq h (List.mem_reverse.mp (hp.mem_iff.mp ha)) (List.mem_reverse.mp hb)
    (le_antisymm hab hba)

theorem sortAsc_eq (h : Ascending key l) : sortAsc key l = l :=
  sortAsc_of_perm h (List.Perm.refl l)

/-- The newest `k` entries, in ascending order, are the last `k`. -/
theorem newest_eq (h : Ascending key l) (k : Nat) :
    sortAsc key ((sortDesc key l).take k) = l.drop (l.length - k) := by
  have htake : (sortDesc key l).take k = (l.drop (l.length - k)).reverse := by
    rw [sortDesc_eq h, List.take_reverse]
  rw [htake]
  exact sortAsc_of_perm (ascending_sublist h (List.drop_sublist _ _)) (List.reverse_perm _)

/-- The oldest entries are the newest ones only when they are all. -/
theorem take_eq_newest_iff (h : Ascending key l) {j k : Nat} (hj : 0 < j) (hk : 0 < k) :
    l.take j = l.drop (l.length - k) ↔ l.length ≤ j ∧ l.length ≤ k := by
  constructor
  · intro heq
    by_contra hcut
    have hlen := congrArg List.length heq
    rw [List.length_take, List.length_drop] at hlen
    have hfew : 0 < l.length - k ∧ l.length - k < l.length := by omega
    -- the first entry of both, at two places
    have hfirst : l[0]? = l[l.length - k]? := by
      have hhead := congrArg (·[0]?) heq
      simp only [List.getElem?_take, List.getElem?_drop, hj, if_true, Nat.add_zero] at hhead
      exact hhead
    rw [List.getElem?_eq_getElem (by omega), List.getElem?_eq_getElem hfew.2,
      Option.some.injEq] at hfirst
    have hlt := List.pairwise_iff_getElem.mp h 0 (l.length - k) (by omega) hfew.2 hfew.1
    rw [hfirst] at hlt
    exact lt_irrefl _ hlt
  · rintro ⟨hj', hk'⟩
    rw [List.take_of_length_le hj', Nat.sub_eq_zero_of_le hk', List.drop_zero]

/-! ## §3. The last entry and the cursor. -/

theorem key_le_getLast (h : Ascending key l) {z : α} (hz : l.getLast? = some z) :
    ∀ x ∈ l, key x ≤ key z := by
  obtain ⟨front, rfl⟩ := List.getLast?_eq_some_iff.mp hz
  intro x hx
  rcases List.mem_append.mp hx with hf | hs
  · exact le_of_lt ((List.pairwise_append.mp h).2.2 x hf z List.mem_cons_self)
  · rw [List.mem_singleton.mp hs]

theorem max?_key_eq [Std.LawfulOrderMax β] (h : Ascending key l) :
    (l.map key).max? = l.getLast?.map key := by
  cases hz : l.getLast? with
  | none =>
    rw [List.getLast?_eq_none_iff] at hz
    subst hz
    rfl
  | some z =>
    rw [Option.map_some, List.max?_eq_some_iff]
    refine ⟨List.mem_map_of_mem (List.mem_of_getLast? hz), ?_⟩
    intro b hb
    obtain ⟨x, hx, rfl⟩ := List.mem_map.mp hb
    exact key_le_getLast h hz x hx

/-- A prefix was read up to the cursor: what is above it is the rest. -/
theorem filter_gt_eq {pre suf : List α} {c : β} (hpre : ∀ x ∈ pre, key x ≤ c)
    (hsuf : ∀ x ∈ suf, c < key x) : (pre ++ suf).filter (fun x => c < key x) = suf := by
  rw [List.filter_append]
  have hnone : pre.filter (fun x => decide (c < key x)) = [] := by
    rw [List.filter_eq_nil_iff]
    intro x hx
    have := hpre x hx
    simpa using this
  have hall : suf.filter (fun x => decide (c < key x)) = suf := by
    rw [List.filter_eq_self]
    intro x hx
    simpa using hsuf x hx
  rw [hnone, hall, List.nil_append]

/-! ## §4. Reading a growing log with a cursor. -/

/-- The keys above the cursor. -/
def above (c : β) (ks : List β) : List β := ks.filter (fun k => c < k)

theorem above_extend (c : β) {ks ks' : List β} (h : ks <+: ks') : above c ks <+: above c ks' :=
  h.filter _

theorem above_pairwise (c : β) {ks : List β} (h : ks.Pairwise (· < ·)) :
    (above c ks).Pairwise (· < ·) :=
  List.Pairwise.sublist List.filter_sublist h

theorem above_concat {c k : β} (ks : List β) (h : c < k) :
    above c (ks ++ [k]) = above c ks ++ [k] := by
  unfold above
  rw [List.filter_append]
  congr 1
  rw [List.filter_eq_self]
  intro x hx
  rw [List.mem_singleton.mp hx]
  exact decide_eq_true h

/-- A prefix of increasing keys has all that are below one of its own. -/
theorem mem_of_lt_prefix {ks read : List β} (hks : ks.Pairwise (· < ·)) (hread : read <+: ks)
    {b c : β} (hc : c ∈ read) (hb : b ∈ ks) (hbc : b < c) : b ∈ read := by
  obtain ⟨rest, rfl⟩ := hread
  rcases List.mem_append.mp hb with hb | hb
  · exact hb
  · have hcb : c < b := (List.pairwise_append.mp hks).2.2 c hc b hb
    exact absurd hcb (not_lt.mpr hbc.le)

/-- The last key above the cursor, or the cursor when it is beyond all. -/
theorem getLast?_above {c z : β} {ks : List β} (h : ks.Pairwise (· < ·))
    (hz : ks.getLast? = some z) : (above c ks).getLast?.getD c = max c z := by
  obtain ⟨front, rfl⟩ := List.getLast?_eq_some_iff.mp hz
  unfold above
  by_cases hc : c < z
  · rw [List.filter_append, List.filter_singleton, decide_eq_true hc, cond_true,
      List.getLast?_concat, Option.getD_some, max_eq_right (le_of_lt hc)]
  · have hnone : (front ++ [z]).filter (fun k => c < k) = [] := by
      rw [List.filter_eq_nil_iff]
      intro x hx
      have hxz := @key_le_getLast β β _ id _ h z hz x hx
      rw [decide_eq_true_eq]
      exact not_lt.mpr (le_trans hxz (not_lt.mp hc))
    rw [hnone, List.getLast?_nil, Option.getD_none, max_eq_left (not_lt.mp hc)]

/-- What was read is a prefix of the keys above `start`, and the cursor stands
on its last key: the keys above the cursor are the rest. -/
theorem above_resume {start c : β} {ks read : List β} (hks : ks.Pairwise (· < ·))
    (hread : read <+: above start ks) (hc : c = read.getLast?.getD start) :
    above start ks = read ++ above c ks := by
  obtain ⟨suf, hsuf⟩ := hread
  have hsorted : (read ++ suf).Pairwise (· < ·) := by
    rw [hsuf]
    exact above_pairwise start hks
  have hle : start ≤ c := by
    rw [hc]
    cases hz : read.getLast? with
    | none => exact le_refl _
    | some z =>
      have hmem : z ∈ above start ks := by
        rw [← hsuf]
        exact List.mem_append_left _ (List.mem_of_getLast? hz)
      exact le_of_lt (of_decide_eq_true (List.mem_filter.mp hmem).2)
  -- The cursor separates what was read from what was not.
  have hpre : ∀ x ∈ read, x ≤ c := by
    intro x hx
    rw [hc]
    cases hz : read.getLast? with
    | none =>
      rw [List.getLast?_eq_none_iff] at hz
      rw [hz] at hx
      exact absurd hx List.not_mem_nil
    | some z =>
      exact @key_le_getLast β β _ id read (List.pairwise_append.mp hsorted).1 z hz x hx
  have hpost : ∀ x ∈ suf, c < x := by
    intro x hx
    rw [hc]
    cases hz : read.getLast? with
    | none =>
      have hmem : x ∈ above start ks := by
        rw [← hsuf]
        exact List.mem_append_right _ hx
      exact of_decide_eq_true (List.mem_filter.mp hmem).2
    | some z => exact (List.pairwise_append.mp hsorted).2.2 z (List.mem_of_getLast? hz) x hx
  have hrest : above c ks = suf := by
    -- above the cursor is above the start, so the filter may be applied twice
    have htwice : above c ks = above c (above start ks) := by
      unfold above
      rw [List.filter_filter]
      apply List.filter_congr
      intro x _
      by_cases hx : c < x
      · simp [hx, lt_of_le_of_lt hle hx]
      · simp [hx]
    rw [htwice, ← hsuf]
    exact @filter_gt_eq β β _ id read suf c hpre hpost
  rw [hrest, hsuf]

/-! ## §5. Reading a growing log backwards. -/

section Backwards

variable (key)

/-- The entries below a key. -/
def below (c : β) (l : List α) : List α := l.filter (fun x => key x < c)

/-- The newest `w` of them. -/
def pageBelow (c : β) (w : Nat) (l : List α) : List α :=
  (below key c l).drop ((below key c l).length - w)

/-- `next` is the page before `prev`: with room for `next.1` entries, it has the
newest ones below the smallest of `prev`. -/
def OlderPage (l : List α) (next prev : Nat × List α) : Prop :=
  ∃ a ∈ prev.2, a ∈ l ∧ (∀ x ∈ prev.2, key a ≤ key x) ∧ next.2 = pageBelow key (key a) next.1 l

/-- Pages of a log with their sizes, the one read last in front. -/
structure Pages (l : List α) (pages : List (Nat × List α)) : Prop where
  chain : pages.IsChain (OlderPage key l)
  contiguous : (pages.map Prod.snd).flatten <:+: l
  filled : ∀ p ∈ pages, p.2 ≠ []

variable {key}

theorem mem_below {c : β} {l : List α} {x : α} : x ∈ below key c l ↔ x ∈ l ∧ key x < c := by
  unfold below
  rw [List.mem_filter, decide_eq_true_eq]

/-- The entries below one of the log are those before it. -/
theorem below_split {pre suf : List α} {a : α} (h : Ascending key (pre ++ a :: suf)) :
    below key (key a) (pre ++ a :: suf) = pre := by
  obtain ⟨-, hsuf, hpre⟩ := List.pairwise_append.mp h
  unfold below
  rw [List.filter_append]
  have hall : pre.filter (fun x => key x < key a) = pre := by
    rw [List.filter_eq_self]
    intro x hx
    exact decide_eq_true (hpre x hx a List.mem_cons_self)
  have hnone : (a :: suf).filter (fun x => key x < key a) = [] := by
    rw [List.filter_eq_nil_iff]
    intro x hx
    rw [decide_eq_true_eq]
    rcases List.mem_cons.mp hx with rfl | hx
    · exact lt_irrefl _
    · exact not_lt.mpr (le_of_lt (List.rel_of_pairwise_cons hsuf hx))
  rw [hall, hnone, List.append_nil]

/-- New entries are above every entry that is there, so they change no page. -/
theorem below_append {l suf : List α} {a : α} (h : Ascending key (l ++ suf)) (ha : a ∈ l) :
    below key (key a) (l ++ suf) = below key (key a) l := by
  unfold below
  rw [List.filter_append]
  have hnone : suf.filter (fun x => key x < key a) = [] := by
    rw [List.filter_eq_nil_iff]
    intro x hx
    rw [decide_eq_true_eq]
    exact not_lt.mpr (le_of_lt ((List.pairwise_append.mp h).2.2 a ha x hx))
  rw [hnone, List.append_nil]

theorem pageBelow_append {l suf : List α} {a : α} (h : Ascending key (l ++ suf)) (ha : a ∈ l)
    (w : Nat) : pageBelow key (key a) w (l ++ suf) = pageBelow key (key a) w l := by
  unfold pageBelow
  rw [below_append h ha]

/-- A page is empty only when nothing is left. -/
theorem pageBelow_eq_nil {c : β} {w : Nat} (hw : 0 < w) :
    pageBelow key c w l = [] ↔ below key c l = [] := by
  unfold pageBelow
  rw [List.drop_eq_nil_iff]
  constructor
  · intro hlen
    apply List.eq_nil_of_length_eq_zero
    omega
  · intro hnil
    rw [hnil]
    exact Nat.zero_le _

theorem mem_pageBelow_lt {c : β} {w : Nat} {x : α} (hx : x ∈ pageBelow key c w l) : key x < c :=
  (mem_below.mp (List.mem_of_mem_drop hx)).2

/-- A page joins on to what was read before it. -/
theorem pageBelow_contiguous {a : α} {read : List α} (h : Ascending key l) (hread : a :: read <:+: l)
    (w : Nat) : pageBelow key (key a) w l ++ a :: read <:+: l := by
  obtain ⟨pre, suf, rfl⟩ := hread
  have hshape : pre ++ a :: read ++ suf = pre ++ a :: (read ++ suf) := by
    rw [List.append_assoc, List.cons_append]
  have hpage : pageBelow key (key a) w (pre ++ a :: read ++ suf)
      = pre.drop (pre.length - w) := by
    unfold pageBelow
    rw [hshape, below_split (by rw [← hshape]; exact h)]
  rw [hpage]
  refine ⟨pre.take (pre.length - w), suf, ?_⟩
  rw [← List.append_assoc, List.take_append_drop]

/-- One page that is a part of the log. -/
theorem Pages.start {p : Nat × List α} (hpart : p.2 <:+: l) (hne : p.2 ≠ []) : Pages key l [p] where
  chain := .singleton p
  contiguous := by
    show p.2 ++ [] <:+: l
    rw [List.append_nil]
    exact hpart
  filled := fun q hq => by
    rw [List.mem_singleton.mp hq]
    exact hne

/-- The page before the one read last. -/
theorem Pages.older {w w' : Nat} {a : α} {page : List α} {rest : List (Nat × List α)}
    (hl : Ascending key l) (h : Pages key l ((w', a :: page) :: rest))
    (hne : pageBelow key (key a) w l ≠ []) :
    Pages key l ((w, pageBelow key (key a) w l) :: (w', a :: page) :: rest) where
  chain := by
    rw [List.isChain_cons_cons]
    have hpage : Ascending key (a :: page) :=
      ascending_sublist hl ((List.sublist_append_left _ _).trans h.contiguous.sublist)
    refine ⟨⟨a, List.mem_cons_self, h.contiguous.subset List.mem_cons_self, ?_, rfl⟩, h.chain⟩
    intro x hx
    rcases List.mem_cons.mp hx with rfl | hx
    · exact le_refl _
    · exact le_of_lt (List.rel_of_pairwise_cons hpage hx)
  contiguous := pageBelow_contiguous hl h.contiguous w
  filled := fun q hq => by
    rcases List.mem_cons.mp hq with rfl | hq
    · exact hne
    · exact h.filled q hq

/-- The log may grow. -/
theorem Pages.grow {suf : List α} {pages : List (Nat × List α)} (hl : Ascending key (l ++ suf))
    (h : Pages key l pages) : Pages key (l ++ suf) pages where
  chain := by
    refine h.chain.imp ?_
    rintro next prev ⟨a, ha, hal, hleast, heq⟩
    exact ⟨a, ha, List.mem_append_left _ hal, hleast, by rw [heq, pageBelow_append hl hal]⟩
  contiguous := h.contiguous.trans (List.prefix_append l suf).isInfix
  filled := h.filled

/-- The first entry of the log can only be the first one read. -/
theorem head?_of_contiguous {page : List α} {a : α} (hl : Ascending key l) (hpart : page <:+: l)
    (hfirst : l.head? = some a) (ha : a ∈ page) : page.head? = some a := by
  obtain ⟨pre, suf, rfl⟩ := hpart
  cases pre with
  | nil =>
    cases page with
    | nil => exact absurd ha List.not_mem_nil
    | cons b page => exact hfirst
  | cons b pre =>
    cases hfirst
    rw [List.append_assoc] at hl
    have hlt := (List.pairwise_append.mp hl).2.2 a List.mem_cons_self a (List.mem_append_left _ ha)
    exact absurd hlt (lt_irrefl _)

end Backwards

end NetServer.Lib.OrderedLog
