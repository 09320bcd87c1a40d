import Mathlib.Data.List.GetD
import Mathlib.Order.Lattice

/-!
# Binary heaps in lists

The functions of Python's `heapq` over a linear order, on a list that is a heap where no item is less
than its parent.

* `push`, `pop`, `heapify` — the operations, with `siftDown` and `siftUp` of the library;
* `push_perm`, `pop_perm`, `heapify_perm` — they hold the items they should;
* `isHeap_push`, `isHeap_pop`, `isHeap_heapify` — and are heaps;
* `IsHeap.head_le` — the head of a heap is its least item.
-/

set_option autoImplicit false

namespace Deadpool.Heapq

variable {α : Type} [LinearOrder α] [Inhabited α]

/-! ## Operations -/

/-- `_siftdown(heap, startpos, pos)`: `newitem` moves up while it is less than its parent. -/
def siftDown (startpos : Nat) (newitem : α) : Nat → List α → Nat → List α
  | 0, heap, pos => heap.set pos newitem
  | fuel + 1, heap, pos =>
    let parentpos := (pos - 1) / 2
    let parent := heap.getD parentpos default
    if startpos < pos ∧ newitem < parent then
      siftDown startpos newitem fuel (heap.set pos parent) parentpos
    else heap.set pos newitem

/-- The smaller child of a position, the right one when they are equal. -/
def smallerChild (heap : List α) (pos : Nat) : Nat :=
  let childpos := 2 * pos + 1
  let rightpos := childpos + 1
  if rightpos < heap.length ∧ ¬ heap.getD childpos default < heap.getD rightpos default then rightpos
  else childpos

/-- The first half of `_siftup`: the smaller child moves up until a leaf is reached. -/
def sinkToLeaf : Nat → List α → Nat → List α × Nat
  | 0, heap, pos => (heap, pos)
  | fuel + 1, heap, pos =>
    if 2 * pos + 1 < heap.length then
      let child := smallerChild heap pos
      sinkToLeaf fuel (heap.set pos (heap.getD child default)) child
    else (heap, pos)

/-- `_siftup(heap, pos)` -/
def siftUp (heap : List α) (pos : Nat) : List α :=
  let newitem := heap.getD pos default
  let (heap, leaf) := sinkToLeaf heap.length heap pos
  siftDown pos newitem heap.length heap leaf

/-- `heapq.heappush` -/
def push (heap : List α) (item : α) : List α :=
  siftDown 0 item heap.length (heap ++ [item]) heap.length

/-- `heapq.heappop`, without the item it returns. -/
def pop (heap : List α) : List α :=
  match heap.dropLast with
  | [] => []
  | rest => siftUp (rest.set 0 (heap.getLastD default)) 0

/-- `heapq.heapify` -/
def heapify (heap : List α) : List α :=
  (List.range (heap.length / 2)).reverse.foldl siftUp heap

/-! ## Positions -/

theorem getD_set {β : Type} {heap : List β} {pos i : Nat} {x d : β} (h : pos < heap.length) :
    (heap.set pos x).getD i d = if i = pos then x else heap.getD i d := by
  simp only [List.getD_eq_getElem?_getD, List.getElem?_set]
  split
  · rename_i he
    subst he
    simp only [↓reduceIte, Option.getD_some]
  · rename_i he
    rw [if_neg (Ne.symm he)]

/-- Writing an item over its parent, and a new item over the parent, permutes. -/
theorem set_getD_set_perm {β : Type} {heap : List β} {i j : Nat} {d : β} (x : β) (hij : i ≠ j)
    (hi : i < heap.length) (hj : j < heap.length) :
    ((heap.set i (heap.getD j d)).set j x).Perm (heap.set i x) := by
  have hi' : i < (heap.set i x).length := by simpa using hi
  have hj' : j < (heap.set i x).length := by simpa using hj
  have h := List.set_set_perm hi' hj'
  simpa [List.getD_eq_getElem?_getD, hj, List.getElem_set, hij] using h

/-- `c` is a child of `p`. -/
def IsChild (c p : Nat) : Prop := 0 < c ∧ (c - 1) / 2 = p

theorem isChild_iff {c p : Nat} : IsChild c p ↔ c = 2 * p + 1 ∨ c = 2 * p + 2 := by
  unfold IsChild
  omega

/-- `pos` is in the subtree of `k`. -/
inductive Below (k : Nat) : Nat → Prop
  | refl : Below k k
  | child {c p : Nat} : IsChild c p → Below k p → Below k c

theorem Below.le {k pos : Nat} (h : Below k pos) : k ≤ pos := by
  induction h with
  | refl => exact Nat.le_refl _
  | child hc _ ih =>
    have := isChild_iff.mp hc
    omega

theorem Below.parent {k pos : Nat} (h : Below k pos) (hk : k < pos) : Below k ((pos - 1) / 2) := by
  cases h with
  | refl => omega
  | child hc hp => exact hc.2 ▸ hp

theorem below_zero (pos : Nat) : Below 0 pos := by
  induction pos using Nat.strongRecOn with
  | ind pos ih =>
    by_cases hp : pos = 0
    · exact hp ▸ .refl
    · exact .child ⟨by omega, rfl⟩ (ih ((pos - 1) / 2) (by omega))

/-! ## Order -/

/-- Items whose parent is not before `k` are not less than it. -/
def HeapFrom (k : Nat) (heap : List α) : Prop :=
  ∀ c p, IsChild c p → c < heap.length → k ≤ p → heap.getD p default ≤ heap.getD c default

/-- No item is less than its parent. -/
def IsHeap (heap : List α) : Prop := HeapFrom 0 heap

/-- `HeapFrom`, where the position `hole` does not count. -/
def OrderedExcept (k : Nat) (heap : List α) (hole : Nat) : Prop :=
  ∀ c p, IsChild c p → c < heap.length → k ≤ p → c ≠ hole → p ≠ hole →
    heap.getD p default ≤ heap.getD c default

/-- The children of the hole are not less than its parent. -/
def Bridged (k : Nat) (heap : List α) (hole : Nat) : Prop :=
  ∀ c, k < hole → IsChild c hole → c < heap.length →
    heap.getD ((hole - 1) / 2) default ≤ heap.getD c default

theorem IsHeap.head_le {heap : List α} (h : IsHeap heap) :
    ∀ i, i < heap.length → heap.getD 0 default ≤ heap.getD i default := by
  intro i
  induction i using Nat.strongRecOn with
  | ind i ih =>
    intro hi
    by_cases h0 : i = 0
    · rw [h0]
    · have hp : (i - 1) / 2 < i := by omega
      exact le_trans (ih _ hp (by omega)) (h i _ ⟨by omega, rfl⟩ hi (Nat.zero_le _))

/-! ## Moving up -/

theorem siftDown_perm (startpos : Nat) (newitem : α) (fuel : Nat) :
    ∀ (heap : List α) (pos : Nat), pos < heap.length →
      (siftDown startpos newitem fuel heap pos).Perm (heap.set pos newitem) := by
  induction fuel with
  | zero => intro heap pos _; exact .refl _
  | succ fuel ih =>
    intro heap pos hpos
    unfold siftDown
    dsimp only
    split
    · rename_i hc
      have hparent : (pos - 1) / 2 < heap.length := by omega
      refine (ih _ _ (by simpa using hparent)).trans ?_
      exact set_getD_set_perm newitem (by omega) hpos hparent
    · exact .refl _

/-- The order once the new item is written into the hole. -/
theorem heapFrom_set {k hole : Nat} {heap : List α} {x : α} (hhole : hole < heap.length)
    (hexcept : OrderedExcept k heap hole)
    (hbelow : ∀ c, IsChild c hole → c < heap.length → x ≤ heap.getD c default)
    (hstop : k < hole → heap.getD ((hole - 1) / 2) default ≤ x) :
    HeapFrom k (heap.set hole x) := by
  intro c p hcp hc hk
  rw [List.length_set] at hc
  rw [getD_set hhole, getD_set hhole]
  by_cases hch : c = hole
  · have hph : p ≠ hole := by
      have := isChild_iff.mp hcp
      omega
    rw [if_neg hph, if_pos hch, ← hcp.2, hch]
    refine hstop ?_
    have := isChild_iff.mp hcp
    omega
  · rw [if_neg hch]
    by_cases hph : p = hole
    · rw [if_pos hph]
      exact hbelow c (hph ▸ hcp) hc
    · rw [if_neg hph]
      exact hexcept c p hcp hc hk hch hph

/-- One move up: the hole goes to the parent. -/
theorem orderedExcept_up {k hole : Nat} {heap : List α} (hhole : hole < heap.length)
    (hk : k < hole) (hexcept : OrderedExcept k heap hole) (hbridged : Bridged k heap hole) :
    OrderedExcept k (heap.set hole (heap.getD ((hole - 1) / 2) default)) ((hole - 1) / 2) := by
  intro c p hcp hc hkp hc' hp'
  rw [List.length_set] at hc
  rw [getD_set hhole, getD_set hhole]
  by_cases hch : c = hole
  · exact absurd (by rw [← hcp.2, hch]) hp'
  · rw [if_neg hch]
    split
    · rename_i hph
      exact hbridged c hk (hph ▸ hcp) hc
    · rename_i hph
      exact hexcept c p hcp hc hkp hch hph

/-- The hole in the subtree of `startpos` moves up until the new item may stand in it. -/
theorem siftDown_heapFrom (startpos : Nat) (newitem : α) (fuel : Nat) :
    ∀ (heap : List α) (pos : Nat), pos < heap.length → pos ≤ fuel → Below startpos pos →
      OrderedExcept startpos heap pos → Bridged startpos heap pos →
      (∀ c, IsChild c pos → c < heap.length → newitem ≤ heap.getD c default) →
      HeapFrom startpos (siftDown startpos newitem fuel heap pos) := by
  induction fuel with
  | zero =>
    intro heap pos hpos hfuel _ hexcept _ hbelow
    exact heapFrom_set hpos hexcept hbelow (by omega)
  | succ fuel ih =>
    intro heap pos hpos hfuel hdesc hexcept hbridged hbelow
    unfold siftDown
    dsimp only
    split
    · rename_i hc
      obtain ⟨hk, hlt⟩ := hc
      -- children of the parent are not less than it, and it takes the place of the new item
      have hsibling : ∀ c, IsChild c ((pos - 1) / 2) → c < heap.length → startpos ≤ (pos - 1) / 2 →
          c ≠ pos → heap.getD ((pos - 1) / 2) default ≤ heap.getD c default := by
        intro c hc hclt hkp hcp
        exact hexcept c _ hc hclt hkp hcp (by omega)
      have hup := (hdesc.parent hk).le
      refine ih _ _ ?_ (by omega) (hdesc.parent hk) (orderedExcept_up hpos hk hexcept hbridged) ?_ ?_
      · rw [List.length_set]
        omega
      · intro c hk' hc hclt
        rw [List.length_set] at hclt
        rw [getD_set hpos, getD_set hpos, if_neg (by omega)]
        have hparent : heap.getD (((pos - 1) / 2 - 1) / 2) default ≤
            heap.getD ((pos - 1) / 2) default :=
          hexcept _ _ ⟨by omega, rfl⟩ (by omega) ((hdesc.parent hk).parent hk').le (by omega) (by omega)
        split
        · exact hparent
        · rename_i hcp
          exact le_trans hparent (hsibling c hc hclt hup hcp)
      · intro c hc hclt
        rw [List.length_set] at hclt
        rw [getD_set hpos]
        split
        · exact le_of_lt hlt
        · rename_i hcp
          exact le_trans (le_of_lt hlt) (hsibling c hc hclt hup hcp)
    · rename_i hc
      refine heapFrom_set hpos hexcept hbelow fun hk => ?_
      exact le_of_not_gt fun hlt => hc ⟨hk, hlt⟩

/-! ## Sinking -/

theorem smallerChild_isChild (heap : List α) (pos : Nat) : IsChild (smallerChild heap pos) pos := by
  unfold smallerChild
  dsimp only
  split
  · exact isChild_iff.mpr (.inr rfl)
  · exact isChild_iff.mpr (.inl rfl)

theorem smallerChild_lt {heap : List α} {pos : Nat} (h : 2 * pos + 1 < heap.length) :
    smallerChild heap pos < heap.length := by
  unfold smallerChild
  dsimp only
  split
  · rename_i hc
    exact hc.1
  · exact h

theorem smallerChild_le {heap : List α} {pos c : Nat} (hc : IsChild c pos) (hlt : c < heap.length) :
    heap.getD (smallerChild heap pos) default ≤ heap.getD c default := by
  unfold smallerChild
  dsimp only
  rcases isChild_iff.mp hc with rfl | rfl
  · split
    · rename_i h
      exact le_of_not_gt h.2
    · exact le_rfl
  · split
    · exact le_rfl
    · rename_i h
      exact le_of_lt (not_not.mp fun hn => h ⟨hlt, hn⟩)

/-- The hole sinks to a leaf, and everything off the hole stays in order. -/
theorem sinkToLeaf_spec (k : Nat) (x : α) (fuel : Nat) :
    ∀ (heap : List α) (pos : Nat), pos < heap.length → heap.length ≤ pos + fuel → Below k pos →
      OrderedExcept k heap pos → Bridged k heap pos →
      ∃ heap' leaf, sinkToLeaf fuel heap pos = (heap', leaf) ∧ heap'.length = heap.length ∧
        leaf < heap.length ∧ heap.length ≤ 2 * leaf + 1 ∧ Below k leaf ∧
        OrderedExcept k heap' leaf ∧ (heap'.set leaf x).Perm (heap.set pos x) := by
  induction fuel with
  | zero => intro heap pos hpos hfuel; omega
  | succ fuel ih =>
    intro heap pos hpos hfuel hdesc hexcept hbridged
    unfold sinkToLeaf
    dsimp only
    split
    · rename_i hchild
      have hc := smallerChild_isChild heap pos
      have hclt := smallerChild_lt hchild
      have hgt : pos < smallerChild heap pos := by
        have := isChild_iff.mp hc
        omega
      obtain ⟨heap', leaf, hrun, hlen, hleaf, hend, hbelow, hord, hperm⟩ :=
        ih (heap.set pos (heap.getD (smallerChild heap pos) default)) (smallerChild heap pos)
          (by simpa using hclt) (by rw [List.length_set]; omega) (.child hc hdesc)
          (by
            intro c p hcp hlt hkp hc' hp'
            rw [List.length_set] at hlt
            rw [getD_set hpos, getD_set hpos]
            by_cases hcpos : c = pos
            · -- the smaller child now stands below the parent of the hole
              have hkpos : k < pos := by
                have := isChild_iff.mp hcp
                omega
              have hpne : p ≠ pos := by
                have := isChild_iff.mp hcp
                omega
              rw [if_pos hcpos, if_neg hpne, ← hcp.2, hcpos]
              exact hbridged _ hkpos hc hclt
            · rw [if_neg hcpos]
              by_cases hppos : p = pos
              · rw [if_pos hppos]
                exact smallerChild_le (hppos ▸ hcp) hlt
              · rw [if_neg hppos]
                exact hexcept c p hcp hlt hkp hcpos hppos)
          (by
            intro c hk' hc' hlt
            rw [List.length_set] at hlt
            have hcne : c ≠ pos := by
              have := isChild_iff.mp hc'
              omega
            rw [getD_set hpos, getD_set hpos, if_pos hc.2, if_neg hcne]
            refine hexcept c _ hc' hlt ?_ hcne (by omega)
            exact Nat.le_of_lt hk')
      rw [List.length_set] at hlen hleaf hend
      refine ⟨heap', leaf, hrun, hlen, hleaf, hend, hbelow, hord, hperm.trans ?_⟩
      exact set_getD_set_perm x (by omega) hpos hclt
    · rename_i hchild
      exact ⟨heap, pos, rfl, rfl, hpos, by omega, hdesc, hexcept, .refl _⟩

theorem siftUp_spec {heap : List α} {pos : Nat} (hpos : pos < heap.length)
    (h : HeapFrom (pos + 1) heap) :
    (siftUp heap pos).Perm heap ∧ HeapFrom pos (siftUp heap pos) := by
  have hexcept : OrderedExcept pos heap pos := by
    intro c p hcp hlt hk _ hp
    exact h c p hcp hlt (by omega)
  have hbridged : Bridged pos heap pos := fun _ hk => absurd hk (Nat.lt_irrefl _)
  obtain ⟨heap', leaf, hrun, hlen, hleaf, hend, hbelow, hord, hperm⟩ :=
    sinkToLeaf_spec pos (heap.getD pos default) heap.length heap pos hpos (by omega) .refl hexcept
      hbridged
  have hnochild : ∀ c, IsChild c leaf → ¬ c < heap'.length := by
    intro c hc
    have := isChild_iff.mp hc
    omega
  unfold siftUp
  simp only [hrun]
  constructor
  · refine (siftDown_perm _ _ _ _ _ (by omega)).trans (hperm.trans ?_)
    rw [List.getD_eq_getElem _ _ hpos, List.set_getElem_self]
  · exact siftDown_heapFrom _ _ _ _ _ (by omega) (by omega) hbelow hord
      (fun c _ hc hlt => absurd hlt (hnochild c hc)) (fun c hc hlt => absurd hlt (hnochild c hc))

/-! ## The operations keep heaps -/

theorem push_perm (heap : List α) (item : α) : (push heap item).Perm (item :: heap) := by
  unfold push
  refine (siftDown_perm _ _ _ _ _ (by simp)).trans ?_
  rw [List.set_append_right _ _ (Nat.le_refl _)]
  simp

theorem isHeap_push {heap : List α} (h : IsHeap heap) (item : α) : IsHeap (push heap item) := by
  have hnochild : ∀ c, IsChild c heap.length → ¬ c < (heap ++ [item]).length := by
    intro c hc
    have := isChild_iff.mp hc
    rw [List.length_append, List.length_singleton]
    omega
  refine siftDown_heapFrom 0 item _ _ _ (by simp) (Nat.le_refl _) (below_zero _) ?_
    (fun c _ hc hlt => absurd hlt (hnochild c hc)) (fun c hc hlt => absurd hlt (hnochild c hc))
  intro c p hcp hc hk hne _
  rw [List.length_append, List.length_singleton] at hc
  have hlt : c < heap.length := by omega
  have hp : p < heap.length := by
    have := isChild_iff.mp hcp
    omega
  rw [List.getD_append _ _ _ _ hp, List.getD_append _ _ _ _ hlt]
  exact h c p hcp hlt hk

theorem heapFrom_one_set {heap : List α} (h : IsHeap heap) (x : α) : HeapFrom 1 (heap.set 0 x) := by
  intro c p hcp hc hk
  rw [List.length_set] at hc
  have hc0 : c ≠ 0 := by
    have := hcp.1
    omega
  rw [getD_set (by omega), getD_set (by omega), if_neg (by omega), if_neg hc0]
  exact h c p hcp hc (Nat.zero_le _)

theorem isHeap_dropLast {heap : List α} (h : IsHeap heap) : IsHeap heap.dropLast := by
  intro c p hcp hc hk
  rw [List.length_dropLast] at hc
  have hp : p < heap.length - 1 := by
    have := isChild_iff.mp hcp
    omega
  have := h c p hcp (by omega) hk
  rw [List.getD_eq_getElem _ _ (by omega), List.getD_eq_getElem _ _ (by omega)] at this
  rw [List.getD_eq_getElem _ _ (by simpa using hp), List.getD_eq_getElem _ _ (by simpa using hc)]
  simpa using this

/-- The least item goes, the others stay. -/
theorem pop_spec {heap : List α} (h : IsHeap heap) (hne : heap ≠ []) :
    (heap.getD 0 default :: pop heap).Perm heap ∧ IsHeap (pop heap) := by
  unfold pop
  split
  · rename_i hnil
    obtain ⟨x, rfl⟩ : ∃ x, heap = [x] := by
      match heap, hne with
      | [x], _ => exact ⟨x, rfl⟩
      | x :: y :: rest, _ => simp at hnil
    exact ⟨.refl _, fun c p _ hc => absurd hc (Nat.not_lt_zero _)⟩
  · rename_i rest hrest hcons
    have hsplit := List.dropLast_concat_getLast hne
    have hlast : heap.getLastD default = heap.getLast hne := by
      rw [List.getLastD_eq_getLast?, List.getLast?_eq_some_getLast hne, Option.getD_some]
    match hd : heap.dropLast, hcons with
    | x :: rest', _ =>
      have hone : HeapFrom 1 ((x :: rest').set 0 (heap.getLastD default)) :=
        heapFrom_one_set (hd ▸ isHeap_dropLast h) _
      obtain ⟨hperm, hheap⟩ := siftUp_spec (by simp) hone
      have hx : heap.getD 0 default = x := by
        rw [← hsplit, hd]
        rfl
      have hheap' : x :: rest' ++ [heap.getLast hne] = heap := by
        rw [← hd]
        exact hsplit
      refine ⟨?_, hheap⟩
      rw [hx]
      refine (hperm.cons x).trans ?_
      rw [List.set_cons_zero, hlast]
      exact ((List.perm_append_singleton _ _).symm.cons x).trans (.of_eq hheap')

theorem heapify_spec (heap : List α) : (heapify heap).Perm heap ∧ IsHeap (heapify heap) := by
  have hfold : ∀ (n : Nat) (heap : List α), n ≤ heap.length / 2 → HeapFrom n heap →
      ((List.range n).reverse.foldl siftUp heap).Perm heap ∧
        IsHeap ((List.range n).reverse.foldl siftUp heap) := by
    intro n
    induction n with
    | zero => intro heap _ h; exact ⟨.refl _, h⟩
    | succ n ih =>
      intro heap hn h
      obtain ⟨hperm, hheap⟩ := siftUp_spec (by omega) h
      rw [List.range_succ, List.reverse_append, List.reverse_singleton, List.singleton_append,
        List.foldl_cons]
      obtain ⟨hperm', hheap'⟩ := ih (siftUp heap n) (by rw [hperm.length_eq]; omega) hheap
      exact ⟨hperm'.trans hperm, hheap'⟩
  refine hfold _ heap (Nat.le_refl _) ?_
  intro c p hcp hc hk
  have := isChild_iff.mp hcp
  omega

end Deadpool.Heapq
