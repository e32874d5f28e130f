import Bramble.Lib.Extents
import Bramble.Lib.Machine

/-!
# The heap (`heap_4.c`)

`pvPortMalloc` takes the first free block that is large enough and gives back what it does not need;
`vPortFree` puts a block into the list of free blocks, which is in the order of the addresses, and
joins it with its neighbours. The list goes through the blocks themselves, from `xStart` to `pxEnd`.

* `heap4`            the machine: tasks that allocate, write into their blocks and free them;
* `Chain`            the list of free blocks in memory;
* `insert_spec`      `prvInsertBlockIntoFreeList` is `Extents.insert`;
* `HeapRun.Inv`      the free blocks and those of the tasks make up the heap;
* `blocks_apart`     blocks are aligned, large enough and apart, and nobody else writes to them;
* `malloc_fails_iff` `pvPortMalloc` fails only if no gap is large enough;
* `heap_restored`    the counters are exact, and an empty heap is as it was at the start.
-/

namespace Bramble

def configTotalHeapSize : Nat := 17 * 1024
def portByteAlignment : Nat := 8
/-- `sizeof (BlockLink_t)` is a multiple of the alignment. -/
def xHeapStructSize : Nat := 8
def heapMinimumBlockSize : Nat := xHeapStructSize <<< 1
/-- the top bit of a `size_t`; `prvHeapInit` sets it -/
def xBlockAllocatedBit : Nat := 2^31

/-- a `BlockLink_t *`: the variable `xStart`, or an address in `ucHeap` -/
inductive BlockPtr where
  | xStart
  | at (addr : Nat)
  deriving DecidableEq

structure BlockLink where
  /-- `none`: `NULL` -/
  pxNextFreeBlock : Option Nat
  xBlockSize : Nat
  deriving DecidableEq

/-- the memory as far as it is used for links, and the variables -/
structure Heap where
  link : BlockPtr → BlockLink
  pxEnd : Option Nat
  xFreeBytesRemaining : Nat
  xMinimumEverFreeBytesRemaining : Nat

namespace Heap

def next (h : Heap) (p : BlockPtr) : Option Nat := (h.link p).pxNextFreeBlock
def size (h : Heap) (p : BlockPtr) : Nat := (h.link p).xBlockSize

def setLink (h : Heap) (p : BlockPtr) (l : BlockLink) : Heap :=
  { h with link := Function.update h.link p l }

def setNext (h : Heap) (p : BlockPtr) (q : Option Nat) : Heap :=
  h.setLink p { h.link p with pxNextFreeBlock := q }

def setSize (h : Heap) (p : BlockPtr) (s : Nat) : Heap :=
  h.setLink p { h.link p with xBlockSize := s }

/-- the pointers of the loops go through at most one block for each link's worth of memory -/
def fuel : Nat := configTotalHeapSize

/-! ### `prvInsertBlockIntoFreeList` -/

/-- the loop: the last link in front of `block`; `none` if it would follow `NULL` -/
def insertPosition (h : Heap) (block : Nat) : Nat → BlockPtr → Option BlockPtr
  | 0, _ => none
  | fuel + 1, pxIterator =>
    match h.next pxIterator with
    | none => none
    | some q => if q < block then h.insertPosition block fuel (.at q) else some pxIterator

/-- `p + size == block`; `xStart` is outside of the heap, and its size is 0 -/
def reaches : BlockPtr → Nat → Nat → Bool
  | .xStart, _, _ => false
  | .at a, size, block => a + size == block

/-- joined with the block in front, if they touch, with the pointer to it -/
def mergeFront (h : Heap) (pxIterator : BlockPtr) (block : Nat) : Heap × BlockPtr :=
  if reaches pxIterator (h.size pxIterator) block then
    (h.setSize pxIterator (h.size pxIterator + h.size (.at block)), pxIterator)
  else (h, .at block)

/-- joined with the block behind, if they touch and that is not `pxEnd` -/
def mergeBehind (h : Heap) (pxIterator block : BlockPtr) : Heap :=
  match h.next pxIterator with
  | some q =>
    if reaches block (h.size block) q then
      if some q ≠ h.pxEnd then h.setLink block ⟨h.next (.at q), h.size block + h.size (.at q)⟩
      else h.setNext block h.pxEnd
    else h.setNext block (some q)
  | none => h.setNext block none

def prvInsertBlockIntoFreeList (h : Heap) (block : Nat) : Option Heap :=
  (h.insertPosition block fuel .xStart).map fun pxIterator =>
    let (h, pxBlockToInsert) := h.mergeFront pxIterator block
    let h := h.mergeBehind pxIterator pxBlockToInsert
    if pxIterator ≠ pxBlockToInsert then h.setNext pxIterator (some block) else h

/-! ### `pvPortMalloc` -/

/-- round up to the alignment -/
def alignUp (a : Nat) : Nat := (a + (portByteAlignment - 1)) / portByteAlignment * portByteAlignment

def alignDown (a : Nat) : Nat := a / portByteAlignment * portByteAlignment

/-- `ucHeap` is the address of the array -/
def prvHeapInit (ucHeap : Nat) (h : Heap) : Heap :=
  let pucAlignedHeap := alignUp ucHeap
  let xTotalHeapSize := configTotalHeapSize - (pucAlignedHeap - ucHeap)
  let pxEnd := alignDown (pucAlignedHeap + xTotalHeapSize - xHeapStructSize)
  let h := h.setLink .xStart ⟨some pucAlignedHeap, 0⟩
  let h := h.setLink (.at pxEnd) ⟨none, 0⟩
  let h := h.setLink (.at pucAlignedHeap) ⟨some pxEnd, pxEnd - pucAlignedHeap⟩
  { h with
    pxEnd := some pxEnd
    xFreeBytesRemaining := pxEnd - pucAlignedHeap
    xMinimumEverFreeBytesRemaining := pxEnd - pucAlignedHeap }

/-- the size of the block for `xWantedSize` bytes: with its link, and aligned -/
def wantedSize (xWantedSize : UInt32) : UInt32 :=
  if 0 < xWantedSize then
    let size := xWantedSize + 8
    if size &&& 7 ≠ 0 then size + (8 - (size &&& 7)) else size
  else xWantedSize

/-- the loop: a block that is large enough or the last, and the link in front of it -/
def findBlock (h : Heap) (wanted : Nat) : Nat → BlockPtr → Nat → Option (BlockPtr × Nat)
  | 0, _, _ => none
  | fuel + 1, pxPreviousBlock, pxBlock =>
    if h.size (.at pxBlock) < wanted then
      match h.next (.at pxBlock) with
      | some q => h.findBlock wanted fuel (.at pxBlock) q
      | none => some (pxPreviousBlock, pxBlock)
    else some (pxPreviousBlock, pxBlock)

/-- what is behind the first `wanted` bytes becomes a block of its own -/
def split (h : Heap) (pxBlock wanted : Nat) : Option Heap :=
  if heapMinimumBlockSize < h.size (.at pxBlock) - wanted then
    let pxNewBlockLink := pxBlock + wanted
    let h := h.setSize (.at pxNewBlockLink) (h.size (.at pxBlock) - wanted)
    let h := h.setSize (.at pxBlock) wanted
    h.prvInsertBlockIntoFreeList pxNewBlockLink
  else some h

/-- the block is taken out of the counters, and marked -/
def give (h : Heap) (pxBlock : Nat) : Heap :=
  let left := h.xFreeBytesRemaining - h.size (.at pxBlock)
  { h.setLink (.at pxBlock) ⟨none, h.size (.at pxBlock) ||| xBlockAllocatedBit⟩ with
    xFreeBytesRemaining := left
    xMinimumEverFreeBytesRemaining :=
      if left < h.xMinimumEverFreeBytesRemaining then left else h.xMinimumEverFreeBytesRemaining }

/-- the part of `pvPortMalloc` after the heap is initialised, for a block of the size `wanted`; the
pointer returned is `none` for `NULL` -/
def allocate (h : Heap) (wanted : Nat) : Option (Heap × Option Nat) :=
  if 0 < wanted ∧ wanted ≤ h.xFreeBytesRemaining then
    match h.next .xStart with
    | none => none
    | some first =>
      (h.findBlock wanted fuel .xStart first).bind fun (pxPreviousBlock, pxBlock) =>
        if some pxBlock ≠ h.pxEnd then
          let pvReturn := (h.next pxPreviousBlock).map (· + xHeapStructSize)
          let h := h.setNext pxPreviousBlock (h.next (.at pxBlock))
          (h.split pxBlock wanted).map fun h => (h.give pxBlock, pvReturn)
        else some (h, none)
  else some (h, none)

def pvPortMalloc (ucHeap : Nat) (h : Heap) (xWantedSize : UInt32) : Option (Heap × Option Nat) :=
  let h := if h.pxEnd = none then prvHeapInit ucHeap h else h
  if xWantedSize &&& 0x80000000 = 0 then h.allocate (wantedSize xWantedSize).toNat
  else some (h, none)

/-! ### `vPortFree` -/

/-- the checks, and the block loses its mark; `none` if the block is not in use -/
def unmark (h : Heap) (pv : Nat) : Option Heap :=
  let pxLink := BlockPtr.at (pv - xHeapStructSize)
  if h.size pxLink &&& xBlockAllocatedBit ≠ 0 ∧ h.next pxLink = none then
    some (h.setSize pxLink (h.size pxLink &&& (xBlockAllocatedBit - 1)))
  else none

/-- the rest, with the scheduler suspended -/
def insertFreed (h : Heap) (pv : Nat) : Option Heap :=
  let pxLink := pv - xHeapStructSize
  { h with
    xFreeBytesRemaining := h.xFreeBytesRemaining + h.size (.at pxLink)
    }.prvInsertBlockIntoFreeList pxLink

end Heap

/-- a block of a task: what `pvPortMalloc` returned, for how many bytes, and the size in its link -/
structure Grant where
  pv : Nat
  xWantedSize : Nat
  size : Nat
  deriving DecidableEq

/-- the block with its link -/
def Grant.extent (g : Grant) : Extent := ⟨g.pv - xHeapStructSize, g.size⟩

inductive HeapAct where
  | malloc (xWantedSize : UInt32)
  /-- the task that owns the block writes over a link's worth of it -/
  | write (g : Grant) (addr : Nat) (l : BlockLink)
  /-- `vPortFree`, up to `vTaskSuspendAll` -/
  | unmark (g : Grant)
  /-- the rest of `vPortFree` -/
  | insert (g : Grant)

/-- the heap, the blocks of the tasks, and those that are being freed -/
structure HeapRun where
  heap : Heap
  live : List Grant
  freeing : List Grant

namespace HeapRun

/-- the memory may hold anything -/
def init (link : BlockPtr → BlockLink) : HeapRun := ⟨⟨link, none, 0, 0⟩, [], []⟩

def step (ucHeap : Nat) (r : HeapRun) : HeapAct → Option HeapRun
  | .malloc xWantedSize =>
    (r.heap.pvPortMalloc ucHeap xWantedSize).map fun (h, pv) =>
      { r with
        heap := h
        live := match pv with
          | some pv => ⟨pv, xWantedSize.toNat,
              h.size (.at (pv - xHeapStructSize)) &&& (xBlockAllocatedBit - 1)⟩ :: r.live
          | none => r.live }
  | .write g addr l =>
    if g ∈ r.live ∧ g.pv ≤ addr ∧ addr < g.extent.stop then
      some { r with heap := r.heap.setLink (.at addr) l }
    else none
  | .unmark g =>
    if g ∈ r.live then
      (r.heap.unmark g.pv).map fun h => ⟨h, r.live.erase g, g :: r.freeing⟩
    else none
  | .insert g =>
    if g ∈ r.freeing then
      (r.heap.insertFreed g.pv).map fun h => { r with heap := h, freeing := r.freeing.erase g }
    else none

end HeapRun

/-- The tasks run in any order; `pvPortMalloc` and the end of `vPortFree` have the scheduler
suspended. -/
def heap4 (ucHeap : Nat) : Machine HeapRun HeapAct := ⟨HeapRun.step ucHeap⟩

/-! ## the list of free blocks -/

namespace Heap

/-- the link of the last block, or `p` if there is none -/
def lastLink (p : BlockPtr) (xs : List Extent) : BlockPtr :=
  (xs.getLast?.map fun x => .at x.addr).getD p

/-- the address of the first block, or `e` if there is none -/
def firstAddr (xs : List Extent) (e : Nat) : Nat := (xs.head?.map Extent.addr).getD e

/-- the blocks that follow `p`, up to `e` -/
def Chain (h : Heap) : BlockPtr → List Extent → Nat → Prop
  | p, [], e => h.next p = some e
  | p, x :: xs, e =>
    h.next p = some x.addr ∧ h.size (.at x.addr) = x.size ∧ h.Chain (.at x.addr) xs e

section
variable {h k : Heap} {p q : BlockPtr} {x y b : Extent} {xs ys : List Extent} {e a : Nat}

theorem lastLink_cons : lastLink p (x :: xs) = lastLink (.at x.addr) xs := by
  unfold lastLink
  rw [List.getLast?_cons]
  cases xs.getLast? <;> rfl

theorem lastLink_concat : lastLink p (xs ++ [x]) = .at x.addr := by
  unfold lastLink
  rw [List.getLast?_concat]
  rfl

theorem lastLink_mem : lastLink p xs = p ∨ ∃ x ∈ xs, lastLink p xs = .at x.addr := by
  unfold lastLink
  cases hlast : xs.getLast? with
  | none => exact .inl rfl
  | some x => exact .inr ⟨x, List.mem_of_getLast? hlast, rfl⟩

/-- the last of the links is not that of a block elsewhere -/
theorem lastLink_ne (h : ∀ x ∈ xs, x.addr ≠ a) : lastLink .xStart xs ≠ .at a := by
  rcases @lastLink_mem .xStart xs with heq | ⟨x, hx, heq⟩
  · rw [heq]
    exact BlockPtr.noConfusion
  · rw [heq]
    exact fun heq => h x hx (BlockPtr.at.inj heq)

theorem Chain.next_eq (hc : h.Chain p xs e) : h.next p = some (firstAddr xs e) := by
  cases xs with
  | nil => exact hc
  | cons x xs => exact hc.1

theorem chain_append :
    h.Chain p (xs ++ ys) e ↔ h.Chain p xs (firstAddr ys e) ∧ h.Chain (lastLink p xs) ys e := by
  induction xs generalizing p with
  | nil => exact (and_iff_right_of_imp Chain.next_eq).symm
  | cons x xs ih =>
    rw [List.cons_append, lastLink_cons]
    show _ ∧ _ ∧ h.Chain (.at x.addr) (xs ++ ys) e ↔ (_ ∧ _ ∧ _) ∧ _
    rw [ih, and_assoc, and_assoc]

/-- the blocks of a list with other links in front of them -/
theorem Chain.move (hc : h.Chain p xs e) (hnext : k.next q = some (firstAddr xs e))
    (hlinks : ∀ x ∈ xs, k.link (.at x.addr) = h.link (.at x.addr)) : k.Chain q xs e := by
  induction xs generalizing p q with
  | nil => exact hnext
  | cons x xs ih =>
    obtain ⟨_, hsize, hrest⟩ := hc
    obtain ⟨hx, hxs⟩ := List.forall_mem_cons.mp hlinks
    refine ⟨hnext, ?_, ih hrest ?_ hxs⟩
    · unfold Heap.size at hsize ⊢
      rw [hx, hsize]
    · unfold Heap.next
      rw [hx]
      exact hrest.next_eq

/-- the blocks of a list, where the last is linked with `a` -/
theorem Chain.relink (hc : h.Chain p xs e) (hp : ∀ x ∈ xs, BlockPtr.at x.addr ≠ p)
    (hxs : (xs.map Extent.addr).Nodup) (hlast : k.next (lastLink p xs) = some a)
    (hnext : p ≠ lastLink p xs → k.next p = h.next p)
    (hlinks : ∀ x ∈ xs, k.size (.at x.addr) = h.size (.at x.addr) ∧
      (.at x.addr ≠ lastLink p xs → k.next (.at x.addr) = h.next (.at x.addr))) :
    k.Chain p xs a := by
  induction xs generalizing p with
  | nil => exact hlast
  | cons x xs ih =>
    obtain ⟨hfirst, hsize, hrest⟩ := hc
    obtain ⟨hx, hxs'⟩ := List.nodup_cons.mp hxs
    rw [lastLink_cons] at hlast hnext hlinks
    obtain ⟨hlx, hlxs⟩ := List.forall_mem_cons.mp hlinks
    have hne : p ≠ lastLink (.at x.addr) xs := by
      rcases @lastLink_mem (.at x.addr) xs with heq | ⟨y, hy, heq⟩
      · rw [heq]
        exact (hp x List.mem_cons_self).symm
      · rw [heq]
        exact (hp y (List.mem_cons_of_mem x hy)).symm
    refine ⟨(hnext hne).trans hfirst, hlx.1.trans hsize, ?_⟩
    refine ih hrest (fun y hy heq => hx ?_) hxs' hlast hlx.2 hlxs
    rw [← BlockPtr.at.inj heq]
    exact List.mem_map_of_mem hy

/-! ### one link -/

theorem setLink_self (h : Heap) (p : BlockPtr) (l : BlockLink) : (h.setLink p l).link p = l := by
  unfold setLink
  exact Function.update_self p l h.link

theorem setLink_of_ne (h : Heap) (l : BlockLink) (hne : q ≠ p) :
    (h.setLink p l).link q = h.link q := by
  unfold setLink
  exact Function.update_of_ne hne l h.link

theorem setLink_setLink (h : Heap) (p : BlockPtr) (l m : BlockLink) :
    (h.setLink p l).setLink p m = h.setLink p m := by
  unfold setLink
  simp only [Function.update_idem]

/-! ### the loops -/

theorem insertPosition_spec (hc : h.Chain p (xs ++ ys) e) (hxs : ∀ x ∈ xs, x.addr < a)
    (hys : ¬ firstAddr ys e < a) {n : Nat} (hn : xs.length < n) :
    h.insertPosition a n p = some (lastLink p xs) := by
  induction xs generalizing p n with
  | nil =>
    obtain ⟨n, rfl⟩ := Nat.exists_eq_add_one_of_ne_zero (Nat.ne_of_gt hn)
    unfold insertPosition
    rw [hc.next_eq]
    exact if_neg hys
  | cons x xs ih =>
    obtain ⟨n, rfl⟩ := Nat.exists_eq_add_one_of_ne_zero (Nat.ne_zero_of_lt hn)
    obtain ⟨hnext, _, hrest⟩ := hc
    obtain ⟨hx, hxs'⟩ := List.forall_mem_cons.mp hxs
    unfold insertPosition
    rw [hnext, lastLink_cons]
    show (if x.addr < a then _ else _) = _
    rw [if_pos hx]
    exact ih hrest hxs' (by simpa using hn)

theorem findBlock_spec {w : Nat} (hc : h.Chain p xs e) (he : h.link (.at e) = ⟨none, 0⟩)
    (hw : 0 < w) {n : Nat} (hn : xs.length < n) :
    h.findBlock w n p (firstAddr xs e) = some (lastLink p (xs.takeWhile fun x => x.size < w),
      firstAddr (xs.dropWhile fun x => x.size < w) e) := by
  induction xs generalizing p n with
  | nil =>
    obtain ⟨n, rfl⟩ := Nat.exists_eq_add_one_of_ne_zero (Nat.ne_of_gt hn)
    have hsize : h.size (.at e) < w := by
      unfold Heap.size
      rw [he]
      exact hw
    have hnext : h.next (.at e) = none := by
      unfold Heap.next
      rw [he]
    show h.findBlock w (n + 1) p e = some (p, e)
    unfold findBlock
    rw [if_pos hsize, hnext]
  | cons x xs ih =>
    obtain ⟨n, rfl⟩ := Nat.exists_eq_add_one_of_ne_zero (Nat.ne_zero_of_lt hn)
    obtain ⟨_, hsize, hrest⟩ := hc
    show h.findBlock w (n + 1) p x.addr = _
    unfold findBlock
    rw [hsize, List.takeWhile_cons, List.dropWhile_cons]
    by_cases hx : x.size < w
    · rw [if_pos hx, hrest.next_eq, if_pos (decide_eq_true hx), if_pos (decide_eq_true hx),
        lastLink_cons]
      exact ih hrest (by simpa using hn)
    · rw [if_neg hx, if_neg (by simpa using hx), if_neg (by simpa using hx)]
      rfl

/-! ### an insertion -/

/-- what an operation leaves alone: the variables, and the links outside of `S` -/
structure Leaves (h k : Heap) (S : Nat → Prop) : Prop where
  pxEnd : k.pxEnd = h.pxEnd
  remaining : k.xFreeBytesRemaining = h.xFreeBytesRemaining
  least : k.xMinimumEverFreeBytesRemaining = h.xMinimumEverFreeBytesRemaining
  start : k.size .xStart = h.size .xStart
  link : ∀ c, ¬ S c → k.link (.at c) = h.link (.at c)

theorem Leaves.mono {S T : Nat → Prop} (hk : Leaves h k S) (hST : ∀ c, S c → T c) :
    Leaves h k T where
  pxEnd := hk.pxEnd
  remaining := hk.remaining
  least := hk.least
  start := hk.start
  link c hc := hk.link c fun h => hc (hST c h)

/-- the second half of an insertion: `p` is linked with what is behind it -/
theorem mergeBehind_eq {s : Nat} {zs : List Extent} (hend : h.pxEnd = some e)
    (hys : h.Chain p ys e) (hlt : ∀ y ∈ ys, y.addr < e) (hsize : h.size (.at a) = x.size)
    (hglue : Extents.glue ⟨a, x.size⟩ ys = ⟨a, s⟩ :: zs) :
    h.mergeBehind p (.at a) = h.setLink (.at a) ⟨some (firstAddr zs e), s⟩ := by
  have hnext (q : Option Nat) (hs : x.size = s) : h.setNext (.at a) q = h.setLink (.at a) ⟨q, s⟩ := by
    unfold setNext
    rw [← hs, ← hsize]
    rfl
  unfold mergeBehind
  rw [hys.next_eq]
  show (if a + h.size (.at a) == firstAddr ys e then _ else _) = _
  cases ys with
  | nil =>
    obtain ⟨hx, rfl⟩ := List.cons.inj hglue
    have hs : x.size = s := congrArg Extent.size hx
    rw [hsize]
    split
    · rw [if_neg (by rw [hend]; exact not_not_intro rfl), hend]
      exact hnext _ hs
    · exact hnext _ hs
  | cons y ys =>
    obtain ⟨_, hysize, hrest⟩ := hys
    rw [Extents.glue_cons] at hglue
    have hy : some y.addr ≠ h.pxEnd := by
      rw [hend]
      exact fun heq => Nat.ne_of_lt (hlt y List.mem_cons_self) (Option.some.inj heq)
    show (if a + h.size (.at a) == y.addr then if some y.addr ≠ h.pxEnd then
      h.setLink (.at a) ⟨h.next (.at y.addr), h.size (.at a) + h.size (.at y.addr)⟩ else _
      else h.setNext (.at a) (some y.addr)) = _
    by_cases htouch : a + x.size = y.addr
    · rw [if_pos (show (⟨a, x.size⟩ : Extent).stop = y.addr from htouch)] at hglue
      obtain ⟨hx, rfl⟩ := List.cons.inj hglue
      have hs : x.size + y.size = s := congrArg Extent.size hx
      rw [hsize, if_pos (beq_iff_eq.mpr htouch), if_pos hy, hrest.next_eq, hysize, hs]
    · rw [if_neg (show ¬ (⟨a, x.size⟩ : Extent).stop = y.addr from htouch)] at hglue
      obtain ⟨hx, rfl⟩ := List.cons.inj hglue
      have hs : x.size = s := congrArg Extent.size hx
      rw [hsize, if_neg (fun heq => htouch (beq_iff_eq.mp heq))]
      exact hnext _ hs

/-- a block that does not touch the one in front -/
theorem insert_apart {s t : Nat} {zs : List Extent} (hend : h.pxEnd = some e)
    (hc : h.Chain .xStart (xs ++ ys) e) (hsep : Extents.Separated (xs ++ ys))
    (hxs : ∀ x ∈ xs, x.addr < a) (hys : ∀ y ∈ ys, a < y.addr ∧ y.addr < e)
    (hsize : h.size (.at a) = s) (hglue : Extents.glue ⟨a, s⟩ ys = ⟨a, t⟩ :: zs) (hzs : zs <:+ ys) :
    let k := (h.mergeBehind (lastLink .xStart xs) (.at a)).setNext (lastLink .xStart xs) (some a)
    k.Chain .xStart (xs ++ ⟨a, t⟩ :: zs) e ∧
      Leaves h k fun c => c = a ∨ ∃ x ∈ xs, x.addr = c := by
  intro k
  obtain ⟨hcx, hcy⟩ := chain_append.mp hc
  have hne : lastLink .xStart xs ≠ .at a := lastLink_ne fun x hx => Nat.ne_of_lt (hxs x hx)
  have hmerge : h.mergeBehind (lastLink .xStart xs) (.at a) =
      h.setLink (.at a) ⟨some (firstAddr zs e), t⟩ :=
    mergeBehind_eq (x := ⟨a, s⟩) hend hcy (fun y hy => (hys y hy).2) hsize hglue
  -- the three kinds of links
  have ha : k.link (.at a) = ⟨some (firstAddr zs e), t⟩ := by
    show (Heap.setNext _ _ _).link _ = _
    rw [hmerge, setNext, setLink_of_ne _ _ hne.symm, setLink_self]
  have hlast : k.link (lastLink .xStart xs) =
      ⟨some a, h.size (lastLink .xStart xs)⟩ := by
    show (Heap.setNext _ _ _).link _ = _
    rw [hmerge, setNext, setLink_self, setLink_of_ne _ _ hne]
    rfl
  have hother (q : BlockPtr) (hqa : q ≠ .at a) (hq : q ≠ lastLink .xStart xs) :
      k.link q = h.link q := by
    show (Heap.setNext _ _ _).link _ = _
    rw [hmerge, setNext, setLink_of_ne _ _ hq, setLink_of_ne _ _ hqa]
  have hsizes (q : BlockPtr) (hqa : q ≠ .at a) : k.size q = h.size q := by
    unfold Heap.size
    by_cases hq : q = lastLink .xStart xs
    · rw [hq, hlast]
      rfl
    · rw [hother q hqa hq]
  have hnexts (q : BlockPtr) (hqa : q ≠ .at a) (hq : q ≠ lastLink .xStart xs) :
      k.next q = h.next q := by
    unfold Heap.next
    rw [hother q hqa hq]
  have hxa (x : Extent) (hx : x ∈ xs) : BlockPtr.at x.addr ≠ .at a :=
    fun heq => Nat.ne_of_lt (hxs x hx) (BlockPtr.at.inj heq)
  constructor
  · refine chain_append.mpr ⟨?_, ?_, ?_, ?_⟩
    · refine hcx.relink (fun _ _ => BlockPtr.noConfusion)
        (hsep.sublist (List.sublist_append_left xs ys)).nodup ?_
        (fun hq => hnexts _ BlockPtr.noConfusion hq) fun x hx => ?_
      · unfold Heap.next
        rw [hlast]
        rfl
      · exact ⟨hsizes _ (hxa x hx), hnexts _ (hxa x hx)⟩
    · unfold Heap.next
      rw [hlast]
    · unfold Heap.size
      rw [ha]
    · obtain ⟨ws, rfl⟩ := hzs
      obtain ⟨_, hcz⟩ := chain_append.mp hcy
      refine hcz.move ?_ fun z hz => ?_
      · unfold Heap.next
        rw [ha]
      · have hza := (hys z (List.mem_append_right ws hz)).1
        refine hother _ (fun heq => Nat.ne_of_gt hza (BlockPtr.at.inj heq)) ?_
        exact (lastLink_ne fun x hx => Nat.ne_of_lt ((hxs x hx).trans hza)).symm
  · refine ⟨?_, ?_, ?_, hsizes _ BlockPtr.noConfusion, fun c hc => ?_⟩
    · show (Heap.setNext _ _ _).pxEnd = _
      rw [hmerge]
      rfl
    · show (Heap.setNext _ _ _).xFreeBytesRemaining = _
      rw [hmerge]
      rfl
    · show (Heap.setNext _ _ _).xMinimumEverFreeBytesRemaining = _
      rw [hmerge]
      rfl
    · refine hother _ (fun heq => hc (.inl (BlockPtr.at.inj heq))) ?_
      exact (lastLink_ne fun x hx hxc => hc (.inr ⟨x, hx, hxc⟩)).symm

/-- a block that touches the one in front -/
theorem insert_touching {s t : Nat} {zs : List Extent} (hend : h.pxEnd = some e)
    (hc : h.Chain .xStart (xs ++ x :: ys) e) (hsep : Extents.Separated (xs ++ x :: ys))
    (hys : ∀ y ∈ ys, y.addr < e)
    (hglue : Extents.glue ⟨x.addr, x.size + s⟩ ys = ⟨x.addr, t⟩ :: zs) (hzs : zs <:+ ys) :
    let k := (h.setSize (.at x.addr) (x.size + s)).mergeBehind (.at x.addr) (.at x.addr)
    k.Chain .xStart (xs ++ ⟨x.addr, t⟩ :: zs) e ∧ Leaves h k fun c => c = x.addr := by
  intro k
  obtain ⟨hcx, hnext, _, hcy⟩ := chain_append.mp hc
  have hnodup := hsep.nodup
  rw [List.map_append, List.map_cons, List.nodup_append] at hnodup
  obtain ⟨_, htail, hdisjoint⟩ := hnodup
  have hxs (w : Extent) (hw : w ∈ xs) : BlockPtr.at w.addr ≠ .at x.addr := fun heq =>
    hdisjoint _ (List.mem_map_of_mem hw) _ List.mem_cons_self (BlockPtr.at.inj heq)
  have hyx (y : Extent) (hy : y ∈ ys) : BlockPtr.at y.addr ≠ .at x.addr := fun heq =>
    (List.nodup_cons.mp htail).1 (BlockPtr.at.inj heq ▸ List.mem_map_of_mem hy)
  have hcy' : (h.setSize (.at x.addr) (x.size + s)).Chain (.at x.addr) ys e := by
    refine hcy.move ?_ fun y hy => setLink_of_ne _ _ (hyx y hy)
    unfold Heap.next setSize
    rw [setLink_self]
    exact hcy.next_eq
  have hk : k = h.setLink (.at x.addr) ⟨some (firstAddr zs e), t⟩ := by
    have hsize : (h.setSize (.at x.addr) (x.size + s)).size (.at x.addr) = x.size + s := by
      unfold Heap.size setSize
      rw [setLink_self]
    have hend' : (h.setSize (.at x.addr) (x.size + s)).pxEnd = some e := hend
    have hmerge := mergeBehind_eq (x := ⟨x.addr, x.size + s⟩) hend' hcy' hys hsize hglue
    exact hmerge.trans (setLink_setLink h _ _ _)
  have hother (q : BlockPtr) (hq : q ≠ .at x.addr) : k.link q = h.link q := by
    rw [hk, setLink_of_ne _ _ hq]
  constructor
  · refine chain_append.mpr ⟨hcx.move ?_ fun w hw => hother _ (hxs w hw), ?_, ?_, ?_⟩
    · unfold Heap.next
      rw [hother _ BlockPtr.noConfusion]
      exact hcx.next_eq
    · have hlast : lastLink .xStart xs ≠ .at x.addr :=
        lastLink_ne fun w hw heq => hxs w hw (congrArg _ heq)
      unfold Heap.next
      rw [hother _ hlast]
      exact hnext
    · unfold Heap.size
      rw [hk, setLink_self]
    · obtain ⟨ws, rfl⟩ := hzs
      obtain ⟨_, hcz⟩ := chain_append.mp hcy
      refine hcz.move ?_ fun z hz => hother _ (hyx z (List.mem_append_right ws hz))
      unfold Heap.next
      rw [hk, setLink_self]
  · have hsame : k.pxEnd = h.pxEnd ∧ k.xFreeBytesRemaining = h.xFreeBytesRemaining ∧
        k.xMinimumEverFreeBytesRemaining = h.xMinimumEverFreeBytesRemaining := by
      rw [hk]
      exact ⟨rfl, rfl, rfl⟩
    refine ⟨hsame.1, hsame.2.1, hsame.2.2, ?_, fun c hc => ?_⟩
    · unfold Heap.size
      rw [hother _ BlockPtr.noConfusion]
    · exact hother _ fun heq => hc (BlockPtr.at.inj heq)

/-- the first half, if the block in front is not touched -/
theorem mergeFront_apart (hc : h.Chain .xStart (xs ++ ys) e) (hxs : ∀ x ∈ xs, x.stop ≠ a) :
    h.mergeFront (lastLink .xStart xs) a = (h, .at a) := by
  unfold mergeFront
  rw [if_neg]
  rcases List.eq_nil_or_concat xs with rfl | ⟨ws, x, rfl⟩
  · exact Bool.false_ne_true
  · rw [List.concat_eq_append] at hc hxs ⊢
    rw [List.append_assoc, List.singleton_append] at hc
    have hsize : h.size (.at x.addr) = x.size := (chain_append.mp hc).2.2.1
    rw [lastLink_concat, hsize]
    exact fun heq => hxs x (List.mem_append_right ws List.mem_cons_self) (beq_iff_eq.mp heq)

/-- the first half, if it is -/
theorem mergeFront_touching {s : Nat} (hxsize : h.size (.at x.addr) = x.size)
    (hsize : h.size (.at a) = s) (hx : x.stop = a) :
    h.mergeFront (.at x.addr) a = (h.setSize (.at x.addr) (x.size + s), .at x.addr) := by
  have hreach : reaches (.at x.addr) x.size a = true := beq_iff_eq.mpr hx
  unfold mergeFront
  rw [hxsize, hsize, if_pos hreach]

/-- **`prvInsertBlockIntoFreeList`** -/
theorem insert_spec {s : Nat} (hend : h.pxEnd = some e) (hc : h.Chain .xStart xs e)
    (hsep : Extents.Separated xs) (hs : 0 < s) (hsize : h.size (.at a) = s)
    (hapart : ∀ x ∈ xs, (⟨a, s⟩ : Extent).Apart x) (hstop : a + s ≤ e) (hxs : ∀ x ∈ xs, x.stop ≤ e)
    (hlen : xs.length < fuel) : ∃ k, h.prvInsertBlockIntoFreeList a = some k ∧
      k.Chain .xStart (Extents.insert ⟨a, s⟩ xs) e ∧
      Leaves h k fun c => c = a ∨ ∃ x ∈ xs, x.addr = c := by
  obtain ⟨ys, zs, rfl, hys, hzs⟩ := hsep.split a
  have hlt (x : Extent) (hx : x ∈ ys ++ zs) : x.addr < e := by
    have h1 := hsep.pos x hx
    have h2 := hxs x hx
    have h3 := x.stop_eq
    omega
  have hbehind (z : Extent) (hz : z ∈ zs) : a < z.addr := by
    have h1 := hsep.pos z (List.mem_append_right ys hz)
    have h2 := hzs z hz
    have h3 := z.stop_eq
    rcases hapart z (List.mem_append_right ys hz) with h | h
    · have h : a + s ≤ z.addr := h
      omega
    · have h : z.stop ≤ a := h
      omega
  have hfirst : ¬ firstAddr zs e < a := by
    cases zs with
    | nil =>
      show ¬ e < a
      omega
    | cons z zs => exact Nat.not_lt.mpr (hzs z List.mem_cons_self)
  have hpos := insertPosition_spec hc hys hfirst
    (Nat.lt_of_le_of_lt (List.sublist_append_left ys zs).length_le hlen)
  unfold prvInsertBlockIntoFreeList
  rw [hpos, Option.map_some]
  -- does the block in front touch?
  by_cases htouch : ∃ ws x, ys = ws ++ [x] ∧ x.stop = a
  · obtain ⟨ws, x, rfl, hx⟩ := htouch
    have hxa := hys x (List.mem_append_right ws List.mem_cons_self)
    rw [List.append_assoc, List.singleton_append] at hc hsep hlt
    obtain ⟨t, us, hglue, hus⟩ := Extents.glue_eq ⟨x.addr, x.size + s⟩ zs
    obtain ⟨hchain, hleaves⟩ := insert_touching hend hc hsep
      (fun z hz => hlt z (List.mem_append_right ws (List.mem_cons_of_mem x hz))) hglue hus
    have hins := hsep.insert_behind (b := ⟨a, s⟩)
      (fun w hw => hys w (List.mem_append_left _ hw)) hxa hx
    rw [hglue] at hins
    rw [List.append_assoc, List.singleton_append, hins, lastLink_concat,
      mergeFront_touching (chain_append.mp hc).2.2.1 hsize hx]
    refine ⟨_, congrArg some (if_neg (not_not_intro rfl)), hchain, hleaves.mono fun c hcx => ?_⟩
    exact .inr ⟨x, List.mem_append_right ws List.mem_cons_self, hcx.symm⟩
  · obtain ⟨t, us, hglue, hus⟩ := Extents.glue_eq ⟨a, s⟩ zs
    have hne (x : Extent) (hx : x ∈ ys) : x.stop ≠ a :=
      (hsep.sublist (List.sublist_append_left ys zs)).stop_ne hys
        (fun ws x heq hx => htouch ⟨ws, x, heq, hx⟩) hx
    have hins : Extents.insert ⟨a, s⟩ (ys ++ zs) = ys ++ ⟨a, t⟩ :: us := by
      rw [Extents.insert_append fun x hx => ⟨hys x hx, hne x hx⟩, Extents.insert_front, hglue]
      exact fun z hz => hzs z (List.mem_of_mem_head? hz)
    obtain ⟨hchain, hleaves⟩ := insert_apart hend hc hsep hys
      (fun z hz => ⟨hbehind z hz, hlt z (List.mem_append_right ys hz)⟩) hsize hglue hus
    have hlast : lastLink .xStart ys ≠ .at a := lastLink_ne fun x hx => Nat.ne_of_lt (hys x hx)
    rw [hins, mergeFront_apart hc hne]
    refine ⟨_, congrArg some (if_pos hlast), hchain, hleaves.mono fun c hcx => ?_⟩
    exact hcx.imp id fun ⟨x, hx, hxc⟩ => ⟨x, List.mem_append_left zs hx, hxc⟩

/-! ### an allocation -/

theorem Leaves.trans {l : Heap} {S T : Nat → Prop} (hk : Leaves h k S) (hl : Leaves k l T) :
    Leaves h l fun c => S c ∨ T c where
  pxEnd := hl.pxEnd.trans hk.pxEnd
  remaining := hl.remaining.trans hk.remaining
  least := hl.least.trans hk.least
  start := hl.start.trans hk.start
  link c hc := (hl.link c fun h => hc (.inr h)).trans (hk.link c fun h => hc (.inl h))

theorem setSize_leaves (h : Heap) (a s : Nat) : Leaves h (h.setSize (.at a) s) fun c => c = a where
  pxEnd := rfl
  remaining := rfl
  least := rfl
  start := congrArg _ (setLink_of_ne h _ BlockPtr.noConfusion)
  link _ hc := setLink_of_ne h _ fun heq => hc (BlockPtr.at.inj heq)

theorem setSize_self (h : Heap) (p : BlockPtr) (s : Nat) : (h.setSize p s).size p = s := by
  unfold Heap.size setSize
  rw [setLink_self]

/-- the list does not see other links -/
theorem Leaves.chain {S : Nat → Prop} (hk : Leaves h k S) (hnext : k.next .xStart = h.next .xStart)
    (hc : h.Chain .xStart xs e) (hxs : ∀ x ∈ xs, ¬ S x.addr) : k.Chain .xStart xs e :=
  hc.move (hnext.trans hc.next_eq) fun x hx => hk.link _ (hxs x hx)

/-- a block is taken out of the list -/
theorem unlink_spec (hc : h.Chain .xStart (xs ++ x :: ys) e)
    (hsep : Extents.Separated (xs ++ x :: ys)) :
    let k := h.setNext (lastLink .xStart xs) (h.next (.at x.addr))
    k.Chain .xStart (xs ++ ys) e ∧ k.size (.at x.addr) = x.size ∧
      Leaves h k fun c => ∃ w ∈ xs, w.addr = c := by
  intro k
  obtain ⟨hcx, _, hxsize, hcy⟩ := chain_append.mp hc
  have hnodup := hsep.nodup
  rw [List.map_append, List.nodup_append] at hnodup
  obtain ⟨hxs, _, hdisjoint⟩ := hnodup
  have hlast : k.next (lastLink .xStart xs) = some (firstAddr ys e) := by
    show ((h.setLink _ _).link _).pxNextFreeBlock = _
    rw [setLink_self]
    exact hcy.next_eq
  have hother (q : BlockPtr) (hq : q ≠ lastLink .xStart xs) : k.link q = h.link q :=
    setLink_of_ne _ _ hq
  have hsizes (q : BlockPtr) : k.size q = h.size q := by
    unfold Heap.size
    by_cases hq : q = lastLink .xStart xs
    · rw [hq]
      show ((h.setLink _ _).link _).xBlockSize = _
      rw [setLink_self]
    · rw [hother q hq]
  have hbehind (y : Extent) (hy : y ∈ x :: ys) : BlockPtr.at y.addr ≠ lastLink .xStart xs :=
    (lastLink_ne fun w hw =>
      hdisjoint _ (List.mem_map_of_mem hw) _ (List.mem_map_of_mem hy)).symm
  refine ⟨chain_append.mpr ⟨?_, ?_⟩, (hsizes _).trans hxsize, rfl, rfl, rfl, hsizes _,
    fun c hc => ?_⟩
  · refine hcx.relink (fun _ _ => BlockPtr.noConfusion) hxs hlast (fun hq => ?_) fun w _ =>
      ⟨hsizes _, fun hq => ?_⟩
    · exact congrArg _ (hother _ hq)
    · exact congrArg _ (hother _ hq)
  · exact hcy.move hlast fun y hy => hother _ (hbehind y (List.mem_cons_of_mem x hy))
  · exact hother _ (lastLink_ne fun w hw heq => hc ⟨w, hw, heq⟩).symm

/-- a block of the list becomes one of a task -/
theorem give_spec (hc : h.Chain .xStart xs e) (ha : ∀ x ∈ xs, x.addr ≠ a) :
    (h.give a).Chain .xStart xs e ∧
      (h.give a).link (.at a) = ⟨none, h.size (.at a) ||| xBlockAllocatedBit⟩ ∧
      (h.give a).size .xStart = h.size .xStart ∧
      ∀ c, c ≠ a → (h.give a).link (.at c) = h.link (.at c) := by
  have hother (q : BlockPtr) (hq : q ≠ .at a) : (h.give a).link q = h.link q :=
    setLink_of_ne _ _ hq
  refine ⟨hc.move ?_ fun x hx => ?_, setLink_self _ _ _, ?_, fun c hc => ?_⟩
  · unfold Heap.next
    rw [hother _ BlockPtr.noConfusion]
    exact hc.next_eq
  · exact hother _ fun heq => ha x hx (BlockPtr.at.inj heq)
  · exact congrArg _ (hother _ BlockPtr.noConfusion)
  · exact hother _ fun heq => hc (BlockPtr.at.inj heq)

end

/-! ## the heap as a tiling -/

/-- the address of the first block, after `prvHeapInit` -/
def heapStart (ucHeap : Nat) : Nat := alignUp ucHeap

/-- the address of the last link -/
def heapStop (ucHeap : Nat) : Nat :=
  alignDown (alignUp ucHeap + (configTotalHeapSize - (alignUp ucHeap - ucHeap)) - xHeapStructSize)

theorem heap_bounds (ucHeap : Nat) : 8 ∣ heapStart ucHeap ∧ 8 ∣ heapStop ucHeap ∧
    ucHeap ≤ heapStart ucHeap ∧ heapStart ucHeap < heapStop ucHeap ∧
    heapStop ucHeap + xHeapStructSize ≤ ucHeap + configTotalHeapSize := by
  unfold heapStart heapStop alignUp alignDown portByteAlignment xHeapStructSize configTotalHeapSize
  omega

/-- the memory holds the blocks `xs` as the free ones -/
structure Holds (h : Heap) (e : Nat) (xs : List Extent) : Prop where
  pxEnd : h.pxEnd = some e
  start : h.size .xStart = 0
  ended : h.link (.at e) = ⟨none, 0⟩
  chain : h.Chain .xStart xs e
  remaining : h.xFreeBytesRemaining = Extents.total xs

section
variable {h : Heap} {lo e : Nat} {xs ys : List Extent} {w : Nat}

/-- what a successful allocation of `w` bytes for `x` leaves, with `xs` still free -/
structure Allocated (h k : Heap) (lo e w : Nat) (x : Extent) (xs ys : List Extent) : Prop where
  enough : w ≤ x.size
  holds : Holds k e xs
  tiles : Extents.Tiles 8 lo e xs (x :: ys)
  marked : k.link (.at x.addr) = ⟨none, x.size ||| xBlockAllocatedBit⟩
  least : k.xMinimumEverFreeBytesRemaining =
    min h.xMinimumEverFreeBytesRemaining k.xFreeBytesRemaining
  others : ∀ y ∈ ys, ∀ c, y.Has c → k.link (.at c) = h.link (.at c)

/-- the end of an allocation, of the block at `x` -/
theorem allocated_give {k : Heap} {x : Extent} (hholds : Holds h e xs) (hw : w ≤ x.size)
    (hk : k.Chain .xStart ys e) (hxs : Extents.total ys + x.size = Extents.total xs)
    {zs : List Extent} (htiles : Extents.Tiles 8 lo e ys (x :: zs))
    (hxsize : k.size (.at x.addr) = x.size)
    {S : Nat → Prop} (hleaves : Leaves h k S) (hS : ∀ z ∈ zs, ∀ c, z.Has c → ¬ S c)
    (hend : ¬ S e) : Allocated h (k.give x.addr) lo e w x ys zs := by
  have hx := List.mem_append_right ys (List.mem_cons_self : x ∈ x :: zs)
  have hxe := (htiles.inside x hx).2
  have hxpos := htiles.pos x List.mem_cons_self
  have hxs' := x.stop_eq
  have hxhas : x.Has x.addr := ⟨Nat.le_refl _, by omega⟩
  obtain ⟨hchain, hmark, hstart, hother⟩ := give_spec hk
    fun y hy => htiles.ne_of_has hy List.mem_cons_self hxhas
  have hleft : (k.give x.addr).xFreeBytesRemaining = Extents.total ys := by
    show k.xFreeBytesRemaining - k.size (.at x.addr) = _
    rw [hxsize, hleaves.remaining, hholds.remaining]
    omega
  refine ⟨hw, ⟨?_, ?_, ?_, hchain, hleft⟩, htiles, ?_, ?_, fun z hz c hc => ?_⟩
  · exact hleaves.pxEnd.trans hholds.pxEnd
  · exact hstart.trans (hleaves.start.trans hholds.start)
  · rw [hother e (by omega), hleaves.link e hend, hholds.ended]
  · rw [hmark, hxsize]
  · rw [← hleaves.least]
    show (if (k.give x.addr).xFreeBytesRemaining < k.xMinimumEverFreeBytesRemaining
      then (k.give x.addr).xFreeBytesRemaining else k.xMinimumEverFreeBytesRemaining) = _
    split <;> omega
  · have hne : x.addr ≠ c := by
      have hp : (x :: zs).Perm (z :: x :: zs.erase z) :=
        (List.Perm.cons x (List.perm_cons_erase hz)).trans (List.Perm.swap z x _)
      exact (htiles.perm hp).addr_ne hc (List.mem_append_right ys List.mem_cons_self)
    rw [hother c hne.symm, hleaves.link c (hS z hz c hc)]

/-- a block that is too large is split, and what is behind the first `w` bytes is free again -/
theorem split_spec {x : Extent} (hend : h.pxEnd = some e) (hc : h.Chain .xStart xs e)
    (htiles : Extents.Tiles 8 lo e xs (x :: ys)) (hsize : h.size (.at x.addr) = x.size) (hw : 0 < w)
    (hwx : w ≤ x.size) (hdvd : 8 ∣ w) (hlen : xs.length < fuel) :
    ∃ k s zs, h.split x.addr w = some k ∧ w ≤ s ∧ k.Chain .xStart zs e ∧
      Extents.Tiles 8 lo e zs (⟨x.addr, s⟩ :: ys) ∧ k.size (.at x.addr) = s ∧
      Leaves h k fun c => x.Has c ∨ ∃ u ∈ xs, u.addr = c := by
  have hxs := x.stop_eq
  have hxe := (htiles.inside x (List.mem_append_right xs List.mem_cons_self)).2
  unfold split
  rw [hsize]
  by_cases hroom : heapMinimumBlockSize < x.size - w
  · rw [if_pos hroom]
    have hlt : w < x.size := by
      unfold heapMinimumBlockSize at hroom
      omega
    -- the rest, and then the block, get their sizes
    have hcut := htiles.cut hw hlt hdvd
    have hrest := hcut.perm (List.Perm.swap _ _ ys)
    have hhas : (⟨x.addr + w, x.size - w⟩ : Extent).Has (x.addr + w) :=
      ⟨Nat.le_refl _, by show x.addr + w < x.addr + w + (x.size - w); omega⟩
    have hxhas : x.Has x.addr := ⟨Nat.le_refl _, by omega⟩
    have hleaves := (setSize_leaves h (x.addr + w) (x.size - w)).trans
      (setSize_leaves (h.setSize (.at (x.addr + w)) (x.size - w)) x.addr w)
    have hnew : ∀ u ∈ xs, ¬ (u.addr = x.addr + w ∨ u.addr = x.addr) := by
      rintro u hu (heq | heq)
      · exact hrest.ne_of_has hu List.mem_cons_self hhas heq
      · exact htiles.ne_of_has hu List.mem_cons_self hxhas heq
    have hchain := hleaves.chain (congrArg _ ((setLink_of_ne _ _ BlockPtr.noConfusion).trans
      (setLink_of_ne _ _ BlockPtr.noConfusion))) hc hnew
    have hne : BlockPtr.at (x.addr + w) ≠ .at x.addr := fun heq => by
      have := BlockPtr.at.inj heq
      omega
    have hnewsize : ((h.setSize (.at (x.addr + w)) (x.size - w)).setSize (.at x.addr) w).size
        (.at (x.addr + w)) = x.size - w := by
      unfold Heap.size
      rw [setSize, setLink_of_ne _ _ hne]
      exact setSize_self h _ _
    obtain ⟨hapart, _⟩ := List.pairwise_cons.mp (Extents.apart_perm List.perm_middle hrest.apart)
    obtain ⟨k, hk, hkchain, hkleaves⟩ := insert_spec (hleaves.pxEnd.trans hend) hchain
      htiles.separated (Nat.sub_pos_of_lt hlt) hnewsize
      (fun u hu => hapart u (List.mem_append_left _ hu)) (by omega)
      (fun u hu => (htiles.inside u (List.mem_append_left _ hu)).2) hlen
    have hxlink := hkleaves.link x.addr (by
      rintro (heq | ⟨u, hu, heq⟩)
      · exact hne (congrArg _ heq.symm)
      · exact hnew u hu (.inr heq))
    refine ⟨k, w, _, hk, Nat.le_refl w, hkchain, hrest.release, ?_, (hleaves.trans hkleaves).mono ?_⟩
    · unfold Heap.size
      rw [hxlink]
      exact setSize_self _ _ _
    · rintro c ((rfl | rfl) | rfl | hu)
      · exact .inl ⟨Nat.le_add_right _ _, by omega⟩
      · exact .inl hxhas
      · exact .inl ⟨Nat.le_add_right _ _, by omega⟩
      · exact .inr hu
  · rw [if_neg hroom]
    exact ⟨h, x.size, xs, rfl, hwx, hc, htiles, hsize, rfl, rfl, rfl, rfl, fun _ _ => rfl⟩

/-- the loop comes to `pxEnd` -/
theorem allocate_null (hholds : Holds h e xs) (hw : 0 < w) (hlen : xs.length < fuel)
    (hall : ∀ x ∈ xs, x.size < w) : h.allocate w = some (h, none) := by
  have hfind := findBlock_spec hholds.chain hholds.ended hw hlen
  have hdrop : xs.dropWhile (fun x => decide (x.size < w)) = [] :=
    List.dropWhile_eq_nil_iff.mpr fun x hx => decide_eq_true (hall x hx)
  have hend : ¬ some e ≠ h.pxEnd := not_not_intro hholds.pxEnd.symm
  unfold allocate
  split
  · rw [hholds.chain.next_eq]
    show (Option.bind (h.findBlock w fuel .xStart (firstAddr xs e)) _) = _
    rw [hfind, hdrop, Option.bind_some]
    show (if some e ≠ h.pxEnd then _ else _) = _
    rw [if_neg hend]
  · rfl

/-- the loop stops at the first block that is large enough -/
theorem allocate_taken {x : Extent} {vs zs : List Extent} (hholds : Holds h e (vs ++ x :: zs))
    (hw : 0 < w) (hlen : (vs ++ x :: zs).length < fuel) (hvs : ∀ v ∈ vs, v.size < w)
    (hwx : w ≤ x.size) (hxe : x.addr < e) : h.allocate w =
      ((h.setNext (lastLink .xStart vs) (h.next (.at x.addr))).split x.addr w).map fun k =>
        (k.give x.addr, some (x.addr + xHeapStructSize)) := by
  have hfind := findBlock_spec hholds.chain hholds.ended hw hlen
  have hpass (v : Extent) (hv : v ∈ vs) : decide (v.size < w) = true := decide_eq_true (hvs v hv)
  have hstop : ¬ decide (x.size < w) = true := by
    rw [decide_eq_true_eq]
    exact Nat.not_lt.mpr hwx
  rw [List.takeWhile_append_of_pos hpass, List.dropWhile_append_of_pos hpass, List.takeWhile_cons,
    List.dropWhile_cons, if_neg hstop, if_neg hstop, List.append_nil] at hfind
  have hroom : 0 < w ∧ w ≤ h.xFreeBytesRemaining := by
    rw [hholds.remaining, Extents.total_append, Extents.total_cons]
    exact ⟨hw, by omega⟩
  have hnotend : some x.addr ≠ h.pxEnd := by
    rw [hholds.pxEnd]
    exact fun heq => Nat.ne_of_lt hxe (Option.some.inj heq)
  have hreturn : (h.next (lastLink .xStart vs)).map (· + xHeapStructSize) =
      some (x.addr + xHeapStructSize) := by
    rw [(chain_append.mp hholds.chain).2.1, Option.map_some]
  unfold allocate
  rw [if_pos hroom, hholds.chain.next_eq]
  show (Option.bind (h.findBlock w fuel .xStart (firstAddr (vs ++ x :: zs) e)) _) = _
  rw [hfind, Option.bind_some]
  show (if some x.addr ≠ h.pxEnd then _ else _) = _
  rw [if_pos hnotend, hreturn]
  rfl

/-- **`pvPortMalloc`** -/
theorem allocate_spec (hholds : Holds h e xs) (htiles : Extents.Tiles 8 lo e xs ys) (hw : 0 < w)
    (hdvd : 8 ∣ w) (hlen : e - lo < fuel) :
    ((∀ x ∈ xs, x.size < w) ∧ h.allocate w = some (h, none)) ∨
      (∃ x ∈ xs, w ≤ x.size) ∧
        ∃ k x zs, h.allocate w = some (k, some (x.addr + xHeapStructSize)) ∧
          Allocated h k lo e w x zs ys := by
  have hlen' := Nat.lt_of_le_of_lt htiles.length_le hlen
  cases hfirst : xs.find? fun x => decide (w ≤ x.size) with
  | none =>
    have hall (x : Extent) (hx : x ∈ xs) : x.size < w := by
      have hx := List.find?_eq_none.mp hfirst x hx
      rw [decide_eq_true_eq] at hx
      exact Nat.not_le.mp hx
    exact .inl ⟨hall, allocate_null hholds hw hlen' hall⟩
  | some x =>
    obtain ⟨hwx, vs, zs, rfl, hvs⟩ := List.find?_eq_some_iff_append.mp hfirst
    replace hwx : w ≤ x.size := of_decide_eq_true hwx
    replace hvs (v : Extent) (hv : v ∈ vs) : v.size < w := by
      have hv := hvs v hv
      rw [Bool.not_eq_true', decide_eq_false_iff_not] at hv
      exact Nat.not_le.mp hv
    have hxmem : x ∈ vs ++ x :: zs := List.mem_append_right vs List.mem_cons_self
    have hxe := htiles.addr_lt (List.mem_append_left ys hxmem)
    obtain ⟨hunlinked, hksize, hkleaves⟩ := unlink_spec hholds.chain htiles.separated
    have htaken := htiles.take
    obtain ⟨k, s, us, hsplit, hws, hkchain, hktiles, hks, hsleaves⟩ := split_spec
      (hkleaves.pxEnd.trans hholds.pxEnd) hunlinked htaken hksize hw hwx hdvd
      (Nat.lt_of_le_of_lt htaken.length_le hlen)
    have hsame : Extents.total us + s = Extents.total (vs ++ x :: zs) := by
      have h1 := hktiles.total
      have h2 := htiles.total
      rw [Extents.total_cons] at h1
      have h1 : Extents.total us + (s + Extents.total ys) = e - lo := h1
      omega
    refine .inr ⟨⟨x, hxmem, hwx⟩, k.give x.addr, ⟨x.addr, s⟩, us, ?_, ?_⟩
    · rw [allocate_taken hholds hw hlen' hvs hwx hxe, hsplit, Option.map_some]
    refine allocated_give hholds hws hkchain hsame hktiles hks (hkleaves.trans hsleaves) ?_ ?_
    · -- what is touched is `x`, or the link of a free block
      rintro y hy c hyc (⟨v, hv, hvc⟩ | hxc | ⟨u, hu, huc⟩)
      · exact htaken.ne_of_has (List.mem_append_left zs hv) (List.mem_cons_of_mem x hy) hyc hvc
      · have hxy := (List.pairwise_append.mp htiles.apart).2.2 x hxmem y hy
        exact hxy.not_has hxc hyc
      · exact htaken.ne_of_has hu (List.mem_cons_of_mem x hy) hyc huc
    · have hbelow (u : Extent) (hu : u ∈ vs ++ zs) : u.addr ≠ e :=
        Nat.ne_of_lt (htaken.addr_lt (List.mem_append_left _ hu))
      have hxstop := (htiles.inside x (List.mem_append_left ys hxmem)).2
      rintro (⟨v, hv, hve⟩ | hxe' | ⟨u, hu, hue⟩)
      · exact hbelow v (List.mem_append_left zs hv) hve
      · exact Nat.not_le.mpr hxe'.2 hxstop
      · exact hbelow u hu hue

/-! ### a block that is freed -/

theorem mark_bits {s : Nat} (hs : s < xBlockAllocatedBit) :
    (s ||| xBlockAllocatedBit) &&& xBlockAllocatedBit ≠ 0 ∧
      (s ||| xBlockAllocatedBit) &&& (xBlockAllocatedBit - 1) = s := by
  have hmod : s % 2^31 = s := Nat.mod_eq_of_lt hs
  constructor
  · have hbit : ((s ||| 2^31) &&& 2^31).testBit 31 = true := by
      rw [Nat.testBit_and, Nat.testBit_or, Nat.testBit_two_pow_self, Bool.or_true, Bool.and_true]
    intro h
    rw [show (s ||| 2^31) &&& 2^31 = 0 from h, Nat.zero_testBit] at hbit
    cases hbit
  · show (s ||| 2^31) &&& (2^31 - 1) = s
    rw [Nat.and_two_pow_sub_one_eq_mod, Nat.or_mod_two_pow, Nat.mod_self, Nat.or_zero, hmod]

theorem unmark_spec {pv s : Nat} (hlink : h.link (.at (pv - xHeapStructSize)) =
    ⟨none, s ||| xBlockAllocatedBit⟩) (hs : s < xBlockAllocatedBit) :
    h.unmark pv = some (h.setLink (.at (pv - xHeapStructSize)) ⟨none, s⟩) := by
  obtain ⟨hmark, hsize⟩ := mark_bits hs
  unfold unmark setSize Heap.size Heap.next
  dsimp only
  rw [hlink, if_pos ⟨hmark, rfl⟩, hsize]

theorem insertFreed_spec {y : Extent} (hholds : Holds h e xs)
    (htiles : Extents.Tiles 8 lo e xs (y :: ys)) (hlen : e - lo < fuel)
    (hlink : h.link (.at y.addr) = ⟨none, y.size⟩) :
    ∃ k, h.insertFreed (y.addr + xHeapStructSize) = some k ∧ Holds k e (Extents.insert y xs) ∧
      k.xFreeBytesRemaining = h.xFreeBytesRemaining + y.size ∧
      k.xMinimumEverFreeBytesRemaining = h.xMinimumEverFreeBytesRemaining ∧
      ∀ z ∈ ys, ∀ c, z.Has c → k.link (.at c) = h.link (.at c) := by
  obtain ⟨hend, hstart, hended, hchain, hremaining⟩ := hholds
  have hy := List.mem_append_right xs (List.mem_cons_self : y ∈ y :: ys)
  have hye := (htiles.inside y hy).2
  have hys := y.stop_eq
  have hypos := htiles.pos y List.mem_cons_self
  obtain ⟨hapart, _⟩ := List.pairwise_cons.mp (Extents.apart_perm List.perm_middle htiles.apart)
  have hsize : h.size (.at y.addr) = y.size := congrArg _ hlink
  let u := { h with xFreeBytesRemaining := h.xFreeBytesRemaining + h.size (.at y.addr) }
  have huchain : u.Chain .xStart xs e := hchain.move hchain.next_eq fun _ _ => rfl
  obtain ⟨k, hk, hkchain, hkleaves⟩ := insert_spec (h := u) hend huchain htiles.separated hypos hsize
    (fun x hx => hapart x (List.mem_append_left ys hx)) (by omega)
    (fun x hx => (htiles.inside x (List.mem_append_left _ hx)).2)
    (Nat.lt_of_le_of_lt htiles.length_le hlen)
  have hrem : k.xFreeBytesRemaining = h.xFreeBytesRemaining + y.size :=
    hkleaves.remaining.trans (congrArg _ hsize)
  refine ⟨k, hk, ⟨hkleaves.pxEnd.trans hend, hkleaves.start.trans hstart, ?_, hkchain, ?_⟩, hrem,
    hkleaves.least, fun z hz c hc => hkleaves.link c ?_⟩
  · refine (hkleaves.link e ?_).trans hended
    rintro (heq | ⟨x, hx, heq⟩)
    · omega
    · exact Nat.ne_of_lt (htiles.addr_lt (List.mem_append_left _ hx)) heq
  · rw [hrem, hremaining, Extents.total_insert, Nat.add_comm]
  · rintro (heq | ⟨x, hx, heq⟩)
    · have hyz := hapart z (List.mem_append_right xs hz)
      exact hyz.not_has ⟨Nat.le_of_eq heq.symm, by omega⟩ hc
    · exact htiles.ne_of_has hx (List.mem_cons_of_mem y hz) hc heq

/-! ### the first call -/

theorem prvHeapInit_spec (ucHeap : Nat) (h : Heap) :
    Holds (prvHeapInit ucHeap h) (heapStop ucHeap)
        [⟨heapStart ucHeap, heapStop ucHeap - heapStart ucHeap⟩] ∧
      Extents.Tiles 8 (heapStart ucHeap) (heapStop ucHeap)
        [⟨heapStart ucHeap, heapStop ucHeap - heapStart ucHeap⟩] [] := by
  obtain ⟨hstart, hstop, _, hlt, _⟩ := heap_bounds ucHeap
  have hne : BlockPtr.at (heapStop ucHeap) ≠ .at (heapStart ucHeap) :=
    fun heq => Nat.ne_of_gt hlt (BlockPtr.at.inj heq)
  constructor
  · have hfirst : (prvHeapInit ucHeap h).link (.at (heapStart ucHeap)) =
        ⟨some (heapStop ucHeap), heapStop ucHeap - heapStart ucHeap⟩ := setLink_self _ _ _
    have hlast : (prvHeapInit ucHeap h).link (.at (heapStop ucHeap)) = ⟨none, 0⟩ :=
      (setLink_of_ne _ _ hne).trans (setLink_self _ _ _)
    have hne1 : BlockPtr.xStart ≠ .at (heapStart ucHeap) := BlockPtr.noConfusion
    have hne2 : BlockPtr.xStart ≠ .at (heapStop ucHeap) := BlockPtr.noConfusion
    have hxStart : (prvHeapInit ucHeap h).link .xStart = ⟨some (heapStart ucHeap), 0⟩ := by
      show (((h.setLink .xStart ⟨some (heapStart ucHeap), 0⟩).setLink (.at (heapStop ucHeap))
        ⟨none, 0⟩).setLink (.at (heapStart ucHeap))
        ⟨some (heapStop ucHeap), heapStop ucHeap - heapStart ucHeap⟩).link .xStart = _
      rw [setLink_of_ne _ _ hne1, setLink_of_ne _ _ hne2, setLink_self]
    refine ⟨rfl, congrArg _ hxStart, hlast,
      ⟨congrArg _ hxStart, congrArg _ hfirst, congrArg _ hfirst⟩, ?_⟩
    exact (Nat.add_zero _).symm
  · refine ⟨?_, fun _ hy => absurd hy List.not_mem_nil, List.pairwise_singleton _ _, ?_, ?_,
      fun a h1 h2 => ?_, Nat.add_zero _⟩
    · exact Extents.separated_cons.mpr ⟨Nat.sub_pos_of_lt hlt, fun _ hy => absurd hy List.not_mem_nil,
        Extents.separated_nil⟩
    · refine List.forall_mem_singleton.mpr ⟨Nat.le_refl _, ?_⟩
      show heapStart ucHeap + (heapStop ucHeap - heapStart ucHeap) ≤ heapStop ucHeap
      omega
    · exact List.forall_mem_singleton.mpr ⟨hstart, Nat.dvd_sub hstop hstart⟩
    · refine ⟨_, List.mem_singleton_self _, h1, ?_⟩
      show a < heapStart ucHeap + (heapStop ucHeap - heapStart ucHeap)
      omega

theorem wanted_spec {n : UInt32} (hn : n &&& 0x80000000 = 0) :
    n.toNat < 2^31 ∧ (wantedSize n).toNat = if n = 0 then 0 else (n.toNat + 15) / 8 * 8 := by
  have hlt : n.toNat < 2^31 := by
    have hand := congrArg UInt32.toNat hn
    have hbit : n.toNat &&& 2^31 = 0 := by
      rw [UInt32.toNat_and] at hand
      exact hand
    have hnlt := n.toNat_lt
    rw [Nat.and_two_pow, Nat.testBit, Nat.shiftRight_eq_div_pow, Nat.one_and_eq_mod_two] at hbit
    by_contra hge
    have hone : n.toNat / 2^31 = 1 := by omega
    rw [hone] at hbit
    exact absurd hbit (by decide)
  refine ⟨hlt, ?_⟩
  by_cases hzero : n = 0
  · rw [if_pos hzero, hzero]
    rfl
  · have hpos : 0 < n.toNat := Nat.pos_of_ne_zero fun h => hzero (UInt32.toNat_inj.mp h)
    have hpos' : 0 < n := UInt32.lt_iff_toNat_lt.mpr hpos
    rw [if_neg hzero]
    unfold wantedSize
    rw [if_pos hpos']
    have hadd : (n + 8).toNat = n.toNat + 8 := by
      rw [UInt32.toNat_add]
      exact Nat.mod_eq_of_lt (by show n.toNat + 8 < 2^32; omega)
    have hmask : ((n + 8) &&& 7).toNat = (n.toNat + 8) % 8 := by
      rw [UInt32.toNat_and, hadd]
      exact Nat.and_two_pow_sub_one_eq_mod _ 3
    show (if (n + 8) &&& 7 ≠ 0 then n + 8 + (8 - ((n + 8) &&& 7)) else n + 8).toNat = _
    by_cases hal : (n + 8) &&& 7 = 0
    · rw [if_neg (not_not_intro hal), hadd]
      have hzero := congrArg UInt32.toNat hal
      rw [hmask] at hzero
      have hzero : (n.toNat + 8) % 8 = 0 := hzero
      omega
    · have hne : (n.toNat + 8) % 8 ≠ 0 := by
        rw [← hmask]
        exact fun h => hal (UInt32.toNat_inj.mp h)
      have hsub : (8 - ((n + 8) &&& 7)).toNat = 8 - (n.toNat + 8) % 8 := by
        rw [UInt32.toNat_sub_of_le, hmask]
        · rfl
        · rw [UInt32.le_iff_toNat_le, hmask]
          show _ ≤ 8
          omega
      rw [if_pos hal, UInt32.toNat_add, hadd, hsub]
      omega

end

end Heap

/-! ## runs -/

namespace HeapRun

/-- the blocks that are not free -/
def owned (r : HeapRun) : List Extent := (r.live ++ r.freeing).map Grant.extent

/-- the heap after the first lines of `pvPortMalloc` -/
def begun (ucHeap : Nat) (h : Heap) : Heap := if h.pxEnd = none then h.prvHeapInit ucHeap else h

/-- the invariant, once the heap is initialised; `xs` are the free blocks -/
structure Inv (ucHeap : Nat) (xs : List Extent) (r : HeapRun) : Prop where
  holds : Heap.Holds r.heap (Heap.heapStop ucHeap) xs
  tiles : Extents.Tiles 8 (Heap.heapStart ucHeap) (Heap.heapStop ucHeap) xs r.owned
  live : ∀ g ∈ r.live, r.heap.link (.at g.extent.addr) = ⟨none, g.size ||| xBlockAllocatedBit⟩
  freeing : ∀ g ∈ r.freeing, r.heap.link (.at g.extent.addr) = ⟨none, g.size⟩
  grants : ∀ g ∈ r.live ++ r.freeing,
    xHeapStructSize ≤ g.pv ∧ 0 < g.xWantedSize ∧ g.xWantedSize + xHeapStructSize ≤ g.size
  least : r.heap.xMinimumEverFreeBytesRemaining ≤ r.heap.xFreeBytesRemaining

section
variable {ucHeap : Nat} {r t : HeapRun} {xs : List Extent} {g : Grant}

theorem heap_small (ucHeap : Nat) : Heap.heapStop ucHeap - Heap.heapStart ucHeap < Heap.fuel := by
  obtain ⟨_, _, hlo, hlt, hhi⟩ := Heap.heap_bounds ucHeap
  show _ < configTotalHeapSize
  unfold xHeapStructSize at hhi
  omega

/-- the heap before the first allocation -/
theorem Inv.init (ucHeap : Nat) (link : BlockPtr → BlockLink) :
    Inv ucHeap [⟨Heap.heapStart ucHeap, Heap.heapStop ucHeap - Heap.heapStart ucHeap⟩]
      { HeapRun.init link with heap := HeapRun.begun ucHeap (HeapRun.init link).heap } where
  holds := (Heap.prvHeapInit_spec ucHeap (HeapRun.init link).heap).1
  tiles := (Heap.prvHeapInit_spec ucHeap (HeapRun.init link).heap).2
  live := fun _ h => absurd h List.not_mem_nil
  freeing := fun _ h => absurd h List.not_mem_nil
  grants := fun _ h => absurd h List.not_mem_nil
  least := Nat.le_refl _

/-- the size of a block that is not free -/
theorem Inv.size_lt (hr : Inv ucHeap xs r) (hg : g ∈ r.live ++ r.freeing) :
    g.size < xBlockAllocatedBit := by
  have hsize := Extents.size_le_total (List.mem_map_of_mem hg : g.extent ∈ r.owned)
  have htotal := hr.tiles.total
  have hsmall := heap_small ucHeap
  have hle : g.size ≤ Extents.total r.owned := hsize
  have hfuel : Heap.fuel < xBlockAllocatedBit := by decide
  omega

theorem Inv.begun (hr : Inv ucHeap xs r) : begun ucHeap r.heap = r.heap := by
  unfold HeapRun.begun
  rw [hr.holds.pxEnd]
  rfl

/-- there is a free block for `n` bytes -/
def Fits (xs : List Extent) (n : UInt32) : Prop :=
  n ≠ 0 ∧ n &&& 0x80000000 = 0 ∧ ∃ x ∈ xs, (n.toNat + 15) / 8 * 8 ≤ x.size

theorem Fits.pos {n : UInt32} (hn : Fits xs n) : 0 < n.toNat :=
  Nat.pos_of_ne_zero fun h => hn.1 (UInt32.toNat_inj.mp h)

/-- what `pvPortMalloc` returns goes to the task -/
def granted (r : HeapRun) (n : UInt32) (h : Heap) (pv : Option Nat) : HeapRun :=
  { r with
    heap := h
    live := match pv with
      | some pv => ⟨pv, n.toNat, h.size (.at (pv - xHeapStructSize)) &&& (xBlockAllocatedBit - 1)⟩ ::
          r.live
      | none => r.live }

theorem malloc_eq (r : HeapRun) (n : UInt32) : (heap4 ucHeap).step r (.malloc n) =
    (if n &&& 0x80000000 = 0 then (HeapRun.begun ucHeap r.heap).allocate (Heap.wantedSize n).toNat
      else some (HeapRun.begun ucHeap r.heap, none)).map fun s => r.granted n s.1 s.2 := rfl

/-- `pvPortMalloc` returns `NULL` -/
theorem Inv.malloc_null (hr : Inv ucHeap xs r) {n : UInt32} (hn : ¬ Fits xs n) :
    (heap4 ucHeap).step r (.malloc n) = some r := by
  rw [malloc_eq, hr.begun]
  by_cases htop : n &&& 0x80000000 = 0
  · obtain ⟨_, hwanted⟩ := Heap.wanted_spec htop
    rw [if_pos htop, hwanted]
    by_cases hzero : n = 0
    · rw [if_pos hzero]
      rfl
    · rw [if_neg hzero]
      rcases Heap.allocate_spec hr.holds hr.tiles (w := (n.toNat + 15) / 8 * 8) (by omega)
        (Nat.dvd_mul_left _ _) (heap_small ucHeap) with ⟨_, hnull⟩ | ⟨hfits, _⟩
      · rw [hnull]
        rfl
      · exact absurd ⟨hzero, htop, hfits⟩ hn
  · rw [if_neg htop]
    rfl

/-- **`pvPortMalloc` returns a block.** -/
theorem Inv.malloc_some (hr : Inv ucHeap xs r) {n : UInt32} (hn : Fits xs n) :
    ∃ t g ys, (heap4 ucHeap).step r (.malloc n) = some t ∧ Inv ucHeap ys t ∧
      t.live = g :: r.live ∧ t.freeing = r.freeing ∧
      t.heap.xMinimumEverFreeBytesRemaining =
        min r.heap.xMinimumEverFreeBytesRemaining t.heap.xFreeBytesRemaining ∧
      ∀ y ∈ r.owned, ∀ c, y.Has c → t.heap.link (.at c) = r.heap.link (.at c) := by
  have hpos := hn.pos
  obtain ⟨hzero, htop, x, hx, hwx⟩ := hn
  obtain ⟨_, hwanted⟩ := Heap.wanted_spec htop
  rw [if_neg hzero] at hwanted
  have hw : 0 < (n.toNat + 15) / 8 * 8 := by omega
  rcases Heap.allocate_spec hr.holds hr.tiles hw (Nat.dvd_mul_left _ _) (heap_small ucHeap)
    with ⟨hall, _⟩ | ⟨_, k, x, zs, hk, halloc⟩
  · exact absurd (hall x hx) (Nat.not_lt.mpr hwx)
  · have hxlt : x.size < xBlockAllocatedBit := by
      have hin := halloc.tiles.inside x (List.mem_append_right zs List.mem_cons_self)
      have hsmall := heap_small ucHeap
      have hfuel : Heap.fuel < xBlockAllocatedBit := by decide
      have hxs := x.stop_eq
      omega
    have hsize : k.size (.at (x.addr + xHeapStructSize - xHeapStructSize)) &&&
        (xBlockAllocatedBit - 1) = x.size := by
      rw [Nat.add_sub_cancel]
      unfold Heap.size
      rw [halloc.marked]
      exact (Heap.mark_bits hxlt).2
    have hextent : Grant.extent ⟨x.addr + xHeapStructSize, n.toNat, x.size⟩ = x := by
      unfold Grant.extent
      rw [Nat.add_sub_cancel]
    have hgranted : r.granted n k (some (x.addr + xHeapStructSize)) =
        ⟨k, ⟨x.addr + xHeapStructSize, n.toNat, x.size⟩ :: r.live, r.freeing⟩ := by
      unfold granted
      simp only [hsize]
    have hold (y : Extent) (hy : y ∈ r.owned) : k.link (.at y.addr) = r.heap.link (.at y.addr) := by
      have hys := y.stop_eq
      have hypos := hr.tiles.pos y hy
      exact halloc.others y hy y.addr ⟨Nat.le_refl _, by omega⟩
    refine ⟨⟨k, _ :: r.live, r.freeing⟩, ⟨x.addr + xHeapStructSize, n.toNat, x.size⟩, zs, ?_,
      ⟨halloc.holds, ?_, ?_, ?_, ?_, ?_⟩, rfl, rfl, halloc.least, halloc.others⟩
    · rw [malloc_eq, hr.begun, if_pos htop, hwanted, hk, Option.map_some, hgranted]
    · show Extents.Tiles 8 _ _ zs (Grant.extent _ :: r.owned)
      rw [hextent]
      exact halloc.tiles
    · refine List.forall_mem_cons.mpr ⟨?_, fun g hg => ?_⟩
      · rw [hextent]
        exact halloc.marked
      · rw [hold _ (List.mem_map_of_mem (List.mem_append_left _ hg))]
        exact hr.live g hg
    · intro g hg
      rw [hold _ (List.mem_map_of_mem (List.mem_append_right _ hg))]
      exact hr.freeing g hg
    · have henough := halloc.enough
      refine List.forall_mem_cons.mpr ⟨⟨Nat.le_add_left _ _, hpos, ?_⟩, hr.grants⟩
      show n.toNat + 8 ≤ x.size
      omega
    · rw [halloc.least]
      exact Nat.min_le_right _ _

/-- a task writes into its block -/
theorem Inv.write (hr : Inv ucHeap xs r) {addr : Nat} (l : BlockLink) (hg : g ∈ r.live)
    (hlo : g.pv ≤ addr) (hhi : addr < g.extent.stop) :
    Inv ucHeap xs { r with heap := r.heap.setLink (.at addr) l } := by
  obtain ⟨hpv, _, hsize⟩ := hr.grants g (List.mem_append_left _ hg)
  have hmem : g.extent ∈ r.owned := List.mem_map_of_mem (List.mem_append_left _ hg)
  have haddr : g.extent.addr + xHeapStructSize = g.pv := Nat.sub_add_cancel hpv
  have hhas : g.extent.Has addr := ⟨by omega, hhi⟩
  have hne : addr ≠ g.extent.addr := by
    unfold xHeapStructSize at haddr
    omega
  have hother (c : Nat) (hc : c ≠ addr) :
      (r.heap.setLink (.at addr) l).link (.at c) = r.heap.link (.at c) :=
    Heap.setLink_of_ne _ _ fun heq => hc (BlockPtr.at.inj heq)
  -- the links of the other blocks are not in this one
  have howned (y : Extent) (hy : y ∈ r.owned) : y.addr ≠ addr := by
    have hp := List.perm_cons_erase hmem
    rcases List.mem_cons.mp (hp.mem_iff.mp hy) with rfl | hy'
    · exact hne.symm
    · exact (hr.tiles.perm hp).addr_ne hhas (List.mem_append_right xs hy')
  have hfree (x : Extent) (hx : x ∈ xs) : x.addr ≠ addr := hr.tiles.ne_of_has hx hmem hhas
  have hend : Heap.heapStop ucHeap ≠ addr := by
    have hin := (hr.tiles.inside _ (List.mem_append_right xs hmem)).2
    omega
  refine ⟨⟨hr.holds.pxEnd, ?_, ?_, ?_, hr.holds.remaining⟩, hr.tiles, fun k hk => ?_, fun k hk => ?_,
    hr.grants, hr.least⟩
  · exact (congrArg _ (Heap.setLink_of_ne _ _ BlockPtr.noConfusion)).trans hr.holds.start
  · exact (hother _ hend).trans hr.holds.ended
  · refine hr.holds.chain.move ?_ fun x hx => hother _ (hfree x hx)
    exact (congrArg _ (Heap.setLink_of_ne _ _ BlockPtr.noConfusion)).trans hr.holds.chain.next_eq
  · exact (hother _ (howned _ (List.mem_map_of_mem (List.mem_append_left _ hk)))).trans (hr.live k hk)
  · exact (hother _ (howned _ (List.mem_map_of_mem (List.mem_append_right _ hk)))).trans
      (hr.freeing k hk)

/-- **`vPortFree`, up to `vTaskSuspendAll`** -/
theorem Inv.unmark (hr : Inv ucHeap xs r) (hg : g ∈ r.live) :
    ∃ t, (heap4 ucHeap).step r (.unmark g) = some t ∧ Inv ucHeap xs t ∧
      t.live = r.live.erase g ∧ t.freeing = g :: r.freeing ∧
      t.heap.xFreeBytesRemaining = r.heap.xFreeBytesRemaining ∧
      t.heap.xMinimumEverFreeBytesRemaining = r.heap.xMinimumEverFreeBytesRemaining ∧
      ∀ c, c ≠ g.extent.addr → t.heap.link (.at c) = r.heap.link (.at c) := by
  have hmem := List.mem_append_left r.freeing hg
  have hmark := Heap.unmark_spec (hr.live g hg) (hr.size_lt hmem)
  have hp : (r.live ++ r.freeing).Perm (r.live.erase g ++ g :: r.freeing) :=
    ((List.perm_cons_erase hg).append_right r.freeing).trans List.perm_middle.symm
  have hhas : g.extent.Has g.extent.addr := by
    have hpos := hr.tiles.pos _ (List.mem_map_of_mem hmem)
    exact ⟨Nat.le_refl _, by have := g.extent.stop_eq; omega⟩
  have hother (c : Nat) (hc : c ≠ g.extent.addr) :
      (r.heap.setLink (.at g.extent.addr) ⟨none, g.size⟩).link (.at c) = r.heap.link (.at c) :=
    Heap.setLink_of_ne _ _ fun heq => hc (BlockPtr.at.inj heq)
  have hrest := hr.tiles.perm ((hp.map Grant.extent).trans
    (List.perm_middle.map Grant.extent : (r.live.erase g ++ g :: r.freeing).map Grant.extent |>.Perm
      ((g :: (r.live.erase g ++ r.freeing)).map Grant.extent)))
  have hne (k : Grant) (hk : k ∈ r.live.erase g ++ r.freeing) : k.extent.addr ≠ g.extent.addr :=
    hrest.addr_ne hhas (List.mem_append_right xs (List.mem_map_of_mem hk))
  have hend : Heap.heapStop ucHeap ≠ g.extent.addr := by
    have hin := (hr.tiles.inside _ (List.mem_append_right xs (List.mem_map_of_mem hmem))).2
    have hlt := hhas.2
    omega
  refine ⟨⟨r.heap.setLink (.at g.extent.addr) ⟨none, g.size⟩, r.live.erase g, g :: r.freeing⟩, ?_,
    ⟨⟨hr.holds.pxEnd, ?_, ?_, ?_, hr.holds.remaining⟩, ?_, fun k hk => ?_, ?_, ?_, hr.least⟩,
    rfl, rfl, rfl, rfl, hother⟩
  · show (if g ∈ r.live then (r.heap.unmark g.pv).map _ else none) = _
    rw [if_pos hg, hmark]
    rfl
  · exact (congrArg _ (Heap.setLink_of_ne _ _ BlockPtr.noConfusion)).trans hr.holds.start
  · exact (hother _ hend).trans hr.holds.ended
  · refine hr.holds.chain.move ?_ fun x hx => hother _ ?_
    · exact (congrArg _ (Heap.setLink_of_ne _ _ BlockPtr.noConfusion)).trans hr.holds.chain.next_eq
    · exact hrest.ne_of_has hx List.mem_cons_self hhas
  · exact hr.tiles.perm (hp.map Grant.extent)
  · exact (hother _ (hne k (List.mem_append_left _ hk))).trans (hr.live k (List.mem_of_mem_erase hk))
  · refine List.forall_mem_cons.mpr ⟨Heap.setLink_self _ _ _, fun k hk => ?_⟩
    exact (hother _ (hne k (List.mem_append_right _ hk))).trans (hr.freeing k hk)
  · exact fun k hk => hr.grants k (hp.mem_iff.mpr hk)

/-- **The rest of `vPortFree`** -/
theorem Inv.insert (hr : Inv ucHeap xs r) (hg : g ∈ r.freeing) :
    ∃ t ys, (heap4 ucHeap).step r (.insert g) = some t ∧ Inv ucHeap ys t ∧ t.live = r.live ∧
      t.freeing = r.freeing.erase g ∧
      t.heap.xFreeBytesRemaining = r.heap.xFreeBytesRemaining + g.size ∧
      t.heap.xMinimumEverFreeBytesRemaining = r.heap.xMinimumEverFreeBytesRemaining ∧
      ∀ k ∈ r.live, ∀ c, k.extent.Has c → t.heap.link (.at c) = r.heap.link (.at c) := by
  have hmem := List.mem_append_right r.live hg
  have hp : (r.live ++ r.freeing).Perm (g :: (r.live ++ r.freeing.erase g)) :=
    ((List.perm_cons_erase hg).append_left r.live).trans List.perm_middle
  have htiles := hr.tiles.perm (hp.map Grant.extent)
  obtain ⟨k, hk, hholds, hrem, hleast, hothers⟩ :=
    Heap.insertFreed_spec hr.holds htiles (heap_small ucHeap) (hr.freeing g hg)
  have hpv : g.extent.addr + xHeapStructSize = g.pv := Nat.sub_add_cancel (hr.grants g hmem).1
  rw [hpv] at hk
  have hsame (u : Grant) (hu : u ∈ r.live ++ r.freeing.erase g) :
      k.link (.at u.extent.addr) = r.heap.link (.at u.extent.addr) := by
    have hupos := htiles.pos u.extent (List.mem_cons_of_mem _ (List.mem_map_of_mem hu))
    have hus := u.extent.stop_eq
    exact hothers u.extent (List.mem_map_of_mem hu) _ ⟨Nat.le_refl _, by omega⟩
  refine ⟨⟨k, r.live, r.freeing.erase g⟩, _, ?_, ⟨hholds, htiles.release, fun u hu => ?_,
    fun u hu => ?_, fun u hu => hr.grants u (hp.mem_iff.mpr (List.mem_cons_of_mem g hu)), ?_⟩,
    rfl, rfl, hrem, hleast, fun u hu => hothers u.extent (List.mem_map_of_mem (List.mem_append_left _ hu))⟩
  · show (if g ∈ r.freeing then (r.heap.insertFreed g.pv).map _ else none) = _
    rw [if_pos hg, hk]
    rfl
  · exact (hsame u (List.mem_append_left _ hu)).trans (hr.live u hu)
  · exact (hsame u (List.mem_append_right _ hu)).trans (hr.freeing u (List.mem_of_mem_erase hu))
  · have hold := hr.least
    show k.xMinimumEverFreeBytesRemaining ≤ k.xFreeBytesRemaining
    omega

/-- **One step** keeps the invariant, and the counter of the least bytes; only the owner of a block
writes to it. -/
theorem Inv.step (hr : Inv ucHeap xs r) {a : HeapAct} (h : (heap4 ucHeap).step r a = some t) :
    (∃ ys, Inv ucHeap ys t) ∧
    t.heap.xMinimumEverFreeBytesRemaining =
      min r.heap.xMinimumEverFreeBytesRemaining t.heap.xFreeBytesRemaining ∧
    ∀ g ∈ r.live, (∀ addr l, a ≠ .write g addr l) →
      ∀ c, g.pv ≤ c → c < g.extent.stop → t.heap.link (.at c) = r.heap.link (.at c) := by
  have hpayload (g : Grant) (hg : g ∈ r.live) (c : Nat) (hc : g.pv ≤ c) :
      g.extent.addr ≤ c ∧ c ≠ g.extent.addr := by
    have hpv := (hr.grants g (List.mem_append_left _ hg)).1
    have haddr : g.extent.addr + 8 = g.pv := Nat.sub_add_cancel hpv
    omega
  have hleast := hr.least
  cases a with
  | malloc n =>
    by_cases hn : Fits xs n
    · obtain ⟨u, g, ys, hu, hinv, _, _, hmin, hothers⟩ := hr.malloc_some hn
      cases hu.symm.trans h
      refine ⟨⟨ys, hinv⟩, hmin, fun k hk _ c h1 h2 => ?_⟩
      exact hothers _ (List.mem_map_of_mem (List.mem_append_left _ hk)) c ⟨(hpayload k hk c h1).1, h2⟩
    · cases (hr.malloc_null hn).symm.trans h
      exact ⟨⟨xs, hr⟩, by omega, fun _ _ _ _ _ _ => rfl⟩
  | write k addr l =>
    obtain ⟨⟨hk, hlo, hhi⟩, h⟩ := Option.ite_none_right_eq_some.mp h
    cases h
    refine ⟨⟨xs, hr.write l hk hlo hhi⟩, ?_, fun g hg hne c h1 h2 => ?_⟩
    · show r.heap.xMinimumEverFreeBytesRemaining =
        min r.heap.xMinimumEverFreeBytesRemaining r.heap.xFreeBytesRemaining
      omega
    · refine Heap.setLink_of_ne _ _ fun heq => ?_
      obtain rfl := BlockPtr.at.inj heq
      -- the address is in one block only
      have hkhas : k.extent.Has c := ⟨(hpayload k hk c hlo).1, hhi⟩
      have hghas : g.extent.Has c := ⟨(hpayload g hg c h1).1, h2⟩
      have hgk : g ≠ k := fun heq => hne c l (by rw [heq])
      have hp := List.perm_cons_erase hk
      have hg' : g ∈ r.live.erase k := (List.mem_erase_of_ne hgk).mpr hg
      have hapart := (List.pairwise_append.mp hr.tiles.apart).2.1
      have hperm : r.owned.Perm ((k :: (r.live.erase k ++ r.freeing)).map Grant.extent) :=
        (hp.append_right r.freeing).map Grant.extent
      obtain ⟨hall, _⟩ := List.pairwise_cons.mp (Extents.apart_perm hperm hapart)
      exact (hall g.extent (List.mem_map_of_mem (List.mem_append_left _ hg'))).not_has hkhas hghas
  | unmark k =>
    obtain ⟨hk, _⟩ := Option.ite_none_right_eq_some.mp h
    obtain ⟨u, hu, hinv, _, _, hrem, hmin, hothers⟩ := hr.unmark hk
    cases hu.symm.trans h
    refine ⟨⟨xs, hinv⟩, by omega, fun g hg _ c h1 h2 => hothers c fun heq => ?_⟩
    -- the link of a block is in no payload
    obtain ⟨hle, hne⟩ := hpayload g hg c h1
    by_cases hgk : g = k
    · exact hne (hgk ▸ heq)
    · have hp := List.perm_cons_erase hg
      have hperm : r.owned.Perm ((g :: (r.live.erase g ++ r.freeing)).map Grant.extent) :=
        (hp.append_right r.freeing).map Grant.extent
      have hk' : k ∈ r.live.erase g := (List.mem_erase_of_ne (Ne.symm hgk)).mpr hk
      refine (hr.tiles.perm hperm).addr_ne ⟨hle, h2⟩ (List.mem_append_right xs ?_) heq.symm
      exact List.mem_map_of_mem (List.mem_append_left _ hk')
  | insert k =>
    obtain ⟨hk, _⟩ := Option.ite_none_right_eq_some.mp h
    obtain ⟨u, ys, hu, hinv, _, _, hrem, hmin, hothers⟩ := hr.insert hk
    cases hu.symm.trans h
    exact ⟨⟨ys, hinv⟩, by omega, fun g hg _ c h1 h2 => hothers g hg c ⟨(hpayload g hg c h1).1, h2⟩⟩

/-- the state with its heap initialised -/
def ready (ucHeap : Nat) (r : HeapRun) : HeapRun := { r with heap := HeapRun.begun ucHeap r.heap }

theorem ready_of_inv (hr : Inv ucHeap xs r) : r.ready ucHeap = r := by
  unfold ready
  rw [hr.begun]

/-- The first call initialises the heap. -/
theorem malloc_ready (ucHeap : Nat) (r : HeapRun) (n : UInt32) :
    (heap4 ucHeap).step (r.ready ucHeap) (.malloc n) = (heap4 ucHeap).step r (.malloc n) := by
  have hbegun : HeapRun.begun ucHeap (HeapRun.begun ucHeap r.heap) = HeapRun.begun ucHeap r.heap := by
    unfold HeapRun.begun
    by_cases h : r.heap.pxEnd = none
    · rw [if_pos h]
      rfl
    · rw [if_neg h, if_neg h]
  rw [malloc_eq, malloc_eq,
    show HeapRun.begun ucHeap (r.ready ucHeap).heap = HeapRun.begun ucHeap r.heap from hbegun]
  rfl

/-- Nobody has a block at the start. -/
theorem init_step {link : BlockPtr → BlockLink} {a : HeapAct}
    (h : (heap4 ucHeap).step (init link) a = some t) : ∃ n, a = .malloc n := by
  cases a with
  | malloc n => exact ⟨n, rfl⟩
  | write g addr l => simp [heap4, HeapRun.step, init] at h
  | unmark g => simp [heap4, HeapRun.step, init] at h
  | insert g => simp [heap4, HeapRun.step, init] at h

/-- **Every state reached**: the heap is not initialised and nobody has a block, or the invariant
holds. -/
theorem reached {link : BlockPtr → BlockLink} {as : List HeapAct}
    (h : (heap4 ucHeap).run (init link) as = some r) :
    r = init link ∨ ∃ xs, Inv ucHeap xs r := by
  refine (Machine.run_free h).inv (I := fun r => r = init link ∨ ∃ xs, Inv ucHeap xs r) (.inl rfl) ?_
  rintro x a y (rfl | ⟨xs, hx⟩) _ hs
  · obtain ⟨n, rfl⟩ := init_step hs
    rw [← malloc_ready] at hs
    exact .inr ((Inv.init ucHeap link).step hs).1
  · exact .inr (hx.step hs).1

theorem reached_ready {link : BlockPtr → BlockLink} {as : List HeapAct}
    (h : (heap4 ucHeap).run (init link) as = some r) : ∃ xs, Inv ucHeap xs (r.ready ucHeap) := by
  rcases reached h with rfl | ⟨xs, hr⟩
  · exact ⟨_, Inv.init ucHeap link⟩
  · rw [ready_of_inv hr]
    exact ⟨xs, hr⟩

end

end HeapRun

/-! ## what the tasks rely on -/

section
variable (ucHeap : Nat) (link : BlockPtr → BlockLink) (as : List HeapAct) (r : HeapRun)

/-- **Blocks are apart.**  In every run of tasks that allocate, write into their blocks and free them,
all calls return; every block is aligned, inside of `ucHeap` and large enough for what was asked, no
two of them have a byte in common, links included; and no step of anybody else changes what a task
has in its block. -/
theorem blocks_apart (h : (heap4 ucHeap).run (HeapRun.init link) as = some r) :
    (∀ g ∈ r.live ++ r.freeing, 8 ∣ g.pv ∧ ucHeap + xHeapStructSize ≤ g.pv ∧
      g.pv + g.xWantedSize ≤ g.extent.stop ∧ g.extent.stop ≤ ucHeap + configTotalHeapSize) ∧
    r.owned.Pairwise Extent.Apart ∧
    (∀ a t, (heap4 ucHeap).step r a = some t → ∀ g ∈ r.live, (∀ addr l, a ≠ .write g addr l) →
      ∀ c, g.pv ≤ c → c < g.extent.stop → t.heap.link (.at c) = r.heap.link (.at c)) ∧
    (∀ n, ∃ t, (heap4 ucHeap).step r (.malloc n) = some t) ∧
    (∀ g ∈ r.live, ∃ t, (heap4 ucHeap).step r (.unmark g) = some t) ∧
    ∀ g ∈ r.freeing, ∃ t, (heap4 ucHeap).step r (.insert g) = some t := by
  obtain ⟨xs, hr⟩ := HeapRun.reached_ready h
  obtain ⟨_, _, hlo, _, hhi⟩ := Heap.heap_bounds ucHeap
  have hinit := HeapRun.reached h
  refine ⟨fun g hg => ?_, (List.pairwise_append.mp hr.tiles.apart).2.1, fun a t hs g hg hne => ?_,
    fun n => ?_, fun g hg => ?_, fun g hg => ?_⟩
  · obtain ⟨hpv, _, hsize⟩ := hr.grants g hg
    have hmem : g.extent ∈ xs ++ (r.ready ucHeap).owned :=
      List.mem_append_right xs (List.mem_map_of_mem hg)
    have hin := hr.tiles.inside _ hmem
    have hal := (hr.tiles.aligned _ hmem).1
    have haddr : g.extent.addr + xHeapStructSize = g.pv := Nat.sub_add_cancel hpv
    have hstop : g.extent.stop = g.extent.addr + g.size := rfl
    unfold xHeapStructSize at *
    omega
  · rcases hinit with rfl | ⟨ys, hr'⟩
    · exact absurd hg List.not_mem_nil
    · exact (hr'.step hs).2.2 g hg hne
  · rw [← HeapRun.malloc_ready]
    by_cases hn : HeapRun.Fits xs n
    · obtain ⟨t, _, _, ht, _⟩ := hr.malloc_some hn
      exact ⟨t, ht⟩
    · exact ⟨_, hr.malloc_null hn⟩
  · rcases hinit with rfl | ⟨ys, hr'⟩
    · exact absurd hg List.not_mem_nil
    · obtain ⟨t, ht, _⟩ := hr'.unmark hg
      exact ⟨t, ht⟩
  · rcases hinit with rfl | ⟨ys, hr'⟩
    · exact absurd hg List.not_mem_nil
    · obtain ⟨t, _, ht, _⟩ := hr'.insert hg
      exact ⟨t, ht⟩

/-- two tasks allocate, one of them frees its block, and the first fit is taken again -/
def threeBlocks : List HeapAct :=
  [.malloc 100, .malloc 5, .write ⟨1016, 100, 112⟩ 1024 ⟨some 7, 9⟩, .unmark ⟨1016, 100, 112⟩,
    .insert ⟨1016, 100, 112⟩, .malloc 60]

theorem blocks_apart_three : ∃ r, (heap4 1001).run (HeapRun.init fun _ => ⟨none, 0⟩) threeBlocks = some r ∧
    r.live = [⟨1016, 60, 72⟩, ⟨1128, 5, 16⟩] ∧ r.owned.Pairwise Extent.Apart := by
  have hrun : ((heap4 1001).run (HeapRun.init fun _ => ⟨none, 0⟩) threeBlocks).map HeapRun.live =
      some [⟨1016, 60, 72⟩, ⟨1128, 5, 16⟩] := by
    decide +kernel
  obtain ⟨r, hr, hlive⟩ := Option.map_eq_some_iff.mp hrun
  exact ⟨r, hr, hlive, (blocks_apart _ _ _ r hr).2.1⟩

/-- **`pvPortMalloc` fails only for want of room.**  In every state reached it returns `NULL` exactly
if no bytes are asked for, or 2^31 or more, or no gap between the blocks in use has room for the link
and the bytes, rounded up to a multiple of 8: free memory is never lost between free blocks. -/
theorem malloc_fails_iff (h : (heap4 ucHeap).run (HeapRun.init link) as = some r) (n : UInt32) :
    ∃ t, (heap4 ucHeap).step r (.malloc n) = some t ∧ (t.live = r.live ↔
      n = 0 ∨ n &&& 0x80000000 ≠ 0 ∨ ¬ ∃ a, Heap.heapStart ucHeap ≤ a ∧
        a + (n.toNat + 15) / 8 * 8 ≤ Heap.heapStop ucHeap ∧
        ∀ y ∈ r.owned, (⟨a, (n.toNat + 15) / 8 * 8⟩ : Extent).Apart y) := by
  obtain ⟨xs, hr⟩ := HeapRun.reached_ready h
  have hgap := hr.tiles.gap_iff (w := (n.toNat + 15) / 8 * 8) (by omega)
  have howned : (r.ready ucHeap).owned = r.owned := rfl
  rw [howned] at hgap
  rw [← HeapRun.malloc_ready, ← hgap]
  by_cases hn : HeapRun.Fits xs n
  · obtain ⟨t, g, _, ht, _, hlive, _⟩ := hr.malloc_some hn
    refine ⟨t, ht, iff_of_false ?_ ?_⟩
    · rw [hlive]
      exact List.cons_ne_self g r.live
    · rintro (hzero | htop | hfull)
      · exact hn.1 hzero
      · exact htop hn.2.1
      · exact hfull hn.2.2
  · refine ⟨_, hr.malloc_null hn, iff_of_true rfl ?_⟩
    by_contra hfits
    obtain ⟨hzero, hfits⟩ := not_or.mp hfits
    obtain ⟨htop, hfull⟩ := not_or.mp hfits
    exact hn ⟨hzero, not_not.mp htop, not_not.mp hfull⟩

/-- 10000 bytes are in use, and 10000 more do not fit. -/
theorem malloc_fails_iff_twice : ∃ r t,
    (heap4 1001).run (HeapRun.init fun _ => ⟨none, 0⟩) [.malloc 10000] = some r ∧
    (heap4 1001).step r (.malloc 10000) = some t ∧ t.live = r.live ∧
    ¬ ∃ a, Heap.heapStart 1001 ≤ a ∧ a + 10008 ≤ Heap.heapStop 1001 ∧
      ∀ y ∈ r.owned, (⟨a, 10008⟩ : Extent).Apart y := by
  have hrun : ((heap4 1001).run (HeapRun.init fun _ => ⟨none, 0⟩) [.malloc 10000]).map
      HeapRun.live = some [⟨1016, 10000, 10008⟩] := by
    decide +kernel
  have hnext : ((heap4 1001).run (HeapRun.init fun _ => ⟨none, 0⟩) [.malloc 10000, .malloc 10000]).map
      HeapRun.live = some [⟨1016, 10000, 10008⟩] := by
    decide +kernel
  obtain ⟨r, hr, hlive⟩ := Option.map_eq_some_iff.mp hrun
  obtain ⟨t, ht, hiff⟩ := malloc_fails_iff _ _ _ r hr 10000
  have htrun : (heap4 1001).run (HeapRun.init fun _ => ⟨none, 0⟩) ([.malloc 10000] ++ [.malloc 10000]) =
      some t :=
    (Machine.run_snoc _).mpr ⟨r, hr, ht⟩
  rw [show [HeapAct.malloc 10000, .malloc 10000] = [.malloc 10000] ++ [.malloc 10000] from rfl,
    htrun] at hnext
  have hsame : t.live = r.live := (Option.some.inj hnext).trans hlive.symm
  rcases hiff.mp hsame with hzero | htop | hfull
  · exact absurd hzero (by decide)
  · exact absurd (by decide) htop
  · exact ⟨r, t, hr, ht, hsame, hfull⟩

/-- the least value of `xFreeBytesRemaining` since the heap is initialised -/
def LeastSoFar (least : Nat) : Prop :=
  (∀ bs cs u, as = bs ++ cs → (heap4 ucHeap).run (HeapRun.init link) bs = some u →
    u.heap.pxEnd ≠ none → least ≤ u.heap.xFreeBytesRemaining) ∧
  ∃ bs cs u, as = bs ++ cs ∧ (heap4 ucHeap).run (HeapRun.init link) bs = some u ∧
    u.heap.pxEnd ≠ none ∧ least = u.heap.xFreeBytesRemaining

variable {ucHeap link as r}

/-- a longer run -/
theorem LeastSoFar.snoc {least : Nat} {a : HeapAct} {t : HeapRun} (hl : LeastSoFar ucHeap link as least)
    (h : (heap4 ucHeap).run (HeapRun.init link) (as ++ [a]) = some t) (ht : t.heap.pxEnd ≠ none) :
    LeastSoFar ucHeap link (as ++ [a]) (min least t.heap.xFreeBytesRemaining) := by
  obtain ⟨hle, bs, cs, u, rfl, hu, huend, heq⟩ := hl
  constructor
  · intro bs' cs' v hsplit hv hvend
    rcases List.eq_nil_or_concat cs' with rfl | ⟨ds, d, rfl⟩
    · rw [List.append_nil] at hsplit
      rw [← hsplit, h] at hv
      cases hv
      exact Nat.min_le_right _ _
    · rw [List.concat_eq_append, ← List.append_assoc] at hsplit
      obtain ⟨hsplit, _⟩ := List.append_inj' hsplit rfl
      exact Nat.le_trans (Nat.min_le_left _ _) (hle bs' ds v hsplit hv hvend)
  · by_cases hmin : least ≤ t.heap.xFreeBytesRemaining
    · rw [Nat.min_eq_left hmin]
      exact ⟨bs, cs ++ [a], u, List.append_assoc _ _ _, hu, huend, heq⟩
    · rw [Nat.min_eq_right (Nat.le_of_not_le hmin)]
      exact ⟨_, [], t, (List.append_nil _).symm, h, ht, rfl⟩

/-- the heap stays initialised -/
theorem stays_ready {bs : List HeapAct} {u : HeapRun} {xs : List Extent}
    (hu : HeapRun.Inv ucHeap xs u) (h : (heap4 ucHeap).run u bs = some r) : r.heap.pxEnd ≠ none := by
  have hinv : ∃ ys, HeapRun.Inv ucHeap ys r :=
    (Machine.run_free h).inv (I := fun r => ∃ ys, HeapRun.Inv ucHeap ys r) ⟨xs, hu⟩
      fun _ _ _ hx _ hs => (hx.choose_spec.step hs).1
  obtain ⟨ys, hr⟩ := hinv
  rw [hr.holds.pxEnd]
  exact Option.some_ne_none _

theorem init_pxEnd (link : BlockPtr → BlockLink) : (HeapRun.init link).heap.pxEnd = none := rfl

theorem least_run (h : (heap4 ucHeap).run (HeapRun.init link) as = some r)
    (hinit : r.heap.pxEnd ≠ none) :
    LeastSoFar ucHeap link as r.heap.xMinimumEverFreeBytesRemaining := by
  induction as using List.reverseRecOn generalizing r with
  | nil =>
    cases h
    exact absurd (init_pxEnd link) hinit
  | append_singleton as a ih =>
    obtain ⟨u, hu, hs⟩ := (Machine.run_snoc _).mp h
    rcases HeapRun.reached hu with rfl | ⟨xs, hinv⟩
    · -- the first call: no state before it counts
      obtain ⟨n, rfl⟩ := HeapRun.init_step hs
      rw [← HeapRun.malloc_ready] at hs
      have hstart := HeapRun.Inv.init ucHeap link
      obtain ⟨⟨ys, hr⟩, hmin, _⟩ := hstart.step hs
      have hle : r.heap.xFreeBytesRemaining ≤ Heap.heapStop ucHeap - Heap.heapStart ucHeap := by
        rw [hr.holds.remaining, ← hr.tiles.total]
        exact Nat.le_add_right _ _
      have heq : r.heap.xMinimumEverFreeBytesRemaining = r.heap.xFreeBytesRemaining :=
        hmin.trans (Nat.min_eq_right hle)
      refine ⟨fun bs cs v hsplit hv hvend => ?_, _, [], r, (List.append_nil _).symm, h, hinit, heq⟩
      rcases List.eq_nil_or_concat cs with rfl | ⟨ds, d, rfl⟩
      · rw [List.append_nil] at hsplit
        rw [← hsplit, h] at hv
        cases hv
        exact Nat.le_of_eq heq
      · rw [List.concat_eq_append, ← List.append_assoc] at hsplit
        obtain ⟨rfl, _⟩ := List.append_inj' hsplit rfl
        rw [Machine.run_append, hv] at hu
        rcases HeapRun.reached hv with rfl | ⟨xs, hvinv⟩
        · exact absurd (init_pxEnd link) hvend
        · exact absurd (init_pxEnd link) (stays_ready hvinv hu)
    · have huend : u.heap.pxEnd ≠ none := by
        rw [hinv.holds.pxEnd]
        exact Option.some_ne_none _
      rw [(hinv.step hs).2.1]
      exact (ih hu huend).snoc h hinit

variable (ucHeap link as r)

/-- **The counters are exact, and an empty heap is as it was.**  Once the heap is initialised,
`xFreeBytesRemaining` and the blocks in use make up all of it, `xMinimumEverFreeBytesRemaining` is
the least value that `xFreeBytesRemaining` had, and when all blocks have been freed, in any order, the
list is again one block of the whole size. -/
theorem heap_restored (h : (heap4 ucHeap).run (HeapRun.init link) as = some r)
    (hinit : r.heap.pxEnd ≠ none) :
    r.heap.xFreeBytesRemaining + Extents.total r.owned =
      Heap.heapStop ucHeap - Heap.heapStart ucHeap ∧
    LeastSoFar ucHeap link as r.heap.xMinimumEverFreeBytesRemaining ∧
    (r.live = [] → r.freeing = [] → r.heap.next .xStart = some (Heap.heapStart ucHeap) ∧
      r.heap.link (.at (Heap.heapStart ucHeap)) = ⟨some (Heap.heapStop ucHeap),
        Heap.heapStop ucHeap - Heap.heapStart ucHeap⟩ ∧
      r.heap.link (.at (Heap.heapStop ucHeap)) = ⟨none, 0⟩) := by
  obtain ⟨_, _, _, hlt, _⟩ := Heap.heap_bounds ucHeap
  rcases HeapRun.reached h with rfl | ⟨xs, hr⟩
  · exact absurd (init_pxEnd link) hinit
  · refine ⟨?_, least_run h hinit, fun hlive hfreeing => ?_⟩
    · rw [hr.holds.remaining]
      exact hr.tiles.total
    · have htiles := hr.tiles
      unfold HeapRun.owned at htiles
      rw [hlive, hfreeing] at htiles
      obtain rfl := htiles.alone hlt
      obtain ⟨hnext, hsize, hlast⟩ := hr.holds.chain
      refine ⟨hnext, ?_, hr.holds.ended⟩
      have hlink : r.heap.link (.at (Heap.heapStart ucHeap)) =
        ⟨r.heap.next (.at (Heap.heapStart ucHeap)), r.heap.size (.at (Heap.heapStart ucHeap))⟩ := rfl
      rw [hlink, hlast, hsize]

/-- Two blocks are freed in the order of their allocation. -/
theorem heap_restored_two : ∃ r, (heap4 1001).run (HeapRun.init fun _ => ⟨none, 0⟩)
      [.malloc 100, .malloc 5, .unmark ⟨1016, 100, 112⟩, .unmark ⟨1128, 5, 16⟩,
        .insert ⟨1016, 100, 112⟩, .insert ⟨1128, 5, 16⟩] = some r ∧
    r.heap.next .xStart = some 1008 ∧ r.heap.link (.at 1008) = ⟨some 18400, 17392⟩ ∧
    r.heap.xMinimumEverFreeBytesRemaining = 17264 := by
  have hrun : ((heap4 1001).run (HeapRun.init fun _ => ⟨none, 0⟩)
      [.malloc 100, .malloc 5, .unmark ⟨1016, 100, 112⟩, .unmark ⟨1128, 5, 16⟩,
        .insert ⟨1016, 100, 112⟩, .insert ⟨1128, 5, 16⟩]).map (fun r => (r.live, r.freeing,
          r.heap.pxEnd, r.heap.xMinimumEverFreeBytesRemaining)) = some ([], [], some 18400, 17264) := by
    decide +kernel
  obtain ⟨r, hr, hval⟩ := Option.map_eq_some_iff.mp hrun
  obtain ⟨hlive, hval⟩ := Prod.mk.inj hval
  obtain ⟨hfreeing, hval⟩ := Prod.mk.inj hval
  obtain ⟨hend, hleast⟩ := Prod.mk.inj hval
  have hinit : r.heap.pxEnd ≠ none := by
    rw [hend]
    exact Option.some_ne_none _
  obtain ⟨_, _, hempty⟩ := heap_restored _ _ _ r hr hinit
  obtain ⟨hnext, hlink, _⟩ := hempty hlive hfreeing
  exact ⟨r, hr, hnext, hlink, hleast⟩

end

end Bramble
