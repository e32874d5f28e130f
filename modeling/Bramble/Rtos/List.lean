import Bramble.Lib.Links
import Bramble.Lib.Machine

/-!
# Lists of the kernel (`list.c`)

A list is a ring through its end marker, which has the largest value.  `pxIndex` is the entry that
`listGET_OWNER_OF_NEXT_ENTRY` returned last.

* `listMem`        the machine on the memory: entries and lists with their pointers;
* `Cursor`         a list of items, split behind the entry of `pxIndex`;
* `Refines`        the memory holds the lists;
* `lists_refine`   it does after any calls, and all calls that are allowed return;
* `round_robin`    entries that stay in a list are returned in turns.
-/

namespace Bramble

/-- `portMAX_DELAY` -/
def portMaxDelay : UInt32 := 0xffffffff

/-- a `ListItem_t *` -/
inductive ListPtr (L I : Type) where
  | xListEnd (l : L)
  | item (i : I)
  deriving DecidableEq

/-- the lists `L` and the entries `I` in memory -/
structure ListMem (L I : Type) where
  xItemValue : ListPtr L I → UInt32
  pxNext : ListPtr L I → ListPtr L I
  pxPrevious : ListPtr L I → ListPtr L I
  pxContainer : I → Option L
  uxNumberOfItems : L → Nat
  pxIndex : L → ListPtr L I

namespace ListMem
variable {L I : Type} [DecidableEq L] [DecidableEq I]

/-- after `vListInitialise` of the lists and `vListInitialiseItem` of the items -/
def initialised (m : ListMem L I) : ListMem L I where
  xItemValue
    | .xListEnd _ => portMaxDelay
    | .item i => m.xItemValue (.item i)
  pxNext
    | .xListEnd l => .xListEnd l
    | .item i => m.pxNext (.item i)
  pxPrevious
    | .xListEnd l => .xListEnd l
    | .item i => m.pxPrevious (.item i)
  pxContainer _ := none
  uxNumberOfItems _ := 0
  pxIndex l := .xListEnd l

def setNext (m : ListMem L I) (p q : ListPtr L I) : ListMem L I :=
  { m with pxNext := Function.update m.pxNext p q }

def setPrevious (m : ListMem L I) (p q : ListPtr L I) : ListMem L I :=
  { m with pxPrevious := Function.update m.pxPrevious p q }

/-- `listSET_LIST_ITEM_VALUE` -/
def setValue (m : ListMem L I) (i : I) (xValue : UInt32) : ListMem L I :=
  { m with xItemValue := Function.update m.xItemValue (.item i) xValue }

/-- the item is on the list, which has one item more -/
def enter (m : ListMem L I) (l : L) (i : I) : ListMem L I :=
  { m with
    pxContainer := Function.update m.pxContainer i (some l)
    uxNumberOfItems := Function.update m.uxNumberOfItems l (m.uxNumberOfItems l + 1) }

def vListInsertEnd (m : ListMem L I) (l : L) (pxNewListItem : I) : ListMem L I :=
  let pxIndex := m.pxIndex l
  let m := m.setNext (.item pxNewListItem) pxIndex
  let m := m.setPrevious (.item pxNewListItem) (m.pxPrevious pxIndex)
  let m := m.setNext (m.pxPrevious pxIndex) (.item pxNewListItem)
  let m := m.setPrevious pxIndex (.item pxNewListItem)
  m.enter l pxNewListItem

/-- the loop of `vListInsert` -/
def insertPosition (m : ListMem L I) (xValueOfInsertion : UInt32) :
    Nat → ListPtr L I → Option (ListPtr L I)
  | 0, _ => none
  | fuel + 1, pxIterator =>
    if m.xItemValue (m.pxNext pxIterator) ≤ xValueOfInsertion then
      m.insertPosition xValueOfInsertion fuel (m.pxNext pxIterator)
    else some pxIterator

def insertBehind (m : ListMem L I) (l : L) (pxNewListItem : I) (pxIterator : ListPtr L I) :
    ListMem L I :=
  let m := m.setNext (.item pxNewListItem) (m.pxNext pxIterator)
  let m := m.setPrevious (m.pxNext (.item pxNewListItem)) (.item pxNewListItem)
  let m := m.setPrevious (.item pxNewListItem) pxIterator
  let m := m.setNext pxIterator (.item pxNewListItem)
  m.enter l pxNewListItem

def vListInsert (m : ListMem L I) (l : L) (pxNewListItem : I) : Option (ListMem L I) :=
  let xValueOfInsertion := m.xItemValue (.item pxNewListItem)
  let pxIterator :=
    if xValueOfInsertion = portMaxDelay then some (m.pxPrevious (.xListEnd l))
    else m.insertPosition xValueOfInsertion (m.uxNumberOfItems l + 1) (.xListEnd l)
  pxIterator.map (m.insertBehind l pxNewListItem)

/-- `uxListRemove`, of an item on the list `l` -/
def removeFrom (m : ListMem L I) (l : L) (pxItemToRemove : I) : ListMem L I :=
  let item : ListPtr L I := .item pxItemToRemove
  let m := m.setPrevious (m.pxNext item) (m.pxPrevious item)
  let m := m.setNext (m.pxPrevious item) (m.pxNext item)
  { m with
    pxIndex :=
      if m.pxIndex l = item then Function.update m.pxIndex l (m.pxPrevious item) else m.pxIndex
    pxContainer := Function.update m.pxContainer pxItemToRemove none
    uxNumberOfItems := Function.update m.uxNumberOfItems l (m.uxNumberOfItems l - 1) }

/-- `listGET_OWNER_OF_NEXT_ENTRY`: the index goes on, over the end marker -/
def nextEntry (m : ListMem L I) (l : L) : ListMem L I :=
  let pxIndex := m.pxNext (m.pxIndex l)
  { m with
    pxIndex := Function.update m.pxIndex l
      (if pxIndex = .xListEnd l then m.pxNext pxIndex else pxIndex) }

end ListMem

inductive ListAct (L I : Type) where
  | vListInsertEnd (l : L) (i : I)
  /-- after `listSET_LIST_ITEM_VALUE` -/
  | vListInsert (l : L) (i : I) (xValue : UInt32)
  | uxListRemove (i : I)
  /-- `listGET_OWNER_OF_NEXT_ENTRY` -/
  | next (l : L)

/-- the memory, and the entries that `listGET_OWNER_OF_NEXT_ENTRY` returned -/
structure ListRun (L I : Type) where
  mem : ListMem L I
  owners : List (L × I)

namespace ListRun
variable {L I : Type} [DecidableEq L] [DecidableEq I]

/-- the callers' side: an item is on one list at most, and an empty list has no next entry -/
def Allowed (r : ListRun L I) : ListAct L I → Prop
  | .vListInsertEnd _ i => r.mem.pxContainer i = none
  | .vListInsert _ i _ => r.mem.pxContainer i = none
  | .uxListRemove i => r.mem.pxContainer i ≠ none
  | .next l => r.mem.uxNumberOfItems l ≠ 0

def init (m : ListMem L I) : ListRun L I := ⟨m.initialised, []⟩

def step (r : ListRun L I) : ListAct L I → Option (ListRun L I)
  | .vListInsertEnd l i =>
    if r.mem.pxContainer i = none then some { r with mem := r.mem.vListInsertEnd l i } else none
  | .vListInsert l i xValue =>
    if r.mem.pxContainer i = none then
      ((r.mem.setValue i xValue).vListInsert l i).map fun m => { r with mem := m }
    else none
  | .uxListRemove i => (r.mem.pxContainer i).map fun l => { r with mem := r.mem.removeFrom l i }
  | .next l =>
    if r.mem.uxNumberOfItems l = 0 then none
    else
      match (r.mem.nextEntry l).pxIndex l with
      | .item i => some ⟨r.mem.nextEntry l, r.owners ++ [(l, i)]⟩
      | .xListEnd _ => none

end ListRun

def listMem (L I : Type) [DecidableEq L] [DecidableEq I] : Machine (ListRun L I) (ListAct L I) :=
  ⟨ListRun.step⟩

/-! ### Lists -/

/-- a list of items, up to the entry of `pxIndex` and behind it -/
structure Cursor (I : Type) where
  upTo : List I
  behind : List I

namespace Cursor
variable {I : Type} [DecidableEq I]

def items (c : Cursor I) : List I := c.upTo ++ c.behind

/-- the order in which `next` will return them -/
def turns (c : Cursor I) : List I := c.behind ++ c.upTo

/-- before the entry of `pxIndex` -/
def insertEnd (c : Cursor I) (i : I) : Cursor I :=
  match c.upTo.getLast? with
  | none => ⟨[], c.behind ++ [i]⟩
  | some j => ⟨c.upTo.dropLast ++ [i, j], c.behind⟩

/-- behind the items with a value that is not larger -/
def insert (value : I → UInt32) (c : Cursor I) (i : I) : Cursor I :=
  if ∀ j ∈ c.upTo, value j ≤ value i then
    ⟨c.upTo, c.behind.orderedInsert (fun a b => value a < value b) i⟩
  else ⟨c.upTo.orderedInsert (fun a b => value a < value b) i, c.behind⟩

def remove (c : Cursor I) (i : I) : Cursor I :=
  ⟨c.upTo.filter fun j => j ≠ i, c.behind.filter fun j => j ≠ i⟩

def next (c : Cursor I) : Cursor I :=
  match c.behind, c.upTo with
  | j :: js, is => ⟨is ++ [j], js⟩
  | [], i :: is => ⟨[i], is⟩
  | [], [] => c

end Cursor

/-- the lists, the values of the items, and the entries returned -/
structure Lists (L I : Type) where
  cursor : L → Cursor I
  value : I → UInt32
  owners : List (L × I)

namespace Lists
variable {L I : Type} [DecidableEq L] [DecidableEq I]

def init (m : ListMem L I) : Lists L I := ⟨fun _ => ⟨[], []⟩, fun i => m.xItemValue (.item i), []⟩

def set (s : Lists L I) (l : L) (c : Cursor I) : Lists L I :=
  { s with cursor := Function.update s.cursor l c }

def apply (s : Lists L I) : ListAct L I → Lists L I
  | .vListInsertEnd l i => s.set l ((s.cursor l).insertEnd i)
  | .vListInsert l i xValue =>
    let value := Function.update s.value i xValue
    { s.set l ((s.cursor l).insert value i) with value := value }
  | .uxListRemove i => { s with cursor := fun l => (s.cursor l).remove i }
  | .next l =>
    let c := (s.cursor l).next
    { s.set l c with owners := s.owners ++ c.upTo.getLast?.toList.map fun i => (l, i) }

end Lists

/-! ### Items in order -/

section
variable {I : Type}

theorem orderedInsert_append_left {value : I → UInt32} {i : I} {xs : List I} (ys : List I)
    (h : ∀ j ∈ xs, value j ≤ value i) :
    (xs ++ ys).orderedInsert (fun a b => value a < value b) i =
      xs ++ ys.orderedInsert (fun a b => value a < value b) i := by
  induction xs with
  | nil => rfl
  | cons x xs ih =>
    have hx : ¬ value i < value x := UInt32.not_lt.mpr (h x List.mem_cons_self)
    rw [List.cons_append, List.orderedInsert_cons, if_neg hx,
      ih fun j hj => h j (List.mem_cons_of_mem x hj), List.cons_append]

theorem orderedInsert_append_right {value : I → UInt32} {i : I} {xs : List I} (ys : List I)
    (h : ¬ ∀ j ∈ xs, value j ≤ value i) :
    (xs ++ ys).orderedInsert (fun a b => value a < value b) i =
      xs.orderedInsert (fun a b => value a < value b) i ++ ys := by
  induction xs with
  | nil => exact absurd (fun j hj => nomatch hj) h
  | cons x xs ih =>
    rw [List.cons_append, List.orderedInsert_cons, List.orderedInsert_cons]
    by_cases hx : value i < value x
    · rw [if_pos hx, if_pos hx, List.cons_append, List.cons_append]
    · have htail : ¬ ∀ j ∈ xs, value j ≤ value i := fun hall =>
        h (List.forall_mem_cons.mpr ⟨UInt32.not_lt.mp hx, hall⟩)
      rw [if_neg hx, if_neg hx, ih htail, List.cons_append]

theorem orderedInsert_getLast {value : I → UInt32} {i : I} {xs : List I}
    (h : ¬ ∀ j ∈ xs, value j ≤ value i) :
    (xs.orderedInsert (fun a b => value a < value b) i).getLast? = xs.getLast? := by
  induction xs with
  | nil => exact absurd (fun j hj => nomatch hj) h
  | cons x xs ih =>
    rw [List.orderedInsert_cons]
    by_cases hx : value i < value x
    · rw [if_pos hx, List.getLast?_cons_cons]
    · have htail : ¬ ∀ j ∈ xs, value j ≤ value i := fun hall =>
        h (List.forall_mem_cons.mpr ⟨UInt32.not_lt.mp hx, hall⟩)
      rw [if_neg hx, List.getLast?_cons, List.getLast?_cons, ih htail]

/-- `vListInsert` keeps a sorted list sorted -/
theorem filter_orderedInsert (value : I → UInt32) {p : I → Bool} (hi : ¬ p i = true) (is : List I) :
    (is.orderedInsert (fun a b => value a < value b) i).filter p = is.filter p := by
  rw [List.orderedInsert_eq_take_drop, List.filter_append, List.filter_cons_of_neg hi,
    ← List.filter_append, List.takeWhile_append_dropWhile]

theorem sorted_orderedInsert {value : I → UInt32} (i : I) {xs : List I}
    (h : xs.Pairwise fun a b => value a ≤ value b) :
    (xs.orderedInsert (fun a b => value a < value b) i).Pairwise fun a b => value a ≤ value b := by
  induction xs with
  | nil => exact List.pairwise_singleton _ i
  | cons x xs ih =>
    obtain ⟨hx, htail⟩ := List.pairwise_cons.mp h
    rw [List.orderedInsert_cons]
    by_cases hlt : value i < value x
    · rw [if_pos hlt]
      refine List.pairwise_cons.mpr ⟨fun y hy => ?_, h⟩
      obtain rfl | hy := List.mem_cons.mp hy
      · exact UInt32.le_of_lt hlt
      · exact UInt32.le_trans (UInt32.le_of_lt hlt) (hx y hy)
    · rw [if_neg hlt]
      refine List.pairwise_cons.mpr ⟨fun y hy => ?_, ih htail⟩
      obtain rfl | hy := (List.mem_orderedInsert _).mp hy
      · exact UInt32.not_lt.mp hlt
      · exact hx y hy

end

/-! ### The memory holds the lists -/

namespace ListMem
variable {L I : Type}

def links (m : ListMem L I) : Links (ListPtr L I) := ⟨m.pxNext, m.pxPrevious⟩

def ptrs (L : Type) (is : List I) : List (ListPtr L I) := is.map .item

/-- the last of the items, or the end marker -/
def lastPtr (l : L) (is : List I) : ListPtr L I := (ptrs L is).getLastD (.xListEnd l)

/-- the first of the items, or the end marker -/
def firstPtr (l : L) (is : List I) : ListPtr L I := (ptrs L is).headD (.xListEnd l)

structure Holds (m : ListMem L I) (l : L) (c : Cursor I) : Prop where
  ring : m.links.Ring (.xListEnd l) (ptrs L c.items)
  index : m.pxIndex l = lastPtr l c.upTo
  count : m.uxNumberOfItems l = c.items.length
  marker : m.xItemValue (.xListEnd l) = portMaxDelay
  nodup : c.items.Nodup
  container : ∀ i, m.pxContainer i = some l ↔ i ∈ c.items

section
variable {m : ListMem L I} {l : L} {i j : I} {c : Cursor I} {is js : List I}

theorem ptrs_append (is js : List I) : ptrs L (is ++ js) = ptrs L is ++ ptrs L js :=
  List.map_append

theorem mem_ptrs : ListPtr.item i ∈ ptrs L is ↔ i ∈ is :=
  List.mem_map_of_injective fun _ _ heq => ListPtr.item.inj heq

theorem nodup_ptrs (l : L) (h : is.Nodup) : (ListPtr.xListEnd l :: ptrs L is).Nodup := by
  refine List.nodup_cons.mpr ⟨fun hmem => ?_, h.map fun _ _ heq => ListPtr.item.inj heq⟩
  obtain ⟨j, -, hj⟩ := List.mem_map.mp hmem
  cases hj

theorem item_notMem (l : L) (h : i ∉ is) : ListPtr.item i ∉ ListPtr.xListEnd l :: ptrs L is := by
  rintro (_ | ⟨_, hmem⟩)
  exact h (mem_ptrs.mp hmem)

theorem lastPtr_mem (l : L) (is js : List I) :
    lastPtr l is ∈ ListPtr.xListEnd l :: ptrs L (is ++ js) := by
  unfold lastPtr
  induction is using List.reverseRecOn with
  | nil => exact List.mem_cons_self
  | append_singleton is i _ =>
    rw [ptrs_append, ptrs_append, ptrs, ptrs, List.map_singleton, List.getLastD_concat]
    refine List.mem_cons_of_mem _ (List.mem_append_left _ (List.mem_append_right _ ?_))
    exact List.mem_singleton_self _

theorem firstPtr_mem (l : L) (is js : List I) :
    firstPtr l js ∈ ListPtr.xListEnd l :: ptrs L (is ++ js) := by
  unfold firstPtr
  cases js with
  | nil => exact List.mem_cons_self
  | cons j js =>
    rw [ptrs_append]
    exact List.mem_cons_of_mem _ (List.mem_append_right _ List.mem_cons_self)

theorem lastPtr_concat (l : L) (is : List I) (i : I) : lastPtr l (is ++ [i]) = .item i := by
  rw [lastPtr, ptrs_append, ptrs, ptrs, List.map_singleton, List.getLastD_concat]

/-- the neighbours at a place of the ring -/
theorem neighbours (h : m.links.Ring (.xListEnd l) (ptrs L (is ++ js))) :
    m.pxNext (lastPtr l is) = firstPtr l js ∧ m.pxPrevious (firstPtr l js) = lastPtr l is := by
  rw [ptrs_append] at h
  exact h.neighbours

end

/-! ### What the calls write -/

section
variable [DecidableEq L] [DecidableEq I] {m : ListMem L I} {l : L} {i : I}

theorem links_insertEnd (hi : m.pxIndex l ≠ .item i)
    (hnext : m.pxNext (m.pxPrevious (m.pxIndex l)) = m.pxIndex l) :
    (m.vListInsertEnd l i).links =
      m.links.insertAfter (m.pxPrevious (m.pxIndex l)) (.item i) := by
  have hback : Function.update m.pxPrevious (.item i) (m.pxPrevious (m.pxIndex l)) (m.pxIndex l) =
      m.pxPrevious (m.pxIndex l) := Function.update_of_ne hi _ _
  have hprev : (m.vListInsertEnd l i).pxPrevious =
      (m.links.insertAfter (m.pxPrevious (m.pxIndex l)) (.item i)).prev := by
    show Function.update (Function.update m.pxPrevious (.item i) (m.pxPrevious (m.pxIndex l)))
      (m.pxIndex l) (.item i) = Function.update (Function.update m.pxPrevious
        (m.pxNext (m.pxPrevious (m.pxIndex l))) (.item i)) (.item i) (m.pxPrevious (m.pxIndex l))
    rw [hnext, Function.update_comm hi]
  have hnext' : (m.vListInsertEnd l i).pxNext =
      (m.links.insertAfter (m.pxPrevious (m.pxIndex l)) (.item i)).next := by
    show Function.update (Function.update m.pxNext (.item i) (m.pxIndex l))
      (Function.update m.pxPrevious (.item i) (m.pxPrevious (m.pxIndex l)) (m.pxIndex l)) (.item i) =
      Function.update (Function.update m.pxNext (.item i)
        (m.pxNext (m.pxPrevious (m.pxIndex l)))) (m.pxPrevious (m.pxIndex l)) (.item i)
    rw [hback, hnext]
  exact congrArg₂ Links.mk hnext' hprev

theorem links_insertBehind (p : ListPtr L I) :
    (m.insertBehind l i p).links = m.links.insertAfter p (.item i) := by
  have hread : Function.update m.pxNext (.item i) (m.pxNext p) (.item i) = m.pxNext p :=
    Function.update_self _ _ _
  have hprev : (m.insertBehind l i p).pxPrevious = (m.links.insertAfter p (.item i)).prev := by
    show Function.update (Function.update m.pxPrevious
      (Function.update m.pxNext (.item i) (m.pxNext p) (.item i)) (.item i)) (.item i) p =
      Function.update (Function.update m.pxPrevious (m.pxNext p) (.item i)) (.item i) p
    rw [hread]
  exact congrArg (Links.mk _) hprev

theorem links_removeFrom (hnext : m.pxNext (.item i) ≠ .item i) :
    (m.removeFrom l i).links = m.links.remove (.item i) := by
  have hread : Function.update m.pxPrevious (m.pxNext (.item i)) (m.pxPrevious (.item i)) (.item i) =
      m.pxPrevious (.item i) := Function.update_of_ne (Ne.symm hnext) _ _
  have hnext' : (m.removeFrom l i).pxNext = (m.links.remove (.item i)).next := by
    show Function.update m.pxNext (Function.update m.pxPrevious (m.pxNext (.item i))
      (m.pxPrevious (.item i)) (.item i)) (m.pxNext (.item i)) =
      Function.update m.pxNext (m.pxPrevious (.item i)) (m.pxNext (.item i))
    rw [hread]
  exact congrArg (Links.mk · _) hnext'

end

/-! ### Lists apart -/

/-- not on the list `l`, nor `i` -/
def Outside (m : ListMem L I) (l : L) (i : I) (p : ListPtr L I) : Prop :=
  p ≠ .xListEnd l ∧ p ≠ .item i ∧ ∀ j, p = .item j → m.pxContainer j ≠ some l

/-- `m'` is `m` but for the list `l` and the item `i`, which no other list holds -/
structure Leaves (m m' : ListMem L I) (l : L) (i : I) : Prop where
  next : ∀ p, m.Outside l i p → m'.pxNext p = m.pxNext p
  previous : ∀ p, m.Outside l i p → m'.pxPrevious p = m.pxPrevious p
  index : ∀ l', l' ≠ l → m'.pxIndex l' = m.pxIndex l'
  count : ∀ l', l' ≠ l → m'.uxNumberOfItems l' = m.uxNumberOfItems l'
  marker : ∀ l', m'.xItemValue (.xListEnd l') = m.xItemValue (.xListEnd l')
  container : ∀ i', i' ≠ i → m'.pxContainer i' = m.pxContainer i'
  apart : ∀ l', l' ≠ l → m.pxContainer i ≠ some l' ∧ m'.pxContainer i ≠ some l'

section
variable {m m' : ListMem L I} {l l' : L} {i : I} {c : Cursor I} {p : ListPtr L I}

theorem Holds.not_outside (h : m.Holds l c) (hp : p ∈ ListPtr.xListEnd l :: ptrs L c.items) :
    ¬ m.Outside l i p := by
  rintro ⟨hend, -, hitem⟩
  obtain rfl | hp := List.mem_cons.mp hp
  · exact hend rfl
  · obtain ⟨j, hj, rfl⟩ := List.mem_map.mp hp
    exact hitem j rfl ((h.container j).mpr hj)

theorem Holds.outside (h : m.Holds l' c) (hne : l' ≠ l) (hi : m.pxContainer i ≠ some l')
    (hp : p ∈ ListPtr.xListEnd l' :: ptrs L c.items) : m.Outside l i p := by
  obtain rfl | hp := List.mem_cons.mp hp
  · refine ⟨fun heq => hne (ListPtr.xListEnd.inj heq), fun heq => ?_, fun j heq => ?_⟩
    · cases heq
    · cases heq
  · obtain ⟨j, hj, rfl⟩ := List.mem_map.mp hp
    have hcontainer := (h.container j).mpr hj
    refine ⟨fun heq => ?_, fun heq => hi (ListPtr.item.inj heq ▸ hcontainer), fun j' heq hj' => ?_⟩
    · cases heq
    · rw [← ListPtr.item.inj heq, hcontainer] at hj'
      exact hne (Option.some.inj hj')

variable [DecidableEq I]

theorem Leaves.holds (hm : m.Leaves m' l i) (hne : l' ≠ l) (h : m.Holds l' c) : m'.Holds l' c where
  ring := h.ring.frame (fun p hp => hm.next p (h.outside hne (hm.apart l' hne).1 hp))
    fun p hp => hm.previous p (h.outside hne (hm.apart l' hne).1 hp)
  index := (hm.index l' hne).trans h.index
  count := (hm.count l' hne).trans h.count
  marker := (hm.marker l').trans h.marker
  nodup := h.nodup
  container i' := by
    by_cases hi' : i' = i
    · have hout : i ∉ c.items := fun hmem => (hm.apart l' hne).1 ((h.container i).mpr hmem)
      rw [hi']
      exact iff_of_false (hm.apart l' hne).2 hout
    · rw [hm.container i' hi']
      exact h.container i'

end

/-! ### Insertion -/

section
variable [DecidableEq L] [DecidableEq I]

/-- what both insertions do: `i` comes behind the items `is` of the list `l` -/
structure Inserts (m m' : ListMem L I) (l : L) (i : I) (is : List I) : Prop where
  links : m'.links = m.links.insertAfter (lastPtr l is) (.item i)
  index : m'.pxIndex = m.pxIndex
  value : m'.xItemValue = m.xItemValue
  container : m'.pxContainer = Function.update m.pxContainer i (some l)
  count : m'.uxNumberOfItems = Function.update m.uxNumberOfItems l (m.uxNumberOfItems l + 1)

variable {m m' : ListMem L I} {l : L} {i : I} {c c' : Cursor I} {is js : List I}

theorem Inserts.holds (hm : m.Inserts m' l i is) (h : m.Holds l c) (hi : m.pxContainer i = none)
    (hitems : c.items = is ++ js) (hitems' : c'.items = is ++ i :: js)
    (hindex : lastPtr l c'.upTo = lastPtr l c.upTo) : m'.Holds l c' := by
  have hout : i ∉ c.items := fun hmem => by
    rw [(h.container i).mpr hmem] at hi
    cases hi
  refine ⟨?_, ?_, ?_, ?_, ?_, fun i' => ?_⟩
  · have hring := h.ring
    have hnodup := nodup_ptrs l h.nodup
    have hnew := item_notMem l hout
    rw [hitems, ptrs_append] at hring hnodup hnew
    rw [hitems', ptrs_append, hm.links]
    exact hring.insert hnodup hnew
  · rw [hm.index, h.index, hindex]
  · rw [hm.count, Function.update_self, h.count, hitems, hitems', List.length_append,
      List.length_append, List.length_cons, Nat.add_assoc]
  · rw [hm.value, h.marker]
  · rw [hitems', List.nodup_middle, ← hitems]
    exact List.nodup_cons.mpr ⟨hout, h.nodup⟩
  · rw [hm.container, hitems', List.perm_middle.mem_iff, ← hitems, List.mem_cons,
      Function.update_apply]
    by_cases hi' : i' = i
    · rw [if_pos hi']
      exact iff_of_true rfl (Or.inl hi')
    · rw [if_neg hi', h.container]
      exact (or_iff_right hi').symm

theorem Inserts.leaves (hm : m.Inserts m' l i is) (h : m.Holds l c) (hi : m.pxContainer i = none)
    (hitems : c.items = is ++ js) : m.Leaves m' l i := by
  have hring := h.ring
  rw [hitems] at hring
  have hlast := h.not_outside (hitems ▸ lastPtr_mem l is js) (i := i)
  have hfirst := h.not_outside (hitems ▸ firstPtr_mem l is js) (i := i)
  have hnext : m'.pxNext = (m.links.insertAfter (lastPtr l is) (.item i)).next :=
    congrArg Links.next hm.links
  have hprev : m'.pxPrevious = (m.links.insertAfter (lastPtr l is) (.item i)).prev :=
    congrArg Links.prev hm.links
  refine ⟨fun p hp => ?_, fun p hp => ?_, fun l' _ => ?_, fun l' hne => ?_, fun l' => ?_,
    fun i' hi' => ?_, fun l' hne => ⟨?_, ?_⟩⟩
  · rw [hnext]
    exact m.links.insertAfter_next (fun heq => hlast (heq ▸ hp)) hp.2.1
  · rw [hprev]
    exact m.links.insertAfter_prev hp.2.1 fun heq =>
      hfirst (heq.trans (neighbours hring).1 ▸ hp)
  · rw [hm.index]
  · rw [hm.count, Function.update_of_ne hne]
  · rw [hm.value]
  · rw [hm.container, Function.update_of_ne hi']
  · rw [hi]
    exact fun heq => nomatch heq
  · rw [hm.container, Function.update_self]
    exact fun heq => hne (Option.some.inj heq).symm

end

section
variable {m : ListMem L I} {l : L} {i : I} {c : Cursor I} {is js : List I}

theorem split_insertEnd (l : L) (c : Cursor I) (i : I) : ∃ is js,
    c.items = is ++ js ∧ (c.insertEnd i).items = is ++ i :: js ∧
    lastPtr l (c.insertEnd i).upTo = lastPtr l c.upTo ∧ firstPtr l js = lastPtr l c.upTo := by
  obtain ⟨upTo, behind⟩ := c
  induction upTo using List.reverseRecOn with
  | nil => exact ⟨behind, [], (List.append_nil behind).symm, rfl, rfl, rfl⟩
  | append_singleton is j _ =>
    have hlast := List.getLast?_concat (l := is) (a := j)
    refine ⟨is, j :: behind, List.append_assoc .., ?_, ?_, (lastPtr_concat l is j).symm⟩
    · rw [Cursor.insertEnd, hlast]
      show (is ++ [j]).dropLast ++ [i, j] ++ behind = _
      rw [List.dropLast_concat, List.append_assoc]
      rfl
    · rw [Cursor.insertEnd, hlast]
      show lastPtr l ((is ++ [j]).dropLast ++ [i, j]) = _
      rw [List.dropLast_concat, lastPtr_concat, ← lastPtr_concat l (is ++ [i]) j, List.append_assoc]
      rfl

theorem Holds.item_ne (h : m.Holds l c) (hi : m.pxContainer i = none) : i ∉ c.items := fun hmem => by
  rw [(h.container i).mpr hmem] at hi
  cases hi

theorem items_insert (value : I → UInt32) (c : Cursor I) (i : I) : (c.insert value i).items =
    (c.items.takeWhile fun j => ¬ value i < value j) ++ i ::
      c.items.dropWhile fun j => ¬ value i < value j := by
  rw [← List.orderedInsert_eq_take_drop (fun a b => value a < value b)]
  unfold Cursor.insert
  split
  · exact (orderedInsert_append_left c.behind ‹_›).symm
  · exact (orderedInsert_append_right c.behind ‹_›).symm

theorem lastPtr_eq (l : L) (is : List I) :
    lastPtr l is = (is.getLast?.map ListPtr.item).getD (.xListEnd l) := by
  induction is using List.reverseRecOn with
  | nil => rfl
  | append_singleton is i _ => rw [lastPtr_concat, List.getLast?_concat]; rfl

theorem lastPtr_insert (l : L) (value : I → UInt32) (c : Cursor I) (i : I) :
    lastPtr l (c.insert value i).upTo = lastPtr l c.upTo := by
  rw [lastPtr_eq, lastPtr_eq]
  unfold Cursor.insert
  split
  · rfl
  · rw [orderedInsert_getLast ‹_›]

theorem insertPosition_eq {v : UInt32} (is js : List I)
    (hring : m.links.Ring (.xListEnd l) (ptrs L (is ++ js)))
    (hmarker : v < m.xItemValue (.xListEnd l)) {fuel : Nat} (hfuel : js.length < fuel) :
    m.insertPosition v fuel (lastPtr l is) =
      some (lastPtr l (is ++ js.takeWhile fun j => ¬ v < m.xItemValue (.item j))) := by
  induction js generalizing is fuel with
  | nil =>
    obtain ⟨fuel, rfl⟩ := Nat.exists_eq_succ_of_ne_zero (Nat.ne_of_gt hfuel)
    unfold insertPosition
    rw [(neighbours hring).1, List.takeWhile_nil, List.append_nil]
    exact if_neg (UInt32.not_le.mpr hmarker)
  | cons j js ih =>
    obtain ⟨fuel, rfl⟩ := Nat.exists_eq_succ_of_ne_zero (Nat.ne_of_gt (Nat.zero_lt_of_lt hfuel))
    unfold insertPosition
    rw [(neighbours hring).1]
    show (if m.xItemValue (.item j) ≤ v then m.insertPosition v fuel (.item j)
      else some (lastPtr l is)) = _
    by_cases hle : m.xItemValue (.item j) ≤ v
    · have hgo : decide (¬ v < m.xItemValue (.item j)) = true :=
        decide_eq_true (UInt32.not_lt.mpr hle)
      rw [if_pos hle, List.takeWhile_cons, if_pos hgo, ← lastPtr_concat l is j,
        ih _ (List.append_cons is j js ▸ hring) (Nat.lt_of_succ_lt_succ hfuel), ← List.append_cons]
    · have hstop : ¬ decide (¬ v < m.xItemValue (.item j)) = true := by
        rw [decide_eq_true_iff, not_not]
        exact UInt32.not_le.mp hle
      rw [if_neg hle, List.takeWhile_cons, if_neg hstop, List.append_nil]

variable [DecidableEq L] [DecidableEq I]

theorem Holds.inserts_insertEnd (h : m.Holds l c) (hi : m.pxContainer i = none)
    (hitems : c.items = is ++ js) (hfirst : firstPtr l js = lastPtr l c.upTo) :
    m.Inserts (m.vListInsertEnd l i) l i is := by
  have hring := h.ring
  rw [hitems] at hring
  obtain ⟨hnext, hprev⟩ := neighbours hring
  have hindex : m.pxIndex l = firstPtr l js := h.index.trans hfirst.symm
  rw [← hindex] at hnext hprev
  have hne : m.pxIndex l ≠ .item i := fun heq => by
    have hmem := firstPtr_mem l is js
    rw [← hindex, heq, ← hitems] at hmem
    exact item_notMem l (h.item_ne hi) hmem
  refine ⟨?_, rfl, rfl, rfl, rfl⟩
  rw [links_insertEnd hne (hprev ▸ hnext), hprev]

/-- what `vListInsert` computes -/
theorem Holds.insert_eq (h : m.Holds l c) : m.vListInsert l i =
    some (m.insertBehind l i (lastPtr l (c.items.takeWhile fun j =>
      ¬ m.xItemValue (.item i) < m.xItemValue (.item j)))) := by
  have hring := h.ring
  show (if m.xItemValue (.item i) = portMaxDelay then some (m.pxPrevious (.xListEnd l))
    else m.insertPosition (m.xItemValue (.item i)) (m.uxNumberOfItems l + 1) (.xListEnd l)).map
      (m.insertBehind l i) = _
  by_cases hmax : m.xItemValue (.item i) = portMaxDelay
  · have hall : ∀ j ∈ c.items, ¬ m.xItemValue (.item i) < m.xItemValue (.item j) := fun j _ hlt => by
      rw [hmax, UInt32.lt_iff_toNat_lt] at hlt
      have hj := (m.xItemValue (.item j)).toNat_lt
      have : portMaxDelay.toNat = 2 ^ 32 - 1 := rfl
      omega
    rw [← List.append_nil c.items] at hring
    have hlast : m.pxPrevious (.xListEnd l) = lastPtr l c.items := (neighbours hring).2
    rw [if_pos hmax, List.takeWhile_eq_self_iff.mpr fun j hj => decide_eq_true (hall j hj), hlast]
    rfl
  · have hlt : m.xItemValue (.item i) < m.xItemValue (.xListEnd l) := by
      rw [h.marker, UInt32.lt_iff_toNat_lt]
      have hne : (m.xItemValue (.item i)).toNat ≠ portMaxDelay.toNat := fun heq =>
        hmax (UInt32.toNat_inj.mp heq)
      have hi := (m.xItemValue (.item i)).toNat_lt
      have : portMaxDelay.toNat = 2 ^ 32 - 1 := rfl
      omega
    have hpos := insertPosition_eq [] c.items hring hlt (Nat.lt_succ_self c.items.length)
    rw [if_neg hmax, h.count]
    exact congrArg (Option.map _) hpos

theorem inserts_insertBehind (m : ListMem L I) (l : L) (i : I) (is : List I) :
    m.Inserts (m.insertBehind l i (lastPtr l is)) l i is :=
  ⟨links_insertBehind _, rfl, rfl, rfl, rfl⟩

theorem Holds.insert {m : ListMem L I} {l : L} {i : I} {c : Cursor I} (h : m.Holds l c)
    (hi : m.pxContainer i = none) : ∃ m', m.vListInsert l i = some m' ∧
      m'.xItemValue = m.xItemValue ∧ m.Leaves m' l i ∧
      m'.Holds l (c.insert (fun j => m.xItemValue (.item j)) i) := by
  have hinserts := m.inserts_insertBehind l i (c.items.takeWhile fun j =>
    ¬ m.xItemValue (.item i) < m.xItemValue (.item j))
  have hitems := (List.takeWhile_append_dropWhile (p := fun j =>
    ¬ m.xItemValue (.item i) < m.xItemValue (.item j)) (l := c.items)).symm
  exact ⟨_, h.insert_eq, rfl, hinserts.leaves h hi hitems,
    hinserts.holds h hi hitems (items_insert _ c i) (lastPtr_insert l _ c i)⟩

end

/-! ### Removal -/

section
variable [DecidableEq L] [DecidableEq I] {m : ListMem L I} {l : L} {i j : I} {c : Cursor I}
  {is js : List I}

theorem filter_ne (h : (is ++ i :: js).Nodup) :
    (is ++ i :: js).filter (fun j => j ≠ i) = is ++ js := by
  have hout : i ∉ is ++ js := (List.nodup_cons.mp (List.nodup_middle.mp h)).1
  have hsame : (is ++ js).filter (fun j => j ≠ i) = is ++ js :=
    List.filter_eq_self.mpr fun _ hj => decide_eq_true fun heq => hout (heq ▸ hj)
  rw [List.filter_append, List.filter_cons_of_neg (by simp), ← List.filter_append, hsame]

theorem filter_ne_of_notMem (h : i ∉ is) : is.filter (fun j => j ≠ i) = is :=
  List.filter_eq_self.mpr fun _ hj => decide_eq_true fun heq => h (heq ▸ hj)

theorem remove_of_notMem (h : i ∉ c.items) : c.remove i = c := by
  have hupTo : i ∉ c.upTo := fun hi => h (List.mem_append_left _ hi)
  have hbehind : i ∉ c.behind := fun hi => h (List.mem_append_right _ hi)
  unfold Cursor.remove
  rw [filter_ne_of_notMem hupTo, filter_ne_of_notMem hbehind]

theorem items_remove (c : Cursor I) (i : I) :
    (c.remove i).items = c.items.filter fun j => j ≠ i := List.filter_append .. |>.symm

/-- the entry of `pxIndex`, when the item goes -/
theorem Holds.index_remove (h : m.Holds l c) (i : I) :
    (if m.pxIndex l = .item i then m.pxPrevious (.item i) else m.pxIndex l) =
      lastPtr l (c.remove i).upTo := by
  have hring := h.ring
  have hnodup := h.nodup
  rw [h.index]
  by_cases hi : i ∈ c.upTo
  · obtain ⟨is, js, hsplit⟩ := List.append_of_mem hi
    have hupTo : (c.remove i).upTo = is ++ js := by
      have hsub : c.upTo.Nodup := hnodup.of_append_left
      show c.upTo.filter _ = _
      rw [hsplit] at hsub ⊢
      exact filter_ne hsub
    rw [hupTo, hsplit]
    induction js using List.reverseRecOn with
    | nil =>
      have hitems : c.items = is ++ i :: c.behind := by
        unfold Cursor.items
        rw [hsplit, List.append_assoc]
        rfl
      rw [hitems] at hring
      rw [lastPtr_concat, if_pos rfl, List.append_nil]
      exact (neighbours hring).2
    | append_singleton js j _ =>
      have hne : j ≠ i := fun heq => by
        have hsub : c.upTo.Nodup := hnodup.of_append_left
        rw [hsplit, heq, List.nodup_middle] at hsub
        exact (List.nodup_cons.mp hsub).1 (List.mem_append_right _ (List.mem_append_right _
          (List.mem_singleton_self i)))
      rw [← List.append_assoc, lastPtr_concat, ← List.cons_append, ← List.append_assoc,
        lastPtr_concat, if_neg fun heq => hne (ListPtr.item.inj heq)]
  · have hsame : (c.remove i).upTo = c.upTo := filter_ne_of_notMem hi
    rw [hsame]
    refine if_neg fun heq => item_notMem l hi ?_
    rw [← heq, ← List.append_nil c.upTo]
    exact (List.append_nil c.upTo).symm ▸ lastPtr_mem l c.upTo []

theorem Holds.remove (h : m.Holds l c) (hmem : i ∈ c.items) :
    (m.removeFrom l i).Holds l (c.remove i) ∧ m.Leaves (m.removeFrom l i) l i := by
  obtain ⟨is, js, hitems⟩ := List.append_of_mem hmem
  have hring := h.ring
  have hnodup := h.nodup
  have hptrs := nodup_ptrs l h.nodup
  have hindex := h.index_remove i
  have hlast := h.not_outside (hitems ▸ lastPtr_mem l is (i :: js)) (i := i)
  have hfirst : ¬ m.Outside l i (firstPtr l js) := by
    refine h.not_outside ?_
    rw [hitems, List.append_cons]
    exact firstPtr_mem l (is ++ [i]) js
  rw [hitems] at hring hnodup hptrs
  have hprev : m.pxPrevious (.item i) = lastPtr l is := (neighbours hring).2
  have hnext : m.pxNext (.item i) = firstPtr l js := by
    rw [List.append_cons] at hring
    rw [← lastPtr_concat l is i]
    exact (neighbours hring).1
  have hne : m.pxNext (.item i) ≠ .item i := fun heq => by
    have hout : i ∉ is ++ js := (List.nodup_cons.mp (List.nodup_middle.mp hnodup)).1
    have hin := firstPtr_mem l is js
    rw [← hnext, heq] at hin
    exact item_notMem l hout hin
  have hlinks := links_removeFrom (l := l) hne
  have hkept : (c.remove i).items = is ++ js := by
    rw [items_remove, hitems, filter_ne hnodup]
  refine ⟨⟨?_, ?_, ?_, h.marker, ?_, fun i' => ?_⟩, ⟨fun p hp => ?_, fun p hp => ?_,
    fun l' hl' => ?_, fun l' hl' => ?_, fun _ => rfl, fun i' hi' => ?_, fun l' hl' => ⟨?_, ?_⟩⟩⟩
  · rw [hkept, hlinks, ptrs_append]
    rw [ptrs_append] at hring hptrs
    exact hring.remove hptrs
  · have hback : (m.removeFrom l i).pxPrevious (.item i) = m.pxPrevious (.item i) :=
      Function.update_of_ne (Ne.symm hne) _ _
    rw [← hindex]
    show (if m.pxIndex l = .item i then
      Function.update m.pxIndex l ((m.removeFrom l i).pxPrevious (.item i)) else m.pxIndex) l = _
    rw [hback]
    split
    · exact Function.update_self ..
    · rfl
  · show Function.update m.uxNumberOfItems l (m.uxNumberOfItems l - 1) l = _
    rw [Function.update_self, h.count, hkept, hitems, List.length_append, List.length_cons,
      List.length_append]
    rfl
  · rw [hkept]
    exact (List.nodup_cons.mp (List.nodup_middle.mp hnodup)).2
  · show Function.update m.pxContainer i none i' = some l ↔ _
    rw [items_remove, List.mem_filter, Function.update_apply, decide_eq_true_iff]
    by_cases hi' : i' = i
    · rw [if_pos hi']
      exact iff_of_false (fun heq => nomatch heq) fun hin => hin.2 hi'
    · rw [if_neg hi', h.container]
      exact (and_iff_left hi').symm
  · have hnext' : (m.removeFrom l i).pxNext p = (m.links.remove (.item i)).next p :=
      congrArg (fun k => Links.next k p) hlinks
    have hpast : p ≠ m.pxPrevious (.item i) := fun heq => hlast (hprev ▸ heq ▸ hp)
    exact hnext'.trans ((Links.link_next ..).trans (if_neg hpast))
  · have hprev' : (m.removeFrom l i).pxPrevious p = (m.links.remove (.item i)).prev p :=
      congrArg (fun k => Links.prev k p) hlinks
    have hpast : p ≠ m.pxNext (.item i) := fun heq => hfirst (hnext ▸ heq ▸ hp)
    exact hprev'.trans ((Links.link_prev ..).trans (if_neg hpast))
  · show (if m.pxIndex l = .item i then Function.update m.pxIndex l _ else m.pxIndex) l' = _
    split
    · exact Function.update_of_ne hl' _ _
    · rfl
  · exact Function.update_of_ne hl' _ _
  · exact Function.update_of_ne hi' _ _
  · rw [(h.container i).mpr hmem]
    exact fun heq => hl' (Option.some.inj heq).symm
  · show Function.update m.pxContainer i none i ≠ some l'
    rw [Function.update_self]
    exact fun heq => nomatch heq

end

/-! ### The next entry -/

section
variable {m : ListMem L I} {l l' : L} {c c' : Cursor I}

theorem next_items (c : Cursor I) : c.next.items = c.items := by
  obtain ⟨upTo, behind⟩ := c
  cases behind with
  | cons j js => exact List.append_assoc .. |>.trans rfl
  | nil =>
    cases upTo with
    | nil => rfl
    | cons i is => exact (List.append_nil (i :: is)).symm

/-- the one whose turn it is goes to the end -/
theorem next_turns {j : I} {js : List I} (h : c.turns = j :: js) :
    c.next.turns = js ++ [j] ∧ c.next.upTo.getLast? = some j := by
  obtain ⟨upTo, behind⟩ := c
  cases behind with
  | cons k ks =>
    obtain ⟨rfl, rfl⟩ := List.cons.inj h
    exact ⟨(List.append_assoc ks upTo [k]).symm, List.getLast?_concat⟩
  | nil =>
    cases upTo with
    | nil => cases h
    | cons k ks =>
      obtain ⟨rfl, rfl⟩ := List.cons.inj h
      exact ⟨rfl, rfl⟩

variable [DecidableEq L] [DecidableEq I]

theorem Holds.next_ptr (h : m.Holds l c) (hne : c.items ≠ []) :
    ∃ j, c.next.upTo.getLast? = some j ∧ (m.nextEntry l).pxIndex l = .item j := by
  obtain ⟨upTo, behind⟩ := c
  have hring := h.ring
  have hnext : m.pxNext (m.pxIndex l) = firstPtr l behind := by
    rw [h.index]
    exact (neighbours hring).1
  show ∃ j, _ ∧ Function.update m.pxIndex l (if m.pxNext (m.pxIndex l) = .xListEnd l then
    m.pxNext (m.pxNext (m.pxIndex l)) else m.pxNext (m.pxIndex l)) l = .item j
  rw [Function.update_self, hnext]
  cases behind with
  | cons j js =>
    exact ⟨j, List.getLast?_concat, if_neg fun heq => nomatch heq⟩
  | nil =>
    cases upTo with
    | nil => exact absurd rfl hne
    | cons i is =>
      have hring' : m.links.Ring (.xListEnd l) (ptrs L ([] ++ (i :: is ++ []))) := hring
      have hfirst : m.pxNext (.xListEnd l) = .item i := (neighbours hring').1
      exact ⟨i, rfl, (if_pos rfl).trans hfirst⟩

theorem Holds.next (h : m.Holds l c) (hne : c.items ≠ []) : (m.nextEntry l).Holds l c.next := by
  obtain ⟨j, hj, hindex⟩ := h.next_ptr hne
  refine ⟨?_, ?_, ?_, h.marker, ?_, fun i => ?_⟩
  · rw [next_items]
    exact h.ring
  · rw [hindex, lastPtr_eq, hj]
    rfl
  · rw [next_items]
    exact h.count
  · rw [next_items]
    exact h.nodup
  · rw [next_items]
    exact h.container i

theorem Holds.next_other (h : m.Holds l' c) (hne : l' ≠ l) : (m.nextEntry l).Holds l' c where
  ring := h.ring
  index := (Function.update_of_ne hne _ _).trans h.index
  count := h.count
  marker := h.marker
  nodup := h.nodup
  container := h.container

end

end ListMem

/-! ### Runs -/

section
variable {L I : Type}

structure Refines (r : ListRun L I) (s : Lists L I) : Prop where
  holds : ∀ l, r.mem.Holds l (s.cursor l)
  value : ∀ i, r.mem.xItemValue (.item i) = s.value i
  owners : r.owners = s.owners

theorem refines_init (m : ListMem L I) : Refines (ListRun.init m) (Lists.init m) where
  holds _ := ⟨⟨rfl, rfl⟩, rfl, rfl, rfl, List.nodup_nil, fun _ => iff_of_false nofun nofun⟩
  value _ := rfl
  owners := rfl

variable [DecidableEq L] [DecidableEq I] {r r' : ListRun L I} {s : Lists L I} {l : L} {i : I}
  {a : ListAct L I} {m : ListMem L I}

/-- one list is changed, the others are apart -/
theorem Refines.set (h : Refines r s) {c : Cursor I} (hm : r.mem.Leaves m l i) (hc : m.Holds l c)
    (l' : L) : m.Holds l' ((s.set l c).cursor l') := by
  show m.Holds l' (Function.update s.cursor l c l')
  by_cases hl' : l' = l
  · rw [hl', Function.update_self]
    exact hc
  · rw [Function.update_of_ne hl']
    exact hm.holds hl' (h.holds l')

theorem Refines.insertEnd (h : Refines r s) (hi : r.mem.pxContainer i = none) :
    Refines { r with mem := r.mem.vListInsertEnd l i } (s.apply (.vListInsertEnd l i)) := by
  obtain ⟨is, js, hitems, hitems', hlast, hfirst⟩ := ListMem.split_insertEnd l (s.cursor l) i
  have hinserts := (h.holds l).inserts_insertEnd hi hitems hfirst
  have hholds := hinserts.holds (h.holds l) hi hitems hitems' hlast
  exact ⟨h.set (hinserts.leaves (h.holds l) hi hitems) hholds, h.value, h.owners⟩

theorem Refines.setValue (h : Refines r s) (i : I) (xValue : UInt32) :
    Refines { r with mem := r.mem.setValue i xValue }
      { s with value := Function.update s.value i xValue } where
  holds l :=
    { ring := (h.holds l).ring
      index := (h.holds l).index
      count := (h.holds l).count
      marker := by
        have hne : ListPtr.xListEnd l ≠ (.item i : ListPtr L I) := nofun
        exact (Function.update_of_ne hne xValue r.mem.xItemValue).trans (h.holds l).marker
      nodup := (h.holds l).nodup
      container := (h.holds l).container }
  value i' := by
    show Function.update r.mem.xItemValue (.item i) xValue (.item i') =
      Function.update s.value i xValue i'
    by_cases hi' : i' = i
    · rw [hi', Function.update_self, Function.update_self]
    · rw [Function.update_of_ne fun heq => hi' (ListPtr.item.inj heq), Function.update_of_ne hi',
        h.value]
  owners := h.owners

theorem Refines.insert (h : Refines r s) (hi : r.mem.pxContainer i = none) (xValue : UInt32) :
    ∃ m, (r.mem.setValue i xValue).vListInsert l i = some m ∧
      Refines { r with mem := m } (s.apply (.vListInsert l i xValue)) := by
  have hv := h.setValue i xValue
  have hvalue : Function.update s.value i xValue =
      fun j => (r.mem.setValue i xValue).xItemValue (.item j) := funext fun j => (hv.value j).symm
  obtain ⟨m, hm, hsame, hleaves, hholds⟩ := (hv.holds l).insert hi
  rw [← hvalue] at hholds
  exact ⟨m, hm, hv.set hleaves hholds, fun i' => (congrFun hsame _).trans (hv.value i'), hv.owners⟩

theorem Refines.remove (h : Refines r s) (hi : r.mem.pxContainer i = some l) :
    Refines { r with mem := r.mem.removeFrom l i } (s.apply (.uxListRemove i)) := by
  obtain ⟨hholds, hleaves⟩ := (h.holds l).remove (((h.holds l).container i).mp hi)
  refine ⟨fun l' => ?_, h.value, h.owners⟩
  show (r.mem.removeFrom l i).Holds l' ((s.cursor l').remove i)
  by_cases hl' : l' = l
  · rw [hl']
    exact hholds
  · have hout : i ∉ (s.cursor l').items := fun hmem =>
      (hleaves.apart l' hl').1 (((h.holds l').container i).mpr hmem)
    rw [ListMem.remove_of_notMem hout]
    exact hleaves.holds hl' (h.holds l')

theorem Refines.next (h : Refines r s) (hne : r.mem.uxNumberOfItems l ≠ 0) :
    ∃ i, (s.cursor l).next.upTo.getLast? = some i ∧
      r.step (.next l) = some ⟨r.mem.nextEntry l, r.owners ++ [(l, i)]⟩ ∧
      Refines ⟨r.mem.nextEntry l, r.owners ++ [(l, i)]⟩ (s.apply (.next l)) := by
  have hitems : (s.cursor l).items ≠ [] := fun heq => hne (by rw [(h.holds l).count, heq]; rfl)
  obtain ⟨i, hlast, hindex⟩ := (h.holds l).next_ptr hitems
  refine ⟨i, hlast, ?_, fun l' => ?_, h.value, ?_⟩
  · show (if _ = 0 then none else _) = _
    rw [if_neg hne, hindex]
  · show (r.mem.nextEntry l).Holds l' (Function.update s.cursor l (s.cursor l).next l')
    by_cases hl' : l' = l
    · rw [hl', Function.update_self]
      exact (h.holds l).next hitems
    · rw [Function.update_of_ne hl']
      exact (h.holds l').next_other hl'
  · show r.owners ++ [(l, i)] = s.owners ++ (s.cursor l).next.upTo.getLast?.toList.map _
    rw [hlast, h.owners]
    rfl

/-- an allowed call returns, and does to the lists what it should -/
theorem Refines.step (h : Refines r s) (ha : r.Allowed a) :
    ∃ r', r.step a = some r' ∧ Refines r' (s.apply a) := by
  cases a with
  | vListInsertEnd l i => exact ⟨_, if_pos ha, h.insertEnd ha⟩
  | vListInsert l i xValue =>
    obtain ⟨m, hm, hrefines⟩ := h.insert ha xValue
    exact ⟨_, (if_pos ha).trans (by rw [hm]; rfl), hrefines⟩
  | uxListRemove i =>
    obtain ⟨l, hl⟩ := Option.ne_none_iff_exists'.mp ha
    exact ⟨_, by rw [ListRun.step, hl]; rfl, h.remove hl⟩
  | next l =>
    obtain ⟨i, -, hstep, hrefines⟩ := h.next ha
    exact ⟨_, hstep, hrefines⟩

theorem step_allowed (h : r.step a = some r') : r.Allowed a := by
  by_contra hnot
  have hnone : r.step a = none := by
    cases a with
    | vListInsertEnd l i => exact if_neg hnot
    | vListInsert l i xValue => exact if_neg hnot
    | uxListRemove i => exact congrArg (Option.map _) (not_not.mp hnot)
    | next l => exact if_pos (not_not.mp hnot)
  rw [hnone] at h
  cases h

theorem Refines.run (h : Refines r s) {as : List (ListAct L I)}
    (hrun : (listMem L I).run r as = some r') : Refines r' (as.foldl Lists.apply s) := by
  induction as generalizing r s with
  | nil =>
    cases hrun
    exact h
  | cons a as ih =>
    obtain ⟨t, ht, hrun⟩ := (Machine.run_cons_some _).mp hrun
    obtain ⟨t', ht', hrefines⟩ := h.step (step_allowed ht)
    have heq : t = t' := Option.some.inj (ht.symm.trans ht')
    exact ih (heq ▸ hrefines) hrun

/-- **The pointers hold the lists.**  After any calls from initialised memory, whatever it held
before, every list is the ring of its items in their order, with its count, its index and the
containers; and if the callers keep their side, every call returns. -/
theorem lists_refine {as : List (ListAct L I)}
    (h : (listMem L I).run (ListRun.init m) as = some r) :
    Refines r (as.foldl Lists.apply (Lists.init m)) ∧
      ∀ a, r.Allowed a → (r.step a).isSome := by
  have hrefines := (refines_init m).run h
  refine ⟨hrefines, fun a ha => ?_⟩
  obtain ⟨t, ht, -⟩ := hrefines.step ha
  exact Option.isSome_iff_exists.mpr ⟨t, ht⟩

/-- memory before it is initialised -/
def rawMem : ListMem Unit Nat where
  xItemValue _ := 0
  pxNext _ := .item 0
  pxPrevious _ := .item 0
  pxContainer _ := some ()
  uxNumberOfItems _ := 7
  pxIndex _ := .item 0

/-- three entries, one of them in its place by value -/
def threeEntries : List (ListAct Unit Nat) :=
  [.vListInsertEnd () 0, .vListInsert () 1 5, .vListInsertEnd () 2]

theorem lists_refine_three : ∃ r,
    (listMem Unit Nat).run (ListRun.init rawMem) threeEntries = some r ∧
    Refines r (threeEntries.foldl Lists.apply (Lists.init rawMem)) ∧
      ∀ a, r.Allowed a → (r.step a).isSome := by
  obtain ⟨r, hr⟩ := Option.isSome_iff_exists.mp (show ((listMem Unit Nat).run (ListRun.init rawMem)
    threeEntries).isSome by decide)
  exact ⟨r, hr, lists_refine hr⟩

/-! ### Turns -/

variable {x y z w : I} {c : Cursor I}

def oneOf (x y i : I) : Bool := decide (i = x ∨ i = y)

/-- of the two, in the order of their turns -/
def Cursor.pair (c : Cursor I) (x y : I) : List I := c.turns.filter (oneOf x y)

/-- of the two, as they were returned for the list `l` -/
def pairOwners (l : L) (x y : I) (os : List (L × I)) : List I :=
  ((os.filter fun o => o.1 = l).map Prod.snd).filter (oneOf x y)

theorem oneOf_out (hx : i ≠ x) (hy : i ≠ y) : ¬ oneOf x y i = true := by
  rw [oneOf, decide_eq_true_iff]
  exact not_or.mpr ⟨hx, hy⟩

theorem pair_insertEnd (hx : i ≠ x) (hy : i ≠ y) : (c.insertEnd i).pair x y = c.pair x y := by
  have hout := oneOf_out hx hy
  obtain ⟨upTo, behind⟩ := c
  induction upTo using List.reverseRecOn with
  | nil =>
    show ((behind ++ [i]) ++ []).filter _ = (behind ++ []).filter _
    rw [List.append_nil, List.append_nil, List.filter_append, List.filter_cons_of_neg hout,
      List.filter_nil, List.append_nil]
  | append_singleton is j _ =>
    have hlast : (is ++ [j]).getLast? = some j := List.getLast?_concat
    rw [Cursor.insertEnd, hlast]
    show (behind ++ ((is ++ [j]).dropLast ++ [i, j])).filter _ = (behind ++ (is ++ [j])).filter _
    rw [List.dropLast_concat, List.filter_append, List.filter_append, List.filter_append,
      List.filter_append, List.filter_cons_of_neg hout]

theorem pair_insert (value : I → UInt32) (hx : i ≠ x) (hy : i ≠ y) :
    (c.insert value i).pair x y = c.pair x y := by
  have hout := oneOf_out hx hy
  unfold Cursor.pair Cursor.turns Cursor.insert
  split
  · rw [List.filter_append, List.filter_append, filter_orderedInsert value hout]
  · rw [List.filter_append, List.filter_append, filter_orderedInsert value hout]

theorem pair_remove (hx : i ≠ x) (hy : i ≠ y) : (c.remove i).pair x y = c.pair x y := by
  have hturns : (c.remove i).turns = c.turns.filter fun j => j ≠ i :=
    List.filter_append .. |>.symm
  unfold Cursor.pair
  rw [hturns, List.filter_filter]
  refine List.filter_congr fun j _ => ?_
  by_cases hj : j = i
  · rw [hj]
    simp [oneOf, hx, hy]
  · simp [hj]

theorem pair_next {js : List I} {j : I} (hturns : c.turns = j :: js)
    (hpair : c.pair x y = [z, w]) :
    pairOwners l x y [(l, j)] = [] ∧ c.next.pair x y = [z, w] ∨
      pairOwners l x y [(l, j)] = [z] ∧ c.next.pair x y = [w, z] := by
  unfold Cursor.pair at hpair ⊢
  rw [hturns] at hpair
  have howners : pairOwners l x y [(l, j)] = [j].filter (oneOf x y) := by
    have hl : [(l, j)].filter (fun o => decide (o.1 = l)) = [(l, j)] := by simp
    rw [pairOwners, hl]
    rfl
  rw [(ListMem.next_turns hturns).1, List.filter_append, howners]
  by_cases hj : oneOf x y j = true
  · rw [List.filter_cons_of_pos hj] at hpair
    obtain ⟨rfl, hjs⟩ := List.cons.inj hpair
    rw [hjs, List.filter_cons_of_pos hj]
    exact Or.inr ⟨rfl, rfl⟩
  · rw [List.filter_cons_of_neg hj] at hpair
    rw [hpair, List.filter_cons_of_neg hj]
    exact Or.inl ⟨rfl, rfl⟩

theorem mem_of_pair (hpair : c.pair x y = [z, w]) (hx : i ∈ [z, w]) : i ∈ c.items := by
  rw [← hpair] at hx
  exact List.perm_append_comm.mem_iff.mp (List.mem_filter.mp hx).1

theorem Refines.pair_step (h : Refines r s) (hstep : r.step a = some r')
    (hstay : a ≠ .uxListRemove x ∧ a ≠ .uxListRemove y) (hx : x ∈ [z, w]) (hy : y ∈ [z, w])
    (hpair : (s.cursor l).pair x y = [z, w]) : ∃ os, r'.owners = r.owners ++ os ∧
      (pairOwners l x y os = [] ∧ ((s.apply a).cursor l).pair x y = [z, w] ∨
        pairOwners l x y os = [z] ∧ ((s.apply a).cursor l).pair x y = [w, z]) := by
  -- an item on no list is not one of the two
  have hfree : ∀ i, r.mem.pxContainer i = none → i ≠ x ∧ i ≠ y := fun i hi => by
    have hout := (h.holds l).item_ne hi
    exact ⟨fun heq => hout (heq ▸ mem_of_pair hpair hx),
      fun heq => hout (heq ▸ mem_of_pair hpair hy)⟩
  have hallowed := step_allowed hstep
  cases a with
  | vListInsertEnd l' i =>
    obtain ⟨hix, hiy⟩ := hfree i hallowed
    cases (if_pos hallowed).symm.trans hstep
    refine ⟨[], (List.append_nil _).symm, Or.inl ⟨rfl, ?_⟩⟩
    show (Function.update s.cursor l' ((s.cursor l').insertEnd i) l).pair x y = _
    by_cases hl : l = l'
    · rw [← hl, Function.update_self, pair_insertEnd hix hiy, hpair]
    · rw [Function.update_of_ne hl, hpair]
  | vListInsert l' i xValue =>
    obtain ⟨hix, hiy⟩ := hfree i hallowed
    obtain ⟨m, hm, -⟩ := h.insert (l := l') hallowed xValue
    have hnone : r.mem.pxContainer i = none := hallowed
    rw [ListRun.step, if_pos hnone, hm] at hstep
    cases hstep
    refine ⟨[], (List.append_nil _).symm, Or.inl ⟨rfl, ?_⟩⟩
    show (Function.update s.cursor l' ((s.cursor l').insert _ i) l).pair x y = _
    by_cases hl : l = l'
    · rw [← hl, Function.update_self, pair_insert _ hix hiy, hpair]
    · rw [Function.update_of_ne hl, hpair]
  | uxListRemove i =>
    have hix : i ≠ x := fun heq => hstay.1 (heq ▸ rfl)
    have hiy : i ≠ y := fun heq => hstay.2 (heq ▸ rfl)
    obtain ⟨l', hl'⟩ := Option.ne_none_iff_exists'.mp hallowed
    rw [ListRun.step, hl'] at hstep
    cases hstep
    exact ⟨[], (List.append_nil _).symm, Or.inl ⟨rfl, (pair_remove hix hiy).trans hpair⟩⟩
  | next l' =>
    obtain ⟨i, hlast, hnext, -⟩ := h.next hallowed
    cases hnext.symm.trans hstep
    refine ⟨[(l', i)], rfl, ?_⟩
    show (_ ∧ (Function.update s.cursor l' (s.cursor l').next l).pair x y = _) ∨
      (_ ∧ (Function.update s.cursor l' (s.cursor l').next l).pair x y = _)
    by_cases hl : l = l'
    · rw [← hl] at hlast ⊢
      rw [Function.update_self]
      obtain ⟨j, js, hturns⟩ : ∃ j js, (s.cursor l).turns = j :: js := by
        refine List.exists_cons_of_ne_nil fun hnil => ?_
        rw [Cursor.pair, hnil] at hpair
        cases hpair
      have hij : i = j := Option.some.inj (hlast.symm.trans (ListMem.next_turns hturns).2)
      rw [hij]
      exact pair_next hturns hpair
    · rw [Function.update_of_ne hl]
      have hother : pairOwners l x y [(l', i)] = [] := by
        unfold pairOwners
        rw [List.filter_cons_of_neg (by simpa using Ne.symm hl)]
        rfl
      exact Or.inl ⟨hother, hpair⟩

theorem pairOwners_append (os os' : List (L × I)) :
    pairOwners l x y (os ++ os') = pairOwners l x y os ++ pairOwners l x y os' := by
  unfold pairOwners
  rw [List.filter_append, List.map_append, List.filter_append]

theorem Refines.pair_run (h : Refines r s) {as : List (ListAct L I)}
    (hrun : (listMem L I).run r as = some r')
    (hstay : ∀ a ∈ as, a ≠ .uxListRemove x ∧ a ≠ .uxListRemove y) (hne : z ≠ w)
    (hx : x ∈ [z, w]) (hy : y ∈ [z, w]) (hpair : (s.cursor l).pair x y = [z, w]) :
    ∃ os, r'.owners = r.owners ++ os ∧ (w :: pairOwners l x y os).IsChain (· ≠ ·) := by
  induction as generalizing r s z w with
  | nil =>
    cases hrun
    exact ⟨[], (List.append_nil _).symm, List.isChain_singleton w⟩
  | cons a as ih =>
    obtain ⟨t, ht, hrun⟩ := (Machine.run_cons_some _).mp hrun
    obtain ⟨t', ht', hrefines⟩ := h.step (step_allowed ht)
    have heq : t = t' := Option.some.inj (ht.symm.trans ht')
    rw [← heq] at hrefines
    obtain ⟨os, hos, hcase⟩ := h.pair_step ht (hstay a List.mem_cons_self) hx hy hpair
    have hstay' : ∀ b ∈ as, b ≠ .uxListRemove x ∧ b ≠ .uxListRemove y := fun b hb =>
      hstay b (List.mem_cons_of_mem a hb)
    obtain ⟨hnone, hsame⟩ | ⟨hone, hswap⟩ := hcase
    · obtain ⟨os', hos', hchain⟩ := ih hrefines hrun hstay' hne hx hy hsame
      refine ⟨os ++ os', by rw [hos', hos, List.append_assoc], ?_⟩
      rw [pairOwners_append, hnone]
      exact hchain
    · have hcomm : ∀ i, i ∈ [z, w] → i ∈ [w, z] := fun i hi => (List.Perm.swap w z []).mem_iff.mp hi
      obtain ⟨os', hos', hchain⟩ := ih hrefines hrun hstay' (Ne.symm hne) (hcomm x hx) (hcomm y hy)
        hswap
      refine ⟨os ++ os', by rw [hos', hos, List.append_assoc], ?_⟩
      rw [pairOwners_append, hone]
      exact List.isChain_cons_cons.mpr ⟨Ne.symm hne, hchain⟩

theorem pair_of_mem (hnodup : c.items.Nodup) (hne : x ≠ y) (hx : x ∈ c.items) (hy : y ∈ c.items) :
    ∃ z w, c.pair x y = [z, w] ∧ z ≠ w ∧ x ∈ [z, w] ∧ y ∈ [z, w] := by
  have hperm : c.turns.Perm c.items := List.perm_append_comm
  have hxy : [x, y].Nodup :=
    List.nodup_cons.mpr ⟨fun hmem => hne (List.mem_singleton.mp hmem), List.nodup_singleton y⟩
  have hpair : (c.pair x y).Perm [x, y] := by
    refine (List.perm_ext_iff_of_nodup ((hperm.nodup_iff.mpr hnodup).filter _) hxy).mpr fun i => ?_
    show i ∈ c.turns.filter (oneOf x y) ↔ _
    rw [List.mem_filter, hperm.mem_iff, oneOf, decide_eq_true_iff, List.mem_pair]
    constructor
    · exact And.right
    · rintro (rfl | rfl)
      · exact ⟨hx, Or.inl rfl⟩
      · exact ⟨hy, Or.inr rfl⟩
  obtain ⟨z, w, hzw⟩ := List.length_eq_two.mp hpair.length_eq
  rw [hzw] at hpair
  refine ⟨z, w, hzw, ?_, hpair.mem_iff.mpr List.mem_cons_self,
    hpair.mem_iff.mpr (List.mem_cons_of_mem x List.mem_cons_self)⟩
  exact fun heq => (List.nodup_cons.mp (hpair.nodup_iff.mpr hxy)).1 (List.mem_singleton.mpr heq)

/-- **Round robin.**  As long as the callers keep their side, two entries that stay in a list are
returned in turns, whatever else comes to it and goes. -/
theorem round_robin {as bs : List (ListAct L I)}
    (h : (listMem L I).run (ListRun.init m) as = some r) (hrun : (listMem L I).run r bs = some r')
    (hne : x ≠ y) (hx : r.mem.pxContainer x = some l) (hy : r.mem.pxContainer y = some l)
    (hstay : ∀ b ∈ bs, b ≠ .uxListRemove x ∧ b ≠ .uxListRemove y) :
    ∃ os, r'.owners = r.owners ++ os ∧ (pairOwners l x y os).IsChain (· ≠ ·) := by
  have hrefines := (refines_init m).run h
  have hholds := hrefines.holds l
  obtain ⟨z, w, hpair, hzw, hxzw, hyzw⟩ := pair_of_mem hholds.nodup hne
    ((hholds.container x).mp hx) ((hholds.container y).mp hy)
  obtain ⟨os, hos, hchain⟩ := hrefines.pair_run hrun hstay hzw hxzw hyzw hpair
  exact ⟨os, hos, hchain.tail⟩

/-- three turns, an entry that comes, one that goes, and turns again -/
def sevenTurns : List (ListAct Unit Nat) :=
  [.next (), .next (), .next (), .vListInsertEnd () 3, .uxListRemove 1, .next (), .next (), .next (),
    .next ()]

theorem round_robin_seven : ∃ r r' : ListRun Unit Nat,
    (listMem Unit Nat).run (ListRun.init rawMem) threeEntries = some r ∧
      (listMem Unit Nat).run r sevenTurns = some r' ∧
      r'.owners.map Prod.snd = [0, 1, 2, 0, 3, 2, 0] ∧
      ∃ os, r'.owners = r.owners ++ os ∧ (pairOwners () 0 2 os).IsChain (· ≠ ·) := by
  have hrun : ((listMem Unit Nat).run (ListRun.init rawMem) (threeEntries ++ sevenTurns)).map
      (fun r => r.owners.map Prod.snd) = some [0, 1, 2, 0, 3, 2, 0] := by decide +kernel
  obtain ⟨r', hr', howners⟩ := Option.map_eq_some_iff.mp hrun
  rw [Machine.run_append] at hr'
  obtain ⟨r, hr, hr'⟩ := Option.bind_eq_some_iff.mp hr'
  have hcontainers : ((listMem Unit Nat).run (ListRun.init rawMem) threeEntries).map (fun r =>
      (r.mem.pxContainer 0, r.mem.pxContainer 2)) = some (some (), some ()) := by decide
  rw [hr] at hcontainers
  obtain ⟨h0, h2⟩ := Prod.mk.inj (Option.some.inj hcontainers)
  exact ⟨r, r', hr, hr', howners, round_robin hr hr' (by decide) h0 h2 (by simp [sevenTurns])⟩

end

end Bramble
