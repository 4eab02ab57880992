import PalleyOS.Machine.Memory
import PalleyOS.Machine.Runs

namespace PalleyOS.Kheap

open Machine

def KHEAP_START : Nat := 0xf000000

def KHEAP_END : Nat := 0xfffffff

def KHEAP_MAGIC : Nat := 0x7ea4

section HeapNode

-- The packed struct takes 11 bytes: a 16-bit magic_number, 32-bit size and
-- next_node, and the allocated byte. Its contents follow it at once.
def magic_number (m : Memory) (node : Nat) : Nat := load16 m node

def size (m : Memory) (node : Nat) : Nat := load32 m (node + 2)

def next_node (m : Memory) (node : Nat) : Nat := load32 m (node + 6)

def allocated (m : Memory) (node : Nat) : Bool := load8 m (node + 10) != 0

def setSize (m : Memory) (node value : Nat) : Memory := store32 m (node + 2) value

def setNextNode (m : Memory) (node value : Nat) : Memory := store32 m (node + 6) value

def setAllocated (m : Memory) (node : Nat) (value : Bool) : Memory :=
  store8 m (node + 10) value.toNat

def NODE_TO_CONTENTS (ptr : Nat) : Nat := (ptr + 11) % 4294967296

def CONTENTS_TO_NODE (ptr : Nat) : Nat := sub32 ptr 11

def createNode (m : Memory) (place size next : Nat) (allocated : Bool) : Memory :=
  setAllocated (setNextNode (setSize (store16 m place KHEAP_MAGIC) place size) place next)
    place allocated

end HeapNode

structure Heap where
  mem : Memory
  root_node : Nat

def kheapInit (m : Memory) : Heap where
  mem := createNode m KHEAP_START (KHEAP_END - KHEAP_START - 11) 0 false
  root_node := KHEAP_START

-- Combine free space: the two assignments in the loop of compactHeap.
def combineNext (m : Memory) (iter : Nat) : Memory :=
  let m := setSize m iter ((size m iter + (11 + size m (next_node m iter))) % 4294967296)
  setNextNode m iter (next_node m (next_node m iter))

-- Loops take fuel, and `none` means that it ran out. The `while (true)` after
-- an error message never returns, so it is `none` whatever the fuel.
def compactFrom : Nat → Memory → Nat → Option Memory
  | 0, _, _ => none
  | fuel + 1, m, iter =>
      if iter = 0 then some m
      else if next_node m iter = 0 then some m
      else if !allocated m iter && !allocated m (next_node m iter) then
        compactFrom fuel (combineNext m iter) iter
      else compactFrom fuel m (next_node m iter)

def compactHeap (fuel : Nat) (h : Heap) : Option Heap :=
  (compactFrom fuel h.mem h.root_node).map (fun m => { h with mem := m })

-- The sum has the node's size where the difference of the two would do.
def consumeEmptySpace (m : Memory) (node : Nat) : Memory :=
  let unaccounted_space := (sub32 (next_node m node) node + size m node) % 4294967296
  if 11 < unaccounted_space then
    let byte_ptr := (NODE_TO_CONTENTS node + size m node) % 4294967296
    setNextNode (createNode m byte_ptr (unaccounted_space - 11) (next_node m node) false)
      node byte_ptr
  else setSize m node ((size m node + unaccounted_space) % 4294967296)

inductive Walk where
  | found (node : Nat)
  | corrupted
  | exhausted
  deriving DecidableEq

-- The first-fit scan of both allocators, which differ in the test on a node.
def walkNodes (fits : Nat → Bool) (m : Memory) : Nat → Nat → Option Walk
  | 0, _ => none
  | fuel + 1, iter =>
      if iter = 0 then some .exhausted
      else if magic_number m iter ≠ KHEAP_MAGIC then some .corrupted
      else if fits iter then some (.found iter)
      else walkNodes fits m fuel (next_node m iter)

def allocFits (m : Memory) (requested node : Nat) : Bool :=
  !allocated m node && requested ≤ size m node

def allocIn (fuel requested iter : Nat) (h : Heap) : Option (Heap × Nat) :=
  let m := setAllocated (setSize h.mem iter requested) iter true
  (compactHeap fuel { h with mem := consumeEmptySpace m iter }).map
    (fun h' => (h', NODE_TO_CONTENTS iter))

def allocAttempt (fuel requested : Nat) (corrupted : Option (Heap × Nat)) (h : Heap) :
    Option (Heap × Nat) :=
  match walkNodes (allocFits h.mem requested) h.mem fuel h.root_node with
  | some (.found iter) => allocIn fuel requested iter h
  | some .corrupted => corrupted
  | some .exhausted => none
  | none => none

-- A bad magic number is taken for a page fault once: the heap is set up again
-- if its root is bad, and the search restarts.
def kheapAllocInner (fuel requested : Nat) (first_time : Bool) (h : Heap) : Option (Heap × Nat) :=
  if first_time then
    allocAttempt fuel requested
      (allocAttempt fuel requested none
        (if magic_number h.mem h.root_node ≠ KHEAP_MAGIC then kheapInit h.mem else h)) h
  else allocAttempt fuel requested none h

def kheapAlloc (fuel requested : Nat) (h : Heap) : Option (Heap × Nat) :=
  kheapAllocInner fuel requested true h

def alignedOffset (alignment first_byte_addr : Nat) : Nat :=
  let offset := alignment - first_byte_addr % alignment
  if offset = alignment then 0 else offset

def alignedFits (m : Memory) (requested alignment node : Nat) : Bool :=
  !allocated m node && (11 + requested) % 4294967296 ≤ size m node &&
    !(sub32 (size m node) (alignedOffset alignment (NODE_TO_CONTENTS node)) <
      (11 + requested) % 4294967296)

def alignedAllocIn (fuel requested alignment preceding_node : Nat) (h : Heap) :
    Option (Heap × Nat) :=
  let first_byte_addr := NODE_TO_CONTENTS preceding_node
  let chosen := (first_byte_addr + alignedOffset alignment first_byte_addr) % 4294967296
  let m := createNode h.mem chosen requested (next_node h.mem preceding_node) true
  let m := setSize m preceding_node (sub32 (sub32 chosen preceding_node) 11)
  let m := setNextNode m preceding_node chosen
  (compactHeap fuel { h with mem := consumeEmptySpace m chosen }).map
    (fun h' => (h', NODE_TO_CONTENTS chosen))

def kheapAlignedAlloc (fuel requested alignment : Nat) (h : Heap) : Option (Heap × Nat) :=
  match walkNodes (alignedFits h.mem requested alignment) h.mem fuel h.root_node with
  | some (.found iter) => alignedAllocIn fuel requested alignment iter h
  | some .corrupted => none
  | some .exhausted => none
  | none => none

def kheapFree (fuel ptr : Nat) (h : Heap) : Option Heap :=
  let node := CONTENTS_TO_NODE ptr
  if magic_number h.mem node ≠ KHEAP_MAGIC then none
  else compactHeap fuel { h with mem := setAllocated h.mem node false }

def kmemcpy : Memory → Nat → Nat → Nat → Memory
  | m, _, _, 0 => m
  | m, dest, src, num + 1 => kmemcpy (store8 m dest (load8 m src)) (dest + 1) (src + 1) num

-- The room in the unallocated nodes from `iter` on, and the node after them.
-- The size of the block that is to grow is not part of it.
def possibleSize (m : Memory) : Nat → Nat → Nat → Option (Nat × Nat)
  | 0, _, _ => none
  | fuel + 1, iter, possible_size =>
      if iter ≠ 0 ∧ allocated m iter = false then
        possibleSize m fuel (next_node m iter) ((possible_size + (11 + size m iter)) % 4294967296)
      else some (iter, possible_size)

-- `NODE_TO_CONTENTS(current_node) + size` adds to a HeapNode pointer, which
-- moves it by `size` headers of 11 bytes.
def splitPlace (current_node requested : Nat) : Nat :=
  (NODE_TO_CONTENTS current_node + 11 * requested) % 4294967296

def splitAfter (fuel current_node requested remaining next : Nat) (h : Heap) :
    Option (Heap × Nat) :=
  let new_node := splitPlace current_node requested
  let m := createNode h.mem new_node (remaining - 11) next false
  let m := setSize (setNextNode m current_node new_node) current_node requested
  (compactHeap fuel { h with mem := m }).map (fun h' => (h', NODE_TO_CONTENTS current_node))

def shrinkIn (fuel current_node requested : Nat) (h : Heap) : Option (Heap × Nat) :=
  let size_delta := size h.mem current_node - requested
  if 12 ≤ size_delta then
    splitAfter fuel current_node requested size_delta (next_node h.mem current_node) h
  else some (h, NODE_TO_CONTENTS current_node)

def growIn (fuel current_node requested iter possible_size : Nat) (h : Heap) :
    Option (Heap × Nat) :=
  let size_delta := possible_size - requested
  if 12 ≤ size_delta then splitAfter fuel current_node requested size_delta iter h
  else
    let m := setSize (setNextNode h.mem current_node iter) current_node possible_size
    some ({ h with mem := m }, NODE_TO_CONTENTS current_node)

def moveBlock (fuel ptr requested : Nat) (h : Heap) : Option (Heap × Nat) :=
  match kheapAlloc fuel requested h with
  | none => none
  | some (h', new_ptr) =>
      let m := kmemcpy h'.mem new_ptr ptr (size h'.mem (CONTENTS_TO_NODE ptr))
      (kheapFree fuel ptr { h' with mem := m }).map (fun h'' => (h'', new_ptr))

def kheapRealloc (fuel ptr requested : Nat) (h : Heap) : Option (Heap × Nat) :=
  let current_node := CONTENTS_TO_NODE ptr
  if requested = 0 then (kheapFree fuel ptr h).map (fun h' => (h', 0))
  else if magic_number h.mem current_node ≠ KHEAP_MAGIC then none
  else if requested = size h.mem current_node then some (h, ptr)
  else if requested < size h.mem current_node then shrinkIn fuel current_node requested h
  else
    match possibleSize h.mem fuel (next_node h.mem current_node) 0 with
    | none => none
    | some (iter, possible_size) =>
        if requested ≤ possible_size then growIn fuel current_node requested iter possible_size h
        else moveBlock fuel ptr requested h

section System

-- A live block is the pointer a call returned with the size that was asked for.
structure System where
  heap : Heap
  live : List (Nat × Nat)

inductive Call where
  | alloc (requested : UInt32)
  | alignedAlloc (requested alignment : UInt32)
  | realloc (ptr : Nat) (requested : UInt32)
  | free (ptr : Nat)
  | write (address : Nat) (value : UInt8)

-- A call is a step when it returns. Pointers handed back are live, and callers
-- write inside their blocks.
inductive Step : System → Call → System → Prop
  | alloc {s : System} {requested : UInt32} {fuel p : Nat} {h : Heap}
      (hreturns : kheapAlloc fuel requested.toNat s.heap = some (h, p)) :
      Step s (.alloc requested) ⟨h, (p, requested.toNat) :: s.live⟩
  | alignedAlloc {s : System} {requested alignment : UInt32} {fuel p : Nat} {h : Heap}
      (halignment : 1 ≤ alignment.toNat)
      (hreturns : kheapAlignedAlloc fuel requested.toNat alignment.toNat s.heap = some (h, p)) :
      Step s (.alignedAlloc requested alignment) ⟨h, (p, requested.toNat) :: s.live⟩
  | realloc {s : System} {ptr old : Nat} {requested : UInt32} {fuel p : Nat} {h : Heap}
      (hlive : (ptr, old) ∈ s.live)
      (hreturns : kheapRealloc fuel ptr requested.toNat s.heap = some (h, p)) :
      Step s (.realloc ptr requested)
        ⟨h, if requested.toNat = 0 then s.live.erase (ptr, old)
          else (p, requested.toNat) :: s.live.erase (ptr, old)⟩
  | free {s : System} {ptr old fuel : Nat} {h : Heap} (hlive : (ptr, old) ∈ s.live)
      (hreturns : kheapFree fuel ptr s.heap = some h) :
      Step s (.free ptr) ⟨h, s.live.erase (ptr, old)⟩
  | write {s : System} {address start old : Nat} {value : UInt8} (hlive : (start, old) ∈ s.live)
      (hlow : start ≤ address) (hhigh : address < start + old) :
      Step s (.write address value)
        ⟨{ s.heap with mem := store8 s.heap.mem address value.toNat }, s.live⟩

def initial (m : Memory) : System := ⟨kheapInit m, []⟩

end System

end PalleyOS.Kheap
