import PalleyOS.Kheap.Blocks
import PalleyOS.Kheap.Tiling

namespace PalleyOS.Kheap

open Machine

section Tiling

-- The nodes from the root on tile the addresses up to `e`. A node at NULL
-- would end the chain.
structure Tiling (h : Heap) (nodes : List Node) (e : Nat) : Prop where
  chain : Chain h.mem h.root_node nodes 0
  tiles : Tiles h.root_node nodes e
  below : e ≤ 4294967296
  not_null : ∀ v ∈ nodes, v.addr ≠ 0

-- What a caller holds of a node: the pointer to its contents and their size.
def Node.block (v : Node) : Nat × Nat := (NODE_TO_CONTENTS v.addr, v.size)

def liveNodes (nodes : List Node) : List Node := nodes.filter Node.allocated

def liveBlocks (nodes : List Node) : List (Nat × Nat) := (liveNodes nodes).map Node.block

-- A byte of the contents of a node.
def InContents (v : Node) (x : Nat) : Prop := v.addr + 11 ≤ x ∧ x < v.addr + 11 + v.size

theorem Tiles.laid {a e : Nat} {nodes : List Node} (h : Tiles a nodes e) (he : e ≤ 4294967296)
    (hnull : ∀ v ∈ nodes, v.addr ≠ 0) : Laid nodes := by
  induction nodes generalizing a with
  | nil => exact ⟨List.Pairwise.nil, by simp⟩
  | cons v rest ih =>
      have hend := (h.le_of_mem.2 v List.mem_cons_self).2
      have hnonzero := hnull v List.mem_cons_self
      obtain ⟨ha, hrest⟩ := h
      refine (laid_cons_iff _ _).mpr ⟨by omega, fun w hw => ?_,
        ih hrest (fun w hw => hnull w (List.mem_cons_of_mem _ hw))⟩
      have := (hrest.le_of_mem.2 w hw).1
      omega

theorem Tiling.laid {h : Heap} {nodes : List Node} {e : Nat} (ht : Tiling h nodes e) :
    Laid nodes := ht.tiles.laid ht.below ht.not_null

theorem tiles_append_iff (a e : Nat) (front back : List Node) :
    Tiles a (front ++ back) e ↔ ∃ b, Tiles a front b ∧ Tiles b back e := by
  induction front generalizing a with
  | nil => simp [Tiles]
  | cons v rest ih => simp [Tiles, ih, and_assoc]

-- The contents of a node lie between two headers.
theorem Tiles.contents_outside {a e x : Nat} {nodes : List Node} (h : Tiles a nodes e) {v : Node}
    (hv : v ∈ nodes) (hx : InContents v x) : Outside nodes x := by
  obtain ⟨front, back, rfl⟩ := List.append_of_mem hv
  obtain ⟨b, hfront, rfl, hback⟩ := (tiles_append_iff _ _ _ _).mp h
  simp only [InContents] at hx
  intro w hw
  rcases List.mem_append.mp hw with hw | hw
  · have := (hfront.le_of_mem.2 w hw).2
    omega
  · rcases List.mem_cons.mp hw with rfl | hw
    · omega
    · have := (hback.le_of_mem.2 w hw).1
      omega

end Tiling

section Located

variable {h : Heap} {front back : List Node} {v : Node} {b : Nat}

-- A node of the tiled heap, between the nodes before and after it.
structure Located (h : Heap) (front back : List Node) (v : Node) (b : Nat) : Prop where
  root : h.root_node = KHEAP_START
  tiling : Tiling h (front ++ v :: back) KHEAP_END
  front : Chain h.mem h.root_node front v.addr
  holds : Holds h.mem v.addr v b
  back : Chain h.mem b back 0

theorem Tiling.located (ht : Tiling h (front ++ v :: back) KHEAP_END)
    (hroot : h.root_node = KHEAP_START) : ∃ b, Located h front back v b := by
  obtain ⟨b, hfront, hv, hback⟩ := ht.chain.split
  exact ⟨b, hroot, ht, hfront, hv, hback⟩

theorem Located.mem (_ : Located h front back v b) : v ∈ front ++ v :: back :=
  List.mem_append_right _ List.mem_cons_self

theorem Located.within (hl : Located h front back v b) :
    KHEAP_START ≤ v.addr ∧ v.addr + 11 + v.size ≤ KHEAP_END := by
  have hv := hl.tiling.tiles.le_of_mem.2 v hl.mem
  exact ⟨hl.root ▸ hv.1, hv.2⟩

theorem Located.before (hl : Located h front back v b) {u : Node} (hu : u ∈ front) :
    u.addr + 11 ≤ v.addr :=
  ((laid_append_iff _ _).mp hl.tiling.laid).2.2 u hu v List.mem_cons_self

theorem Located.after (hl : Located h front back v b) {w : Node} (hw : w ∈ back) :
    v.addr + 11 + v.size ≤ w.addr ∧ w.addr + 11 + w.size ≤ KHEAP_END := by
  obtain ⟨a, -, rfl, hback⟩ := (tiles_append_iff _ _ _ _).mp hl.tiling.tiles
  exact hback.le_of_mem.2 w hw

-- The link of the node: NULL at the end of the heap, else the next header.
theorem Located.next (hl : Located h front back v b) :
    (back = [] ∧ b = 0 ∧ v.addr + 11 + v.size = KHEAP_END) ∨
      (back ≠ [] ∧ b = v.addr + 11 + v.size) := by
  obtain ⟨a, -, rfl, hback⟩ := (tiles_append_iff _ _ _ _).mp hl.tiling.tiles
  have hlinks := hl.back
  cases back with
  | nil => exact .inl ⟨rfl, hlinks, hback⟩
  | cons w rest => exact .inr ⟨List.cons_ne_nil _ _, hlinks.head_addr.trans hback.1⟩

theorem Links.inChain {m : Memory} {a c : Nat} {nodes : List Node} (hlinks : Links m a nodes c)
    (hnull : ∀ u ∈ nodes, u.addr ≠ 0) {w : Node} (hw : w ∈ nodes) : InChain m a w.addr := by
  induction nodes generalizing a with
  | nil => cases hw
  | cons u rest ih =>
      have ha := hlinks.head_addr
      have hne : a ≠ 0 := ha ▸ hnull u List.mem_cons_self
      obtain ⟨d, hu, hrest⟩ := hlinks
      rcases List.mem_cons.mp hw with rfl | hw
      · exact ha ▸ InChain.here hne
      · exact .later hne (hu.2.2 ▸ ih hrest (fun u hu => hnull u (List.mem_cons_of_mem _ hu)) hw)

-- On a tiled heap a header leads to where its contents end, or ends the chain there.
theorem Tiling.next_eq {nodes : List Node} {a c : Nat} (ht : Tiling h nodes KHEAP_END)
    (hin : InChain h.mem h.root_node a) (hv : Holds h.mem a v c) :
    (c = 0 ∧ a + 11 + v.size = KHEAP_END) ∨ c = a + 11 + v.size := by
  obtain ⟨u, hu, rfl⟩ := hin.mem ht.chain
  obtain ⟨front, back, rfl⟩ := List.append_of_mem hu
  obtain ⟨d, -, hholds, hback⟩ := ht.chain.split
  obtain ⟨rfl, rfl⟩ := hholds.unique hv
  obtain ⟨e, -, rfl, htiles⟩ := (tiles_append_iff _ _ _ _).mp ht.tiles
  cases back with
  | nil => exact .inl ⟨hback, htiles⟩
  | cons w rest => exact .inr (hback.head_addr.trans htiles.1)

end Located

section Merging

theorem mergeNodes_tiles (v : Node) (rest : List Node) {a e : Nat} (h : Tiles a (v :: rest) e)
    (he : e ≤ 4294967296) : Tiles a (mergeNodes v rest) e := by
  induction rest generalizing a v with
  | nil => exact h
  | cons w rest ih =>
      obtain ⟨ha, hw, hrest⟩ := h
      unfold mergeNodes
      by_cases hfree : (!v.allocated && !w.allocated) = true
      · rw [if_pos hfree]
        have hend := hrest.le_of_mem.1
        have hsum : (v.size + (11 + w.size)) % 4294967296 = v.size + (11 + w.size) :=
          Nat.mod_eq_of_lt (by omega)
        refine ih _ ⟨ha, ?_⟩
        dsimp only
        rw [hsum, show a + 11 + (v.size + (11 + w.size)) = a + 11 + v.size + 11 + w.size by omega]
        exact hrest
      · rw [if_neg hfree]
        exact ⟨ha, ih _ ⟨hw, hrest⟩⟩

theorem mergeNodes_live (v : Node) (rest : List Node) :
    liveNodes (mergeNodes v rest) = liveNodes (v :: rest) := by
  induction rest generalizing v with
  | nil => rfl
  | cons w rest ih =>
      unfold mergeNodes
      by_cases hfree : (!v.allocated && !w.allocated) = true
      · rw [if_pos hfree, ih]
        simp only [Bool.and_eq_true, Bool.not_eq_true'] at hfree
        simp [liveNodes, hfree.1, hfree.2]
      · rw [if_neg hfree]
        simp only [liveNodes] at ih ⊢
        rw [List.filter_cons, ih, ← List.filter_cons]

-- A run of merges keeps the flag of the node it began with.
theorem mergeNodes_head (v : Node) (rest : List Node) :
    ∃ u us, mergeNodes v rest = u :: us ∧ u.allocated = v.allocated := by
  induction rest generalizing v with
  | nil => exact ⟨v, [], rfl, rfl⟩
  | cons w rest ih =>
      unfold mergeNodes
      by_cases hfree : (!v.allocated && !w.allocated) = true
      · rw [if_pos hfree]
        exact ih _
      · rw [if_neg hfree]
        exact ⟨v, _, rfl, rfl⟩

theorem mergeNodes_noFreeNeighbours (v : Node) (rest : List Node) :
    NoFreeNeighbours (mergeNodes v rest) := by
  induction rest generalizing v with
  | nil => exact List.IsChain.singleton _
  | cons w rest ih =>
      unfold mergeNodes
      by_cases hfree : (!v.allocated && !w.allocated) = true
      · rw [if_pos hfree]
        exact ih _
      · rw [if_neg hfree]
        obtain ⟨u, us, hmerged, hu⟩ := mergeNodes_head w rest
        have htail := ih w
        unfold NoFreeNeighbours at htail ⊢
        rw [hmerged] at htail ⊢
        refine List.isChain_cons_cons.mpr ⟨?_, htail⟩
        rw [hu]
        cases hv : v.allocated with
        | true => exact .inl rfl
        | false =>
            rw [hv] at hfree
            simpa using hfree

end Merging

section Compaction

variable {h : Heap} {nodes : List Node} {e : Nat}

theorem compactNodes_tiles {a : Nat} (ht : Tiles a nodes e) (he : e ≤ 4294967296) :
    Tiles a (compactNodes nodes) e := by
  cases nodes with
  | nil => exact ht
  | cons v rest => exact mergeNodes_tiles v rest ht he

theorem compactNodes_live (nodes : List Node) : liveNodes (compactNodes nodes) = liveNodes nodes := by
  cases nodes with
  | nil => rfl
  | cons v rest => exact mergeNodes_live v rest

theorem compactNodes_noFreeNeighbours (nodes : List Node) :
    NoFreeNeighbours (compactNodes nodes) := by
  cases nodes with
  | nil => exact List.IsChain.nil
  | cons v rest => exact mergeNodes_noFreeNeighbours v rest

theorem compactHeap_returns (hchain : Chain h.mem h.root_node nodes 0) (hlaid : Laid nodes) :
    ∃ h', ∀ fuel, nodes.length < fuel → compactHeap fuel h = some h' := by
  cases nodes with
  | nil =>
      have hroot : h.root_node = 0 := hchain
      refine ⟨h, fun fuel hfuel => ?_⟩
      cases fuel with
      | zero => cases hfuel
      | succ fuel =>
          rw [compactHeap, compactFrom, if_pos hroot]
          rfl
  | cons v rest =>
      obtain ⟨m', hm'⟩ := compactFrom_returns rest h.mem h.root_node v hchain hlaid
      refine ⟨{ h with mem := m' }, fun fuel hfuel => ?_⟩
      rw [compactHeap, hm' fuel (Nat.lt_of_succ_lt hfuel)]
      rfl

-- What compactHeap makes of a chain, and that it comes to an end.
structure Compacts (h h' : Heap) (nodes nodes' : List Node) (e : Nat) : Prop where
  returns : ∀ fuel, nodes.length < fuel → compactHeap fuel h = some h'
  root : h'.root_node = h.root_node
  tiling : Tiling h' nodes' e
  live : liveNodes nodes' = liveNodes nodes
  no_free_neighbours : NoFreeNeighbours nodes'
  contents : ∀ v ∈ nodes, v.allocated = true → ∀ x, InContents v x → load8 h'.mem x = load8 h.mem x
  again : ∀ fuel, nodes'.length < fuel → compactHeap fuel h' = some h'

theorem Tiling.compacted {h' : Heap} (ht : Tiling h nodes e) (hroot : h'.root_node = h.root_node)
    (hchain : Chain h'.mem h.root_node (compactNodes nodes) 0) :
    Tiling h' (compactNodes nodes) e := by
  refine ⟨hroot ▸ hchain, hroot ▸ compactNodes_tiles ht.tiles ht.below, ht.below, fun v hv => ?_⟩
  obtain ⟨w, hw, heq⟩ :=
    List.mem_map.mp ((compactNodes_addr_sublist nodes).subset (List.mem_map_of_mem hv))
  exact heq ▸ ht.not_null w hw

theorem compactHeap_compacts (ht : Tiling h nodes e) :
    ∃ h', Compacts h h' nodes (compactNodes nodes) e := by
  obtain ⟨h', hreturns⟩ := compactHeap_returns ht.chain ht.laid
  obtain ⟨hroot, hchain, hframe⟩ :=
    compactHeap_chain ht.chain ht.laid (hreturns _ (Nat.lt_succ_self _))
  have htiling := ht.compacted hroot hchain
  refine ⟨h', hreturns, hroot, htiling, compactNodes_live nodes, compactNodes_noFreeNeighbours nodes,
    fun v hv _ x hx => ?_, fun fuel hfuel => ?_⟩
  · have hend := (ht.tiles.le_of_mem.2 v hv).2
    have hbelow := ht.below
    exact hframe x (by unfold InContents at hx; omega) (ht.tiles.contents_outside hv hx)
  · obtain ⟨h'', hagain⟩ := compactHeap_returns htiling.chain htiling.laid
    have hsettled := compactNodes_noFreeNeighbours nodes
    rw [hagain fuel hfuel, compactHeap_settled htiling.chain hsettled (hagain fuel hfuel)]

end Compaction

section Freeing

variable {h : Heap} {front back : List Node} {v : Node} {e : Nat}

theorem CONTENTS_TO_NODE_NODE_TO_CONTENTS {node : Nat} (hnode : node < 4294967296) :
    CONTENTS_TO_NODE (NODE_TO_CONTENTS node) = node := by
  unfold CONTENTS_TO_NODE NODE_TO_CONTENTS sub32
  omega

theorem Tiling.addr_lt {nodes : List Node} (ht : Tiling h nodes e) (hv : v ∈ nodes) :
    v.addr + 11 ≤ 4294967296 := ht.laid.addr_le hv

theorem Tiling.block_ne {nodes : List Node} (ht : Tiling h nodes e) {w : Node} (hv : v ∈ nodes)
    (hw : w ∈ nodes) (hne : w.addr ≠ v.addr) : w.block ≠ v.block := by
  have hvtop := ht.addr_lt hv
  have hwtop := ht.addr_lt hw
  intro hblock
  have hcontents := congrArg Prod.fst hblock
  simp only [Node.block, NODE_TO_CONTENTS] at hcontents
  omega

-- The nodes with the flag of one of them cleared.
def clearedNodes (front back : List Node) (v : Node) : List Node :=
  front ++ { v with allocated := false } :: back

theorem mem_clearedNodes {w : Node} (hw : w ∈ front ++ v :: back) (hne : w.addr ≠ v.addr) :
    w ∈ clearedNodes front back v := by
  rcases List.mem_append.mp hw with hw | hw
  · exact List.mem_append_left _ hw
  · rcases List.mem_cons.mp hw with rfl | hw
    · exact absurd rfl hne
    · exact List.mem_append_right _ (List.mem_cons_of_mem _ hw)

theorem tiles_resized_iff (a e : Nat) (front back : List Node) (v w : Node)
    (haddr : w.addr = v.addr) (hsize : w.size = v.size) :
    Tiles a (front ++ w :: back) e ↔ Tiles a (front ++ v :: back) e := by
  simp only [tiles_append_iff, Tiles, haddr, hsize]

theorem Tiling.flagged (ht : Tiling h (front ++ v :: back) e) (flag : Bool) :
    Tiling ⟨setAllocated h.mem v.addr flag, h.root_node⟩
      (front ++ { v with allocated := flag } :: back) e := by
  have hlaid := ht.laid
  have hvmem : v ∈ front ++ v :: back := List.mem_append_right _ List.mem_cons_self
  obtain ⟨b, hfront, hv, hback⟩ := ht.chain.split
  have hlaid' : Laid (front ++ ([{ v with allocated := flag }] ++ back)) :=
    hlaid.sublist (by simp)
  have hmiddle : Chain (setAllocated h.mem v.addr flag) v.addr
      [{ v with allocated := flag }] b := ⟨b, hv.setAllocated flag, rfl⟩
  refine ⟨?_, (tiles_resized_iff _ _ _ _ v { v with allocated := flag } rfl rfl).mpr ht.tiles,
    ht.below, fun w hw => ?_⟩
  · exact Chain.replace hfront hmiddle hback hlaid' (fun x hx hout =>
      load8_setAllocated_of_misses _ _ _ _
        (misses_of_le (ht.addr_lt hvmem) hx ((outside_cons_iff _ _ _).mp hout).1))
  · rcases List.mem_append.mp hw with hw | hw
    · exact ht.not_null w (List.mem_append_left _ hw)
    · rcases List.mem_cons.mp hw with rfl | hw
      · exact ht.not_null v hvmem
      · exact ht.not_null w (List.mem_append_right _ (List.mem_cons_of_mem _ hw))

theorem Tiling.cleared (ht : Tiling h (front ++ v :: back) e) :
    Tiling ⟨setAllocated h.mem v.addr false, h.root_node⟩ (clearedNodes front back v) e :=
  ht.flagged false

theorem liveBlocks_cleared (ht : Tiling h (front ++ v :: back) e) (hallocated : v.allocated = true) :
    liveBlocks (clearedNodes front back v) = (liveBlocks (front ++ v :: back)).erase v.block := by
  have hvmem : v ∈ front ++ v :: back := List.mem_append_right _ List.mem_cons_self
  have hfront : v.block ∉ liveBlocks front := by
    intro hmem
    obtain ⟨w, hw, heq⟩ := List.mem_map.mp hmem
    have hwmem := (List.mem_filter.mp hw).1
    have hapart := ((laid_append_iff _ _).mp ht.laid).2.2 w hwmem v List.mem_cons_self
    exact ht.block_ne hvmem (List.mem_append_left _ hwmem) (by omega) heq
  have hbefore : liveBlocks (front ++ v :: back) =
      liveBlocks front ++ v.block :: liveBlocks back := by
    simp [liveBlocks, liveNodes, hallocated]
  rw [hbefore, List.erase_append_right _ hfront, List.erase_cons_head]
  simp [liveBlocks, liveNodes, clearedNodes]

-- What kheapFree makes of a chain with the live block of `v`.
structure Frees (h h' : Heap) (nodes nodes' : List Node) (v : Node) (e : Nat) : Prop where
  returns : ∀ fuel, nodes.length < fuel → kheapFree fuel v.block.1 h = some h'
  root : h'.root_node = h.root_node
  tiling : Tiling h' nodes' e
  live : liveBlocks nodes' = (liveBlocks nodes).erase v.block
  no_free_neighbours : NoFreeNeighbours nodes'
  contents : ∀ w ∈ nodes, w.allocated = true → w.addr ≠ v.addr →
    ∀ x, InContents w x → load8 h'.mem x = load8 h.mem x

theorem kheapFree_frees (ht : Tiling h (front ++ v :: back) e) (hallocated : v.allocated = true) :
    ∃ h', Frees h h' (front ++ v :: back) (compactNodes (clearedNodes front back v)) v e := by
  have hvmem : v ∈ front ++ v :: back := List.mem_append_right _ List.mem_cons_self
  have hvtop := ht.addr_lt hvmem
  obtain ⟨h', hcompacts⟩ := compactHeap_compacts ht.cleared
  obtain ⟨b, -, hv, -⟩ := ht.chain.split
  refine ⟨h', fun fuel hfuel => ?_, hcompacts.root, hcompacts.tiling, ?_,
    hcompacts.no_free_neighbours, fun w hw hwallocated hne x hx => ?_⟩
  · have hnode : CONTENTS_TO_NODE v.block.1 = v.addr :=
      CONTENTS_TO_NODE_NODE_TO_CONTENTS (by omega)
    have hlength : (clearedNodes front back v).length < fuel := by
      simpa [clearedNodes] using hfuel
    unfold kheapFree
    simp only [hnode]
    rw [if_neg (not_not.mpr hv.2.1)]
    exact hcompacts.returns fuel hlength
  · rw [liveBlocks, hcompacts.live]
    exact liveBlocks_cleared ht hallocated
  · have hwmem := mem_clearedNodes hw hne
    have hend := (ht.tiles.le_of_mem.2 w hw).2
    have hout := ht.tiles.contents_outside hw hx v hvmem
    have hbelow := ht.below
    simp only [InContents] at hx
    rw [hcompacts.contents w hwmem hwallocated x hx,
      load8_setAllocated_of_misses _ _ _ _ (misses_of_le hvtop (by omega) hout)]

end Freeing

section Theorems

-- Compaction is exact on every tiling, and so is freeing any of its blocks.
theorem compaction_exact {h : Heap} {nodes : List Node} {e : Nat} (ht : Tiling h nodes e) :
    (∃ h' nodes', Compacts h h' nodes nodes' e) ∧
      ∀ v ∈ nodes, v.allocated = true → ∃ h' nodes', Frees h h' nodes nodes' v e := by
  refine ⟨?_, fun v hv hallocated => ?_⟩
  · obtain ⟨h', hcompacts⟩ := compactHeap_compacts ht
    exact ⟨h', _, hcompacts⟩
  · obtain ⟨front, back, rfl⟩ := List.append_of_mem hv
    obtain ⟨h', hfrees⟩ := kheapFree_frees ht hallocated
    exact ⟨h', _, hfrees⟩

-- Two free neighbours before a live block.
def fragmentedNodes : List Node := [⟨0x1000, 10, false⟩, ⟨0x1015, 5, false⟩, ⟨0x1025, 7, true⟩]

def fragmentedHeap : Heap where
  mem := createNode (createNode (createNode (fun _ => 0) 0x1000 10 0x1015 false)
    0x1015 5 0x1025 false) 0x1025 7 0 true
  root_node := 0x1000

theorem fragmentedHeap_tiling : Tiling fragmentedHeap fragmentedNodes 0x1037 := by
  have hfirst : Holds fragmentedHeap.mem 0x1000 ⟨0x1000, 10, false⟩ 0x1015 :=
    ⟨rfl, by decide, by decide, by decide, by decide⟩
  have hsecond : Holds fragmentedHeap.mem 0x1015 ⟨0x1015, 5, false⟩ 0x1025 :=
    ⟨rfl, by decide, by decide, by decide, by decide⟩
  have hlast : Holds fragmentedHeap.mem 0x1025 ⟨0x1025, 7, true⟩ 0 :=
    ⟨rfl, by decide, by decide, by decide, by decide⟩
  exact ⟨⟨_, hfirst, _, hsecond, _, hlast, rfl⟩, ⟨rfl, rfl, rfl, rfl⟩, by decide,
    by simp [fragmentedNodes]⟩

theorem compaction_exact_fragmented :
    (∃ h' nodes', Compacts fragmentedHeap h' fragmentedNodes nodes' 0x1037) ∧
      ∀ v ∈ fragmentedNodes, v.allocated = true →
        ∃ h' nodes', Frees fragmentedHeap h' fragmentedNodes nodes' v 0x1037 :=
  compaction_exact fragmentedHeap_tiling

end Theorems

end PalleyOS.Kheap
