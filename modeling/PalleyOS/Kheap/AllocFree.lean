import Mathlib.Data.List.MinMax
import PalleyOS.Kheap.Compaction

namespace PalleyOS.Kheap

open Machine

section Choosing

variable {h : Heap} {nodes front back : List Node} {v : Node} {b requested : Nat} {flag : Bool}

-- A free node of the tiled heap.
structure Chosen (h : Heap) (front back : List Node) (v : Node) (b : Nat) : Prop
    extends Located h front back v b where
  free : v.allocated = false

theorem Tiling.chosen {fits : Nat → Bool} {n : Nat} (ht : Tiling h nodes KHEAP_END)
    (hroot : h.root_node = KHEAP_START) (hfit : FirstFit fits h.mem h.root_node n)
    (hfree : ∀ a, fits a = true → allocated h.mem a = false) :
    ∃ front v back b, nodes = front ++ v :: back ∧ n = v.addr ∧ fits v.addr = true ∧
      Chosen h front back v b := by
  obtain ⟨front, v, back, rfl, rfl, hfits⟩ := hfit.exists_node ht.chain
  obtain ⟨b, hlocated⟩ := ht.located hroot
  exact ⟨front, v, back, b, rfl, rfl, hfits, hlocated,
    hlocated.holds.2.2.2.1.symm.trans (hfree _ hfits)⟩

theorem Chosen.unaccounted_last (hc : Chosen h front back v b) (hlast : b = 0)
    (hroom : requested ≤ v.size) :
    unaccounted ⟨v.addr, requested, flag⟩ b = 4294967296 - v.addr + requested := by
  obtain ⟨hlow, hhigh⟩ := hc.within
  simp only [KHEAP_START] at hlow
  simp only [KHEAP_END] at hhigh
  unfold unaccounted sub32
  dsimp only
  omega

theorem Chosen.unaccounted_inner (hc : Chosen h front back v b) (hinner : b ≠ 0)
    (hroom : requested ≤ v.size) :
    unaccounted ⟨v.addr, requested, flag⟩ b = 11 + v.size + requested := by
  obtain ⟨hlow, hhigh⟩ := hc.within
  have hb : b = v.addr + 11 + v.size := by
    rcases hc.next with ⟨-, hb, -⟩ | ⟨-, hb⟩
    · exact absurd hb hinner
    · exact hb
  simp only [KHEAP_START] at hlow
  simp only [KHEAP_END] at hhigh
  unfold unaccounted sub32
  dsimp only
  omega

theorem Chosen.splitAddr_eq (hc : Chosen h front back v b) (hroom : requested ≤ v.size) :
    splitAddr ⟨v.addr, requested, flag⟩ = v.addr + 11 + requested := by
  have hhigh := hc.within.2
  simp only [KHEAP_END] at hhigh
  exact splitAddr_of_lt (by dsimp only; omega)

end Choosing

section Taking

variable {h h' : Heap} {front back : List Node} {v : Node} {b requested fuel n p : Nat}

-- The memory that kheapAlloc hands to compactHeap.
def taken (m : Memory) (requested node : Nat) : Memory :=
  consumeEmptySpace (setAllocated (setSize m node requested) node true) node

theorem allocIn_eq_some (hreturns : allocIn fuel requested n h = some (h', p)) :
    p = NODE_TO_CONTENTS n ∧ compactFrom fuel (taken h.mem requested n) h.root_node = some h'.mem ∧
      h'.root_node = h.root_node := by
  unfold taken
  exact compactHeap_map_eq_some hreturns

theorem kheapFree_eq_some {m : Memory} {root : Nat} (hn : n < 4294967296)
    (hreturns : kheapFree fuel (NODE_TO_CONTENTS n) ⟨m, root⟩ = some h') :
    compactFrom fuel (setAllocated m n false) root = some h'.mem := by
  unfold kheapFree at hreturns
  simp only [CONTENTS_TO_NODE_NODE_TO_CONTENTS hn] at hreturns
  by_cases hmagic : magic_number m n ≠ KHEAP_MAGIC
  · rw [if_pos hmagic] at hreturns
    cases hreturns
  · rw [if_neg hmagic] at hreturns
    exact (compactHeap_eq_some hreturns).1

theorem Chosen.taken_block (hc : Chosen h front back v b) (hroom : requested ≤ v.size) :
    Chain (taken h.mem requested v.addr) v.addr (consumeNodes ⟨v.addr, requested, true⟩ b) b ∧
      ∀ x < 4294967296, x < v.addr ∨ v.addr + 11 ≤ x →
        (11 < unaccounted ⟨v.addr, requested, true⟩ b →
          x < v.addr + 11 + requested ∨ v.addr + 11 + requested + 11 ≤ x) →
        load8 (taken h.mem requested v.addr) x = load8 h.mem x := by
  have hhigh := hc.within.2
  simp only [KHEAP_END] at hhigh
  have hplace : splitAddr ⟨v.addr, requested, true⟩ = v.addr + 11 + requested :=
    hc.splitAddr_eq hroom
  have htaken := (hc.holds.setSize requested (by omega)).setAllocated true
  obtain ⟨hchain, hframe⟩ := consumeEmptySpace_chain htaken (fun _ i hi => by
    rw [hplace]
    exact misses_of_le (by omega) (by omega) (by omega))
  refine ⟨hchain, fun x hx hout hout' => ?_⟩
  have hmiss : Misses v.addr 11 x := misses_of_le (by omega) hx hout
  unfold taken
  rw [hframe x hmiss (fun hsplit => by
      rw [hplace]
      exact misses_of_le (by omega) hx (hout' hsplit)),
    load8_setAllocated_of_misses _ _ _ _ hmiss, load8_setSize_of_misses _ _ _ _ hmiss]

theorem Chosen.taken_front (hc : Chosen h front back v b) (hroom : requested ≤ v.size) :
    Links (taken h.mem requested v.addr) h.root_node front v.addr := by
  have hhigh := hc.within.2
  simp only [KHEAP_END] at hhigh
  refine hc.front.links.congr (fun u hu i _ hi => ?_)
  have hbefore := hc.before hu
  exact (hc.taken_block hroom).2 _ (by omega) (by omega) (fun _ => by omega)

theorem Chosen.taken_back (hc : Chosen h front back v b) (hroom : requested ≤ v.size)
    (hclear : 11 < unaccounted ⟨v.addr, requested, true⟩ b →
      LinksClear (v.addr + 11 + requested) back) :
    Links (taken h.mem requested v.addr) b back 0 := by
  refine hc.back.links.congr (fun w hw i hi hi' => ?_)
  obtain ⟨hlow, hhigh⟩ := hc.after hw
  simp only [KHEAP_END] at hhigh
  refine (hc.taken_block hroom).2 _ (by omega) (by omega) (fun hsplit => ?_)
  have := hclear hsplit w hw
  omega

end Taking

section Returning

variable {h h₂ : Heap} {m₁ : Memory} {front back : List Node} {v : Node} {b requested fuel : Nat}

-- Live nodes, or the ends of the heap, on both sides of a gap.
structure Enclosed (front back : List Node) : Prop where
  front_settled : NoFreeNeighbours front
  back_settled : NoFreeNeighbours back
  last : ∀ u ∈ front.getLast?, u.allocated = true
  head : ∀ w ∈ back.head?, w.allocated = true

theorem Enclosed.settled (he : Enclosed front back) (middle : List Node)
    (hmiddle : NoFreeNeighbours middle) : NoFreeNeighbours (front ++ (middle ++ back)) := by
  have hrest : NoFreeNeighbours (middle ++ back) :=
    List.isChain_append.mpr ⟨hmiddle, he.back_settled, fun _ _ w hw => .inr (he.head w hw)⟩
  exact List.isChain_append.mpr ⟨he.front_settled, hrest, fun u hu _ _ => .inl (he.last u hu)⟩

theorem Enclosed.left (he : Enclosed front back) : Enclosed front [] :=
  ⟨he.front_settled, List.IsChain.nil, he.last, by simp⟩

theorem Enclosed.right (he : Enclosed front back) : Enclosed [] back :=
  ⟨List.IsChain.nil, he.back_settled, by simp, he.head⟩

theorem Chosen.enclosed (hc : Chosen h front back v b)
    (hsettled : NoFreeNeighbours (front ++ v :: back)) : Enclosed front back := by
  obtain ⟨hfront, hrest, hjoin⟩ := List.isChain_append.mp hsettled
  obtain ⟨hhead, hback⟩ := List.isChain_cons.mp hrest
  have hfree : ¬ v.allocated = true := by simp [hc.free]
  refine ⟨hfront, hback, fun u hu => ?_, fun w hw => ?_⟩
  · exact (hjoin u hu v (by simp)).resolve_right hfree
  · exact (hhead w hw).resolve_left hfree

theorem consumeNodes_noFreeNeighbours (v : Node) (b : Nat) (hallocated : v.allocated = true) :
    NoFreeNeighbours (consumeNodes v b) :=
  (consumeNodes_settled v v b hallocated).of_cons

-- compactHeap finds nothing to merge after kheapAlloc where the header split
-- off leaves the links after it alone.
theorem Chosen.alloc_settled (hc : Chosen h front back v b) (hroom : requested ≤ v.size)
    (hsettled : NoFreeNeighbours (front ++ v :: back))
    (hclear : 11 < unaccounted ⟨v.addr, requested, true⟩ b →
      LinksClear (v.addr + 11 + requested) back)
    (hcompact : compactFrom fuel (taken h.mem requested v.addr) h.root_node = some m₁) :
    m₁ = taken h.mem requested v.addr := by
  have hlinks : Links (taken h.mem requested v.addr) h.root_node
      (front ++ (consumeNodes ⟨v.addr, requested, true⟩ b ++ back)) 0 :=
    (segment_append _ _ _ _ _).mpr ⟨_, hc.taken_front hroom, (segment_append _ _ _ _ _).mpr
      ⟨_, (hc.taken_block hroom).1.links, hc.taken_back hroom hclear⟩⟩
  exact compactFrom_links_settled hlinks
    ((hc.enclosed hsettled).settled _ (consumeNodes_noFreeNeighbours _ b rfl)) hcompact

-- The header split off takes the place of the next one.
theorem Chosen.alloc_overlaid (hc : Chosen h front back v b) (hexact : requested = v.size)
    (hinner : b ≠ 0) (hsplit : 11 < unaccounted ⟨v.addr, requested, true⟩ b) :
    compactFrom fuel (taken h.mem requested v.addr) h.root_node = none := by
  have hroom : requested ≤ v.size := le_of_eq hexact
  have hhigh := hc.within.2
  simp only [KHEAP_END] at hhigh
  have hb : b = v.addr + 11 + requested := by
    rcases hc.next with ⟨-, hb, -⟩ | ⟨-, hb⟩
    · exact absurd hb hinner
    · omega
  have hlaid : Laid (front ++ [⟨v.addr, requested, true⟩]) :=
    hc.tiling.laid.sublist (by simp)
  exact compactFrom_overlaid fuel ⟨v.addr, requested, true⟩ (hc.taken_front hroom)
    (hc.taken_block hroom).1 hlaid.links rfl hsplit ((hc.splitAddr_eq hroom).trans hb.symm) hinner
    (by dsimp only; omega) (by omega)

-- The node of a block taken and given back holds what kheapAlloc set its size
-- to and all the space after it that was taken for unaccounted.
theorem Chosen.freed_size (hc : Chosen h front back v b) (hroom : requested ≤ v.size)
    (hsettled : NoFreeNeighbours (front ++ v :: back))
    (hclear : 11 < unaccounted ⟨v.addr, requested, true⟩ b →
      LinksClear (v.addr + 11 + requested) back)
    (hcompact : compactFrom fuel (setAllocated (taken h.mem requested v.addr) v.addr false)
      h.root_node = some h₂.mem) :
    size h₂.mem v.addr =
      (requested + unaccounted ⟨v.addr, requested, true⟩ b) % 4294967296 := by
  have hhigh := hc.within.2
  simp only [KHEAP_END] at hhigh
  have hplace : splitAddr ⟨v.addr, requested, true⟩ = v.addr + 11 + requested :=
    hc.splitAddr_eq hroom
  have henclosed := hc.enclosed hsettled
  have hblock := (hc.taken_block hroom).1
  have hmisses (x : Nat) (hx : x < 4294967296) (hout : x < v.addr ∨ v.addr + 11 ≤ x) :
      Misses v.addr 11 x := misses_of_le (by omega) hx hout
  have hback_misses (w : Node) (hw : w ∈ back) (i : Nat) (hi : i < 11) :
      Misses v.addr 11 (w.addr + i) := by
    obtain ⟨hlow, htop⟩ := hc.after hw
    simp only [KHEAP_END] at htop
    exact hmisses _ (by omega) (by omega)
  have hfront : Links (setAllocated (taken h.mem requested v.addr) v.addr false) h.root_node
      front v.addr := by
    refine (hc.taken_front hroom).congr (fun u hu i _ hi => ?_)
    have hbefore := hc.before hu
    exact load8_setAllocated_of_misses _ _ _ _ (hmisses _ (by omega) (by omega))
  have hback : Links (setAllocated (taken h.mem requested v.addr) v.addr false) b back 0 :=
    (hc.taken_back hroom hclear).congr (fun w hw i _ hi =>
      load8_setAllocated_of_misses _ _ _ _ (hback_misses w hw i hi))
  unfold consumeNodes at hblock
  by_cases hsplit : 11 < unaccounted ⟨v.addr, requested, true⟩ b
  · rw [if_pos hsplit, hplace] at hblock
    obtain ⟨d, hv, c, hw, hend⟩ := hblock
    have hd := hw.1
    dsimp only at hd hend
    subst hd hend
    have hcleared := hv.setAllocated false
    have hnew := hw.congr (fun i hi =>
      load8_setAllocated_of_misses _ v.addr _ false (hmisses _ (by omega) (by omega)))
    have hlinks : Links (setAllocated (taken h.mem requested v.addr) v.addr false) h.root_node
        (front ++ ⟨v.addr, requested, false⟩ :: ⟨v.addr + 11 + requested, _, false⟩ :: back) 0 :=
      (segment_append _ _ _ _ _).mpr ⟨v.addr, hfront, _, hcleared.link, _, hnew.link, hback⟩
    have hnull : ∀ u ∈ front ++ [⟨v.addr, requested, false⟩], u.addr ≠ 0 := by
      intro u hu
      rcases List.mem_append.mp hu with hu | hu
      · exact hc.tiling.not_null u (List.mem_append_left _ hu)
      · exact List.mem_singleton.mp hu ▸ hc.tiling.not_null v hc.mem
    -- The node and the one split off it are merged again.
    have hsame := compactFrom_merge_once hlinks
      (henclosed.left.settled [_] (List.isChain_singleton _))
      (henclosed.right.settled [_] (List.isChain_singleton _)) rfl rfl hnull (by dsimp only; omega)
      (List.forall_mem_cons.mpr ⟨by dsimp only; omega, List.forall_mem_cons.mpr
        ⟨by dsimp only; omega, fun w hw => by
          have htop := (hc.after hw).2
          simp only [KHEAP_END] at htop
          omega⟩⟩)
      (List.forall_mem_cons.mpr ⟨.inl (by dsimp only; omega), fun w hw => .inl (by
        have hlow := (hc.after hw).1
        dsimp only
        omega)⟩) hcompact
    have hmerged := hcleared.combineNext hnew (by dsimp only; omega) (by dsimp only; omega)
    rw [hsame, hmerged.2.2.1]
    dsimp only
    rw [Nat.add_sub_cancel' (Nat.le_of_lt hsplit)]
  · rw [if_neg hsplit] at hblock
    obtain ⟨c, hv, hend⟩ := hblock
    subst hend
    have hcleared := hv.setAllocated false
    have hlinks := (segment_append _ _ _ _ _).mpr
      ⟨v.addr, hfront, (segment_cons _ _ _ _ _).mpr ⟨_, hcleared.link, hback⟩⟩
    have hsame := compactFrom_links_settled hlinks
      (henclosed.settled [_] (List.isChain_singleton _)) hcompact
    rw [hsame]
    exact hcleared.2.2.1

end Returning

section Theorems

variable {h : Heap} {nodes : List Node} {requested : Nat}

def Holdable (nodes : List Node) (requested : Nat) : Prop :=
  ∃ v ∈ nodes, v.allocated = false ∧ requested ≤ v.size

-- kheapAlloc and kheapFree both return, and the chain is the one from before.
def Restores (h : Heap) (nodes : List Node) (requested : Nat) : Prop :=
  ∃ fuel fuel' h₁ p h₂, kheapAlloc fuel requested h = some (h₁, p) ∧
    kheapFree fuel' p h₁ = some h₂ ∧ h₂.root_node = h.root_node ∧
    Chain h₂.mem h.root_node nodes 0

-- The node taken is up to four bytes larger than the size asked for: the header
-- split off then runs over the link of the node after it.
def OverrunsNext (h : Heap) (requested : Nat) : Prop :=
  ∃ n, FirstFit (allocFits h.mem requested) h.mem h.root_node n ∧ next_node h.mem n ≠ 0 ∧
    requested < size h.mem n ∧ size h.mem n < requested + 5

theorem allocFits_iff (m : Memory) (requested a : Nat) :
    allocFits m requested a = true ↔ allocated m a = false ∧ requested ≤ size m a := by
  simp [allocFits]

theorem Chosen.linksClear {front back : List Node} {v : Node} {b : Nat}
    (hc : Chosen h front back v b) (hleft : b = 0 ∨ requested + 5 ≤ v.size) :
    LinksClear (v.addr + 11 + requested) back := by
  intro w hw
  have hlow := (hc.after hw).1
  rcases hleft with hlast | hleft
  · rcases hc.next with ⟨hnil, -⟩ | ⟨-, hb⟩
    · rw [hnil] at hw
      cases hw
    · omega
  · omega

theorem Chosen.freed_size_ne {front back : List Node} {v : Node} {b : Nat}
    (hc : Chosen h front back v b) (hroom : requested ≤ v.size) :
    (requested + unaccounted ⟨v.addr, requested, true⟩ b) % 4294967296 ≠ v.size := by
  obtain ⟨hlow, hhigh⟩ := hc.within
  simp only [KHEAP_START] at hlow
  simp only [KHEAP_END] at hhigh
  by_cases hlast : b = 0
  · rw [hc.unaccounted_last hlast hroom]
    rcases hc.next with ⟨-, -, hend⟩ | ⟨-, hb⟩
    · unfold KHEAP_END at hend
      omega
    · omega
  · rw [hc.unaccounted_inner hlast hroom]
    omega

theorem Restores.overrunsNext (ht : Tiling h nodes KHEAP_END) (hroot : h.root_node = KHEAP_START)
    (hsettled : NoFreeNeighbours nodes) (hrestores : Restores h nodes requested) :
    OverrunsNext h requested := by
  obtain ⟨fuel, fuel', ⟨m₁, root₁⟩, p, h₂, halloc, hfree, -, hchain⟩ := hrestores
  obtain ⟨n, hfit, hreturns⟩ := kheapAlloc_eq_some ht.chain halloc
  obtain ⟨front, v, back, b, rfl, rfl, hfits, hc⟩ :=
    ht.chosen hroot hfit (fun a ha => ((allocFits_iff _ _ _).mp ha).1)
  have hsize := hc.holds.2.2.1
  have hroom : requested ≤ v.size := hsize ▸ ((allocFits_iff _ _ _).mp hfits).2
  obtain ⟨rfl, hcompact, hroot₁⟩ := allocIn_eq_some hreturns
  dsimp only at hroot₁ hcompact
  subst hroot₁
  by_contra hoverruns
  have hgap : b = 0 ∨ requested = v.size ∨ requested + 5 ≤ v.size := by
    by_contra hgap
    refine hoverruns ⟨v.addr, hfit, ?_, ?_, ?_⟩
    · rw [hc.holds.2.2.2.2]
      omega
    · omega
    · omega
  have hclear : 11 < unaccounted ⟨v.addr, requested, true⟩ b →
      LinksClear (v.addr + 11 + requested) back := by
    intro hsplit
    by_cases hleft : b = 0 ∨ requested + 5 ≤ v.size
    · exact hc.linksClear hleft
    · rw [hc.alloc_overlaid (by omega) (by omega) hsplit] at hcompact
      cases hcompact
  have hsame := hc.alloc_settled hroom hsettled hclear hcompact
  subst hsame
  have htop := hc.within.2
  simp only [KHEAP_END] at htop
  have hfreed := hc.freed_size hroom hsettled hclear (kheapFree_eq_some (by omega) hfree)
  obtain ⟨b', -, hv, -⟩ := hchain.split
  exact hc.freed_size_ne hroom (hfreed.symm.trans hv.2.2.1)

theorem exists_largest_free {v : Node} (hv : v ∈ nodes) (hfree : v.allocated = false) :
    ∃ w ∈ nodes, w.allocated = false ∧ ∀ u ∈ nodes, u.allocated = false → u.size ≤ w.size := by
  cases hmax : (nodes.filter (fun u => !u.allocated)).argmax Node.size with
  | none =>
      have hmem : v ∈ nodes.filter (fun u => !u.allocated) := List.mem_filter.mpr ⟨hv, by simp [hfree]⟩
      rw [List.argmax_eq_none.mp hmax] at hmem
      cases hmem
  | some w =>
      obtain ⟨hw, hwfree⟩ := List.mem_filter.mp (List.argmax_mem hmax)
      exact ⟨w, hw, by simpa using hwfree, fun u hu hufree =>
        List.le_of_mem_argmax (List.mem_filter.mpr ⟨hu, by simp [hufree]⟩) hmax⟩

-- kheapFree gives no size back that kheapAlloc took, so every heap with a free
-- node has a size that the two do not restore. A pair that restores the chain
-- needs an overrun link, which leads compactHeap through memory that is no heap.
theorem alloc_free_restores_iff (ht : Tiling h nodes KHEAP_END) (hroot : h.root_node = KHEAP_START)
    (hsettled : NoFreeNeighbours nodes) :
    ((∀ requested, Holdable nodes requested → Restores h nodes requested) ↔
        ∀ v ∈ nodes, v.allocated = true) ∧
      ∀ requested, Restores h nodes requested → OverrunsNext h requested := by
  have hoverruns (requested : Nat) (hrestores : Restores h nodes requested) :
      OverrunsNext h requested := hrestores.overrunsNext ht hroot hsettled
  refine ⟨⟨fun hall v hv => ?_, fun hlive requested hholdable => ?_⟩, hoverruns⟩
  · by_contra hfree
    obtain ⟨w, hw, hwfree, hlargest⟩ := exists_largest_free hv (by simpa using hfree)
    obtain ⟨n, hfit, -, hlarger, -⟩ := hoverruns _ (hall w.size ⟨w, hw, hwfree, Nat.le_refl _⟩)
    obtain ⟨front, u, back, b, rfl, rfl, hfits, hc⟩ :=
      ht.chosen hroot hfit (fun a ha => ((allocFits_iff _ _ _).mp ha).1)
    rw [hc.holds.2.2.1] at hlarger
    exact absurd (hlargest u hc.mem hc.free) (by omega)
  · obtain ⟨v, hv, hfree, -⟩ := hholdable
    rw [hlive v hv] at hfree
    cases hfree

theorem initial_tiling (m : Memory) : Tiling (kheapInit m) [initialNode] KHEAP_END := by
  refine ⟨chain_initial m, initial_tiles, ?_, ?_⟩
  · unfold KHEAP_END
    omega
  · unfold initialNode KHEAP_START
    simp

theorem alloc_free_restores_iff_initial :
    ((∀ requested, Holdable [initialNode] requested →
        Restores (kheapInit fun _ => 0) [initialNode] requested) ↔
        ∀ v ∈ [initialNode], v.allocated = true) ∧
      ∀ requested, Restores (kheapInit fun _ => 0) [initialNode] requested →
        OverrunsNext (kheapInit fun _ => 0) requested :=
  alloc_free_restores_iff (initial_tiling _) rfl (List.isChain_singleton _)

-- Sixteen bytes from the one free node of the first heap.
theorem first_block_not_restored :
    ¬ ∀ (h : Heap) (nodes : List Node) (requested : Nat), Tiling h nodes KHEAP_END →
      h.root_node = KHEAP_START → NoFreeNeighbours nodes → Holdable nodes requested →
        Restores h nodes requested := by
  intro hclaim
  have hholdable : Holdable [initialNode] 16 :=
    ⟨initialNode, List.mem_singleton_self _, rfl, Nat.le_of_ble_eq_true rfl⟩
  have hrestores := hclaim (kheapInit fun _ => 0) [initialNode] 16 (initial_tiling _) rfl
    (List.isChain_singleton _) hholdable
  obtain ⟨n, hfit, hnext, -⟩ :=
    hrestores.overrunsNext (initial_tiling _) rfl (List.isChain_singleton _)
  obtain ⟨rfl, -⟩ := initial_fit hfit
  exact hnext (initial_holds _).2.2.2.2

end Theorems

end PalleyOS.Kheap
