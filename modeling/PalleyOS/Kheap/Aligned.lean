import PalleyOS.Kheap.AllocFree

namespace PalleyOS.Kheap

open Machine

section Offsets

variable {alignment : Nat}

theorem alignedOffset_lt (hpos : 1 ≤ alignment) (first_byte_addr : Nat) :
    alignedOffset alignment first_byte_addr < alignment := by
  unfold alignedOffset
  dsimp only
  by_cases hboundary : alignment - first_byte_addr % alignment = alignment
  · rw [if_pos hboundary]
    omega
  · rw [if_neg hboundary]
    omega

theorem dvd_add_alignedOffset (hpos : 1 ≤ alignment) (first_byte_addr : Nat) :
    alignment ∣ first_byte_addr + alignedOffset alignment first_byte_addr := by
  have hlt := Nat.mod_lt first_byte_addr hpos
  have hdiv := Nat.div_add_mod first_byte_addr alignment
  unfold alignedOffset
  dsimp only
  by_cases hboundary : alignment - first_byte_addr % alignment = alignment
  · rw [if_pos hboundary, Nat.add_zero]
    exact Nat.dvd_of_mod_eq_zero (by omega)
  · rw [if_neg hboundary]
    have hnext : first_byte_addr + (alignment - first_byte_addr % alignment) =
        alignment * (first_byte_addr / alignment) + alignment := by omega
    rw [hnext]
    exact Nat.dvd_add (Nat.dvd_mul_right _ _) (Nat.dvd_refl _)

end Offsets

section Placing

variable {h h' : Heap} {front back : List Node} {v : Node} {b requested alignment fuel n p : Nat}

theorem alignedFits_iff (m : Memory) (requested alignment a : Nat) :
    alignedFits m requested alignment a = true ↔
      allocated m a = false ∧ (11 + requested) % 4294967296 ≤ size m a ∧
        (11 + requested) % 4294967296 ≤
          sub32 (size m a) (alignedOffset alignment (NODE_TO_CONTENTS a)) := by
  simp [alignedFits, and_assoc]

-- The memory that kheapAlignedAlloc hands to compactHeap.
def alignedTaken (m : Memory) (requested chosen preceding_node : Nat) : Memory :=
  consumeEmptySpace (alignedHeaders m requested chosen preceding_node) chosen

theorem alignedAllocIn_eq_some (hreturns : alignedAllocIn fuel requested alignment n h = some (h', p)) :
    p = NODE_TO_CONTENTS (chosenAddr alignment n) ∧
      compactFrom fuel (alignedTaken h.mem requested (chosenAddr alignment n) n) h.root_node =
        some h'.mem ∧ h'.root_node = h.root_node := by
  rw [alignedAllocIn_eq] at hreturns
  unfold alignedTaken
  exact compactHeap_map_eq_some hreturns

theorem Chosen.contents (hc : Chosen h front back v b) :
    NODE_TO_CONTENTS v.addr = v.addr + 11 := by
  have hhigh := hc.within.2
  simp only [KHEAP_END] at hhigh
  exact NODE_TO_CONTENTS_of_lt (by omega)

-- No 32-bit alignment takes the address past 2^32.
theorem Chosen.chosenAddr_eq (hc : Chosen h front back v b) (hpos : 1 ≤ alignment)
    (halignment : alignment < 4294967296) :
    chosenAddr alignment v.addr = v.addr + 11 + alignedOffset alignment (v.addr + 11) := by
  have hhigh := hc.within.2
  simp only [KHEAP_END] at hhigh
  have hoffset := alignedOffset_le hpos (v.addr + 11)
  unfold chosenAddr
  rw [hc.contents, Nat.mod_eq_of_lt (by omega)]

-- The gap left before the block, the block, and its header split off, where
-- the block lies in the node.
structure Placed (h : Heap) (m : Memory) (front back : List Node) (v : Node)
    (b requested chosen : Nat) : Prop where
  before : Links m h.root_node front v.addr
  gap : Holds m v.addr { v with size := chosen - (v.addr + 11) } chosen
  block : Chain m chosen (consumeNodes ⟨chosen, requested, true⟩ b) b
  after : (11 < unaccounted ⟨chosen, requested, true⟩ b →
    LinksClear (chosen + 11 + requested) back) → Links m b back 0

theorem Chosen.placed (hc : Chosen h front back v b) {chosen : Nat}
    (hlow : v.addr + 11 ≤ chosen) (hroom : chosen + 11 + requested ≤ v.addr + 11 + v.size) :
    Placed h (alignedTaken h.mem requested chosen v.addr) front back v b requested chosen := by
  have hhigh := hc.within.2
  simp only [KHEAP_END] at hhigh
  have hplace : splitAddr ⟨chosen, requested, true⟩ = chosen + 11 + requested :=
    splitAddr_of_lt (by dsimp only; omega)
  have hgap : sub32 (sub32 chosen v.addr) 11 = chosen - (v.addr + 11) := by
    unfold sub32
    omega
  have hapart : ∀ i < 11, Misses chosen 11 (v.addr + i) := fun i hi =>
    misses_of_le (by omega) (by omega) (by omega)
  have hrequested : requested < 4294967296 := by omega
  obtain ⟨hgap_holds, hblock, hheaders⟩ :=
    alignedHeaders_holds hrequested (by omega) hc.holds hapart
  obtain ⟨hchain, hconsumed⟩ := consumeEmptySpace_chain hblock (fun _ i hi => by
    rw [hplace]
    exact misses_of_le (by omega) (by omega) (by omega))
  rw [hgap] at hgap_holds
  have hframe (x : Nat) (hx : x < 4294967296) (hv : x < v.addr ∨ v.addr + 11 ≤ x)
      (hchosen : x < chosen ∨ chosen + 11 ≤ x)
      (hsplit : 11 < unaccounted ⟨chosen, requested, true⟩ b →
        x < chosen + 11 + requested ∨ chosen + 11 + requested + 11 ≤ x) :
      load8 (alignedTaken h.mem requested chosen v.addr) x = load8 h.mem x := by
    have hmiss : Misses chosen 11 x := misses_of_le (by omega) hx hchosen
    unfold alignedTaken
    rw [hconsumed x hmiss (fun hs => by
        rw [hplace]
        exact misses_of_le (by omega) hx (hsplit hs)),
      hheaders x (misses_of_le (by omega) hx hv) hmiss]
  refine ⟨hc.front.links.congr (fun u hu i _ hi => ?_), hgap_holds.congr (fun i hi => ?_), hchain,
    fun hclear => hc.back.links.congr (fun w hw i hi hi' => ?_)⟩
  · have hbefore := hc.before hu
    exact hframe _ (by omega) (by omega) (by omega) (fun _ => by omega)
  · refine hconsumed _ (misses_of_le (by omega) (by omega) (by omega)) (fun _ => ?_)
    rw [hplace]
    exact misses_of_le (by omega) (by omega) (by omega)
  · obtain ⟨hafter, htop⟩ := hc.after hw
    simp only [KHEAP_END] at htop
    refine hframe _ (by omega) (by omega) (by omega) (fun hsplit => ?_)
    have := hclear hsplit w hw
    omega

end Placing

section Inside

variable {h h' : Heap} {nodes front back : List Node} {v : Node} {b requested alignment fuel p : Nat}

-- The new header and the block lie in the contents of the node `n`, which ends
-- where the new header starts.
def StaysInside (h h' : Heap) (n p requested : Nat) : Prop :=
  n + 11 ≤ CONTENTS_TO_NODE p ∧ CONTENTS_TO_NODE p + 11 + requested ≤ n + 11 + size h.mem n ∧
    n + 11 + size h'.mem n = CONTENTS_TO_NODE p

-- The test for room compares a sum and a difference that do not wrap.
def FitsUnwrapped (h : Heap) (n requested alignment : Nat) : Prop :=
  11 + requested < 4294967296 ∧ alignedOffset alignment (n + 11) ≤ size h.mem n

-- A header split off after the block does not run over the link of the next
-- node without taking its place.
def SparesNext (h : Heap) (n requested chosen : Nat) : Prop :=
  next_node h.mem n = 0 ∨ next_node h.mem n = chosen + 11 + requested ∨
    chosen + 11 + requested + 5 ≤ next_node h.mem n

theorem Chosen.aligned_room (hc : Chosen h front back v b) (hpos : 1 ≤ alignment)
    (halignment : alignment < 4294967296)
    (hfits : alignedFits h.mem requested alignment v.addr = true)
    (hunwrapped : FitsUnwrapped h v.addr requested alignment) :
    v.addr + 11 ≤ chosenAddr alignment v.addr ∧
      chosenAddr alignment v.addr + 11 + requested ≤ v.addr + 11 + v.size := by
  obtain ⟨hsum, hoffset⟩ := hunwrapped
  obtain ⟨-, -, hroom⟩ := (alignedFits_iff _ _ _ _).mp hfits
  have hsize := hc.holds.size_lt
  rw [hc.holds.2.2.1] at hoffset hroom
  rw [hc.contents, Nat.mod_eq_of_lt hsum, sub32_of_le _ _ hoffset hsize] at hroom
  rw [hc.chosenAddr_eq hpos halignment]
  omega

theorem Chosen.placed_laid (hc : Chosen h front back v b) {chosen : Nat} (gap size : Nat)
    (hlow : v.addr + 11 ≤ chosen) (hroom : chosen + 11 + requested ≤ v.addr + 11 + v.size) :
    Laid ((front ++ [{ v with size := gap }]) ++ [⟨chosen, size, true⟩]) := by
  have hhigh := hc.within.2
  simp only [KHEAP_END] at hhigh
  have hfront : Laid (front ++ [{ v with size := gap }]) := hc.tiling.laid.sublist (by simp)
  refine (laid_append_iff _ _).mpr ⟨hfront, (laid_cons_iff _ _).mpr
    ⟨⟨by dsimp only; omega, by dsimp only; omega⟩, by simp, List.Pairwise.nil, by simp⟩, ?_⟩
  intro u hu w hw
  rw [List.mem_singleton.mp hw]
  rcases List.mem_append.mp hu with hu | hu
  · have hbefore := hc.before hu
    dsimp only
    omega
  · rw [List.mem_singleton.mp hu]
    exact hlow

theorem Chosen.spared (hc : Chosen h front back v b) {chosen : Nat} {m' : Memory}
    (hlow : v.addr + 11 ≤ chosen) (hroom : chosen + 11 + requested ≤ v.addr + 11 + v.size)
    (hspares : SparesNext h v.addr requested chosen)
    (hcompact : compactFrom fuel (alignedTaken h.mem requested chosen v.addr) h.root_node = some m')
    (hsplit : 11 < unaccounted ⟨chosen, requested, true⟩ b) :
    LinksClear (chosen + 11 + requested) back := by
  have hhigh := hc.within.2
  simp only [KHEAP_END] at hhigh
  have hplaced := hc.placed hlow hroom
  unfold SparesNext at hspares
  rw [hc.holds.2.2.2.2] at hspares
  intro w hw
  have hafter := (hc.after hw).1
  rcases hc.next with ⟨hnil, -⟩ | ⟨-, hb⟩
  · rw [hnil] at hw
    cases hw
  · rcases hspares with hlast | hexact | hgap
    · omega
    · have hfront : Links (alignedTaken h.mem requested chosen v.addr) h.root_node
          (front ++ [{ v with size := chosen - (v.addr + 11) }]) chosen :=
        (segment_append _ _ _ _ _).mpr ⟨_, hplaced.before, chosen, hplaced.gap.link, rfl⟩
      rw [compactFrom_overlaid fuel ⟨chosen, requested, true⟩ hfront hplaced.block
        (hc.placed_laid _ _ hlow hroom).links rfl hsplit
        ((splitAddr_of_lt (by dsimp only; omega)).trans hexact.symm) (by omega)
        (by dsimp only; omega) (by omega)] at hcompact
      cases hcompact
    · omega

-- The chain of links before compactHeap.
theorem Placed.links {m : Memory} {chosen : Nat}
    (hplaced : Placed h m front back v b requested chosen)
    (hclear : 11 < unaccounted ⟨chosen, requested, true⟩ b →
      LinksClear (chosen + 11 + requested) back) :
    Links m h.root_node (front ++ (({ v with size := chosen - (v.addr + 11) } ::
      consumeNodes ⟨chosen, requested, true⟩ b) ++ back)) 0 :=
  (segment_append _ _ _ _ _).mpr ⟨_, hplaced.before, (segment_append _ _ _ _ _).mpr
    ⟨_, ⟨_, hplaced.gap.link, hplaced.block.links⟩, hplaced.after hclear⟩⟩

-- The block is inside its node where the test for room does not wrap; the
-- header after it may still lead compactHeap astray.
theorem aligned_stays_inside_iff (ht : Tiling h nodes KHEAP_END)
    (hroot : h.root_node = KHEAP_START) (hsettled : NoFreeNeighbours nodes)
    (hpos : 1 ≤ alignment) (halignment : alignment < 4294967296)
    (hreturns : kheapAlignedAlloc fuel requested alignment h = some (h', p)) :
    ∃ n, FirstFit (alignedFits h.mem requested alignment) h.mem h.root_node n ∧
      (StaysInside h h' n p requested → FitsUnwrapped h n requested alignment) ∧
      (FitsUnwrapped h n requested alignment →
        SparesNext h n requested (chosenAddr alignment n) → StaysInside h h' n p requested) := by
  obtain ⟨n, hfit, halloc⟩ := kheapAlignedAlloc_eq_some hreturns
  obtain ⟨front, v, back, b, rfl, rfl, hfits, hc⟩ :=
    ht.chosen hroot hfit (fun a ha => ((alignedFits_iff _ _ _ _).mp ha).1)
  obtain ⟨rfl, hcompact, -⟩ := alignedAllocIn_eq_some halloc
  have hlt : chosenAddr alignment v.addr < 4294967296 := Nat.mod_lt _ (by omega)
  refine ⟨v.addr, hfit, fun hinside => ?_, fun hunwrapped hspares => ?_⟩
  · obtain ⟨-, hroom, -⟩ := hinside
    rw [CONTENTS_TO_NODE_NODE_TO_CONTENTS hlt, hc.chosenAddr_eq hpos halignment] at hroom
    have hsize := hc.holds.size_lt
    unfold FitsUnwrapped
    rw [hc.holds.2.2.1] at hroom ⊢
    omega
  · obtain ⟨hlow, hroom⟩ := hc.aligned_room hpos halignment hfits hunwrapped
    have hplaced := hc.placed hlow hroom
    have hclear := hc.spared hlow hroom hspares hcompact
    have hsame := compactFrom_links_settled (hplaced.links hclear)
      ((hc.enclosed hsettled).settled _ (consumeNodes_settled _ _ b rfl)) hcompact
    unfold StaysInside
    rw [CONTENTS_TO_NODE_NODE_TO_CONTENTS hlt, hsame, hplaced.gap.2.2.1, hc.holds.2.2.1]
    dsimp only
    omega

-- Sixteen bytes aligned to a page in the first heap.
theorem page_block : (kheapAlignedAlloc 4 16 4096 (kheapInit fun _ => 0)).map Prod.snd =
    some 0xf00100b := by decide

theorem aligned_stays_inside_iff_page : ∃ h' p,
    kheapAlignedAlloc 4 16 4096 (kheapInit fun _ => 0) = some (h', p) ∧
      StaysInside (kheapInit fun _ => 0) h' KHEAP_START p 16 := by
  obtain ⟨⟨h', p⟩, hreturns, -⟩ := Option.map_eq_some_iff.mp page_block
  obtain ⟨n, hfit, -, hinside⟩ := aligned_stays_inside_iff (initial_tiling _) rfl
    (List.isChain_singleton _) (by omega) (by omega) hreturns
  obtain ⟨rfl, -⟩ := initial_fit hfit
  have hsize : alignedOffset 4096 (KHEAP_START + 11) ≤ initialNode.size := by decide
  exact ⟨h', p, hreturns, hinside ⟨by omega, (initial_holds _).2.2.1 ▸ hsize⟩
    (.inl (initial_holds _).2.2.2.2)⟩

-- An alignment of 2^31 puts the block far past the end of the heap.
theorem block_aligned_out_of_node :
    ¬ ∀ (h h' : Heap) (nodes : List Node) (requested alignment fuel p : Nat),
      Tiling h nodes KHEAP_END → h.root_node = KHEAP_START → NoFreeNeighbours nodes →
        1 ≤ alignment → alignment < 4294967296 →
          kheapAlignedAlloc fuel requested alignment h = some (h', p) →
            ∃ n, FirstFit (alignedFits h.mem requested alignment) h.mem h.root_node n ∧
              StaysInside h h' n p requested := by
  intro hclaim
  have hfar : (kheapAlignedAlloc 4 16 0x80000000 (kheapInit fun _ => 0)).map Prod.snd =
      some 0x8000000b := by decide
  obtain ⟨⟨h', p⟩, hreturns, rfl⟩ := Option.map_eq_some_iff.mp hfar
  obtain ⟨n, hfit, -, hroom, -⟩ := hclaim _ _ [initialNode] 16 0x80000000 4 _ (initial_tiling _) rfl
    (List.isChain_singleton _) (by omega) (by omega) hreturns
  obtain ⟨rfl, -⟩ := initial_fit hfit
  rw [(initial_holds _).2.2.1] at hroom
  exact absurd hroom (by decide)

end Inside

section Aligned

variable {h h' : Heap} {nodes front back : List Node} {v : Node} {b requested alignment fuel p : Nat}

-- An allocated node of the chain, with the bytes asked for in the heap.
def LiveBlock (h : Heap) (p requested : Nat) : Prop :=
  ∃ n, InChain h.mem h.root_node n ∧ allocated h.mem n = true ∧ p = NODE_TO_CONTENTS n ∧
    requested ≤ size h.mem n ∧ KHEAP_START ≤ p ∧ p + requested ≤ KHEAP_END

theorem consumeNodes_block (v : Node) (b : Nat) (hsize : v.size + 11 < 4294967296) :
    ∃ s split, consumeNodes v b = { v with size := s } :: split ∧ v.size ≤ s ∧
      split.length ≤ 1 ∧ ∀ u ∈ split,
        11 < unaccounted v b ∧ u.addr = splitAddr v ∧ u.allocated = false := by
  unfold consumeNodes
  by_cases hsplit : 11 < unaccounted v b
  · rw [if_pos hsplit]
    refine ⟨v.size, _, rfl, Nat.le_refl _, Nat.le_refl _, fun u hu => ?_⟩
    rw [List.mem_singleton.mp hu]
    exact ⟨hsplit, rfl, rfl⟩
  · rw [if_neg hsplit]
    refine ⟨_, [], rfl, ?_, Nat.zero_le _, by simp⟩
    rw [Nat.mod_eq_of_lt (by omega)]
    exact Nat.le_add_right _ _

-- The headers in order, with one that may be split off after the block.
theorem Chosen.placed_links_laid (hc : Chosen h front back v b) {chosen : Nat} (gap size : Nat)
    (hlow : v.addr + 11 ≤ chosen) (hroom : chosen + 11 + requested ≤ v.addr + 11 + v.size)
    (split : List Node) (hsplit : ∀ u ∈ split, u.addr = chosen + 11 + requested ∧
      u.allocated = false ∧ LinksClear (chosen + 11 + requested) back)
    (hone : split.length ≤ 1) :
    LinksLaid (((front ++ [{ v with size := gap }]) ++ [⟨chosen, size, true⟩]) ++
      (split ++ back)) := by
  have hhigh := hc.within.2
  simp only [KHEAP_END] at hhigh
  have hlaid := hc.placed_laid gap size hlow hroom
  have hback : Laid back := ((laid_append_iff _ _).mp hc.tiling.laid).2.1.tail
  have hchosen : ∀ u ∈ (front ++ [{ v with size := gap }]) ++ [⟨chosen, size, true⟩],
      u.addr ≤ chosen := by
    intro u hu
    rcases List.mem_append.mp hu with hu | hu
    · have := ((laid_append_iff _ _).mp hlaid).2.2 u hu _ (List.mem_singleton_self _)
      dsimp only at this
      omega
    · rw [List.mem_singleton.mp hu]
  refine (linksLaid_append_iff _ _).mpr ⟨hlaid.links, (linksLaid_append_iff _ _).mpr
    ⟨⟨?_, fun u hu => ?_⟩, hback.links, fun u hu w hw => ?_⟩, fun u hu w hw => .inl ?_⟩
  · cases split with
    | nil => exact List.Pairwise.nil
    | cons u rest =>
        cases rest with
        | nil => exact List.pairwise_singleton _ _
        | cons w rest => simp at hone
  · have := (hsplit u hu).1
    omega
  · obtain ⟨haddr, hfree, hclear⟩ := hsplit u hu
    have hafter := (hc.after hw).1
    have := hclear w hw
    exact .inr ⟨hfree, by omega⟩
  · have hle := hchosen u hu
    rcases List.mem_append.mp hw with hw | hw
    · have := (hsplit w hw).1
      omega
    · have := (hc.after hw).1
      omega

-- The block is a live one after compactHeap.
theorem Chosen.placed_live (hc : Chosen h front back v b) {chosen : Nat}
    (hroot : h'.root_node = h.root_node)
    (hlow : v.addr + 11 ≤ chosen) (hroom : chosen + 11 + requested ≤ v.addr + 11 + v.size)
    (hspares : SparesNext h v.addr requested chosen)
    (hcompact : compactFrom fuel (alignedTaken h.mem requested chosen v.addr) h.root_node =
      some h'.mem) : LiveBlock h' (NODE_TO_CONTENTS chosen) requested := by
  obtain ⟨hstart, hhigh⟩ := hc.within
  simp only [KHEAP_START] at hstart
  simp only [KHEAP_END] at hhigh
  have hplaced := hc.placed hlow hroom
  have hclear := hc.spared hlow hroom hspares hcompact
  have hlinks := hplaced.links hclear
  have hblock := hplaced.block
  obtain ⟨s, split, hconsumed, hsize, hone, hsplit⟩ :=
    consumeNodes_block ⟨chosen, requested, true⟩ b (by dsimp only; omega)
  rw [hconsumed] at hlinks hblock
  have hplace : splitAddr ⟨chosen, requested, true⟩ = chosen + 11 + requested :=
    splitAddr_of_lt (by dsimp only; omega)
  have hlaid := hc.placed_links_laid (chosen - (v.addr + 11)) s hlow hroom split (fun u hu =>
    ⟨(hsplit u hu).2.1.trans hplace, (hsplit u hu).2.2, hclear (hsplit u hu).1⟩) hone
  simp only [List.append_assoc, List.cons_append, List.nil_append] at hlinks hlaid
  obtain ⟨hresult, hframe⟩ := compactFrom_nodes hlinks hlaid hcompact
  have hmem : (⟨chosen, s, true⟩ : Node) ∈ compactNodes (front ++
      { v with size := chosen - (v.addr + 11) } :: ⟨chosen, s, true⟩ :: (split ++ back)) :=
    mem_compactNodes_of_allocated (by simp) rfl
  have hin := hresult.inChain (fun u hu => by
    have haddr := (compactNodes_addr_sublist _).subset (List.mem_map_of_mem hu)
    obtain ⟨w, hw, heq⟩ := List.mem_map.mp haddr
    have := (hlaid.2 w hw).1
    omega) hmem
  have hapart : ∀ u ∈ front ++ { v with size := chosen - (v.addr + 11) } ::
      ⟨chosen, s, true⟩ :: (split ++ back), u.allocated = false →
        u.addr + 11 ≤ chosen ∨ chosen + 11 ≤ u.addr := by
    intro u hu hfree
    rcases List.mem_append.mp hu with hu | hu
    · have := hc.before hu
      omega
    rcases List.mem_cons.mp hu with rfl | hu
    · exact .inl hlow
    rcases List.mem_cons.mp hu with rfl | hu
    · cases hfree
    rcases List.mem_append.mp hu with hu | hu
    · have := (hsplit u hu).2.1
      omega
    · have := (hc.after hu).1
      omega
  obtain ⟨c, hholds, -⟩ := hblock
  have hholds' : Holds h'.mem chosen ⟨chosen, s, true⟩ c :=
    hholds.congr (fun i hi => hframe _ (by omega) (fun u hu hfree => by
      have := hapart u hu hfree
      omega))
  refine ⟨chosen, hroot ▸ hin, hholds'.2.2.2.1, rfl, ?_, ?_, ?_⟩
  · exact hholds'.2.2.1 ▸ hsize
  · rw [NODE_TO_CONTENTS_of_lt (by omega)]
    unfold KHEAP_START
    omega
  · rw [NODE_TO_CONTENTS_of_lt (by omega)]
    unfold KHEAP_END
    omega

-- The caller's pointer is 11 bytes past the address that was aligned.
theorem aligned_block_iff (ht : Tiling h nodes KHEAP_END) (hroot : h.root_node = KHEAP_START)
    (hpos : 1 ≤ alignment) (halignment : alignment < 4294967296)
    (hreturns : kheapAlignedAlloc fuel requested alignment h = some (h', p)) :
    ∃ n, FirstFit (alignedFits h.mem requested alignment) h.mem h.root_node n ∧
      (alignment ∣ p ∧ LiveBlock h' p requested →
        alignment ∣ 11 ∧ 11 + requested < 4294967296) ∧
      (alignment ∣ 11 ∧ 11 + requested < 4294967296 →
        SparesNext h n requested (chosenAddr alignment n) →
          alignment ∣ p ∧ LiveBlock h' p requested) := by
  obtain ⟨n, hfit, halloc⟩ := kheapAlignedAlloc_eq_some hreturns
  obtain ⟨front, v, back, b, rfl, rfl, hfits, hc⟩ :=
    ht.chosen hroot hfit (fun a ha => ((alignedFits_iff _ _ _ _).mp ha).1)
  obtain ⟨rfl, hcompact, hroot'⟩ := alignedAllocIn_eq_some halloc
  have hlt : chosenAddr alignment v.addr < 4294967296 := Nat.mod_lt _ (by omega)
  have hchosen := hc.chosenAddr_eq hpos halignment
  have hdvd : alignment ∣ chosenAddr alignment v.addr :=
    hchosen ▸ dvd_add_alignedOffset hpos (v.addr + 11)
  refine ⟨v.addr, hfit, fun ⟨hp, hlive⟩ => ?_, fun ⟨heleven, hsum⟩ hspares => ?_⟩
  · obtain ⟨-, -, -, -, -, hstart, hend⟩ := hlive
    simp only [KHEAP_START] at hstart
    simp only [KHEAP_END] at hend
    have hcontents : NODE_TO_CONTENTS (chosenAddr alignment v.addr) =
        chosenAddr alignment v.addr + 11 := by
      unfold NODE_TO_CONTENTS at hstart ⊢
      omega
    rw [hcontents] at hp hend
    exact ⟨(Nat.dvd_add_right hdvd).mp hp, by omega⟩
  · have hfew : alignment ≤ 11 := Nat.le_of_dvd (by omega) heleven
    have hoffset := alignedOffset_lt hpos (v.addr + 11)
    have hneed := ((alignedFits_iff _ _ _ _).mp hfits).2.1
    rw [Nat.mod_eq_of_lt hsum] at hneed
    have hunwrapped : FitsUnwrapped h v.addr requested alignment := ⟨hsum, by omega⟩
    obtain ⟨hlow, hroom⟩ := hc.aligned_room hpos halignment hfits hunwrapped
    have hhigh := hc.within.2
    simp only [KHEAP_END] at hhigh
    refine ⟨?_, hc.placed_live hroot' hlow hroom hspares hcompact⟩
    rw [NODE_TO_CONTENTS_of_lt (by omega)]
    exact Nat.dvd_add hdvd heleven

theorem aligned_block_iff_eleven : ∃ h' p,
    kheapAlignedAlloc 4 16 11 (kheapInit fun _ => 0) = some (h', p) ∧
      11 ∣ p ∧ LiveBlock h' p 16 := by
  have heleven : (kheapAlignedAlloc 4 16 11 (kheapInit fun _ => 0)).map Prod.snd =
      some 0xf000018 := by decide
  obtain ⟨⟨h', p⟩, hreturns, -⟩ := Option.map_eq_some_iff.mp heleven
  obtain ⟨n, hfit, -, hlive⟩ := aligned_block_iff (initial_tiling _) rfl (by omega) (by omega) hreturns
  obtain ⟨rfl, -⟩ := initial_fit hfit
  exact ⟨h', p, hreturns, hlive ⟨Nat.dvd_refl _, by omega⟩ (.inl (initial_holds _).2.2.2.2)⟩

-- A block aligned to a page starts 11 bytes into one.
theorem page_block_not_aligned :
    ¬ ∀ (h h' : Heap) (nodes : List Node) (requested alignment fuel p : Nat),
      Tiling h nodes KHEAP_END → h.root_node = KHEAP_START → 1 ≤ alignment →
        alignment < 4294967296 → kheapAlignedAlloc fuel requested alignment h = some (h', p) →
          alignment ∣ p ∧ LiveBlock h' p requested := by
  intro hclaim
  obtain ⟨⟨h', p⟩, hreturns, rfl⟩ := Option.map_eq_some_iff.mp page_block
  obtain ⟨hp, -⟩ := hclaim _ _ [initialNode] 16 4096 4 _ (initial_tiling _) rfl (by omega) (by omega)
    hreturns
  exact absurd hp (by decide)

end Aligned

end PalleyOS.Kheap
