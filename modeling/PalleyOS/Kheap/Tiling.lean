import PalleyOS.Kheap.Links

namespace PalleyOS.Kheap

open Machine

section Tiles

-- Each node starts where the one before it ends.
def Tiles : Nat → List Node → Nat → Prop
  | a, [], e => a = e
  | a, v :: rest, e => v.addr = a ∧ Tiles (a + 11 + v.size) rest e

-- The nodes from root_node on tile the heap, and free ones are merged.
def Tiled (h : Heap) : Prop :=
  ∃ nodes, Chain h.mem h.root_node nodes 0 ∧ Tiles h.root_node nodes KHEAP_END ∧
    nodes.IsChain (fun v w => v.allocated = true ∨ w.allocated = true)

-- The size with the header's 11 bytes does not fit in 32 bits.
def Call.wraps : Call → Prop
  | .alignedAlloc requested _ => 4294967296 ≤ 11 + requested.toNat
  | _ => False

theorem Tiles.le_of_mem {a e : Nat} {nodes : List Node} (h : Tiles a nodes e) :
    a ≤ e ∧ ∀ v ∈ nodes, a ≤ v.addr ∧ v.addr + 11 + v.size ≤ e := by
  induction nodes generalizing a with
  | nil => exact ⟨le_of_eq h, fun _ hv => by cases hv⟩
  | cons v rest ih =>
      obtain ⟨ha, hrest⟩ := h
      obtain ⟨hle, hmem⟩ := ih hrest
      refine ⟨by omega, fun w hw => ?_⟩
      rcases List.mem_cons.mp hw with rfl | hw
      · omega
      · have := hmem w hw
        omega

theorem Holds.unique {m : Memory} {a b b' : Nat} {v v' : Node} (h : Holds m a v b)
    (h' : Holds m a v' b') : v = v' ∧ b = b' := by
  obtain ⟨ha, -, hsize, hallocated, hnext⟩ := h
  obtain ⟨ha', -, hsize', hallocated', hnext'⟩ := h'
  refine ⟨?_, hnext.symm.trans hnext'⟩
  cases v
  cases v'
  simp only [Node.mk.injEq]
  exact ⟨ha.symm.trans ha', hsize.symm.trans hsize', hallocated.symm.trans hallocated'⟩

-- Two chains from one address agree for as long as the first has not ended.
theorem Chain.shared {m : Memory} {a : Nat} {front back nodes : List Node} {v : Node}
    (h : Chain m a (front ++ v :: back) 0) (h' : Chain m a nodes 0)
    (hfront : ∀ w ∈ front, w.addr ≠ 0) (hv : v.addr ≠ 0) : v ∈ nodes := by
  induction front generalizing a nodes with
  | nil =>
      cases nodes with
      | nil => exact absurd (h.head_addr.symm.trans h') hv
      | cons w rest =>
          obtain ⟨b, hholds, -⟩ := h
          obtain ⟨c, hholds', -⟩ := h'
          exact (hholds.unique hholds').1 ▸ List.mem_cons_self
  | cons u front ih =>
      cases nodes with
      | nil => exact absurd (h.head_addr.symm.trans h') (hfront u List.mem_cons_self)
      | cons w rest =>
          obtain ⟨b, hholds, hrest⟩ := h
          obtain ⟨c, hholds', hrest'⟩ := h'
          obtain ⟨-, rfl⟩ := hholds.unique hholds'
          exact List.mem_cons_of_mem _
            (ih hrest hrest' (fun w hw => hfront w (List.mem_cons_of_mem _ hw)))

end Tiles

section Settled

theorem compactFrom_settled (fuel a : Nat) (m m' : Memory) (nodes : List Node)
    (hchain : Chain m a nodes 0)
    (hsettled : nodes.IsChain (fun v w => v.allocated = true ∨ w.allocated = true))
    (hreturns : compactFrom fuel m a = some m') : m' = m :=
  compactFrom_links_settled hchain.links hsettled hreturns

theorem compactHeap_settled {fuel : Nat} {h h' : Heap} {nodes : List Node}
    (hchain : Chain h.mem h.root_node nodes 0)
    (hsettled : nodes.IsChain (fun v w => v.allocated = true ∨ w.allocated = true))
    (hreturns : compactHeap fuel h = some h') : h' = h := by
  unfold compactHeap at hreturns
  obtain ⟨m', hm', rfl⟩ := Option.map_eq_some_iff.mp hreturns
  rw [compactFrom_settled _ _ _ _ _ hchain hsettled hm']

end Settled

section FirstCall

-- A block on the last node: the space claimed after it runs past the heap's end.
theorem not_tiles_consumed {m : Memory} {a place requested : Nat} {nodes : List Node}
    (front : List Node) (hfront : ∀ w ∈ front, w.addr ≠ 0) (hplace : KHEAP_START ≤ place)
    (hrequested : requested < KHEAP_START)
    (hchain : Chain m a (front ++ consumeNodes ⟨place, requested, true⟩ 0) 0)
    (hnodes : Chain m a nodes 0) : ¬ Tiles a nodes KHEAP_END := by
  intro htiles
  have hmem := htiles.le_of_mem.2
  unfold KHEAP_END at hmem
  unfold KHEAP_START at hplace hrequested
  unfold consumeNodes at hchain
  by_cases hsplit : 11 < unaccounted ⟨place, requested, true⟩ 0
  · rw [if_pos hsplit] at hchain
    have hblock := hmem _ (hchain.shared hnodes hfront (by dsimp only; omega))
    dsimp only at hblock
    have hsplit_at := splitAddr_of_lt (v := ⟨place, requested, true⟩) (by dsimp only; omega)
    have hclaimed : unaccounted ⟨place, requested, true⟩ 0 = 4294967296 - place + requested := by
      unfold unaccounted sub32
      dsimp only
      omega
    rw [← List.singleton_append, ← List.append_assoc] at hchain
    have hnew := hmem _ (hchain.shared hnodes (fun w hw => by
      rcases List.mem_append.mp hw with hw | hw
      · exact hfront w hw
      · rw [List.mem_singleton.mp hw]
        dsimp only
        omega) (by dsimp only; omega))
    dsimp only at hnew hsplit_at
    omega
  · rw [if_neg hsplit] at hchain
    have hblock := hmem _ (hchain.shared hnodes hfront (by dsimp only; omega))
    unfold unaccounted sub32 at hsplit
    dsimp only at hblock hsplit
    omega

theorem consumeNodes_settled (u v : Node) (b : Nat) (hallocated : v.allocated = true) :
    (u :: consumeNodes v b).IsChain (fun v w => v.allocated = true ∨ w.allocated = true) := by
  unfold consumeNodes
  by_cases hsplit : 11 < unaccounted v b
  · rw [if_pos hsplit]
    exact List.isChain_cons_cons.mpr ⟨.inr hallocated,
      List.isChain_cons_cons.mpr ⟨.inl hallocated, List.IsChain.singleton _⟩⟩
  · rw [if_neg hsplit]
    exact List.isChain_cons_cons.mpr ⟨.inr hallocated, List.IsChain.singleton _⟩

theorem initial_fit {m : Memory} {n : Nat} {fits : Nat → Bool}
    (h : FirstFit fits (kheapInit m).mem (kheapInit m).root_node n) :
    n = KHEAP_START ∧ fits KHEAP_START = true := by
  obtain ⟨front, v, back, hnodes, rfl, hfits⟩ := h.exists_node (chain_initial m)
  cases front with
  | nil =>
      cases hnodes
      exact ⟨rfl, hfits⟩
  | cons u front => cases front <;> cases hnodes

theorem initial_holds (m : Memory) : Holds (kheapInit m).mem KHEAP_START initialNode 0 := by
  obtain ⟨b, hholds, hb⟩ := chain_initial m
  exact hb ▸ hholds

variable {m : Memory} {fuel requested alignment p : Nat} {h' : Heap}

theorem alloc_not_tiled (hrequested : requested < 4294967296)
    (hreturns : kheapAlloc fuel requested (kheapInit m) = some (h', p)) : ¬ Tiled h' := by
  obtain ⟨n, hfit, hreturns⟩ := kheapAlloc_eq_some (chain_initial m) hreturns
  obtain ⟨rfl, hfits⟩ := initial_fit hfit
  have hv := initial_holds m
  have hsize : requested ≤ KHEAP_END - KHEAP_START - 11 := by
    unfold allocFits at hfits
    rw [hv.2.2.1, hv.2.2.2.1] at hfits
    simp only [initialNode, Bool.not_false, Bool.true_and] at hfits
    exact of_decide_eq_true hfits
  unfold KHEAP_END KHEAP_START at hsize
  unfold allocIn at hreturns
  obtain ⟨h₁, hcompact, heq⟩ := Option.map_eq_some_iff.mp hreturns
  cases heq
  have htaken := (hv.setSize requested hrequested).setAllocated true
  obtain ⟨hchain, -⟩ := consumeEmptySpace_chain htaken (fun _ i hi j hj => by
    unfold splitAddr NODE_TO_CONTENTS initialNode KHEAP_START
    dsimp only
    omega)
  have hsame := compactHeap_settled (h := ⟨_, _⟩) hchain
    (consumeNodes_settled initialNode _ _ rfl).of_cons hcompact
  subst hsame
  rintro ⟨nodes, hnodes, htiles, -⟩
  refine not_tiles_consumed [] (by simp) (le_refl _) ?_ hchain hnodes htiles
  unfold KHEAP_START
  dsimp only
  omega

theorem alignedOffset_le (hpos : 1 ≤ alignment) (first_byte_addr : Nat) :
    first_byte_addr + alignedOffset alignment first_byte_addr ≤ max alignment (2 * first_byte_addr) := by
  have hmod := Nat.mod_lt first_byte_addr hpos
  unfold alignedOffset
  by_cases hlt : first_byte_addr < alignment
  · rw [Nat.mod_eq_of_lt hlt]
    dsimp only
    by_cases hzero : alignment - first_byte_addr = alignment
    · rw [if_pos hzero]
      omega
    · rw [if_neg hzero]
      omega
  · dsimp only
    by_cases hzero : alignment - first_byte_addr % alignment = alignment
    · rw [if_pos hzero]
      omega
    · rw [if_neg hzero]
      omega

-- The block may lie past the heap's end, where headers wrap to low addresses,
-- but root_node stays and leads to it.
theorem alignedAlloc_not_tiled (hrequested : requested < 4294967296) (hpos : 1 ≤ alignment)
    (halignment : alignment < 4294967296) (hwraps : 11 + requested < 4294967296)
    (hreturns : kheapAlignedAlloc fuel requested alignment (kheapInit m) = some (h', p)) :
    ¬ Tiled h' := by
  obtain ⟨n, hfit, hreturns⟩ := kheapAlignedAlloc_eq_some hreturns
  obtain ⟨rfl, hfits⟩ := initial_fit hfit
  have hv := initial_holds m
  have hsize : 11 + requested ≤ KHEAP_END - KHEAP_START - 11 := by
    unfold alignedFits at hfits
    rw [hv.2.2.1, hv.2.2.2.1] at hfits
    simp only [initialNode, Bool.not_false, Bool.true_and, Bool.and_eq_true, decide_eq_true_eq,
      Nat.mod_eq_of_lt hwraps] at hfits
    exact hfits.1
  unfold KHEAP_END KHEAP_START at hsize
  have hoffset := alignedOffset_le hpos (KHEAP_START + 11)
  have hchosen : chosenAddr alignment KHEAP_START =
      KHEAP_START + 11 + alignedOffset alignment (KHEAP_START + 11) := by
    unfold chosenAddr
    rw [NODE_TO_CONTENTS_of_lt (by decide)]
    unfold KHEAP_START at *
    omega
  rw [alignedAllocIn_eq] at hreturns
  obtain ⟨h₁, hcompact, heq⟩ := Option.map_eq_some_iff.mp hreturns
  cases heq
  have hlow : KHEAP_START + 11 ≤ chosenAddr alignment KHEAP_START := by omega
  have hlt : chosenAddr alignment KHEAP_START < 4294967296 := Nat.mod_lt _ (by omega)
  generalize chosenAddr alignment KHEAP_START = chosen at *
  unfold KHEAP_START at hlow
  obtain ⟨hroot, hblock, -⟩ := alignedHeaders_holds hrequested hlt hv (fun i hi j hj => by
    unfold KHEAP_START
    omega)
  obtain ⟨hsecond, hframe⟩ := consumeEmptySpace_chain hblock (fun _ i hi j hj => by
    unfold splitAddr NODE_TO_CONTENTS
    dsimp only
    omega)
  have hroot' := hroot.congr (fun i hi => hframe _ (fun j hj => by
    unfold KHEAP_START
    omega) (fun _ j hj => by
    unfold splitAddr NODE_TO_CONTENTS KHEAP_START
    dsimp only
    omega))
  generalize consumeEmptySpace _ chosen = m₁ at hroot' hsecond hcompact
  have hchain : Chain m₁ KHEAP_START (_ :: consumeNodes ⟨chosen, requested, true⟩ 0) 0 :=
    ⟨chosen, hroot', hsecond⟩
  have hsame := compactHeap_settled (h := ⟨m₁, KHEAP_START⟩) hchain
    (consumeNodes_settled _ _ _ rfl) hcompact
  subst hsame
  rintro ⟨nodes, hnodes, htiles, -⟩
  refine not_tiles_consumed [_] ?_ ?_ ?_ hchain hnodes htiles
  · intro w hw
    rw [List.mem_singleton.mp hw]
    unfold initialNode KHEAP_START
    dsimp only
    omega
  · unfold KHEAP_START
    omega
  · unfold KHEAP_START
    omega

theorem initial_tiles : Tiles KHEAP_START [initialNode] KHEAP_END := by
  have hend : KHEAP_START + 11 + (KHEAP_END - KHEAP_START - 11) = KHEAP_END := by
    unfold KHEAP_END KHEAP_START
    omega
  exact ⟨rfl, hend⟩

theorem initial_tiled (m : Memory) : Tiled (kheapInit m) :=
  ⟨[initialNode], chain_initial m, initial_tiles, List.IsChain.singleton _⟩

end FirstCall

section Runs

theorem first_step_not_tiled {m : Memory} {call : Call} {s' : System}
    (hstep : Step (initial m) call s') (hwraps : ¬ call.wraps) : ¬ Tiled s'.heap := by
  cases hstep with
  | @alloc requested _ _ _ hreturns => exact alloc_not_tiled requested.toNat_lt hreturns
  | @alignedAlloc requested alignment _ _ _ hpos hreturns =>
      exact alignedAlloc_not_tiled requested.toNat_lt hpos alignment.toNat_lt
        (Nat.lt_of_not_le hwraps) hreturns
  | realloc hlive _ => cases hlive
  | free hlive _ => cases hlive
  | write hlive _ _ => cases hlive

-- The heap is tiled until the first call returns, and no longer: a size that
-- wraps in kheapAlignedAlloc is the one way past that first call.
theorem tiled_throughout_only_without_calls (m : Memory) (trace : List (Call × System))
    (hrun : Along Step (initial m) trace) :
    (trace = [] →
      Tiled (initial m).heap ∧ Along (fun _ _ s' => Tiled s'.heap) (initial m) trace) ∧
    (Tiled (initial m).heap ∧ Along (fun _ _ s' => Tiled s'.heap) (initial m) trace →
      trace = [] ∨ ∃ entry ∈ trace.head?, entry.1.wraps) := by
  constructor
  · rintro rfl
    exact ⟨initial_tiled m, trivial⟩
  · rintro ⟨-, htiled⟩
    cases trace with
    | nil => exact .inl rfl
    | cons entry rest =>
        by_cases hwraps : entry.1.wraps
        · exact .inr ⟨entry, rfl, hwraps⟩
        · exact absurd htiled.1 (first_step_not_tiled hrun.1 hwraps)

theorem tiled_throughout_only_without_calls_alloc :
    ∃ trace : List (Call × System), trace.map Prod.fst = [.alloc 16] ∧
      (Tiled (initial fun _ => 0).heap ∧
        Along (fun _ _ s' => Tiled s'.heap) (initial fun _ => 0) trace →
        trace = [] ∨ ∃ entry ∈ trace.head?, entry.1.wraps) := by
  have hreturns : (kheapAlloc 3 (16 : UInt32).toNat (initial fun _ => 0).heap).map Prod.snd =
      some 0xf00000b := by decide
  obtain ⟨⟨h₁, p⟩, halloc, rfl⟩ := Option.map_eq_some_iff.mp hreturns
  have hrun : Along Step (initial fun _ => 0) [(.alloc 16, _)] := ⟨.alloc halloc, trivial⟩
  exact ⟨_, rfl, (tiled_throughout_only_without_calls (fun _ => 0) _ hrun).2⟩

theorem untiled_after_one_alloc :
    ¬ ∀ (m : Memory) (trace : List (Call × System)), Along Step (initial m) trace →
      Tiled (initial m).heap ∧ Along (fun _ _ s' => Tiled s'.heap) (initial m) trace := by
  intro hclaim
  have hreturns : (kheapAlloc 3 (16 : UInt32).toNat (initial fun _ => 0).heap).map Prod.snd =
      some 0xf00000b := by decide
  obtain ⟨⟨h₁, p⟩, halloc, rfl⟩ := Option.map_eq_some_iff.mp hreturns
  have hruns := hclaim (fun _ => 0) [(.alloc 16, _)] ⟨.alloc halloc, trivial⟩
  exact first_step_not_tiled (.alloc halloc) id hruns.2.1

end Runs

end PalleyOS.Kheap
