import PalleyOS.Kheap.Lemmas

namespace PalleyOS.Kheap

open Machine

-- A call wrote no byte outside the headers in `written`, and the chain is now `nodes`.
structure Becomes (h h' : Heap) (written nodes : List Node) : Prop where
  root : h'.root_node = h.root_node
  chain : Chain h'.mem h.root_node nodes 0
  frame : ∀ x < 4294967296, Outside written x → load8 h'.mem x = load8 h.mem x

-- Headers put in the middle of the chain, and then compactHeap.
theorem Becomes.of_compact {fuel b c : Nat} {h h' : Heap} {m : Memory}
    {front middle back : List Node} (hfront : Chain h.mem h.root_node front b)
    (hmiddle : Chain m b middle c) (hback : Chain h.mem c back 0)
    (hlaid : Laid (front ++ (middle ++ back)))
    (hframe : ∀ x < 4294967296, Outside middle x → load8 m x = load8 h.mem x)
    (hcompact : compactHeap fuel ⟨m, h.root_node⟩ = some h') :
    Becomes h h' (front ++ (middle ++ back)) (compactNodes (front ++ (middle ++ back))) := by
  have hchain := Chain.replace hfront hmiddle hback hlaid hframe
  obtain ⟨hroot, hresult, hsame⟩ := compactHeap_chain hchain hlaid hcompact
  refine ⟨hroot, hresult, fun x hx hout => ?_⟩
  rw [hsame x hx hout]
  exact hframe x hx (fun w hw => hout w (List.mem_append_right _ (List.mem_append_left _ hw)))

section Initial

def initialNode : Node := ⟨KHEAP_START, KHEAP_END - KHEAP_START - 11, false⟩

theorem laid_initialNode : Laid [initialNode] := by
  unfold initialNode KHEAP_START
  exact (laid_cons_iff _ _).mpr ⟨⟨by dsimp only; omega, by dsimp only; omega⟩, by simp, List.Pairwise.nil,
    by simp⟩

theorem chain_initial (m : Memory) :
    Chain (kheapInit m).mem (kheapInit m).root_node [initialNode] 0 := by
  refine ⟨0, Holds.createNode m initialNode 0 ?_ (by omega), rfl⟩
  unfold initialNode KHEAP_END KHEAP_START
  dsimp only
  omega

end Initial

section Consume

theorem consumeNodes_has_addr (v : Node) (b : Nat) :
    ∃ w ∈ consumeNodes v b, w.addr = v.addr ∧ w.allocated = v.allocated := by
  unfold consumeNodes
  by_cases hsplit : 11 < unaccounted v b
  · rw [if_pos hsplit]
    exact ⟨v, List.mem_cons_self, rfl, rfl⟩
  · rw [if_neg hsplit]
    exact ⟨_, List.mem_cons_self, rfl, rfl⟩

theorem consumeEmptySpace_laid {m : Memory} {a b : Nat} {v : Node} (hv : Holds m a v b)
    (hlaid : Laid (consumeNodes v b)) :
    Chain (consumeEmptySpace m a) a (consumeNodes v b) b ∧
      ∀ x < 4294967296, Outside (consumeNodes v b) x →
        load8 (consumeEmptySpace m a) x = load8 m x := by
  have ha : a = v.addr := hv.1
  have hsplit_place (hsplit : 11 < unaccounted v b) :
      v.addr + 11 ≤ splitAddr v ∧ splitAddr v + 11 ≤ 4294967296 := by
    unfold consumeNodes at hlaid
    rw [if_pos hsplit] at hlaid
    exact ⟨hlaid.head_le List.mem_cons_self, hlaid.tail.addr_le List.mem_cons_self⟩
  have haddr : v.addr + 11 ≤ 4294967296 := by
    obtain ⟨w, hw, hwa, -⟩ := consumeNodes_has_addr v b
    exact hwa ▸ hlaid.addr_le hw
  obtain ⟨hchain, hframe⟩ := consumeEmptySpace_chain hv (fun hsplit i hi => by
    have := hsplit_place hsplit
    exact misses_of_le (by omega) (by omega) (by omega))
  refine ⟨hchain, fun x hx hout => hframe x ?_ (fun hsplit => ?_)⟩
  · obtain ⟨w, hw, hwa, -⟩ := consumeNodes_has_addr v b
    have := hout w hw
    exact misses_of_le (by omega) hx (by omega)
  · have hplace := hsplit_place hsplit
    unfold consumeNodes at hout
    rw [if_pos hsplit] at hout
    have hnew := hout _ (List.mem_cons_of_mem _ List.mem_cons_self)
    exact misses_of_le hplace.2 hx hnew

end Consume

section Alloc

variable {fuel requested p : Nat} {h h' : Heap}

theorem allocIn_becomes {front back : List Node} {v : Node} {b : Nat}
    (hrequested : requested < 4294967296)
    (hfront : Chain h.mem h.root_node front v.addr) (hv : Holds h.mem v.addr v b)
    (hback : Chain h.mem b back 0)
    (hlaid : Laid (front ++ (consumeNodes ⟨v.addr, requested, true⟩ b ++ back)))
    (hreturns : allocIn fuel requested v.addr h = some (h', p)) :
    p = NODE_TO_CONTENTS v.addr ∧
      Becomes h h' (front ++ (consumeNodes ⟨v.addr, requested, true⟩ b ++ back))
        (compactNodes (front ++ (consumeNodes ⟨v.addr, requested, true⟩ b ++ back))) := by
  unfold allocIn at hreturns
  obtain ⟨h₁, hcompact, heq⟩ := Option.map_eq_some_iff.mp hreturns
  cases heq
  have hmiddle_laid : Laid (consumeNodes ⟨v.addr, requested, true⟩ b) :=
    ((laid_append_iff _ _).mp ((laid_append_iff _ _).mp hlaid).2.1).1
  have htaken : Holds (setAllocated (setSize h.mem v.addr requested) v.addr true) v.addr
      ⟨v.addr, requested, true⟩ b := (hv.setSize requested hrequested).setAllocated true
  obtain ⟨hmiddle, hconsumed⟩ := consumeEmptySpace_laid htaken hmiddle_laid
  have hframe (x : Nat) (hx : x < 4294967296)
      (hout : Outside (consumeNodes ⟨v.addr, requested, true⟩ b) x) :
      load8 (consumeEmptySpace (setAllocated (setSize h.mem v.addr requested) v.addr true)
        v.addr) x = load8 h.mem x := by
    obtain ⟨w, hw, hwa, -⟩ := consumeNodes_has_addr ⟨v.addr, requested, true⟩ b
    have hwout := hout w hw
    have hwtop := hmiddle_laid.addr_le hw
    have hmiss : Misses v.addr 11 x := misses_of_le (hwa ▸ hwtop) hx (hwa ▸ hwout)
    rw [hconsumed x hx hout, load8_setAllocated_of_misses _ _ _ _ hmiss,
      load8_setSize_of_misses _ _ _ _ hmiss]
  exact ⟨rfl, Becomes.of_compact hfront hmiddle hback hlaid hframe hcompact⟩

-- On a chain the retry after a bad magic number is never taken.
theorem kheapAlloc_eq_some {nodes : List Node} (hchain : Chain h.mem h.root_node nodes 0)
    (hreturns : kheapAlloc fuel requested h = some (h', p)) :
    ∃ n, FirstFit (allocFits h.mem requested) h.mem h.root_node n ∧
      allocIn fuel requested n h = some (h', p) := by
  unfold kheapAlloc kheapAllocInner at hreturns
  rw [if_pos rfl] at hreturns
  unfold allocAttempt at hreturns
  cases hwalk : walkNodes (allocFits h.mem requested) h.mem fuel h.root_node with
  | none =>
      simp only [hwalk] at hreturns
      cases hreturns
  | some walk =>
      cases walk with
      | found n =>
          simp only [hwalk] at hreturns
          exact ⟨n, walkNodes_found _ _ _ _ _ hwalk, hreturns⟩
      | corrupted => exact absurd hwalk (walkNodes_not_corrupted _ _ _ _ nodes hchain)
      | exhausted =>
          simp only [hwalk] at hreturns
          cases hreturns

end Alloc

section AlignedAlloc

variable {fuel requested alignment p : Nat} {h h' : Heap}

def chosenAddr (alignment preceding_node : Nat) : Nat :=
  (NODE_TO_CONTENTS preceding_node + alignedOffset alignment (NODE_TO_CONTENTS preceding_node)) %
    4294967296

-- The two headers before the empty space after the second is consumed.
def alignedHeaders (m : Memory) (requested chosen preceding_node : Nat) : Memory :=
  setNextNode (setSize (createNode m chosen requested (next_node m preceding_node) true)
    preceding_node (sub32 (sub32 chosen preceding_node) 11)) preceding_node chosen

theorem alignedHeaders_holds {m : Memory} {v : Node} {a b chosen : Nat}
    (hrequested : requested < 4294967296) (hchosen : chosen < 4294967296)
    (hv : Holds m a v b) (hapart : ∀ i < 11, Misses chosen 11 (a + i)) :
    Holds (alignedHeaders m requested chosen a) a
        { v with size := sub32 (sub32 chosen a) 11 } chosen ∧
      Holds (alignedHeaders m requested chosen a) chosen ⟨chosen, requested, true⟩ b ∧
      ∀ x, Misses a 11 x → Misses chosen 11 x →
        load8 (alignedHeaders m requested chosen a) x = load8 m x := by
  unfold alignedHeaders
  rw [hv.2.2.2.2]
  have hold : Holds (createNode m chosen requested b true) a v b :=
    hv.congr (fun i hi => load8_createNode_of_misses _ _ _ _ _ _ (hapart i hi))
  have hnew : Holds (createNode m chosen requested b true) chosen ⟨chosen, requested, true⟩ b :=
    Holds.createNode m ⟨chosen, requested, true⟩ b hrequested hv.next_lt
  have hsize : sub32 (sub32 chosen a) 11 < 4294967296 := Nat.mod_lt _ (by omega)
  refine ⟨(hold.setSize _ hsize).setNextNode chosen hchosen, hnew.congr (fun i hi => ?_),
    fun x hx hx' => ?_⟩
  · have hmiss := misses_symm hapart i hi
    rw [load8_setNextNode_of_misses _ _ _ _ hmiss, load8_setSize_of_misses _ _ _ _ hmiss]
  · rw [load8_setNextNode_of_misses _ _ _ _ hx, load8_setSize_of_misses _ _ _ _ hx,
      load8_createNode_of_misses _ _ _ _ _ _ hx']

theorem alignedAllocIn_eq (n : Nat) :
    alignedAllocIn fuel requested alignment n h =
      (compactHeap fuel ⟨consumeEmptySpace
        (alignedHeaders h.mem requested (chosenAddr alignment n) n) (chosenAddr alignment n),
        h.root_node⟩).map (fun h' => (h', NODE_TO_CONTENTS (chosenAddr alignment n))) := rfl

theorem kheapAlignedAlloc_eq_some
    (hreturns : kheapAlignedAlloc fuel requested alignment h = some (h', p)) :
    ∃ n, FirstFit (alignedFits h.mem requested alignment) h.mem h.root_node n ∧
      alignedAllocIn fuel requested alignment n h = some (h', p) := by
  unfold kheapAlignedAlloc at hreturns
  cases hwalk : walkNodes (alignedFits h.mem requested alignment) h.mem fuel h.root_node with
  | none =>
      simp only [hwalk] at hreturns
      cases hreturns
  | some walk =>
      cases walk with
      | found n =>
          simp only [hwalk] at hreturns
          exact ⟨n, walkNodes_found _ _ _ _ _ hwalk, hreturns⟩
      | corrupted =>
          simp only [hwalk] at hreturns
          cases hreturns
      | exhausted =>
          simp only [hwalk] at hreturns
          cases hreturns

-- kheapAlignedAlloc on the list of nodes: what is left of the node before the
-- block, the block, and the header split off after it.
def alignedNodes (v : Node) (requested chosen next : Nat) : List Node :=
  { v with size := sub32 (sub32 chosen v.addr) 11 } ::
    consumeNodes ⟨chosen, requested, true⟩ next

theorem alignedAllocIn_becomes {front back : List Node} {v : Node} {b : Nat}
    (hrequested : requested < 4294967296)
    (hfront : Chain h.mem h.root_node front v.addr) (hv : Holds h.mem v.addr v b)
    (hback : Chain h.mem b back 0)
    (hlaid : Laid (front ++ (alignedNodes v requested (chosenAddr alignment v.addr) b ++ back)))
    (hreturns : alignedAllocIn fuel requested alignment v.addr h = some (h', p)) :
    p = NODE_TO_CONTENTS (chosenAddr alignment v.addr) ∧
      Becomes h h' (front ++ (alignedNodes v requested (chosenAddr alignment v.addr) b ++ back))
        (compactNodes
          (front ++ (alignedNodes v requested (chosenAddr alignment v.addr) b ++ back))) := by
  rw [alignedAllocIn_eq] at hreturns
  obtain ⟨h₁, hcompact, heq⟩ := Option.map_eq_some_iff.mp hreturns
  cases heq
  have hlt : chosenAddr alignment v.addr < 4294967296 := Nat.mod_lt _ (by omega)
  generalize chosenAddr alignment v.addr = chosen at *
  have hmiddle_laid : Laid (alignedNodes v requested chosen b) :=
    ((laid_append_iff _ _).mp ((laid_append_iff _ _).mp hlaid).2.1).1
  obtain ⟨⟨-, hvtop⟩, hlow, hsecond_laid⟩ := (laid_cons_iff _ _).mp hmiddle_laid
  dsimp only at hvtop hlow
  obtain ⟨w, hw, hwa, -⟩ := consumeNodes_has_addr ⟨chosen, requested, true⟩ b
  have hwlow := hlow w hw
  have hwtop := hsecond_laid.addr_le hw
  simp only [hwa] at hwlow hwtop
  obtain ⟨hpreceding, hchosen, hheaders⟩ := alignedHeaders_holds hrequested hlt hv
    (fun i hi => misses_of_le hwtop (by omega) (by omega))
  obtain ⟨hsecond, hconsumed⟩ := consumeEmptySpace_laid hchosen hsecond_laid
  have hmiddle : Chain (consumeEmptySpace (alignedHeaders h.mem requested chosen v.addr) chosen)
      v.addr (alignedNodes v requested chosen b) b :=
    ⟨chosen, hpreceding.congr (fun i hi => hconsumed _ (by omega) (fun u hu => by
      have := hlow u hu
      omega)), hsecond⟩
  have hframe (x : Nat) (hx : x < 4294967296) (hout : Outside (alignedNodes v requested chosen b) x) :
      load8 (consumeEmptySpace (alignedHeaders h.mem requested chosen v.addr) chosen) x =
        load8 h.mem x := by
    obtain ⟨hvout, hout⟩ := (outside_cons_iff _ _ _).mp hout
    dsimp only at hvout
    have hwout := hout w hw
    simp only [hwa] at hwout
    rw [hconsumed x hx hout]
    exact hheaders x (misses_of_le hvtop hx hvout) (misses_of_le hwtop hx hwout)
  exact ⟨rfl, Becomes.of_compact hfront hmiddle hback hlaid hframe hcompact⟩

end AlignedAlloc

section Free

variable {fuel ptr : Nat} {h h' : Heap}

theorem kheapFree_becomes {front back : List Node} {v : Node} {b : Nat}
    (hfront : Chain h.mem h.root_node front v.addr) (hv : Holds h.mem v.addr v b)
    (hback : Chain h.mem b back 0) (hlaid : Laid (front ++ v :: back))
    (hptr : ptr = v.addr + 11) (htop : ptr < 4294967296)
    (hreturns : kheapFree fuel ptr h = some h') :
    Becomes h h' (front ++ ([{ v with allocated := false }] ++ back))
      (compactNodes (front ++ ([{ v with allocated := false }] ++ back))) := by
  subst hptr
  have hnode : CONTENTS_TO_NODE (v.addr + 11) = v.addr := CONTENTS_TO_NODE_of_lt htop
  unfold kheapFree at hreturns
  simp only [hnode] at hreturns
  rw [if_neg (not_not.mpr hv.2.1)] at hreturns
  have hlaid' : Laid (front ++ ([{ v with allocated := false }] ++ back)) :=
    hlaid.sublist (by simp)
  have hvtop := hlaid.addr_le (List.mem_append_right front List.mem_cons_self)
  have hframe (x : Nat) (hx : x < 4294967296) (hout : Outside [{ v with allocated := false }] x) :
      load8 (setAllocated h.mem v.addr false) x = load8 h.mem x :=
    load8_setAllocated_of_misses _ _ _ _
      (misses_of_le hvtop hx ((outside_cons_iff _ _ _).mp hout).1)
  exact Becomes.of_compact hfront ⟨b, hv.setAllocated false, rfl⟩ hback hlaid' hframe hreturns

end Free

section Realloc

variable {fuel ptr requested p : Nat} {h h' : Heap}

-- kheapRealloc on the list of nodes where it splits the block's node.
def resizedNodes (v : Node) (requested remaining : Nat) : List Node :=
  [{ v with size := requested }, ⟨splitPlace v.addr requested, remaining - 11, false⟩]

-- The two headers before compactHeap.
def splitHeaders (m : Memory) (place current_node requested remaining next : Nat) : Memory :=
  setSize (setNextNode (createNode m place (remaining - 11) next false) current_node place)
    current_node requested

theorem splitHeaders_holds {m : Memory} {v : Node} {b next remaining place : Nat}
    (hrequested : requested < 4294967296) (hremaining : remaining < 4294967296)
    (hnext : next < 4294967296) (hplace : place < 4294967296) (hv : Holds m v.addr v b)
    (hapart : ∀ i < 11, Misses place 11 (v.addr + i)) :
    Holds (splitHeaders m place v.addr requested remaining next) v.addr
        { v with size := requested } place ∧
      Holds (splitHeaders m place v.addr requested remaining next) place
        ⟨place, remaining - 11, false⟩ next ∧
      ∀ x, Misses v.addr 11 x → Misses place 11 x →
        load8 (splitHeaders m place v.addr requested remaining next) x = load8 m x := by
  unfold splitHeaders
  have hnew : Holds (createNode m place (remaining - 11) next false) place
      ⟨place, remaining - 11, false⟩ next :=
    Holds.createNode m ⟨place, remaining - 11, false⟩ next
      ((Nat.sub_le _ _).trans_lt hremaining) hnext
  have hold : Holds (createNode m place (remaining - 11) next false) v.addr v b :=
    hv.congr (fun i hi => load8_createNode_of_misses _ _ _ _ _ _ (hapart i hi))
  refine ⟨(hold.setNextNode place hplace).setSize requested hrequested,
    hnew.congr (fun i hi => ?_), fun x hx hx' => ?_⟩
  · have hmiss := misses_symm hapart i hi
    rw [load8_setSize_of_misses _ _ _ _ hmiss, load8_setNextNode_of_misses _ _ _ _ hmiss]
  · rw [load8_setSize_of_misses _ _ _ _ hx, load8_setNextNode_of_misses _ _ _ _ hx,
      load8_createNode_of_misses _ _ _ _ _ _ hx']

theorem splitAfter_eq (current_node remaining next : Nat) :
    splitAfter fuel current_node requested remaining next h =
      (compactHeap fuel ⟨splitHeaders h.mem (splitPlace current_node requested) current_node requested
        remaining next, h.root_node⟩).map (fun h' => (h', NODE_TO_CONTENTS current_node)) := rfl

-- `back` may start some unallocated nodes after `v`, which the block takes over.
theorem splitAfter_becomes {front back : List Node} {v : Node} {b next remaining : Nat}
    (hrequested : requested < 4294967296) (hremaining : remaining < 4294967296)
    (hfront : Chain h.mem h.root_node front v.addr) (hv : Holds h.mem v.addr v b)
    (hback : Chain h.mem next back 0) (hnext : next < 4294967296)
    (hlaid : Laid (front ++ (resizedNodes v requested remaining ++ back)))
    (hreturns : splitAfter fuel v.addr requested remaining next h = some (h', p)) :
    p = NODE_TO_CONTENTS v.addr ∧
      Becomes h h' (front ++ (resizedNodes v requested remaining ++ back))
        (compactNodes (front ++ (resizedNodes v requested remaining ++ back))) := by
  rw [splitAfter_eq] at hreturns
  obtain ⟨h₁, hcompact, heq⟩ := Option.map_eq_some_iff.mp hreturns
  cases heq
  have hlt : splitPlace v.addr requested < 4294967296 := Nat.mod_lt _ (by omega)
  unfold resizedNodes at *
  generalize splitPlace v.addr requested = place at *
  obtain ⟨⟨-, hvtop⟩, hlow, hnew_laid⟩ :=
    (laid_cons_iff _ _).mp ((laid_append_iff _ _).mp ((laid_append_iff _ _).mp hlaid).2.1).1
  obtain ⟨⟨-, hntop⟩, -⟩ := (laid_cons_iff _ _).mp hnew_laid
  have hvlow := hlow _ List.mem_cons_self
  dsimp only at hvtop hntop hvlow
  have hapart : ∀ i < 11, Misses place 11 (v.addr + i) :=
    fun i hi => misses_of_le hntop (by omega) (by omega)
  obtain ⟨hresized, hnew, hkept⟩ := splitHeaders_holds hrequested hremaining hnext hlt hv hapart
  have hframe (x : Nat) (hx : x < 4294967296)
      (hout : Outside [{ v with size := requested }, ⟨place, remaining - 11, false⟩] x) :
      load8 (splitHeaders h.mem place v.addr requested remaining next) x = load8 h.mem x := by
    obtain ⟨hvout, hout⟩ := (outside_cons_iff _ _ _).mp hout
    exact hkept x (misses_of_le hvtop hx hvout)
      (misses_of_le hntop hx ((outside_cons_iff _ _ _).mp hout).1)
  exact ⟨rfl, Becomes.of_compact hfront ⟨place, hresized, next, hnew, rfl⟩ hback hlaid hframe
    hcompact⟩

-- The loop stops at the first allocated node, or at the end of the chain.
theorem possibleSize_chain {m : Memory} {fuel b possible iter possible' : Nat} {nodes : List Node}
    (hchain : Chain m b nodes 0) (hreturns : possibleSize m fuel b possible = some (iter, possible'))
    (hb : b < 4294967296) (hpossible : possible < 4294967296) :
    ∃ free back, nodes = free ++ back ∧ (∀ w ∈ free, w.allocated = false) ∧
      Chain m iter back 0 ∧ iter < 4294967296 ∧ possible' < 4294967296 := by
  induction fuel generalizing b possible nodes with
  | zero => cases hreturns
  | succ fuel ih =>
      unfold possibleSize at hreturns
      by_cases hfree : b ≠ 0 ∧ allocated m b = false
      · rw [if_pos hfree] at hreturns
        cases nodes with
        | nil => exact absurd hchain hfree.1
        | cons v rest =>
            obtain ⟨c, hv, hrest⟩ := hchain
            rw [hv.2.2.2.2] at hreturns
            obtain ⟨free, back, rfl, hall, hback⟩ :=
              ih hrest hreturns hv.next_lt (Nat.mod_lt _ (by omega))
            refine ⟨v :: free, back, rfl, ?_, hback⟩
            intro w hw
            rcases List.mem_cons.mp hw with rfl | hw
            · rw [← hv.2.2.2.1]
              exact hfree.2
            · exact hall w hw
      · rw [if_neg hfree] at hreturns
        cases hreturns
        exact ⟨[], nodes, rfl, by simp, hchain, hb, hpossible⟩

theorem growIn_consumes {front back : List Node} {v : Node} {b iter possible_size : Nat}
    (hpossible : possible_size < 4294967296)
    (hfront : Chain h.mem h.root_node front v.addr) (hv : Holds h.mem v.addr v b)
    (hback : Chain h.mem iter back 0) (hiter : iter < 4294967296)
    (hlaid : Laid (front ++ v :: back)) (hdelta : ¬ 12 ≤ possible_size - requested)
    (hreturns : growIn fuel v.addr requested iter possible_size h = some (h', p)) :
    p = NODE_TO_CONTENTS v.addr ∧
      Becomes h h' (front ++ ([{ v with size := possible_size }] ++ back))
        (front ++ ([{ v with size := possible_size }] ++ back)) := by
  unfold growIn at hreturns
  simp only [if_neg hdelta] at hreturns
  cases hreturns
  have hvtop := hlaid.addr_le (List.mem_append_right front List.mem_cons_self)
  have hlaid' : Laid (front ++ ([{ v with size := possible_size }] ++ back)) :=
    hlaid.sublist (by simp)
  have hframe (x : Nat) (hx : x < 4294967296)
      (hout : Outside [{ v with size := possible_size }] x) :
      load8 (setSize (setNextNode h.mem v.addr iter) v.addr possible_size) x = load8 h.mem x := by
    have hmiss : Misses v.addr 11 x :=
      misses_of_le hvtop hx ((outside_cons_iff _ _ _).mp hout).1
    rw [load8_setSize_of_misses _ _ _ _ hmiss, load8_setNextNode_of_misses _ _ _ _ hmiss]
  refine ⟨rfl, rfl, Chain.replace hfront ⟨iter, ?_, rfl⟩ hback hlaid' hframe, fun x hx hout =>
    hframe x hx (fun u hu => hout u (List.mem_append_right _ (List.mem_append_left _ hu)))⟩
  exact (hv.setNextNode iter hiter).setSize possible_size hpossible

theorem load8_kmemcpy_of_le (m : Memory) (dest src num x : Nat)
    (htop : dest + num ≤ 4294967296) (hx : x < 4294967296) (hout : x < dest ∨ dest + num ≤ x) :
    load8 (kmemcpy m dest src num) x = load8 m x := by
  induction num generalizing m dest src with
  | zero => rfl
  | succ num ih =>
      unfold kmemcpy
      rw [ih _ _ _ (by omega) (by omega), load8_store8_of_ne _ _ _ _ (by omega)]

end Realloc

end PalleyOS.Kheap
