import PalleyOS.Kheap.Operations

namespace PalleyOS.Kheap

open Machine

section Apart

def InBlock (block : Nat × Nat) (x : Nat) : Prop := block.1 ≤ x ∧ x < block.1 + block.2

-- The nodes that a walk from `a` comes to.
inductive InChain (m : Memory) : Nat → Nat → Prop
  | here {a : Nat} (hne : a ≠ 0) : InChain m a a
  | later {a n : Nat} (hne : a ≠ 0) (hlater : InChain m (next_node m a) n) : InChain m a n

structure BlocksApart (s : System) : Prop where
  disjoint : s.live.Pairwise (fun block other => ∀ x, ¬ (InBlock block x ∧ InBlock other x))
  inside : ∀ block ∈ s.live, KHEAP_START ≤ block.1 ∧ block.1 + block.2 ≤ KHEAP_END
  headers : ∀ block ∈ s.live, ∀ n, InChain s.heap.mem s.heap.root_node n →
    ∀ x, InBlock block x → x < n ∨ n + 11 ≤ x

-- The block a call may change or end.
def Call.subject : Call → Option Nat
  | .realloc ptr _ => some ptr
  | .free ptr => some ptr
  | _ => none

def Call.isWrite : Call → Bool
  | .write _ _ => true
  | _ => false

def Undisturbed (s : System) (call : Call) (s' : System) : Prop :=
  call.isWrite = false → ∀ block ∈ s.live, call.subject ≠ some block.1 →
    ∀ x, InBlock block x → load8 s'.heap.mem x = load8 s.heap.mem x

end Apart

section Room

-- The block and the header split off after it end before the next node. The
-- last node has the whole heap, and only an empty block may fill its node.
def RoomAt (contents next requested : Nat) : Prop :=
  contents + requested ≤ KHEAP_END ∧
    (next = 0 ∨ contents + requested + 11 ≤ next ∨ (requested = 0 ∧ contents = next))

def AllocRoom (h : Heap) (requested : Nat) : Prop :=
  ∀ n, FirstFit (allocFits h.mem requested) h.mem h.root_node n →
    RoomAt (n + 11) (next_node h.mem n) requested

def AlignedRoom (h : Heap) (requested alignment : Nat) : Prop :=
  ∀ n, FirstFit (alignedFits h.mem requested alignment) h.mem h.root_node n →
    RoomAt (n + 11 + alignedOffset alignment (n + 11) + 11) (next_node h.mem n) requested

-- A resize in place splits when it leaves 12 bytes or more, and then puts the
-- header `requested` headers on.
def ResizeRoom (ptr next room requested : Nat) : Prop :=
  ptr + requested ≤ KHEAP_END ∧
    if 12 ≤ room - requested then
      ptr + 11 * requested + 11 ≤ (if next = 0 then 4294967296 else next)
    else next = 0 ∨ ptr + requested ≤ next

def ReallocRoom (h : Heap) (ptr requested : Nat) : Prop :=
  requested = 0 ∨
    (if requested ≤ size h.mem (ptr - 11) then
      ResizeRoom ptr (next_node h.mem (ptr - 11)) (size h.mem (ptr - 11)) requested
    else ∀ fuel iter possible_size,
      possibleSize h.mem fuel (next_node h.mem (ptr - 11)) 0 = some (iter, possible_size) →
        if requested ≤ possible_size then ResizeRoom ptr iter possible_size requested
        else AllocRoom h requested)

def HasRoom (s : System) : Call → Prop
  | .alloc requested => AllocRoom s.heap requested.toNat
  | .alignedAlloc requested alignment => AlignedRoom s.heap requested.toNat alignment.toNat
  | .realloc ptr requested => ReallocRoom s.heap ptr requested.toNat
  | .free _ => True
  | .write _ _ => True

end Room

section Owned

-- The block lies between its own header and the next one.
def Owned (nodes : List Node) (block : Nat × Nat) : Prop :=
  ∃ v ∈ nodes, block.1 = v.addr + 11 ∧ v.allocated = true ∧ block.1 + block.2 ≤ KHEAP_END ∧
    ∀ w ∈ nodes, v.addr < w.addr → block.1 + block.2 ≤ w.addr

theorem Laid.gap {nodes : List Node} (h : Laid nodes) {v w : Node} (hv : v ∈ nodes)
    (hw : w ∈ nodes) (hlt : v.addr < w.addr) : v.addr + 11 ≤ w.addr := by
  induction nodes with
  | nil => cases hv
  | cons u rest ih =>
      obtain ⟨-, hhead, hrest⟩ := (laid_cons_iff _ _).mp h
      rcases List.mem_cons.mp hv with rfl | hvrest
      · rcases List.mem_cons.mp hw with rfl | hwrest
        · omega
        · exact hhead w hwrest
      · rcases List.mem_cons.mp hw with rfl | hwrest
        · have := hhead v hvrest
          omega
        · exact ih hrest hvrest hwrest

theorem Owned.outside {nodes : List Node} {block : Nat × Nat} (h : Owned nodes block)
    (hlaid : Laid nodes) {x : Nat} (hx : InBlock block x) : Outside nodes x := by
  obtain ⟨v, hv, hptr, -, -, hnext⟩ := h
  intro w hw
  unfold InBlock at hx
  rcases Nat.lt_trichotomy v.addr w.addr with hlt | heq | hgt
  · have := hnext w hw hlt
    omega
  · omega
  · have := hlaid.gap hw hv hgt
    omega

-- Each of two blocks ends before the header of the later one.
theorem Owned.disjoint {nodes : List Node} {block other : Nat × Nat} (h : Owned nodes block)
    (hother : Owned nodes other) (hne : block.1 ≠ other.1) {x : Nat} (hx : InBlock block x) :
    ¬InBlock other x := by
  obtain ⟨v, hv, hptr, -, -, hnext⟩ := h
  obtain ⟨w, hw, hptr', -, -, hnext'⟩ := hother
  intro hx'
  unfold InBlock at hx hx'
  rcases Nat.lt_trichotomy v.addr w.addr with hlt | heq | hgt
  · have := hnext w hw hlt
    omega
  · omega
  · have := hnext' v hv hgt
    omega

theorem Owned.lt {nodes : List Node} {block : Nat × Nat} (h : Owned nodes block) {x : Nat}
    (hx : InBlock block x) : x < 4294967296 := by
  obtain ⟨v, -, -, -, hend, -⟩ := h
  have htop := lt_of_le_KHEAP_END hend
  unfold InBlock at hx
  omega

theorem InChain.mem {m : Memory} {a n : Nat} (h : InChain m a n) {nodes : List Node}
    (hchain : Chain m a nodes 0) : ∃ v ∈ nodes, v.addr = n := by
  induction h generalizing nodes with
  | here hne =>
      cases nodes with
      | nil => exact absurd hchain hne
      | cons v rest => exact ⟨v, List.mem_cons_self, hchain.head_addr.symm⟩
  | later hne _ ih =>
      cases nodes with
      | nil => exact absurd hchain hne
      | cons v rest =>
          obtain ⟨b, hv, hrest⟩ := hchain
          rw [hv.2.2.2.2] at ih
          obtain ⟨w, hw, hwn⟩ := ih hrest
          exact ⟨w, List.mem_cons_of_mem _ hw, hwn⟩

-- A node and unallocated nodes after it give way to headers in their place.
theorem Owned.rewrite {front free middle back : List Node} {v : Node} {block : Nat × Nat}
    (h : Owned (front ++ v :: (free ++ back)) block)
    (hfree : ∀ w ∈ free, w.allocated = false) (hne : block.1 ≠ v.addr + 11)
    (hold : Laid (front ++ v :: (free ++ back))) (hlaid : Laid (front ++ (middle ++ back)))
    (hlow : ∀ w ∈ middle, v.addr ≤ w.addr) : Owned (front ++ (middle ++ back)) block := by
  obtain ⟨u, hu, hptr, hallocated, hend, hnext⟩ := h
  have hv_old : v ∈ front ++ v :: (free ++ back) :=
    List.mem_append_right _ List.mem_cons_self
  have hback_old (w : Node) (hw : w ∈ back) : w ∈ front ++ v :: (free ++ back) :=
    List.mem_append_right _ (List.mem_cons_of_mem _ (List.mem_append_right _ hw))
  rcases List.mem_append.mp hu with hufront | hu
  · refine ⟨u, List.mem_append_left _ hufront, hptr, hallocated, hend, fun w hw hlt => ?_⟩
    rcases List.mem_append.mp hw with hwfront | hw
    · exact hnext w (List.mem_append_left _ hwfront) hlt
    rcases List.mem_append.mp hw with hwmiddle | hwback
    · have hgap := ((laid_append_iff _ _).mp hold).2.2 u hufront v List.mem_cons_self
      exact (hnext v hv_old (by omega)).trans (hlow w hwmiddle)
    · exact hnext w (hback_old w hwback) hlt
  rcases List.mem_cons.mp hu with rfl | hu
  · exact absurd hptr hne
  rcases List.mem_append.mp hu with hufree | huback
  · rw [hfree u hufree] at hallocated
    cases hallocated
  · refine ⟨u, List.mem_append_right _ (List.mem_append_right _ huback), hptr, hallocated, hend,
      fun w hw hlt => ?_⟩
    rw [← List.append_assoc] at hlaid hw
    rcases List.mem_append.mp hw with hw | hwback
    · have := ((laid_append_iff _ _).mp hlaid).2.2 w hw u huback
      omega
    · exact hnext w (hback_old w hwback) hlt

-- Nodes may leave the list, but no allocated one.
structure Settles (nodes nodes' : List Node) : Prop where
  addrs : (nodes'.map Node.addr).Sublist (nodes.map Node.addr)
  allocated : ∀ w ∈ nodes, w.allocated = true → w ∈ nodes'

theorem Settles.refl (nodes : List Node) : Settles nodes nodes :=
  ⟨List.Sublist.refl _, fun _ hw _ => hw⟩

theorem Settles.compact (nodes : List Node) : Settles nodes (compactNodes nodes) :=
  ⟨compactNodes_addr_sublist nodes, fun _ hw h => mem_compactNodes_of_allocated hw h⟩

theorem Settles.exists_addr {nodes nodes' : List Node} (h : Settles nodes nodes') {w : Node}
    (hw : w ∈ nodes') : ∃ u ∈ nodes, u.addr = w.addr :=
  List.mem_map.mp (h.addrs.subset (List.mem_map_of_mem hw))

theorem Settles.owned {nodes nodes' : List Node} (h : Settles nodes nodes') {block : Nat × Nat}
    (hblock : Owned nodes block) : Owned nodes' block := by
  obtain ⟨v, hv, hptr, hallocated, hend, hnext⟩ := hblock
  refine ⟨v, h.allocated v hv hallocated, hptr, hallocated, hend, fun w hw hlt => ?_⟩
  obtain ⟨u, hu, huw⟩ := h.exists_addr hw
  rw [← huw] at hlt ⊢
  exact hnext u hu hlt

end Owned

section Safe

structure Safe (s : System) (nodes : List Node) : Prop where
  chain : Chain s.heap.mem s.heap.root_node nodes 0
  laid : Laid nodes
  low : ∀ v ∈ nodes, KHEAP_START ≤ v.addr
  owned : ∀ block ∈ s.live, Owned nodes block
  distinct : s.live.Pairwise (fun block other => block.1 ≠ other.1)

theorem Safe.apart {s : System} {nodes : List Node} (h : Safe s nodes) : BlocksApart s := by
  refine ⟨?_, fun block hblock => ?_, fun block hblock n hn x hx => ?_⟩
  · refine h.distinct.imp_of_mem (fun {block other} hblock hother hne x hx => ?_)
    exact (h.owned block hblock).disjoint (h.owned other hother) hne hx.1 hx.2
  · obtain ⟨v, hv, hptr, -, hend, -⟩ := h.owned block hblock
    have := h.low v hv
    omega
  · obtain ⟨v, hv, rfl⟩ := hn.mem h.chain
    exact (h.owned block hblock).outside h.laid hx v hv

-- What a call has to show: where it put headers, and that every block it
-- leaves live lies between two of them.
theorem Safe.of_becomes {s : System} {h' : Heap} {written nodes' : List Node}
    {live' : List (Nat × Nat)} (hb : Becomes s.heap h' written nodes')
    (hsettles : Settles written nodes') (hlaid : Laid written)
    (hlow : ∀ v ∈ written, KHEAP_START ≤ v.addr)
    (howned : ∀ block ∈ live', Owned written block)
    (hdistinct : live'.Pairwise (fun block other => block.1 ≠ other.1)) :
    Safe ⟨h', live'⟩ nodes' where
  chain := hb.root ▸ hb.chain
  laid := hlaid.sublist hsettles.addrs
  low := fun v hv => by
    obtain ⟨u, hu, huv⟩ := hsettles.exists_addr hv
    rw [← huv]
    exact hlow u hu
  owned := fun block hblock => hsettles.owned (howned block hblock)
  distinct := hdistinct

theorem Becomes.keeps_block {h h' : Heap} {written nodes' : List Node}
    (hb : Becomes h h' written nodes') (hlaid : Laid written) {block : Nat × Nat}
    (howned : Owned written block) {x : Nat} (hx : InBlock block x) :
    load8 h'.mem x = load8 h.mem x :=
  hb.frame x (howned.lt hx) (howned.outside hlaid hx)

theorem laid_replace {front free middle back : List Node} {v : Node}
    (hold : Laid (front ++ v :: (free ++ back))) (hmiddle : Laid middle)
    (hlow : ∀ w ∈ middle, v.addr ≤ w.addr)
    (hhigh : ∀ w ∈ middle, ∀ u ∈ back, w.addr + 11 ≤ u.addr) :
    Laid (front ++ (middle ++ back)) := by
  obtain ⟨hfront, hrest, hsep⟩ := (laid_append_iff _ _).mp hold
  obtain ⟨-, hvlow, hrest⟩ := (laid_cons_iff _ _).mp hrest
  obtain ⟨-, hback, -⟩ := (laid_append_iff _ _).mp hrest
  refine (laid_append_iff _ _).mpr
    ⟨hfront, (laid_append_iff _ _).mpr ⟨hmiddle, hback, hhigh⟩, fun u hu w hw => ?_⟩
  have hgap := hsep u hu v List.mem_cons_self
  rcases List.mem_append.mp hw with hw | hw
  · have := hlow w hw
    omega
  · exact hsep u hu w (List.mem_cons_of_mem _ (List.mem_append_right _ hw))

theorem low_replace {front free middle back : List Node} {v : Node}
    (hold : ∀ w ∈ front ++ v :: (free ++ back), KHEAP_START ≤ w.addr)
    (hlow : ∀ w ∈ middle, v.addr ≤ w.addr) :
    ∀ w ∈ front ++ (middle ++ back), KHEAP_START ≤ w.addr := by
  intro w hw
  have hv := hold v (List.mem_append_right _ List.mem_cons_self)
  rcases List.mem_append.mp hw with hw | hw
  · exact hold w (List.mem_append_left _ hw)
  rcases List.mem_append.mp hw with hw | hw
  · exact hv.trans (hlow w hw)
  · exact hold w (List.mem_append_right _ (List.mem_cons_of_mem _ (List.mem_append_right _ hw)))

variable {s : System} {h' : Heap} {front free middle back nodes' : List Node} {v : Node}
  {rest : List (Nat × Nat)}

-- The blocks of other nodes stay where and what they are.
theorem Safe.others (hsafe : Safe s (front ++ v :: (free ++ back)))
    (hfree : ∀ w ∈ free, w.allocated = false) (hrest : rest.Sublist s.live)
    (hother : ∀ block ∈ rest, block.1 ≠ v.addr + 11) (hmiddle : Laid middle)
    (hlow : ∀ w ∈ middle, v.addr ≤ w.addr) (hhigh : ∀ w ∈ middle, ∀ u ∈ back, w.addr + 11 ≤ u.addr)
    (hb : Becomes s.heap h' (front ++ (middle ++ back)) nodes')
    (hsettles : Settles (front ++ (middle ++ back)) nodes') :
    Safe ⟨h', rest⟩ nodes' ∧
      ∀ block ∈ rest, ∀ x, InBlock block x → load8 h'.mem x = load8 s.heap.mem x := by
  have hlaid := laid_replace hsafe.laid hmiddle hlow hhigh
  have howned (block : Nat × Nat) (hblock : block ∈ rest) :
      Owned (front ++ (middle ++ back)) block :=
    (hsafe.owned block (hrest.subset hblock)).rewrite hfree (hother block hblock) hsafe.laid hlaid
      hlow
  exact ⟨Safe.of_becomes hb hsettles hlaid (low_replace hsafe.low hlow) howned
      (hsafe.distinct.sublist hrest),
    fun block hblock x hx => hb.keeps_block hlaid (howned block hblock) hx⟩

-- A block on one of the new headers joins them.
theorem Safe.place {p requested : Nat} {w : Node} (hsafe : Safe s (front ++ v :: (free ++ back)))
    (hfree : ∀ w ∈ free, w.allocated = false) (hrest : rest.Sublist s.live)
    (hother : ∀ block ∈ rest, block.1 ≠ v.addr + 11) (hmiddle : Laid middle)
    (hlow : ∀ w ∈ middle, v.addr ≤ w.addr) (hhigh : ∀ w ∈ middle, ∀ u ∈ back, w.addr + 11 ≤ u.addr)
    (hb : Becomes s.heap h' (front ++ (middle ++ back)) nodes')
    (hsettles : Settles (front ++ (middle ++ back)) nodes')
    (hw : w ∈ middle) (hptr : p = w.addr + 11) (hallocated : w.allocated = true)
    (hend : p + requested ≤ KHEAP_END)
    (hnext : ∀ u ∈ middle, w.addr < u.addr → p + requested ≤ u.addr)
    (hnext' : ∀ u ∈ back, p + requested ≤ u.addr) :
    Safe ⟨h', (p, requested) :: rest⟩ nodes' ∧
      ∀ block ∈ rest, ∀ x, InBlock block x → load8 h'.mem x = load8 s.heap.mem x := by
  obtain ⟨hold, hkeeps⟩ := hsafe.others hfree hrest hother hmiddle hlow hhigh hb hsettles
  have hlaid := laid_replace hsafe.laid hmiddle hlow hhigh
  have hblock : Owned (front ++ (middle ++ back)) (p, requested) := by
    refine ⟨w, List.mem_append_right _ (List.mem_append_left _ hw), hptr, hallocated, hend,
      fun u hu hlt => ?_⟩
    rcases List.mem_append.mp hu with hufront | hu
    · have := ((laid_append_iff _ _).mp hlaid).2.2 u hufront w (List.mem_append_left _ hw)
      omega
    rcases List.mem_append.mp hu with humiddle | huback
    · exact hnext u humiddle hlt
    · exact hnext' u huback
  refine ⟨⟨hold.chain, hold.laid, hold.low, ?_, ?_⟩, hkeeps⟩
  · intro block hmem
    rcases List.mem_cons.mp hmem with rfl | hmem
    · exact hsettles.owned hblock
    · exact hold.owned block hmem
  · refine List.pairwise_cons.mpr ⟨fun block hmem heq => ?_, hold.distinct⟩
    obtain ⟨u, hu, hptr', hallocated', -, -⟩ := hsafe.owned block (hrest.subset hmem)
    dsimp only at heq
    rcases List.mem_append.mp hu with hufront | hu
    · have := ((laid_append_iff _ _).mp hlaid).2.2 u hufront w (List.mem_append_left _ hw)
      omega
    rcases List.mem_cons.mp hu with rfl | hu
    · exact hother block hmem hptr'
    rcases List.mem_append.mp hu with hufree | huback
    · rw [hfree u hufree] at hallocated'
      cases hallocated'
    · have := hhigh w hw u huback
      omega

-- No block is live on an unallocated node.
theorem Safe.block_ne (hsafe : Safe s (front ++ v :: (free ++ back)))
    (hfree : v.allocated = false) : ∀ block ∈ s.live, block.1 ≠ v.addr + 11 := by
  intro block hblock heq
  obtain ⟨u, hu, hptr, hallocated, -, -⟩ := hsafe.owned block hblock
  have hv : v ∈ front ++ v :: (free ++ back) := List.mem_append_right _ List.mem_cons_self
  have huv : u = v := by
    by_contra hne
    rcases Nat.lt_trichotomy u.addr v.addr with hlt | heq' | hgt
    · omega
    · exact hne (List.inj_on_of_nodup_map (f := Node.addr)
        (hsafe.laid.1.imp (fun hab => by omega)) hu hv heq')
    · omega
  rw [huv, hfree] at hallocated
  cases hallocated

theorem Safe.gap_back (hsafe : Safe s (front ++ v :: (free ++ back))) {u : Node}
    (hu : u ∈ back) : v.addr + 11 ≤ u.addr :=
  ((laid_cons_iff _ _).mp ((laid_append_iff _ _).mp hsafe.laid).2.1).2.1 u
    (List.mem_append_right _ hu)

theorem Safe.next_of_back {b : Nat} (hsafe : Safe s (front ++ v :: (free ++ back)))
    (hback : Chain s.heap.mem b back 0) {u : Node} (hu : u ∈ back) : b ≠ 0 ∧ b ≤ u.addr := by
  obtain ⟨-, hrest, -⟩ := (laid_append_iff _ _).mp hsafe.laid
  obtain ⟨-, hrest, -⟩ := (laid_append_iff _ _).mp ((laid_cons_iff _ _).mp hrest).2.2
  exact hback.le_of_mem hrest hu

end Safe

section Keeps

theorem consumeNodes_room {v : Node} {b : Nat} (hpos : 0 < v.addr)
    (hroom : RoomAt (v.addr + 11) b v.size) :
    Laid (consumeNodes v b) ∧ ∀ w ∈ consumeNodes v b,
      v.addr ≤ w.addr ∧ (v.addr < w.addr → v.addr + 11 + v.size ≤ w.addr) ∧
        (b ≠ 0 → w.addr + 11 ≤ b) := by
  obtain ⟨hend, hnext⟩ := hroom
  have htop : v.addr + 11 + v.size + 11 < 4294967296 := by
    unfold KHEAP_END at hend
    omega
  have hplace := splitAddr_of_lt (v := v) (by omega)
  unfold consumeNodes
  by_cases hsplit : 11 < unaccounted v b
  · rw [if_pos hsplit, hplace]
    -- an empty block that fills its node leaves exactly 11 bytes, and no split
    have hlimit : b = 0 ∨ v.addr + 11 + v.size + 11 ≤ b := by
      unfold unaccounted sub32 at hsplit
      omega
    simp only [laid_cons_iff, List.forall_mem_cons]
    refine ⟨⟨⟨hpos, by omega⟩, ⟨by omega, by simp⟩, ⟨by omega, by omega⟩, by simp,
      List.Pairwise.nil, by simp⟩, ⟨by omega, by omega, by omega⟩,
      ⟨by omega, by omega, by omega⟩, by simp⟩
  · rw [if_neg hsplit]
    simp only [laid_cons_iff, List.forall_mem_cons]
    exact ⟨⟨⟨hpos, by omega⟩, by simp, List.Pairwise.nil, by simp⟩,
      ⟨by omega, by omega, by omega⟩, by simp⟩

variable {s : System} {nodes : List Node} {fuel requested alignment ptr p : Nat} {h' : Heap}

theorem alloc_safe (hsafe : Safe s nodes) (hrequested : requested < 4294967296)
    (hroom : AllocRoom s.heap requested)
    (hreturns : kheapAlloc fuel requested s.heap = some (h', p)) :
    ∃ nodes', Safe ⟨h', (p, requested) :: s.live⟩ nodes' ∧
      (∀ w ∈ nodes, w.allocated = true → w ∈ nodes') ∧
      ∀ block ∈ s.live, ∀ x, InBlock block x → load8 h'.mem x = load8 s.heap.mem x := by
  obtain ⟨n, hfit, hreturns⟩ := kheapAlloc_eq_some hsafe.chain hreturns
  have hroom := hroom n hfit
  obtain ⟨front, v, back, rfl, rfl, hfits⟩ := hfit.exists_node hsafe.chain
  have hsafe' : Safe s (front ++ v :: ([] ++ back)) := hsafe
  obtain ⟨b, hfront, hv, hback⟩ := Chain.split hsafe.chain
  have hvfree : v.allocated = false := by
    unfold allocFits at hfits
    rw [hv.2.2.2.1] at hfits
    simp only [Bool.and_eq_true, Bool.not_eq_true'] at hfits
    exact hfits.1
  rw [hv.2.2.2.2] at hroom
  have hpos := hsafe.laid.addr_pos (List.mem_append_right front List.mem_cons_self)
  obtain ⟨hmiddle, hplaces⟩ :=
    consumeNodes_room (v := ⟨v.addr, requested, true⟩) (b := b) hpos hroom
  dsimp only at hplaces
  have hhigh (w : Node) (hw : w ∈ consumeNodes ⟨v.addr, requested, true⟩ b) (u : Node)
      (hu : u ∈ back) : w.addr + 11 ≤ u.addr := by
    have hnext := hsafe'.next_of_back hback hu
    have := (hplaces w hw).2.2 hnext.1
    omega
  obtain ⟨hp, hbecomes⟩ := allocIn_becomes hrequested hfront hv hback
    (laid_replace hsafe'.laid hmiddle (fun w hw => (hplaces w hw).1) hhigh) hreturns
  obtain ⟨w, hw, hwa, hwallocated⟩ := consumeNodes_has_addr ⟨v.addr, requested, true⟩ b
  dsimp only at hwa
  obtain ⟨hend, hlimit⟩ := hroom
  have htop := lt_of_le_KHEAP_END hend
  rw [NODE_TO_CONTENTS_of_lt (by omega)] at hp
  have hsettles := Settles.compact (front ++ (consumeNodes ⟨v.addr, requested, true⟩ b ++ back))
  obtain ⟨hnew, hkeeps⟩ := hsafe'.place (by simp) (List.Sublist.refl _)
    (hsafe'.block_ne hvfree) hmiddle (fun w hw => (hplaces w hw).1) hhigh hbecomes
    hsettles hw (hp.trans (by rw [hwa])) hwallocated (hp ▸ hend)
    (fun u hu hlt => by
      have := (hplaces u hu).2.1 (by omega)
      omega)
    (fun u hu => by
      have hnext := hsafe'.next_of_back hback hu
      omega)
  refine ⟨_, hnew, fun u hu hallocated => ?_, hkeeps⟩
  refine hsettles.allocated u ?_ hallocated
  rcases List.mem_append.mp hu with hu | hu
  · exact List.mem_append_left _ hu
  rcases List.mem_cons.mp hu with rfl | hu
  · rw [hvfree] at hallocated
    cases hallocated
  · exact List.mem_append_right _ (List.mem_append_right _ hu)

theorem aligned_safe (hsafe : Safe s nodes) (hrequested : requested < 4294967296)
    (hroom : AlignedRoom s.heap requested alignment)
    (hreturns : kheapAlignedAlloc fuel requested alignment s.heap = some (h', p)) :
    ∃ nodes', Safe ⟨h', (p, requested) :: s.live⟩ nodes' ∧
      ∀ block ∈ s.live, ∀ x, InBlock block x → load8 h'.mem x = load8 s.heap.mem x := by
  obtain ⟨n, hfit, hreturns⟩ := kheapAlignedAlloc_eq_some hreturns
  have hroom := hroom n hfit
  obtain ⟨front, v, back, rfl, rfl, hfits⟩ := hfit.exists_node hsafe.chain
  have hsafe' : Safe s (front ++ v :: ([] ++ back)) := hsafe
  obtain ⟨b, hfront, hv, hback⟩ := Chain.split hsafe.chain
  have hvfree : v.allocated = false := by
    unfold alignedFits at hfits
    rw [hv.2.2.2.1] at hfits
    simp only [Bool.and_eq_true, Bool.not_eq_true'] at hfits
    exact hfits.1.1
  rw [hv.2.2.2.2] at hroom
  have hpos := hsafe.laid.addr_pos (List.mem_append_right front List.mem_cons_self)
  have hvtop := hsafe.laid.addr_le (List.mem_append_right front List.mem_cons_self)
  have htop := lt_of_le_KHEAP_END hroom.1
  have hchosen : chosenAddr alignment v.addr = v.addr + 11 + alignedOffset alignment (v.addr + 11) := by
    unfold chosenAddr
    rw [NODE_TO_CONTENTS_of_lt (by omega), Nat.mod_eq_of_lt (by omega)]
  rw [← hchosen] at hroom htop
  have hlow : v.addr + 11 ≤ chosenAddr alignment v.addr := by omega
  generalize hchosen' : chosenAddr alignment v.addr = chosen at hroom hlow hchosen htop
  obtain ⟨hsecond, hplaces⟩ :=
    consumeNodes_room (v := ⟨chosen, requested, true⟩) (b := b) (by dsimp only; omega) hroom
  dsimp only at hplaces
  have hmiddle : Laid (alignedNodes v requested chosen b) :=
    (laid_cons_iff _ _).mpr ⟨⟨hpos, hvtop⟩, fun w hw => hlow.trans (hplaces w hw).1, hsecond⟩
  have hfirst (w : Node) (hw : w ∈ alignedNodes v requested chosen b) : v.addr ≤ w.addr := by
    rcases List.mem_cons.mp hw with rfl | hw
    · exact le_refl _
    · have := (hplaces w hw).1
      omega
  have hhigh (w : Node) (hw : w ∈ alignedNodes v requested chosen b) (u : Node)
      (hu : u ∈ back) : w.addr + 11 ≤ u.addr := by
    have hnext := hsafe'.next_of_back hback hu
    rcases List.mem_cons.mp hw with rfl | hw
    · exact hsafe'.gap_back hu
    · have := (hplaces w hw).2.2 hnext.1
      omega
  obtain ⟨hp, hbecomes⟩ := alignedAllocIn_becomes hrequested hfront hv hback
    (hchosen'.symm ▸ laid_replace hsafe'.laid hmiddle hfirst hhigh) hreturns
  rw [hchosen'] at hp hbecomes
  obtain ⟨w, hw, hwa, hwallocated⟩ := consumeNodes_has_addr ⟨chosen, requested, true⟩ b
  dsimp only at hwa
  rw [NODE_TO_CONTENTS_of_lt (by omega)] at hp
  obtain ⟨hfits, hlimit⟩ := hroom
  obtain ⟨hnew, hkeeps⟩ := hsafe'.place (by simp) (List.Sublist.refl _)
    (hsafe'.block_ne hvfree) hmiddle hfirst hhigh hbecomes (Settles.compact _)
    (List.mem_cons_of_mem _ hw) (hp.trans (by rw [hwa])) hwallocated (hp ▸ hfits)
    (fun u hu hlt => by
      rcases List.mem_cons.mp hu with rfl | hu
      · dsimp only at hlt
        omega
      · have := (hplaces u hu).2.1 (by omega)
        omega)
    (fun u hu => by
      have hnext := hsafe'.next_of_back hback hu
      omega)
  exact ⟨_, hnew, hkeeps⟩

theorem Safe.block_node (hsafe : Safe s nodes) {old : Nat} (hlive : (ptr, old) ∈ s.live) :
    ∃ front v back b, nodes = front ++ v :: back ∧ ptr = v.addr + 11 ∧ v.allocated = true ∧
      ptr + old ≤ KHEAP_END ∧ (∀ w ∈ nodes, v.addr < w.addr → ptr + old ≤ w.addr) ∧
      Chain s.heap.mem s.heap.root_node front v.addr ∧ Holds s.heap.mem v.addr v b ∧
      Chain s.heap.mem b back 0 := by
  obtain ⟨v, hv, hptr, hallocated, hend, hnext⟩ := hsafe.owned _ hlive
  obtain ⟨front, back, rfl⟩ := List.append_of_mem hv
  obtain ⟨b, hfront, hholds, hback⟩ := Chain.split hsafe.chain
  exact ⟨front, v, back, b, rfl, hptr, hallocated, hend, hnext, hfront, hholds, hback⟩

-- The pointers of live blocks differ, so ending one leaves the others.
theorem Safe.erase_ne (hsafe : Safe s nodes) {old : Nat} (hlive : (ptr, old) ∈ s.live) :
    ∀ block ∈ s.live.erase (ptr, old), block.1 ≠ ptr := by
  have hperm := List.perm_cons_erase hlive
  have hdistinct := (hperm.pairwise_iff (fun hne => Ne.symm hne)).mp hsafe.distinct
  exact fun block hblock => ((List.pairwise_cons.mp hdistinct).1 block hblock).symm

theorem free_safe (hsafe : Safe s nodes) {old : Nat} (hlive : (ptr, old) ∈ s.live)
    (hreturns : kheapFree fuel ptr s.heap = some h') :
    ∃ nodes', Safe ⟨h', s.live.erase (ptr, old)⟩ nodes' ∧
      ∀ block ∈ s.live.erase (ptr, old), ∀ x, InBlock block x →
        load8 h'.mem x = load8 s.heap.mem x := by
  obtain ⟨front, v, back, b, rfl, hptr, -, hend, -, hfront, hv, hback⟩ := hsafe.block_node hlive
  have hsafe' : Safe s (front ++ v :: ([] ++ back)) := hsafe
  have htop := lt_of_le_KHEAP_END hend
  have hvmem : v ∈ front ++ v :: back := List.mem_append_right _ List.mem_cons_self
  have hbecomes := kheapFree_becomes hfront hv hback hsafe.laid hptr (by omega) hreturns
  have hvpos := hsafe.laid.addr_pos hvmem
  have hvtop := hsafe.laid.addr_le hvmem
  have hmiddle : Laid [{ v with allocated := false }] :=
    (laid_cons_iff _ _).mpr ⟨⟨hvpos, hvtop⟩, by simp, List.Pairwise.nil, by simp⟩
  exact ⟨_, hsafe'.others (by simp) (List.erase_sublist) (hptr ▸ hsafe.erase_ne hlive) hmiddle
    (by simp) (fun w hw u hu => by
      rw [List.mem_singleton.mp hw]
      exact hsafe'.gap_back hu) hbecomes (Settles.compact _)⟩

-- Bytes of a live block may change, whoever writes them.
theorem Safe.overwrite (hsafe : Safe s nodes) {block : Nat × Nat} {m : Memory}
    (hblock : block ∈ s.live)
    (hsame : ∀ x < 4294967296, ¬ InBlock block x → load8 m x = load8 s.heap.mem x) :
    Safe ⟨{ s.heap with mem := m }, s.live⟩ nodes ∧
      ∀ other ∈ s.live, other.1 ≠ block.1 → ∀ x, InBlock other x →
        load8 m x = load8 s.heap.mem x := by
  refine ⟨⟨Chain.congr hsafe.chain (fun v hv i hi => ?_), hsafe.laid, hsafe.low, hsafe.owned,
    hsafe.distinct⟩, fun other hother hne x hx => ?_⟩
  · have hvtop := hsafe.laid.addr_le hv
    refine hsame _ (by omega) (fun hin => ?_)
    have := (hsafe.owned block hblock).outside hsafe.laid hin v hv
    omega
  · refine hsame x ((hsafe.owned other hother).lt hx) (fun hin => ?_)
    exact (hsafe.owned other hother).disjoint (hsafe.owned block hblock) hne hx hin

section Resize

variable {front free back : List Node} {v : Node} {b next room old : Nat}

-- The resized block starts on the first of the headers that replace its own.
theorem Safe.resize {nodes' : List Node} (hsafe : Safe s (front ++ v :: (free ++ back)))
    (first : Node) (others : List Node) (hfree : ∀ w ∈ free, w.allocated = false)
    (hlive : (v.addr + 11, old) ∈ s.live) (hfirst : first.addr = v.addr)
    (hallocated : first.allocated = true) (hmiddle : Laid (first :: others))
    (hlow : ∀ w ∈ first :: others, v.addr ≤ w.addr)
    (hhigh : ∀ w ∈ first :: others, ∀ u ∈ back, w.addr + 11 ≤ u.addr)
    (hend : v.addr + 11 + requested ≤ KHEAP_END)
    (hothers : ∀ w ∈ others, v.addr + 11 + requested ≤ w.addr)
    (hlimit : ∀ u ∈ back, v.addr + 11 + requested ≤ u.addr)
    (hb : Becomes s.heap h' (front ++ ((first :: others) ++ back)) nodes')
    (hsettles : Settles (front ++ ((first :: others) ++ back)) nodes') :
    Safe ⟨h', (v.addr + 11, requested) :: s.live.erase (v.addr + 11, old)⟩ nodes' ∧
      ∀ block ∈ s.live.erase (v.addr + 11, old), ∀ x, InBlock block x →
        load8 h'.mem x = load8 s.heap.mem x := by
  refine hsafe.place hfree List.erase_sublist (hsafe.erase_ne hlive) hmiddle hlow hhigh hb hsettles
    List.mem_cons_self (by rw [hfirst]) hallocated hend (fun w hw hlt => ?_) hlimit
  rcases List.mem_cons.mp hw with rfl | hw
  · omega
  · exact hothers w hw

theorem resizedNodes_room (remaining : Nat) (hpos : 0 < v.addr)
    (hroom : v.addr + 11 + 11 * requested + 11 ≤ 4294967296) :
    Laid (resizedNodes v requested remaining) ∧ ∀ w ∈ resizedNodes v requested remaining,
      v.addr ≤ w.addr ∧ (v.addr < w.addr → v.addr + 11 + requested ≤ w.addr) ∧
        w.addr + 11 ≤ v.addr + 11 + 11 * requested + 11 := by
  have hplace : splitPlace v.addr requested = v.addr + 11 + 11 * requested := by
    unfold splitPlace NODE_TO_CONTENTS
    omega
  unfold resizedNodes
  simp only [laid_cons_iff, List.forall_mem_cons, hplace]
  exact ⟨⟨⟨hpos, by omega⟩, ⟨by omega, by simp⟩, ⟨by omega, by omega⟩, by simp,
    List.Pairwise.nil, by simp⟩, ⟨by omega, by omega, by omega⟩, ⟨by omega, by omega, by omega⟩,
    by simp⟩

theorem split_safe (hsafe : Safe s (front ++ v :: (free ++ back)))
    (hfree : ∀ w ∈ free, w.allocated = false) (hallocated : v.allocated = true)
    (hlive : (v.addr + 11, old) ∈ s.live) (hrequested : requested < 4294967296)
    (hroom_lt : room < 4294967296)
    (hfront : Chain s.heap.mem s.heap.root_node front v.addr) (hv : Holds s.heap.mem v.addr v b)
    (hback : Chain s.heap.mem next back 0) (hnext : next < 4294967296)
    (hroom : ResizeRoom (v.addr + 11) next room requested) (hdelta : 12 ≤ room - requested)
    (hreturns : splitAfter fuel v.addr requested (room - requested) next s.heap = some (h', p)) :
    ∃ nodes', Safe ⟨h', (p, requested) :: s.live.erase (v.addr + 11, old)⟩ nodes' ∧
      ∀ block ∈ s.live.erase (v.addr + 11, old), ∀ x, InBlock block x →
        load8 h'.mem x = load8 s.heap.mem x := by
  obtain ⟨hend, hsplit⟩ := hroom
  rw [if_pos hdelta] at hsplit
  have hpos := hsafe.laid.addr_pos (List.mem_append_right front List.mem_cons_self)
  have hbelow (u : Node) (hu : u ∈ back) : v.addr + 11 + 11 * requested + 11 ≤ u.addr := by
    have hle := hsafe.next_of_back hback hu
    rw [if_neg hle.1] at hsplit
    omega
  have htop : v.addr + 11 + 11 * requested + 11 ≤ 4294967296 := by
    by_cases hzero : next = 0
    · rw [if_pos hzero] at hsplit
      exact hsplit
    · rw [if_neg hzero] at hsplit
      omega
  obtain ⟨hmiddle, hplaces⟩ := resizedNodes_room (room - requested) hpos htop
  have hhigh (w : Node) (hw : w ∈ resizedNodes v requested (room - requested)) (u : Node)
      (hu : u ∈ back) : w.addr + 11 ≤ u.addr := (hplaces w hw).2.2.trans (hbelow u hu)
  have hlow (w : Node) (hw : w ∈ resizedNodes v requested (room - requested)) :
      v.addr ≤ w.addr := (hplaces w hw).1
  obtain ⟨hp, hbecomes⟩ := splitAfter_becomes hrequested ((Nat.sub_le _ _).trans_lt hroom_lt)
    hfront hv hback hnext (laid_replace hsafe.laid hmiddle hlow hhigh) hreturns
  rw [hp, NODE_TO_CONTENTS_of_lt (by omega)]
  exact ⟨_, hsafe.resize { v with size := requested } _ hfree hlive rfl hallocated hmiddle hlow hhigh
    hend
    (fun w hw => by
      have := (laid_cons_iff _ _).mp hmiddle |>.2.1 w hw
      dsimp only at this
      exact (hplaces w (List.mem_cons_of_mem _ hw)).2.1 (by omega))
    (fun u hu => by
      have := hbelow u hu
      omega) hbecomes (Settles.compact _)⟩

-- The block's node may record a new size, with nothing split off.
theorem stretch_safe {recorded : Nat} {nodes' : List Node}
    (hsafe : Safe s (front ++ v :: (free ++ back)))
    (hfree : ∀ w ∈ free, w.allocated = false) (hallocated : v.allocated = true)
    (hlive : (v.addr + 11, old) ∈ s.live) (hback : Chain s.heap.mem next back 0)
    (hroom : ResizeRoom (v.addr + 11) next room requested) (hdelta : ¬ 12 ≤ room - requested)
    (hb : Becomes s.heap h' (front ++ ([{ v with size := recorded }] ++ back)) nodes')
    (hsettles : Settles (front ++ ([{ v with size := recorded }] ++ back)) nodes') :
    Safe ⟨h', (v.addr + 11, requested) :: s.live.erase (v.addr + 11, old)⟩ nodes' ∧
      ∀ block ∈ s.live.erase (v.addr + 11, old), ∀ x, InBlock block x →
        load8 h'.mem x = load8 s.heap.mem x := by
  obtain ⟨hend, hfits⟩ := hroom
  rw [if_neg hdelta] at hfits
  have hvmem : v ∈ front ++ v :: (free ++ back) := List.mem_append_right _ List.mem_cons_self
  have hvpos := hsafe.laid.addr_pos hvmem
  have hvtop := hsafe.laid.addr_le hvmem
  refine hsafe.resize { v with size := recorded } [] hfree hlive rfl hallocated ?_ ?_ ?_ hend
    (by simp) ?_ hb hsettles
  · exact (laid_cons_iff _ _).mpr ⟨⟨hvpos, hvtop⟩, by simp, List.Pairwise.nil, by simp⟩
  · simp
  · intro w hw u hu
    rw [List.mem_singleton.mp hw]
    exact hsafe.gap_back hu
  · intro u hu
    have hle := hsafe.next_of_back hback hu
    omega

end Resize

theorem Chain.size_eq {m : Memory} {a : Nat} (h : Chain m a nodes 0) {v : Node}
    (hv : v ∈ nodes) : size m v.addr = v.size := by
  obtain ⟨front, back, rfl⟩ := List.append_of_mem hv
  obtain ⟨b, -, hholds, -⟩ := Chain.split h
  exact hholds.2.2.1

-- The contents fit in the new block, which is longer than the old one.
theorem move_safe {old : Nat} {front back : List Node} {v : Node}
    (hsafe : Safe s nodes) (hlive : (ptr, old) ∈ s.live) (hnodes : nodes = front ++ v :: back)
    (hallocated : v.allocated = true)
    (hnode : CONTENTS_TO_NODE ptr = v.addr) (hlonger : v.size < requested)
    (hrequested : requested < 4294967296) (hroom : AllocRoom s.heap requested)
    (hreturns : moveBlock fuel ptr requested s.heap = some (h', p)) :
    ∃ nodes', Safe ⟨h', (p, requested) :: s.live.erase (ptr, old)⟩ nodes' ∧
      ∀ block ∈ s.live.erase (ptr, old), ∀ x, InBlock block x →
        load8 h'.mem x = load8 s.heap.mem x := by
  unfold moveBlock at hreturns
  cases halloc : kheapAlloc fuel requested s.heap with
  | none =>
      rw [halloc] at hreturns
      cases hreturns
  | some result =>
      obtain ⟨h₁, new_ptr⟩ := result
      rw [halloc] at hreturns
      simp only [hnode] at hreturns
      obtain ⟨h₂, hfreed, heq⟩ := Option.map_eq_some_iff.mp hreturns
      cases heq
      obtain ⟨nodes₁, hsafe₁, hkept, hsame₁⟩ := alloc_safe hsafe hrequested hroom halloc
      have hv : v ∈ nodes₁ := hkept v (hnodes ▸ List.mem_append_right _ List.mem_cons_self) hallocated
      have hsize : size h₁.mem v.addr = v.size := hsafe₁.chain.size_eq hv
      have hnew : (p, requested) ∈ (p, requested) :: s.live := List.mem_cons_self
      obtain ⟨-, -, -, -, hend, -⟩ := hsafe₁.owned _ hnew
      have htop := lt_of_le_KHEAP_END hend
      dsimp only at htop
      obtain ⟨hsafe₂, hsame₂⟩ := hsafe₁.overwrite
        (m := kmemcpy h₁.mem p ptr (size h₁.mem v.addr)) hnew (fun x hx hout => by
          unfold InBlock at hout
          dsimp only at hout
          exact load8_kmemcpy_of_le _ _ _ _ _ (by omega) hx (by omega))
      obtain ⟨hfresh, -⟩ := List.pairwise_cons.mp hsafe₁.distinct
      have hne : (p, requested) ≠ (ptr, old) := by
        intro heq
        exact hfresh _ hlive (congrArg Prod.fst heq)
      obtain ⟨nodes₃, hsafe₃, hsame₃⟩ :=
        free_safe hsafe₂ (List.mem_cons_of_mem _ hlive) hfreed
      have herase : ((p, requested) :: s.live).erase (ptr, old) =
          (p, requested) :: s.live.erase (ptr, old) := List.erase_cons_tail (by simpa using hne)
      rw [herase] at hsafe₃ hsame₃
      refine ⟨nodes₃, hsafe₃, fun block hblock x hx => ?_⟩
      have hmem := List.mem_of_mem_erase hblock
      rw [hsame₃ block (List.mem_cons_of_mem _ hblock) x hx]
      exact (hsame₂ block (List.mem_cons_of_mem _ hmem) (hfresh block hmem).symm x hx).trans
        (hsame₁ block hmem x hx)

theorem realloc_safe {old : Nat} (hsafe : Safe s nodes) (hlive : (ptr, old) ∈ s.live)
    (hne : requested ≠ 0) (hrequested : requested < 4294967296)
    (hroom : ReallocRoom s.heap ptr requested)
    (hreturns : kheapRealloc fuel ptr requested s.heap = some (h', p)) :
    ∃ nodes', Safe ⟨h', (p, requested) :: s.live.erase (ptr, old)⟩ nodes' ∧
      ∀ block ∈ s.live.erase (ptr, old), ∀ x, InBlock block x →
        load8 h'.mem x = load8 s.heap.mem x := by
  obtain ⟨front, v, back, b, rfl, rfl, hallocated, hend, -, hfront, hv, hback⟩ :=
    hsafe.block_node hlive
  have hsafe' : Safe s (front ++ v :: ([] ++ back)) := hsafe
  have htop := lt_of_le_KHEAP_END hend
  have hnode : CONTENTS_TO_NODE (v.addr + 11) = v.addr := CONTENTS_TO_NODE_of_lt (by omega)
  have hcontents : NODE_TO_CONTENTS v.addr = v.addr + 11 := NODE_TO_CONTENTS_of_lt (by omega)
  have hunchanged : Becomes s.heap s.heap (front ++ ([{ v with size := v.size }] ++ back))
      (front ++ ([{ v with size := v.size }] ++ back)) := ⟨rfl, hsafe.chain, fun _ _ _ => rfl⟩
  unfold ReallocRoom at hroom
  rw [show v.addr + 11 - 11 = v.addr by omega, hv.2.2.1, hv.2.2.2.2] at hroom
  have hroom := hroom.resolve_left hne
  unfold kheapRealloc at hreturns
  simp only [hnode, if_neg hne] at hreturns
  rw [if_neg (not_not.mpr hv.2.1), hv.2.2.1, hv.2.2.2.2] at hreturns
  by_cases hequal : requested = v.size
  · rw [if_pos hequal] at hreturns
    cases hreturns
    rw [if_pos (by omega)] at hroom
    exact ⟨_, stretch_safe hsafe' (by simp) hallocated hlive hback hroom (by omega) hunchanged
      (Settles.refl _)⟩
  rw [if_neg hequal] at hreturns
  by_cases hshrink : requested < v.size
  · rw [if_pos hshrink] at hreturns
    rw [if_pos (by omega)] at hroom
    unfold shrinkIn at hreturns
    simp only [hv.2.2.1, hv.2.2.2.2] at hreturns
    by_cases hdelta : 12 ≤ v.size - requested
    · rw [if_pos hdelta] at hreturns
      exact split_safe hsafe' (by simp) hallocated hlive hrequested hv.size_lt hfront hv hback
        hv.next_lt hroom hdelta hreturns
    · rw [if_neg hdelta] at hreturns
      cases hreturns
      rw [hcontents]
      exact ⟨_, stretch_safe hsafe' (by simp) hallocated hlive hback hroom hdelta hunchanged
        (Settles.refl _)⟩
  rw [if_neg hshrink] at hreturns
  rw [if_neg (by omega)] at hroom
  cases hpossible : possibleSize s.heap.mem fuel b 0 with
  | none =>
      simp only [hpossible] at hreturns
      cases hreturns
  | some result =>
      obtain ⟨iter, possible_size⟩ := result
      simp only [hpossible] at hreturns
      have hroom := hroom fuel iter possible_size hpossible
      by_cases hgrow : requested ≤ possible_size
      · rw [if_pos hgrow] at hreturns hroom
        obtain ⟨free, back, rfl, hfree, hback, hiter, hlt⟩ :=
          possibleSize_chain hback hpossible hv.next_lt (by omega)
        by_cases hdelta : 12 ≤ possible_size - requested
        · unfold growIn at hreturns
          simp only [if_pos hdelta] at hreturns
          exact split_safe hsafe hfree hallocated hlive hrequested hlt hfront hv hback hiter hroom
            hdelta hreturns
        · have hlaid : Laid (front ++ v :: back) := hsafe.laid.sublist (by
            simp)
          obtain ⟨hp, hbecomes⟩ :=
            growIn_consumes hlt hfront hv hback hiter hlaid hdelta hreturns
          rw [hp, hcontents]
          exact ⟨_, stretch_safe hsafe hfree hallocated hlive hback hroom hdelta hbecomes
            (Settles.refl _)⟩
      · rw [if_neg hgrow] at hreturns hroom
        exact move_safe hsafe hlive rfl hallocated hnode (by omega) hrequested hroom hreturns

end Keeps

section Runs

theorem initial_safe (m : Memory) : Safe (initial m) [initialNode] where
  chain := chain_initial m
  laid := laid_initialNode
  low := fun v hv => by
    rw [List.mem_singleton.mp hv]
    exact le_refl _
  owned := fun block hblock => by cases hblock
  distinct := List.Pairwise.nil

theorem step_safe {s s' : System} {call : Call} {nodes : List Node} (hsafe : Safe s nodes)
    (hstep : Step s call s') (hroom : HasRoom s call) :
    (∃ nodes', Safe s' nodes') ∧ Undisturbed s call s' := by
  cases hstep with
  | @alloc requested _ _ _ hreturns =>
      obtain ⟨nodes', hsafe', -, hsame⟩ :=
        alloc_safe hsafe requested.toNat_lt hroom hreturns
      exact ⟨⟨nodes', hsafe'⟩, fun _ block hblock _ => hsame block hblock⟩
  | @alignedAlloc requested _ _ _ _ _ hreturns =>
      obtain ⟨nodes', hsafe', hsame⟩ := aligned_safe hsafe requested.toNat_lt hroom hreturns
      exact ⟨⟨nodes', hsafe'⟩, fun _ block hblock _ => hsame block hblock⟩
  | @realloc ptr old requested _ _ h hlive hreturns =>
      have hother (block : Nat × Nat) (hblock : block ∈ s.live) (hne : some ptr ≠ some block.1) :
          block ∈ s.live.erase (ptr, old) :=
        (List.mem_erase_of_ne (fun heq => hne (by rw [heq]))).mpr hblock
      by_cases hzero : requested.toNat = 0
      · rw [if_pos hzero]
        unfold kheapRealloc at hreturns
        simp only [if_pos hzero] at hreturns
        obtain ⟨h₁, hfreed, heq⟩ := Option.map_eq_some_iff.mp hreturns
        cases heq
        obtain ⟨nodes', hsafe', hsame⟩ := free_safe hsafe hlive hfreed
        exact ⟨⟨nodes', hsafe'⟩,
          fun _ block hblock hne => hsame block (hother block hblock hne)⟩
      · rw [if_neg hzero]
        obtain ⟨nodes', hsafe', hsame⟩ :=
          realloc_safe hsafe hlive hzero requested.toNat_lt hroom hreturns
        exact ⟨⟨nodes', hsafe'⟩,
          fun _ block hblock hne => hsame block (hother block hblock hne)⟩
  | @free ptr old _ h hlive hreturns =>
      obtain ⟨nodes', hsafe', hsame⟩ := free_safe hsafe hlive hreturns
      refine ⟨⟨nodes', hsafe'⟩, fun _ block hblock hne => hsame block ?_⟩
      exact (List.mem_erase_of_ne (fun heq => hne (by rw [heq]; rfl))).mpr hblock
  | @write address start old value hlive hlow hhigh =>
      obtain ⟨hsafe', -⟩ := hsafe.overwrite (m := store8 s.heap.mem address value.toNat) hlive
        (fun x hx hout => by
          have hlt := (hsafe.owned _ hlive).lt ⟨hlow, hhigh⟩
          refine load8_store8_of_ne _ _ _ _ (fun heq => hout ?_)
          unfold InBlock
          dsimp only
          omega)
      exact ⟨⟨nodes, hsafe'⟩, fun hcall => by cases hcall⟩

theorem live_blocks_apart_with_room (m : Memory) (trace : List (Call × System))
    (hrun : Along Step (initial m) trace)
    (hroom : Along (fun s call _ => HasRoom s call) (initial m) trace) :
    BlocksApart (initial m) ∧
      Along (fun s call s' => BlocksApart s' ∧ Undisturbed s call s') (initial m) trace := by
  refine ⟨(initial_safe m).apart, ?_⟩
  have hsafe := Along.invariant (fun s => ∃ nodes, Safe s nodes)
    (fun s call s' ⟨_, hsafe⟩ hstep hroom => (step_safe hsafe hstep hroom).1)
    ⟨_, initial_safe m⟩ hrun hroom
  refine hsafe.mono (fun s call s' ⟨⟨_, hbefore⟩, hstep, hroom, ⟨_, hafter⟩⟩ => ?_)
  exact ⟨hafter.apart, (step_safe hbefore hstep hroom).2⟩

theorem FirstFit.unique {fits : Nat → Bool} {m : Memory} {a n n' : Nat} (h : FirstFit fits m a n)
    (h' : FirstFit fits m a n') : n = n' := by
  induction h with
  | here _ hfits =>
      cases h' with
      | here => rfl
      | later _ hother _ => exact absurd (hfits.symm.trans hother) Bool.true_eq_false.mp
  | later _ hfits _ ih =>
      cases h' with
      | here _ hother => exact absurd (hother.symm.trans hfits) Bool.true_eq_false.mp
      | later _ _ hlater => exact ih hlater

theorem allocRoom_of_walk {h : Heap} {fuel requested n : Nat}
    (hwalk : walkNodes (allocFits h.mem requested) h.mem fuel h.root_node = some (.found n))
    (hroom : RoomAt (n + 11) (next_node h.mem n) requested) : AllocRoom h requested := by
  intro n' hfit
  rw [hfit.unique (walkNodes_found _ _ _ _ _ hwalk)]
  exact hroom

-- Two blocks live at once, and the first one freed.
theorem live_blocks_apart_with_room_alloc_free :
    ∃ trace : List (Call × System),
      trace.map Prod.fst = [.alloc 16, .alloc 8, .free 0xf00000b] ∧
      BlocksApart (initial fun _ => 0) ∧
      Along (fun s call s' => BlocksApart s' ∧ Undisturbed s call s') (initial fun _ => 0) trace := by
  have hreturns : ((kheapAlloc 3 (16 : UInt32).toNat (initial fun _ => 0).heap).bind fun first =>
      (kheapAlloc 4 (8 : UInt32).toNat first.1).bind fun second =>
        (kheapFree 4 0xf00000b second.1).map fun _ =>
          (first.2, second.2,
            walkNodes (allocFits first.1.mem (8 : UInt32).toNat) first.1.mem 3 first.1.root_node,
            next_node first.1.mem 0xf00001b)) =
        some (0xf00000b, 0xf000026, some (.found 0xf00001b), 0) := by decide
  obtain ⟨⟨h₁, p⟩, hfirst, hreturns⟩ := Option.bind_eq_some_iff.mp hreturns
  obtain ⟨⟨h₂, q⟩, hsecond, hreturns⟩ := Option.bind_eq_some_iff.mp hreturns
  obtain ⟨h₃, hfreed, hvalues⟩ := Option.map_eq_some_iff.mp hreturns
  simp only [Prod.mk.injEq] at hvalues
  obtain ⟨rfl, rfl, hwalk, hnext⟩ := hvalues
  have hroom : AllocRoom (initial fun _ => 0).heap (16 : UInt32).toNat := by
    intro n hfit
    cases hfit with
    | here _ _ => exact ⟨by decide, .inl (by decide)⟩
    | later _ hfits _ => exact absurd hfits (by decide)
  have hroom' : AllocRoom h₁ (8 : UInt32).toNat :=
    allocRoom_of_walk hwalk ⟨by decide, .inl hnext⟩
  have hlast := Step.free (s := ⟨h₂, [(0xf000026, 8), (0xf00000b, 16)]⟩)
    (List.mem_cons_of_mem _ (List.mem_singleton.mpr rfl)) hfreed
  exact ⟨[(.alloc 16, _), (.alloc 8, _), (.free 0xf00000b, _)], rfl,
    live_blocks_apart_with_room (fun _ => 0) _ ⟨.alloc hfirst, .alloc hsecond, hlast, trivial⟩
      ⟨hroom, hroom', trivial, trivial⟩⟩

-- After a block of 16 bytes the free node claims almost 4 GiB.
theorem block_past_heap_end :
    ¬ ∀ (m : Memory) (trace : List (Call × System)), Along Step (initial m) trace →
      BlocksApart (initial m) ∧
        Along (fun s call s' => BlocksApart s' ∧ Undisturbed s call s') (initial m) trace := by
  intro hclaim
  have hreturns : ((kheapAlloc 3 (16 : UInt32).toNat (initial fun _ => 0).heap).bind
      (fun r => (kheapAlloc 4 (0x1000000 : UInt32).toNat r.1).map Prod.snd)) =
        some 0xf000026 := by decide
  obtain ⟨⟨h₁, p⟩, hfirst, hreturns⟩ := Option.bind_eq_some_iff.mp hreturns
  obtain ⟨⟨h₂, q⟩, hsecond, rfl⟩ := Option.map_eq_some_iff.mp hreturns
  have hruns := hclaim (fun _ => 0) [(.alloc 16, _), (.alloc 0x1000000, _)]
    ⟨.alloc hfirst, .alloc hsecond, trivial⟩
  obtain ⟨-, hend⟩ := hruns.2.2.1.1.inside (0xf000026, 0x1000000) List.mem_cons_self
  exact absurd hend (by decide)

end Runs

end PalleyOS.Kheap
