import PalleyOS.Kheap.Compaction

namespace PalleyOS.Kheap

open Machine

section Allocator

-- kheapRealloc over any allocator in place of kheapAlloc.
def moveBlockWith (alloc : Nat → Heap → Option (Heap × Nat)) (fuel ptr requested : Nat) (h : Heap) :
    Option (Heap × Nat) :=
  match alloc requested h with
  | none => none
  | some (h', new_ptr) =>
      let m := kmemcpy h'.mem new_ptr ptr (size h'.mem (CONTENTS_TO_NODE ptr))
      (kheapFree fuel ptr { h' with mem := m }).map (fun h'' => (h'', new_ptr))

def kheapReallocWith (alloc : Nat → Heap → Option (Heap × Nat)) (fuel ptr requested : Nat)
    (h : Heap) : Option (Heap × Nat) :=
  let current_node := CONTENTS_TO_NODE ptr
  if requested = 0 then (kheapFree fuel ptr h).map (fun h' => (h', 0))
  else if magic_number h.mem current_node ≠ KHEAP_MAGIC then none
  else if requested = size h.mem current_node then some (h, ptr)
  else if requested < size h.mem current_node then shrinkIn fuel current_node requested h
  else
    match possibleSize h.mem fuel (next_node h.mem current_node) 0 with
    | none => none
    | some (iter, possible_size) =>
        if requested ≤ possible_size then growIn fuel current_node requested iter possible_size h
        else moveBlockWith alloc fuel ptr requested h

theorem kheapRealloc_eq (fuel ptr requested : Nat) (h : Heap) :
    kheapRealloc fuel ptr requested h = kheapReallocWith (kheapAlloc fuel) fuel ptr requested h := by
  unfold kheapRealloc kheapReallocWith moveBlock moveBlockWith
  rfl

-- The heap is tiled, and `p` points to the live block of its node `w`.
structure HandsOut (h h' : Heap) (nodes' : List Node) (w : Node) (p requested : Nat) : Prop where
  tiling : Tiling h' nodes' KHEAP_END
  root : h'.root_node = h.root_node
  mem : w ∈ nodes'
  live : w.allocated = true
  pointer : p = NODE_TO_CONTENTS w.addr
  room : requested ≤ w.size

-- The live blocks keep their nodes and bytes beside the new one of `w`.
structure Allocates (h h' : Heap) (nodes nodes' : List Node) (w : Node) (p requested : Nat) : Prop
    extends HandsOut h h' nodes' w p requested where
  others : ∀ u ∈ nodes, u.allocated = true → u ∈ nodes' ∧ u.addr ≠ w.addr ∧
    ∀ x, InContents u x → load8 h'.mem x = load8 h.mem x

def KeepsHeap (alloc : Nat → Heap → Option (Heap × Nat)) (h : Heap) (nodes : List Node)
    (requested : Nat) : Prop :=
  ∀ h' p, alloc requested h = some (h', p) →
    ∃ nodes' w, Allocates h h' nodes nodes' w p requested

-- The block of `v` is now that of `w`, and the other live blocks are as before.
structure Resized (h h' : Heap) (nodes nodes' : List Node) (v w : Node) (p requested : Nat) : Prop
    extends HandsOut h h' nodes' w p requested where
  contents : ∀ i < min v.size requested,
    load8 h'.mem (w.addr + 11 + i) = load8 h.mem (v.addr + 11 + i)
  others : ∀ u ∈ nodes, u.allocated = true → u.addr ≠ v.addr → u ∈ nodes' ∧ u.addr ≠ w.addr ∧
    ∀ x, InContents u x → load8 h'.mem x = load8 h.mem x

end Allocator

section Room

variable {m : Memory} {b e fuel iter possible possible' : Nat} {nodes : List Node}

-- The bytes of the unallocated nodes that `nodes` starts with, and the rest.
def roomAfter : List Node → Nat
  | [] => 0
  | w :: rest => if w.allocated then 0 else 11 + w.size + roomAfter rest

def afterRoom : List Node → List Node
  | [] => []
  | w :: rest => if w.allocated then w :: rest else afterRoom rest

theorem afterRoom_suffix (nodes : List Node) : afterRoom nodes <:+ nodes := by
  induction nodes with
  | nil => exact List.suffix_refl _
  | cons w rest ih =>
      unfold afterRoom
      cases hw : w.allocated with
      | true => simp
      | false =>
          rw [if_neg (by simp)]
          exact ih.trans (List.suffix_cons _ _)

theorem mem_afterRoom {u : Node} (hu : u ∈ nodes) (hallocated : u.allocated = true) :
    u ∈ afterRoom nodes := by
  induction nodes with
  | nil => cases hu
  | cons w rest ih =>
      unfold afterRoom
      cases hw : w.allocated with
      | true =>
          rw [if_pos rfl]
          exact hu
      | false =>
          rw [if_neg (by simp)]
          rcases List.mem_cons.mp hu with rfl | hu
          · rw [hw] at hallocated
            cases hallocated
          · exact ih hu

theorem Tiles.afterRoom (h : Tiles b nodes e) : Tiles (b + roomAfter nodes) (afterRoom nodes) e := by
  induction nodes generalizing b with
  | nil => exact h
  | cons w rest ih =>
      obtain ⟨hw, hrest⟩ := h
      unfold roomAfter Kheap.afterRoom
      cases hallocated : w.allocated with
      | true =>
          rw [if_pos rfl, if_pos rfl]
          exact ⟨hw, hrest⟩
      | false =>
          rw [if_neg (by simp), if_neg (by simp),
            show b + (11 + w.size + roomAfter rest) = b + 11 + w.size + roomAfter rest by omega]
          exact ih hrest

-- The loop of kheapRealloc adds up the room and stops where it ends.
theorem possibleSize_room (hchain : Chain m b nodes 0) (hnull : ∀ w ∈ nodes, w.addr ≠ 0)
    (hfits : possible + roomAfter nodes < 4294967296)
    (hreturns : possibleSize m fuel b possible = some (iter, possible')) :
    possible' = possible + roomAfter nodes ∧ Chain m iter (afterRoom nodes) 0 := by
  induction fuel generalizing b possible nodes with
  | zero => cases hreturns
  | succ fuel ih =>
      unfold possibleSize at hreturns
      cases nodes with
      | nil =>
          have hb : b = 0 := hchain
          rw [if_neg (by simp [hb])] at hreturns
          obtain ⟨hiter, hpossible⟩ := Prod.mk.inj (Option.some.inj hreturns)
          exact ⟨hpossible.symm, hiter ▸ hchain⟩
      | cons w rest =>
          have hwhole := hchain
          obtain ⟨c, hw, hrest⟩ := hchain
          have hne : b ≠ 0 := hw.1 ▸ hnull w List.mem_cons_self
          rw [hw.2.2.2.1] at hreturns
          unfold roomAfter at hfits ⊢
          unfold afterRoom
          cases hallocated : w.allocated with
          | true =>
              rw [if_neg (by simp [hallocated])] at hreturns
              rw [if_pos rfl, if_pos rfl]
              obtain ⟨hiter, hpossible⟩ := Prod.mk.inj (Option.some.inj hreturns)
              exact ⟨hpossible.symm, hiter ▸ hwhole⟩
          | false =>
              rw [if_neg (by simp [hallocated])] at hfits
              rw [if_pos ⟨hne, hallocated⟩, hw.2.2.2.2, hw.2.2.1, Nat.mod_eq_of_lt (by omega)]
                at hreturns
              rw [if_neg (by simp), if_neg (by simp)]
              obtain ⟨hpossible, hiter⟩ :=
                ih hrest (fun u hu => hnull u (List.mem_cons_of_mem _ hu)) (by omega) hreturns
              exact ⟨by omega, hiter⟩

end Room

section Cases

variable {h h' : Heap} {front back : List Node} {v : Node}
variable {alloc : Nat → Heap → Option (Heap × Nat)} {b fuel requested p : Nat}

theorem Located.addr_lt (hl : Located h front back v b) : v.addr < 4294967296 := by
  have hhigh := hl.within.2
  simp only [KHEAP_END] at hhigh
  omega

theorem Located.room (hl : Located h front back v b) :
    Tiles (v.addr + 11 + v.size + roomAfter back) (afterRoom back) KHEAP_END := by
  obtain ⟨a, -, rfl, hback⟩ := (tiles_append_iff _ _ _ _).mp hl.tiling.tiles
  exact hback.afterRoom

theorem Located.realloc_eq (hl : Located h front back v b) (hpos : 0 < requested) :
    kheapReallocWith alloc fuel (NODE_TO_CONTENTS v.addr) requested h =
      if requested = v.size then some (h, NODE_TO_CONTENTS v.addr)
      else if requested < v.size then shrinkIn fuel v.addr requested h
      else match possibleSize h.mem fuel b 0 with
        | none => none
        | some (iter, possible_size) =>
            if requested ≤ possible_size then growIn fuel v.addr requested iter possible_size h
            else moveBlockWith alloc fuel (NODE_TO_CONTENTS v.addr) requested h := by
  unfold kheapReallocWith
  simp only [CONTENTS_TO_NODE_NODE_TO_CONTENTS hl.addr_lt]
  rw [if_neg (Nat.ne_of_gt hpos), if_neg (not_not.mpr hl.holds.2.1), hl.holds.2.2.1,
    hl.holds.2.2.2.2]

-- The six ways through kheapRealloc to a result.
theorem Located.realloc_cases (hl : Located h front back v b) (hpos : 0 < requested)
    (hreturns : kheapReallocWith alloc fuel (NODE_TO_CONTENTS v.addr) requested h = some (h', p)) :
    (requested ≤ v.size ∧ v.size < requested + 12 ∧ h' = h ∧ p = NODE_TO_CONTENTS v.addr) ∨
    (requested + 12 ≤ v.size ∧
      splitAfter fuel v.addr requested (v.size - requested) b h = some (h', p)) ∨
    (v.size < requested ∧ ∃ iter, Chain h.mem iter (afterRoom back) 0 ∧
      ((requested + 12 ≤ roomAfter back ∧
          splitAfter fuel v.addr requested (roomAfter back - requested) iter h = some (h', p)) ∨
        (requested ≤ roomAfter back ∧ roomAfter back < requested + 12 ∧
          growIn fuel v.addr requested iter (roomAfter back) h = some (h', p)) ∨
        (roomAfter back < requested ∧
          moveBlockWith alloc fuel (NODE_TO_CONTENTS v.addr) requested h = some (h', p)))) := by
  rw [hl.realloc_eq hpos] at hreturns
  by_cases hsame : requested = v.size
  · rw [if_pos hsame] at hreturns
    obtain ⟨hh, hp⟩ := Prod.mk.inj (Option.some.inj hreturns)
    exact .inl ⟨by omega, by omega, hh.symm, hp.symm⟩
  rw [if_neg hsame] at hreturns
  by_cases hless : requested < v.size
  · rw [if_pos hless] at hreturns
    unfold shrinkIn at hreturns
    simp only [hl.holds.2.2.1, hl.holds.2.2.2.2] at hreturns
    by_cases hdelta : 12 ≤ v.size - requested
    · rw [if_pos hdelta] at hreturns
      exact .inr (.inl ⟨by omega, hreturns⟩)
    · rw [if_neg hdelta] at hreturns
      obtain ⟨hh, hp⟩ := Prod.mk.inj (Option.some.inj hreturns)
      exact .inl ⟨by omega, by omega, hh.symm, hp.symm⟩
  rw [if_neg hless] at hreturns
  cases hpossible : possibleSize h.mem fuel b 0 with
  | none =>
      simp only [hpossible] at hreturns
      cases hreturns
  | some result =>
      obtain ⟨iter, possible_size⟩ := result
      simp only [hpossible] at hreturns
      have hend := hl.room.le_of_mem.1
      simp only [KHEAP_END] at hend
      obtain ⟨hroom, hiter⟩ := possibleSize_room hl.back
        (fun w hw => hl.tiling.not_null w (List.mem_append_right _ (List.mem_cons_of_mem _ hw)))
        (by omega) hpossible
      rw [Nat.zero_add] at hroom
      subst hroom
      refine .inr (.inr ⟨by omega, iter, hiter, ?_⟩)
      by_cases hgrows : requested ≤ roomAfter back
      · rw [if_pos hgrows] at hreturns
        by_cases hdelta : requested + 12 ≤ roomAfter back
        · unfold growIn at hreturns
          simp only [if_pos (show 12 ≤ roomAfter back - requested by omega)] at hreturns
          exact .inl ⟨hdelta, hreturns⟩
        · exact .inr (.inl ⟨hgrows, by omega, hreturns⟩)
      · rw [if_neg hgrows] at hreturns
        exact .inr (.inr ⟨by omega, hreturns⟩)

end Cases

section Splitting

variable {h h' : Heap} {front back later : List Node} {v : Node}
variable {b next remaining fuel requested p : Nat}

theorem Located.not_null (hl : Located h front back v b) (w : Node) (haddr : w.addr = v.addr)
    (hsub : later <:+ back) : ∀ u ∈ front ++ w :: later, u.addr ≠ 0 := by
  intro u hu
  rcases List.mem_append.mp hu with hu | hu
  · exact hl.tiling.not_null u (List.mem_append_left _ hu)
  rcases List.mem_cons.mp hu with rfl | hu
  · exact haddr ▸ hl.tiling.not_null v hl.mem
  · exact hl.tiling.not_null u
      (List.mem_append_right _ (List.mem_cons_of_mem _ (hsub.subset hu)))

-- `requested` headers on, not `requested` bytes.
theorem Located.splitPlace_eq (hl : Located h front back v b)
    (hsmall : requested ≤ KHEAP_END - KHEAP_START) :
    splitPlace v.addr requested = v.addr + 11 + 11 * requested ∧
      splitPlace v.addr requested + 11 ≤ 4294967296 := by
  have hhigh := hl.within.2
  simp only [KHEAP_END] at hhigh hsmall
  simp only [KHEAP_START] at hsmall
  have hplace : splitPlace v.addr requested = v.addr + 11 + 11 * requested := by
    unfold splitPlace
    rw [NODE_TO_CONTENTS_of_lt (by omega), Nat.mod_eq_of_lt (by omega)]
  exact ⟨hplace, by omega⟩

theorem Located.next_lt (hl : Located h front back v b) (hlater : Chain h.mem next later 0)
    (hsub : later <:+ back) : next < 4294967296 := by
  cases later with
  | nil =>
      have hnext : next = 0 := hlater
      omega
  | cons w rest =>
      have hw := (hl.after (hsub.subset List.mem_cons_self)).2
      simp only [KHEAP_END] at hw
      rw [hlater.head_addr]
      omega

-- The headers of a split keep the links before and after them.
theorem Located.split_links (hl : Located h front back v b) (hlive : v.allocated = true)
    (hsmall : requested ≤ KHEAP_END - KHEAP_START) (hremaining : remaining < 4294967296)
    (hlater : Chain h.mem next later 0) (hsub : later <:+ back)
    (hclear : LinksClear (splitPlace v.addr requested) later) :
    Links (splitHeaders h.mem (splitPlace v.addr requested) v.addr requested remaining next)
        h.root_node (front ++ ⟨v.addr, requested, true⟩ ::
          ⟨splitPlace v.addr requested, remaining - 11, false⟩ :: later) 0 ∧
      Holds (splitHeaders h.mem (splitPlace v.addr requested) v.addr requested remaining next)
        v.addr ⟨v.addr, requested, true⟩ (splitPlace v.addr requested) := by
  obtain ⟨hplace, htop⟩ := hl.splitPlace_eq hsmall
  generalize splitPlace v.addr requested = place at *
  have hrequested : requested < 4294967296 := by omega
  obtain ⟨hresized, hnew, hkept⟩ := splitHeaders_holds hrequested hremaining
    (hl.next_lt hlater hsub) (by omega) hl.holds
    (fun i hi => misses_of_le htop (by omega) (by omega))
  rw [hlive] at hresized
  have hfront : Links (splitHeaders h.mem place v.addr requested remaining next) h.root_node front
      v.addr := by
    refine hl.front.links.congr (fun u hu i _ hi => ?_)
    have hbefore := hl.before hu
    exact hkept _ (misses_of_le (by omega) (by omega) (by omega))
      (misses_of_le htop (by omega) (by omega))
  have hrest : Links (splitHeaders h.mem place v.addr requested remaining next) next later 0 := by
    refine hlater.links.congr (fun w hw i hi hi' => ?_)
    obtain ⟨hafter, hend⟩ := hl.after (hsub.subset hw)
    simp only [KHEAP_END] at hend
    have hapart := hclear w hw
    exact hkept _ (misses_of_le (by omega) (by omega) (by omega))
      (misses_of_le htop (by omega) (by omega))
  exact ⟨(segment_append _ _ _ _ _).mpr ⟨_, hfront, _, hresized.link, _, hnew.link, hrest⟩, hresized⟩

-- compactHeap then writes the new header at most.
theorem Located.split_frame (hl : Located h front back v b) (hlive : v.allocated = true)
    (hsettled : NoFreeNeighbours (front ++ v :: back))
    (hsmall : requested ≤ KHEAP_END - KHEAP_START) (hremaining : remaining < 4294967296)
    (hlater : Chain h.mem next later 0) (hsub : later <:+ back)
    (hclear : LinksClear (splitPlace v.addr requested) later) {m' : Memory}
    (hcompact : compactFrom fuel (splitHeaders h.mem (splitPlace v.addr requested) v.addr requested
      remaining next) h.root_node = some m') {x : Nat} (hx : x < splitPlace v.addr requested) :
    load8 m' x = load8 (splitHeaders h.mem (splitPlace v.addr requested) v.addr requested
      remaining next) x := by
  obtain ⟨hlinks, -⟩ := hl.split_links hlive hsmall hremaining hlater hsub hclear
  obtain ⟨hplace, htop⟩ := hl.splitPlace_eq hsmall
  obtain ⟨hfront, hrest, -⟩ := List.isChain_append.mp hsettled
  have hlater_settled : NoFreeNeighbours later := (List.isChain_cons.mp hrest).2.suffix hsub
  have hwalk : NoFreeNeighbours (front ++ [⟨v.addr, requested, true⟩]) :=
    List.isChain_append.mpr ⟨hfront, List.isChain_singleton _, fun _ _ w hw => .inr (by
      simp only [List.head?_cons, Option.mem_some_iff] at hw
      rw [← hw])⟩
  cases later with
  | nil =>
      have hsame := compactFrom_links_settled hlinks (by
        rw [List.append_cons]
        exact List.isChain_append.mpr ⟨hwalk, List.isChain_singleton _, by simp⟩) hcompact
      rw [hsame]
  | cons w rest =>
      cases hw : w.allocated with
      | true =>
          have hsame := compactFrom_links_settled hlinks (by
            rw [List.append_cons]
            exact List.isChain_append.mpr ⟨hwalk,
              List.isChain_cons_cons.mpr ⟨.inr hw, hlater_settled⟩, by simp⟩) hcompact
          rw [hsame]
      | false =>
          obtain ⟨hhead, htail⟩ := List.isChain_cons.mp hlater_settled
          have hmem (u : Node) (hu : u ∈ w :: rest) : u.addr + 11 + u.size ≤ KHEAP_END :=
            (hl.after (hsub.subset hu)).2
          simp only [KHEAP_END] at hmem
          rw [List.append_cons] at hlinks
          have hsame := compactFrom_merge_once hlinks
            (List.isChain_append.mpr ⟨hwalk, List.isChain_singleton _, by simp⟩)
            (List.isChain_cons.mpr ⟨fun u hu => .inr ((hhead u hu).resolve_left (by simp [hw])), htail⟩)
            rfl hw (fun u hu => by
              rcases List.mem_append.mp hu with hu | hu
              · exact hl.not_null ⟨v.addr, requested, true⟩ rfl List.nil_suffix u hu
              · rw [List.mem_singleton.mp hu]
                dsimp only
                omega)
            (hl.tiling.not_null w (List.mem_append_right _ (List.mem_cons_of_mem _
              (hsub.subset List.mem_cons_self))))
            (List.forall_mem_cons.mpr ⟨htop, fun u hu => by
              have := hmem u hu
              omega⟩) hclear hcompact
          rw [hsame]
          exact load8_combineNext_of_misses _ _ _ (misses_of_le htop (by omega) (.inl hx))


-- Whatever a split leaves between the block and the new header is in no node.
theorem Located.split_not_tiled (hl : Located h front back v b) (hlive : v.allocated = true)
    (hsettled : NoFreeNeighbours (front ++ v :: back)) (hpos : 0 < requested)
    (hsmall : requested ≤ KHEAP_END - KHEAP_START) (hremaining : remaining < 4294967296)
    (hlater : Chain h.mem next later 0) (hsub : later <:+ back)
    (hclear : LinksClear (splitPlace v.addr requested) later)
    (hreturns : splitAfter fuel v.addr requested remaining next h = some (h', p))
    (nodes' : List Node) : ¬ Tiling h' nodes' KHEAP_END := by
  rw [splitAfter_eq] at hreturns
  obtain ⟨-, hcompact, hroot'⟩ := compactHeap_map_eq_some hreturns
  obtain ⟨hplace, htop⟩ := hl.splitPlace_eq hsmall
  obtain ⟨hlinks, hresized⟩ := hl.split_links hlive hsmall hremaining hlater hsub hclear
  have hframe (x : Nat) (hx : x < splitPlace v.addr requested) :=
    hl.split_frame hlive hsettled hsmall hremaining hlater hsub hclear hcompact hx
  obtain ⟨c, hfront, d, hv, -⟩ := (segment_append _ _ _ _ _).mp hlinks
  have hto : Links h'.mem h.root_node (front ++ [⟨v.addr, requested, true⟩]) d := by
    have hbefore : Links _ h.root_node (front ++ [⟨v.addr, requested, true⟩]) d :=
      (segment_append _ _ _ _ _).mpr ⟨c, hfront, d, hv, rfl⟩
    refine hbefore.congr (fun u hu i _ hi => hframe _ ?_)
    rcases List.mem_append.mp hu with hu | hu
    · have := hl.before hu
      omega
    · rw [List.mem_singleton.mp hu]
      dsimp only
      omega
  have hin := hto.inChain (hl.not_null ⟨v.addr, requested, true⟩ rfl List.nil_suffix)
    (List.mem_append_right _ List.mem_cons_self)
  have hholds := hresized.congr (fun i hi => hframe _ (by omega))
  intro ht
  have hnext := ht.next_eq (hroot' ▸ hin) hholds
  dsimp only at hnext
  omega

end Splitting

section Stretching

variable {h h' : Heap} {front back : List Node} {v : Node} {b iter fuel requested p : Nat}

theorem Located.stretched (hl : Located h front back v b)
    (hiter : Chain h.mem iter (afterRoom back) 0) (hdelta : roomAfter back < requested + 12)
    (hreturns : growIn fuel v.addr requested iter (roomAfter back) h = some (h', p)) :
    p = NODE_TO_CONTENTS v.addr ∧
      Becomes h h' (front ++ { v with size := roomAfter back } :: afterRoom back)
        (front ++ { v with size := roomAfter back } :: afterRoom back) := by
  have hend := hl.room.le_of_mem.1
  simp only [KHEAP_END] at hend
  have hlaid : Laid (front ++ v :: afterRoom back) := hl.tiling.laid.sublist
    ((((afterRoom_suffix back).sublist.cons_cons v).append_left front).map Node.addr)
  exact growIn_consumes (by omega) hl.front hl.holds hiter
    (hl.next_lt hiter (afterRoom_suffix back)) hlaid (by omega) hreturns

-- The block's own bytes are not part of the room it is given.
theorem Located.stretch_tiled (hl : Located h front back v b)
    (hiter : Chain h.mem iter (afterRoom back) 0) (hdelta : roomAfter back < requested + 12)
    (hreturns : growIn fuel v.addr requested iter (roomAfter back) h = some (h', p))
    {nodes' : List Node} (ht : Tiling h' nodes' KHEAP_END) : v.size = 0 := by
  obtain ⟨-, hbecomes⟩ := hl.stretched hiter hdelta hreturns
  have hin := hbecomes.chain.links.inChain
    (hl.not_null { v with size := roomAfter back } rfl (afterRoom_suffix back))
    (List.mem_append_right _ List.mem_cons_self)
  obtain ⟨c, -, hholds, hrest⟩ := hbecomes.chain.split
  have hnext := ht.next_eq (hbecomes.root ▸ hin) hholds
  have hroom := hl.room
  dsimp only at hnext
  cases hlater : afterRoom back with
  | nil =>
      rw [hlater] at hrest hroom
      have hc : c = 0 := hrest
      have hend : v.addr + 11 + v.size + roomAfter back = KHEAP_END := hroom
      omega
  | cons w rest =>
      rw [hlater] at hrest hroom
      have hc := hrest.head_addr
      have hw := hroom.1
      omega

theorem Located.stretch_resized (hl : Located h front back v b) (hlive : v.allocated = true)
    (hiter : Chain h.mem iter (afterRoom back) 0) (hempty : v.size = 0)
    (hgrows : requested ≤ roomAfter back) (hdelta : roomAfter back < requested + 12)
    (hreturns : growIn fuel v.addr requested iter (roomAfter back) h = some (h', p)) :
    ∃ nodes' w, Resized h h' (front ++ v :: back) nodes' v w p requested := by
  obtain ⟨hp, hbecomes⟩ := hl.stretched hiter hdelta hreturns
  have htiles : Tiles h.root_node (front ++ { v with size := roomAfter back } :: afterRoom back)
      KHEAP_END := by
    obtain ⟨a, hfront, rfl, -⟩ := (tiles_append_iff _ _ _ _).mp hl.tiling.tiles
    have hroom := hl.room
    rw [hempty, Nat.add_zero] at hroom
    exact (tiles_append_iff _ _ _ _).mpr ⟨_, hfront, rfl, hroom⟩
  have htiling : Tiling h' (front ++ { v with size := roomAfter back } :: afterRoom back)
      KHEAP_END :=
    ⟨hbecomes.root ▸ hbecomes.chain, hbecomes.root ▸ htiles, hl.tiling.below,
      hl.not_null { v with size := roomAfter back } rfl (afterRoom_suffix back)⟩
  refine ⟨_, { v with size := roomAfter back }, ⟨htiling, hbecomes.root,
    List.mem_append_right _ List.mem_cons_self, hlive, hp, hgrows⟩, fun i hi => ?_,
    fun u hu hallocated hne => ?_⟩
  · rw [hempty] at hi
    omega
  · have hmem : u ∈ front ++ { v with size := roomAfter back } :: afterRoom back := by
      rcases List.mem_append.mp hu with hu | hu
      · exact List.mem_append_left _ hu
      · rcases List.mem_cons.mp hu with rfl | hu
        · exact absurd rfl hne
        · exact List.mem_append_right _ (List.mem_cons_of_mem _ (mem_afterRoom hu hallocated))
    have hend := (htiles.le_of_mem.2 u hmem).2
    simp only [KHEAP_END] at hend
    refine ⟨hmem, hne, fun x hx => hbecomes.frame x ?_ (htiles.contents_outside hmem hx)⟩
    simp only [InContents] at hx
    omega

end Stretching

section Moving

variable {h h' : Heap} {front back nodes : List Node} {v w : Node}
variable {alloc : Nat → Heap → Option (Heap × Nat)} {a b e fuel requested p : Nat}

theorem load8_kmemcpy_inside (m : Memory) (dest src num i : Nat) (hi : i < num)
    (hdest : dest + num ≤ 4294967296) (hsrc : src + num ≤ 4294967296)
    (hapart : dest + num ≤ src ∨ src + num ≤ dest) :
    load8 (kmemcpy m dest src num) (dest + i) = load8 m (src + i) := by
  induction num generalizing m dest src i with
  | zero => cases hi
  | succ num ih =>
      unfold kmemcpy
      cases i with
      | zero =>
          simp only [Nat.add_zero]
          rw [load8_kmemcpy_of_le _ _ _ _ _ (by omega) (by omega) (by omega), load8_store8_self,
            Nat.mod_eq_of_lt (load8_lt m src)]
      | succ i =>
          rw [show dest + (i + 1) = dest + 1 + i by omega,
            ih _ _ _ _ (by omega) (by omega) (by omega) (by omega),
            load8_store8_of_ne _ _ _ _ (by omega), show src + 1 + i = src + (i + 1) by omega]

theorem Tiles.apart (h : Tiles a nodes e) (hv : v ∈ nodes) (hw : w ∈ nodes)
    (hne : v.addr ≠ w.addr) :
    v.addr + 11 + v.size ≤ w.addr ∨ w.addr + 11 + w.size ≤ v.addr := by
  obtain ⟨front, back, rfl⟩ := List.append_of_mem hv
  obtain ⟨c, hfront, rfl, hback⟩ := (tiles_append_iff _ _ _ _).mp h
  rcases List.mem_append.mp hw with hw | hw
  · exact .inr (hfront.le_of_mem.2 w hw).2
  rcases List.mem_cons.mp hw with rfl | hw
  · exact absurd rfl hne
  · exact .inl (hback.le_of_mem.2 w hw).1

-- Bytes written inside the contents of a node leave the tiling in place.
theorem Tiling.overwrite {m : Memory} (ht : Tiling h nodes e) (hw : w ∈ nodes)
    (hsame : ∀ x < 4294967296, ¬ InContents w x → load8 m x = load8 h.mem x) :
    Tiling ⟨m, h.root_node⟩ nodes e := by
  refine ⟨ht.chain.congr (fun u hu i hi => ?_), ht.tiles, ht.below, ht.not_null⟩
  have htop := ht.addr_lt hu
  refine hsame _ (by omega) (fun hin => ?_)
  have := ht.tiles.contents_outside hw hin u hu
  omega

theorem Located.moved (hl : Located h front back v b) (hlive : v.allocated = true)
    (hkeeps : KeepsHeap alloc h (front ++ v :: back) requested) (hlonger : v.size < requested)
    (hreturns : moveBlockWith alloc fuel (NODE_TO_CONTENTS v.addr) requested h = some (h', p)) :
    ∃ nodes' w, Resized h h' (front ++ v :: back) nodes' v w p requested := by
  unfold moveBlockWith at hreturns
  cases halloc : alloc requested h with
  | none =>
      simp only [halloc] at hreturns
      cases hreturns
  | some result =>
      obtain ⟨h₁, new_ptr⟩ := result
      simp only [halloc, CONTENTS_TO_NODE_NODE_TO_CONTENTS hl.addr_lt] at hreturns
      obtain ⟨h₂, hfreed, heq⟩ := Option.map_eq_some_iff.mp hreturns
      obtain ⟨rfl, rfl⟩ := Prod.mk.inj heq
      obtain ⟨nodes₁, w, hgiven⟩ := hkeeps h₁ new_ptr halloc
      obtain ⟨hv, hne, hbytes⟩ := hgiven.others v hl.mem hlive
      have hvend := (hgiven.tiling.tiles.le_of_mem.2 v hv).2
      have hwend := (hgiven.tiling.tiles.le_of_mem.2 w hgiven.mem).2
      simp only [KHEAP_END] at hvend hwend
      have happart := hgiven.tiling.tiles.apart hv hgiven.mem hne
      have hroom := hgiven.room
      have hptr : NODE_TO_CONTENTS v.addr = v.addr + 11 := NODE_TO_CONTENTS_of_lt (by omega)
      have hwptr : NODE_TO_CONTENTS w.addr = w.addr + 11 := NODE_TO_CONTENTS_of_lt (by omega)
      rw [hgiven.tiling.chain.size_eq hv, hgiven.pointer,
        hwptr, hptr] at hfreed
      have hcopied (i : Nat) (hi : i < v.size) :
          load8 (kmemcpy h₁.mem (w.addr + 11) (v.addr + 11) v.size) (w.addr + 11 + i) =
            load8 h₁.mem (v.addr + 11 + i) :=
        load8_kmemcpy_inside _ _ _ _ _ hi (by omega) (by omega) (by omega)
      have hsame (x : Nat) (hx : x < 4294967296) (hout : ¬ InContents w x) :
          load8 (kmemcpy h₁.mem (w.addr + 11) (v.addr + 11) v.size) x = load8 h₁.mem x := by
        simp only [InContents] at hout
        exact load8_kmemcpy_of_le _ _ _ _ _ (by omega) hx (by omega)
      have ht₂ := hgiven.tiling.overwrite hgiven.mem hsame
      generalize kmemcpy h₁.mem (w.addr + 11) (v.addr + 11) v.size = m₂ at hfreed hcopied hsame ht₂
      obtain ⟨front₁, back₁, rfl⟩ := List.append_of_mem hv
      obtain ⟨c, hfront₁, hv₁, hback₁⟩ := ht₂.chain.split
      have hbecomes := kheapFree_becomes hfront₁ hv₁ hback₁ ht₂.laid rfl (by omega) hfreed
      have hcleared := ht₂.cleared
      have hkept (u : Node) (hu : u ∈ front₁ ++ v :: back₁) (hune : u.addr ≠ v.addr) (x : Nat)
          (hx : InContents u x) : load8 h₂.mem x = load8 m₂ x := by
        have hend := (hgiven.tiling.tiles.le_of_mem.2 u hu).2
        simp only [KHEAP_END] at hend
        refine hbecomes.frame x ?_ (hcleared.tiles.contents_outside (mem_clearedNodes hu hune) hx)
        simp only [InContents] at hx
        omega
      have hwkept : w ∈ compactNodes (clearedNodes front₁ back₁ v) :=
        mem_compactNodes_of_allocated (mem_clearedNodes hgiven.mem (Ne.symm hne)) hgiven.live
      refine ⟨_, w, ⟨hcleared.compacted hbecomes.root hbecomes.chain,
        hbecomes.root.trans hgiven.root, hwkept, hgiven.live, hgiven.pointer, hroom⟩,
        fun i hi => ?_, fun u hu hallocated hune => ?_⟩
      · have hi' : i < v.size := by omega
        rw [hkept w hgiven.mem (Ne.symm hne) _ (by unfold InContents; omega), hcopied i hi']
        exact hbytes _ (by unfold InContents; omega)
      · obtain ⟨hu₁, huw, hubytes⟩ := hgiven.others u hu hallocated
        refine ⟨mem_compactNodes_of_allocated (mem_clearedNodes hu₁ hune) hallocated, huw,
          fun x hx => ?_⟩
        have hend := (hgiven.tiling.tiles.le_of_mem.2 u hu₁).2
        simp only [KHEAP_END] at hend
        have hapart := hgiven.tiling.tiles.apart hu₁ hgiven.mem huw
        rw [hkept u hu₁ hune x hx, hsame x (by unfold InContents at hx; omega) (by
          simp only [InContents] at hx ⊢
          omega)]
        exact hubytes x hx

end Moving

section Theorems

variable {h h' : Heap} {front back : List Node} {v : Node}
variable {alloc : Nat → Heap → Option (Heap × Nat)} {fuel requested p : Nat}

-- No header is split off, and a block that grows in place was empty.
def KeepsBlock (v : Node) (later : List Node) (requested : Nat) : Prop :=
  (requested ≤ v.size ∧ v.size < requested + 12) ∨
    (v.size < requested ∧ roomAfter later < requested) ∨
    (v.size = 0 ∧ requested ≤ roomAfter later ∧ roomAfter later < requested + 12)

theorem Located.resized_same {b : Nat} (hl : Located h front back v b) (hlive : v.allocated = true)
    (hroom : requested ≤ v.size) :
    Resized h h (front ++ v :: back) (front ++ v :: back) v v (NODE_TO_CONTENTS v.addr) requested :=
  ⟨⟨hl.tiling, rfl, hl.mem, hlive, rfl, hroom⟩, fun _ _ => rfl,
    fun _ hu _ hne => ⟨hu, hne, fun _ _ => rfl⟩⟩

-- Splits lose what lies before their header and growth in place loses the old
-- block; a split over the links of later nodes runs through other memory.
theorem realloc_correct_iff (ht : Tiling h (front ++ v :: back) KHEAP_END)
    (hroot : h.root_node = KHEAP_START) (hsettled : NoFreeNeighbours (front ++ v :: back))
    (hlive : v.allocated = true) (hpos : 0 < requested)
    (hkeeps : KeepsHeap alloc h (front ++ v :: back) requested)
    (hreturns : kheapReallocWith alloc fuel (NODE_TO_CONTENTS v.addr) requested h = some (h', p)) :
    (KeepsBlock v back requested →
      ∃ nodes' w, Resized h h' (front ++ v :: back) nodes' v w p requested) ∧
    ((∃ nodes' w, Resized h h' (front ++ v :: back) nodes' v w p requested) →
      KeepsBlock v back requested ∨ ¬ LinksClear (splitPlace v.addr requested) back) := by
  obtain ⟨b, hl⟩ := ht.located hroot
  have hvend := hl.within
  have hroom := hl.room.le_of_mem.1
  simp only [KHEAP_START] at hvend
  simp only [KHEAP_END] at hvend hroom
  unfold KeepsBlock
  rcases hl.realloc_cases hpos hreturns with ⟨hle, hlt, rfl, rfl⟩ | ⟨hshrinks, hsplit⟩ |
    ⟨hgrows, iter, hiter, ⟨hroomy, hsplit⟩ | ⟨hfits, htight, hgrown⟩ | ⟨hshort, hmoved⟩⟩
  · exact ⟨fun _ => ⟨_, v, hl.resized_same hlive hle⟩, fun _ => .inl (.inl ⟨hle, hlt⟩)⟩
  · refine ⟨fun hkept => by omega, fun ⟨nodes', w, hresized⟩ => .inr (fun hclear => ?_)⟩
    exact hl.split_not_tiled hlive hsettled hpos (by unfold KHEAP_END KHEAP_START; omega) (by omega)
      hl.back (List.suffix_refl _) hclear hsplit nodes' hresized.tiling
  · refine ⟨fun hkept => by omega, fun ⟨nodes', w, hresized⟩ => .inr (fun hclear => ?_)⟩
    exact hl.split_not_tiled hlive hsettled hpos (by unfold KHEAP_END KHEAP_START; omega) (by omega)
      hiter (afterRoom_suffix back)
      (fun u hu => hclear u ((afterRoom_suffix back).subset hu)) hsplit nodes' hresized.tiling
  · refine ⟨fun hkept => hl.stretch_resized hlive hiter (by omega) hfits htight hgrown,
      fun ⟨nodes', w, hresized⟩ => .inl (.inr (.inr ⟨?_, hfits, htight⟩))⟩
    exact hl.stretch_tiled hiter htight hgrown hresized.tiling
  · exact ⟨fun _ => hl.moved hlive hkeeps hgrows hmoved, fun _ => .inl (.inr (.inl ⟨hgrows, hshort⟩))⟩

-- A free node that is just large enough, and a block that cannot grow in place.
def roomyNode : Node := ⟨0xf000000, 24, false⟩

def crampedNode : Node := ⟨0xf000023, 8, true⟩

def lastNode : Node := ⟨0xf000036, 0xffffbe, true⟩

def crampedHeap : Heap where
  mem := createNode (createNode (createNode (fun _ => 0) 0xf000000 24 0xf000023 false)
    0xf000023 8 0xf000036 true) 0xf000036 0xffffbe 0 true
  root_node := 0xf000000

theorem crampedHeap_tiling :
    Tiling crampedHeap ([roomyNode] ++ crampedNode :: [lastNode]) KHEAP_END := by
  have hfirst : Holds crampedHeap.mem 0xf000000 roomyNode 0xf000023 := ⟨rfl, rfl, rfl, rfl, rfl⟩
  have hsecond : Holds crampedHeap.mem 0xf000023 crampedNode 0xf000036 := ⟨rfl, rfl, rfl, rfl, rfl⟩
  have hlast : Holds crampedHeap.mem 0xf000036 lastNode 0 := ⟨rfl, rfl, rfl, rfl, rfl⟩
  exact ⟨⟨_, hfirst, _, hsecond, _, hlast, rfl⟩, ⟨rfl, rfl, rfl, rfl⟩, Nat.le_of_ble_eq_true rfl,
    by simp [roomyNode, crampedNode, lastNode]⟩

-- An allocator that hands out the free node of that heap.
def allocRoomy (_ : Nat) (h : Heap) : Option (Heap × Nat) :=
  some (⟨setAllocated h.mem roomyNode.addr true, h.root_node⟩, NODE_TO_CONTENTS roomyNode.addr)

theorem allocRoomy_keepsHeap :
    KeepsHeap allocRoomy crampedHeap ([roomyNode] ++ crampedNode :: [lastNode]) 24 := by
  intro h' p hgiven
  obtain ⟨rfl, rfl⟩ := Prod.mk.inj (Option.some.inj hgiven)
  have ht : Tiling crampedHeap ([] ++ roomyNode :: [crampedNode, lastNode]) KHEAP_END :=
    crampedHeap_tiling
  refine ⟨_, { roomyNode with allocated := true }, ⟨ht.flagged true, rfl, List.mem_cons_self, rfl,
    rfl, Nat.le_refl 24⟩, fun u hu hallocated => ?_⟩
  have hmem : u ∈ [crampedNode, lastNode] := by
    rcases List.mem_cons.mp hu with rfl | hu
    · cases hallocated
    · exact hu
  have hapart := ht.laid.head_le hmem
  refine ⟨List.mem_cons_of_mem _ hmem, by dsimp only; omega, fun x hx => ?_⟩
  have hend := (ht.tiles.le_of_mem.2 u (List.mem_cons_of_mem _ hmem)).2
  have hroomy := ht.addr_lt (v := roomyNode) List.mem_cons_self
  simp only [KHEAP_END] at hend
  simp only [InContents] at hx
  exact load8_setAllocated_of_misses _ _ _ _ (misses_of_le hroomy (by omega) (by omega))

theorem realloc_correct_iff_moved : ∃ h' p nodes' w,
    kheapReallocWith allocRoomy 5 (NODE_TO_CONTENTS crampedNode.addr) 24 crampedHeap = some (h', p) ∧
      Resized crampedHeap h' ([roomyNode] ++ crampedNode :: [lastNode]) nodes' crampedNode w p 24 := by
  have hmoves : (kheapReallocWith allocRoomy 5 (NODE_TO_CONTENTS crampedNode.addr) 24
      crampedHeap).map Prod.snd = some 0xf00000b := by decide
  obtain ⟨⟨h', p⟩, hreturns, -⟩ := Option.map_eq_some_iff.mp hmoves
  obtain ⟨nodes', w, hresized⟩ := (realloc_correct_iff crampedHeap_tiling rfl
    (by simp [NoFreeNeighbours, crampedNode]) rfl (by omega) allocRoomy_keepsHeap hreturns).1
    (.inr (.inl ⟨Nat.lt_of_sub_eq_succ rfl, Nat.lt_of_sub_eq_succ rfl⟩))
  exact ⟨h', p, nodes', w, hreturns, hresized⟩

-- Two blocks fill the heap, and kheapAlloc has nothing to hand out.
def longNode : Node := ⟨0xf000000, 40, true⟩

def restNode : Node := ⟨0xf000033, 0xffffc1, true⟩

def fullHeap : Heap where
  mem := createNode (createNode (fun _ => 0) 0xf000000 40 0xf000033 true) 0xf000033 0xffffc1 0 true
  root_node := 0xf000000

theorem fullHeap_tiling : Tiling fullHeap ([] ++ longNode :: [restNode]) KHEAP_END := by
  have hfirst : Holds fullHeap.mem 0xf000000 longNode 0xf000033 := ⟨rfl, rfl, rfl, rfl, rfl⟩
  have hlast : Holds fullHeap.mem 0xf000033 restNode 0 := ⟨rfl, rfl, rfl, rfl, rfl⟩
  exact ⟨⟨_, hfirst, _, hlast, rfl⟩, ⟨rfl, rfl, rfl⟩, Nat.le_of_ble_eq_true rfl,
    by simp [longNode, restNode]⟩

theorem kheapAlloc_keepsHeap_of_full {nodes : List Node}
    (hchain : Chain h.mem h.root_node nodes 0) (hfull : ∀ u ∈ nodes, u.allocated = true) :
    KeepsHeap (kheapAlloc fuel) h nodes requested := by
  intro h' p hgiven
  obtain ⟨n, hfit, -⟩ := kheapAlloc_eq_some hchain hgiven
  obtain ⟨front, u, back, rfl, rfl, hfits⟩ := hfit.exists_node hchain
  obtain ⟨b, -, hu, -⟩ := hchain.split
  have hallocated := hu.2.2.2.1.trans (hfull u (List.mem_append_right _ List.mem_cons_self))
  unfold allocFits at hfits
  rw [hallocated] at hfits
  cases hfits

-- Forty bytes made sixteen: the new header is 176 bytes on, in the other block.
theorem shrunk_block_not_tiled :
    ¬ ∀ (h h' : Heap) (front back : List Node) (v : Node) (fuel requested p : Nat),
      Tiling h (front ++ v :: back) KHEAP_END → h.root_node = KHEAP_START →
        NoFreeNeighbours (front ++ v :: back) → v.allocated = true → 0 < requested →
          KeepsHeap (kheapAlloc fuel) h (front ++ v :: back) requested →
            kheapRealloc fuel (NODE_TO_CONTENTS v.addr) requested h = some (h', p) →
              ∃ nodes' w, Resized h h' (front ++ v :: back) nodes' v w p requested := by
  intro hclaim
  have hshrinks : (kheapRealloc 5 (NODE_TO_CONTENTS longNode.addr) 16 fullHeap).map Prod.snd =
      some 0xf00000b := by decide
  obtain ⟨⟨h', p⟩, hreturns, -⟩ := Option.map_eq_some_iff.mp hshrinks
  have hsettled : NoFreeNeighbours ([] ++ longNode :: [restNode]) := by
    simp [NoFreeNeighbours, longNode]
  obtain ⟨nodes', w, hresized⟩ := hclaim fullHeap h' [] [restNode] longNode 5 16 p fullHeap_tiling rfl
    hsettled rfl (by omega)
    (kheapAlloc_keepsHeap_of_full fullHeap_tiling.chain (by simp [longNode, restNode])) hreturns
  obtain ⟨b, hl⟩ := fullHeap_tiling.located rfl
  have hclear : LinksClear (splitPlace longNode.addr 16) [restNode] := by
    intro u hu
    rw [List.mem_singleton.mp hu]
    exact .inr (Nat.le_of_ble_eq_true rfl)
  rw [kheapRealloc_eq] at hreturns
  rcases hl.realloc_cases (by omega) hreturns with ⟨-, hlt, -⟩ | ⟨-, hsplit⟩ | ⟨hgrows, -⟩
  · exact absurd hlt (by decide)
  · exact hl.split_not_tiled rfl hsettled (by omega) (Nat.le_of_ble_eq_true rfl)
      (Nat.lt_of_sub_eq_succ rfl) hl.back (List.suffix_refl _) hclear hsplit nodes' hresized.tiling
  · exact absurd hgrows (by decide)

end Theorems

end PalleyOS.Kheap
