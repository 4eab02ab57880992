import Mathlib.Data.List.Sublists
import PalleyOS.Kheap
import PalleyOS.Machine.Linked

namespace PalleyOS.Kheap

open Machine

section Addresses

theorem NODE_TO_CONTENTS_of_lt {node : Nat} (h : node + 11 < 4294967296) :
    NODE_TO_CONTENTS node = node + 11 := Nat.mod_eq_of_lt h

theorem CONTENTS_TO_NODE_of_lt {node : Nat} (h : node + 11 < 4294967296) :
    CONTENTS_TO_NODE (node + 11) = node :=
  (sub32_of_le _ _ (Nat.le_add_left _ _) h).trans (Nat.add_sub_cancel _ _)

theorem lt_of_le_KHEAP_END {a : Nat} (h : a ≤ KHEAP_END) : a < 4294967296 :=
  h.trans_lt (by decide)

end Addresses

section Fields

variable (m : Memory) (node value x : Nat) (flag : Bool)

theorem load8_setSize_of_misses (hx : Misses node 11 x) :
    load8 (setSize m node value) x = load8 m x :=
  load8_store32_of_misses _ _ _ _ (fun i hi => by
    rw [Nat.add_assoc]; exact hx (2 + i) (by omega))

theorem load8_setNextNode_of_misses (hx : Misses node 11 x) :
    load8 (setNextNode m node value) x = load8 m x :=
  load8_store32_of_misses _ _ _ _ (fun i hi => by
    rw [Nat.add_assoc]; exact hx (6 + i) (by omega))

theorem load8_setAllocated_of_misses (hx : Misses node 11 x) :
    load8 (setAllocated m node flag) x = load8 m x :=
  load8_store8_of_ne _ _ _ _ (hx 10 (by omega))

theorem load8_createNode_of_misses (next : Nat) (hx : Misses node 11 x) :
    load8 (createNode m node value next flag) x = load8 m x := by
  unfold createNode
  rw [load8_setAllocated_of_misses _ _ _ _ hx, load8_setNextNode_of_misses _ _ _ _ hx,
    load8_setSize_of_misses _ _ _ _ hx,
    load8_store16_of_misses _ _ _ _ (fun i hi => hx i (by omega))]

@[simp] theorem size_setSize : size (setSize m node value) node = value % 4294967296 :=
  load32_store32_self _ _ _

@[simp] theorem next_node_setNextNode :
    next_node (setNextNode m node value) node = value % 4294967296 :=
  load32_store32_self _ _ _

@[simp] theorem allocated_setAllocated : allocated (setAllocated m node flag) node = flag := by
  unfold allocated setAllocated
  rw [load8_store8_self]
  cases flag <;> rfl

@[simp] theorem magic_number_setSize :
    magic_number (setSize m node value) node = magic_number m node :=
  load16_congr _ _ _ (fun _ _ => load8_store32_of_misses _ _ _ _ (fun _ _ => by omega))

@[simp] theorem magic_number_setNextNode :
    magic_number (setNextNode m node value) node = magic_number m node :=
  load16_congr _ _ _ (fun _ _ => load8_store32_of_misses _ _ _ _ (fun _ _ => by omega))

@[simp] theorem magic_number_setAllocated :
    magic_number (setAllocated m node flag) node = magic_number m node :=
  load16_congr _ _ _ (fun _ _ => load8_store8_of_ne _ _ _ _ (by omega))

@[simp] theorem size_setNextNode : size (setNextNode m node value) node = size m node :=
  load32_congr _ _ _ (fun _ _ => load8_store32_of_misses _ _ _ _ (fun _ _ => by omega))

@[simp] theorem size_setAllocated : size (setAllocated m node flag) node = size m node :=
  load32_congr _ _ _ (fun _ _ => load8_store8_of_ne _ _ _ _ (by omega))

@[simp] theorem next_node_setSize : next_node (setSize m node value) node = next_node m node :=
  load32_congr _ _ _ (fun _ _ => load8_store32_of_misses _ _ _ _ (fun _ _ => by omega))

@[simp] theorem next_node_setAllocated :
    next_node (setAllocated m node flag) node = next_node m node :=
  load32_congr _ _ _ (fun _ _ => load8_store8_of_ne _ _ _ _ (by omega))

@[simp] theorem allocated_setSize :
    allocated (setSize m node value) node = allocated m node := by
  unfold allocated setSize
  rw [load8_store32_of_misses _ _ _ _ (fun i hi => by omega)]

@[simp] theorem allocated_setNextNode :
    allocated (setNextNode m node value) node = allocated m node := by
  unfold allocated setNextNode
  rw [load8_store32_of_misses _ _ _ _ (fun i hi => by omega)]

@[simp] theorem magic_number_createNode (next : Nat) :
    magic_number (createNode m node value next flag) node = KHEAP_MAGIC := by
  unfold createNode
  rw [magic_number_setAllocated, magic_number_setNextNode, magic_number_setSize]
  exact load16_store16_self _ _ _

@[simp] theorem size_createNode (next : Nat) :
    size (createNode m node value next flag) node = value % 4294967296 := by
  unfold createNode
  rw [size_setAllocated, size_setNextNode, size_setSize]

@[simp] theorem next_node_createNode (next : Nat) :
    next_node (createNode m node value next flag) node = next % 4294967296 := by
  unfold createNode
  rw [next_node_setAllocated, next_node_setNextNode]

@[simp] theorem allocated_createNode (next : Nat) :
    allocated (createNode m node value next flag) node = flag := by
  unfold createNode
  rw [allocated_setAllocated]

end Fields

section Chain

-- What one header says, and where it is.
structure Node where
  addr : Nat
  size : Nat
  allocated : Bool

def Holds (m : Memory) (a : Nat) (v : Node) (b : Nat) : Prop :=
  a = v.addr ∧ magic_number m a = KHEAP_MAGIC ∧ size m a = v.size ∧
    allocated m a = v.allocated ∧ next_node m a = b

-- The nodes that next_node leads through from `a` to `b`.
abbrev Chain (m : Memory) : Nat → List Node → Nat → Prop := Segment (Holds m)

-- Headers in address order that do not overlap and end below 2^32.
def Laid (nodes : List Node) : Prop :=
  (nodes.map Node.addr).Pairwise (fun a b => a + 11 ≤ b) ∧
    ∀ a ∈ nodes.map Node.addr, 0 < a ∧ a + 11 ≤ 4294967296

theorem Laid.sublist {nodes nodes' : List Node} (h : Laid nodes)
    (hs : (nodes'.map Node.addr).Sublist (nodes.map Node.addr)) : Laid nodes' :=
  ⟨h.1.sublist hs, fun a ha => h.2 a (hs.subset ha)⟩

theorem Laid.tail {v : Node} {rest : List Node} (h : Laid (v :: rest)) : Laid rest :=
  h.sublist (List.sublist_cons_self _ _)

theorem Laid.addr_pos {nodes : List Node} (h : Laid nodes) {v : Node} (hv : v ∈ nodes) :
    0 < v.addr := (h.2 _ (List.mem_map_of_mem hv)).1

theorem Laid.addr_le {nodes : List Node} (h : Laid nodes) {v : Node} (hv : v ∈ nodes) :
    v.addr + 11 ≤ 4294967296 := (h.2 _ (List.mem_map_of_mem hv)).2

theorem Laid.head_le {v w : Node} {rest : List Node} (h : Laid (v :: rest)) (hw : w ∈ rest) :
    v.addr + 11 ≤ w.addr :=
  (List.pairwise_cons.mp h.1).1 _ (List.mem_map_of_mem hw)

theorem misses_of_le {a n x : Nat} (ha : a + n ≤ 4294967296) (hx : x < 4294967296)
    (h : x < a ∨ a + n ≤ x) : Misses a n x := by
  intro i hi
  omega

theorem Holds.congr {m m' : Memory} {a b : Nat} {v : Node} (h : Holds m a v b)
    (hsame : ∀ i < 11, load8 m' (a + i) = load8 m (a + i)) : Holds m' a v b := by
  obtain ⟨ha, hmagic, hsize, hallocated, hnext⟩ := h
  have hshift (k i : Nat) (hi : k + i < 11) : load8 m' (a + k + i) = load8 m (a + k + i) := by
    rw [Nat.add_assoc]
    exact hsame (k + i) hi
  refine ⟨ha, ?_, ?_, ?_, ?_⟩
  · rw [← hmagic]
    exact load16_congr m m' a (fun i hi => hsame i (by omega))
  · rw [← hsize]
    exact load32_congr m m' (a + 2) (fun i hi => hshift 2 i (by omega))
  · rw [← hallocated]
    unfold allocated
    rw [hsame 10 (by omega)]
  · rw [← hnext]
    exact load32_congr m m' (a + 6) (fun i hi => hshift 6 i (by omega))

theorem Chain.congr {m m' : Memory} {a b : Nat} {nodes : List Node} (h : Chain m a nodes b)
    (hsame : ∀ v ∈ nodes, ∀ i < 11, load8 m' (v.addr + i) = load8 m (v.addr + i)) :
    Chain m' a nodes b :=
  h.mono (fun a v b hv hh => hh.congr (by rw [hh.1]; exact hsame v hv))

theorem Chain.head_addr {m : Memory} {a b : Nat} {v : Node} {rest : List Node}
    (h : Chain m a (v :: rest) b) : a = v.addr := by
  obtain ⟨c, hv, -⟩ := h
  exact hv.1

-- Outside every header of the list.
def Outside (nodes : List Node) (x : Nat) : Prop :=
  ∀ w ∈ nodes, x < w.addr ∨ w.addr + 11 ≤ x

theorem outside_cons_iff (v : Node) (rest : List Node) (x : Nat) :
    Outside (v :: rest) x ↔ (x < v.addr ∨ v.addr + 11 ≤ x) ∧ Outside rest x :=
  List.forall_mem_cons

theorem laid_cons_iff (v : Node) (rest : List Node) :
    Laid (v :: rest) ↔
      (0 < v.addr ∧ v.addr + 11 ≤ 4294967296) ∧ (∀ w ∈ rest, v.addr + 11 ≤ w.addr) ∧ Laid rest := by
  unfold Laid
  simp only [List.map_cons, List.pairwise_cons, List.forall_mem_cons, List.forall_mem_map]
  constructor
  · rintro ⟨⟨hsep, hrest⟩, hv, hbound⟩
    exact ⟨hv, hsep, hrest, hbound⟩
  · rintro ⟨hv, hsep, hrest, hbound⟩
    exact ⟨⟨hsep, hrest⟩, hv, hbound⟩

theorem laid_append_iff (front back : List Node) :
    Laid (front ++ back) ↔
      Laid front ∧ Laid back ∧ ∀ v ∈ front, ∀ w ∈ back, v.addr + 11 ≤ w.addr := by
  unfold Laid
  simp only [List.map_append, List.pairwise_append, List.mem_append, List.mem_map]
  constructor
  · rintro ⟨⟨hfront, hback, hsep⟩, hbound⟩
    exact ⟨⟨hfront, fun a ha => hbound a (.inl ha)⟩, ⟨hback, fun a ha => hbound a (.inr ha)⟩,
      fun v hv w hw => hsep _ ⟨v, hv, rfl⟩ _ ⟨w, hw, rfl⟩⟩
  · rintro ⟨⟨hfront, hfront'⟩, ⟨hback, hback'⟩, hsep⟩
    refine ⟨⟨hfront, hback, ?_⟩, ?_⟩
    · rintro _ ⟨v, hv, rfl⟩ _ ⟨w, hw, rfl⟩
      exact hsep v hv w hw
    · intro a ha
      exact ha.elim (hfront' a) (hback' a)

theorem Laid.outside_left {front back : List Node} (h : Laid (front ++ back)) {v : Node}
    (hv : v ∈ front) {i : Nat} (hi : i < 11) : Outside back (v.addr + i) := by
  intro w hw
  have := ((laid_append_iff _ _).mp h).2.2 v hv w hw
  omega

theorem Laid.outside_right {front back : List Node} (h : Laid (front ++ back)) {w : Node}
    (hw : w ∈ back) {i : Nat} : Outside front (w.addr + i) := by
  intro v hv
  have := ((laid_append_iff _ _).mp h).2.2 v hv w hw
  omega

-- A link that leads on to nodes is the address of the first of them.
theorem Chain.le_of_mem {m : Memory} {b : Nat} {nodes : List Node} (h : Chain m b nodes 0)
    (hlaid : Laid nodes) {w : Node} (hw : w ∈ nodes) : b ≠ 0 ∧ b ≤ w.addr := by
  cases nodes with
  | nil => cases hw
  | cons v rest =>
      have hb := h.head_addr
      have hpos := hlaid.addr_pos List.mem_cons_self
      rcases List.mem_cons.mp hw with rfl | hw
      · omega
      · have := hlaid.head_le hw
        omega

theorem Chain.split {m : Memory} {a : Nat} {front back : List Node} {v : Node}
    (h : Chain m a (front ++ v :: back) 0) :
    ∃ b, Chain m a front v.addr ∧ Holds m v.addr v b ∧ Chain m b back 0 := by
  obtain ⟨c, hfront, b, hv, hback⟩ := (segment_append _ _ _ _ _).mp h
  have hc := hv.1
  subst hc
  exact ⟨b, hfront, hv, hback⟩

-- New headers in the middle leave the nodes before and after them in place.
theorem Chain.replace {m m' : Memory} {a b c : Nat} {front middle back : List Node}
    (hfront : Chain m a front b) (hmiddle : Chain m' b middle c) (hback : Chain m c back 0)
    (hlaid : Laid (front ++ (middle ++ back)))
    (hframe : ∀ x < 4294967296, Outside middle x → load8 m' x = load8 m x) :
    Chain m' a (front ++ (middle ++ back)) 0 := by
  refine Segment.replace hfront hmiddle hback (fun a v b hv hh => hh.congr (fun i hi => ?_))
  obtain ⟨hlfront, hlrest, hsep⟩ := (laid_append_iff _ _).mp hlaid
  rw [hh.1]
  rcases hv with hv | hv
  · have htop := hlfront.addr_le hv
    exact hframe _ (by omega) (fun w hw => hlaid.outside_left hv hi w (List.mem_append_left _ hw))
  · have htop := ((laid_append_iff _ _).mp hlrest).2.1.addr_le hv
    exact hframe _ (by omega) (hlrest.outside_right hv)

end Chain

section Compact

-- compactHeap on the list of nodes.
def mergeNodes : Node → List Node → List Node
  | v, [] => [v]
  | v, w :: rest =>
      if !v.allocated && !w.allocated then
        mergeNodes { v with size := (v.size + (11 + w.size)) % 4294967296 } rest
      else v :: mergeNodes w rest

theorem mergeNodes_addr_sublist (v : Node) (rest : List Node) :
    ((mergeNodes v rest).map Node.addr).Sublist ((v :: rest).map Node.addr) := by
  induction rest generalizing v with
  | nil => exact List.Sublist.refl _
  | cons w rest ih =>
      unfold mergeNodes
      by_cases h : (!v.allocated && !w.allocated) = true
      · rw [if_pos h]
        refine (ih _).trans ?_
        simp only [List.map_cons]
        exact (List.sublist_cons_self _ _).cons_cons _
      · rw [if_neg h]
        exact (ih w).cons_cons _

theorem mem_mergeNodes_of_allocated (v : Node) (rest : List Node) {w : Node}
    (hw : w ∈ v :: rest) (hallocated : w.allocated = true) : w ∈ mergeNodes v rest := by
  induction rest generalizing v with
  | nil => exact hw
  | cons u rest ih =>
      unfold mergeNodes
      by_cases h : (!v.allocated && !u.allocated) = true
      · rw [if_pos h]
        simp only [Bool.and_eq_true, Bool.not_eq_true'] at h
        refine ih _ (List.mem_cons_of_mem _ ?_)
        rcases List.mem_cons.mp hw with rfl | hw
        · simp [hallocated] at h
        rcases List.mem_cons.mp hw with rfl | hw
        · simp [hallocated] at h
        exact hw
      · rw [if_neg h]
        rcases List.mem_cons.mp hw with rfl | hw
        · exact List.mem_cons_self
        · exact List.mem_cons_of_mem _ (ih u hw)

theorem load8_combineNext_of_misses (m : Memory) (node x : Nat) (hx : Misses node 11 x) :
    load8 (combineNext m node) x = load8 m x := by
  unfold combineNext
  rw [load8_setNextNode_of_misses _ _ _ _ hx, load8_setSize_of_misses _ _ _ _ hx]

theorem Holds.combineNext {m : Memory} {v w : Node} {a b c : Nat} (hv : Holds m a v b)
    (hw : Holds m b w c) (hapart : v.addr + 11 ≤ w.addr) (htop : w.addr + 11 ≤ 4294967296) :
    Holds (combineNext m a) a { v with size := (v.size + (11 + w.size)) % 4294967296 } c := by
  obtain ⟨ha, hmagic, hsize, hallocated, hnext⟩ := hv
  have hw' (s : Nat) : next_node (setSize m a s) b = c :=
    (hw.congr (fun i hi => by
      rw [hw.1, ha]
      exact load8_setSize_of_misses _ _ _ _
        (misses_of_le (by omega) (by omega) (by omega)))).2.2.2.2
  obtain ⟨-, -, hwsize, -, hwnext⟩ := hw
  have hc : c < 4294967296 := hwnext ▸ load32_lt _ _
  unfold Kheap.combineNext
  refine ⟨ha, ?_, ?_, ?_, ?_⟩
  · rw [magic_number_setNextNode, magic_number_setSize, hmagic]
  · rw [size_setNextNode, size_setSize, hsize, hnext, hwsize, Nat.mod_mod]
  · rw [allocated_setNextNode, allocated_setSize, hallocated]
  · rw [next_node_setNextNode, next_node_setSize, hnext, hw', Nat.mod_eq_of_lt hc]

theorem Chain.combineNext {m : Memory} {a : Nat} {v w : Node} {rest : List Node}
    (hchain : Chain m a (v :: w :: rest) 0) (hlaid : Laid (v :: w :: rest)) :
    Chain (combineNext m a) a ({ v with size := (v.size + (11 + w.size)) % 4294967296 } :: rest) 0 ∧
      ∀ x < 4294967296, x < v.addr ∨ v.addr + 11 ≤ x →
        load8 (Kheap.combineNext m a) x = load8 m x := by
  have ha := hchain.head_addr
  have hvtop := hlaid.addr_le List.mem_cons_self
  obtain ⟨b, hv, c, hw, hrest⟩ := hchain
  have hframe (x : Nat) (hx : x < 4294967296) (hout : x < v.addr ∨ v.addr + 11 ≤ x) :
      load8 (Kheap.combineNext m a) x = load8 m x :=
    load8_combineNext_of_misses _ _ _ (misses_of_le (by omega) hx (by omega))
  have hrest' : Chain (Kheap.combineNext m a) c rest 0 :=
    Chain.congr hrest (fun u hu i hi => by
      have := hlaid.head_le (List.mem_cons_of_mem _ hu)
      have := hlaid.tail.tail.addr_le hu
      exact hframe _ (by omega) (by omega))
  have hmerged := hv.combineNext hw (hlaid.head_le List.mem_cons_self)
    (hlaid.tail.addr_le List.mem_cons_self)
  exact ⟨⟨c, hmerged, hrest'⟩, hframe⟩

theorem compactFrom_last {m : Memory} {a : Nat} {v : Node} (fuel : Nat)
    (hchain : Chain m a [v] 0) : compactFrom (fuel + 1) m a = some m := by
  obtain ⟨b, hv, hb⟩ := hchain
  have hnext : next_node m a = 0 := hv.2.2.2.2.trans hb
  unfold compactFrom
  by_cases hzero : a = 0
  · rw [if_pos hzero]
  · rw [if_neg hzero, if_pos hnext]

theorem compactFrom_cons {m : Memory} {a : Nat} {v w : Node} {rest : List Node} (fuel : Nat)
    (hchain : Chain m a (v :: w :: rest) 0) (hv : 0 < v.addr) (hw : 0 < w.addr) :
    compactFrom (fuel + 1) m a =
      if (!v.allocated && !w.allocated) = true then compactFrom fuel (combineNext m a) a
      else compactFrom fuel m w.addr := by
  have ha := hchain.head_addr
  obtain ⟨b, hholds, hrest⟩ := hchain
  have hb : b = w.addr := Chain.head_addr hrest
  obtain ⟨c, hholds', -⟩ := hrest
  rw [compactFrom, if_neg (by omega), hholds.2.2.2.2, if_neg (by omega), hholds.2.2.2.1,
    hholds'.2.2.2.1, hb]

-- The induction is on fuel: a merge shortens the chain in place, any other
-- turn moves one node on. Only headers of unallocated nodes are written.
theorem compactFrom_chain (fuel a : Nat) (m m' : Memory) (v : Node) (rest : List Node)
    (hchain : Chain m a (v :: rest) 0) (hlaid : Laid (v :: rest))
    (hreturns : compactFrom fuel m a = some m') :
    Chain m' a (mergeNodes v rest) 0 ∧
      ∀ x < 4294967296, (∀ w ∈ v :: rest, w.allocated = false → x < w.addr ∨ w.addr + 11 ≤ x) →
        load8 m' x = load8 m x := by
  induction fuel generalizing a m v rest with
  | zero => cases hreturns
  | succ fuel ih =>
      have hvtop := hlaid.addr_le List.mem_cons_self
      cases rest with
      | nil =>
          rw [compactFrom_last fuel hchain] at hreturns
          cases hreturns
          exact ⟨hchain, fun _ _ _ => rfl⟩
      | cons w rest =>
          rw [compactFrom_cons fuel hchain (hlaid.addr_pos List.mem_cons_self)
            (hlaid.tail.addr_pos List.mem_cons_self)] at hreturns
          unfold mergeNodes
          by_cases hfree : (!v.allocated && !w.allocated) = true
          · rw [if_pos hfree] at hreturns ⊢
            simp only [Bool.and_eq_true, Bool.not_eq_true'] at hfree
            obtain ⟨hmerged, hframe⟩ := hchain.combineNext hlaid
            obtain ⟨hresult, hsame⟩ := ih _ _ _ _ hmerged
              (hlaid.sublist ((List.sublist_cons_self _ _).cons_cons _)) hreturns
            refine ⟨hresult, fun x hx hout => ?_⟩
            rw [hsame x hx ?_, hframe x hx (hout v List.mem_cons_self hfree.1)]
            intro u hu hu'
            rcases List.mem_cons.mp hu with rfl | hu
            · exact hout v List.mem_cons_self hfree.1
            · exact hout u (List.mem_cons_of_mem _ (List.mem_cons_of_mem _ hu)) hu'
          · rw [if_neg hfree] at hreturns ⊢
            obtain ⟨b, hv, hnext⟩ := hchain
            have hb : b = w.addr := Chain.head_addr hnext
            subst hb
            obtain ⟨hresult, hsame⟩ := ih _ _ _ _ hnext hlaid.tail hreturns
            refine ⟨⟨w.addr, hv.congr (fun i hi => ?_), hresult⟩, fun x hx hout =>
              hsame x hx (fun u hu hu' => hout u (List.mem_cons_of_mem _ hu) hu')⟩
            have ha := hv.1
            refine hsame _ (by omega) (fun u hu _ => ?_)
            have := hlaid.head_le hu
            omega

-- Every turn leaves one node fewer to come to.
theorem compactFrom_returns (rest : List Node) (m : Memory) (a : Nat) (v : Node)
    (hchain : Chain m a (v :: rest) 0) (hlaid : Laid (v :: rest)) :
    ∃ m', ∀ fuel, rest.length < fuel → compactFrom fuel m a = some m' := by
  induction rest generalizing m a v with
  | nil =>
      refine ⟨m, fun fuel hfuel => ?_⟩
      cases fuel with
      | zero => cases hfuel
      | succ fuel => exact compactFrom_last fuel hchain
  | cons w rest ih =>
      have hturn (fuel : Nat) := compactFrom_cons fuel hchain (hlaid.addr_pos List.mem_cons_self)
        (hlaid.tail.addr_pos List.mem_cons_self)
      have hrun : ∃ m', ∀ fuel, rest.length < fuel → compactFrom (fuel + 1) m a = some m' := by
        by_cases hfree : (!v.allocated && !w.allocated) = true
        · obtain ⟨hmerged, -⟩ := hchain.combineNext hlaid
          obtain ⟨m', hm'⟩ := ih _ _ _ hmerged
            (hlaid.sublist ((List.sublist_cons_self _ _).cons_cons _))
          exact ⟨m', fun fuel hfuel => by rw [hturn, if_pos hfree, hm' fuel hfuel]⟩
        · obtain ⟨b, -, hnext⟩ := hchain
          have hb : b = w.addr := Chain.head_addr hnext
          obtain ⟨m', hm'⟩ := ih _ _ _ hnext hlaid.tail
          exact ⟨m', fun fuel hfuel => by rw [hturn, if_neg hfree, ← hb, hm' fuel hfuel]⟩
      obtain ⟨m', hm'⟩ := hrun
      refine ⟨m', fun fuel hfuel => ?_⟩
      cases fuel with
      | zero => cases hfuel
      | succ fuel => exact hm' fuel (Nat.lt_of_succ_lt_succ hfuel)

def compactNodes : List Node → List Node
  | [] => []
  | v :: rest => mergeNodes v rest

theorem compactNodes_addr_sublist (nodes : List Node) :
    ((compactNodes nodes).map Node.addr).Sublist (nodes.map Node.addr) := by
  cases nodes with
  | nil => exact List.Sublist.refl _
  | cons v rest => exact mergeNodes_addr_sublist v rest

theorem mem_compactNodes_of_allocated {nodes : List Node} {w : Node} (hw : w ∈ nodes)
    (hallocated : w.allocated = true) : w ∈ compactNodes nodes := by
  cases nodes with
  | nil => cases hw
  | cons v rest => exact mem_mergeNodes_of_allocated v rest hw hallocated

theorem compactHeap_chain {fuel : Nat} {h h' : Heap} {nodes : List Node}
    (hchain : Chain h.mem h.root_node nodes 0) (hlaid : Laid nodes)
    (hreturns : compactHeap fuel h = some h') :
    h'.root_node = h.root_node ∧ Chain h'.mem h.root_node (compactNodes nodes) 0 ∧
      ∀ x < 4294967296, Outside nodes x → load8 h'.mem x = load8 h.mem x := by
  unfold compactHeap at hreturns
  obtain ⟨m', hm', rfl⟩ := Option.map_eq_some_iff.mp hreturns
  cases nodes with
  | nil =>
      have hroot : h.root_node = 0 := hchain
      cases fuel with
      | zero => cases hm'
      | succ fuel =>
          unfold compactFrom at hm'
          rw [if_pos hroot] at hm'
          cases hm'
          exact ⟨rfl, hchain, fun _ _ _ => rfl⟩
  | cons v rest =>
      obtain ⟨hresult, hsame⟩ := compactFrom_chain _ _ _ _ _ _ hchain hlaid hm'
      exact ⟨rfl, hresult, fun x hx hout => hsame x hx (fun w hw _ => hout w hw)⟩

end Compact

section ConsumeEmptySpace

def unaccounted (v : Node) (next : Nat) : Nat := (sub32 next v.addr + v.size) % 4294967296

def splitAddr (v : Node) : Nat := (NODE_TO_CONTENTS v.addr + v.size) % 4294967296

theorem splitAddr_of_lt {v : Node} (h : v.addr + 11 + v.size < 4294967296) :
    splitAddr v = v.addr + 11 + v.size := by
  unfold splitAddr
  rw [NODE_TO_CONTENTS_of_lt ((Nat.le_add_right _ _).trans_lt h), Nat.mod_eq_of_lt h]

-- consumeEmptySpace on the list of nodes: the node with the header it may split off.
def consumeNodes (v : Node) (next : Nat) : List Node :=
  if 11 < unaccounted v next then [v, ⟨splitAddr v, unaccounted v next - 11, false⟩]
  else [{ v with size := (v.size + unaccounted v next) % 4294967296 }]

theorem misses_symm {a b : Nat} (h : ∀ i < 11, Misses b 11 (a + i)) :
    ∀ i < 11, Misses a 11 (b + i) :=
  fun i hi j hj => (h j hj i hi).symm

theorem Holds.next_lt {m : Memory} {a b : Nat} {v : Node} (h : Holds m a v b) :
    b < 4294967296 := h.2.2.2.2 ▸ load32_lt _ _

theorem Holds.size_lt {m : Memory} {a b : Nat} {v : Node} (h : Holds m a v b) :
    v.size < 4294967296 := h.2.2.1 ▸ load32_lt _ _

theorem Holds.createNode (m : Memory) (v : Node) (b : Nat) (hsize : v.size < 4294967296)
    (hb : b < 4294967296) : Holds (createNode m v.addr v.size b v.allocated) v.addr v b := by
  refine ⟨rfl, magic_number_createNode _ _ _ _ _, ?_, allocated_createNode _ _ _ _ _, ?_⟩
  · rw [size_createNode, Nat.mod_eq_of_lt hsize]
  · rw [next_node_createNode, Nat.mod_eq_of_lt hb]

theorem Holds.setNextNode {m : Memory} {a b : Nat} {v : Node} (h : Holds m a v b) (c : Nat)
    (hc : c < 4294967296) : Holds (setNextNode m a c) a v c := by
  obtain ⟨ha, hmagic, hsize, hallocated, -⟩ := h
  refine ⟨ha, ?_, ?_, ?_, ?_⟩
  · rw [magic_number_setNextNode, hmagic]
  · rw [size_setNextNode, hsize]
  · rw [allocated_setNextNode, hallocated]
  · rw [next_node_setNextNode, Nat.mod_eq_of_lt hc]

theorem Holds.setSize {m : Memory} {a b : Nat} {v : Node} (h : Holds m a v b) (s : Nat)
    (hs : s < 4294967296) : Holds (setSize m a s) a { v with size := s } b := by
  obtain ⟨ha, hmagic, -, hallocated, hnext⟩ := h
  refine ⟨ha, ?_, ?_, ?_, ?_⟩
  · rw [magic_number_setSize, hmagic]
  · rw [size_setSize, Nat.mod_eq_of_lt hs]
  · rw [allocated_setSize, hallocated]
  · rw [next_node_setSize, hnext]

theorem Holds.setAllocated {m : Memory} {a b : Nat} {v : Node} (h : Holds m a v b)
    (flag : Bool) : Holds (setAllocated m a flag) a { v with allocated := flag } b := by
  obtain ⟨ha, hmagic, hsize, -, hnext⟩ := h
  refine ⟨ha, ?_, ?_, allocated_setAllocated _ _ _, ?_⟩
  · rw [magic_number_setAllocated, hmagic]
  · rw [size_setAllocated, hsize]
  · rw [next_node_setAllocated, hnext]

-- The header is written where the node's contents end, so it must not run
-- over the node's own header.
theorem consumeEmptySpace_chain {m : Memory} {a b : Nat} {v : Node} (hv : Holds m a v b)
    (hapart : 11 < unaccounted v b → ∀ i < 11, Misses (splitAddr v) 11 (a + i)) :
    Chain (consumeEmptySpace m a) a (consumeNodes v b) b ∧
      ∀ x, Misses a 11 x → (11 < unaccounted v b → Misses (splitAddr v) 11 x) →
        load8 (consumeEmptySpace m a) x = load8 m x := by
  have ha : a = v.addr := hv.1
  have hlt : splitAddr v < 4294967296 := Nat.mod_lt _ (by omega)
  have hu : unaccounted v b < 4294967296 := Nat.mod_lt _ (by omega)
  unfold consumeEmptySpace consumeNodes
  rw [hv.2.2.2.2, hv.2.2.1, ha]
  by_cases hsplit : 11 < unaccounted v b
  · have hmiss := hapart hsplit
    rw [ha] at hmiss
    simp only [if_pos hsplit]
    rw [if_pos (show 11 < (sub32 b v.addr + v.size) % 4294967296 from hsplit)]
    have hnew : Holds (createNode m (splitAddr v) (unaccounted v b - 11) b false) (splitAddr v)
        ⟨splitAddr v, unaccounted v b - 11, false⟩ b :=
      Holds.createNode m ⟨splitAddr v, unaccounted v b - 11, false⟩ b
        ((Nat.sub_le _ _).trans_lt hu) hv.next_lt
    have hold : Holds (createNode m (splitAddr v) (unaccounted v b - 11) b false) v.addr v b :=
      (ha ▸ hv).congr (fun i hi => load8_createNode_of_misses _ _ _ _ _ _ (hmiss i hi))
    refine ⟨⟨splitAddr v, hold.setNextNode _ hlt, b, ?_, rfl⟩, fun x hx hx' => ?_⟩
    · exact hnew.congr (fun i hi =>
        load8_setNextNode_of_misses _ _ _ _ (misses_symm hmiss i hi))
    · exact (load8_setNextNode_of_misses _ _ _ _ hx).trans
        (load8_createNode_of_misses _ _ _ _ _ _ (hx' hsplit))
  · simp only [if_neg hsplit]
    rw [if_neg (show ¬ 11 < (sub32 b v.addr + v.size) % 4294967296 from hsplit)]
    exact ⟨⟨b, (ha ▸ hv).setSize _ (Nat.mod_lt _ (by omega)), rfl⟩,
      fun x hx _ => load8_setSize_of_misses _ _ _ _ hx⟩

end ConsumeEmptySpace

section Walk

-- The first node from `a` on that passes the test.
inductive FirstFit (fits : Nat → Bool) (m : Memory) : Nat → Nat → Prop
  | here {a : Nat} (hne : a ≠ 0) (hfits : fits a = true) : FirstFit fits m a a
  | later {a n : Nat} (hne : a ≠ 0) (hfits : fits a = false)
      (hlater : FirstFit fits m (next_node m a) n) : FirstFit fits m a n

theorem walkNodes_found (fits : Nat → Bool) (m : Memory) (fuel a n : Nat)
    (hfound : walkNodes fits m fuel a = some (.found n)) : FirstFit fits m a n := by
  induction fuel generalizing a with
  | zero => cases hfound
  | succ fuel ih =>
      unfold walkNodes at hfound
      by_cases hne : a = 0
      · rw [if_pos hne] at hfound
        cases hfound
      rw [if_neg hne] at hfound
      by_cases hmagic : magic_number m a ≠ KHEAP_MAGIC
      · rw [if_pos hmagic] at hfound
        cases hfound
      rw [if_neg hmagic] at hfound
      cases hfits : fits a with
      | true =>
          rw [if_pos hfits] at hfound
          cases hfound
          exact .here hne hfits
      | false =>
          rw [if_neg (by simp [hfits])] at hfound
          exact .later hne hfits (ih _ hfound)

-- Every node of a chain has its magic number.
theorem walkNodes_not_corrupted (fits : Nat → Bool) (m : Memory) (fuel a : Nat)
    (nodes : List Node) (hchain : Chain m a nodes 0) :
    walkNodes fits m fuel a ≠ some .corrupted := by
  induction fuel generalizing a nodes with
  | zero => intro h; cases h
  | succ fuel ih =>
      unfold walkNodes
      cases nodes with
      | nil =>
          rw [if_pos (show a = 0 from hchain)]
          intro h
          cases h
      | cons v rest =>
          obtain ⟨b, hv, hrest⟩ := hchain
          by_cases hne : a = 0
          · rw [if_pos hne]
            intro h
            cases h
          rw [if_neg hne, if_neg (not_not.mpr hv.2.1), hv.2.2.2.2]
          by_cases hfits : fits a = true
          · rw [if_pos hfits]
            intro h
            cases h
          · rw [if_neg hfits]
            exact ih b rest hrest

theorem FirstFit.exists_node {fits : Nat → Bool} {m : Memory} {a n : Nat}
    (h : FirstFit fits m a n) {nodes : List Node} (hchain : Chain m a nodes 0) :
    ∃ front v back, nodes = front ++ v :: back ∧ n = v.addr ∧ fits n = true := by
  induction h generalizing nodes with
  | @here a hne hfits =>
      cases nodes with
      | nil => exact absurd hchain hne
      | cons v rest => exact ⟨[], v, rest, rfl, hchain.head_addr, hfits⟩
  | @later a n hne _ _ ih =>
      cases nodes with
      | nil => exact absurd hchain hne
      | cons v rest =>
          obtain ⟨b, hv, hrest⟩ := hchain
          rw [hv.2.2.2.2] at ih
          obtain ⟨front, w, back, rfl, hn, hfits⟩ := ih hrest
          exact ⟨v :: front, w, back, rfl, hn, hfits⟩

end Walk

end PalleyOS.Kheap
