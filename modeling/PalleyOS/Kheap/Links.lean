import Mathlib.Data.List.Chain
import PalleyOS.Kheap.Operations

namespace PalleyOS.Kheap

open Machine

-- compactHeap reads the flag and the link of a node, the last five bytes of its
-- header. A header written over the other six does not lead it astray.
section Links

def Link (m : Memory) (a : Nat) (v : Node) (b : Nat) : Prop :=
  a = v.addr ∧ allocated m a = v.allocated ∧ next_node m a = b

abbrev Links (m : Memory) : Nat → List Node → Nat → Prop := Segment (Link m)

def NoFreeNeighbours (nodes : List Node) : Prop :=
  nodes.IsChain (fun v w => v.allocated = true ∨ w.allocated = true)

theorem Holds.link {m : Memory} {a b : Nat} {v : Node} (h : Holds m a v b) : Link m a v b :=
  ⟨h.1, h.2.2.2.1, h.2.2.2.2⟩

theorem Chain.links {m : Memory} {a b : Nat} {nodes : List Node} (h : Chain m a nodes b) :
    Links m a nodes b := h.mono (fun _ _ _ _ hh => hh.link)

theorem Link.congr {m m' : Memory} {a b : Nat} {v : Node} (h : Link m a v b)
    (hsame : ∀ i, 6 ≤ i → i < 11 → load8 m' (v.addr + i) = load8 m (v.addr + i)) :
    Link m' a v b := by
  obtain ⟨rfl, hallocated, hnext⟩ := h
  refine ⟨rfl, ?_, ?_⟩
  · rw [← hallocated, allocated, allocated, hsame 10 (by omega) (by omega)]
  · rw [← hnext]
    exact load32_congr m m' (v.addr + 6) (fun i hi => by
      rw [Nat.add_assoc]
      exact hsame (6 + i) (by omega) (by omega))

theorem Links.congr {m m' : Memory} {a b : Nat} {nodes : List Node} (h : Links m a nodes b)
    (hsame : ∀ v ∈ nodes, ∀ i, 6 ≤ i → i < 11 → load8 m' (v.addr + i) = load8 m (v.addr + i)) :
    Links m' a nodes b := h.mono (fun _ v _ hv hh => hh.congr (hsame v hv))

theorem Links.head_addr {m : Memory} {a b : Nat} {v : Node} {rest : List Node}
    (h : Links m a (v :: rest) b) : a = v.addr := by
  obtain ⟨c, hv, -⟩ := h
  exact hv.1

-- A header at `place` leaves the links of the nodes alone.
def LinksClear (place : Nat) (nodes : List Node) : Prop :=
  ∀ w ∈ nodes, place + 11 ≤ w.addr + 6 ∨ w.addr + 11 ≤ place

end Links

section Walks

variable {m m' : Memory} {a b fuel : Nat}

theorem compactHeap_eq_some {h' : Heap} (hreturns : compactHeap fuel ⟨m, a⟩ = some h') :
    compactFrom fuel m a = some h'.mem ∧ h'.root_node = a := by
  unfold compactHeap at hreturns
  obtain ⟨m', hm', rfl⟩ := Option.map_eq_some_iff.mp hreturns
  exact ⟨hm', rfl⟩

-- The end of an operation that hands a pointer back.
theorem compactHeap_map_eq_some {h' : Heap} {p q : Nat}
    (hreturns : (compactHeap fuel ⟨m, a⟩).map (fun h' => (h', q)) = some (h', p)) :
    p = q ∧ compactFrom fuel m a = some h'.mem ∧ h'.root_node = a := by
  obtain ⟨h₁, hcompact, heq⟩ := Option.map_eq_some_iff.mp hreturns
  obtain ⟨rfl, rfl⟩ := Prod.mk.inj heq
  exact ⟨rfl, compactHeap_eq_some hcompact⟩

-- One turn at a node with a successor.
theorem compactFrom_turn {v w : Node} {rest : List Node} (fuel : Nat)
    (h : Links m a (v :: w :: rest) b) (hv : v.addr ≠ 0) (hw : w.addr ≠ 0) :
    compactFrom (fuel + 1) m a =
      if (!v.allocated && !w.allocated) = true then compactFrom fuel (combineNext m a) a
      else compactFrom fuel m w.addr := by
  obtain ⟨c, ⟨rfl, hallocated, rfl⟩, d, ⟨hc, hallocated', -⟩, -⟩ := h
  rw [compactFrom, if_neg hv, hc, if_neg hw, hallocated, ← hc, hallocated', hc]

-- Where no two neighbours are free, compactHeap only walks on.
theorem compactFrom_walk {front : List Node} {x : Node} (h : Links m a (front ++ [x]) b)
    (hsettled : NoFreeNeighbours (front ++ [x])) (hnull : ∀ v ∈ front ++ [x], v.addr ≠ 0)
    (hreturns : compactFrom fuel m a = some m') :
    ∃ fuel', compactFrom fuel' m x.addr = some m' := by
  induction front generalizing a fuel with
  | nil => exact ⟨fuel, h.head_addr ▸ hreturns⟩
  | cons v front ih =>
      cases fuel with
      | zero => cases hreturns
      | succ fuel =>
          have hrest : ∃ w rest, front ++ [x] = w :: rest := by
            cases front with
            | nil => exact ⟨x, [], rfl⟩
            | cons w rest => exact ⟨w, rest ++ [x], rfl⟩
          obtain ⟨w, rest, hwrest⟩ := hrest
          rw [List.cons_append, hwrest] at h hsettled hnull
          obtain ⟨hneighbours, hsettled'⟩ := List.isChain_cons_cons.mp hsettled
          have hkeep : ¬ (!v.allocated && !w.allocated) = true := by
            rcases hneighbours with hallocated | hallocated
            · simp [hallocated]
            · simp [hallocated]
          rw [compactFrom_turn fuel h (hnull v List.mem_cons_self)
            (hnull w (List.mem_cons_of_mem _ List.mem_cons_self)), if_neg hkeep] at hreturns
          obtain ⟨c, -, hlinks⟩ := h
          have hc := Links.head_addr hlinks
          subst hc
          rw [← hwrest] at hlinks hsettled'
          exact ih hlinks hsettled' (fun u hu => hnull u (List.mem_cons_of_mem _ (hwrest ▸ hu)))
            hreturns

theorem compactFrom_links_settled {nodes : List Node} (h : Links m a nodes 0)
    (hsettled : NoFreeNeighbours nodes) (hreturns : compactFrom fuel m a = some m') : m' = m := by
  induction fuel generalizing a nodes with
  | zero => cases hreturns
  | succ fuel ih =>
      rw [compactFrom] at hreturns
      by_cases hzero : a = 0
      · rw [if_pos hzero] at hreturns
        exact (Option.some.inj hreturns).symm
      rw [if_neg hzero] at hreturns
      by_cases hlast : next_node m a = 0
      · rw [if_pos hlast] at hreturns
        exact (Option.some.inj hreturns).symm
      rw [if_neg hlast] at hreturns
      cases nodes with
      | nil => exact absurd h hzero
      | cons v rest =>
          obtain ⟨b, ⟨-, hallocated, hnext⟩, hrest⟩ := h
          rw [hnext] at hlast hreturns
          cases rest with
          | nil => exact absurd hrest hlast
          | cons w rest =>
              have hlinks := hrest
              obtain ⟨c, ⟨-, hallocated', -⟩, -⟩ := hrest
              obtain ⟨hneighbours, hsettled'⟩ := List.isChain_cons_cons.mp hsettled
              have hkeep : ¬ (!allocated m a && !allocated m b) = true := by
                rw [hallocated, hallocated']
                rcases hneighbours with hallocated | hallocated
                · simp [hallocated]
                · simp [hallocated]
              rw [if_neg hkeep] at hreturns
              exact ih hlinks hsettled' hreturns

-- A free node that links to itself is merged with itself for ever.
theorem compactFrom_self_link (fuel : Nat) (m : Memory) (n : Nat) (hne : n ≠ 0)
    (hn : n < 4294967296) (hfree : allocated m n = false) (hself : next_node m n = n) :
    compactFrom fuel m n = none := by
  induction fuel generalizing m with
  | zero => rfl
  | succ fuel ih =>
      have hcombined : allocated (combineNext m n) n = false ∧ next_node (combineNext m n) n = n := by
        unfold combineNext
        refine ⟨?_, ?_⟩
        · rw [allocated_setNextNode, allocated_setSize, hfree]
        · rw [next_node_setNextNode, next_node_setSize, hself, next_node_setSize, hself,
            Nat.mod_eq_of_lt hn]
      rw [compactFrom, if_neg hne, hself, if_neg hne, hfree,
        if_pos (show (!false && !false) = true from rfl)]
      exact ih _ hcombined.1 hcombined.2

theorem Link.combineNext {a b c : Nat} {v w : Node} (hv : Link m a v b) (hw : Link m b w c)
    (hvtop : v.addr + 11 ≤ 4294967296) (hwtop : w.addr + 11 ≤ 4294967296)
    (hapart : v.addr + 11 ≤ w.addr + 6 ∨ w.addr + 11 ≤ v.addr) (s : Nat) :
    Link (combineNext m a) a { v with size := s } c := by
  obtain ⟨ha, hallocated, hnext⟩ := hv
  have hw' (s : Nat) : next_node (setSize m a s) b = c :=
    (hw.congr (fun i hi hi' => by
      rw [ha]
      exact load8_setSize_of_misses _ _ _ _
        (misses_of_le (by omega) (by omega) (by omega)))).2.2
  have hc : c < 4294967296 := hw.2.2 ▸ load32_lt _ _
  unfold Kheap.combineNext
  refine ⟨ha, ?_, ?_⟩
  · rw [allocated_setNextNode, allocated_setSize, hallocated]
  · rw [next_node_setNextNode, next_node_setSize, hnext, hw', Nat.mod_eq_of_lt hc]

-- compactHeap where only one pair of neighbours is free.
theorem compactFrom_merge_once {front rest : List Node} {x w : Node}
    (hlinks : Links m a (front ++ x :: w :: rest) 0)
    (hfront : NoFreeNeighbours (front ++ [x])) (hrest : NoFreeNeighbours (x :: rest))
    (hx : x.allocated = false) (hw : w.allocated = false)
    (hnull : ∀ u ∈ front ++ [x], u.addr ≠ 0) (hwnull : w.addr ≠ 0)
    (htop : ∀ u ∈ x :: w :: rest, u.addr + 11 ≤ 4294967296) (hclear : LinksClear x.addr (w :: rest))
    (hreturns : compactFrom fuel m a = some m') : m' = combineNext m x.addr := by
  obtain ⟨c, hbefore, d, hxlink, e, hwlink, hafter⟩ := (segment_append _ _ _ _ _).mp hlinks
  have hc := hxlink.1
  subst hc
  have hxtop := htop x List.mem_cons_self
  have hwalk : Links m a (front ++ [x]) d := (segment_append _ _ _ _ _).mpr ⟨_, hbefore, d, hxlink, rfl⟩
  obtain ⟨fuel', hx_returns⟩ := compactFrom_walk hwalk hfront hnull hreturns
  cases fuel' with
  | zero => cases hx_returns
  | succ fuel' =>
      have hpair : Links m x.addr (x :: w :: rest) 0 := ⟨d, hxlink, e, hwlink, hafter⟩
      rw [compactFrom_turn fuel' hpair (hnull x (by simp)) hwnull, if_pos (by simp [hx, hw])]
        at hx_returns
      have hwtop := htop w (List.mem_cons_of_mem _ List.mem_cons_self)
      have hmerged := hxlink.combineNext hwlink hxtop hwtop (hclear w List.mem_cons_self) 0
      have hafter' : Links (combineNext m x.addr) e rest 0 :=
        Links.congr hafter (fun u hu i hi hi' => by
          have hutop := htop u (List.mem_cons_of_mem _ (List.mem_cons_of_mem _ hu))
          have hapart := hclear u (List.mem_cons_of_mem _ hu)
          exact load8_combineNext_of_misses _ _ _
            (misses_of_le hxtop (by omega) (by omega)))
      have hsettled : NoFreeNeighbours ({ x with size := 0 } :: rest) :=
        List.isChain_cons.mpr (List.isChain_cons.mp hrest)
      have hmerged_links : Links (combineNext m x.addr) x.addr ({ x with size := 0 } :: rest) 0 :=
        ⟨e, hmerged, hafter'⟩
      exact compactFrom_links_settled hmerged_links hsettled hx_returns

-- Headers in address order. That of an unallocated node may run over the size
-- of the next one, which compactHeap then never writes to.
def Spaced (v w : Node) : Prop :=
  v.addr + 11 ≤ w.addr ∨ (v.allocated = false ∧ v.addr + 11 ≤ w.addr + 6)

def LinksLaid (nodes : List Node) : Prop :=
  nodes.Pairwise Spaced ∧ ∀ v ∈ nodes, 0 < v.addr ∧ v.addr + 11 ≤ 4294967296

theorem Spaced.links_apart {v w : Node} (h : Spaced v w) : v.addr + 11 ≤ w.addr + 6 := by
  unfold Spaced at h
  omega

theorem Spaced.apart {v w : Node} (h : Spaced v w) (hallocated : v.allocated = true) :
    v.addr + 11 ≤ w.addr := by
  rcases h with hapart | ⟨hfree, -⟩
  · exact hapart
  · rw [hallocated] at hfree
    cases hfree

theorem LinksLaid.tail {v : Node} {rest : List Node} (h : LinksLaid (v :: rest)) : LinksLaid rest :=
  ⟨(List.pairwise_cons.mp h.1).2, fun w hw => h.2 w (List.mem_cons_of_mem _ hw)⟩

theorem linksLaid_append_iff (front back : List Node) :
    LinksLaid (front ++ back) ↔
      LinksLaid front ∧ LinksLaid back ∧ ∀ v ∈ front, ∀ w ∈ back, Spaced v w := by
  unfold LinksLaid
  rw [List.pairwise_append]
  simp only [List.forall_mem_append]
  constructor
  · rintro ⟨⟨hfront, hback, hapart⟩, hfront', hback'⟩
    exact ⟨⟨hfront, hfront'⟩, ⟨hback, hback'⟩, hapart⟩
  · rintro ⟨⟨hfront, hfront'⟩, ⟨hback, hback'⟩, hapart⟩
    exact ⟨⟨hfront, hback, hapart⟩, hfront', hback'⟩

theorem Laid.links {nodes : List Node} (h : Laid nodes) : LinksLaid nodes := by
  refine ⟨(List.pairwise_map.mp h.1).imp fun hapart => .inl hapart, fun v hv => ?_⟩
  exact h.2 v.addr (List.mem_map_of_mem hv)

theorem LinksLaid.merge {v w : Node} {rest : List Node} (h : LinksLaid (v :: w :: rest)) (s : Nat) :
    LinksLaid ({ v with size := s } :: rest) := by
  obtain ⟨hfirst, hrest⟩ := List.pairwise_cons.mp h.1
  refine ⟨List.pairwise_cons.mpr ⟨fun u hu => hfirst u (List.mem_cons_of_mem _ hu),
    (List.pairwise_cons.mp hrest).2⟩, fun u hu => ?_⟩
  rcases List.mem_cons.mp hu with rfl | hu
  · exact h.2 v List.mem_cons_self
  · exact h.2 u (List.mem_cons_of_mem _ (List.mem_cons_of_mem _ hu))

theorem Links.combineNext {v w : Node} {rest : List Node} (h : Links m a (v :: w :: rest) b)
    (hlaid : LinksLaid (v :: w :: rest)) (s : Nat) :
    Links (combineNext m a) a ({ v with size := s } :: rest) b ∧
      ∀ x < 4294967296, x < v.addr ∨ v.addr + 11 ≤ x →
        load8 (Kheap.combineNext m a) x = load8 m x := by
  have hvtop := (hlaid.2 v List.mem_cons_self).2
  have hwtop := (hlaid.2 w (List.mem_cons_of_mem _ List.mem_cons_self)).2
  have hspaced := (List.pairwise_cons.mp hlaid.1).1
  obtain ⟨d, hv, c, hw, hrest⟩ := h
  have ha := hv.1
  have hframe (x : Nat) (hx : x < 4294967296) (hout : x < v.addr ∨ v.addr + 11 ≤ x) :
      load8 (Kheap.combineNext m a) x = load8 m x :=
    load8_combineNext_of_misses _ _ _ (misses_of_le (by omega) hx (by omega))
  have hrest' : Links (Kheap.combineNext m a) c rest b :=
    Links.congr hrest (fun u hu i hi hi' => by
      have hafter := (hspaced u (List.mem_cons_of_mem _ hu)).links_apart
      have htop := (hlaid.tail.tail.2 u hu).2
      exact hframe _ (by omega) (by omega))
  have hvw := (hspaced w List.mem_cons_self).links_apart
  exact ⟨⟨c, hv.combineNext hw hvtop hwtop (.inl hvw) s, hrest'⟩, hframe⟩

-- compactFrom_chain for links: the same nodes merge, whatever sizes they read.
theorem compactFrom_links (fuel a : Nat) (m m' : Memory) (v : Node) (rest : List Node)
    (hlinks : Links m a (v :: rest) 0) (hlaid : LinksLaid (v :: rest))
    (hreturns : compactFrom fuel m a = some m') :
    Links m' a (mergeNodes v rest) 0 ∧
      ∀ x < 4294967296, (∀ w ∈ v :: rest, w.allocated = false → x < w.addr ∨ w.addr + 11 ≤ x) →
        load8 m' x = load8 m x := by
  induction fuel generalizing a m v rest with
  | zero => cases hreturns
  | succ fuel ih =>
      obtain ⟨hvpos, hvtop⟩ := hlaid.2 v List.mem_cons_self
      cases rest with
      | nil =>
          have hsame := compactFrom_links_settled hlinks (List.isChain_singleton v) hreturns
          subst hsame
          exact ⟨hlinks, fun _ _ _ => rfl⟩
      | cons w rest =>
          have hwpos := (hlaid.2 w (List.mem_cons_of_mem _ List.mem_cons_self)).1
          obtain ⟨hspaced, hlater⟩ := List.pairwise_cons.mp hlaid.1
          rw [compactFrom_turn fuel hlinks (by omega) (by omega)] at hreturns
          unfold mergeNodes
          by_cases hfree : (!v.allocated && !w.allocated) = true
          · rw [if_pos hfree] at hreturns ⊢
            simp only [Bool.and_eq_true, Bool.not_eq_true'] at hfree
            obtain ⟨hmerged, hframe⟩ :=
              hlinks.combineNext hlaid ((v.size + (11 + w.size)) % 4294967296)
            obtain ⟨hresult, hsame⟩ := ih _ _ _ _ hmerged (hlaid.merge _) hreturns
            refine ⟨hresult, fun x hx hout => ?_⟩
            have hvout := hout v List.mem_cons_self hfree.1
            rw [hsame x hx ?_, hframe x hx hvout]
            intro u hu hu'
            rcases List.mem_cons.mp hu with rfl | hu
            · exact hvout
            · exact hout u (List.mem_cons_of_mem _ (List.mem_cons_of_mem _ hu)) hu'
          · rw [if_neg hfree] at hreturns ⊢
            obtain ⟨b, hv, hnext⟩ := hlinks
            have hb := Links.head_addr hnext
            subst hb
            obtain ⟨hresult, hsame⟩ := ih _ _ _ _ hnext hlaid.tail hreturns
            refine ⟨⟨w.addr, hv.congr (fun i hi hi' => ?_), hresult⟩, fun x hx hout =>
              hsame x hx (fun u hu hu' => hout u (List.mem_cons_of_mem _ hu) hu')⟩
            refine hsame _ (by omega) (fun u hu hu' => ?_)
            -- An unallocated node keeps its link: the node after it is allocated.
            cases hvallocated : v.allocated with
            | true =>
                have := (hspaced u hu).apart hvallocated
                omega
            | false =>
                have hwallocated : w.allocated = true := by simpa [hvallocated] using hfree
                rcases List.mem_cons.mp hu with rfl | hu
                · rw [hwallocated] at hu'
                  cases hu'
                · have hvw := (hspaced w List.mem_cons_self).links_apart
                  have hwu := ((List.pairwise_cons.mp hlater).1 u hu).apart hwallocated
                  omega

theorem compactFrom_nodes {nodes : List Node} (hlinks : Links m a nodes 0)
    (hlaid : LinksLaid nodes) (hreturns : compactFrom fuel m a = some m') :
    Links m' a (compactNodes nodes) 0 ∧
      ∀ x < 4294967296, (∀ w ∈ nodes, w.allocated = false → x < w.addr ∨ w.addr + 11 ≤ x) →
        load8 m' x = load8 m x := by
  cases nodes with
  | nil =>
      have hsame := compactFrom_links_settled hlinks List.IsChain.nil hreturns
      subst hsame
      exact ⟨hlinks, fun _ _ _ => rfl⟩
  | cons v rest => exact compactFrom_links fuel a m m' v rest hlinks hlaid hreturns

-- compactHeap comes to every allocated node of the chain, merging before it.
theorem compactFrom_passes (fuel a : Nat) (m m' : Memory) (front : List Node) (x : Node)
    (hlinks : Links m a (front ++ [x]) b) (hlaid : LinksLaid (front ++ [x]))
    (hx : x.allocated = true) (hreturns : compactFrom fuel m a = some m') :
    ∃ fuel' m₁, compactFrom fuel' m₁ x.addr = some m' ∧
      ∀ y < 4294967296, (∀ w ∈ front, w.allocated = false → y < w.addr ∨ w.addr + 11 ≤ y) →
        load8 m₁ y = load8 m y := by
  induction fuel generalizing a m front with
  | zero => cases hreturns
  | succ fuel ih =>
      have hnull : ∀ u ∈ front ++ [x], u.addr ≠ 0 := fun u hu => Nat.ne_of_gt (hlaid.2 u hu).1
      cases front with
      | nil => exact ⟨fuel + 1, m, hlinks.head_addr ▸ hreturns, fun _ _ _ => rfl⟩
      | cons v front =>
          cases front with
          | nil =>
              rw [compactFrom_turn fuel hlinks (hnull v (by simp)) (hnull x (by simp)),
                if_neg (by simp [hx])] at hreturns
              exact ⟨fuel, m, hreturns, fun _ _ _ => rfl⟩
          | cons w front =>
              simp only [List.cons_append] at hlinks hlaid
              rw [compactFrom_turn fuel hlinks (hnull v (by simp)) (hnull w (by simp))] at hreturns
              by_cases hfree : (!v.allocated && !w.allocated) = true
              · rw [if_pos hfree] at hreturns
                simp only [Bool.and_eq_true, Bool.not_eq_true'] at hfree
                obtain ⟨hmerged, hframe⟩ := hlinks.combineNext hlaid 0
                obtain ⟨fuel', m₁, hpassed, hsame⟩ :=
                  ih _ _ ({ v with size := 0 } :: front) hmerged (hlaid.merge 0) hreturns
                refine ⟨fuel', m₁, hpassed, fun y hy hout => ?_⟩
                have hvout := hout v List.mem_cons_self hfree.1
                rw [hsame y hy ?_, hframe y hy hvout]
                intro u hu hu'
                rcases List.mem_cons.mp hu with rfl | hu
                · exact hvout
                · exact hout u (List.mem_cons_of_mem _ (List.mem_cons_of_mem _ hu)) hu'
              · rw [if_neg hfree] at hreturns
                obtain ⟨c, -, hnext⟩ := hlinks
                have hc := Links.head_addr hnext
                subst hc
                obtain ⟨fuel', m₁, hpassed, hsame⟩ :=
                  ih _ _ (w :: front) hnext hlaid.tail hreturns
                exact ⟨fuel', m₁, hpassed, fun y hy hout =>
                  hsame y hy (fun u hu => hout u (List.mem_cons_of_mem _ hu))⟩

-- A header split off over the next one links to itself, and compactHeap stays there.
theorem compactFrom_overlaid (fuel : Nat) (v : Node) {front : List Node}
    (hfront : Links m a front v.addr) (hblock : Chain m v.addr (consumeNodes v b) b)
    (hlaid : LinksLaid (front ++ [v])) (hv : v.allocated = true) (hsplit : 11 < unaccounted v b)
    (hplace : splitAddr v = b) (hb : b ≠ 0) (hafter : v.addr + 11 ≤ b) (htop : b + 11 ≤ 4294967296) :
    compactFrom fuel m a = none := by
  unfold consumeNodes at hblock
  rw [if_pos hsplit, hplace] at hblock
  obtain ⟨c, hholds, d, hnew, rfl⟩ := hblock
  have hc := hnew.1
  dsimp only at hc
  subst hc
  cases hreturns : compactFrom fuel m a with
  | none => rfl
  | some m' =>
      have hlinks : Links m a (front ++ [v]) c :=
        (segment_append _ _ _ _ _).mpr ⟨_, hfront, c, hholds.link, rfl⟩
      obtain ⟨fuel', m₁, hpassed, hsame⟩ := compactFrom_passes _ _ _ _ _ _ hlinks hlaid hv hreturns
      have hbefore : ∀ u ∈ front, u.addr + 11 ≤ v.addr + 6 := fun u hu =>
        ((List.pairwise_append.mp hlaid.1).2.2 u hu v (List.mem_singleton_self v)).links_apart
      have hv₁ : Link m₁ v.addr v c :=
        hholds.link.congr (fun i hi hi' => hsame _ (by omega) (fun u hu _ => by
          have := hbefore u hu
          omega))
      have hnew₁ : Link m₁ c ⟨c, unaccounted v c - 11, false⟩ c := hnew.link.congr (fun i hi hi' => by
        dsimp only
        refine hsame _ (by omega) (fun u hu _ => ?_)
        have := hbefore u hu
        omega)
      have hlinks₁ : Links m₁ v.addr [v, ⟨c, unaccounted v c - 11, false⟩] c :=
        ⟨c, hv₁, c, hnew₁, rfl⟩
      cases fuel' with
      | zero => cases hpassed
      | succ fuel' =>
          have hvpos := (hlaid.2 v (List.mem_append_right _ (List.mem_singleton_self v))).1
          rw [compactFrom_turn fuel' hlinks₁ (by omega) hb, if_neg (by simp [hv]),
            compactFrom_self_link _ _ _ hb (by omega) hnew₁.2.1 hnew₁.2.2] at hpassed
          cases hpassed

end Walks

end PalleyOS.Kheap
