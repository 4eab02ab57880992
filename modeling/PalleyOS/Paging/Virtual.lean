import PalleyOS.Machine.Pages
import PalleyOS.Machine.Search
import PalleyOS.Paging.Theorems

namespace PalleyOS.Paging

-- The processor's way from a virtual address to memory, with the fault handler
-- behind it.
section Translation

def user (entry : Nat) : Bool := entry.testBit 2

-- A user program may use a page that is present, writable and its own. Entries
-- without the size bit would lead to page tables, which the kernel has none of.
def accessible (entry : Nat) : Bool :=
  present entry && writable entry && user entry && large entry

def translate (memory : Memory) (a : UInt32) : Option Nat :=
  let entry := memory.page_directory (getVirtualFrameNumber a)
  if accessible entry then some (frameNumber entry * FRAME_SIZE + a.toNat % FRAME_SIZE) else none

-- After the handler the instruction starts again. `none` is a halt, or a fault
-- at every try.
def reach : Nat → Memory → UInt32 → Option (Memory × Nat)
  | 0, _, _ => none
  | tries + 1, memory, a =>
      match translate memory a with
      | some physical_address => some (memory, physical_address)
      | none => (handle_page_fault memory a).bind fun memory => reach tries memory a

structure Computer where
  memory : Memory
  ram : Nat → UInt8

inductive Access where
  | load (a : UInt32)
  | store (a : UInt32) (byte : UInt8)

-- The low page holds the kernel and the page directory itself, which `ram` does not
-- show.
def Access.Spares : Access → Prop
  | .load a => FRAME_SIZE ≤ a.toNat
  | .store a _ => FRAME_SIZE ≤ a.toNat

instance : DecidablePred Access.Spares
  | .load a => inferInstanceAs (Decidable (FRAME_SIZE ≤ a.toNat))
  | .store a _ => inferInstanceAs (Decidable (FRAME_SIZE ≤ a.toNat))

def access : Access → Option Computer → Option Computer × Option UInt8
  | _, none => (none, none)
  | .load a, some s =>
      match reach 2 s.memory a with
      | none => (none, none)
      | some (memory, physical_address) =>
          (some { s with memory := memory }, some (s.ram physical_address))
  | .store a byte, some s =>
      match reach 2 s.memory a with
      | none => (none, none)
      | some (memory, physical_address) =>
          (some { memory := memory, ram := Function.update s.ram physical_address byte },
            some byte)

end Translation

-- The frames that faults get, in their order.
section Frames

def regionCandidates (region : Physical_Memory_Region) : List Nat :=
  let address := region.address.toNat
  let size := region.size.toNat
  let frame_start := ((address &&& (2 ^ 32 - 1 - (FRAME_SIZE - 1))) + FRAME_SIZE) % 2 ^ 32
  if (address + size) % 2 ^ 32 < frame_start then []
  else
    let remaining_size := (size + 2 ^ 32 - (frame_start + 2 ^ 32 - address) % 2 ^ 32) % 2 ^ 32
    (List.range (remaining_size / FRAME_SIZE % 256)).map fun frame =>
      get_physical_frame_number ((frame_start + frame * FRAME_SIZE) % 2 ^ 32)

def candidates (memory : Memory) : Nat → Nat → List Nat
  | 0, _ => []
  | rounds + 1, region_index =>
      if region_index < memory.physical_memory_region_count.toNat then
        regionCandidates (memory.physical_memory_regions region_index) ++
          candidates memory rounds ((region_index + 1) % 256)
      else []

def framesLeft (memory : Memory) : List Nat :=
  Machine.handOut (candidates memory 256 0) (is_frame_used memory)

def mapped (memory : Memory) (a : UInt32) (pfn : Nat) : Memory :=
  { setFrameUsed memory pfn with
    page_directory := Function.update memory.page_directory (getVirtualFrameNumber a)
      (userEntry pfn) }

theorem scanRegion_eq_find? (memory : Memory) (region : Physical_Memory_Region) :
    scanRegion memory region =
      (regionCandidates region).find? (fun pfn => !is_frame_used memory pfn) := by
  unfold scanRegion regionCandidates
  dsimp only
  split
  · rfl
  · exact Machine.findSome?_ite_eq_find? (is_frame_used memory) _ _

theorem scanRegions_eq_find? (memory : Memory) (rounds region_index : Nat) :
    scanRegions memory rounds region_index =
      (candidates memory rounds region_index).find? (fun pfn => !is_frame_used memory pfn) := by
  induction rounds generalizing region_index with
  | zero => rfl
  | succ rounds ih =>
      rw [scanRegions, candidates]
      split
      · rw [scanRegion_eq_find?, ih, List.find?_append]
      · rfl

theorem handle_page_fault_eq_mapped (memory : Memory) (a : UInt32) :
    handle_page_fault memory a = (framesLeft memory).head?.map (mapped memory a) := by
  rw [handle_page_fault_eq, framesLeft, Machine.head?_handOut, scanRegions_eq_find?]
  rfl

theorem is_frame_used_mapped (memory : Memory) (a : UInt32) (pfn other : Nat) :
    is_frame_used (mapped memory a pfn) other =
      (decide (other = pfn) || is_frame_used memory other) :=
  is_frame_used_setFrameUsed memory pfn other

theorem candidates_mapped (memory : Memory) (a : UInt32) (pfn rounds region_index : Nat) :
    candidates (mapped memory a pfn) rounds region_index =
      candidates memory rounds region_index := by
  induction rounds generalizing region_index with
  | zero => rfl
  | succ rounds ih =>
      rw [candidates, candidates, ih]
      rfl

theorem framesLeft_mapped {memory : Memory} {pfn : Nat} {more : List Nat} (a : UInt32)
    (h : framesLeft memory = pfn :: more) : framesLeft (mapped memory a pfn) = more := by
  rw [framesLeft, candidates_mapped, funext (is_frame_used_mapped memory a pfn)]
  exact Machine.handOut_of_cons _ _ _ _ h

theorem not_used_of_mem_framesLeft {memory : Memory} {pfn : Nat} (h : pfn ∈ framesLeft memory) :
    is_frame_used memory pfn = false :=
  (Machine.mem_handOut _ _ _ h).2

theorem lt_of_framesLeft {memory : Memory} {pfn : Nat} {more : List Nat}
    (h : framesLeft memory = pfn :: more) : pfn < 1024 := by
  have hscan : scanRegions memory 256 0 = some pfn := by
    rw [scanRegions_eq_find?, ← Machine.head?_handOut, ← framesLeft, h]
    rfl
  exact (scanRegions_clear memory 256 0 pfn hscan).1

end Frames

section Pages

abbrev VirtualPages : Type := Machine.Pages (Fin 1024) (Fin FRAME_SIZE) UInt8

def pageOf (ram : Nat → UInt8) (pfn : Nat) : Fin FRAME_SIZE → UInt8 :=
  fun offset => ram (pfn * FRAME_SIZE + offset)

def vpnOf (a : UInt32) : Fin 1024 := ⟨getVirtualFrameNumber a, getVirtualFrameNumber_lt a⟩

def offsetOf (a : UInt32) : Fin FRAME_SIZE := ⟨a.toNat % FRAME_SIZE, Nat.mod_lt _ (by decide)⟩

def Access.virtual : Access → Machine.Access (Fin 1024) (Fin FRAME_SIZE) UInt8
  | .load a => .load (vpnOf a) (offsetOf a)
  | .store a byte => .store (vpnOf a) (offsetOf a) byte

structure Backs (s : Computer) (m : VirtualPages) : Prop where
  owned : FramesOwned s.memory
  entries : ∀ i < 1024, s.memory.page_directory i = 0 ∨
    ∃ pfn < 1024, s.memory.page_directory i = userEntry pfn
  low : s.memory.page_directory 0 = userEntry 0
  page : ∀ i : Fin 1024, m.page i =
    if present (s.memory.page_directory i) then
      some (pageOf s.ram (frameNumber (s.memory.page_directory i)))
    else none
  fresh : m.fresh = (framesLeft s.memory).map (pageOf s.ram)

theorem accessible_userEntry (pfn : Nat) : accessible (userEntry pfn) = true := by
  have huser : user (userEntry pfn) = true := by
    unfold user
    rw [userEntry_testBit, show (135 : Nat).testBit 2 = true by decide, Bool.or_true]
  rw [accessible, present_userEntry, writable_userEntry, huser, large_userEntry]
  rfl

theorem translate_of_userEntry {memory : Memory} {a : UInt32} {pfn : Nat} (hpfn : pfn < 1024)
    (h : memory.page_directory (getVirtualFrameNumber a) = userEntry pfn) :
    translate memory a = some (pfn * FRAME_SIZE + offsetOf a) := by
  rw [translate, h, accessible_userEntry, frameNumber_userEntry pfn hpfn]
  rfl

theorem translate_of_zero {memory : Memory} {a : UInt32}
    (h : memory.page_directory (getVirtualFrameNumber a) = 0) : translate memory a = none := by
  rw [translate, h]
  rfl

theorem pageOf_update (ram : Nat → UInt8) (pfn : Nat) (offset : Fin FRAME_SIZE) (byte : UInt8) :
    pageOf (Function.update ram (pfn * FRAME_SIZE + offset) byte) pfn =
      Function.update (pageOf ram pfn) offset byte := by
  funext k
  unfold pageOf
  by_cases hk : k = offset
  · subst k
    rw [Function.update_self, Function.update_self]
  · have hne : pfn * FRAME_SIZE + (k : Nat) ≠ pfn * FRAME_SIZE + offset := fun he =>
      hk (Fin.ext (Nat.add_left_cancel he))
    rw [Function.update_of_ne hk, Function.update_of_ne hne]

theorem pageOf_update_of_ne (ram : Nat → UInt8) {pfn other : Nat} (hne : other ≠ pfn)
    (offset : Fin FRAME_SIZE) (byte : UInt8) :
    pageOf (Function.update ram (pfn * FRAME_SIZE + offset) byte) other = pageOf ram other := by
  funext k
  have hplace : other * FRAME_SIZE + (k : Nat) ≠ pfn * FRAME_SIZE + offset := by
    intro he
    have hk := k.isLt
    have hoffset := offset.isLt
    unfold FRAME_SIZE at *
    omega
  exact Function.update_of_ne hplace ..

-- The frame that a fault gets becomes the page's storage.
theorem Backs.mapped {s : Computer} {m : VirtualPages} (h : Backs s m) (a : UInt32)
    {pfn : Nat} {more : List Nat} (hleft : framesLeft s.memory = pfn :: more)
    (hzero : s.memory.page_directory (getVirtualFrameNumber a) = 0) :
    Backs { s with memory := mapped s.memory a pfn }
      { page := Function.update m.page (vpnOf a) (some (pageOf s.ram pfn))
        fresh := more.map (pageOf s.ram) } := by
  have hfault : handle_page_fault s.memory a = some (Paging.mapped s.memory a pfn) := by
    rw [handle_page_fault_eq_mapped, hleft]
    rfl
  have hlt := lt_of_framesLeft hleft
  refine ⟨fault_keeps_owned _ _ a h.owned hfault, fun i hi => ?_, ?_, fun i => ?_, ?_⟩
  · change Function.update s.memory.page_directory _ _ i = 0 ∨ _
    by_cases hvpn : i = getVirtualFrameNumber a
    · exact .inr ⟨pfn, hlt, by rw [hvpn]; exact Function.update_self ..⟩
    · rcases h.entries i hi with hempty | ⟨frame, hframe, hentry⟩
      · exact .inl ((Function.update_of_ne hvpn ..).trans hempty)
      · exact .inr ⟨frame, hframe, (Function.update_of_ne hvpn ..).trans hentry⟩
  · have hvpn : 0 ≠ getVirtualFrameNumber a := by
      intro he
      rw [← he, h.low] at hzero
      have hpresent := present_userEntry 0
      rw [hzero] at hpresent
      exact absurd hpresent (by decide)
    exact (Function.update_of_ne hvpn ..).trans h.low
  · change Function.update m.page _ _ i =
      if present (Function.update s.memory.page_directory _ _ i) then
        some (pageOf s.ram (frameNumber (Function.update s.memory.page_directory _ _ i))) else none
    by_cases hvpn : i = vpnOf a
    · have hvalue : (i : Nat) = getVirtualFrameNumber a := congrArg Fin.val hvpn
      rw [hvalue, hvpn, Function.update_self, Function.update_self, present_userEntry, if_pos rfl,
        frameNumber_userEntry pfn hlt]
    · have hvalue : (i : Nat) ≠ getVirtualFrameNumber a := fun he => hvpn (Fin.ext he)
      rw [Function.update_of_ne hvpn, Function.update_of_ne hvalue]
      exact h.page i
  · exact congrArg (List.map (pageOf s.ram)) (framesLeft_mapped a hleft).symm

-- One fault at most is between an access and its page.
theorem Backs.reach {s : Computer} {m : VirtualPages} (h : Backs s m) (a : UInt32) :
    (reach 2 s.memory a = none ∧ m.reach (vpnOf a) = none) ∨
    ∃ memory pfn m', reach 2 s.memory a = some (memory, pfn * FRAME_SIZE + offsetOf a) ∧
      m.reach (vpnOf a) = some (m', pageOf s.ram pfn) ∧
      Backs { s with memory := memory } m' ∧ pfn < 1024 ∧
      memory.page_directory (getVirtualFrameNumber a) = userEntry pfn := by
  have hpage : m.page (vpnOf a) =
      if present (s.memory.page_directory (getVirtualFrameNumber a)) then
        some (pageOf s.ram (frameNumber (s.memory.page_directory (getVirtualFrameNumber a))))
      else none := h.page (vpnOf a)
  rcases h.entries _ (getVirtualFrameNumber_lt a) with hzero | ⟨pfn, hlt, hentry⟩
  · have hnone : m.page (vpnOf a) = none := by
      rw [hpage, hzero]
      exact if_neg (by decide)
    rw [Paging.reach, translate_of_zero hzero, handle_page_fault_eq_mapped, Machine.Pages.reach,
      hnone, h.fresh]
    cases hleft : framesLeft s.memory with
    | nil => exact .inl ⟨rfl, rfl⟩
    | cons pfn more =>
        have hbacks := h.mapped a hleft hzero
        have hself : (Paging.mapped s.memory a pfn).page_directory (getVirtualFrameNumber a) =
            userEntry pfn := Function.update_self ..
        have hlt := lt_of_framesLeft hleft
        refine .inr ⟨_, pfn, _, ?_, rfl, hbacks, hlt, hself⟩
        simp only [List.head?_cons, Option.map_some, Option.bind_some, Paging.reach]
        rw [translate_of_userEntry hlt hself]
  · have hsome : m.page (vpnOf a) = some (pageOf s.ram pfn) := by
      rw [hpage, hentry, present_userEntry, if_pos rfl, frameNumber_userEntry pfn hlt]
    rw [Paging.reach, translate_of_userEntry hlt hentry, Machine.Pages.reach, hsome]
    exact .inr ⟨s.memory, pfn, m, rfl, rfl, h, hlt, hentry⟩

-- A store changes one page and no frame that is still to be given out.
theorem Backs.stored {s : Computer} {m : VirtualPages} (h : Backs s m) (a : UInt32) (byte : UInt8)
    {pfn : Nat} (hlt : pfn < 1024)
    (hentry : s.memory.page_directory (getVirtualFrameNumber a) = userEntry pfn) :
    Backs { s with ram := Function.update s.ram (pfn * FRAME_SIZE + offsetOf a) byte }
      { m with
        page := Function.update m.page (vpnOf a)
          (some (Function.update (pageOf s.ram pfn) (offsetOf a) byte)) } := by
  have hpresent : present (s.memory.page_directory (getVirtualFrameNumber a)) = true := by
    rw [hentry]
    exact present_userEntry pfn
  have hframe : frameNumber (s.memory.page_directory (getVirtualFrameNumber a)) = pfn := by
    rw [hentry]
    exact frameNumber_userEntry pfn hlt
  refine ⟨h.owned, h.entries, h.low, fun i => ?_, ?_⟩
  · dsimp only
    by_cases hvpn : i = vpnOf a
    · have hvalue : (i : Nat) = getVirtualFrameNumber a := congrArg Fin.val hvpn
      rw [hvalue, hpresent, if_pos rfl, hframe, hvpn, Function.update_self, pageOf_update]
    · have hvalue : (i : Nat) ≠ getVirtualFrameNumber a := fun he => hvpn (Fin.ext he)
      rw [Function.update_of_ne hvpn, h.page i]
      by_cases hi : present (s.memory.page_directory i) = true
      · have hother := h.owned.distinct i i.isLt _ (getVirtualFrameNumber_lt a) hvalue hi hpresent
        rw [hframe] at hother
        rw [if_pos hi, if_pos hi, pageOf_update_of_ne s.ram hother]
      · rw [if_neg hi, if_neg hi]
  · refine h.fresh.trans (List.map_congr_left (fun other hother => ?_))
    have hused := h.owned.used _ (getVirtualFrameNumber_lt a) hpresent
    have hne : other ≠ pfn := by
      rintro rfl
      rw [hframe, not_used_of_mem_framesLeft hother] at hused
      cases hused
    exact (pageOf_update_of_ne s.ram hne (offsetOf a) byte).symm

-- A computer that still runs is backed, and its low page is what it was.
def Runs (ram : Nat → UInt8) : Option Computer → Option VirtualPages → Prop
  | some s, some m => Backs s m ∧ ∀ x < FRAME_SIZE, s.ram x = ram x
  | none, none => True
  | _, _ => False

theorem access_refines (ram : Nat → UInt8) :
    Machine.Refines (Runs ram) Access.Spares access (fun op => Machine.Pages.access op.virtual) := by
  intro op s m hop hruns
  obtain _ | s := s <;> obtain _ | m := m
  · cases op <;> exact ⟨rfl, trivial⟩
  · exact absurd hruns id
  · exact absurd hruns id
  · obtain ⟨hbacks, hlow⟩ := hruns
    cases op with
    | load a =>
        dsimp only [access, Access.virtual, Machine.Pages.access]
        rcases hbacks.reach a with ⟨hnone, hnone'⟩ | ⟨memory, pfn, m', hsome, hsome', hnext, -, -⟩
        · rw [hnone, hnone']
          exact ⟨rfl, trivial⟩
        · rw [hsome, hsome']
          exact ⟨rfl, hnext, hlow⟩
    | store a byte =>
        dsimp only [access, Access.virtual, Machine.Pages.access]
        rcases hbacks.reach a with ⟨hnone, hnone'⟩ |
          ⟨memory, pfn, m', hsome, hsome', hnext, hlt, hentry⟩
        · rw [hnone, hnone']
          exact ⟨rfl, trivial⟩
        · rw [hsome, hsome']
          refine ⟨rfl, hnext.stored a byte hlt hentry, fun x hx => ?_⟩
          -- The frame is not frame 0, which page 0 owns.
          have hvpn : getVirtualFrameNumber a ≠ 0 := by
            have hspares : FRAME_SIZE ≤ a.toNat := hop
            unfold getVirtualFrameNumber
            rw [Nat.shiftRight_eq_div_pow]
            unfold FRAME_SIZE at hspares
            omega
          have hframe : pfn ≠ 0 := by
            have hdistinct := hnext.owned.distinct _ (getVirtualFrameNumber_lt a) 0 (by omega) hvpn
            rw [hentry, hnext.low, present_userEntry, present_userEntry,
              frameNumber_userEntry pfn hlt, frameNumber_userEntry 0 (by omega)] at hdistinct
            exact hdistinct rfl rfl
          have hplace : x ≠ pfn * FRAME_SIZE + offsetOf a := by
            unfold FRAME_SIZE at hx ⊢
            omega
          exact (Function.update_of_ne hplace ..).trans (hlow x hx)

-- The pages of a fresh start: the low one, and the frames that faults will get.
def startPages (started : Memory) (ram : Nat → UInt8) : VirtualPages where
  page i := if i = 0 then some (pageOf ram 0) else none
  fresh := (framesLeft started).map (pageOf ram)

theorem setupPaging_backs (memory started : Memory) (hsetup : setupPaging memory = some started)
    (ram : Nat → UInt8) :
    Backs { memory := started, ram := ram } (startPages started ram) := by
  obtain ⟨hdir, -⟩ := setupPaging_eq memory started hsetup
  have hlow : started.page_directory 0 = userEntry 0 := by
    rw [hdir]
    exact Function.update_self ..
  have hzero (i : Nat) (hi : i < 1024) (hne : i ≠ 0) : started.page_directory i = 0 := by
    rw [hdir, Function.update_of_ne hne, if_pos hi]
  refine ⟨setupPaging_owned memory started hsetup, fun i hi => ?_, hlow, fun i => ?_, rfl⟩
  · by_cases hi0 : i = 0
    · subst i
      exact .inr ⟨0, by omega, hlow⟩
    · exact .inl (hzero i hi hi0)
  · by_cases hi0 : i = 0
    · subst i
      change some (pageOf ram 0) = if present (started.page_directory 0) then
        some (pageOf ram (frameNumber (started.page_directory 0))) else none
      rw [hlow, present_userEntry, if_pos rfl, frameNumber_userEntry 0 (by omega)]
    · have hvalue : (i : Nat) ≠ 0 := fun he => hi0 (Fin.ext he)
      dsimp only [startPages]
      rw [if_neg hi0, hzero i i.isLt hvalue]
      exact (if_neg (by decide)).symm

-- With the fault handler behind it, the processor gives every page it is asked
-- for storage of its own, and stands still when the frames run out. The low page
-- stays as it was.
theorem virtual_memory_refines_pages (memory started : Memory)
    (hsetup : setupPaging memory = some started) (ram : Nat → UInt8) (accesses : List Access)
    (hspares : ∀ op ∈ accesses, op.Spares) :
    Machine.answers access (some { memory := started, ram := ram }) accesses =
        Machine.answers Machine.Pages.access (some (startPages started ram))
          (accesses.map Access.virtual) ∧
      ∀ s, Machine.finalState access (some { memory := started, ram := ram }) accesses = some s →
        ∀ x < FRAME_SIZE, s.ram x = ram x := by
  have hstart : Runs ram (some { memory := started, ram := ram }) (some (startPages started ram)) :=
    ⟨setupPaging_backs memory started hsetup ram, fun _ _ => rfl⟩
  obtain ⟨hanswers, hfinal⟩ := (access_refines ram).answers_eq hstart accesses hspares
  refine ⟨?_, fun s hs x hx => ?_⟩
  · rw [hanswers, Machine.answers_map]
  · rw [hs] at hfinal
    cases hm : Machine.finalState (fun op => Machine.Pages.access op.virtual)
        (some (startPages started ram)) accesses with
    | none =>
        rw [hm] at hfinal
        exact absurd hfinal id
    | some m =>
        rw [hm] at hfinal
        exact hfinal.2 x hx

-- Three stores with loads between them: the heap's first page, one far above
-- it, and the first again.
theorem virtual_memory_refines_pages_small :
    ∃ started, setupPaging smallMemory = some started ∧
      Machine.answers access (some { memory := started, ram := fun _ => 0 })
          [.store 0xf000000 7, .store 0xc0000010 8, .load 0xf000000, .store 0xf000000 9] =
        Machine.answers Machine.Pages.access (some (startPages started fun _ => 0))
          (([.store 0xf000000 7, .store 0xc0000010 8, .load 0xf000000,
            .store 0xf000000 9] : List Access).map Access.virtual) := by
  have hsome : (setupPaging smallMemory).isSome = true := by decide
  obtain ⟨started, hsetup⟩ := Option.isSome_iff_exists.mp hsome
  exact ⟨started, hsetup,
    (virtual_memory_refines_pages smallMemory started hsetup _ _ (by decide)).1⟩

theorem access_injective (a b : UInt32) (hpage : vpnOf a = vpnOf b)
    (hoffset : offsetOf a = offsetOf b) : a = b := by
  have hvpn : a.toNat / 2 ^ 22 = b.toNat / 2 ^ 22 := by
    have h := congrArg Fin.val hpage
    simpa only [vpnOf, getVirtualFrameNumber, Nat.shiftRight_eq_div_pow] using h
  have hrest : a.toNat % 2 ^ 22 = b.toNat % 2 ^ 22 := congrArg Fin.val hoffset
  apply UInt32.toNat_inj.mp
  omega

-- What was stored is loaded again, however many faults and other accesses come
-- between, unless the machine stands still.
theorem stored_byte_is_loaded (memory started : Memory)
    (hsetup : setupPaging memory = some started) (ram : Nat → UInt8) (before after : List Access)
    (a : UInt32) (byte : UInt8)
    (hspares : ∀ op ∈ before ++ .store a byte :: after, op.Spares)
    (hafter : ∀ other, .store a other ∉ after) (answer : UInt8)
    (hanswer : (access (.load a) (Machine.finalState access (some { memory := started, ram := ram })
      (before ++ .store a byte :: after))).2 = some answer) :
    answer = byte := by
  have hstart : Runs ram (some { memory := started, ram := ram }) (some (startPages started ram)) :=
    ⟨setupPaging_backs memory started hsetup ram, fun _ _ => rfl⟩
  have hrefines := access_refines ram
  obtain ⟨-, hfinal⟩ := hrefines.answers_eq hstart _ hspares
  have hplace : (Access.load a).Spares :=
    hspares (.store a byte) (List.mem_append_right _ List.mem_cons_self)
  obtain ⟨hload, -⟩ := hrefines (.load a) _ _ hplace hfinal
  have hholds : Machine.Pages.Holds (vpnOf a) (offsetOf a) byte
      (Machine.finalState (fun op => Machine.Pages.access (Access.virtual op))
        (some (startPages started ram)) (before ++ .store a byte :: after)) := by
    rw [Machine.finalState_append]
    refine Machine.finalState_invariant _ _ _ after (fun op hop s hs => ?_)
      (Machine.Pages.holds_store (vpnOf a) (offsetOf a) byte _)
    refine hs.access (Access.virtual op) (fun other hsame => ?_)
    cases op with
    | load b => cases hsame
    | store b c =>
        injection hsame with hpage hoffset
        exact hafter c (access_injective b a hpage hoffset ▸ hop)
  rw [hload] at hanswer
  rcases hholds.load with hnone | hsome
  · exact absurd (hnone.symm.trans hanswer) (by simp)
  · exact Option.some.inj (hanswer.symm.trans hsome)

theorem stored_byte_is_loaded_small :
    ∃ started, setupPaging smallMemory = some started ∧
      (access (.load 0xf000000)
        (Machine.finalState access (some { memory := started, ram := fun _ => 0 })
          ([.store 0xf000001 3] ++ .store 0xf000000 7 :: [.store 0xc0000000 8]))).2 = some 7 := by
  have hsome : ((setupPaging smallMemory).bind fun started =>
      (access (.load 0xf000000)
        (Machine.finalState access (some { memory := started, ram := fun _ => 0 })
          ([.store 0xf000001 3] ++ .store 0xf000000 7 :: [.store 0xc0000000 8]))).2).isSome =
        true := by decide
  obtain ⟨answer, hanswer⟩ := Option.isSome_iff_exists.mp hsome
  obtain ⟨started, hsetup, hloaded⟩ := Option.bind_eq_some_iff.mp hanswer
  have hseven := stored_byte_is_loaded smallMemory started hsetup (fun _ => 0) [.store 0xf000001 3]
    [.store 0xc0000000 8] 0xf000000 7 (by decide) (by simp) answer hloaded
  exact ⟨started, hsetup, hseven ▸ hloaded⟩

end Pages

end PalleyOS.Paging
