import BasicKernel.Kernel.Boot
import BasicKernel.Memory.Runs

set_option autoImplicit false

/-! # Ownership of pages

The kernel's objects own their pages: each was returned by `allocate` and not given back, no
two of them overlap. `Owns m bs` says so of a list of pointers with the sizes they were requested
with. There may be further live pairs, such as pages that the kernel never gives back.
-/

namespace BasicKernel

/-- The pairs `bs` are live and all different. -/
structure Owns (m : MemoryManager) (bs : List (Addr × Nat)) : Prop where
  pos : 0 < m.initMem
  nodup : bs.Nodup
  live : ∃ live, Contract m live ∧ ∀ b ∈ bs, b ∈ live

namespace Owns

variable {m m' : MemoryManager} {bs bs' : List (Addr × Nat)} {b b' : Addr × Nat}

theorem sublist (h : Owns m bs) (hs : bs'.Sublist bs) : Owns m bs' := by
  obtain ⟨live, hc, hlive⟩ := h.live
  exact ⟨h.pos, h.nodup.sublist hs, live, hc, fun b hb => hlive b (hs.subset hb)⟩

theorem perm (h : Owns m bs) (hp : bs.Perm bs') : Owns m bs' := by
  obtain ⟨live, hc, hlive⟩ := h.live
  exact ⟨h.pos, hp.nodup_iff.mp h.nodup, live, hc, fun b hb => hlive b (hp.mem_iff.mpr hb)⟩

theorem ne_null (h : Owns m bs) (hb : b ∈ bs) : b.1 ≠ NULL := by
  obtain ⟨live, hc, hlive⟩ := h.live
  have hpos : 0 < b.1 := by
    rw [(hc.valid b (hlive b hb)).aligned]
    exact Nat.add_pos_left h.pos _
  exact Nat.pos_iff_ne_zero.mp hpos

/-- Objects at one address are one object. -/
theorem eq_of_fst (h : Owns m bs) (hb : b ∈ bs) (hb' : b' ∈ bs) (heq : b.1 = b'.1) : b = b' := by
  obtain ⟨live, hc, hlive⟩ := h.live
  exact hc.eq_of_fst_eq (hlive b hb) (hlive b' hb') heq

theorem nodup_fst (h : Owns m bs) : (bs.map Prod.fst).Nodup :=
  h.nodup.map_on fun _ hb _ hb' heq => h.eq_of_fst hb hb' heq

/-- There is a block for each object, and there are fewer than `2^19` blocks. -/
theorem length_lt (h : Owns m bs) : bs.length < 2 ^ 19 := by
  obtain ⟨live, hc, hlive⟩ := h.live
  have hnd : (bs.map fun b => firstBlock m b.1).Nodup := by
    refine h.nodup.map_on fun b hb b' hb' heq => h.eq_of_fst hb hb' ?_
    rw [(hc.valid b (hlive b hb)).aligned, (hc.valid b' (hlive b' hb')).aligned, heq]
  have hsub : (bs.map fun b => firstBlock m b.1) ⊆ List.range m.blocksAmount.toNat := by
    intro q hq
    obtain ⟨b, hb, rfl⟩ := List.mem_map.mp hq
    have hv := hc.valid b (hlive b hb)
    have hinside := hv.inside
    have hsize := one_le_sizeBlocks hv.pos
    exact List.mem_range.mpr (by omega)
  have hle := (hnd.subperm hsub).length_le
  rw [List.length_map, List.length_range] at hle
  have hsmall := hc.region.small
  omega

/-- A further object lies at an address of its own. -/
theorem fresh (h : Owns m (b :: bs)) (hb : b' ∈ bs) : b'.1 ≠ b.1 := by
  intro heq
  obtain rfl := h.eq_of_fst (List.mem_cons_of_mem _ hb) List.mem_cons_self heq
  exact (List.nodup_cons.mp h.nodup).1 hb

/-- The first page of an owned object is marked in the map. -/
theorem used (h : Owns m bs) (hb : b ∈ bs) :
    m.initMem ≤ b.1 ∧ BasicKernel.used m.words ((b.1 - m.initMem) / PAGE_SIZE) = true := by
  obtain ⟨live, hc, hlive⟩ := h.live
  have hv := hc.valid b (hlive b hb)
  refine ⟨by have := hv.aligned; omega, ?_⟩
  have hmem : firstBlock m b.1 ∈ extent m b :=
    Set.mem_Ico.mpr ⟨le_rfl, by have := one_le_sizeBlocks hv.pos; omega⟩
  exact hc.extent_subset (hlive b hb) hmem

/-- The page of a byte of an owned object. -/
theorem page_mem_extent {live : Set (Nat × Nat)} (hc : Contract m live) (hb : b ∈ live) {a : Nat}
    (hle : b.1 ≤ a) (hlt : a < b.1 + b.2) : (a - m.initMem) / PAGE_SIZE ∈ extent m b := by
  have hv := hc.valid b hb
  have haligned : b.1 = m.initMem + firstBlock m b.1 * 4096 := hv.aligned
  have hsize : b.2 ≤ sizeBlocks b.2 * 4096 := by
    show b.2 ≤ (b.2 + 4095) / 4096 * 4096
    omega
  refine Set.mem_Ico.mpr ?_
  show firstBlock m b.1 ≤ (a - m.initMem) / 4096 ∧
    (a - m.initMem) / 4096 < firstBlock m b.1 + sizeBlocks b.2
  generalize firstBlock m b.1 = f at *
  generalize sizeBlocks b.2 = n at *
  rw [haligned] at hle hlt
  replace hle : m.initMem + f * 4096 ≤ a := hle
  replace hlt : a < m.initMem + f * 4096 + b.2 := hlt
  omega

/-- Every byte of an owned object is reserved. -/
theorem used_byte (h : Owns m bs) (hb : b ∈ bs) {a : Nat} (hle : b.1 ≤ a) (hlt : a < b.1 + b.2) :
    m.initMem ≤ a ∧ BasicKernel.used m.words ((a - m.initMem) / PAGE_SIZE) = true := by
  obtain ⟨live, hc, hlive⟩ := h.live
  exact ⟨Nat.le_trans (h.used hb).1 hle,
    hc.extent_subset (hlive b hb) (page_mem_extent hc (hlive b hb) hle hlt)⟩

/-- Two owned objects have no byte in common. -/
theorem eq_of_byte (h : Owns m bs) (hb : b ∈ bs) (hb' : b' ∈ bs) {a : Nat} (hle : b.1 ≤ a)
    (hlt : a < b.1 + b.2) (hle' : b'.1 ≤ a) (hlt' : a < b'.1 + b'.2) : b = b' := by
  obtain ⟨live, hc, hlive⟩ := h.live
  exact hc.eq_of_mem_extent (hlive b hb) (hlive b' hb')
    (page_mem_extent hc (hlive b hb) hle hlt) (page_mem_extent hc (hlive b' hb') hle' hlt')

end Owns

variable {k : Kernel} {bs : List (Addr × Nat)}

theorem Owns.reserved {b : Addr × Nat} (h : Owns k.memory bs) (hb : b ∈ bs) : k.Reserved b.1 :=
  h.used hb

/-- `allocate` returns a new object, or the null pointer and changes nothing. -/
theorem Owns.allocate (h : Owns k.memory bs) (size : Nat) (hpos : 1 ≤ size)
    (hint : size < 2 ^ 31) :
    (∃ p m, k.allocate size = .ok (p, { k with memory := m }) ∧ p ≠ NULL ∧
        Owns m ((p, size) :: bs)) ∨ k.allocate size = .ok (NULL, k) := by
  obtain ⟨live, hc, hlive⟩ := h.live
  rcases hc.allocate hpos hint with ⟨p, m, hcall, hfresh, hinit, -, hc'⟩ | hcall
  · left
    have howns : Owns m ((p, size) :: bs) := by
      refine ⟨hinit ▸ h.pos, List.nodup_cons.mpr ⟨fun hb => hfresh _ (hlive _ hb) rfl, h.nodup⟩,
        _, hc', fun b hb => ?_⟩
      rcases List.mem_cons.mp hb with rfl | hb
      · exact Set.mem_insert _ _
      · exact Set.mem_insert_of_mem _ (hlive b hb)
    refine ⟨p, m, ?_, howns.ne_null (List.mem_cons_self), howns⟩
    simp [Kernel.allocate, hcall]
  · right
    simp [Kernel.allocate, hcall]

/-- `deallocate` takes an owned object back. -/
theorem Owns.deallocate {p size : Nat} (h : Owns k.memory ((p, size) :: bs)) :
    ∃ m, k.deallocate p size = .ok { k with memory := m } ∧ Owns m bs ∧
      m.initMem = k.memory.initMem := by
  obtain ⟨live, hc, hlive⟩ := h.live
  have hx : (p, size) ∈ live := hlive _ List.mem_cons_self
  obtain ⟨m, hcall, hinit, -, hc'⟩ := hc.deallocate hx
  have hv := hc.valid _ hx
  have hall : (List.range (blocksOf size).toNat).all
      (fun j => BasicKernel.used k.memory.words ((p - k.memory.initMem) / PAGE_SIZE + j)) = true := by
    rw [List.all_eq_true]
    intro j hj
    rw [blocksOf_eq hv.int, Int.toNat_natCast, List.mem_range] at hj
    exact hc.extent_subset hx (Set.mem_Ico.mpr ⟨Nat.le_add_right _ _, Nat.add_lt_add_left hj _⟩)
  refine ⟨m, ?_, ⟨hinit ▸ h.pos, h.nodup.of_cons, _, hc', fun b hb => ⟨hlive b (by simp [hb]), ?_⟩⟩,
    hinit⟩
  · simp only [Kernel.deallocate, hcall, ok_bind, hall]
    simp
  · rintro rfl
    exact (List.nodup_cons.mp h.nodup).1 hb

theorem Owns.used_deallocate {k' : Kernel} {p size : Nat} (h : Owns k.memory ((p, size) :: bs))
    (hcall : k.deallocate p size = .ok k') :
    usedBlocks k'.memory = usedBlocks k.memory \ extent k.memory (p, size) := by
  obtain ⟨live, hc, hlive⟩ := h.live
  obtain ⟨⟨r, m⟩, hm, hk⟩ := bind_eq_ok.mp hcall
  obtain rfl := Except.ok.inj hk
  exact hc.used_deallocate (hlive _ List.mem_cons_self) hm

/-- The allocator never moves its region. -/
theorem allocate_initMem {m m' : MemoryManager} {size : Nat} {r : Option Nat}
    (h : allocate m size = .ok (r, m')) : m'.initMem = m.initMem := by
  obtain ⟨⟨i, j, allocFound⟩, -, h⟩ := bind_eq_ok.mp h
  cases allocFound with
  | false =>
      obtain ⟨-, rfl⟩ := Prod.mk.inj (Except.ok.inj h)
      rfl
  | true =>
      obtain ⟨m₁, hreserve, h⟩ := bind_eq_ok.mp h
      obtain ⟨-, rfl⟩ := Prod.mk.inj (Except.ok.inj h)
      obtain ⟨words, -, h⟩ := bind_eq_ok.mp hreserve
      obtain rfl := Except.ok.inj h
      rfl

theorem deallocate_initMem {m m' : MemoryManager} {p size : Nat} {r : Int}
    (h : deallocate m p size = .ok (r, m')) : m'.initMem = m.initMem := by
  unfold BasicKernel.deallocate at h
  dsimp only at h
  split at h
  · obtain ⟨-, rfl⟩ := Prod.mk.inj (Except.ok.inj h)
    rfl
  · obtain ⟨words, -, h⟩ := bind_eq_ok.mp h
    obtain ⟨-, rfl⟩ := Prod.mk.inj (Except.ok.inj h)
    rfl

theorem AllocatorStep.initMem {s s' : MemoryManager × List (Nat × Nat)} (h : AllocatorStep s s') :
    s'.1.initMem = s.1.initMem := by
  cases h with
  | allocated _ _ hcall => exact allocate_initMem hcall
  | refused _ _ hcall => exact allocate_initMem hcall
  | deallocated _ hcall => exact deallocate_initMem hcall

/-! ## Requests one after the other

A call of the kernel may ask for several pages. `serve` asks for them in their order, and what the
allocator answers depends on all the requests before. -/

/-- What the allocator answers to requests that follow each other. -/
def serve : List Nat → MemoryManager → Except Stop (List (Option Addr) × MemoryManager)
  | [], m => .ok ([], m)
  | size :: sizes, m => do
      let (p, m) ← allocate m size
      let (ps, m) ← serve sizes m
      return (p :: ps, m)

/-- None of the requests is refused. -/
def Served (m : MemoryManager) (sizes : List Nat) (ps : List Addr) (m' : MemoryManager) : Prop :=
  serve sizes m = .ok (ps.map some, m')

theorem Served.append {m m₁ m' : MemoryManager} {sizes sizes' : List Nat} {ps ps' : List Addr}
    (h : Served m sizes ps m₁) (h' : Served m₁ sizes' ps' m') :
    Served m (sizes ++ sizes') (ps ++ ps') m' := by
  induction sizes generalizing m ps with
  | nil =>
      obtain ⟨hps, rfl⟩ := Prod.mk.inj (Except.ok.inj h)
      obtain rfl := List.map_eq_nil_iff.mp hps.symm
      exact h'
  | cons size sizes ih =>
      obtain ⟨⟨p, m₂⟩, hp, h⟩ := bind_eq_ok.mp h
      obtain ⟨⟨qs, m₃⟩, hqs, h⟩ := bind_eq_ok.mp h
      obtain ⟨hcons, rfl⟩ := Prod.mk.inj (Except.ok.inj h)
      cases ps with
      | nil => cases hcons
      | cons q ps =>
          obtain ⟨rfl, rfl⟩ := List.cons.inj hcons
          have htail : Served m₂ (sizes ++ sizes') (ps ++ ps') m' := ih hqs
          rw [Served] at htail
          simp only [Served, List.cons_append, serve, hp, ok_bind, htail, List.map_cons]
          rfl

theorem Served.of_allocate {size : Nat} {p : Addr} {m : MemoryManager}
    (h : k.allocate size = .ok (p, { k with memory := m })) (hp : p ≠ NULL) :
    Served k.memory [size] [p] m := by
  obtain ⟨⟨r, m'⟩, hcall, h⟩ := bind_eq_ok.mp h
  obtain ⟨hr, hk⟩ := Prod.mk.inj (Except.ok.inj h)
  obtain rfl : m' = m := congrArg Kernel.memory hk
  cases r with
  | none => exact absurd hr.symm hp
  | some q =>
      obtain rfl : q = p := hr
      simp only [Served, serve, hcall, ok_bind, List.map_cons, List.map_nil]
      rfl

end BasicKernel
