import AvrKernel.Lib.Masks
import Mathlib.Data.UInt

/-!
# Translation of addresses

`vmm_get_phys_addr` of `virtual/vmm.c`: what the page directory and the page tables say about an
address, and where the bytes of a page are in physical memory.
-/

namespace AvrKernel.Memory

/-- The page directory and the static page tables, by their indices. -/
structure PageTables where
  pageDirectory : UInt32 → UInt32
  staticPageTables : UInt32 → UInt32 → UInt32

def vmPresent : UInt32 := 1

namespace PageTables

variable (vm : PageTables) (vaddr : UInt32)

def pte : UInt32 := vm.staticPageTables (vaddr >>> 22) ((vaddr >>> 12) &&& 0x3FF)

/-- Both the entry of the page directory and that of the page table are present. -/
def Mapped : Prop :=
  vm.pageDirectory (vaddr >>> 22) &&& vmPresent ≠ 0 ∧ vm.pte vaddr &&& vmPresent ≠ 0

instance : Decidable (vm.Mapped vaddr) := inferInstanceAs (Decidable (_ ∧ _))

def vmmGetPhysAddr : UInt32 :=
  let pageOffset := vaddr &&& 0xFFF
  if vm.pageDirectory (vaddr >>> 22) &&& vmPresent = 0 then 0
  else if vm.pte vaddr &&& vmPresent = 0 then 0
  else (vm.pte vaddr &&& ~~~0xFFF) + pageOffset

end PageTables

/-! ## Pages -/

theorem toNat_and_fff (x : UInt32) : (x &&& 0xFFF).toNat = x.toNat % 4096 := by
  rw [UInt32.toNat_and]
  exact Nat.and_two_pow_sub_one_eq_mod x.toNat 12

theorem toNat_frame (x : UInt32) : (x &&& ~~~0xFFF).toNat = x.toNat / 4096 * 4096 := by
  have hmask : (~~~0xFFF : UInt32).toNat = (2 ^ 20 - 1) <<< 12 := by decide
  rw [UInt32.toNat_and, hmask]
  exact Masks.and_upper (n := 12) (k := 20) x.toNat_lt

namespace PageTables

variable {vm : PageTables} {vaddr : UInt32}

theorem vmmGetPhysAddr_of_not (h : ¬vm.Mapped vaddr) : vm.vmmGetPhysAddr vaddr = 0 := by
  rw [vmmGetPhysAddr]
  by_cases hdirectory : vm.pageDirectory (vaddr >>> 22) &&& vmPresent = 0
  · rw [if_pos hdirectory]
  · rw [if_neg hdirectory, if_pos]
    by_contra hpte
    exact h ⟨hdirectory, hpte⟩

theorem mapped_of_ne (h : vm.vmmGetPhysAddr vaddr ≠ 0) : vm.Mapped vaddr := by
  by_contra hnot
  exact h (vmmGetPhysAddr_of_not hnot)

theorem toNat_vmmGetPhysAddr (h : vm.Mapped vaddr) : (vm.vmmGetPhysAddr vaddr).toNat =
    (vm.pte vaddr).toNat / 4096 * 4096 + vaddr.toNat % 4096 := by
  have hlt := (vm.pte vaddr).toNat_lt
  rw [vmmGetPhysAddr, if_neg h.1, if_neg h.2, UInt32.toNat_add, toNat_frame, toNat_and_fff]
  omega

/-- Addresses in one page have the same entries. -/
theorem pte_congr (vm : PageTables) {vaddr' : UInt32}
    (h : vaddr.toNat / 4096 = vaddr'.toNat / 4096) :
    vm.pte vaddr = vm.pte vaddr' ∧ (vm.Mapped vaddr ↔ vm.Mapped vaddr') := by
  have hdirectory : vaddr >>> 22 = vaddr' >>> 22 := by
    apply UInt32.toNat_inj.mp
    simp only [UInt32.toNat_shiftRight, Nat.shiftRight_eq_div_pow]
    change vaddr.toNat / 2 ^ 22 = vaddr'.toNat / 2 ^ 22
    omega
  have htable : vaddr >>> 12 = vaddr' >>> 12 := by
    apply UInt32.toNat_inj.mp
    simp only [UInt32.toNat_shiftRight, Nat.shiftRight_eq_div_pow]
    exact h
  rw [Mapped, Mapped, pte, pte, hdirectory, htable]
  exact ⟨rfl, Iff.rfl⟩

/-- Within a page the bytes are consecutive in physical memory. -/
theorem toNat_vmmGetPhysAddr_add (h : vm.Mapped vaddr) {k : Nat}
    (hk : vaddr.toNat % 4096 + k < 4096) :
    (vm.vmmGetPhysAddr (vaddr + .ofNat k)).toNat = (vm.vmmGetPhysAddr vaddr).toNat + k := by
  have hlt := vaddr.toNat_lt
  have hsum : (vaddr + .ofNat k).toNat = vaddr.toNat + k := by
    rw [UInt32.toNat_add, UInt32.toNat_ofNat']
    omega
  have hpage : (vaddr + .ofNat k).toNat / 4096 = vaddr.toNat / 4096 := by
    rw [hsum]
    omega
  obtain ⟨hpte, hmapped⟩ := vm.pte_congr hpage
  rw [toNat_vmmGetPhysAddr (hmapped.mpr h), toNat_vmmGetPhysAddr h, hpte, hsum]
  omega

/-- The physical addresses of some of the bytes of a buffer, in order. -/
def addresses (vm : PageTables) (buffer : UInt32) (first count : Nat) : List Nat :=
  (List.range' first count).map fun i => (vm.vmmGetPhysAddr (buffer + .ofNat i)).toNat

theorem addresses_add (vm : PageTables) (buffer : UInt32) (first m n : Nat) :
    vm.addresses buffer first (m + n) =
      vm.addresses buffer first m ++ vm.addresses buffer (first + m) n := by
  rw [addresses, addresses, addresses, ← List.map_append, List.range'_append_1]

/-- The bytes of a buffer within one page. -/
theorem addresses_page {vm : PageTables} {buffer : UInt32} {first count : Nat}
    (h : vm.Mapped (buffer + .ofNat first))
    (hpage : (buffer + .ofNat first).toNat % 4096 + count ≤ 4096) :
    vm.addresses buffer first count =
      List.range' (vm.vmmGetPhysAddr (buffer + .ofNat first)).toNat count := by
  rw [addresses, List.range'_eq_map_range, List.range'_eq_map_range, List.map_map]
  apply List.map_congr_left
  intro i hi
  have hlt := List.mem_range.mp hi
  rw [Function.comp_apply, UInt32.ofNat_add, ← UInt32.add_assoc]
  exact toNat_vmmGetPhysAddr_add h (by omega)

end PageTables

end AvrKernel.Memory
