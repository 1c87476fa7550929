import Cos.Paging.Directories
import Cos.Paging.UserRange

/-! # Entries of page tables

What the entries written by `get_or_alloc_level` and the changes of the tables look like.
-/

namespace Cos.Paging

open Cos.Lib SpaceState

def PageFlags (flags : U64) : Prop := flags &&& (fAddrMask ||| fPs) = 0#64

instance (flags : U64) : Decidable (PageFlags flags) := inferInstanceAs (Decidable (_ = _))

theorem PageFlags.address {flags : U64} (plain : PageFlags flags) : flags &&& fAddrMask = 0#64 := by
  rw [PageFlags, BitVec.and_or_distrib_left, BitVec.or_eq_zero_iff] at plain
  exact plain.1

theorem PageFlags.size {flags : U64} (plain : PageFlags flags) : flags &&& fPs = 0#64 := by
  rw [PageFlags, BitVec.and_or_distrib_left, BitVec.or_eq_zero_iff] at plain
  exact plain.2

theorem and_or_masked {entry flags keep mask : U64} (apart : keep &&& mask = 0#64) :
    (entry ||| (flags &&& keep)) &&& mask = entry &&& mask := by
  rw [BitVec.and_or_distrib_right, BitVec.and_assoc, apart, BitVec.and_zero, BitVec.or_zero]

theorem flags_masked {flags mask : U64} (clear : flags &&& mask = 0#64) :
    (flags &&& ~~~pageNx) &&& mask = 0#64 := by
  rw [BitVec.and_assoc, BitVec.and_comm (~~~pageNx), ← BitVec.and_assoc, clear, BitVec.zero_and]

theorem tableEntry_address {child flags : U64} (page : PageAddress child)
    (plain : PageFlags flags) : tableEntry child flags &&& fAddrMask = child := by
  have present : fPresent &&& fAddrMask = 0#64 := by decide
  have rw : fRw &&& fAddrMask = 0#64 := by decide
  simp only [tableEntry, BitVec.and_or_distrib_right, flags_masked plain.address, present, rw,
    BitVec.and_assoc, BitVec.and_self, BitVec.or_zero]
  exact page.2

theorem tableEntry_present (child flags : U64) : Present (tableEntry child flags) := by
  intro absent
  have present : fPresent &&& fPresent = fPresent := by decide
  simp only [tableEntry, BitVec.and_or_distrib_right, present, BitVec.or_eq_zero_iff] at absent
  exact absurd absent.2.1.2 (by decide)

theorem tableEntry_small {child flags : U64} (plain : PageFlags flags) :
    ¬Huge (tableEntry child flags) := by
  have address : fAddrMask &&& fPs = 0#64 := by decide
  have present : fPresent &&& fPs = 0#64 := by decide
  have rw : fRw &&& fPs = 0#64 := by decide
  simp [Huge, tableEntry, BitVec.and_or_distrib_right, flags_masked plain.size, present, rw,
    BitVec.and_assoc, address]

theorem PageAddress.table {page entry : U64} (isPage : PageAddress page)
    (leads : entry &&& fAddrMask = page) : physToTablePtr entry = some page := by
  rw [physToTablePtr, leads, if_neg isPage.1]

theorem physToTablePtr_some {entry page : U64} (leads : physToTablePtr entry = some page) :
    entry &&& fAddrMask = page := by
  unfold physToTablePtr at leads
  split at leads
  · contradiction
  · exact Option.some.inj leads

theorem follow_some {entry page : U64} (leads : follow entry = some page) :
    Present entry ∧ entry &&& fAddrMask = page := by
  unfold follow at leads
  split at leads
  · rename_i present
    exact ⟨present, physToTablePtr_some leads⟩
  · contradiction

theorem absent_zero : ¬Present 0#64 := by decide

namespace SpaceState

variable {state later : SpaceState} {parent table page root child : U64} {index slot : Fin 512}
variable {entry flags : U64} {level : Nat}

@[simp] theorem store_level : (state.store table index entry).level = state.level := rfl
theorem store_mem (page : U64) (slot : Fin 512) : (state.store table index entry).mem page slot =
    if page = table ∧ slot = index then entry else state.mem page slot := rfl

theorem takePage_mem (other : U64) (slot : Fin 512) : (state.takePage page level).mem other slot =
    if other = page then 0#64 else state.mem other slot := by
  by_cases same : other = page <;> simp [takePage, same]

theorem takePage_level : (state.takePage page level).level =
    Function.update state.level page level := by
  funext other
  rw [Function.update_apply]
  rfl

theorem store_mem_of_ne (other : page ≠ table) :
    (state.store table index entry).mem page = state.mem page := by
  funext slot
  exact if_neg fun same => other same.1

@[simp] theorem kfree_level_self : (state.kfree table).level table = 0 := if_pos rfl

theorem kfree_level_of_ne (other : page ≠ table) :
    (state.kfree table).level page = state.level page := if_neg other

end SpaceState

variable {state : SpaceState} {root virt : U64}

theorem idx_pageDown (virt : U64) :
    idx4 (pageDown virt) = idx4 virt ∧ idx3 (pageDown virt) = idx3 virt ∧
    idx2 (pageDown virt) = idx2 virt ∧ idx1 (pageDown virt) = idx1 virt :=
  idx_eq_of_page (by rw [toNat_pageDown]; omega)

theorem leafTable_eq_some {pdpt pd pt : U64} : state.leafTable root virt = some (pdpt, pd, pt) ↔
    follow (state.mem root (idx4 virt)) = some pdpt ∧
      follow (state.mem pdpt (idx3 virt)) = some pd ∧ follow (state.mem pd (idx2 virt)) = some pt := by
  simp only [leafTable, Option.bind_eq_bind, Option.bind_eq_some_iff, Option.pure_def,
    Option.some.injEq, Prod.mk.injEq]
  constructor
  · rintro ⟨_, first, _, second, _, third, rfl, rfl, rfl⟩
    exact ⟨first, second, third⟩
  · rintro ⟨first, second, third⟩
    exact ⟨pdpt, first, pd, second, pt, third, rfl, rfl, rfl⟩

end Cos.Paging
