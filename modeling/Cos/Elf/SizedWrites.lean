import Cos.Elf.UserMemory
import Mathlib

/-! # Sized relocation fields

`write_sized` cuts a relocation's value to the width of its field.  Its range checks are
meant to refuse every value that the field cannot hold; for fields of one and two bytes
they let some of these through.
-/

namespace Cos.Elf

variable {σ : Type} {scope : σ} {state after : RelocState σ} {target value : Addr} {width : Nat}
  {signed : Bool}

/-- The field at `target` as a 64-bit value: sign-extended or zero-extended. -/
def readField (mem : UserMem) (target : Addr) (width : Nat) (signed : Bool) : Option Addr :=
  (userRead mem target width).map fun bytes =>
    let field := (ofLeBytes bytes).setWidth (8 * width)
    if signed then field.signExtend 64 else field.setWidth 64

/-- A field of `width` bytes can hold `value`. -/
def FitsField (value : Addr) (width : Nat) (signed : Bool) : Prop :=
  if signed then -(2 ^ (8 * width - 1)) ≤ value.toInt ∧ value.toInt < 2 ^ (8 * width - 1)
  else value.toNat < 2 ^ (8 * width)

instance : Decidable (FitsField value width signed) := by
  unfold FitsField
  infer_instance

/-- Whatever the memory and the target, a write of `value` that succeeds leaves a field
that reads as `value`, and a value that does not fit is refused with nothing written. -/
def KeepsValue (σ : Type) (value : Addr) (width : Nat) (signed : Bool) : Prop :=
  ∀ (state : RelocState σ) (target : Addr),
    (∀ after, writeSized state target value width signed = .ok after →
      readField after.mem target width signed = some value) ∧
    (¬FitsField value width signed →
      ∃ failed, writeSized state target value width signed = .error failed ∧ failed.mem = state.mem)

theorem store_eq_ok {bytes : List UInt8} (stored : state.store target bytes = .ok after) :
    userWrite state.mem target bytes = some after.mem ∧
    after = { state with mem := after.mem } := by
  unfold RelocState.store at stored
  split at stored
  · rename_i mem written
    cases stored
    exact ⟨written, rfl⟩
  · contradiction

theorem writeSized_eq_ok (wrote : writeSized state target value width signed = .ok after) :
    fitsWidth value width signed = true ∧ state.store target (leBytes value width) = .ok after := by
  unfold writeSized at wrote
  split at wrote
  · rename_i fits
    exact ⟨fits, wrote⟩
  · contradiction

theorem readField_writeSized (small : width < 2 ^ 64)
    (wrote : writeSized state target value width signed = .ok after) :
    readField after.mem target width signed =
      some (if signed then (value.setWidth (8 * width)).signExtend 64 else (value.setWidth (8 * width)).setWidth 64) := by
  have ⟨written, _⟩ := store_eq_ok (writeSized_eq_ok wrote).2
  have read := userRead_userWrite written (by rwa [leBytes_length])
  rw [leBytes_length] at read
  have cut : ((value.setWidth (8 * width)).setWidth 64).setWidth (8 * width) =
    value.setWidth (8 * width) := by
    apply BitVec.eq_of_getLsbD_eq
    intro place inside
    simp only [BitVec.getLsbD_setWidth, inside, decide_true, Bool.true_and]
    by_cases low : place < 64
    · rw [decide_eq_true low, Bool.true_and]
    · rw [BitVec.getLsbD_of_ge value place (by omega), Bool.and_false]
  rw [readField, read, Option.map_some, ofLeBytes_leBytes, cut]

theorem setWidth_eq_iff {bits : Nat} :
    (value.setWidth bits).setWidth 64 = value ↔ value.toNat < 2 ^ bits := by
  rw [BitVec.toNat_eq, BitVec.toNat_setWidth, BitVec.toNat_setWidth]
  have room : value.toNat % 2 ^ bits < 2 ^ 64 :=
    Nat.lt_of_le_of_lt (Nat.mod_le _ _) value.isLt
  rw [Nat.mod_eq_of_lt room]
  constructor
  · intro same
    rw [← same]
    exact Nat.mod_lt _ (Nat.two_pow_pos bits)
  · exact Nat.mod_eq_of_lt

theorem signExtend_eq_iff {bits : Nat} (positive : 0 < bits) (narrow : bits ≤ 64) :
    (value.setWidth bits).signExtend 64 = value ↔
      -(2 ^ (bits - 1)) ≤ value.toInt ∧ value.toInt < 2 ^ (bits - 1) := by
  have doubled : (2 : Int) ^ bits = 2 * 2 ^ (bits - 1) := by
    rw [Int.mul_comm, ← Int.pow_succ, Nat.succ_eq_add_one, Nat.sub_add_cancel positive]
  have cut : (value.setWidth bits).toInt = value.toInt.bmod (2 ^ bits) := by
    rw [BitVec.toInt_setWidth, BitVec.toInt_eq_toNat_bmod, Int.bmod_bmod_of_dvd (Nat.pow_dvd_pow 2 narrow)]
  rw [← BitVec.toInt_inj, BitVec.toInt_signExtend_of_le narrow]
  constructor
  · intro same
    rw [← same]
    exact ⟨BitVec.le_toInt _, BitVec.toInt_lt⟩
  · rintro ⟨lower, upper⟩
    rw [cut]
    apply Int.bmod_eq_of_le_mul_two <;> push_cast <;> omega

theorem keepsValue_of_fits (positive : 0 < width) (narrow : width ≤ 8)
    (fits : FitsField value width signed) : KeepsValue σ value width signed := by
  intro state target
  refine ⟨fun after wrote => ?_, fun misfit => absurd fits misfit⟩
  rw [readField_writeSized (by omega) wrote]
  cases signed with
  | true => rw [if_pos rfl, (signExtend_eq_iff (by omega) (by omega)).mpr fits]
  | false => rw [if_neg Bool.false_ne_true, setWidth_eq_iff.mpr fits]

theorem keepsValue_of_refused (refused : fitsWidth value width signed = false) :
    KeepsValue σ value width signed := by
  have outcome (state : RelocState σ) (target : Addr) :
      writeSized state target value width signed = .error state := by
    rw [writeSized, if_neg (by rw [refused]; exact Bool.false_ne_true)]
  intro state target
  refine ⟨fun after wrote => ?_, fun _ => ⟨state, outcome state target, rfl⟩⟩
  rw [outcome] at wrote
  contradiction

theorem writeSized_blank (narrow : width ≤ 8) (scope : σ)
    (allowed : fitsWidth value width signed = true) :
    ∃ after, writeSized (⟨fun _ => some 0, scope, [], 0, []⟩ : RelocState σ) pieBase value width
    signed = .ok after := by
  have range : userRangeOk pieBase (BitVec.ofNat 64 (leBytes value width).length) = true := by
    rw [leBytes_length]
    rcases Nat.eq_zero_or_pos width with none | positive
    · rw [none]
      rfl
    · exact (userRangeOk_iff positive (by omega)).mpr ⟨Nat.le_refl _, by simp [pieBase, userLimit]; omega⟩
  rw [writeSized, if_pos allowed, RelocState.store, userWrite, if_pos ⟨range, fun _ _ => rfl⟩]
  exact ⟨_, rfl⟩

theorem not_keepsValue (narrow : width ≤ 8) (scope : σ)
    (allowed : fitsWidth value width signed = true) (misfit : ¬FitsField value width signed) :
    ¬KeepsValue σ value width signed := by
  intro keeps
  obtain ⟨after, wrote⟩ := writeSized_blank narrow scope allowed
  obtain ⟨failed, refused, _⟩ := (keeps _ _).2 misfit
  rw [wrote] at refused
  contradiction

theorem fitsWidth_four : fitsWidth value 4 signed = true ↔ FitsField value 4 signed := by
  unfold fitsWidth FitsField
  cases signed with
  | true => simp; omega
  | false => simp [BitVec.le_def]; omega

theorem fitsField_eight : FitsField value 8 signed := by
  cases signed with
  | true => exact ⟨BitVec.le_toInt value, BitVec.toInt_lt⟩
  | false => exact value.isLt

theorem fitsWidth_two : fitsWidth value 2 signed = false ↔ value.toInt < -32768 := by
  have large (negative : value.toInt < -32768) : 0xFFFF#64 < value := by
    rw [BitVec.lt_def]
    rw [BitVec.toInt_eq_toNat_cond] at negative
    simp only [BitVec.toNat_ofNat]
    split at negative <;> omega
  simp [fitsWidth]
  exact fun negative => by simpa using large negative

/-- `write_sized` keeps the value or refuses it exactly for fields of four and eight bytes,
for values that fit, and for fields of two bytes and negative numbers below `-32768`. -/
theorem write_sized_keeps_value (scope : σ) (value : Addr) (width : Nat) (signed : Bool)
    (sized : width = 1 ∨ width = 2 ∨ width = 4 ∨ width = 8) :
    KeepsValue σ value width signed ↔
      width = 4 ∨ width = 8 ∨ FitsField value width signed ∨ width = 2 ∧ value.toInt < -32768 := by
  have narrow : width ≤ 8 := by omega
  have positive : 0 < width := by omega
  constructor
  · intro keeps
    by_cases fits : FitsField value width signed
    · exact .inr (.inr (.inl fits))
    · have refused : fitsWidth value width signed = false := by
        by_contra allowed
        exact not_keepsValue narrow scope (Bool.not_eq_false _ ▸ allowed) fits keeps
      rcases sized with rfl | rfl | rfl | rfl
      · exact absurd refused (by simp [fitsWidth])
      · exact .inr (.inr (.inr ⟨rfl, fitsWidth_two.mp refused⟩))
      · exact .inl rfl
      · exact .inr (.inl rfl)
  · intro condition
    by_cases fits : FitsField value width signed
    · exact keepsValue_of_fits positive narrow fits
    · rcases condition with rfl | rfl | fitting | ⟨rfl, negative⟩
      · exact keepsValue_of_refused (Bool.eq_false_iff.mpr fun allowed => fits (fitsWidth_four.mp allowed))
      · exact absurd fitsField_eight fits
      · exact absurd fitting fits
      · exact keepsValue_of_refused (fitsWidth_two.mpr negative)

/-- `R_X86_64_16` with the value `0x10000` stores `0`. -/
theorem write_sized_drops_bit : ¬KeepsValue Unit 0x10000#64 2 false :=
  not_keepsValue (by decide) () (by decide) (by decide)

theorem write_sized_keeps_value_call :
    KeepsValue Unit 0xFFFFFFFFFFFFFF00#64 1 true ↔
      1 = 4 ∨ 1 = 8 ∨ FitsField 0xFFFFFFFFFFFFFF00#64 1 true ∨ 1 = 2 ∧ (0xFFFFFFFFFFFFFF00#64).toInt < -32768 :=
  write_sized_keeps_value () _ 1 true (.inl rfl)

end Cos.Elf
