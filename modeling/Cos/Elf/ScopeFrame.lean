import Cos.Elf.Relocate

/-! # Relocation touches the scope only through the resolver

Whether a relocation pass succeeds or fails half way, the resolver's state is where the
resolver has left it: what every answer of the resolver keeps, the pass keeps.
-/

namespace Cos.Elf

variable {σ : Type u} {resolver : SymReq → σ → Option SymVal × σ} {slot : Nat} {obj : ElfObject}

def stopped : Except (RelocState σ) (RelocState σ) → RelocState σ
  | .ok state => state
  | .error state => state

theorem store_scope (state : RelocState σ) (target : Addr) (bytes : List UInt8) :
    (stopped (state.store target bytes)).scope = state.scope := by
  unfold RelocState.store
  split <;> rfl

theorem writeSized_scope (state : RelocState σ) (target value : Addr) (width : Nat)
    (signed : Bool) : (stopped (writeSized state target value width signed)).scope =
    state.scope := by
  unfold writeSized
  split
  · exact store_scope ..
  · rfl

theorem deferIfunc_scope (state : RelocState σ) (target fn : Addr) :
    (stopped (deferIfunc slot state target fn)).scope = state.scope := by
  unfold deferIfunc
  split
  · rfl
  · exact store_scope ..

theorem copyChunks_scope (target source : Addr) (chunks left : Nat) (state : RelocState σ) :
    (stopped (copyChunks target source chunks left state)).scope = state.scope := by
  induction chunks generalizing target source left state with
  | zero => rfl
  | succ chunks ih =>
      simp only [copyChunks]
      split
      · rfl
      · rename_i bytes _
        have stored := store_scope state target bytes
        split
        · rename_i failed isFailed
          rw [isFailed] at stored
          exact stored
        · rename_i after isAfter
          rw [isAfter] at stored
          exact (ih ..).trans stored

theorem applyCopy_scope (state : RelocState σ) (target : Addr) (value : SymVal) :
    (stopped (applyCopy obj state target value)).scope = state.scope := by
  unfold applyCopy
  split
  · rfl
  · split
    · rfl
    · exact copyChunks_scope ..

theorem applyBound_scope (rel : Reloc) (value : SymVal) (isWeak isIfunc : Bool)
    (state : RelocState σ) :
    (stopped (applyBound slot obj rel value isWeak isIfunc state)).scope = state.scope := by
  rw [applyBound]
  split
  · exact deferIfunc_scope ..
  · split
    all_goals first
      | exact writeSized_scope ..
      | exact applyCopy_scope ..
      | rfl
      | (split
         · exact writeSized_scope ..
         · rfl)

section Kept

variable {holds : σ → Prop} (answers : ∀ req scope, holds scope → holds (resolver req scope).2)

include answers

theorem resolveForReloc_keeps (symIndex : Nat) (type : RelocType) {scope : σ}
    (before : holds scope) : holds (resolveForReloc resolver slot obj symIndex type scope).2 := by
  rw [resolveForReloc]
  split
  · exact before
  · split
    · exact before
    · dsimp only
      split
      · exact before
      · split
        · exact before
        · rename_i sym _ _ _ name _
          obtain ⟨request, isRequest⟩ : ∃ request : SymReq, request = ⟨name,
            if obj.dyn.hasVersym = true then versionNameForIndex obj sym.versym else none, slot,
            type == .copy⟩ := ⟨_, rfl⟩
          rw [← isRequest]
          have answered := answers request scope before
          cases result : resolver request scope with
          | mk found after =>
              rw [result] at answered
              cases found with
              | some value => exact answered
              | none =>
                  dsimp only
                  split <;> exact answered

theorem applyReloc_keeps (rel : Reloc) {state : RelocState σ} (before : holds state.scope) :
    holds (stopped (applyReloc resolver slot obj rel state)).scope := by
  rw [applyReloc]
  split
  · exact before
  · split
    · exact before
    · split
      · rw [store_scope]
        exact before
      · rw [deferIfunc_scope]
        exact before
      · have resolved := @resolveForReloc_keeps _ resolver slot obj holds answers rel.sym rel.type _ before
        split
        · rename_i failed
          rw [failed] at resolved
          exact resolved
        · rename_i found
          rw [found] at resolved
          rw [applyBound_scope]
          exact resolved

theorem applyEntries_keeps (table : List Reloc) {state : RelocState σ}
    (before : holds state.scope) :
    holds (stopped (applyEntries resolver slot obj table state)).scope := by
  induction table generalizing state with
  | nil => exact before
  | cons rel rest ih =>
      have first := @applyReloc_keeps _ resolver slot obj holds answers rel state before
      rw [applyEntries]
      cases one : applyReloc resolver slot obj rel state with
      | error failed =>
          rw [one] at first
          exact first
      | ok after =>
          rw [one] at first
          exact ih first

theorem applyImplicit_keeps (table : List Reloc) {state : RelocState σ}
    (before : holds state.scope) :
    holds (stopped (applyImplicit resolver slot obj table state)).scope := by
  induction table generalizing state with
  | nil => exact before
  | cons rel rest ih =>
      rw [applyImplicit]
      split
      · exact before
      · split
        · exact before
        · rename_i bytes _
          have first := @applyReloc_keeps _ resolver slot obj holds answers
            { rel with addend := ofLeBytes bytes } state before
          cases one : applyReloc resolver slot obj { rel with addend := ofLeBytes bytes } state with
          | error failed =>
              rw [one] at first
              exact first
          | ok after =>
              rw [one] at first
              exact ih first

theorem applyRelocTable_keeps (isRela : Bool) (table : List Reloc) {state : RelocState σ}
    (before : holds state.scope) :
    holds (stopped (applyRelocTable resolver slot obj isRela table state)).scope := by
  rw [applyRelocTable]
  split
  · exact before
  · split
    · exact applyEntries_keeps answers table before
    · exact applyImplicit_keeps answers table before

end Kept

theorem addBias_scope (state : RelocState σ) (at_ : Addr) :
    (stopped (addBias obj state at_)).scope = state.scope := by
  unfold addBias
  split
  · rfl
  · split
    · rfl
    · rename_i bytes _
      have stored := store_scope state at_ (leBytes (ofLeBytes bytes + obj.base) 8)
      split
      · rename_i failed isFailed
        rw [isFailed] at stored
        exact stored
      · rename_i after isAfter
        rw [isAfter] at stored
        split <;> exact stored

theorem applyBitmap_scope (bits : Addr) (left : Nat) (at_ : Addr) (state : RelocState σ) :
    (stopped (applyBitmap obj bits left at_ state)).scope = state.scope := by
  induction left generalizing at_ state with
  | zero => rfl
  | succ left ih =>
      rw [applyBitmap]
      split
      · have added := @addBias_scope _ obj state at_
        split
        · rename_i failed isFailed
          rw [isFailed] at added
          exact added
        · rename_i after isAfter
          rw [isAfter] at added
          exact (ih ..).trans added
      · exact ih ..

theorem applyRelrTable_scope (entries : List (BitVec 64)) (at_ : Addr) (state : RelocState σ) :
    (stopped (applyRelrTable obj entries at_ state)).scope = state.scope := by
  induction entries generalizing at_ state with
  | nil => rfl
  | cons entry rest ih =>
      rw [applyRelrTable]
      split
      · have added := @addBias_scope _ obj state (obj.base + entry)
        split
        · rename_i failed isFailed
          rw [isFailed] at added
          exact added
        · rename_i after isAfter
          rw [isAfter] at added
          exact (ih ..).trans added
      · have added := @applyBitmap_scope _ obj (entry >>> 1) 63 at_ state
        split
        · rename_i failed isFailed
          rw [isFailed] at added
          exact added
        · rename_i after isAfter
          rw [isAfter] at added
          exact (ih ..).trans added

theorem stopped_bind {holds : RelocState σ → Prop} {first : Except (RelocState σ) (RelocState σ)}
    {second : RelocState σ → Except (RelocState σ) (RelocState σ)} (one : holds (stopped first))
    (two : ∀ state, holds state → holds (stopped (second state))) :
    holds (stopped (first >>= second)) := by
  cases first with
  | error failed => exact one
  | ok state => exact two state one

theorem cosElfRelocate_keeps {holds : σ → Prop}
    (answers : ∀ req scope, holds scope → holds (resolver req scope).2) {state : RelocState σ}
    (before : holds state.scope) :
    holds (stopped (cosElfRelocate resolver slot obj state)).scope := by
  rw [cosElfRelocate]
  split
  · exact before
  · refine @stopped_bind _ (fun state => holds state.scope) _ _ ?_ fun state held => ?_
    · exact applyRelocTable_keeps answers _ _ before
    refine @stopped_bind _ (fun state => holds state.scope) _ _ ?_ fun state held => ?_
    · exact applyRelocTable_keeps answers _ _ held
    have jmprel : ∀ state, holds state.scope →
        holds (stopped (applyRelocTable resolver slot obj (!obj.dyn.pltRel) obj.dyn.jmprel state)).scope :=
      fun state held => applyRelocTable_keeps answers _ _ held
    split
    · exact held
    · refine @stopped_bind _ (fun state => holds state.scope) _ _ ?_ jmprel
      rw [applyRelrTable_scope]
      exact held

end Cos.Elf
