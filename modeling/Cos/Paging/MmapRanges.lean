import Cos.Paging.MmapRuns

/-! # What the calls on regions amount to

No address is handed out twice.  And the table with the page table behind it is a map from addresses
to protections, on which a call writes one range.
-/

namespace Cos.Mmap

variable {nx : Bool} {p q : Proc} {a : Nat}

namespace Proc

/-- The ranges that the calls of a run hand out, in their order. -/
def granted (nx : Bool) (p : Proc) : List Step → List Lib.Span
  | [] => []
  | s :: rest =>
      (match s with
        | .mmap length _ =>
            if (p.step nx s).2 = failed then [] else [⟨(p.step nx s).2, (p.step nx s).2 + roundUp length.toNat⟩]
        | _ => []) ++ granted nx (p.step nx s).1 rest

theorem cosMmapFree_offset (addr length : Nat) :
    (p.cosMmapFree addr length).1.nextOffset = p.nextOffset := by
  rw [cosMmapFree]
  cases slots.find? (p.matchesExactly addr (roundUp length)) with
  | none => rfl
  | some i => rfl

theorem split_offset {found : Slot} {addr rounded : Nat} {q : Proc}
    (parts : p.split found addr rounded = some q) : q.nextOffset = p.nextOffset := by
  simp only [split] at parts
  generalize (if _ > 0 then slots.find? fun i => p.free i && i != found else none) = front at parts
  generalize (if _ > 0 then slots.find? fun i => p.free i && i != found && some i != front
    else none) = back at parts
  split at parts
  · split at parts
    · cases parts
    · cases parts
      cases front <;> cases back <;> rfl
  · cases parts
    rfl

theorem sysMprotect_offset (rdi rsi rdx : Nat) :
    (p.sysMprotect nx rdi rsi rdx).1.nextOffset = p.nextOffset := by
  by_cases refused : Refused rdi rsi rdx
  · rw [sysMprotect_refused refused]
  · rw [sysMprotect_asked refused, protectRange]
    cases slots.find? (p.surrounds rdi (roundUp rsi)) with
    | none => rfl
    | some found =>
        rw [Option.bind_eq_bind, Option.bind_some]
        cases parts : p.split found rdi (roundUp rsi) with
        | none => rfl
        | some q => exact (split_offset parts :)

theorem step_mmap {length prot : BitVec 64} (bounded : p.nextOffset ≤ mmapMaxTotal) :
    p.step nx (.mmap length prot) = (p, failed) ∨
    ∃ slot, p.free slot = true ∧ p.nextOffset + roundUp length.toNat ≤ mmapMaxTotal ∧
      mmapBase + p.nextOffset ≠ failed ∧ p.step nx (.mmap length prot) =
        (p.place slot (roundUp length.toNat) (prot.toNat.testBit 1), mmapBase + p.nextOffset) := by
  obtain refused | ⟨slot, free, -, room, placed⟩ :=
    cosMmapAlloc_cases bounded length.toNat (prot.toNat.testBit 1)
  · exact .inl (by simp only [Proc.step, sysMmap, refused])
  · exact .inr ⟨slot, free, room, by simp only [failed, word, mmapBase, mmapMaxTotal] at *; omega,
      by simp only [Proc.step, sysMmap, placed]⟩

/-- Only a call that hands a range out moves the place of the next one, and it moves it behind that
range. -/
theorem step_granted (bounded : p.nextOffset ≤ mmapMaxTotal) (s : Step) :
    (p.step nx s).1.nextOffset = p.nextOffset ∧ p.granted nx [s] = [] ∨
    (p.step nx s).1.nextOffset ≤ mmapMaxTotal ∧ p.nextOffset ≤ (p.step nx s).1.nextOffset ∧
      p.granted nx [s] = [⟨mmapBase + p.nextOffset, mmapBase + (p.step nx s).1.nextOffset⟩] := by
  cases s with
  | mmap length prot =>
      obtain refused | ⟨slot, -, room, notFailed, result⟩ := @step_mmap nx p length prot bounded
      · exact .inl (by simp [granted, refused])
      · simp only [granted, result, if_neg notFailed, List.append_nil]
        exact .inr ⟨room, Nat.le_add_right _ _, by simp only [place, Nat.add_assoc]⟩
  | munmap addr length =>
      refine .inl ⟨?_, rfl⟩
      have same := @cosMmapFree_offset p addr.toNat length.toNat
      simp only [Proc.step, sysMunmap]
      cases freed : p.cosMmapFree addr.toNat length.toNat with
      | mk q ok => cases ok <;> simpa [freed] using same
  | mprotect addr length prot => exact .inl ⟨sysMprotect_offset _ _ _, rfl⟩
  | fault addr luck =>
      refine .inl ⟨?_, rfl⟩
      simp only [Proc.step, handlePageFault]
      cases slots.find? (p.covers (addr.toNat / pageSize * pageSize)) <;> rfl
  | elsewhere pages => exact .inl ⟨rfl, rfl⟩

theorem granted_cons (s : Step) (rest : List Step) :
    p.granted nx (s :: rest) = p.granted nx [s] ++ (p.step nx s).1.granted nx rest := by
  simp only [granted, List.append_nil]

theorem granted_ranges (bounded : p.nextOffset ≤ mmapMaxTotal) (steps : List Step) :
    (p.granted nx steps).Pairwise (fun r s => r.stop ≤ s.start) ∧
    (∀ r ∈ p.granted nx steps, mmapBase + p.nextOffset ≤ r.start ∧ r.start ≤ r.stop ∧
    r.stop ≤ mmapBase + mmapMaxTotal) ∧
    p.nextOffset + ((p.granted nx steps).map fun r => r.stop - r.start).sum ≤ mmapMaxTotal := by
  induction steps generalizing p with
  | nil => exact ⟨.nil, nofun, bounded⟩
  | cons s rest ih =>
      rw [granted_cons]
      obtain ⟨same, none⟩ | ⟨room, later, one⟩ := @step_granted nx p bounded s
      · obtain ⟨ordered, within, sum⟩ := @ih (p.step nx s).1 (by omega)
        rw [none, List.nil_append]
        rw [same] at within sum
        exact ⟨ordered, within, sum⟩
      · obtain ⟨ordered, within, sum⟩ := @ih (p.step nx s).1 room
        rw [one, List.singleton_append]
        refine ⟨List.pairwise_cons.mpr ⟨fun r member => (within r member).1, ordered⟩, ?_, ?_⟩
        · intro r member
          obtain rfl | member := List.mem_cons.mp member
          · exact ⟨Nat.le_refl _, by simp only; omega, by simp only; omega⟩
          · obtain ⟨lower, order, upper⟩ := within r member
            exact ⟨by omega, order, upper⟩
        · rw [List.map_cons, List.sum_cons]
          simp only
          omega

end Proc

/-- Whatever the calls of a process are, no address is handed out twice, also after `SYS_MUNMAP`,
and all that was ever handed out counts against the limit. -/
theorem native_ranges_never_reused (nx : Bool) (slide : Nat) (steps : List Step) :
    ((Proc.create slide).granted nx steps).Pairwise (fun r s => r.stop ≤ s.start) ∧
    (∀ r ∈ (Proc.create slide).granted nx steps, mmapBase ≤ r.start ∧
    r.stop ≤ mmapBase + mmapMaxTotal) ∧
    slide % 16384 * pageSize +
    (((Proc.create slide).granted nx steps).map fun r => r.stop - r.start).sum ≤ mmapMaxTotal := by
  obtain ⟨ordered, within, sum⟩ :=
    @Proc.granted_ranges nx (Proc.create slide) (@Proc.Sound.create nx slide).offset.2 steps
  exact ⟨ordered, fun r member =>
    ⟨Nat.le_trans (Nat.le_add_right _ _) (within r member).1, (within r member).2.2⟩, sum⟩

/-- Whether an address may be written and executed, if it may be used at all. -/
abbrev Protections := Nat → Option (Bool × Bool)

def Protections.write (m : Protections) (range : Lib.Span) (value : Option (Bool × Bool)) :
    Protections :=
  fun a => if range.start ≤ a ∧ a < range.stop then value else m a

/-- What a call that returned `rax` is for. -/
def Protections.perform (m : Protections) (s : Step) (rax : Nat) : Protections :=
  if rax = failed then m
  else
    match s with
    | .mmap length prot => m.write ⟨rax, rax + roundUp length.toNat⟩ (some (prot.getLsbD 1, false))
    | .munmap addr length => m.write ⟨addr.toNat, addr.toNat + roundUp length.toNat⟩ none
    | .mprotect addr length prot =>
        m.write ⟨addr.toNat, addr.toNat + roundUp length.toNat⟩ (some (prot.getLsbD 1, prot.getLsbD 2))
    | .fault .. => m
    | .elsewhere _ => m

namespace Proc

def performed (nx : Bool) (p : Proc) (m : Protections) : List Step → Protections
  | [] => m
  | s :: rest => performed nx (p.step nx s).1 (m.perform s (p.step nx s).2) rest

theorem Sound.place_protection {slot : Slot} {size : Nat} {writable : Bool} (sound : Sound nx p)
    (placed : Sound nx (p.place slot size writable)) (free : p.free slot = true) :
    (p.place slot size writable).protection = Protections.write p.protection
      ⟨mmapBase + p.nextOffset, mmapBase + p.nextOffset + size⟩ (some (writable, false)) := by
  funext a
  simp only [Protections.write]
  by_cases inside : mmapBase + p.nextOffset ≤ a ∧ a < mmapBase + p.nextOffset + size
  · rw [if_pos inside, placed.unique.protection (place_covers.mpr (Or.inl ⟨rfl, inside⟩)), place_region, if_pos rfl]
  · rw [if_neg inside]
    refine protection_congr placed.unique sound.unique (fun j covers => ?_) fun i covers => ?_
    · obtain ⟨-, new⟩ | ⟨other, old⟩ := place_covers.mp covers
      · exact absurd new inside
      · exact ⟨j, old, by rw [place_region, if_neg other]⟩
    · refine ⟨i, place_covers.mpr (Or.inr ⟨?_, covers⟩)⟩
      rintro rfl
      exact not_covers_free free covers

theorem Sound.remove_protection {slot : Slot} (sound : Sound nx p)
    (used : (p.regions slot).used = true) :
    (p.remove slot).protection =
    Protections.write p.protection ⟨(p.regions slot).start, (p.regions slot).stop⟩ none := by
  have removed : Sound nx (p.remove slot) := sound.remove used
  funext a
  simp only [Protections.write]
  by_cases inside : (p.regions slot).start ≤ a ∧ a < (p.regions slot).stop
  · rw [if_pos inside]
    refine protection_none fun j => Bool.eq_false_iff.mpr fun covers => ?_
    obtain ⟨other, old⟩ := remove_covers.mp covers
    exact other (sound.unique a j slot old (covers_iff.mpr ⟨used, inside⟩))
  · rw [if_neg inside]
    refine protection_congr removed.unique sound.unique (fun j covers => ?_) fun i covers => ?_
    · obtain ⟨other, old⟩ := remove_covers.mp covers
      exact ⟨j, old, by rw [show (p.remove slot).regions j = _ from setRegion_regions _, if_neg other]⟩
    · refine ⟨i, remove_covers.mpr ⟨?_, covers⟩⟩
      rintro rfl
      exact inside (covers_iff.mp covers).2

theorem Sound.step_protection (sound : Sound nx p) {s : Step} (covered : p.Covered s) :
    (p.step nx s).1.protection = Protections.perform p.protection s (p.step nx s).2 := by
  obtain ⟨next, contract⟩ := sound.step covered
  cases s with
  | mmap length prot =>
      obtain refused | ⟨slot, free, -, notFailed, result⟩ := @step_mmap nx p length prot sound.offset.2
      · rw [refused]
        exact (if_pos rfl).symm
      · rw [result] at next ⊢
        exact (sound.place_protection next free).trans (if_neg notFailed).symm
  | munmap addr length =>
      simp only [Proc.step, sysMunmap]
      obtain refused | ⟨slot, used, start, size, freed⟩ := cosMmapFree_cases sound addr.toNat length.toNat
      · rw [refused]
        exact (if_pos rfl).symm
      · rw [freed]
        have stop : (p.regions slot).stop = addr.toNat + roundUp length.toNat := by
          have nonempty := (sound.region slot used).nonempty
          omega
        refine (sound.remove_protection used).trans ?_
        rw [start, stop]
        exact (if_neg (by simp [failed, word])).symm
  | mprotect addr length prot =>
      unfold Protections.perform
      by_cases isFailed : (p.step nx (.mprotect addr length prot)).2 = failed
      · rw [if_pos isFailed, contract.1 isFailed]
      · rw [if_neg isFailed]
        have changed := contract.2 isFailed
        funext a
        simp only [Protections.write]
        split
        · exact changed.named a ‹_ ∧ _›.1 ‹_ ∧ _›.2
        · exact changed.others a ‹_›
  | fault addr luck =>
      refine Eq.trans ?_ (if_neg (by simp [Proc.step, failed, word])).symm
      simp only [Proc.step, handlePageFault]
      cases slots.find? (p.covers (addr.toNat / pageSize * pageSize)) <;> rfl
  | elsewhere pages => exact (if_neg (by simp [Proc.step, failed, word])).symm

theorem Sound.run_protection (sound : Sound nx p) {steps : List Step}
    (covered : AllCovered nx p steps) :
    Sound nx (p.run nx steps) ∧
    (p.run nx steps).protection = performed nx p p.protection steps := by
  induction steps generalizing p with
  | nil => exact ⟨sound, rfl⟩
  | cons s rest ih =>
      obtain ⟨here, later⟩ := covered
      have reached := ih (sound.step here).1 later
      rw [sound.step_protection here] at reached
      exact reached

end Proc

/-- The table is the map that the calls of the process describe, and a resident page has what the
map says. -/
theorem native_regions_refine (nx : Bool) (slide : Nat) (steps : List Step)
    (covered : (Proc.create slide).AllCovered nx steps) :
    ((Proc.create slide).run nx steps).protection =
    (Proc.create slide).performed nx (fun _ => none) steps ∧ ∀ page flags, InWindow page → ((Proc.create slide).run nx steps).pages page = some flags →
      ∃ writable executable, (Proc.create slide).performed nx (fun _ => none) steps (page * pageSize) =
        some (writable, executable) ∧ flags = Proc.protFlags nx writable executable := by
  have empty : (Proc.create slide).protection = fun _ => none := by
    funext a
    exact Proc.protection_none fun i => rfl
  obtain ⟨sound, same⟩ := (@Proc.Sound.create nx slide).run_protection covered
  rw [empty] at same
  refine ⟨same, fun page flags window resident => ?_⟩
  obtain ⟨i, inside⟩ := sound.backed page window (by rw [resident]; exact Option.some_ne_none flags)
  rw [← same]
  exact ⟨_, _, sound.unique.protection inside, sound.resident page i flags inside resident⟩

/-- Two pages are mapped and touched, and the second becomes code. -/
def codeCalls : List Step :=
  [.mmap 8192#64 3#64, .fault 0x28000001000#64 true, .mprotect 0x28000001000#64 4096#64 5#64]

theorem native_regions_refine_code :
    ((Proc.create 0).run true codeCalls).protection =
    (Proc.create 0).performed true (fun _ => none) codeCalls :=
  (native_regions_refine true 0 codeCalls
    (And.intro (Or.inl (by decide)) (And.intro trivial (And.intro (Or.inl (by decide)) trivial)))).1

end Cos.Mmap
