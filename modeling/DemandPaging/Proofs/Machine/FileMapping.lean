import DemandPaging.Machine.FileMapping
import DemandPaging.Proofs.Machine.Registration

/-!
# File mappings on a sound machine

Mapping a file only registers pages and unmapping it only drops them, so both keep the machine
sound, also when a mapping is given up half-way.
-/

namespace DemandPaging

theorem Layout.toNat_mul_pageSize {l : Layout} {i : Nat} (h : i * l.pageBytes < UInt64.size) :
    (UInt64.ofNat i * l.pageSize).toNat = i * l.pageBytes := by
  have hi : i < UInt64.size := by
    refine Nat.lt_of_le_of_lt ?_ h
    exact Nat.le_mul_of_pos_right i l.pageBytes_pos
  rw [UInt64.toNat_mul, UInt64.toNat_ofNat_of_lt' hi]
  exact Nat.mod_eq_of_lt h

namespace Machine

open Routine

variable {m : Machine} {mem : FlatMemory} {fatal : Abort → Prop} {p : Nat}

/-! ## Mapping -/

theorem mappedPage_cases (l : Layout) (p : Nat) (base va : Vaddr) (writable : Bool)
    (x : FileExtent) :
    (∃ e, mappedPage l p base va writable x = .error (.failed e)) ∨
      mappedPage l p base va writable x = .ok
        ⟨0, va, writable, false, none, some base, p, l.pageSize, .uninit (.file x)⟩ := by
  unfold mappedPage
  rcases Page.create_cases l.pageSize_ne_zero with ⟨e, he⟩ | ⟨origin, horigin, hpage⟩
  · rw [he]
    exact Or.inl ⟨e, rfl⟩
  · cases horigin
    rw [hpage]
    exact Or.inr rfl

theorem mappedPage_of_aligned {l : Layout} {p : Nat} {base va : Vaddr} {writable : Bool}
    {x : FileExtent} (haligned : Word.isAligned va l.pageSize = true) :
    mappedPage l p base va writable x = .ok
      ⟨0, va, writable, false, none, some base, p, l.pageSize, .uninit (.file x)⟩ := by
  unfold mappedPage Page.create
  rw [Word.isAlignedOrAbort_eq l.pageSize_ne_zero, haligned]
  rfl

theorem size_lt_of_extent {l : Layout} {start stop : Vaddr} {offset : UInt64} {i : Nat}
    (hi : i < (stop - start).toNat / l.pageBytes)
    (h : UInt64.size ≤ offset.toNat + (UInt64.ofNat i * l.pageSize).toNat) :
    UInt64.size < offset.toNat + (stop - start).toNat := by
  have hpos := l.pageBytes_pos
  have hspan : (i + 1) * l.pageBytes ≤ (stop - start).toNat :=
    Nat.le_trans (Nat.mul_le_mul_right _ hi) (Nat.div_mul_le_self _ _)
  have hsize := (stop - start).toNat_lt_size
  rw [Nat.succ_mul] at hspan
  rw [Layout.toNat_mul_pageSize (by omega)] at h
  omega

theorem ends_registerMapped {base : Vaddr} {writable : Bool} {f : Nat} {offset : UInt64}
    {count index : Nat} {va : Vaddr} {remaining : UInt64} (k : m.Sound {} mem)
    (hfatal : ∀ i, index ≤ i → i < index + count →
      UInt64.size ≤ offset.toNat + (UInt64.ofNat i * m.layout.pageSize).toNat →
        fatal .addOverflow) :
    Ends (registerMapped p base writable f offset count index va remaining) m fatal
      (fun _ next => m.Inherits next ∧ next.Sound {} mem)
      fun _ next => m.Inherits next ∧ next.Sound {} mem := by
  induction count generalizing m index va remaining with
  | zero => exact ⟨.refl m, k⟩
  | succ count ih =>
      unfold registerMapped
      rw [ends_bind, ends_get]
      dsimp only
      rw [ends_bind]
      unfold Layout.mappedExtent Word.addOrAbort
      cases hstart : Word.checkedAdd offset (UInt64.ofNat index * m.layout.pageSize) with
      | none =>
          exact hfatal index (Nat.le_refl index) (Nat.lt_add_of_pos_right (Nat.succ_pos count))
            (Word.size_le_of_checkedAdd hstart)
      | some start =>
          rw [show Except.map _ (Except.ok start) = Except.ok _ from rfl, ends_ofAbort_ok,
            ends_bind]
          rcases mappedPage_cases m.layout p base va writable
            ⟨f, start, min remaining m.layout.pageSize,
              m.layout.pageSize - min remaining m.layout.pageSize⟩ with ⟨e, he⟩ | hpage
          · rw [he]
            exact ⟨.refl m, k⟩
          · rw [hpage, ends_ofStop_ok, ends_bind, ends_attempt]
            refine Ends.mono (ends_register (fun _ => k) rfl rfl rfl rfl
              (fun _ hx => (by contradiction)) fun hx => by contradiction) ?_ ?_
            · intro _ next hend
              rcases hend with ⟨-, rfl, hp, -, knext⟩
              -- The reasons for an abort in the rest are among those for the whole range.
              have hlater : ∀ i, index + 1 ≤ i → i < index + 1 + count →
                  UInt64.size ≤ offset.toNat + (UInt64.ofNat i * m.layout.pageSize).toNat →
                    fatal .addOverflow :=
                fun i hfrom hto => hfatal i (Nat.le_of_succ_le hfrom) (by omega)
              refine (ih knext hlater).mono ?_ ?_
              · intro _ last hlast
                exact ⟨(Inherits.withPage hp rfl).trans hlast.1, hlast.2⟩
              · intro _ last hlast
                exact ⟨(Inherits.withPage hp rfl).trans hlast.1, hlast.2⟩
            · intro _ next heq
              subst heq
              exact ⟨.refl _, k⟩

theorem ends_registerRange {start stop : Vaddr} {length : UInt64} {writable : Bool} {f : Nat}
    {offset : UInt64} (k : m.Sound {} mem)
    (hfatal : ∀ i, i < (stop - start).toNat / m.layout.pageBytes →
      UInt64.size ≤ offset.toNat + (UInt64.ofNat i * m.layout.pageSize).toNat →
        fatal .addOverflow) :
    Ends (registerRange p start stop length writable f offset) m fatal
      (fun _ next => m.Inherits next ∧ next.Sound {} mem)
      fun _ next => m.Inherits next ∧ next.Sound {} mem := by
  unfold registerRange
  rw [ends_bind, ends_get]
  dsimp only
  rw [ends_bind]
  refine (ends_registerMapped k fun i _ hi => hfatal i (by omega)).mono ?_ fun _ _ hnext => hnext
  intro hfirst next hsecond
  rcases hfirst with ⟨registered, failure⟩
  rcases hsecond with ⟨hinherits, knext⟩
  cases failure with
  | some e =>
      dsimp only
      rw [ends_bind]
      refine (ends_dropPages knext).mono ?_ fun _ _ hfalse => hfalse.elim
      intro _ last hlast
      exact ⟨hinherits.trans (.of_cleared hlast.1), hlast.2⟩
  | none =>
      dsimp only
      rw [ends_bind, ends_report, ends_modify]
      exact ⟨hinherits.trans (.of_alike ((AlikeBut.recorded next _).trans
        (.modifyMappings _ p _))), (knext.recorded _).modifyMappings p _⟩

theorem ends_mapFile {start : Vaddr} {length : UInt64} {writable : Bool} {f : Nat}
    {offset : UInt64} (k : m.Sound {} mem)
    (hfatal : ∀ stop, m.layout.mappingEnd start length = some stop →
      UInt64.size < offset.toNat + (stop - start).toNat → fatal .addOverflow) :
    Ends (mapFile p start length writable f offset) m fatal
      (fun _ next => m.Inherits next ∧ next.Sound {} mem)
      fun _ next => m.Inherits next ∧ next.Sound {} mem := by
  unfold mapFile
  rw [ends_bind, ends_get]
  dsimp only
  rw [ends_bind, ends_require]
  split
  · rw [ends_bind, ends_require]
    split
    · rw [ends_bind]
      cases hend : m.layout.mappingEnd start length with
      | none => exact ⟨.refl m, k⟩
      | some stop =>
          rw [ends_orFail_some, ends_bind, ends_require]
          split
          · rw [ends_bind]
            exact ends_registerRange k fun i hi hsize =>
              hfatal stop hend (size_lt_of_extent hi hsize)
          · exact ⟨.refl m, k⟩
    · exact ⟨.refl m, k⟩
  · exact ⟨.refl m, k⟩

/-! ## Unmapping -/

theorem ends_mappingBaseAt {va : Vaddr} (k : m.Sound {} mem) :
    Ends (mappingBaseAt p va) m fatal
      (fun _ next => m.AlikeBut Nowhere next ∧ next.Sound {} mem) fun _ _ => False := by
  unfold mappingBaseAt
  rw [ends_bind, ends_get]
  cases m.lookup p va with
  | none => exact ⟨.refl m, k⟩
  | some page =>
      refine (ends_mappingOf k List.not_mem_nil).mono ?_ fun _ _ hfalse => hfalse
      intro _ next hnext
      exact ⟨.of_beside hnext.2.1, hnext.2.2⟩

theorem ends_unmapBase {base : Vaddr} (k : m.Sound {} mem) :
    Ends (unmapBase p base) m fatal (fun _ next => m.Inherits next ∧ next.Sound {} mem)
      fun _ _ => False := by
  unfold unmapBase
  rw [ends_bind, ends_get]
  cases (m.process p).mappings.get? base with
  | none => exact ⟨.refl m, k⟩
  | some mapping =>
      dsimp only
      rw [ends_bind, ends_modify, ends_bind]
      refine (ends_dropPages (k.modifyMappings p _)).mono ?_ fun _ _ hfalse => hfalse
      intro _ next hnext
      have hinherits := (Inherits.of_alike (.modifyMappings m p _)).trans (.of_cleared hnext.1)
      exact ⟨{ hinherits with }, hnext.2.recorded _⟩

theorem ends_unmapFile {va : Vaddr} (k : m.Sound {} mem) :
    Ends (unmapFile p va) m fatal (fun _ next => m.Inherits next ∧ next.Sound {} mem)
      fun _ next => m.Inherits next ∧ next.Sound {} mem := by
  unfold unmapFile
  rw [ends_bind]
  refine (ends_mappingBaseAt k).mono ?_ fun _ _ hfalse => hfalse.elim
  intro base next hnext
  have hasked := Inherits.of_alike hnext.1
  cases base with
  | none => exact ⟨hasked, hnext.2⟩
  | some base =>
      refine (ends_unmapBase hnext.2).mono ?_ fun _ _ hfalse => hfalse.elim
      intro _ last hlast
      exact ⟨hasked.trans hlast.1, hlast.2⟩

theorem ends_mappingAt {va : Vaddr} (k : m.Sound {} mem) :
    Ends (mappingAt p va) m fatal (fun _ next => m.AlikeBut Nowhere next ∧ next.Sound {} mem)
      fun _ _ => False := by
  unfold mappingAt
  rw [ends_bind]
  refine (ends_mappingBaseAt k).mono ?_ fun _ _ hfalse => hfalse
  intro base next hnext
  cases base with
  | none => exact hnext
  | some base => exact hnext

end Machine
end DemandPaging
