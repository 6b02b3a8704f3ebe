import DemandPaging.Mmu

/-!
# Mappings of a memory management unit

A mapping leads to a frame and allows writes or not; its dirty and accessed bits are left out of
the view. A call for a mapping on a free address is refused only when the schedule says so. The
last sections follow whole entries, with both bits.
-/

namespace DemandPaging

def PageEntry.unaccessed (e : PageEntry) : PageEntry :=
  { e with accessed := false }

namespace Mmu

def link? (m : Mmu) (va : Vaddr) : Option (Nat × Bool) :=
  (m.mapped? va).map fun e => (e.frame, e.writable)

def HasRefused (m : Mmu) : Prop :=
  ∃ call < m.accepting.calls, m.accepting.outcome call = false

variable {m : Mmu} {va wa : Vaddr} {f : Nat} {w : Bool}

/-! ## New mappings -/

def linked (m : Mmu) (va : Vaddr) (f : Nat) (w : Bool) : Mmu :=
  { m with
    accepting := m.accepting.advance
    entries := m.entries.insert va ⟨f, w, false, false⟩ }

def declined (m : Mmu) : Mmu :=
  { m with accepting := m.accepting.advance }

theorem map_of_free (haligned : va % m.pageSize = 0) (hwilling : m.refusing = false)
    (hfree : m.link? va = none) :
    m.map va f w =
      if m.accepting.peek then (.ok true, m.linked va f w) else (.ok false, m.declined) := by
  have hcontains : m.entries.contains va = false :=
    AddressMap.contains_eq_false_iff.mpr (Option.map_eq_none_iff.mp hfree)
  unfold map
  cases m.accepting.peek with
  | false => rfl
  | true =>
      have hpass : (m.refusing || m.entries.contains va) = false := by
        rw [hwilling, hcontains]
        rfl
      simp only [Bool.not_true, Bool.false_eq_true, if_false, if_true, haligned, hpass, ne_eq,
        not_true_eq_false]
      rfl

theorem link?_linked :
    (m.linked va f w).link? wa = if wa = va then some (f, w) else m.link? wa := by
  unfold link? mapped? linked
  rw [AddressMap.get?_insert]
  split <;> rfl

theorem hasRefused_linked (h : m.HasRefused) : (m.linked va f w).HasRefused := by
  rcases h with ⟨call, hlt, hcall⟩
  exact ⟨call, Nat.lt_succ_of_lt hlt, hcall⟩

theorem hasRefused_declined_of_hasRefused (h : m.HasRefused) : m.declined.HasRefused := by
  rcases h with ⟨call, hlt, hcall⟩
  exact ⟨call, Nat.lt_succ_of_lt hlt, hcall⟩

theorem hasRefused_declined (h : m.accepting.peek = false) : m.declined.HasRefused :=
  ⟨m.accepting.calls, Nat.lt_succ_self _, h⟩

/-! ## Other changes -/

theorem link?_unmap :
    (m.unmap va).2.link? wa = if wa = va then none else m.link? wa := by
  unfold unmap link? mapped?
  rw [AddressMap.get?_erase]
  split <;> rfl

@[simp]
theorem link?_setDirty (m : Mmu) (va wa : Vaddr) (dirty : Bool) :
    (m.setDirty va dirty).link? wa = m.link? wa := by
  unfold setDirty link? mapped?
  rw [AddressMap.get?_modify]
  split
  · cases m.entries.get? wa <;> rfl
  · rfl

@[simp]
theorem link?_setAccessed (m : Mmu) (va wa : Vaddr) (accessed : Bool) :
    (m.setAccessed va accessed).link? wa = m.link? wa := by
  unfold setAccessed link? mapped?
  rw [AddressMap.get?_modify]
  split
  · cases m.entries.get? wa <;> rfl
  · rfl

/-! ## Whole entries -/

theorem mapped?_unmap :
    (m.unmap va).2.mapped? wa = if wa = va then none else m.mapped? wa :=
  AddressMap.get?_erase m.entries va wa

theorem mapped?_map (h : (m.map va f w).1 = .ok true) :
    (m.map va f w).2.mapped? wa =
      if wa = va then some ⟨f, w, false, false⟩ else m.mapped? wa := by
  unfold map at h ⊢
  dsimp only at h ⊢
  split at h
  · cases h
  · split at h
    · cases h
    · split at h
      · cases h
      · rename_i hpass haligned hfree
        rw [if_neg hpass, if_neg haligned, if_neg hfree]
        exact AddressMap.get?_insert m.entries va wa _

theorem mapped?_setDirty (m : Mmu) (va wa : Vaddr) (dirty : Bool) :
    (m.setDirty va dirty).mapped? wa =
      if wa = va then (m.mapped? wa).map fun e => { e with dirty := dirty } else m.mapped? wa :=
  AddressMap.get?_modify m.entries va wa _

theorem mapped?_setAccessed (m : Mmu) (va wa : Vaddr) (accessed : Bool) :
    (m.setAccessed va accessed).mapped? wa =
      if wa = va then (m.mapped? wa).map fun e => { e with accessed := accessed }
      else m.mapped? wa :=
  AddressMap.get?_modify m.entries va wa _

/-! ## A mapping that is put back -/

/-- The unit accepts the mapping of an address again that is taken away. -/
def readmits (m : Mmu) (va : Vaddr) (f : Nat) (w : Bool) : Bool :=
  match ((m.unmap va).2.map va f w).1 with
  | .ok accepted => accepted
  | .error _ => false

theorem map_unmap_of_readmits (h : m.readmits va f w = true) :
    ((m.unmap va).2.map va f w).1 = .ok true := by
  unfold readmits at h
  split at h
  · rename_i accepted haccepted
    rw [haccepted, h]
  · contradiction

def remapped (m : Mmu) (va : Vaddr) (f : Nat) (w dirty : Bool) : Mmu :=
  if dirty then (m.map va f w).2.setDirty va true else (m.map va f w).2

theorem mapped?_remapped {dirty : Bool} (h : (m.map va f w).1 = .ok true) :
    (m.remapped va f w dirty).mapped? wa =
      if wa = va then some ⟨f, w, dirty, false⟩ else m.mapped? wa := by
  cases dirty with
  | true =>
      refine (mapped?_setDirty (m.map va f w).2 va wa true).trans ?_
      rw [mapped?_map h]
      split <;> rfl
  | false => exact mapped?_map h

/-- A mapping that is put back with its dirty bit is as before but for its accessed bit. -/
theorem mapped?_restored {e : PageEntry}
    (h : m.readmits va e.frame e.writable = true) :
    ((m.unmap va).2.remapped va e.frame e.writable e.dirty).mapped? wa =
      if wa = va then some e.unaccessed else m.mapped? wa := by
  rw [mapped?_remapped (map_unmap_of_readmits h), mapped?_unmap]
  split <;> rfl

end Mmu
end DemandPaging
