import DemandPaging.Word

/-!
# Maps from addresses

A finite map whose keys are addresses, kept as a list of pairs in ascending order of the keys.
The order is part of the type, so a map is determined by its look-ups: `AddressMap.ext_get?`.
-/

namespace DemandPaging

/-- A finite map from addresses, listed in ascending order. -/
structure AddressMap (α : Type) where
  entries : List (Vaddr × α)
  /-- Each key is below the keys that follow it. -/
  ascending : entries.Pairwise fun a b => a.1 < b.1

namespace AddressMap

variable {α : Type}

/-! ## Association lists in ascending order -/

def insertEntry (k : Vaddr) (v : α) : List (Vaddr × α) → List (Vaddr × α)
  | [] => [(k, v)]
  | e :: rest =>
      if k < e.1 then (k, v) :: e :: rest
      else if k = e.1 then (k, v) :: rest
      else e :: insertEntry k v rest

def findEntry (k : Vaddr) : List (Vaddr × α) → Option α
  | [] => none
  | e :: rest => if k = e.1 then some e.2 else findEntry k rest

theorem mem_insertEntry {k : Vaddr} {v : α} {a : Vaddr × α} {l : List (Vaddr × α)}
    (h : a ∈ insertEntry k v l) : a = (k, v) ∨ a ∈ l := by
  induction l with
  | nil => simpa [insertEntry] using h
  | cons e rest ih => grind [insertEntry]

theorem insertEntry_pairwise (k : Vaddr) (v : α) {l : List (Vaddr × α)}
    (h : l.Pairwise fun a b => a.1 < b.1) :
    (insertEntry k v l).Pairwise fun a b => a.1 < b.1 := by
  induction l with
  | nil => simp [insertEntry]
  | cons e rest ih =>
      rcases List.pairwise_cons.mp h with ⟨hhead, htail⟩
      unfold insertEntry
      split
      · rename_i hlt
        refine List.pairwise_cons.mpr ⟨?_, h⟩
        intro a ha
        rcases List.mem_cons.mp ha with rfl | hmem
        · exact hlt
        · exact UInt64.lt_trans hlt (hhead a hmem)
      · split
        · rename_i heq
          refine List.pairwise_cons.mpr ⟨?_, htail⟩
          intro a ha
          exact heq ▸ hhead a ha
        · rename_i hnlt hne
          refine List.pairwise_cons.mpr ⟨?_, ih htail⟩
          intro a ha
          rcases mem_insertEntry ha with rfl | hmem
          · exact UInt64.lt_of_le_of_ne (UInt64.not_lt.mp hnlt) (Ne.symm hne)
          · exact hhead a hmem

theorem findEntry_insertEntry (k j : Vaddr) (v : α) (l : List (Vaddr × α)) :
    findEntry j (insertEntry k v l) = if j = k then some v else findEntry j l := by
  induction l with
  | nil => simp [insertEntry, findEntry]
  | cons e rest ih => grind [insertEntry, findEntry]

theorem findEntry_filter (k j : Vaddr) (l : List (Vaddr × α)) :
    findEntry j (l.filter fun e => e.1 != k) = if j = k then none else findEntry j l := by
  induction l with
  | nil => simp [findEntry]
  | cons e rest ih => grind [findEntry]

theorem findEntry_map (k j : Vaddr) (f : α → α) (l : List (Vaddr × α)) :
    findEntry j (l.map fun e => if e.1 = k then (e.1, f e.2) else e) =
      if j = k then (findEntry j l).map f else findEntry j l := by
  induction l with
  | nil => simp [findEntry]
  | cons e rest ih => grind [findEntry]

theorem findEntry_eq_none_of_lt {k : Vaddr} {l : List (Vaddr × α)}
    (h : ∀ e ∈ l, k < e.1) : findEntry k l = none := by
  induction l with
  | nil => rfl
  | cons e rest ih =>
      have hne : k ≠ e.1 := UInt64.ne_of_lt (h e List.mem_cons_self)
      rw [findEntry, if_neg hne]
      exact ih fun a ha => h a (List.mem_cons_of_mem e ha)

theorem findEntry_eq_some_iff {k : Vaddr} {v : α} {l : List (Vaddr × α)}
    (h : l.Pairwise fun a b => a.1 < b.1) : findEntry k l = some v ↔ (k, v) ∈ l := by
  induction l with
  | nil => simp [findEntry]
  | cons e rest ih =>
      rcases List.pairwise_cons.mp h with ⟨hhead, htail⟩
      unfold findEntry
      split
      · rename_i heq
        constructor
        · intro hv
          cases hv
          subst heq
          exact List.mem_cons_self
        · intro hmem
          rcases List.mem_cons.mp hmem with hcase | hcase
          · rw [← hcase]
          · exact absurd (heq ▸ hhead _ hcase) (UInt64.lt_irrefl _)
      · rename_i hne
        rw [ih htail]
        constructor
        · exact List.mem_cons_of_mem e
        · intro hmem
          rcases List.mem_cons.mp hmem with hcase | hcase
          · exact absurd (congrArg Prod.fst hcase) hne
          · exact hcase

/-! ## Operations -/

def empty : AddressMap α := ⟨[], List.Pairwise.nil⟩

instance : EmptyCollection (AddressMap α) := ⟨empty⟩

instance : Inhabited (AddressMap α) := ⟨empty⟩

def get? (m : AddressMap α) (k : Vaddr) : Option α :=
  findEntry k m.entries

def contains (m : AddressMap α) (k : Vaddr) : Bool :=
  (m.get? k).isSome

def insert (m : AddressMap α) (k : Vaddr) (v : α) : AddressMap α where
  entries := insertEntry k v m.entries
  ascending := insertEntry_pairwise k v m.ascending

def erase (m : AddressMap α) (k : Vaddr) : AddressMap α where
  entries := m.entries.filter fun e => e.1 != k
  ascending := m.ascending.filter _

def modify (m : AddressMap α) (k : Vaddr) (f : α → α) : AddressMap α where
  entries := m.entries.map fun e => if e.1 = k then (e.1, f e.2) else e
  ascending := by
    refine List.pairwise_map.mpr (m.ascending.imp ?_)
    intro a b hab
    split <;> split <;> exact hab

def size (m : AddressMap α) : Nat :=
  m.entries.length

def isEmpty (m : AddressMap α) : Bool :=
  m.entries.isEmpty

def keys (m : AddressMap α) : List Vaddr :=
  m.entries.map Prod.fst

def values (m : AddressMap α) : List α :=
  m.entries.map Prod.snd

/-- Whether an address from `start` on and below `stop` has a value. -/
def occupied (m : AddressMap α) (start stop : Vaddr) : Bool :=
  m.entries.any fun e => decide (start ≤ e.1) && decide (e.1 < stop)

/-! ## Laws of the operations -/

@[simp]
theorem get?_empty (k : Vaddr) : (empty : AddressMap α).get? k = none := rfl

theorem get?_insert (m : AddressMap α) (k j : Vaddr) (v : α) :
    (m.insert k v).get? j = if j = k then some v else m.get? j :=
  findEntry_insertEntry k j v m.entries

theorem get?_erase (m : AddressMap α) (k j : Vaddr) :
    (m.erase k).get? j = if j = k then none else m.get? j :=
  findEntry_filter k j m.entries

theorem get?_modify (m : AddressMap α) (k j : Vaddr) (f : α → α) :
    (m.modify k f).get? j = if j = k then (m.get? j).map f else m.get? j :=
  findEntry_map k j f m.entries

theorem get?_eq_some_iff {m : AddressMap α} {k : Vaddr} {v : α} :
    m.get? k = some v ↔ (k, v) ∈ m.entries :=
  findEntry_eq_some_iff m.ascending

theorem contains_eq_false_iff {m : AddressMap α} {k : Vaddr} :
    m.contains k = false ↔ m.get? k = none := by
  rw [contains, Option.isSome_eq_false_iff, Option.isNone_iff_eq_none]

theorem mem_keys_iff {m : AddressMap α} {k : Vaddr} :
    k ∈ m.keys ↔ ∃ v, m.get? k = some v := by
  constructor
  · intro h
    rcases List.mem_map.mp h with ⟨e, he, rfl⟩
    exact ⟨e.2, get?_eq_some_iff.mpr he⟩
  · intro h
    rcases h with ⟨v, hv⟩
    exact List.mem_map.mpr ⟨(k, v), get?_eq_some_iff.mp hv, rfl⟩

theorem mem_values_iff {m : AddressMap α} {v : α} : v ∈ m.values ↔ ∃ k, m.get? k = some v := by
  constructor
  · intro h
    rcases List.mem_map.mp h with ⟨e, he, rfl⟩
    exact ⟨e.1, get?_eq_some_iff.mpr he⟩
  · intro h
    rcases h with ⟨k, hv⟩
    exact List.mem_map.mpr ⟨(k, v), get?_eq_some_iff.mp hv, rfl⟩

theorem keys_ascending (m : AddressMap α) : m.keys.Pairwise (· < ·) :=
  List.pairwise_map.mpr m.ascending

theorem keys_nodup (m : AddressMap α) : m.keys.Nodup :=
  m.keys_ascending.imp UInt64.ne_of_lt

theorem occupied_eq_true_iff {m : AddressMap α} {start stop : Vaddr} :
    m.occupied start stop = true ↔
      ∃ k v, m.get? k = some v ∧ start ≤ k ∧ k < stop := by
  unfold occupied
  rw [List.any_eq_true]
  constructor
  · intro h
    rcases h with ⟨e, he, hin⟩
    simp only [Bool.and_eq_true, decide_eq_true_eq] at hin
    exact ⟨e.1, e.2, get?_eq_some_iff.mpr he, hin⟩
  · intro h
    rcases h with ⟨k, v, hget, hin⟩
    refine ⟨(k, v), get?_eq_some_iff.mp hget, ?_⟩
    simpa only [Bool.and_eq_true, decide_eq_true_eq] using hin

/-! ## A map is its look-ups -/

theorem entries_eq_of_findEntry_eq {l r : List (Vaddr × α)}
    (hl : l.Pairwise fun a b => a.1 < b.1) (hr : r.Pairwise fun a b => a.1 < b.1)
    (h : ∀ k, findEntry k l = findEntry k r) : l = r := by
  induction l generalizing r with
  | nil =>
      cases r with
      | nil => rfl
      | cons e rest =>
          have hk := h e.1
          simp [findEntry] at hk
  | cons d left ih =>
      cases r with
      | nil =>
          have hk := h d.1
          simp [findEntry] at hk
      | cons e right =>
          rcases List.pairwise_cons.mp hl with ⟨hd, hleft⟩
          rcases List.pairwise_cons.mp hr with ⟨he, hright⟩
          have hmemd : (d.1, d.2) ∈ e :: right := by
            rw [← findEntry_eq_some_iff hr, ← h, findEntry_eq_some_iff hl]
            exact List.mem_cons_self
          have hmeme : (e.1, e.2) ∈ d :: left := by
            rw [← findEntry_eq_some_iff hl, h, findEntry_eq_some_iff hr]
            exact List.mem_cons_self
          have hhead : d = e := by
            rcases List.mem_cons.mp hmemd with hcase | hcase
            · exact hcase
            · rcases List.mem_cons.mp hmeme with hcase' | hcase'
              · exact hcase'.symm
              · exact absurd (UInt64.lt_trans (he _ hcase) (hd _ hcase')) (UInt64.lt_irrefl _)
          subst hhead
          congr 1
          apply ih hleft hright
          intro k
          have hk := h k
          unfold findEntry at hk
          by_cases hkd : k = d.1
          · subst hkd
            rw [findEntry_eq_none_of_lt hd, findEntry_eq_none_of_lt he]
          · rwa [if_neg hkd, if_neg hkd] at hk

theorem ext_get? {m n : AddressMap α} (h : ∀ k, m.get? k = n.get? k) : m = n := by
  rcases m with ⟨l, hl⟩
  rcases n with ⟨r, hr⟩
  have heq : l = r := entries_eq_of_findEntry_eq hl hr h
  subst heq
  rfl

theorem modify_modify (m : AddressMap α) (k : Vaddr) (f g : α → α) :
    (m.modify k f).modify k g = m.modify k fun v => g (f v) := by
  apply ext_get?
  intro j
  rw [get?_modify, get?_modify, get?_modify]
  by_cases hj : j = k
  · rw [if_pos hj, if_pos hj, if_pos hj, Option.map_map]
    rfl
  · rw [if_neg hj, if_neg hj, if_neg hj]

end AddressMap
end DemandPaging
