import DemandPaging.Machine.UserAccess
import DemandPaging.Proofs.Mmu.Bytewise
import DemandPaging.Proofs.Routine

/-!
# How far an access comes

An access comes to its first byte that faults. The bytes before are stored or delivered, and their
pages and no others are marked. As each turn of an access takes a byte at least, an access of any
length ends.
-/

namespace DemandPaging
namespace Mmu

variable {m n : Mmu} {memory : List Bytes} {va : Vaddr} {write : Bool} {count done : Nat}
variable {fault : AccessFault} {stop? : Option AccessFault}

/-! ## The first fault -/

/-- An access of `length` bytes comes to its end, or to the first byte that faults, which is the one
behind `done` others. -/
inductive Reaches (m : Mmu) (write : Bool) (va : Vaddr) (length : Nat) :
    Nat → Option AccessFault → Prop where
  | all :
      (∀ i, i < length → m.byteFault? write (va + UInt64.ofNat i) = none) →
      Reaches m write va length length none
  | upTo {done : Nat} {fault : AccessFault} :
      done < length →
      (∀ i, i < done → m.byteFault? write (va + UInt64.ofNat i) = none) →
      m.byteFault? write (va + UInt64.ofNat done) = some fault →
      Reaches m write va length done (some fault)

theorem reaches_zero (m : Mmu) (write : Bool) (va : Vaddr) : m.Reaches write va 0 0 none :=
  .all fun _ hi => absurd hi (Nat.not_lt_zero _)

theorem reaches_fault (h : m.byteFault? write va = some fault) (count : Nat) :
    m.Reaches write va (count + 1) 0 (some fault) := by
  refine .upTo (Nat.succ_pos count) (fun _ hi => absurd hi (Nat.not_lt_zero _)) ?_
  rw [show va + UInt64.ofNat 0 = va from UInt64.add_zero va]
  exact h

theorem forall_bytes_succ {P : Vaddr → Prop} (h : P va)
    (hrest : ∀ i, i < count → P (va + 1 + UInt64.ofNat i)) :
    ∀ i, i < count + 1 → P (va + UInt64.ofNat i) := by
  intro i hi
  cases i with
  | zero =>
      rw [show va + UInt64.ofNat 0 = va from UInt64.add_zero va]
      exact h
  | succ i =>
      rw [← add_one_add_ofNat]
      exact hrest i (Nat.lt_of_succ_lt_succ hi)

theorem Reaches.succ (h : m.byteFault? write va = none) (htouched : m.Touched n)
    (hrest : n.Reaches write (va + 1) count done stop?) :
    m.Reaches write va (count + 1) (done + 1) stop? := by
  cases hrest with
  | all hall =>
      refine .all (forall_bytes_succ (P := fun wa => m.byteFault? write wa = none) h ?_)
      intro i hi
      rw [← htouched.byteFault?]
      exact hall i hi
  | upTo hlt hbefore hfault =>
      refine .upTo (Nat.succ_lt_succ hlt)
        (forall_bytes_succ (P := fun wa => m.byteFault? write wa = none) h ?_) ?_
      · intro i hi
        rw [← htouched.byteFault?]
        exact hbefore i hi
      · rw [← add_one_add_ofNat, ← htouched.byteFault?]
        exact hfault

theorem Reaches.eq_none_iff (h : m.Reaches write va count done stop?) :
    stop? = none ↔ ∀ i, i < count → m.byteFault? write (va + UInt64.ofNat i) = none := by
  cases h with
  | all hall => exact ⟨fun _ => hall, fun _ => rfl⟩
  | @upTo _ fault hlt _ hfault =>
      constructor
      · intro hnone
        contradiction
      · intro hall
        rw [hall done hlt] at hfault
        contradiction

def ended : Option AccessFault → Except AccessStop Unit
  | none => .ok ()
  | some fault => .error (.faulted fault)

theorem ended_eq_ok_iff : ended stop? = .ok () ↔ stop? = none := by
  cases stop? with
  | none => exact ⟨fun _ => rfl, fun _ => rfl⟩
  | some fault => exact ⟨fun h => by contradiction, fun h => by contradiction⟩

/-- The pages of the first `done` bytes are marked, and nothing else has changed. -/
structure Marks (m : Mmu) (write : Bool) (va : Vaddr) (done : Nat) (n : Mmu) : Prop where
  touched : m.Touched n
  reached : ∀ i, i < done →
    n.mapped? (m.pageStart (va + UInt64.ofNat i)) =
      (m.mapped? (m.pageStart (va + UInt64.ofNat i))).map (PageEntry.touched write)
  others : ∀ wa, (∀ i, i < done → m.pageStart (va + UInt64.ofNat i) ≠ wa) →
    n.mapped? wa = m.mapped? wa

theorem marks_zero (m : Mmu) (write : Bool) (va : Vaddr) : m.Marks write va 0 m where
  touched := .refl m
  reached := fun _ hi => absurd hi (Nat.not_lt_zero _)
  others := fun _ _ => rfl

theorem Marks.succ (hrest : (m.touch write va).Marks write (va + 1) done n) :
    m.Marks write va (done + 1) n where
  touched := (m.touched_touch write va).trans hrest.touched
  reached := by
    have hagain : ∀ wa, ((m.touch write va).mapped? wa).map (PageEntry.touched write) =
        (m.mapped? wa).map (PageEntry.touched write) := by
      intro wa
      rw [mapped?_touch]
      split
      · rw [Option.map_map, show PageEntry.touched write ∘ PageEntry.touched write =
          PageEntry.touched write from funext (PageEntry.touched_touched write)]
      · rfl
    have hlater : ∀ i, i < done → n.mapped? (m.pageStart (va + 1 + UInt64.ofNat i)) =
        (m.mapped? (m.pageStart (va + 1 + UInt64.ofNat i))).map (PageEntry.touched write) := by
      intro i hi
      rw [← hagain]
      exact hrest.reached i hi
    refine forall_bytes_succ (P := fun wa => n.mapped? (m.pageStart wa) =
      (m.mapped? (m.pageStart wa)).map (PageEntry.touched write)) ?_ hlater
    -- A later byte of the same page marks the page again; otherwise it stays as it was marked.
    by_cases hsame : ∃ i, i < done ∧ m.pageStart (va + 1 + UInt64.ofNat i) = m.pageStart va
    · rcases hsame with ⟨i, hi, heq⟩
      have hmarked := hlater i hi
      rwa [heq] at hmarked
    · have hkept := hrest.others (m.pageStart va) fun i hi heq => hsame ⟨i, hi, heq⟩
      rw [hkept, mapped?_touch, if_pos rfl]
  others := by
    intro wa hne
    have hfirst : m.pageStart va ≠ wa := by
      have hzero := hne 0 (Nat.succ_pos done)
      rwa [show va + UInt64.ofNat 0 = va from UInt64.add_zero va] at hzero
    have hkept : n.mapped? wa = (m.touch write va).mapped? wa := by
      apply hrest.others
      intro i hi
      rw [add_one_add_ofNat]
      exact hne (i + 1) (Nat.succ_lt_succ hi)
    rw [hkept, mapped?_touch, if_neg (Ne.symm hfirst)]

theorem Touched.storeBytes (h : m.Touched n) (memory : List Bytes) (va : Vaddr) (data : Bytes) :
    n.storeBytes memory va data = m.storeBytes memory va data := by
  induction data generalizing memory va with
  | nil => rfl
  | cons b rest ih => rw [Mmu.storeBytes, Mmu.storeBytes, storeByte, h.translate, ← storeByte, ih]

theorem writeBytes_spec (memory : List Bytes) (m : Mmu) (va : Vaddr) (data : Bytes) :
    let effect := writeBytes memory m va data
    ∃ stop?, m.Reaches true va data.length effect.written stop? ∧ effect.result = ended stop? ∧
      effect.memory = m.storeBytes memory va (data.take effect.written) ∧
      m.Marks true va effect.written effect.mmu := by
  induction data generalizing memory m va with
  | nil => exact ⟨none, reaches_zero m true va, rfl, rfl, marks_zero m true va⟩
  | cons b rest ih =>
      unfold writeBytes
      cases hfault : m.byteFault? true va with
      | some fault => exact ⟨some fault, reaches_fault hfault _, rfl, rfl, marks_zero m true va⟩
      | none =>
          rcases ih (m.storeByte memory va b) (m.touch true va) (va + 1) with
            ⟨stop?, hreaches, hresult, hmemory, hmarks⟩
          refine ⟨stop?, hreaches.succ hfault (m.touched_touch true va), hresult, ?_, hmarks.succ⟩
          rw [(m.touched_touch true va).storeBytes] at hmemory
          exact hmemory

theorem Delivers.cons {b : UInt8} {bytes : Bytes} (h : m.byteAt? memory va = some b)
    (hrest : m.Delivers memory (va + 1) count bytes) :
    m.Delivers memory va (count + 1) (b :: bytes) := by
  refine ⟨congrArg (· + 1) hrest.1, ?_⟩
  intro i hi
  cases i with
  | zero =>
      rw [show va + UInt64.ofNat 0 = va from UInt64.add_zero va]
      exact h.symm
  | succ i =>
      rw [← add_one_add_ofNat]
      exact hrest.2 i (Nat.lt_of_succ_lt_succ hi)

theorem readBytes_spec (hsize : 0 < m.pageSize.toNat) (hbacked : m.Backed memory) (va : Vaddr)
    (count : Nat) :
    let effect := readBytes memory count m va
    ∃ stop?, m.Reaches false va count effect.delivered.length stop? ∧
      effect.result = ended stop? ∧
      m.Delivers memory va effect.delivered.length effect.delivered ∧
      m.Marks false va effect.delivered.length effect.mmu := by
  induction count generalizing m va with
  | zero =>
      exact ⟨none, reaches_zero m false va, rfl, delivers_nil m memory va, marks_zero m false va⟩
  | succ count ih =>
      unfold readBytes
      cases hfault : m.byteFault? false va with
      | some fault =>
          rcases byteAt?_of_fault hfault with ⟨rfl, hbyte⟩
          rw [hbyte]
          exact ⟨some (.notPresent va), reaches_fault hfault count, rfl, delivers_nil m memory va,
            marks_zero m false va⟩
      | none =>
          rcases byteFault?_false_eq_none_iff.mp hfault with ⟨⟨f, w⟩, hlink⟩
          have hinside : (va % m.pageSize).toNat < (memory.getD f []).length := by
            rw [hbacked _ _ _ hlink]
            exact offset_lt va hsize
          have hbyte : m.byteAt? memory va =
              some ((memory.getD f [])[(va % m.pageSize).toNat]) := by
            rw [byteAt?_of_link hlink]
            exact List.getElem?_eq_getElem hinside
          have htouched := m.touched_touch false va
          have hsize' : 0 < (m.touch false va).pageSize.toNat := hsize
          rcases ih hsize' (hbacked.touched htouched) (va + 1) with
            ⟨stop?, hreaches, hresult, hdelivers, hmarks⟩
          rw [hbyte]
          exact ⟨stop?, hreaches.succ hfault htouched, hresult,
            (htouched.delivers hdelivers).cons hbyte, hmarks.succ⟩

/-! ## The turns of an access -/

theorem writeChunks_succ {fuel : Nat} {data : Bytes} (hsize : 0 < m.pageSize.toNat)
    (hfuel : data.length ≤ fuel) :
    writeChunks (fuel + 1) memory m va data = writeChunks fuel memory m va data := by
  induction fuel generalizing m memory va data with
  | zero =>
      rw [List.length_eq_zero_iff.mp (Nat.le_zero.mp hfuel)]
      rfl
  | succ fuel ih =>
      by_cases hzero : data.length = 0
      · rw [List.length_eq_zero_iff.mp hzero]
        rfl
      have hpos := chunkLength_pos_of_pos va hsize hzero
      unfold writeChunks
      rw [if_neg hzero, if_neg hzero]
      dsimp only
      split
      · rfl
      · split
        · rfl
        · split
          · rfl
          · split
            · rfl
            · rename_i next _
              have hrest : (data.drop (m.chunkLength va data.length)).length ≤ fuel := by
                rw [List.length_drop]
                omega
              rw [ih (m := (m.setAccessed (va - va % m.pageSize) true).setDirty
                (va - va % m.pageSize) true) hsize hrest]

theorem readChunks_succ {fuel : Nat} (hsize : 0 < m.pageSize.toNat) (hfuel : count ≤ fuel) :
    readChunks memory (fuel + 1) m va count = readChunks memory fuel m va count := by
  induction fuel generalizing m va count with
  | zero =>
      rw [Nat.le_zero.mp hfuel]
      rfl
  | succ fuel ih =>
      by_cases hzero : count = 0
      · rw [hzero]
        rfl
      have hpos := chunkLength_pos_of_pos va hsize hzero
      unfold readChunks
      rw [if_neg hzero, if_neg hzero]
      dsimp only
      split
      · rfl
      · split
        · rfl
        · split
          · rfl
          · rw [ih (m := m.setAccessed (va - va % m.pageSize) true) hsize (by omega)]

theorem writeChunks_eq_userWrite {fuel : Nat} {data : Bytes} (hsize : 0 < m.pageSize.toNat)
    (hfuel : data.length ≤ fuel) :
    writeChunks fuel memory m va data = m.userWrite memory va data := by
  induction hfuel with
  | refl => rfl
  | step hle ih => rw [writeChunks_succ hsize hle, ih]

theorem readChunks_eq_userRead {fuel : Nat} (hsize : 0 < m.pageSize.toNat) (hfuel : count ≤ fuel) :
    readChunks memory fuel m va count = m.userRead memory va count := by
  induction hfuel with
  | refl => rfl
  | step hle ih => rw [readChunks_succ hsize hle, ih]

/-! ## The access as a whole -/

theorem pool_userRead (machine : Machine) (p : Nat) (va : Vaddr) (length : Nat) :
    Routine.Ends (Machine.userRead p va length) machine Routine.Anyhow
      (fun _ next => next.pool = machine.pool) fun _ next => next.pool = machine.pool := by
  unfold Machine.userRead
  rw [Routine.ends_bind, Routine.ends_get, Routine.ends_bind, Routine.ends_set]
  rcases ((machine.process p).mmu.userRead machine.pool.frames va length).answer with stop | bytes
  · cases stop with
    | faulted fault => exact rfl
    | wrapped => trivial
  · exact rfl

/-- Accesses in chunks are accesses byte by byte. A write comes to the first byte that faults, has
stored the bytes before it one after the other, and has marked exactly their pages as accessed and
dirty; it succeeds exactly when all pages that it touches are mapped writable. A read delivers the
bytes before the first that is not mapped, and marks exactly their pages as accessed; it changes no
frame. No access takes more turns than it has bytes. -/
theorem chunked_access_bytewise (hsize : 0 < m.pageSize.toNat) (hbacked : m.Backed memory)
    (va : Vaddr) :
    (∀ data : Bytes, va.toNat + data.length ≤ 2 ^ 64 →
      let effect := m.userWrite memory va data
      effect = writeBytes memory m va data ∧
      (effect.result = .ok () ↔ ∀ i, i < data.length →
        ∃ f, m.link? (m.pageStart (va + UInt64.ofNat i)) = some (f, true)) ∧
      ∃ stop?, m.Reaches true va data.length effect.written stop? ∧
        effect.result = ended stop? ∧
        effect.memory = m.storeBytes memory va (data.take effect.written) ∧
        m.Marks true va effect.written effect.mmu) ∧
    (∀ length, va.toNat + length ≤ 2 ^ 64 →
      let effect := m.userRead memory va length
      effect = readBytes memory length m va ∧
      (effect.result = .ok () ↔ ∀ i, i < length →
        ∃ l, m.link? (m.pageStart (va + UInt64.ofNat i)) = some l) ∧
      ∃ stop?, m.Reaches false va length effect.delivered.length stop? ∧
        effect.result = ended stop? ∧
        m.Delivers memory va effect.delivered.length effect.delivered ∧
        m.Marks false va effect.delivered.length effect.mmu) ∧
    (∀ (machine : Machine) (p length : Nat),
      Routine.Ends (Machine.userRead p va length) machine Routine.Anyhow
        (fun _ next => next.pool = machine.pool) fun _ next => next.pool = machine.pool) ∧
    (∀ (data : Bytes) (fuel : Nat), data.length ≤ fuel →
      writeChunks fuel memory m va data = m.userWrite memory va data) ∧
    ∀ length fuel : Nat, length ≤ fuel →
      readChunks memory fuel m va length = m.userRead memory va length := by
  refine ⟨?_, ?_, ?_, ?_, ?_⟩
  · intro data hroom
    have hbytes : m.userWrite memory va data = writeBytes memory m va data :=
      writeChunks_eq_writeBytes hsize hbacked hroom (Nat.le_refl _)
    rcases writeBytes_spec memory m va data with ⟨stop?, hreaches, hresult, hmemory, hmarks⟩
    dsimp only
    rw [hbytes]
    refine ⟨rfl, ?_, stop?, hreaches, hresult, hmemory, hmarks⟩
    rw [hresult, ended_eq_ok_iff, hreaches.eq_none_iff]
    simp only [byteFault?_true_eq_none_iff]
  · intro length hroom
    have hbytes : m.userRead memory va length = readBytes memory length m va :=
      readChunks_eq_readBytes hsize hbacked hroom (Nat.le_refl _)
    rcases readBytes_spec hsize hbacked va length with
      ⟨stop?, hreaches, hresult, hdelivers, hmarks⟩
    dsimp only
    rw [hbytes]
    refine ⟨rfl, ?_, stop?, hreaches, hresult, hdelivers, hmarks⟩
    rw [hresult, ended_eq_ok_iff, hreaches.eq_none_iff]
    simp only [byteFault?_false_eq_none_iff]
  · intro machine p length
    exact pool_userRead machine p va length
  · intro data fuel hfuel
    exact writeChunks_eq_userWrite hsize hfuel
  · intro length fuel hfuel
    exact readChunks_eq_userRead hsize hfuel

/-- Pages of three bytes: two writable ones in one frame, and one behind them that is not
writable. -/
def aliased : Mmu where
  pageSize := 3
  entries := ((AddressMap.empty.insert 0 ⟨0, true, false, false⟩).insert 3
    ⟨0, true, false, false⟩).insert 6 ⟨1, false, false, false⟩
  refusing := false
  accepting := .always true

/-- The bytes behind the first page boundary are written over those before it, and the write faults
at the next boundary. A read of the same bytes goes on there, and faults behind the last page with
the bytes of all three pages delivered. -/
theorem write_over_itself :
    0 < aliased.pageSize.toNat ∧ aliased.Backed [[1, 2, 3], [4, 5, 6]] ∧
      (let effect := aliased.userWrite [[1, 2, 3], [4, 5, 6]] 1 [10, 11, 12, 13, 14, 15]
      effect = writeBytes [[1, 2, 3], [4, 5, 6]] aliased 1 [10, 11, 12, 13, 14, 15] ∧
      effect.result = .error (.faulted (.readOnly 6)) ∧ effect.written = 5 ∧
      effect.memory = [[12, 13, 14], [4, 5, 6]]) ∧
      let effect := aliased.userRead [[1, 2, 3], [4, 5, 6]] 1 12
      effect = readBytes [[1, 2, 3], [4, 5, 6]] 12 aliased 1 ∧
      effect.result = .error (.faulted (.notPresent 9)) ∧
      effect.delivered = [2, 3, 1, 2, 3, 4, 5, 6] := by
  have hsize : 0 < aliased.pageSize.toNat := by decide
  have hbacked : aliased.Backed [[1, 2, 3], [4, 5, 6]] := by
    intro va f w hlink
    simp only [link?, mapped?, aliased, AddressMap.get?_insert] at hlink
    split at hlink
    · cases hlink
      rfl
    · split at hlink
      · cases hlink
        rfl
      · split at hlink
        · cases hlink
          rfl
        · contradiction
  rcases chunked_access_bytewise hsize hbacked 1 with ⟨hwrites, hreads, -⟩
  have hwrite := (hwrites [10, 11, 12, 13, 14, 15] (by decide)).1
  have hread := (hreads 12 (by decide)).1
  refine ⟨hsize, hbacked, ⟨hwrite, ?_⟩, hread, ?_⟩
  · rw [hwrite]
    exact ⟨rfl, rfl, rfl⟩
  · rw [hread]
    exact ⟨rfl, rfl⟩

end Mmu
end DemandPaging
