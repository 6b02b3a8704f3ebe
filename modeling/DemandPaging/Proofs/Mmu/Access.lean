import DemandPaging.Mmu.Access
import DemandPaging.Proofs.Mmu
import DemandPaging.Proofs.Word

/-!
# User accesses byte by byte

The user accesses memory in chunks that end where a page ends. Here the chunks are put together
again: a read delivers the byte that each address leads to, and a write that faults has written
the bytes before the address at which it faulted. Neither changes where an address leads to.
-/

namespace DemandPaging
namespace Mmu

/-! ## Changes of the accessed and dirty bits -/

structure Touched (m n : Mmu) : Prop where
  pageSize : n.pageSize = m.pageSize
  refusing : n.refusing = m.refusing
  accepting : n.accepting = m.accepting
  links : ∀ va, n.link? va = m.link? va

namespace Touched

variable {l m n : Mmu}

theorem refl (m : Mmu) : Touched m m :=
  ⟨rfl, rfl, rfl, fun _ => rfl⟩

theorem trans (h : Touched l m) (h' : Touched m n) : Touched l n :=
  ⟨h'.pageSize.trans h.pageSize, h'.refusing.trans h.refusing,
    h'.accepting.trans h.accepting, fun va => (h'.links va).trans (h.links va)⟩

theorem setAccessed (m : Mmu) (va : Vaddr) (accessed : Bool) :
    Touched m (m.setAccessed va accessed) :=
  ⟨rfl, rfl, rfl, fun wa => link?_setAccessed m va wa accessed⟩

theorem setDirty (m : Mmu) (va : Vaddr) (dirty : Bool) : Touched m (m.setDirty va dirty) :=
  ⟨rfl, rfl, rfl, fun wa => link?_setDirty m va wa dirty⟩

end Touched

def byteAt? (m : Mmu) (memory : List Bytes) (va : Vaddr) : Option UInt8 :=
  (m.translate va).bind fun place => (memory.getD place.1 [])[place.2.toNat]?

variable {m n : Mmu} {memory : List Bytes} {va : Vaddr} {e : PageEntry}

theorem link?_of_mapped? (h : m.mapped? va = some e) :
    m.link? va = some (e.frame, e.writable) := by
  rw [link?, h]
  rfl

theorem Touched.translate (h : Touched m n) (va : Vaddr) : n.translate va = m.translate va := by
  have hlink : ∀ unit : Mmu, unit.translate va =
      (unit.link? (va - va % unit.pageSize)).map fun l => (l.1, va % unit.pageSize) := by
    intro unit
    rw [link?, Option.map_map]
    rfl
  rw [hlink, hlink, h.pageSize, h.links]

theorem translate_add (ha : Word.isPowerOfTwo m.pageSize = true)
    (hmapped : m.mapped? (va - va % m.pageSize) = some e) {i : Nat}
    (hi : (va % m.pageSize).toNat + i < m.pageSize.toNat) :
    ∃ offset, m.translate (va + UInt64.ofNat i) = some (e.frame, offset) ∧
      offset.toNat = (va % m.pageSize).toNat + i := by
  rcases Word.add_ofNat_in_block ha hi with ⟨-, hoffset, hbase⟩
  refine ⟨(va + UInt64.ofNat i) % m.pageSize, ?_, hoffset⟩
  simp only [translate, hbase, hmapped, Option.map_some]

theorem Touched.byteAt? (h : Touched m n) : n.byteAt? memory va = m.byteAt? memory va := by
  rw [Mmu.byteAt?, Mmu.byteAt?, h.translate]

theorem byteAt?_add (ha : Word.isPowerOfTwo m.pageSize = true)
    (hmapped : m.mapped? (va - va % m.pageSize) = some e) {i : Nat}
    (hi : (va % m.pageSize).toNat + i < m.pageSize.toNat) :
    m.byteAt? memory (va + UInt64.ofNat i) =
      (memory.getD e.frame [])[(va % m.pageSize).toNat + i]? := by
  rcases translate_add ha hmapped hi with ⟨offset, htranslate, hoffset⟩
  rw [byteAt?, htranslate, Option.bind_some, hoffset]

theorem chunkLength_le (m : Mmu) (va : Vaddr) (remaining : Nat) :
    m.chunkLength va remaining ≤ remaining ∧
      m.chunkLength va remaining ≤ m.pageSize.toNat - (va % m.pageSize).toNat :=
  ⟨Nat.min_le_right _ _, Nat.min_le_left _ _⟩

theorem offset_lt (va : Vaddr) (hsize : 0 < m.pageSize.toNat) :
    (va % m.pageSize).toNat < m.pageSize.toNat := by
  rw [UInt64.toNat_mod]
  exact Nat.mod_lt _ hsize

theorem chunkLength_pos_of_pos (va : Vaddr) (hsize : 0 < m.pageSize.toNat) {remaining : Nat}
    (hremaining : remaining ≠ 0) : 0 < m.chunkLength va remaining := by
  have hlt := offset_lt va hsize
  unfold chunkLength
  omega

theorem chunkLength_pos (va : Vaddr) (ha : Word.isPowerOfTwo m.pageSize = true) {remaining : Nat}
    (hremaining : remaining ≠ 0) : 0 < m.chunkLength va remaining :=
  chunkLength_pos_of_pos va (Word.toNat_pos_of_isPowerOfTwo ha) hremaining

theorem add_chunkLength_le (ha : Word.isPowerOfTwo m.pageSize = true) (va : Vaddr)
    (remaining : Nat) : va.toNat + m.chunkLength va remaining ≤ 2 ^ 64 := by
  have hroom : va.toNat - (va % m.pageSize).toNat + m.pageSize.toNat ≤ 2 ^ 64 :=
    Word.toNat_sub_mod_add_le ha
  have hlt := offset_lt va (Word.toNat_pos_of_isPowerOfTwo ha)
  have hle : (va % m.pageSize).toNat ≤ va.toNat := Nat.mod_le _ _
  have hchunk := (m.chunkLength_le va remaining).2
  omega

def byteFault? (m : Mmu) (write : Bool) (va : Vaddr) : Option AccessFault :=
  match m.link? (va - va % m.pageSize) with
  | none => some (.notPresent va)
  | some l => if write && !l.2 then some (.readOnly va) else none

theorem va_of_byteFault? {write : Bool} {fault : AccessFault}
    (h : m.byteFault? write va = some fault) : fault.va = va := by
  unfold byteFault? at h
  split at h
  · cases h
    rfl
  · split at h
    · cases h
      rfl
    · contradiction

/-! ## Reads -/

def Delivers (m : Mmu) (memory : List Bytes) (va : Vaddr) (n : Nat) (bytes : Bytes) : Prop :=
  bytes.length = n ∧ ∀ i, i < n → bytes[i]? = m.byteAt? memory (va + UInt64.ofNat i)

theorem delivers_nil (m : Mmu) (memory : List Bytes) (va : Vaddr) : m.Delivers memory va 0 [] :=
  ⟨rfl, fun _ hi => absurd hi (Nat.not_lt_zero _)⟩

theorem Touched.delivers {k : Nat} {bytes : Bytes} (h : m.Touched n)
    (hbytes : n.Delivers memory va k bytes) : m.Delivers memory va k bytes :=
  ⟨hbytes.1, fun i hi => (hbytes.2 i hi).trans h.byteAt?⟩

theorem Delivers.append {n k : Nat} {bytes rest : Bytes} (h : m.Delivers memory va n bytes)
    (h' : m.Delivers memory (va + UInt64.ofNat n) k rest) :
    m.Delivers memory va (n + k) (bytes ++ rest) := by
  rcases h with ⟨hlength, hbytes⟩
  rcases h' with ⟨hlength', hrest⟩
  refine ⟨by rw [List.length_append, hlength, hlength'], ?_⟩
  intro i hi
  by_cases hin : i < n
  · rw [List.getElem?_append_left (by omega)]
    exact hbytes i hin
  · have hplace : va + UInt64.ofNat n + UInt64.ofNat (i - n) = va + UInt64.ofNat i := by
      rw [UInt64.add_assoc, ← UInt64.ofNat_add, Nat.add_sub_cancel' (by omega)]
    rw [List.getElem?_append_right (by omega), hlength, hrest _ (by omega), hplace]

theorem delivers_chunk (ha : Word.isPowerOfTwo m.pageSize = true)
    (hmapped : m.mapped? (va - va % m.pageSize) = some e)
    (hframe : (memory.getD e.frame []).length = m.pageSize.toNat) (remaining : Nat) :
    m.Delivers memory va (m.chunkLength va remaining)
      (((memory.getD e.frame []).drop (va % m.pageSize).toNat).take
        (m.chunkLength va remaining)) := by
  have hfits := (m.chunkLength_le va remaining).2
  constructor
  · rw [List.length_take, List.length_drop, hframe]
    exact Nat.min_eq_left hfits
  · intro i hi
    rw [List.getElem?_take_of_lt hi, List.getElem?_drop, byteAt?_add ha hmapped (by omega)]

theorem readChunks_spec {fuel : Nat} (va : Vaddr) (remaining : Nat)
    (ha : Word.isPowerOfTwo m.pageSize = true)
    (hmemory : ∀ wa f w, m.link? wa = some (f, w) →
      (memory.getD f []).length = m.pageSize.toNat)
    (hfuel : remaining ≤ fuel) :
    let effect := readChunks memory fuel m va remaining
    m.Touched effect.mmu ∧
      (effect.result = .ok () → m.Delivers memory va remaining effect.delivered) := by
  induction fuel generalizing m va remaining with
  | zero =>
      rw [Nat.le_zero.mp hfuel]
      exact ⟨.refl m, fun _ => delivers_nil m memory va⟩
  | succ fuel ih =>
      unfold readChunks
      by_cases hzero : remaining = 0
      · rw [if_pos hzero, hzero]
        exact ⟨.refl m, fun _ => delivers_nil m memory va⟩
      · rw [if_neg hzero]
        dsimp only
        cases hmapped : m.mapped? (va - va % m.pageSize) with
        | none => exact ⟨.refl m, fun hend => by contradiction⟩
        | some e =>
            have htouched := Touched.setAccessed m (va - va % m.pageSize) true
            have hchunk := delivers_chunk ha hmapped
              (hmemory _ _ _ (link?_of_mapped? hmapped)) remaining
            have hpos := chunkLength_pos va ha hzero
            have hle := (m.chunkLength_le va remaining).1
            dsimp only
            generalize m.setAccessed (va - va % m.pageSize) true = touched at *
            by_cases hlast : remaining = m.chunkLength va remaining
            · rw [if_pos hlast]
              rw [← hlast] at hchunk
              exact ⟨htouched, fun _ => hlast ▸ hchunk⟩
            · rw [if_neg hlast]
              cases hnext : Word.checkedAdd va (UInt64.ofNat (m.chunkLength va remaining)) with
              | none => exact ⟨htouched, fun hend => by contradiction⟩
              | some next =>
                  have hmemory' : ∀ wa f w, touched.link? wa = some (f, w) →
                      (memory.getD f []).length = touched.pageSize.toNat := by
                    intro wa f w hlink
                    rw [htouched.links] at hlink
                    rw [htouched.pageSize]
                    exact hmemory wa f w hlink
                  rcases ih next (remaining - m.chunkLength va remaining)
                    (htouched.pageSize.symm ▸ ha) hmemory' (by omega) with ⟨hlater, hrest⟩
                  refine ⟨htouched.trans hlater, ?_⟩
                  intro hend
                  rw [Word.eq_add_of_checkedAdd hnext] at hrest hend ⊢
                  have hwhole := hchunk.append (htouched.delivers (hrest hend))
                  rw [Nat.add_sub_cancel' hle] at hwhole
                  exact hwhole

/-! ## Writes -/

def writeChunk (m : Mmu) (memory : List Bytes) (va : Vaddr) (data : Bytes) (f : Nat) :
    List Bytes :=
  memory.set f (Bytes.overlay (memory.getD f []) (va % m.pageSize).toNat
    (data.take (m.chunkLength va data.length)))

def writeTouched (m : Mmu) (va : Vaddr) : Mmu :=
  (m.setAccessed (va - va % m.pageSize) true).setDirty (va - va % m.pageSize) true

theorem touched_writeTouched (m : Mmu) (va : Vaddr) : m.Touched (m.writeTouched va) :=
  (Touched.setAccessed m _ true).trans (.setDirty _ _ true)

/-- A write faults at once, or it writes a first chunk, which is the last one, or after which the
address space ends, or after which the write goes on. -/
theorem writeChunks_cases (fuel : Nat) (memory : List Bytes) {data : Bytes}
    (hdata : data.length ≠ 0) :
    (∃ fault, m.byteFault? true va = some fault ∧
      writeChunks (fuel + 1) memory m va data = ⟨.error (.faulted fault), 0, memory, m⟩) ∨
    ∃ e, m.mapped? (va - va % m.pageSize) = some e ∧ e.writable = true ∧
      (data.length = m.chunkLength va data.length ∧
          writeChunks (fuel + 1) memory m va data =
            ⟨.ok (), m.chunkLength va data.length, m.writeChunk memory va data e.frame,
              m.writeTouched va⟩ ∨
        writeChunks (fuel + 1) memory m va data =
          ⟨.error .wrapped, m.chunkLength va data.length,
            m.writeChunk memory va data e.frame, m.writeTouched va⟩ ∨
        ∃ rest, rest = writeChunks fuel (m.writeChunk memory va data e.frame) (m.writeTouched va)
            (va + UInt64.ofNat (m.chunkLength va data.length))
            (data.drop (m.chunkLength va data.length)) ∧
          (va + UInt64.ofNat (m.chunkLength va data.length)).toNat =
            va.toNat + m.chunkLength va data.length ∧
          writeChunks (fuel + 1) memory m va data =
            { rest with written := m.chunkLength va data.length + rest.written }) := by
  rw [writeChunks, if_neg hdata]
  dsimp only
  cases hmapped : m.mapped? (va - va % m.pageSize) with
  | none =>
      refine Or.inl ⟨.notPresent va, ?_, rfl⟩
      rw [byteFault?, link?, hmapped]
      rfl
  | some e =>
      dsimp only
      by_cases hwritable : (!e.writable) = true
      · rw [if_pos hwritable]
        refine Or.inl ⟨.readOnly va, ?_, rfl⟩
        rw [byteFault?, link?_of_mapped? hmapped]
        exact if_pos hwritable
      · rw [if_neg hwritable]
        refine Or.inr ⟨e, rfl, by simpa using hwritable, ?_⟩
        by_cases hlast : data.length = m.chunkLength va data.length
        · rw [if_pos hlast]
          exact Or.inl ⟨hlast, rfl⟩
        · rw [if_neg hlast]
          cases hnext : Word.checkedAdd va (UInt64.ofNat (m.chunkLength va data.length)) with
          | none => exact Or.inr (Or.inl rfl)
          | some next =>
              have hsum := Word.checkedAdd_eq_some_iff.mp hnext
              have hsize := m.pageSize.toNat_lt
              have hchunk := (m.chunkLength_le va data.length).2
              rw [Word.eq_add_of_checkedAdd hnext, UInt64.toNat_ofNat',
                Nat.mod_eq_of_lt (by omega)] at hsum
              refine Or.inr (Or.inr ⟨_, rfl, hsum.symm, ?_⟩)
              rw [Word.eq_add_of_checkedAdd hnext]
              rfl

/-- What a write says about the bytes that it wrote: they are mapped, they do not go beyond the
last address, they are all bytes when it succeeds, and they end at the address of the fault when it
faults. -/
structure Wrote (m : Mmu) (va : Vaddr) (data : Bytes) (effect : WriteEffect) : Prop where
  touched : m.Touched effect.mmu
  reached : ∀ i, i < effect.written → (m.translate (va + UInt64.ofNat i)).isSome = true
  inSpace : va.toNat + effect.written ≤ 2 ^ 64
  le_length : effect.written ≤ data.length
  all : effect.result = .ok () → effect.written = data.length
  upTo : ∀ fault, effect.result = .error (.faulted fault) →
    fault.va.toNat = va.toNat + effect.written

theorem wrote_nil (m : Mmu) (memory : List Bytes) (va : Vaddr) :
    m.Wrote va [] ⟨.ok (), 0, memory, m⟩ where
  touched := .refl m
  reached := fun _ hi => absurd hi (Nat.not_lt_zero _)
  inSpace := Nat.le_of_lt va.toNat_lt
  le_length := Nat.le_refl _
  all := fun _ => rfl
  upTo := fun _ h => by contradiction

theorem wrote_fault {fault : AccessFault} (hva : fault.va = va) (data : Bytes) :
    m.Wrote va data ⟨.error (.faulted fault), 0, memory, m⟩ where
  touched := .refl m
  reached := fun _ hi => absurd hi (Nat.not_lt_zero _)
  inSpace := Nat.le_of_lt va.toNat_lt
  le_length := Nat.zero_le _
  all := fun h => by contradiction
  upTo := by
    intro other h
    cases h
    exact congrArg UInt64.toNat hva

theorem Wrote.after {length : Nat} {data : Bytes} {rest : WriteEffect}
    (h : n.Wrote (va + UInt64.ofNat length) (data.drop length) rest) (htouched : m.Touched n)
    (hreached : ∀ i, i < length → (m.translate (va + UInt64.ofNat i)).isSome = true)
    (hnext : (va + UInt64.ofNat length).toNat = va.toNat + length)
    (hlength : length ≤ data.length) :
    m.Wrote va data { rest with written := length + rest.written } where
  touched := htouched.trans h.touched
  reached := by
    intro i hi
    by_cases hin : i < length
    · exact hreached i hin
    · have hplace : va + UInt64.ofNat length + UInt64.ofNat (i - length) = va + UInt64.ofNat i := by
        rw [UInt64.add_assoc, ← UInt64.ofNat_add, Nat.add_sub_cancel' (by omega)]
      have hlater := h.reached (i - length) (Nat.sub_lt_left_of_lt_add (by omega) hi)
      rw [htouched.translate, hplace] at hlater
      exact hlater
  inSpace := by
    have hroom := h.inSpace
    show va.toNat + (length + rest.written) ≤ 2 ^ 64
    omega
  le_length := by
    have hle := h.le_length
    rw [List.length_drop] at hle
    show length + rest.written ≤ data.length
    omega
  all := by
    intro hok
    have hall := h.all hok
    rw [List.length_drop] at hall
    show length + rest.written = data.length
    omega
  upTo := by
    intro fault hfault
    have hupTo := h.upTo fault hfault
    show fault.va.toNat = va.toNat + (length + rest.written)
    omega

theorem writeChunks_wrote {fuel : Nat} (memory : List Bytes) (va : Vaddr) (data : Bytes)
    (ha : Word.isPowerOfTwo m.pageSize = true) (hfuel : data.length ≤ fuel) :
    m.Wrote va data (writeChunks fuel memory m va data) := by
  induction fuel generalizing m memory va data with
  | zero =>
      rw [List.length_eq_zero_iff.mp (Nat.le_zero.mp hfuel)]
      exact wrote_nil m memory va
  | succ fuel ih =>
      by_cases hzero : data.length = 0
      · rw [List.length_eq_zero_iff.mp hzero]
        exact wrote_nil m memory va
      · have hpos := chunkLength_pos va ha hzero
        have hle := (m.chunkLength_le va data.length).1
        have hroom := add_chunkLength_le ha va data.length
        have hfits := (m.chunkLength_le va data.length).2
        rcases writeChunks_cases fuel memory hzero with
          ⟨fault, hfault, heffect⟩ | ⟨e, hmapped, -, hcases⟩
        · rw [heffect]
          exact wrote_fault (va_of_byteFault? hfault) data
        · have htouched := m.touched_writeTouched va
          have hreached : ∀ i, i < m.chunkLength va data.length →
              (m.translate (va + UInt64.ofNat i)).isSome = true := by
            intro i hi
            rcases translate_add (i := i) ha hmapped (by omega) with ⟨offset, htranslate, -⟩
            rw [htranslate]
            rfl
          rcases hcases with ⟨hlast, heffect⟩ | heffect | ⟨rest, hrest, hnext, heffect⟩
          · rw [heffect]
            refine ⟨htouched, hreached, hroom, hle, fun _ => hlast.symm, ?_⟩
            intro _ h
            cases h
          · rw [heffect]
            refine ⟨htouched, hreached, hroom, hle, ?_, ?_⟩
            · intro h
              cases h
            · intro _ h
              cases h
          · rw [heffect]
            refine Wrote.after ?_ htouched hreached hnext hle
            rw [hrest]
            apply ih
            · rw [htouched.pageSize]
              exact ha
            · rw [List.length_drop]
              omega

/-! ## Accesses behind the last address -/

theorem toNat_chunkLength (m : Mmu) (va : Vaddr) (remaining : Nat) :
    (UInt64.ofNat (m.chunkLength va remaining)).toNat = m.chunkLength va remaining := by
  have hsize := m.pageSize.toNat_lt_size
  have hchunk := (m.chunkLength_le va remaining).2
  exact UInt64.toNat_ofNat_of_lt' (by omega)

theorem size_lt_of_chunk {remaining : Nat} (hmore : remaining ≠ m.chunkLength va remaining)
    (h : Word.checkedAdd va (UInt64.ofNat (m.chunkLength va remaining)) = none) :
    UInt64.size < va.toNat + remaining := by
  have hsize := Word.size_le_of_checkedAdd h
  have hle := (m.chunkLength_le va remaining).1
  rw [toNat_chunkLength] at hsize
  omega

theorem toNat_chunkEnd {remaining : Nat} {next : Vaddr}
    (h : Word.checkedAdd va (UInt64.ofNat (m.chunkLength va remaining)) = some next) :
    next.toNat = va.toNat + m.chunkLength va remaining := by
  rw [← Word.checkedAdd_eq_some_iff.mp h, toNat_chunkLength]

theorem size_lt_of_readChunks {fuel remaining : Nat}
    (h : (readChunks memory fuel m va remaining).result = .error .wrapped) :
    UInt64.size < va.toNat + remaining := by
  induction fuel generalizing m va remaining with
  | zero => contradiction
  | succ fuel ih =>
      unfold readChunks at h
      split at h
      · contradiction
      · dsimp only at h
        split at h
        · cases h
        · split at h
          · contradiction
          · rename_i hmore
            split at h
            · rename_i hbehind
              exact size_lt_of_chunk hmore hbehind
            · rename_i next hnext
              -- The chunk ends where the rest begins, so both are too long by the same amount.
              have hsize := ih h
              have hle := (m.chunkLength_le va remaining).1
              rw [toNat_chunkEnd hnext] at hsize
              omega

theorem size_lt_of_writeChunks {fuel : Nat} {data : Bytes}
    (h : (writeChunks fuel memory m va data).result = .error .wrapped) :
    UInt64.size < va.toNat + data.length := by
  induction fuel generalizing memory m va data with
  | zero => contradiction
  | succ fuel ih =>
      unfold writeChunks at h
      split at h
      · contradiction
      · dsimp only at h
        split at h
        · cases h
        · split at h
          · cases h
          · split at h
            · contradiction
            · rename_i hmore
              split at h
              · rename_i hbehind
                exact size_lt_of_chunk hmore hbehind
              · rename_i next hnext
                have hsize := ih h
                have hle := (m.chunkLength_le va data.length).1
                rw [toNat_chunkEnd hnext, List.length_drop] at hsize
                omega

/-! ## Accesses inside one page -/

theorem chunkLength_of_fits {k : Nat} (hfit : (va % m.pageSize).toNat + k ≤ m.pageSize.toNat) :
    m.chunkLength va k = k := by
  unfold chunkLength
  omega

theorem userRead_of_mapped? (memory : List Bytes) {k : Nat}
    (hmapped : m.mapped? (va - va % m.pageSize) = some e)
    (hfit : (va % m.pageSize).toNat + k ≤ m.pageSize.toNat) :
    (m.userRead memory va k).result = .ok () := by
  cases k with
  | zero => rfl
  | succ k =>
      rw [userRead, readChunks, if_neg (Nat.succ_ne_zero k)]
      simp only [hmapped, chunkLength_of_fits hfit, if_true]

theorem userWrite_of_mapped? (memory : List Bytes) {data : Bytes}
    (hmapped : m.mapped? (va - va % m.pageSize) = some e) (hwritable : e.writable = true)
    (hfit : (va % m.pageSize).toNat + data.length ≤ m.pageSize.toNat) :
    (m.userWrite memory va data).result = .ok () := by
  rw [userWrite]
  cases hlength : data.length with
  | zero => rfl
  | succ k =>
      have hchunk := chunkLength_of_fits hfit
      have hnot : ¬(!e.writable) = true := by
        rw [hwritable]
        exact Bool.false_ne_true
      rw [writeChunks, if_neg (by omega)]
      simp only [hmapped, hnot, hchunk, if_true]
      rfl

end Mmu
end DemandPaging
