import DemandPaging.Proofs.Mmu.Access

/-!
# Accesses of single bytes

An access that is carried out byte by byte looks up the page of each byte, stops at the first byte
that faults, and marks the pages of the bytes before. The chunks of an access have the same effect,
for pages of any size and also when several addresses lead to one frame.
-/

namespace DemandPaging
namespace Bytes

theorem overlay_cons {buffer : Bytes} {start : Nat} (h : start < buffer.length) (b : UInt8)
    (rest : Bytes) :
    overlay buffer start (b :: rest) = overlay (buffer.set start b) (start + 1) rest := by
  have htake : (buffer.set start b).take (start + 1) = buffer.take start ++ [b] := by
    rw [List.take_add_one, List.take_set_of_le (Nat.le_refl start), List.getElem?_set_self h]
    rfl
  have hdrop : (buffer.set start b).drop (start + 1 + rest.length) =
      buffer.drop (start + (b :: rest).length) := by
    rw [List.drop_set_of_lt (by omega), List.length_cons, Nat.add_assoc, Nat.add_comm 1]
  rw [overlay, overlay, htake, hdrop, List.length_set, List.append_assoc _ [b] rest]
  rfl

end Bytes

namespace PageEntry

def touched (write : Bool) (e : PageEntry) : PageEntry :=
  { e with accessed := true, dirty := e.dirty || write }

theorem touched_touched (write : Bool) (e : PageEntry) :
    (e.touched write).touched write = e.touched write := by
  simp only [touched, Bool.or_assoc, Bool.or_self]

end PageEntry

namespace Mmu

variable {m n : Mmu} {memory : List Bytes} {va wa : Vaddr} {write : Bool} {count : Nat}
variable {fault : AccessFault}

/-! ## Marks of pages -/

def pageStart (m : Mmu) (va : Vaddr) : Vaddr :=
  va - va % m.pageSize

def touch (m : Mmu) (write : Bool) (va : Vaddr) : Mmu :=
  { m with entries := m.entries.modify (m.pageStart va) (PageEntry.touched write) }

theorem setAccessed_eq_touch (m : Mmu) (va : Vaddr) :
    m.setAccessed (m.pageStart va) true = m.touch false va := by
  have hmark : (fun e : PageEntry => { e with accessed := true }) = PageEntry.touched false := by
    funext e
    rw [PageEntry.touched, Bool.or_false]
  rw [setAccessed, touch, hmark]

theorem writeTouched_eq_touch (m : Mmu) (va : Vaddr) : m.writeTouched va = m.touch true va := by
  have hmark : (fun e : PageEntry => { e with accessed := true, dirty := true }) =
      PageEntry.touched true := by
    funext e
    rw [PageEntry.touched, Bool.or_true]
  rw [writeTouched, setDirty, setAccessed, touch, ← hmark]
  simp only [AddressMap.modify_modify]
  rfl

theorem mapped?_touch (m : Mmu) (write : Bool) (va wa : Vaddr) :
    (m.touch write va).mapped? wa =
      if wa = m.pageStart va then (m.mapped? wa).map (PageEntry.touched write)
      else m.mapped? wa :=
  AddressMap.get?_modify m.entries (m.pageStart va) wa _

theorem touched_touch (m : Mmu) (write : Bool) (va : Vaddr) : m.Touched (m.touch write va) where
  pageSize := rfl
  refusing := rfl
  accepting := rfl
  links := by
    intro wa
    unfold link?
    rw [mapped?_touch]
    split
    · cases m.mapped? wa <;> rfl
    · rfl

theorem touch_touch (h : m.pageStart wa = m.pageStart va) :
    (m.touch write va).touch write wa = m.touch write va := by
  have hagain : (fun e : PageEntry => (e.touched write).touched write) =
      PageEntry.touched write := funext (PageEntry.touched_touched write)
  show { m with entries :=
    (m.entries.modify (m.pageStart va) _).modify (m.pageStart wa) _ } = _
  rw [h, AddressMap.modify_modify, hagain]
  rfl

/-! ## Faults of single bytes -/

theorem Touched.byteFault? (h : m.Touched n) (write : Bool) (va : Vaddr) :
    n.byteFault? write va = m.byteFault? write va := by
  rw [Mmu.byteFault?, Mmu.byteFault?, h.pageSize, h.links]

theorem byteFault?_true_eq_none_iff :
    m.byteFault? true va = none ↔ ∃ f, m.link? (m.pageStart va) = some (f, true) := by
  unfold byteFault? pageStart
  cases m.link? (va - va % m.pageSize) with
  | none => simp
  | some l =>
      rcases l with ⟨f, w⟩
      cases w <;> simp

theorem byteFault?_false_eq_none_iff :
    m.byteFault? false va = none ↔ ∃ l, m.link? (m.pageStart va) = some l := by
  unfold byteFault? pageStart
  cases m.link? (va - va % m.pageSize) with
  | none => simp
  | some l => simp

def Backed (m : Mmu) (memory : List Bytes) : Prop :=
  ∀ va f w, m.link? va = some (f, w) → (memory.getD f []).length = m.pageSize.toNat

theorem Backed.touched (h : m.Backed memory) (htouched : m.Touched n) : n.Backed memory := by
  intro va f w hlink
  rw [htouched.links] at hlink
  rw [htouched.pageSize]
  exact h va f w hlink

theorem Backed.set (h : m.Backed memory) {f : Nat} {content : Bytes}
    (hlength : content.length = (memory.getD f []).length) : m.Backed (memory.set f content) := by
  intro va g w hlink
  rw [← h va g w hlink]
  simp only [List.getD_eq_getElem?_getD, List.getElem?_set] at hlength ⊢
  split
  · rename_i hsame
    subst hsame
    split
    · exact hlength
    · rename_i hout
      rw [List.getElem?_eq_none (Nat.le_of_not_lt hout)]
  · rfl

theorem byteAt?_of_fault (h : m.byteFault? false va = some fault) :
    fault = .notPresent va ∧ m.byteAt? memory va = none := by
  have hunmapped : m.link? (m.pageStart va) = none := by
    cases hlink : m.link? (m.pageStart va) with
    | none => rfl
    | some l =>
        rw [byteFault?_false_eq_none_iff.mpr ⟨l, hlink⟩] at h
        contradiction
  have hmapped : m.mapped? (va - va % m.pageSize) = none := Option.map_eq_none_iff.mp hunmapped
  constructor
  · rw [byteFault?, show m.link? (va - va % m.pageSize) = none from hunmapped] at h
    exact (Option.some.inj h).symm
  · rw [byteAt?, translate, hmapped]
    rfl

theorem byteAt?_of_link {f : Nat} {w : Bool} (h : m.link? (m.pageStart va) = some (f, w)) :
    m.byteAt? memory va = (memory.getD f [])[(va % m.pageSize).toNat]? := by
  rcases Option.map_eq_some_iff.mp h with ⟨e, he, hframe⟩
  have hf : e.frame = f := congrArg Prod.fst hframe
  rw [byteAt?, translate, show m.mapped? (va - va % m.pageSize) = some e from he, ← hf]
  rfl

/-! ## Access byte by byte -/

def storeByte (m : Mmu) (memory : List Bytes) (va : Vaddr) (b : UInt8) : List Bytes :=
  match m.translate va with
  | some (f, offset) => memory.set f ((memory.getD f []).set offset.toNat b)
  | none => memory

def storeBytes (m : Mmu) : List Bytes → Vaddr → Bytes → List Bytes
  | memory, _, [] => memory
  | memory, va, b :: rest => m.storeBytes (m.storeByte memory va b) (va + 1) rest

def writeBytes : List Bytes → Mmu → Vaddr → Bytes → WriteEffect
  | memory, m, _, [] => ⟨.ok (), 0, memory, m⟩
  | memory, m, va, b :: rest =>
      match m.byteFault? true va with
      | some fault => ⟨.error (.faulted fault), 0, memory, m⟩
      | none =>
          let after := writeBytes (m.storeByte memory va b) (m.touch true va) (va + 1) rest
          { after with written := after.written + 1 }

def readBytes (memory : List Bytes) : Nat → Mmu → Vaddr → ReadEffect
  | 0, m, _ => ⟨.ok (), [], m⟩
  | count + 1, m, va =>
      match m.byteAt? memory va with
      | none => ⟨.error (.faulted (.notPresent va)), [], m⟩
      | some b =>
          let after := readBytes memory count (m.touch false va) (va + 1)
          { after with delivered := b :: after.delivered }

theorem storeByte_of_link {f : Nat} {w : Bool} (b : UInt8)
    (h : m.link? (m.pageStart va) = some (f, w)) :
    m.storeByte memory va b =
      memory.set f ((memory.getD f []).set (va % m.pageSize).toNat b) := by
  rcases Option.map_eq_some_iff.mp h with ⟨e, he, hframe⟩
  have hf : e.frame = f := congrArg Prod.fst hframe
  rw [storeByte, translate, show m.mapped? (va - va % m.pageSize) = some e from he, ← hf]
  rfl

/-! ## A chunk byte by byte -/

theorem pageStart_succ (m : Mmu) (va : Vaddr) (hroom : va.toNat + 1 < 2 ^ 64)
    (hfit : (va % m.pageSize).toNat + 1 < m.pageSize.toNat) :
    (va + 1).toNat = va.toNat + 1 ∧
      ((va + 1) % m.pageSize).toNat = (va % m.pageSize).toNat + 1 ∧
      m.pageStart (va + 1) = m.pageStart va :=
  Word.add_ofNat_in_page hroom hfit

theorem add_one_add_ofNat (va : Vaddr) (i : Nat) :
    va + 1 + UInt64.ofNat i = va + UInt64.ofNat (i + 1) := by
  rw [UInt64.add_assoc, Nat.add_comm i 1, UInt64.ofNat_add]
  rfl

theorem writeBytes_chunk {f : Nat} (b : UInt8) (front rest : Bytes)
    (hlink : m.link? (m.pageStart va) = some (f, true))
    (hframe : (memory.getD f []).length = m.pageSize.toNat)
    (hroom : va.toNat + (front.length + 1) ≤ 2 ^ 64)
    (hfit : (va % m.pageSize).toNat + (front.length + 1) ≤ m.pageSize.toNat) :
    let after := writeBytes
      (memory.set f (Bytes.overlay (memory.getD f []) (va % m.pageSize).toNat (b :: front)))
      (m.touch true va) (va + UInt64.ofNat (front.length + 1)) rest
    writeBytes memory m va (b :: front ++ rest) =
      { after with written := after.written + (front.length + 1) } := by
  induction front generalizing b m memory va with
  | nil =>
      have hoverlay : Bytes.overlay (memory.getD f []) (va % m.pageSize).toNat [b] =
          (memory.getD f []).set (va % m.pageSize).toNat b := by
        rw [Bytes.overlay_cons (by omega), Bytes.overlay_nil]
      show writeBytes memory m va (b :: rest) = _
      rw [writeBytes, byteFault?_true_eq_none_iff.mpr ⟨f, hlink⟩, storeByte_of_link b hlink,
        hoverlay]
      rfl
  | cons c front ih =>
      rw [List.length_cons] at hroom hfit ⊢
      rcases pageStart_succ m va (by omega) (by omega) with ⟨hnext, hoffset, hstart⟩
      have hf : f < memory.length := by
        apply Nat.lt_of_not_le
        intro hle
        rw [List.getD_eq_getElem?_getD, List.getElem?_eq_none hle] at hframe
        simp only [Option.getD_none, List.length_nil] at hframe
        omega
      have hset : (memory.set f ((memory.getD f []).set (va % m.pageSize).toNat b)).getD f [] =
          (memory.getD f []).set (va % m.pageSize).toNat b := by
        rw [List.getD_eq_getElem?_getD, List.getElem?_set_self hf, Option.getD_some]
      have hlink' : (m.touch true va).link? ((m.touch true va).pageStart (va + 1)) =
          some (f, true) := by
        rw [(m.touched_touch true va).links]
        exact hstart ▸ hlink
      have hframe' : ((memory.set f ((memory.getD f []).set (va % m.pageSize).toNat b)).getD
          f []).length = m.pageSize.toNat := by
        rw [hset, List.length_set]
        exact hframe
      have hlater := ih c hlink' hframe' (by omega) (by
        show ((va + 1) % m.pageSize).toNat + _ ≤ m.pageSize.toNat
        omega)
      rw [hset, List.set_set, touch_touch hstart, add_one_add_ofNat] at hlater
      rw [show ((va + 1) % (m.touch true va).pageSize).toNat = (va % m.pageSize).toNat + 1 from
        hoffset, ← Bytes.overlay_cons (by omega)] at hlater
      show writeBytes memory m va (b :: (c :: front ++ rest)) = _
      rw [writeBytes, byteFault?_true_eq_none_iff.mpr ⟨f, hlink⟩, storeByte_of_link b hlink]
      dsimp only
      rw [hlater]
      rfl

theorem writeChunks_eq_writeBytes {fuel : Nat} {data : Bytes} (hsize : 0 < m.pageSize.toNat)
    (hbacked : m.Backed memory) (hroom : va.toNat + data.length ≤ 2 ^ 64)
    (hfuel : data.length ≤ fuel) :
    writeChunks fuel memory m va data = writeBytes memory m va data := by
  induction fuel generalizing m memory va data with
  | zero =>
      rw [List.length_eq_zero_iff.mp (Nat.le_zero.mp hfuel)]
      rfl
  | succ fuel ih =>
      by_cases hzero : data.length = 0
      · rw [List.length_eq_zero_iff.mp hzero]
        rfl
      have hpos := chunkLength_pos_of_pos va hsize hzero
      have hchunk := m.chunkLength_le va data.length
      have hnowrap : (writeChunks (fuel + 1) memory m va data).result ≠ .error .wrapped := by
        intro hwrapped
        have hlt : 2 ^ 64 < va.toNat + data.length := size_lt_of_writeChunks hwrapped
        omega
      rcases writeChunks_cases (m := m) fuel memory hzero with
        ⟨fault, hfault, heffect⟩ | ⟨e, hmapped, hwritable, hcases⟩
      · rw [heffect]
        cases data with
        | nil => contradiction
        | cons b rest => rw [writeBytes, hfault]
      have hlink : m.link? (m.pageStart va) = some (e.frame, true) := by
        rw [← hwritable]
        exact link?_of_mapped? hmapped
      have hoverlay : m.writeChunk memory va data e.frame = memory.set e.frame
          (Bytes.overlay (memory.getD e.frame []) (va % m.pageSize).toNat
            (data.take (m.chunkLength va data.length))) := rfl
      have htaken : (data.take (m.chunkLength va data.length)).length =
          m.chunkLength va data.length := List.length_take_of_le hchunk.1
      have hbacked' : (m.writeTouched va).Backed (m.writeChunk memory va data e.frame) :=
        (hbacked.set (Bytes.length_overlay _ _ _)).touched (m.touched_writeTouched va)
      have hdata := List.take_append_drop (m.chunkLength va data.length) data
      have hrest := List.length_drop (i := m.chunkLength va data.length) (l := data)
      generalize m.chunkLength va data.length = length at *
      rcases List.exists_cons_of_length_pos (htaken ▸ hpos) with ⟨b, front, htake⟩
      have hfront : front.length + 1 = length := by
        rw [← htaken, htake, List.length_cons]
      have hbytes := writeBytes_chunk b front (data.drop length) hlink (hbacked _ _ _ hlink)
        (by omega) (by omega)
      rw [← htake, hdata, hfront, ← hoverlay, ← writeTouched_eq_touch] at hbytes
      rw [hbytes]
      rcases hcases with ⟨hlast, heffect⟩ | heffect | ⟨rest, rfl, hnext, heffect⟩
      · have hnil : data.drop length = [] := List.length_eq_zero_iff.mp (by omega)
        rw [heffect, hnil, writeBytes, Nat.zero_add]
      · rw [heffect] at hnowrap
        contradiction
      · have hsize' : 0 < (m.writeTouched va).pageSize.toNat := hsize
        rw [heffect, ih hsize' hbacked' (by omega) (by omega), Nat.add_comm length]

theorem readBytes_chunk {f : Nat} {w : Bool} (rest : Nat)
    (hlink : m.link? (m.pageStart va) = some (f, w))
    (hframe : (memory.getD f []).length = m.pageSize.toNat)
    (hroom : va.toNat + (count + 1) ≤ 2 ^ 64)
    (hfit : (va % m.pageSize).toNat + (count + 1) ≤ m.pageSize.toNat) :
    let after := readBytes memory rest (m.touch false va) (va + UInt64.ofNat (count + 1))
    readBytes memory (rest + (count + 1)) m va =
      { after with delivered :=
        ((memory.getD f []).drop (va % m.pageSize).toNat).take (count + 1) ++
          after.delivered } := by
  induction count generalizing m va with
  | zero =>
      have hinside : (va % m.pageSize).toNat < (memory.getD f []).length := by omega
      show readBytes memory (rest + 1) m va = _
      rw [readBytes, byteAt?_of_link hlink, List.getElem?_eq_getElem hinside,
        List.drop_eq_getElem_cons hinside]
      rfl
  | succ count ih =>
      have hinside : (va % m.pageSize).toNat < (memory.getD f []).length := by omega
      rcases pageStart_succ m va (by omega) (by omega) with ⟨hnext, hoffset, hstart⟩
      have hlink' : (m.touch false va).link? ((m.touch false va).pageStart (va + 1)) =
          some (f, w) := by
        rw [(m.touched_touch false va).links]
        exact hstart ▸ hlink
      have hlater := ih hlink' hframe (by omega) (by
        show ((va + 1) % m.pageSize).toNat + _ ≤ m.pageSize.toNat
        omega)
      rw [touch_touch hstart, add_one_add_ofNat,
        show ((va + 1) % (m.touch false va).pageSize).toNat = (va % m.pageSize).toNat + 1 from
          hoffset] at hlater
      show readBytes memory (rest + (count + 1) + 1) m va = _
      rw [readBytes, byteAt?_of_link hlink, List.getElem?_eq_getElem hinside,
        List.drop_eq_getElem_cons hinside, List.take_succ_cons]
      dsimp only
      rw [hlater]
      rfl

theorem readChunks_eq_readBytes {fuel : Nat} (hsize : 0 < m.pageSize.toNat)
    (hbacked : m.Backed memory) (hroom : va.toNat + count ≤ 2 ^ 64) (hfuel : count ≤ fuel) :
    readChunks memory fuel m va count = readBytes memory count m va := by
  induction fuel generalizing m va count with
  | zero =>
      rw [Nat.le_zero.mp hfuel]
      rfl
  | succ fuel ih =>
      by_cases hzero : count = 0
      · rw [hzero]
        rfl
      have hpos := chunkLength_pos_of_pos va hsize hzero
      have hchunk := m.chunkLength_le va count
      have hword := m.toNat_chunkLength va count
      rw [readChunks, if_neg hzero]
      dsimp only
      cases hmapped : m.mapped? (va - va % m.pageSize) with
      | none =>
          cases count with
          | zero => contradiction
          | succ count =>
              have hbyte : m.byteAt? memory va = none := by
                rw [byteAt?, translate, hmapped]
                rfl
              rw [readBytes, hbyte]
      | some e =>
          have hlink : m.link? (m.pageStart va) = some (e.frame, e.writable) :=
            link?_of_mapped? hmapped
          have hbacked' := hbacked.touched (m.touched_touch false va)
          dsimp only
          rw [show m.setAccessed (va - va % m.pageSize) true = m.touch false va from
            setAccessed_eq_touch m va]
          generalize m.chunkLength va count = length at *
          obtain ⟨k, rfl⟩ : ∃ k, length = k + 1 := ⟨length - 1, by omega⟩
          have hroom' : va.toNat + (k + 1) ≤ 2 ^ 64 := by omega
          have hfit : (va % m.pageSize).toNat + (k + 1) ≤ m.pageSize.toNat := by omega
          have hbytes := readBytes_chunk (count - (k + 1)) hlink (hbacked _ _ _ hlink) hroom' hfit
          rw [Nat.sub_add_cancel hchunk.1] at hbytes
          rw [hbytes]
          by_cases hlast : count = k + 1
          · rw [if_pos hlast, hlast, Nat.sub_self, readBytes, List.append_nil]
          · rw [if_neg hlast]
            cases hnext : Word.checkedAdd va (UInt64.ofNat (k + 1)) with
            | none =>
                have hlt : 2 ^ 64 ≤ va.toNat + (UInt64.ofNat (k + 1)).toNat :=
                  Word.size_le_of_checkedAdd hnext
                omega
            | some next =>
                have hsum := Word.checkedAdd_eq_some_iff.mp hnext
                rw [Word.eq_add_of_checkedAdd hnext] at hsum ⊢
                have hsize' : 0 < (m.touch false va).pageSize.toNat := hsize
                dsimp only
                rw [ih hsize' hbacked' (by omega) (by omega)]

end Mmu
end DemandPaging
