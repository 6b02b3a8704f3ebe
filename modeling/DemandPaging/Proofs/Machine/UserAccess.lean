import DemandPaging.Machine.UserAccess
import DemandPaging.Proofs.Machine.Fault
import DemandPaging.Proofs.Mmu.Access

/-!
# User accesses to a sound machine

What the user reads from anonymous pages are the bytes of the flat memory, and what the user
writes goes there.
-/

namespace DemandPaging
namespace Machine

open Routine

variable {m : Machine} {mem : FlatMemory} {fatal : Abort → Prop} {p : Nat} {va : Vaddr}

/-! ## Units of sound machines -/

theorem Sound.unitPowerOfTwo (k : m.Sound {} mem) (p : Nat) :
    Word.isPowerOfTwo (m.process p).mmu.pageSize = true := by
  by_cases hp : p < m.processes.length
  · rw [(k.units p hp).1]
    exact k.powerOfTwo
  · rw [process_eq_absent (Nat.le_of_not_lt hp)]
    decide

theorem Sound.touch {unit : Mmu} (k : m.Sound {} mem) (htouched : (m.process p).mmu.Touched unit) :
    (m.modifyMmu p fun _ => unit).Sound {} mem := by
  by_cases hp : p < m.processes.length
  · refine k.keepLinks hp htouched.pageSize htouched.refusing htouched.links ?_
    intro hrefused
    rw [Mmu.HasRefused, htouched.accepting]
    exact hrefused
  · rw [Machine.modifyMmu, modifyProcess_absent (Nat.le_of_not_lt hp)]
    exact k

theorem Sound.mappedPage {e : PageEntry} (k : m.Sound {} mem)
    (h : (m.process p).mmu.mapped? (va - va % (m.process p).mmu.pageSize) = some e) :
    (m.process p).mmu.pageSize = m.layout.pageSize ∧
      va - va % (m.process p).mmu.pageSize = m.pageBase va ∧
      ∃ page, m.page? p (m.pageBase va) = some page ∧ page.frame = some e.frame ∧
        page.writable = e.writable := by
  have hmapped : m.mapped? p (va - va % (m.process p).mmu.pageSize) = some e := h
  have hsize := (k.units p (lt_of_mapped?_eq_some hmapped)).1
  have hbase : va - va % (m.process p).mmu.pageSize = m.pageBase va := by
    rw [hsize, pageBase, Word.alignDown_eq_sub_mod k.powerOfTwo]
  rw [hbase] at hmapped
  exact ⟨hsize, hbase, k.backed hmapped⟩

theorem Sound.length_mapped {f : Nat} {w : Bool} (k : m.Sound {} mem)
    (h : (m.process p).mmu.link? va = some (f, w)) :
    (m.pool.frames.getD f []).length = (m.process p).mmu.pageSize.toNat := by
  rcases link?_eq_some_iff.mp h with ⟨e, he, rfl, -⟩
  rcases k.backed he with ⟨page, hpage, hframe, -⟩
  rw [(k.units p (lt_of_mapped?_eq_some he)).1]
  exact k.length_content (k.frame_lt hpage hframe)

/-! ## Reading -/

theorem Sound.byteAt {b : UInt8} (k : m.Sound {} mem)
    (h : (m.process p).mmu.byteAt? m.pool.frames va = some b) :
    ∃ page f, m.lookup p va = some page ∧ page.frame = some f ∧
      (m.pool.content f)[(va % m.layout.pageSize).toNat]? = some b ∧
      (page.effectiveClass = .anon → b = mem p va) := by
  rcases Option.bind_eq_some_iff.mp h with ⟨place, hplace, hbyte⟩
  rcases Option.map_eq_some_iff.mp hplace with ⟨e, he, rfl⟩
  rcases k.mappedPage he with ⟨hsize, hbase, page, hpage, hframe, -⟩
  have hread : (m.pool.content e.frame)[(va % m.layout.pageSize).toNat]? = some b := by
    rw [← hsize]
    exact hbyte
  refine ⟨page, e.frame, hpage, hframe, hread, ?_⟩
  intro hanon
  have hstate := k.state_of_anon_frame hpage hframe hanon
  have hcontent := ((k.contents p _ page hpage).inFrame e.frame hstate hframe).resolve_left
    List.not_mem_nil
  have hoffset : (va % m.layout.pageSize).toNat < m.layout.pageBytes := by
    rw [UInt64.toNat_mod]
    exact Nat.mod_lt _ (Word.toNat_pos_of_isPowerOfTwo k.powerOfTwo)
  have hva : m.pageBase va + UInt64.ofNat (va % m.layout.pageSize).toNat = va := by
    rw [UInt64.ofNat_toNat, pageBase, ← Word.offsetIn_eq_mod k.powerOfTwo,
      Word.alignDown_add_offset]
  rw [hcontent, FlatMemory.getElem?_image hoffset, hva] at hread
  exact (Option.some.inj hread).symm

/-- Every byte that the user reads is in the frame of a page, and if the page is anonymous it is the
byte of the flat memory. -/
theorem ends_userRead {length : Nat} (k : m.Sound {} mem)
    (hfatal : UInt64.size < va.toNat + length → fatal .addOverflow) :
    Ends (userRead p va length) m fatal
      (fun result next => m.AlikeBut Nowhere next ∧ next.Sound {} mem ∧
        ∀ bytes, result = .ok bytes → bytes.length = length ∧ ∀ i, i < length → ∃ page f,
          m.lookup p (va + UInt64.ofNat i) = some page ∧ page.frame = some f ∧
            bytes[i]? = (m.pool.content f)[((va + UInt64.ofNat i) % m.layout.pageSize).toNat]? ∧
            (page.effectiveClass = .anon → bytes[i]? = some (mem p (va + UInt64.ofNat i))))
      fun _ _ => False := by
  rcases Mmu.readChunks_spec va length (k.unitPowerOfTwo p) (fun _ _ _ => k.length_mapped)
    (Nat.le_refl length) with ⟨htouched, hbytes⟩
  have hbehind : (Mmu.readChunks m.pool.frames length (m.process p).mmu va length).result =
      .error .wrapped → UInt64.size < va.toNat + length := Mmu.size_lt_of_readChunks
  unfold userRead Mmu.userRead
  rw [ends_bind, ends_get]
  generalize Mmu.readChunks m.pool.frames length (m.process p).mmu va length = outcome at *
  rcases outcome with ⟨result, bytes, after⟩
  have knext := k.touch htouched
  dsimp only
  rw [ends_bind, ends_set]
  cases result with
  | error stop =>
      cases stop with
      | faulted fault => exact ⟨.modifyMmu m p _, knext, fun _ h => by contradiction⟩
      | wrapped => exact hfatal (hbehind rfl)
  | ok =>
      refine ⟨.modifyMmu m p _, knext, ?_⟩
      intro _ hend
      rcases hend with ⟨rfl⟩
      rcases hbytes rfl with ⟨hlength, hread⟩
      refine ⟨hlength, ?_⟩
      intro i hi
      have hat : bytes[i]? = some bytes[i] := List.getElem?_eq_getElem (hlength.symm ▸ hi)
      rcases k.byteAt ((hread i hi).symm.trans hat) with ⟨page, f, hpage, hframe, hcontent, hbyte⟩
      exact ⟨page, f, hpage, hframe, hat.trans hcontent.symm,
        fun hanon => hat.trans (congrArg some (hbyte hanon))⟩

/-! ## Writing -/

def wrote (m : Machine) (p : Nat) (effect : WriteEffect) : Machine :=
  { m.modifyMmu p fun _ => effect.mmu with pool := { m.pool with frames := effect.memory } }

theorem wrote_wrote {first second : WriteEffect} :
    (m.wrote p first).wrote p second = m.wrote p second := by
  unfold wrote modifyMmu modifyProcess
  rw [List.modify_modify_eq]
  rfl

theorem Sound.writeChunk {e : PageEntry} {touched : Mmu} {data : Bytes}
    {result : Except AccessStop Unit} {written : Nat} (k : m.Sound {} mem)
    (hmapped : (m.process p).mmu.mapped? (va - va % (m.process p).mmu.pageSize) = some e)
    (htouched : (m.process p).mmu.Touched touched) :
    (m.wrote p ⟨result, written, (m.process p).mmu.writeChunk m.pool.frames va data e.frame,
      touched⟩).Sound {}
        (mem.store p va (data.take ((m.process p).mmu.chunkLength va data.length))) := by
  rcases k.mappedPage hmapped with ⟨hsize, hbase, page, hpage, hframe, -⟩
  have hfits := ((m.process p).mmu.chunkLength_le va data.length).2
  have hoffset : (va % (m.process p).mmu.pageSize).toNat < m.layout.pageBytes := by
    rw [hsize, UInt64.toNat_mod]
    exact Nat.mod_lt _ (Word.toNat_pos_of_isPowerOfTwo k.powerOfTwo)
  have hva : m.pageBase va + UInt64.ofNat (va % (m.process p).mmu.pageSize).toNat = va := by
    rw [UInt64.ofNat_toNat, hsize, pageBase, ← Word.offsetIn_eq_mod k.powerOfTwo,
      Word.alignDown_add_offset]
  have hroom : (va % (m.process p).mmu.pageSize).toNat +
      (data.take ((m.process p).mmu.chunkLength va data.length)).length ≤
        m.layout.pageBytes := by
    have hpage : (m.process p).mmu.pageSize.toNat = m.layout.pageBytes :=
      congrArg UInt64.toNat hsize
    rw [List.length_take]
    omega
  have hpage' : (m.modifyMmu p fun _ => touched).page? p (m.pageBase va) = some page := by
    rw [page?_modifyMmu, hpage]
  have kstored := (k.touch htouched).store hpage' hframe List.not_mem_nil hoffset hroom
  rw [hva] at kstored
  exact kstored

theorem Sound.wroteNothing {result : Except AccessStop Unit} (k : m.Sound {} mem)
    (va : Vaddr) (data : Bytes) :
    (m.wrote p ⟨result, 0, m.pool.frames, (m.process p).mmu⟩).Sound {}
      (mem.store p va (data.take 0)) := by
  rw [List.take_zero, FlatMemory.store_nil]
  exact k.touch (.refl _)

theorem Sound.writeChunks {fuel : Nat} (va : Vaddr) (data : Bytes) (k : m.Sound {} mem)
    (hfuel : data.length ≤ fuel) :
    (m.wrote p (Mmu.writeChunks fuel m.pool.frames (m.process p).mmu va data)).Sound {}
      (mem.store p va (data.take
        (Mmu.writeChunks fuel m.pool.frames (m.process p).mmu va data).written)) := by
  induction fuel generalizing m mem va data with
  | zero => exact k.wroteNothing va data
  | succ fuel ih =>
      by_cases hzero : data.length = 0
      · rw [Mmu.writeChunks, if_pos hzero]
        exact k.wroteNothing va data
      · have hpower := k.unitPowerOfTwo p
        have hwrote := Mmu.writeChunks_wrote m.pool.frames va data hpower hfuel
        rcases Mmu.writeChunks_cases (m := (m.process p).mmu) fuel m.pool.frames hzero with
          ⟨fault, -, heffect⟩ |
          ⟨e, hmapped, -, hcases⟩
        · rw [heffect]
          exact k.wroteNothing va data
        have htouched := (m.process p).mmu.touched_writeTouched va
        generalize (m.process p).mmu.writeTouched va = touched at *
        rcases hcases with ⟨-, heffect⟩ | heffect | ⟨rest, hrest, -, heffect⟩
        · rw [heffect]
          exact k.writeChunk hmapped htouched
        · rw [heffect]
          exact k.writeChunk hmapped htouched
        · rw [heffect] at hwrote ⊢
          have hpos := Mmu.chunkLength_pos va hpower hzero
          have hfits := ((m.process p).mmu.chunkLength_le va data.length).2
          have hsize := (m.process p).mmu.pageSize.toNat_lt
          -- The rest of the write starts from the machine that has written the first chunk.
          have kchunk : (m.wrote p ⟨.ok (), 0,
              (m.process p).mmu.writeChunk m.pool.frames va data e.frame, touched⟩).Sound {} _ :=
            k.writeChunk hmapped htouched
          generalize (m.process p).mmu.chunkLength va data.length = length at *
          have hunit : ((m.wrote p ⟨.ok (), 0,
              (m.process p).mmu.writeChunk m.pool.frames va data e.frame,
                touched⟩).process p).mmu = touched := by
            show ((m.modifyMmu p fun _ => touched).process p).mmu = touched
            rw [mmu_modifyMmu (lt_of_mapped?_eq_some hmapped), if_pos rfl]
          have krest := ih (va + UInt64.ofNat length) (data.drop length) kchunk
            (by rw [List.length_drop]; omega)
          rw [hunit] at krest
          have krest' : ((m.wrote p ⟨.ok (), 0,
              (m.process p).mmu.writeChunk m.pool.frames va data e.frame,
                touched⟩).wrote p rest).Sound {} ((mem.store p va (data.take length)).store p
                  (va + UInt64.ofNat length) ((data.drop length).take rest.written)) := by
            rw [hrest]
            exact krest
          have hend : length + rest.written ≤ 2 ^ 64 :=
            Nat.le_trans (Nat.le_add_left _ _) hwrote.inSpace
          rw [wrote_wrote, FlatMemory.store_take_drop hend (by omega)] at krest'
          exact krest'

/-- The bytes that a write has written: all of them when it succeeds, and those before the address
of the fault when it faults. -/
def storedBytes (va : Vaddr) (data : Bytes) : Except AccessFault Unit → Bytes
  | .ok () => data
  | .error fault => data.take (fault.va - va).toNat

theorem ends_userWrite {data : Bytes} (k : m.Sound {} mem)
    (hfatal : UInt64.size < va.toNat + data.length → fatal .addOverflow) :
    Ends (userWrite p va data) m fatal
      (fun result next => m.AlikeBut Nowhere next ∧
        next.Sound {} (mem.store p va (storedBytes va data result)) ∧
        ∀ i, i < (storedBytes va data result).length →
          ∃ page, m.lookup p (va + UInt64.ofNat i) = some page ∧ page.isResident = true)
      fun _ _ => False := by
  have hwrote := Mmu.writeChunks_wrote m.pool.frames va data (k.unitPowerOfTwo p)
    (Nat.le_refl data.length)
  have knext := k.writeChunks (p := p) va data (Nat.le_refl data.length)
  have hbehind : (Mmu.writeChunks data.length m.pool.frames (m.process p).mmu va data).result =
      .error .wrapped → UInt64.size < va.toNat + data.length := Mmu.size_lt_of_writeChunks
  unfold userWrite Mmu.userWrite
  rw [ends_bind, ends_get, ends_bind, ends_set, ends_bind, ends_record]
  generalize Mmu.writeChunks data.length m.pool.frames (m.process p).mmu va data = effect at *
  have halike : m.AlikeBut Nowhere (m.wrote p effect) :=
    .of_page?_eq rfl (page?_modifyMmu_eq m p fun _ => effect.mmu)
  have hresident : ∀ i, i < effect.written →
      ∃ page, m.lookup p (va + UInt64.ofNat i) = some page ∧ page.isResident = true := by
    intro i hi
    rcases Option.isSome_iff_exists.mp (hwrote.reached i hi) with ⟨place, hplace⟩
    rcases Option.map_eq_some_iff.mp hplace with ⟨e, he, -⟩
    rcases k.mappedPage he with ⟨-, -, page, hpage, hframe, -⟩
    exact ⟨page, hpage, by rw [Page.isResident, hframe]; rfl⟩
  rcases effect with ⟨result, written, memory, unit⟩
  cases result with
  | ok done =>
      have hall : written = data.length := hwrote.all rfl
      rw [hall, List.take_length] at knext
      rw [hall] at hresident
      exact ⟨{ halike with }, knext.recorded _, hresident⟩
  | error stop =>
      cases stop with
      | wrapped => exact hfatal (hbehind rfl)
      | faulted fault =>
          have hupTo : fault.va.toNat = va.toNat + written := hwrote.upTo fault rfl
          have hcount : (fault.va - va).toNat = written := by
            rw [UInt64.toNat_sub_of_le _ _ (UInt64.le_iff_toNat_le.mpr (by omega))]
            omega
          have hstored : storedBytes va data (.error fault) = data.take written := by
            rw [storedBytes, hcount]
          refine ⟨{ halike with }, ?_⟩
          rw [hstored]
          refine ⟨knext.recorded _, ?_⟩
          intro i hi
          rw [List.length_take] at hi
          exact hresident i (Nat.lt_of_lt_of_le hi (Nat.min_le_left _ _))

end Machine
end DemandPaging
