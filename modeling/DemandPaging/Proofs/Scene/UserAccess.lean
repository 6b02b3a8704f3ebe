import DemandPaging.Proofs.Machine.UserAccess
import DemandPaging.Proofs.Scene.Residency

/-!
# User accesses in a scene

A read is out of sight. A write is one deed: each byte that it wrote is stored in the page that
contains its address, chunk by chunk or all at once.
-/

namespace DemandPaging

variable {l : Layout} {p k count : Nat} {va base : Vaddr} {data content : Bytes}

/-! ## Ranges of bytes and the pages that they touch -/

namespace Layout

theorem touches_eq_true_iff :
    l.touches va count base = true ↔
      ∃ i, i < count ∧ Word.alignDown (va + UInt64.ofNat i) l.pageSize = base := by
  simp [touches]

theorem touches_eq_false_iff :
    l.touches va count base = false ↔
      ∀ i, i < count → Word.alignDown (va + UInt64.ofNat i) l.pageSize ≠ base := by
  simp [touches]

theorem touches_zero : l.touches va 0 base = false := rfl

theorem touches_add : l.touches va (k + count) base =
    (l.touches va k base || l.touches (va + UInt64.ofNat k) count base) := by
  unfold touches
  rw [List.range_add, List.any_append, List.any_map]
  congr 1
  congr 1
  funext i
  rw [Function.comp_apply, UInt64.add_assoc, ← UInt64.ofNat_add]

theorem le_of_untouched {i : Nat} (ha : Word.isPowerOfTwo l.pageSize = true)
    (hbase : Word.isAligned base l.pageSize = true) (h : l.touches va count base = false)
    (hi : i < l.pageBytes) : count ≤ (base + UInt64.ofNat i - va).toNat := by
  apply Nat.le_of_not_lt
  intro hnear
  refine touches_eq_false_iff.mp h _ hnear ?_
  have hplace : va + UInt64.ofNat (base + UInt64.ofNat i - va).toNat =
      base + UInt64.ofNat i := by
    rw [UInt64.ofNat_toNat, UInt64.add_comm, UInt64.sub_add_cancel]
  rw [hplace, Word.alignDown_add_ofNat ha hbase hi]

theorem exists_of_touches (ha : Word.isPowerOfTwo l.pageSize = true)
    (hbase : Word.isAligned base l.pageSize = true) (h : l.touches va count base = true) :
    ∃ i < count, ∃ k < l.pageBytes, base + UInt64.ofNat k = va + UInt64.ofNat i := by
  rcases touches_eq_true_iff.mp h with ⟨i, hi, hdown⟩
  refine ⟨i, hi, _, (Word.sub_lt_iff_alignDown_eq ha hbase _).mpr hdown, ?_⟩
  rw [UInt64.ofNat_toNat, UInt64.add_comm, UInt64.sub_add_cancel]

theorem touches_of_inside
    (h : ∀ i, i < count → Word.alignDown (va + UInt64.ofNat i) l.pageSize = base) (wa : Vaddr) :
    l.touches va count wa = (decide (count ≠ 0) && (base == wa)) := by
  rw [Bool.eq_iff_iff, touches_eq_true_iff]
  simp only [Bool.and_eq_true, decide_eq_true_eq, beq_iff_eq]
  constructor
  · intro htouched
    rcases htouched with ⟨i, hi, hbase⟩
    exact ⟨by omega, (h i hi).symm.trans hbase⟩
  · intro hboth
    exact ⟨0, by omega, (h 0 (by omega)).trans hboth.2⟩

end Layout

/-! ## Stores to the content of a page -/

namespace Bytes

@[simp]
theorem length_stored : (content.stored base va data).length = content.length :=
  List.length_mapIdx

theorem getElem?_stored (i : Nat) : (content.stored base va data)[i]? =
    content[i]?.map fun b => data.getD (base + UInt64.ofNat i - va).toNat b :=
  List.getElem?_mapIdx

theorem stored_nil : content.stored base va [] = content := by
  apply List.ext_getElem?
  intro i
  rw [getElem?_stored]
  exact Option.map_id_apply

theorem stored_stored (h : k + count ≤ 2 ^ 64) (hk : k < 2 ^ 64) :
    (content.stored base va (data.take k)).stored base (va + UInt64.ofNat k)
        ((data.drop k).take count) =
      content.stored base va (data.take (k + count)) := by
  apply List.ext_getElem?
  intro i
  rw [getElem?_stored, getElem?_stored, getElem?_stored, Option.map_map]
  congr 1
  funext b
  -- The same law for a memory that has the byte everywhere.
  have hlaw : ∀ mem : FlatMemory, (mem.store 0 va (data.take k)).store 0 (va + UInt64.ofNat k)
      ((data.drop k).take count) = mem.store 0 va (data.take (k + count)) :=
    fun mem => FlatMemory.store_take_drop h hk
  have hstores := congrFun (congrFun (hlaw fun _ _ => b) 0) (base + UInt64.ofNat i)
  unfold FlatMemory.store at hstores
  rw [if_pos rfl, if_pos rfl, if_pos rfl] at hstores
  exact hstores

theorem stored_of_untouched (ha : Word.isPowerOfTwo l.pageSize = true)
    (hbase : Word.isAligned base l.pageSize = true) (hlength : content.length = l.pageBytes)
    (h : l.touches va data.length base = false) : content.stored base va data = content := by
  apply List.ext_getElem?
  intro i
  rw [getElem?_stored]
  by_cases hi : i < l.pageBytes
  · have hfar := Layout.le_of_untouched ha hbase h hi
    simp [List.getD_eq_getElem?_getD, List.getElem?_eq_none hfar]
  · rw [List.getElem?_eq_none (by omega)]
    rfl

end Bytes

namespace Scene

variable {v : Scene}

theorem sight_stored_self : (v.stored p va data).sight p base =
    { page := (v.sight p base).page
      entry := (v.sight p base).entry.map fun e =>
        { e with dirty := e.dirty || v.layout.touches va data.length base }
      content := (v.sight p base).content.map fun content => content.stored base va data } :=
  if_pos rfl

theorem sight_stored_of_ne {q : Nat} (h : q ≠ p) :
    (v.stored p va data).sight q base = v.sight q base :=
  if_neg h

def Fits (v : Scene) : Prop :=
  Word.isPowerOfTwo v.layout.pageSize = true ∧
    ∀ p va content, (v.sight p va).content = some content →
      Word.isAligned va v.layout.pageSize = true ∧ content.length = v.layout.pageBytes

theorem sight_stored_of_untouched (hfits : v.Fits)
    (h : v.layout.touches va data.length base = false) :
    (v.stored p va data).sight p base = v.sight p base := by
  have hcontents := hfits.2 p base
  rw [sight_stored_self, h]
  generalize v.sight p base = sight at *
  rcases sight with ⟨page, entry, content⟩
  cases content with
  | none => simp
  | some content =>
      rcases hcontents content rfl with ⟨haligned, hlength⟩
      simp [Bytes.stored_of_untouched hfits.1 haligned hlength h]

theorem stored_nil : v.stored p va [] = v := by
  apply Scene.ext
  · rfl
  · funext q base
    by_cases hq : q = p
    · rw [hq, sight_stored_self]
      simp [Layout.touches_zero, Bytes.stored_nil]
    · exact sight_stored_of_ne hq
  · rfl
  · rfl
  · rfl
  · rfl

theorem stored_stored (h : k + count ≤ 2 ^ 64) (hk : k < 2 ^ 64)
    (hlength : k + count ≤ data.length) :
    (v.stored p va (data.take k)).stored p (va + UInt64.ofNat k) ((data.drop k).take count) =
      v.stored p va (data.take (k + count)) := by
  have htake : (data.take k).length = k := List.length_take_of_le (by omega)
  have hdrop : ((data.drop k).take count).length = count :=
    List.length_take_of_le (by rw [List.length_drop]; omega)
  have hboth : (data.take (k + count)).length = k + count := List.length_take_of_le hlength
  apply Scene.ext
  · rfl
  · funext q base
    by_cases hq : q = p
    · rw [hq, sight_stored_self, sight_stored_self, sight_stored_self, Option.map_map,
        Option.map_map, htake, hdrop, hboth, Layout.touches_add]
      congr 1
      · congr 1
        funext e
        exact congrArg (fun dirty => { e with dirty := dirty }) (Bool.or_assoc ..)
      · congr 1
        funext content
        exact Bytes.stored_stored h hk
    · rw [sight_stored_of_ne hq, sight_stored_of_ne hq, sight_stored_of_ne hq]
  · rfl
  · rfl
  · rfl
  · rfl

theorem stored_eq_see (hfits : v.Fits) (hlength : data.length ≠ 0)
    (hinside : ∀ i, i < data.length →
      Word.alignDown (va + UInt64.ofNat i) v.layout.pageSize = base) :
    v.stored p va data = v.see p base
      { page := (v.sight p base).page
        entry := (v.sight p base).entry.map fun e => { e with dirty := true }
        content := (v.sight p base).content.map fun content => content.stored base va data } := by
  have htouches := Layout.touches_of_inside hinside
  have htouched : v.layout.touches va data.length base = true := by
    rw [htouches]
    simpa using hlength
  apply Scene.ext
  · rfl
  · funext q wa
    by_cases hat : q = p ∧ wa = base
    · rw [hat.1, hat.2, sight_see_self, sight_stored_self, htouched]
      simp only [Bool.or_true]
    · rw [sight_see_of_ne hat]
      by_cases hq : q = p
      · have huntouched : v.layout.touches va data.length wa = false := by
          rw [htouches]
          simpa using fun _ hwa => hat ⟨hq, hwa.symm⟩
        rw [hq, sight_stored_of_untouched hfits huntouched]
      · rw [sight_stored_of_ne hq]
  · rfl
  · rfl
  · rfl
  · rfl

end Scene

namespace Mmu

variable {m : Mmu} {memory : List Bytes}

theorem entryAt_readChunks (fuel : Nat) (remaining : Nat) (wa : Vaddr) :
    (readChunks memory fuel m va remaining).mmu.entryAt wa = m.entryAt wa := by
  induction fuel generalizing m va remaining with
  | zero => rfl
  | succ fuel ih =>
      unfold readChunks
      split
      · rfl
      · dsimp only
        split
        · rfl
        · have htouched := entryAt_setAccessed m (va - va % m.pageSize) wa true
          split
          · exact htouched
          · split
            · exact htouched
            · exact (ih _).trans htouched

theorem entryAt_writeTouched (m : Mmu) (va wa : Vaddr) :
    (m.writeTouched va).entryAt wa =
      if wa = va - va % m.pageSize then (m.entryAt wa).map fun e => { e with dirty := true }
      else m.entryAt wa := by
  unfold writeTouched
  rw [entryAt_setDirty, entryAt_setAccessed]

end Mmu

namespace Machine

open Routine

variable {m : Machine} {mem : FlatMemory}

/-! ## Reads -/

theorem Sound.scene_fits (k : m.Sound {} mem) : m.scene.Fits := by
  refine ⟨k.powerOfTwo, ?_⟩
  intro p va content hcontent
  have hcontent' : ((m.page? p va).bind Page.frame).map m.pool.content = some content := hcontent
  rcases Option.map_eq_some_iff.mp hcontent' with ⟨f, hf, rfl⟩
  rcases Option.bind_eq_some_iff.mp hf with ⟨page, hpage, hframe⟩
  exact ⟨(k.placed p va page hpage).aligned, k.length_content (k.frame_lt hpage hframe)⟩

theorem scene_userRead {length : Nat} (k : m.Sound {} mem) :
    Ends (userRead p va length) m Anyhow (fun _ next => next.scene = m.scene) fun _ _ => False := by
  have htouched := (Mmu.readChunks_spec va length (k.unitPowerOfTwo p)
    (fun _ _ _ => k.length_mapped) (Nat.le_refl length)).1
  have hscene : (m.modifyMmu p fun _ => (Mmu.readChunks m.pool.frames length (m.process p).mmu va
      length).mmu).scene = m.scene :=
    scene_keepEntries (congrArg Schedule.outcome htouched.accepting)
      fun wa => Mmu.entryAt_readChunks length length wa
  unfold userRead Mmu.userRead
  rw [ends_bind, ends_get]
  generalize Mmu.readChunks m.pool.frames length (m.process p).mmu va length = outcome at *
  rcases outcome with ⟨result, bytes, after⟩
  dsimp only
  rw [ends_bind, ends_set]
  cases result with
  | error stop =>
      cases stop with
      | faulted fault => exact hscene
      | wrapped => trivial
  | ok => exact hscene

/-! ## Writes -/

theorem Sound.inside_chunk {e : PageEntry} (k : m.Sound {} mem)
    (hmapped : (m.process p).mmu.mapped? (va - va % (m.process p).mmu.pageSize) = some e) {i : Nat}
    (hi : i < (m.process p).mmu.chunkLength va count) :
    Word.alignDown (va + UInt64.ofNat i) m.layout.pageSize = m.pageBase va := by
  rcases k.mappedPage hmapped with ⟨hsize, -⟩
  have hfits := ((m.process p).mmu.chunkLength_le va count).2
  rw [hsize] at hfits
  have hblock := (Word.add_ofNat_in_block (v := va) (i := i) k.powerOfTwo (by omega)).2.2
  rw [← Word.alignDown_eq_sub_mod k.powerOfTwo, ← Word.alignDown_eq_sub_mod k.powerOfTwo] at hblock
  exact hblock

theorem Sound.scene_writeTouched {e : PageEntry} (k : m.Sound {} mem)
    (hmapped : (m.process p).mmu.mapped? (va - va % (m.process p).mmu.pageSize) = some e) :
    (m.modifyMmu p fun _ => (m.process p).mmu.writeTouched va).scene =
      m.scene.see p (m.pageBase va) { m.sight p (m.pageBase va) with
        entry := (m.entryAt p (m.pageBase va)).map fun e => { e with dirty := true } } := by
  rcases k.mappedPage hmapped with ⟨-, hbase, page, hpage, -⟩
  have hmarked : ((m.process p).mmu.writeTouched va).entryAt (m.pageBase va) =
      (m.entryAt p (m.pageBase va)).map fun e => { e with dirty := true } := by
    rw [Mmu.entryAt_writeTouched, if_pos hbase.symm]
    rfl
  rw [← hmarked]
  apply scene_modifyMmu (lt_of_page?_eq_some hpage)
  · rfl
  · intro wa hne
    rw [Mmu.entryAt_writeTouched, if_neg (hbase ▸ hne)]
    rfl

theorem Sound.content_writeChunk {e : PageEntry} (k : m.Sound {} mem)
    (hmapped : (m.process p).mmu.mapped? (va - va % (m.process p).mmu.pageSize) = some e) :
    ((m.process p).mmu.writeChunk m.pool.frames va data e.frame).getD e.frame [] =
      (m.pool.content e.frame).stored (m.pageBase va) va
        (data.take ((m.process p).mmu.chunkLength va data.length)) := by
  rcases k.mappedPage hmapped with ⟨hsize, -, page, hpage, hframe, -⟩
  have hf := k.frame_lt hpage hframe
  have hfits := (m.process p).mmu.chunkLength_le va data.length
  have hoffset : (va % m.layout.pageSize).toNat < m.layout.pageSize.toNat := by
    rw [UInt64.toNat_mod]
    exact Nat.mod_lt _ (Word.toNat_pos_of_isPowerOfTwo k.powerOfTwo)
  have hva : m.pageBase va + UInt64.ofNat (va % m.layout.pageSize).toNat = va := by
    rw [UInt64.ofNat_toNat, pageBase, ← Word.offsetIn_eq_mod k.powerOfTwo,
      Word.alignDown_add_offset]
  have hroom : (va % m.layout.pageSize).toNat +
      (data.take ((m.process p).mmu.chunkLength va data.length)).length ≤
        m.layout.pageSize.toNat := by
    rw [List.length_take_of_le hfits.1]
    rw [hsize] at hfits
    omega
  have hoverlay := FlatMemory.overlay_eq_stored k.powerOfTwo
    (Word.isAligned_alignDown (v := va) k.powerOfTwo) (k.length_content hf) hoffset hroom
  rw [show Word.alignDown va m.layout.pageSize = m.pageBase va from rfl, hva] at hoverlay
  rw [← hoverlay, ← hsize]
  exact FramePool.content_setContent_self hf

theorem Sound.scene_writeChunk {e : PageEntry} {result : Except AccessStop Unit} {written : Nat}
    (k : m.Sound {} mem) (hdata : data.length ≠ 0)
    (hmapped : (m.process p).mmu.mapped? (va - va % (m.process p).mmu.pageSize) = some e) :
    (m.wrote p ⟨result, written, (m.process p).mmu.writeChunk m.pool.frames va data e.frame,
      (m.process p).mmu.writeTouched va⟩).scene =
        m.scene.stored p va (data.take ((m.process p).mmu.chunkLength va data.length)) := by
  rcases k.mappedPage hmapped with ⟨-, -, page, hpage, hframe, -⟩
  have hpos := Mmu.chunkLength_pos va (k.unitPowerOfTwo p) hdata
  have htaken : (data.take ((m.process p).mmu.chunkLength va data.length)).length =
      (m.process p).mmu.chunkLength va data.length :=
    List.length_take_of_le ((m.process p).mmu.chunkLength_le va data.length).1
  have hpours : Pours e.frame (m.modifyMmu p fun _ => (m.process p).mmu.writeTouched va)
      (m.wrote p ⟨result, written, (m.process p).mmu.writeChunk m.pool.frames va data e.frame,
        (m.process p).mmu.writeTouched va⟩) :=
    { layout := rfl
      processes := rfl
      contents := fun g hg => FramePool.content_setContent hg
      files := rfl
      movements := rfl }
  have hcontent : (m.wrote p ⟨result, written, (m.process p).mmu.writeChunk m.pool.frames va data
      e.frame, (m.process p).mmu.writeTouched va⟩).pool.content e.frame =
        (m.pool.content e.frame).stored (m.pageBase va) va
          (data.take ((m.process p).mmu.chunkLength va data.length)) :=
    k.content_writeChunk hmapped
  have hsight : m.scene.sight p (m.pageBase va) =
      ⟨some page, m.entryAt p (m.pageBase va), some (m.pool.content e.frame)⟩ :=
    sight_of_frame hpage hframe
  have hpage' : (m.modifyMmu p fun _ => (m.process p).mmu.writeTouched va).page? p
      (m.pageBase va) = some page := by
    rw [page?_modifyMmu, hpage]
  rw [hpours.scene (k.touch ((m.process p).mmu.touched_writeTouched va)) hpage' hframe,
    sight_of_scene (k.scene_writeTouched hmapped), k.scene_writeTouched hmapped, Scene.see_see,
    Scene.stored_eq_see k.scene_fits (by omega) fun i hi => k.inside_chunk hmapped (htaken ▸ hi)]
  rw [hcontent, hsight, show m.sight p (m.pageBase va) = _ from hsight]
  rfl

theorem scene_wroteNothing {result : Except AccessStop Unit} (m : Machine) (p : Nat) (va : Vaddr)
    (data : Bytes) : (m.wrote p ⟨result, 0, m.pool.frames, (m.process p).mmu⟩).scene =
      m.scene.stored p va (data.take 0) := by
  rw [List.take_zero, Scene.stored_nil]
  have hsame : (m.modifyMmu p fun _ => (m.process p).mmu).scene = m.scene :=
    scene_keepEntries rfl fun _ => rfl
  exact hsame

def MappedWritable (m : Machine) (p : Nat) (va : Vaddr) : Prop :=
  ∃ e, m.entryAt p (m.pageBase va) = some e ∧ e.writable = true

theorem MappedWritable.of_stored {n : Machine} (h : n.MappedWritable p base)
    (hscene : n.scene = m.scene.stored p va data) : m.MappedWritable p base := by
  rcases h with ⟨e, he, hwritable⟩
  have hlayout : n.layout = m.layout := congrArg Scene.layout hscene
  have hsight : n.sight p (m.pageBase base) =
      (m.scene.stored p va data).sight p (m.pageBase base) := by
    rw [← hscene]
    rfl
  have hentry : n.entryAt p (m.pageBase base) = (m.entryAt p (m.pageBase base)).map _ :=
    congrArg Sight.entry (hsight.trans Scene.sight_stored_self)
  rw [pageBase, hlayout, ← pageBase, hentry] at he
  rcases Option.map_eq_some_iff.mp he with ⟨old, hold, rfl⟩
  exact ⟨old, hold, hwritable⟩

theorem Sound.mappedWritable_chunk {e : PageEntry} (k : m.Sound {} mem)
    (hmapped : (m.process p).mmu.mapped? (va - va % (m.process p).mmu.pageSize) = some e)
    (hwritable : e.writable = true) {i : Nat} (hi : i < (m.process p).mmu.chunkLength va count) :
    m.MappedWritable p (va + UInt64.ofNat i) := by
  rcases k.mappedPage hmapped with ⟨-, hbase, -⟩
  refine ⟨{ e with accessed := false }, ?_, hwritable⟩
  rw [show m.pageBase (va + UInt64.ofNat i) = m.pageBase va from k.inside_chunk hmapped hi, ← hbase]
  exact congrArg (Option.map _) hmapped

theorem Sound.scene_writeChunks {fuel : Nat} (k : m.Sound {} mem) (va : Vaddr) (data : Bytes)
    (hfuel : data.length ≤ fuel) :
    (m.wrote p (Mmu.writeChunks fuel m.pool.frames (m.process p).mmu va data)).scene =
        m.scene.stored p va (data.take
          (Mmu.writeChunks fuel m.pool.frames (m.process p).mmu va data).written) ∧
      ∀ i, i < (Mmu.writeChunks fuel m.pool.frames (m.process p).mmu va data).written →
        m.MappedWritable p (va + UInt64.ofNat i) := by
  induction fuel generalizing m mem va data with
  | zero => exact ⟨scene_wroteNothing m p va data, fun _ hi => absurd hi (Nat.not_lt_zero _)⟩
  | succ fuel ih =>
      by_cases hzero : data.length = 0
      · rw [Mmu.writeChunks, if_pos hzero]
        exact ⟨scene_wroteNothing m p va data, fun _ hi => absurd hi (Nat.not_lt_zero _)⟩
      have hpower := k.unitPowerOfTwo p
      have hwrote := Mmu.writeChunks_wrote m.pool.frames va data hpower hfuel
      rcases Mmu.writeChunks_cases (m := (m.process p).mmu) fuel m.pool.frames hzero with
        ⟨fault, -, heffect⟩ | ⟨e, hmapped, hwritable, hcases⟩
      · rw [heffect]
        exact ⟨scene_wroteNothing m p va data, fun _ hi => absurd hi (Nat.not_lt_zero _)⟩
      rcases hcases with ⟨-, heffect⟩ | heffect | ⟨rest, hrest, -, heffect⟩
      · rw [heffect]
        exact ⟨k.scene_writeChunk hzero hmapped, fun _ => k.mappedWritable_chunk hmapped hwritable⟩
      · rw [heffect]
        exact ⟨k.scene_writeChunk hzero hmapped, fun _ => k.mappedWritable_chunk hmapped hwritable⟩
      rw [heffect] at hwrote ⊢
      -- The machine after the first chunk, from which the write goes on.
      obtain ⟨first, hfirst⟩ : ∃ first, first = m.wrote p ⟨.ok (), 0,
          (m.process p).mmu.writeChunk m.pool.frames va data e.frame,
            (m.process p).mmu.writeTouched va⟩ := ⟨_, rfl⟩
      have kchunk : first.Sound {} (mem.store p va
          (data.take ((m.process p).mmu.chunkLength va data.length))) := by
        rw [hfirst]
        exact k.writeChunk hmapped ((m.process p).mmu.touched_writeTouched va)
      have hchunk : first.scene = m.scene.stored p va
          (data.take ((m.process p).mmu.chunkLength va data.length)) := by
        rw [hfirst]
        exact k.scene_writeChunk hzero hmapped
      have hreached : ∀ i, i < (m.process p).mmu.chunkLength va data.length →
          m.MappedWritable p (va + UInt64.ofNat i) :=
        fun _ => k.mappedWritable_chunk hmapped hwritable
      have hpos := Mmu.chunkLength_pos va hpower hzero
      have hfits := ((m.process p).mmu.chunkLength_le va data.length).2
      have hsize := (m.process p).mmu.pageSize.toNat_lt
      have hspace : va.toNat + ((m.process p).mmu.chunkLength va data.length + rest.written) ≤
          2 ^ 64 := hwrote.inSpace
      have hle : (m.process p).mmu.chunkLength va data.length + rest.written ≤ data.length :=
        hwrote.le_length
      have hunit : (first.process p).mmu = (m.process p).mmu.writeTouched va := by
        rw [hfirst]
        show ((m.modifyMmu p fun _ => (m.process p).mmu.writeTouched va).process p).mmu = _
        rw [mmu_modifyMmu (lt_of_mapped?_eq_some hmapped), if_pos rfl]
      have hframes : first.pool.frames =
          (m.process p).mmu.writeChunk m.pool.frames va data e.frame := by
        rw [hfirst]
        rfl
      generalize (m.process p).mmu.chunkLength va data.length = length at *
      have hlast := ih kchunk (va + UInt64.ofNat length) (data.drop length)
        (by rw [List.length_drop]; omega)
      rw [hunit, hframes, ← hrest, hchunk, hfirst, wrote_wrote, ← hfirst] at hlast
      constructor
      · show (m.wrote p rest).scene = _
        rw [hlast.1]
        exact Scene.stored_stored (by omega) (by omega) hle
      · intro i hi
        have hi' : i < length + rest.written := hi
        by_cases hin : i < length
        · exact hreached i hin
        · have hplace : va + UInt64.ofNat length + UInt64.ofNat (i - length) =
              va + UInt64.ofNat i := by
            rw [UInt64.add_assoc, ← UInt64.ofNat_add, Nat.add_sub_cancel' (by omega)]
          have hlater := (hlast.2 (i - length) (by omega)).of_stored hchunk
          rw [hplace] at hlater
          exact hlater

theorem scene_userWrite {data : Bytes} (k : m.Sound {} mem) :
    Ends (userWrite p va data) m Anyhow
      (fun result next =>
        Scene.Step (.store p va (storedBytes va data result)) m.scene next.scene)
      fun _ _ => False := by
  have hwrote := Mmu.writeChunks_wrote m.pool.frames va data (k.unitPowerOfTwo p)
    (Nat.le_refl data.length)
  have hscene := k.scene_writeChunks (p := p) va data (Nat.le_refl data.length)
  unfold userWrite Mmu.userWrite
  rw [ends_bind, ends_get, ends_bind, ends_set, ends_bind, ends_record]
  generalize Mmu.writeChunks data.length m.pool.frames (m.process p).mmu va data = effect at *
  rcases effect with ⟨result, written, memory, unit⟩
  have hlength : (data.take written).length = written := List.length_take_of_le hwrote.le_length
  have hstep : Scene.Step (.store p va (data.take written)) m.scene
      ((m.wrote p ⟨result, written, memory, unit⟩).recorded (.stored p va written)).scene := by
    rw [scene_noted rfl, hscene.1]
    have hstored : Scene.Step (.store p va (data.take written)) m.scene
        ((m.scene.stored p va (data.take written)).noted
          (.stored p va (data.take written).length)) :=
      .store fun i hi => hscene.2 i (hlength ▸ hi)
    rw [hlength] at hstored
    exact hstored
  cases result with
  | ok done =>
      rw [show written = data.length from hwrote.all rfl, List.take_length] at hstep
      rw [show written = data.length from hwrote.all rfl]
      exact hstep
  | error stop =>
      cases stop with
      | wrapped => trivial
      | faulted fault =>
          have hupTo : fault.va.toNat = va.toNat + written := hwrote.upTo fault rfl
          have hcount : (fault.va - va).toNat = written := by
            rw [UInt64.toNat_sub_of_le _ _ (UInt64.le_iff_toNat_le.mpr (by omega))]
            omega
          have hstored : storedBytes va data (.error fault) = data.take written := by
            rw [storedBytes, hcount]
          show Scene.Step (.store p va (storedBytes va data (.error fault))) _ _
          rw [hstored]
          exact hstep

end Machine
end DemandPaging
