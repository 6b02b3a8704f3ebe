import DemandPaging.Proofs.Machine.Operation
import DemandPaging.Proofs.Scene.FileMapping

/-!
# Outcomes of a file mapping

All that can refuse a file mapping is checked before its first page is registered, so a request that
fails leaves the machine as it was. One sum is not checked, the offset of a page in the file. When
it leaves the word, the request aborts.
-/

namespace DemandPaging

namespace Layout

def partAt (l : Layout) (f : Nat) (offset : UInt64) (total i : Nat) : FileExtent :=
  let count := min (total - i * l.pageBytes) l.pageBytes
  ⟨f, offset + UInt64.ofNat i * l.pageSize, UInt64.ofNat count, UInt64.ofNat (l.pageBytes - count)⟩

def rangePage (l : Layout) (p : Nat) (start : Vaddr) (writable : Bool) (f : Nat) (offset : UInt64)
    (total i : Nat) : Page :=
  ⟨0, l.pageAt start i, writable, false, none, some start, p, l.pageSize,
    .uninit (.file (l.partAt f offset total i))⟩

theorem partAt_eq {l : Layout} {f total i : Nat} {offset first remaining : UInt64}
    (hfirst : Word.checkedAdd offset (UInt64.ofNat i * l.pageSize) = some first)
    (hremaining : remaining.toNat = total - i * l.pageBytes) :
    (⟨f, first, min remaining l.pageSize, l.pageSize - min remaining l.pageSize⟩ : FileExtent) =
      l.partAt f offset total i := by
  have hread : (min remaining l.pageSize).toNat =
      min (total - i * l.pageBytes) l.pageBytes := by
    rw [Word.toNat_min, hremaining]
    rfl
  have hword : ∀ {w : UInt64} {k : Nat}, w.toNat = k → w = UInt64.ofNat k := by
    intro w k h
    rw [← h, UInt64.ofNat_toNat]
  have hle : min remaining l.pageSize ≤ l.pageSize := by
    rw [UInt64.le_iff_toNat_le, Word.toNat_min]
    exact Nat.min_le_right _ _
  have hzero : (l.pageSize - min remaining l.pageSize).toNat =
      l.pageBytes - min (total - i * l.pageBytes) l.pageBytes := by
    rw [UInt64.toNat_sub_of_le _ _ hle, hread]
    rfl
  rw [Word.eq_add_of_checkedAdd hfirst, hword hzero, hword hread]
  rfl

end Layout

namespace Machine

open Routine

variable {m : Machine} {p f : Nat} {start stop : Vaddr} {writable : Bool} {offset : UInt64}

/-! ## Registering the pages -/

def withPages (m : Machine) (p : Nat) (page : Nat → Page) : Nat → Nat → Machine
  | _, 0 => m
  | index, count + 1 => (m.withPage p (page index)).withPages p page (index + 1) count

theorem layout_withPages (m : Machine) (p : Nat) (page : Nat → Page) (index count : Nat) :
    (m.withPages p page index count).layout = m.layout := by
  induction count generalizing m index with
  | zero => rfl
  | succ count ih => exact ih (m.withPage p (page index)) (index + 1)

theorem page?_withPage_later {l : Layout} {page : Page} {index i : Nat}
    (hp : p < m.processes.length) (hva : page.va = l.pageAt start index) (hlater : index < i)
    (hspan : start.toNat + i * l.pageBytes < UInt64.size) :
    (m.withPage p page).page? p (l.pageAt start i) = m.page? p (l.pageAt start i) := by
  have hle : (index + 1) * l.pageBytes ≤ i * l.pageBytes := Nat.mul_le_mul_right _ hlater
  have hpos := l.pageBytes_pos
  rw [Nat.succ_mul] at hle
  rw [page?_withPage hp, if_neg]
  rintro ⟨-, hsame⟩
  rw [hva] at hsame
  have hnat := congrArg UInt64.toNat hsame
  rw [Layout.toNat_pageAt hspan, Layout.toNat_pageAt (by omega)] at hnat
  omega

theorem tornDown_withPage (m : Machine) (p q : Nat) (page : Page) :
    ((m.withPage p page).process q).tornDown = (m.process q).tornDown := by
  show ((m.modifyProcess p _).process q).tornDown = _
  exact process_modifyProcess_of_forall m p q Process.tornDown fun _ => rfl

theorem outcome_registerMapped {l : Layout} {count index total bytes : Nat} {va : Vaddr}
    {remaining : UInt64} (hcount : index + count = total) (hva : va = l.pageAt start index)
    (hremaining : remaining.toNat = bytes - index * l.pageBytes) (hl : m.layout = l)
    (hopen : (m.process p).tornDown = false)
    (haligned : Word.isAligned start l.pageSize = true)
    (hspan : start.toNat + total * l.pageBytes < UInt64.size)
    (hfree : ∀ i, index ≤ i → i < total → m.page? p (l.pageAt start i) = none) :
    Ends (registerMapped p start writable f offset count index va remaining) m
      (fun a => a = .addOverflow ∧ ∃ i, i < total ∧ UInt64.size ≤ offset.toNat + i * l.pageBytes)
      (fun result next => result = (total, none) ∧
        (∀ i, index ≤ i → i < total → offset.toNat + i * l.pageBytes < UInt64.size) ∧
        next = m.withPages p (l.rangePage p start writable f offset bytes) index count)
      fun _ _ => False := by
  induction count generalizing m index va remaining with
  | zero =>
      subst hcount
      exact ⟨rfl, fun i hfrom hto => absurd hto (Nat.not_lt.mpr hfrom), rfl⟩
  | succ count ih =>
      subst hva
      have hinside : ∀ i, i ≤ total → start.toNat + i * l.pageBytes < UInt64.size := by
        intro i hi
        refine Nat.lt_of_le_of_lt (Nat.add_le_add_left ?_ _) hspan
        exact Nat.mul_le_mul_right _ hi
      have hlt : index < total := by omega
      have hnext : index + 1 + count = total := by omega
      have hhere := hinside index (Nat.le_of_lt hlt)
      have hpart : (UInt64.ofNat index * l.pageSize).toNat = index * l.pageBytes :=
        Layout.toNat_mul_pageSize (Nat.lt_of_le_of_lt (Nat.le_add_left _ _) hhere)
      have hleft : (remaining - min remaining l.pageSize).toNat =
          bytes - (index + 1) * l.pageBytes := by
        have hle : min remaining l.pageSize ≤ remaining := by
          rw [UInt64.le_iff_toNat_le, Word.toNat_min]
          exact Nat.min_le_left _ _
        rw [UInt64.toNat_sub_of_le _ _ hle, Word.toNat_min, hremaining, Nat.succ_mul]
        show bytes - index * l.pageBytes - min (bytes - index * l.pageBytes) l.pageBytes = _
        omega
      unfold registerMapped
      rw [ends_bind, ends_get, hl]
      dsimp only
      rw [ends_bind]
      unfold Layout.mappedExtent Word.addOrAbort
      cases hfirst : Word.checkedAdd offset (UInt64.ofNat index * l.pageSize) with
      | none =>
          have hsize := Word.size_le_of_checkedAdd hfirst
          rw [hpart] at hsize
          exact ⟨rfl, index, hlt, hsize⟩
      | some first =>
          have hsum := Word.checkedAdd_eq_some_iff.mp hfirst
          rw [hpart] at hsum
          have hp := lt_of_tornDown_eq_false hopen
          have hplace := Layout.isAligned_pageAt haligned hhere
          have hcontains : (m.process p).pages.contains (l.pageAt start index) = false :=
            AddressMap.contains_eq_false_iff.mpr (hfree index (Nat.le_refl index) hlt)
          rw [show Except.map _ (Except.ok first) = Except.ok _ from rfl, ends_ofAbort_ok,
            ends_bind, mappedPage_of_aligned hplace, ends_ofStop_ok, ends_bind, ends_attempt]
          unfold register
          simp only [ends_bind, ends_get, ends_require, ends_set, ends_pure, hopen, hl, hplace,
            hcontains, Bool.not_false, if_true]
          rw [Layout.partAt_eq hfirst hremaining]
          refine (ih (m := m.withPage p _) hnext (l.pageAt_succ start index) hleft hl ?_ ?_).mono ?_
            fun _ _ hfalse => hfalse
          · rw [tornDown_withPage]
            exact hopen
          · intro i hfrom hto
            rw [page?_withPage_later hp rfl hfrom (hinside i (Nat.le_of_lt hto))]
            exact hfree i (Nat.le_of_lt hfrom) hto
          · intro result next hnext
            refine ⟨hnext.1, ?_, hnext.2.2⟩
            intro i hfrom hto
            rcases Nat.eq_or_lt_of_le hfrom with rfl | hlater
            · rw [hsum]
              exact first.toNat_lt_size
            · exact hnext.2.1 i hlater hto

theorem registerRange_of_tornDown {length : UInt64} {fatal : Abort → Prop}
    (htorn : (m.process p).tornDown = true)
    (haligned : Word.isAligned start m.layout.pageSize = true)
    (hpos : 0 < (stop - start).toNat / m.layout.pageBytes) :
    Ends (registerRange p start stop length writable f offset) m fatal (fun _ _ => False)
      fun _ next => next = m := by
  rcases Nat.exists_eq_succ_of_ne_zero (Nat.ne_of_gt hpos) with ⟨count, hcount⟩
  have hfirst : Word.checkedAdd offset (UInt64.ofNat 0 * m.layout.pageSize) = some offset := by
    rw [Word.checkedAdd_eq_some_iff, Layout.toNat_mul_pageSize (by rw [Nat.zero_mul]; decide)]
    omega
  unfold registerRange
  rw [ends_bind, ends_get, hcount]
  dsimp only
  rw [ends_bind]
  unfold registerMapped Layout.mappedExtent Word.addOrAbort
  rw [ends_bind, ends_get]
  dsimp only
  rw [hfirst, ends_bind, show Except.map _ (Except.ok offset) = Except.ok _ from rfl,
    ends_ofAbort_ok, ends_bind, mappedPage_of_aligned haligned, ends_ofStop_ok, ends_bind,
    ends_attempt]
  unfold register
  simp only [ends_bind, ends_get, ends_require, htorn, Bool.not_true, Bool.false_eq_true, if_false,
    ends_pure]
  exact rfl

/-! ## Requests -/

/-- In steps of whole pages, the sum of an offset and a length leaves the word exactly if the last
step does. -/
theorem overshoots_iff {l : Layout} {count : Nat} (hpos : 0 < count)
    (haligned : offset % l.pageSize = 0) :
    UInt64.size < offset.toNat + count * l.pageBytes ↔
      ∃ i, i < count ∧ UInt64.size ≤ offset.toNat + i * l.pageBytes := by
  have hpage := l.pageBytes_pos
  constructor
  · intro hsize
    refine ⟨count - 1, by omega, ?_⟩
    have hoffset : l.pageBytes ∣ offset.toNat := by
      apply Nat.dvd_of_mod_eq_zero
      have hmod := congrArg UInt64.toNat haligned
      rw [UInt64.toNat_mod] at hmod
      exact hmod
    have hstep : UInt64.size + l.pageBytes ≤ offset.toNat + count * l.pageBytes :=
      Word.add_le_of_dvd_of_lt (Word.toNat_dvd_size l.fits.1)
        (Nat.dvd_add hoffset (Nat.dvd_mul_left l.pageBytes count)) hsize
    have hcount : (count - 1) * l.pageBytes + l.pageBytes = count * l.pageBytes := by
      rw [← Nat.succ_mul, Nat.succ_eq_add_one, Nat.sub_add_cancel hpos]
    omega
  · rintro ⟨i, hi, hsize⟩
    have hle : (i + 1) * l.pageBytes ≤ count * l.pageBytes := Nat.mul_le_mul_right _ hi
    rw [Nat.succ_mul] at hle
    omega

def withRange (m : Machine) (p : Nat) (start stop : Vaddr) (length : UInt64) (writable : Bool)
    (f : Nat) (offset : UInt64) (count : Nat) : Machine :=
  ((m.withPages p (m.layout.rangePage p start writable f offset
      ((m.file f).mappedBytes length offset).toNat) 0 count).recorded
    (.reported (.mapped start stop offset))).modifyMappings p fun mappings =>
      mappings.insert start ⟨start, length, m.layout.pagesFrom start count⟩

/-- The pages of a free range are all registered, or the offset of one leaves the word. -/
theorem outcome_registerRange {length : UInt64} {count : Nat}
    (hopen : (m.process p).tornDown = false)
    (haligned : Word.isAligned start m.layout.pageSize = true)
    (hoffset : offset % m.layout.pageSize = 0) (hpos : 0 < count)
    (hcount : (stop - start).toNat / m.layout.pageBytes = count)
    (hspan : start.toNat + count * m.layout.pageBytes = stop.toNat)
    (hoccupied : (m.process p).pages.occupied start stop = false) :
    Ends (registerRange p start stop length writable f offset) m
      (fun a => a = .addOverflow ∧ UInt64.size < offset.toNat + count * m.layout.pageBytes)
      (fun _ next => ¬UInt64.size < offset.toNat + count * m.layout.pageBytes ∧
        next = m.withRange p start stop length writable f offset count)
      fun _ _ => False := by
  have hfirst : start = m.layout.pageAt start 0 := by
    unfold Layout.pageAt
    simp
  have hend : start.toNat + count * m.layout.pageBytes < UInt64.size := by
    rw [hspan]
    exact stop.toNat_lt_size
  have hfree : ∀ i, 0 ≤ i → i < count → m.page? p (m.layout.pageAt start i) = none := by
    intro i _ hi
    have hle : (i + 1) * m.layout.pageBytes ≤ count * m.layout.pageBytes :=
      Nat.mul_le_mul_right _ hi
    have hpage := m.layout.pageBytes_pos
    rw [Nat.succ_mul] at hle
    have hplace : (m.layout.pageAt start i).toNat = start.toNat + i * m.layout.pageBytes :=
      Layout.toNat_pageAt (by omega)
    rw [Option.eq_none_iff_forall_ne_some]
    intro page hpage
    rw [← Bool.not_eq_true] at hoccupied
    apply hoccupied
    rw [AddressMap.occupied_eq_true_iff]
    refine ⟨_, page, hpage, ?_, ?_⟩
    · rw [UInt64.le_iff_toNat_le, hplace]
      exact Nat.le_add_right _ _
    · rw [UInt64.lt_iff_toNat_lt, hplace]
      omega
  unfold registerRange
  rw [ends_bind, ends_get]
  dsimp only
  rw [hcount, ends_bind, overshoots_iff hpos hoffset]
  have hall : ((m.file f).mappedBytes length offset).toNat =
      ((m.file f).mappedBytes length offset).toNat - 0 * m.layout.pageBytes := by omega
  refine (outcome_registerMapped (Nat.zero_add _) hfirst hall rfl hopen haligned hend hfree).mono ?_
    fun _ _ hfalse => hfalse
  rintro result next ⟨rfl, hwithin, rfl⟩
  dsimp only
  rw [ends_bind, ends_report, ends_modify]
  constructor
  · rintro ⟨i, hi, hsize⟩
    exact absurd (hwithin i (Nat.zero_le i) hi) (Nat.not_lt.mpr hsize)
  · have hlayout : ((m.withPages p (m.layout.rangePage p start writable f offset
        ((m.file f).mappedBytes length offset).toNat) 0 count).recorded
          (.reported (.mapped start stop offset))).layout = m.layout := layout_withPages ..
    rw [hlayout]
    rfl

/-- The arguments of a request are accepted, and the offset of its last page leaves the word. -/
structure Overshoots (m : Machine) (p : Nat) (start : Vaddr) (length : UInt64) (f : Nat)
    (offset : UInt64) : Prop where
  nonzero : start ≠ 0
  aligned : Word.isAligned start m.layout.pageSize = true
  whole : length ≠ 0 ∧ offset % m.layout.pageSize = 0 ∧ (m.file f).isEmpty = false
  accepting : (m.process p).tornDown = false
  range : ∃ stop, m.layout.mappingEnd start length = some stop ∧
    (m.process p).pages.occupied start stop = false ∧
    UInt64.size < offset.toNat + (stop - start).toNat

theorem overshoots_iff_of_range {length : UInt64}
    (hstart : start ≠ 0 ∧ Word.isAligned start m.layout.pageSize = true)
    (hwhole : length ≠ 0 ∧ offset % m.layout.pageSize = 0 ∧ (m.file f).isEmpty = false)
    (hopen : (m.process p).tornDown = false)
    (hstop : m.layout.mappingEnd start length = some stop)
    (hfree : (m.process p).pages.occupied start stop = false) :
    m.Overshoots p start length f offset ↔ UInt64.size < offset.toNat + (stop - start).toNat := by
  constructor
  · intro hover
    rcases hover.range with ⟨last, hsome, -, hsize⟩
    cases hstop.symm.trans hsome
    exact hsize
  · exact fun hsize => ⟨hstart.1, hstart.2, hwhole, hopen, stop, hstop, hfree, hsize⟩

theorem outcome_mapFile {length : UInt64} :
    Ends (mapFile p start length writable f offset) m
      (fun a => a = .addOverflow ∧ m.Overshoots p start length f offset)
      (fun va _ => va = start ∧ ¬m.Overshoots p start length f offset)
      fun _ next => next = m ∧ ¬m.Overshoots p start length f offset := by
  unfold mapFile
  rw [ends_bind, ends_get]
  dsimp only
  rw [ends_bind, ends_require]
  split
  case isFalse hstart =>
    refine ⟨rfl, fun hover => hstart ?_⟩
    rw [Bool.and_eq_true, bne_iff_ne]
    exact ⟨hover.nonzero, hover.aligned⟩
  case isTrue hstart =>
    rw [Bool.and_eq_true, bne_iff_ne] at hstart
    rw [ends_bind, ends_require]
    split
    case isFalse hwhole =>
      refine ⟨rfl, fun hover => hwhole ?_⟩
      rw [Bool.and_eq_true, Bool.and_eq_true, bne_iff_ne, beq_iff_eq, Bool.not_eq_true', and_assoc]
      exact hover.whole
    case isTrue hwhole =>
      rw [Bool.and_eq_true, Bool.and_eq_true, bne_iff_ne, beq_iff_eq, Bool.not_eq_true',
        and_assoc] at hwhole
      rw [ends_bind]
      cases hstop : m.layout.mappingEnd start length with
      | none =>
          refine ⟨rfl, ?_⟩
          intro hover
          rcases hover.range with ⟨stop, hsome, -⟩
          rw [hstop] at hsome
          contradiction
      | some stop =>
          rw [ends_orFail_some, ends_bind, ends_require]
          split
          case isFalse hfree =>
            refine ⟨rfl, fun hover => hfree ?_⟩
            rcases hover.range with ⟨last, hsome, hoccupied, -⟩
            cases hstop.symm.trans hsome
            rw [hoccupied]
            rfl
          case isTrue hfree =>
            rw [Bool.not_eq_true'] at hfree
            rcases Layout.mappingEnd_cover hstart.2 hstop with ⟨hspan, hcover⟩
            have hpos : 0 < (stop - start).toNat / m.layout.pageBytes := by
              apply Nat.pos_of_ne_zero
              intro hzero
              rw [hzero, Nat.zero_mul] at hcover
              exact hwhole.1 (UInt64.toNat_inj.mp (Nat.le_zero.mp hcover))
            rw [ends_bind]
            cases htorn : (m.process p).tornDown with
            | true =>
                refine (registerRange_of_tornDown htorn hstart.2 hpos).mono
                  (fun _ _ hfalse => hfalse.elim) fun _ next hnext => ⟨hnext, fun hover => ?_⟩
                rw [hover.accepting] at htorn
                contradiction
            | false =>
                have hle : start ≤ stop := UInt64.le_iff_toNat_le.mpr (by omega)
                have hbytes := UInt64.toNat_sub_of_le _ _ hle
                have hwithin : (stop - start).toNat / m.layout.pageBytes * m.layout.pageBytes =
                    (stop - start).toNat := by omega
                rw [overshoots_iff_of_range hstart hwhole htorn hstop hfree, ← hwithin]
                refine (outcome_registerRange htorn hstart.2 hwhole.2.1 hpos rfl hspan hfree).mono
                  (fun _ _ hinside => ⟨rfl, hinside.1⟩) fun _ _ hfalse => hfalse.elim

/-- A request to map a file has the address as its result, or it fails and the machine is as it was,
unless the offset of its last page leaves the word. The distances from the first page and the
addresses never do. -/
theorem mapFile_total_and_atomic (m : Machine) (p : Nat) (start : Vaddr) (length : UInt64)
    (writable : Bool) (f : Nat) (offset : UInt64) :
    (((∃ next, mapFile p start length writable f offset m = .ok start next) ∨
        ∃ e, mapFile p start length writable f offset m = .error (.failed e) m) ↔
      ¬m.Overshoots p start length f offset) ∧
    (∀ a next, mapFile p start length writable f offset m = .error (.aborted a) next →
      a = .addOverflow) ∧
    ∀ stop i, Word.isAligned start m.layout.pageSize = true →
      m.layout.mappingEnd start length = some stop →
      i ≤ (stop - start).toNat / m.layout.pageBytes →
      (UInt64.ofNat i * m.layout.pageSize).toNat = i * m.layout.pageBytes ∧
        (m.layout.pageAt start i).toNat = start.toNat + i * m.layout.pageBytes := by
  have hends := @outcome_mapFile m p f start writable offset length
  refine ⟨⟨?_, ?_⟩, fun a next hend => (hends.of_aborted hend).1, ?_⟩
  · rintro (⟨next, hend⟩ | ⟨e, hend⟩)
    · exact (hends.of_ok hend).2
    · exact (hends.of_failed hend).2
  · intro hwithin
    cases hend : mapFile p start length writable f offset m with
    | ok va next =>
        rw [(hends.of_ok hend).1]
        exact Or.inl ⟨next, rfl⟩
    | error stop next =>
        cases stop with
        | failed e =>
            rw [(hends.of_failed hend).1]
            exact Or.inr ⟨e, rfl⟩
        | aborted a => exact absurd (hends.of_aborted hend).2 hwithin
  · intro stop i haligned hstop hi
    have hspan := (Layout.mappingEnd_cover haligned hstop).1
    have hle := Nat.mul_le_mul_right m.layout.pageBytes hi
    have hlt := stop.toNat_lt_size
    exact ⟨Layout.toNat_mul_pageSize (by omega), Layout.toNat_pageAt (by omega)⟩

/-- One page of a file can be mapped from the last offset of a page that is in the word, and two
cannot, although both have addresses in the word. -/
theorem second_offset_outside_word : ∃ m : Machine, m.Reachable ∧
    ((∃ next, mapFile 0 0x2000 16 true 0 0xfffffffffffffff0 m = .ok 0x2000 next) ∨
      ∃ e, mapFile 0 0x2000 16 true 0 0xfffffffffffffff0 m = .error (.failed e) m) ∧
    ¬((∃ next, mapFile 0 0x2000 32 true 0 0xfffffffffffffff0 m = .ok 0x2000 next) ∨
      ∃ e, mapFile 0 0x2000 32 true 0 0xfffffffffffffff0 m = .error (.failed e) m) ∧
    (m.layout.pageAt 0x2000 2).toNat = 0x2000 + 2 * m.layout.pageBytes := by
  have hrun := Reachable.of_run smallConfig (smallHardware none [.patterned 64])
    [.start (.always true)] (fun m => decide (m.layout.pageSize = 16) &&
      decide (m.layout.mappingEnd 0x2000 16 = some 0x2010) &&
      decide (m.layout.mappingEnd 0x2000 32 = some 0x2020) &&
      !(m.file 0).isEmpty && !(m.process 0).tornDown &&
      !(m.process 0).pages.occupied 0x2000 0x2010 && !(m.process 0).pages.occupied 0x2000 0x2020)
    (by decide +kernel)
  rcases hrun with ⟨m, hm, hcheck⟩
  simp only [Bool.and_eq_true, Bool.not_eq_true', decide_eq_true_eq] at hcheck
  rcases hcheck with ⟨⟨⟨⟨⟨⟨hsize, hone⟩, htwo⟩, hsome⟩, hopen⟩, hfree⟩, hfree'⟩
  have hstart : (0x2000 : Vaddr) ≠ 0 ∧ Word.isAligned 0x2000 m.layout.pageSize = true := by
    rw [hsize]
    decide
  have hoffset : (0xfffffffffffffff0 : UInt64) % m.layout.pageSize = 0 := by
    rw [hsize]
    decide
  refine ⟨m, hm, ?_, ?_, ?_⟩
  · apply (mapFile_total_and_atomic m 0 0x2000 16 true 0 0xfffffffffffffff0).1.mpr
    rw [overshoots_iff_of_range hstart ⟨by decide, hoffset, hsome⟩ hopen hone hfree]
    decide
  · rw [(mapFile_total_and_atomic m 0 0x2000 32 true 0 0xfffffffffffffff0).1, not_not]
    rw [overshoots_iff_of_range hstart ⟨by decide, hoffset, hsome⟩ hopen htwo hfree']
    decide
  · apply ((mapFile_total_and_atomic m 0 0x2000 32 true 0 0).2.2 0x2020 2 hstart.2 htwo ?_).2
    show 2 ≤ _ / m.layout.pageSize.toNat
    rw [hsize]
    decide

/-- A request for two pages of a file, from the last page on whose offset is in the word, aborts at
the second page. -/
theorem not_always_total_and_atomic : ¬∀ (m : Machine) p start length writable f offset,
    m.Reachable → (∃ next, mapFile p start length writable f offset m = .ok start next) ∨
      ∃ e, mapFile p start length writable f offset m = .error (.failed e) m := by
  intro hall
  have hrun := Reachable.of_run smallConfig (smallHardware none [.patterned 64])
    [.start (.always true)]
    (fun m => decide (m.after? (.map 0 0x2000 32 true 0 0xfffffffffffffff0) = none))
    (by decide +kernel)
  rcases hrun with ⟨m, hm, hcheck⟩
  rcases after?_eq_none_iff.mp (of_decide_eq_true hcheck) with ⟨a, last, haborted⟩
  rcases bind_eq_error_iff.mp haborted with hend | ⟨va, next, -, hpure⟩
  · rcases hall m 0 0x2000 32 true 0 0xfffffffffffffff0 hm with ⟨next, hserved⟩ | ⟨e, hfailed⟩
    · rw [hend] at hserved
      contradiction
    · rw [hend] at hfailed
      cases hfailed
  · contradiction

end Machine
end DemandPaging
