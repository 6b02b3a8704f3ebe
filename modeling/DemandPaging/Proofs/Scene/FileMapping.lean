import DemandPaging.Proofs.Machine.FileMapping
import DemandPaging.Proofs.Scene.Registration
import DemandPaging.Proofs.Word.Rounding

/-!
# File mappings in scenes

A range of a file that is mapped adds pages without frames, each with its part of the file. The
range is mapped as a whole or not at all. When it is unmapped, its members are released.
-/

namespace DemandPaging

/-! ## The pages of a range -/

namespace Layout

variable {l : Layout} {start stop : Vaddr} {length : UInt64} {i : Nat}

def pageAt (l : Layout) (start : Vaddr) (i : Nat) : Vaddr :=
  start + UInt64.ofNat i * l.pageSize

theorem toNat_pageAt (h : start.toNat + i * l.pageBytes < UInt64.size) :
    (l.pageAt start i).toNat = start.toNat + i * l.pageBytes := by
  unfold pageAt
  rw [UInt64.toNat_add, toNat_mul_pageSize (by omega)]
  exact Nat.mod_eq_of_lt h

theorem pageAt_succ (l : Layout) (start : Vaddr) (i : Nat) :
    l.pageAt start i + l.pageSize = l.pageAt start (i + 1) := by
  unfold pageAt
  rw [UInt64.ofNat_add, UInt64.add_mul, UInt64.add_assoc]
  congr 2
  exact (UInt64.one_mul l.pageSize).symm

theorem isAligned_pageAt (haligned : Word.isAligned start l.pageSize = true)
    (h : start.toNat + i * l.pageBytes < UInt64.size) :
    Word.isAligned (l.pageAt start i) l.pageSize = true := by
  rw [Word.isAligned_iff_mod l.fits.1] at *
  rw [toNat_pageAt h]
  show (start.toNat + i * l.pageSize.toNat) % l.pageSize.toNat = 0
  rw [Nat.add_mul_mod_self_right, haligned]

theorem mappingEnd_eq_some (h : l.mappingEnd start length = some stop) :
    ((Word.checkedAdd start length).bind fun last => Word.alignUp? last l.pageSize) = some stop ∧
      stop ≤ l.userLimit ∧
      (stop.toNat ≤ l.stackFloor.toNat ∨ l.userStackTop.toNat ≤ start.toNat) := by
  unfold mappingEnd at h
  split at h
  · contradiction
  · rename_i found hfound
    split at h
    · contradiction
    · rename_i hlimit
      split at h
      · contradiction
      · rename_i hclear
        cases h
        refine ⟨hfound, UInt64.not_lt.mp hlimit, ?_⟩
        rw [UInt64.lt_iff_toNat_lt, UInt64.lt_iff_toNat_lt] at hclear
        omega

theorem mappingEnd_least (h : l.mappingEnd start length = some stop) :
    stop.toNat < start.toNat + length.toNat + l.pageBytes := by
  rcases Option.bind_eq_some_iff.mp (mappingEnd_eq_some h).1 with ⟨last, hlast, hround⟩
  have hsum := Word.checkedAdd_eq_some_iff.mp hlast
  rw [hsum]
  exact (Word.bounds_of_alignUp? l.fits.1 hround).2.2

theorem mappingEnd_cover (haligned : Word.isAligned start l.pageSize = true)
    (hstop : l.mappingEnd start length = some stop) :
    start.toNat + (stop - start).toNat / l.pageBytes * l.pageBytes = stop.toNat ∧
      length.toNat ≤ (stop - start).toNat / l.pageBytes * l.pageBytes := by
  rcases Option.bind_eq_some_iff.mp (mappingEnd_eq_some hstop).1 with ⟨last, hlast, hround⟩
  have hsum := Word.checkedAdd_eq_some_iff.mp hlast
  rcases Word.bounds_of_alignUp? l.fits.1 hround with ⟨hdvd, hle, -⟩
  have hspan : (stop - start).toNat = stop.toNat - start.toNat := by
    apply UInt64.toNat_sub_of_le
    exact UInt64.le_iff_toNat_le.mpr (by omega)
  have hwhole : l.pageBytes ∣ stop.toNat - start.toNat :=
    Nat.dvd_sub hdvd ((Word.isAligned_iff_dvd l.fits.1).mp haligned)
  rw [hspan, Nat.div_mul_cancel hwhole]
  omega

/-- Page number `i` of a range holds its part of the file: a whole page of it, as long as there are
bytes of the file left. -/
structure MappedPage (l : Layout) (p : Nat) (start : Vaddr) (writable : Bool) (f : Nat)
    (offset : UInt64) (total i : Nat) (page : Page) : Prop where
  address : page.va = l.pageAt start i
  writable : page.writable = writable
  plain : page.isStack = false
  idle : page.frame = none
  link : page.mapping = some start
  part : ∃ x, page.state = .uninit (.file x) ∧ x.file = f ∧
    x.offset.toNat = offset.toNat + i * l.pageBytes ∧
    x.readBytes.toNat = min (total - i * l.pageBytes) l.pageBytes

end Layout

/-! ## Scenes with a range of pages -/

namespace Scene

structure Populated (v : Scene) (p : Nat) (address : Nat → Vaddr) (good : Nat → Page → Prop)
    (lo hi : Nat) (w : Scene) : Prop where
  apart : ∀ i j, lo ≤ i → i < hi → lo ≤ j → j < hi → address i = address j → i = j
  free : ∀ i, lo ≤ i → i < hi → v.sight p (address i) = .blank
  added : ∀ i, lo ≤ i → i < hi → ∃ page, good i page ∧ w.sight p (address i) =
    ⟨some page, none, none⟩
  others : ∀ q va, (∀ i, lo ≤ i → i < hi → ¬(q = p ∧ va = address i)) →
    w.sight q va = v.sight q va
  beside : w = { v with sight := w.sight }

namespace Populated

variable {v w : Scene} {p : Nat} {address : Nat → Vaddr} {good : Nat → Page → Prop} {lo hi : Nat}

theorem of_le (hle : hi ≤ lo) (h : v.Populated p address good lo hi w) : w = v := by
  have hsight : w.sight = v.sight := by
    funext q va
    exact h.others q va fun i hlo hhi => absurd (Nat.lt_of_lt_of_le hhi hle) (Nat.not_lt.mpr hlo)
  rw [h.beside, hsight]

theorem start (v : Scene) (p : Nat) (address : Nat → Vaddr) (good : Nat → Page → Prop)
    (lo : Nat) : v.Populated p address good lo lo v where
  apart := fun i _ hlo hhi => absurd (Nat.lt_of_lt_of_le hhi hlo) (Nat.lt_irrefl i)
  free := fun i hlo hhi => absurd (Nat.lt_of_lt_of_le hhi hlo) (Nat.lt_irrefl i)
  added := fun i hlo hhi => absurd (Nat.lt_of_lt_of_le hhi hlo) (Nat.lt_irrefl i)
  others := fun _ _ _ => rfl
  beside := rfl

theorem extend {page : Page} (h : v.Populated p address good lo hi w) (hle : lo ≤ hi)
    (hfree : w.sight p (address hi) = .blank) (hgood : good hi page) :
    v.Populated p address good lo (hi + 1) (w.see p (address hi) ⟨some page, none, none⟩) := by
  have hnew : ∀ i, lo ≤ i → i < hi → address i ≠ address hi := by
    intro i hlo hhi heq
    rcases h.added i hlo hhi with ⟨old, -, hold⟩
    rw [heq, hfree] at hold
    cases hold
  constructor
  · intro i j hi₁ hi₂ hj₁ hj₂ heq
    rcases Nat.lt_succ_iff_lt_or_eq.mp hi₂ with hi₂ | rfl
    · rcases Nat.lt_succ_iff_lt_or_eq.mp hj₂ with hj₂ | rfl
      · exact h.apart i j hi₁ hi₂ hj₁ hj₂ heq
      · exact absurd heq (hnew i hi₁ hi₂)
    · rcases Nat.lt_succ_iff_lt_or_eq.mp hj₂ with hj₂ | rfl
      · exact absurd heq.symm (hnew j hj₁ hj₂)
      · rfl
  · intro i hlo hhi
    rcases Nat.lt_succ_iff_lt_or_eq.mp hhi with hhi | rfl
    · exact h.free i hlo hhi
    · rw [← hfree]
      refine (h.others p (address i) ?_).symm
      intro j hj₁ hj₂ hat
      exact hnew j hj₁ hj₂ hat.2.symm
  · intro i hlo hhi
    rcases Nat.lt_succ_iff_lt_or_eq.mp hhi with hhi | rfl
    · rcases h.added i hlo hhi with ⟨old, hold, hsight⟩
      refine ⟨old, hold, ?_⟩
      rw [sight_see_of_ne fun hat => hnew i hlo hhi hat.2]
      exact hsight
    · exact ⟨page, hgood, sight_see_self⟩
  · intro q va hout
    rw [sight_see_of_ne (hout hi hle (Nat.lt_succ_self hi))]
    exact h.others q va fun i hlo hhi => hout i hlo (Nat.lt_succ_of_lt hhi)
  · rw [h.beside]
    rfl

theorem shrink (h : v.Populated p address good lo hi w) (hlt : lo < hi) :
    v.Populated p address good (lo + 1) hi (w.see p (address lo) .blank) := by
  have hnew : ∀ i, lo + 1 ≤ i → i < hi → address i ≠ address lo := by
    intro i hlo hhi heq
    exact absurd (h.apart i lo (Nat.le_of_succ_le hlo) hhi (Nat.le_refl lo) hlt heq)
      (Nat.ne_of_gt hlo)
  constructor
  · intro i j hi₁ hi₂ hj₁ hj₂
    exact h.apart i j (Nat.le_of_succ_le hi₁) hi₂ (Nat.le_of_succ_le hj₁) hj₂
  · intro i hlo hhi
    exact h.free i (Nat.le_of_succ_le hlo) hhi
  · intro i hlo hhi
    rw [sight_see_of_ne fun hat => hnew i hlo hhi hat.2]
    exact h.added i (Nat.le_of_succ_le hlo) hhi
  · intro q va hout
    by_cases hat : q = p ∧ va = address lo
    · rw [hat.1, hat.2, sight_see_self]
      exact (h.free lo (Nat.le_refl lo) hlt).symm
    · rw [sight_see_of_ne hat]
      refine h.others q va fun i hlo hhi => ?_
      rcases Nat.eq_or_lt_of_le hlo with rfl | hlo
      · exact hat
      · exact hout i hlo hhi
  · rw [h.beside]
    rfl

end Populated
end Scene

def Deed.Registering (p : Nat) (good : Page → Prop) (deed : Deed) : Prop :=
  ∃ page, good page ∧ deed = .register p page

namespace Machine

open Routine

variable {m : Machine} {mem : FlatMemory} {p f : Nat} {start va : Vaddr} {writable : Bool}
  {offset : UInt64}

/-! ## Mapping -/

theorem steps_registerPart {base : Vaddr} {x : FileExtent} (k : m.Sound {} mem) :
    Ends (register p ⟨0, va, writable, false, none, some base, p, m.layout.pageSize,
        .uninit (.file x)⟩) m Anyhow
      (fun _ next => next.Sound {} mem ∧ next.layout = m.layout ∧
        m.scene.sight p va = .blank ∧
        next.scene = m.scene.see p va ⟨some ⟨m.nextId, va, writable, false, none, some base, p,
          m.layout.pageSize, .uninit (.file x)⟩, none, none⟩)
      fun _ next => next = m := by
  have hregister : Ends (register p ⟨0, va, writable, false, none, some base, p,
      m.layout.pageSize, .uninit (.file x)⟩) m Anyhow _ _ :=
    ends_register (fun _ => k) rfl rfl rfl rfl (fun _ hx => nomatch hx) fun hx => nomatch hx
  have hscene : Ends (register p ⟨0, va, writable, false, none, some base, p,
      m.layout.pageSize, .uninit (.file x)⟩) m Anyhow _ _ :=
    steps_register (fun _ => k) rfl List.not_mem_nil
  refine (hregister.and hscene).mono ?_ fun _ _ hnext => hnext.1
  intro _ next hnext
  rcases hnext with ⟨⟨-, rfl, -, -, knext⟩, -, hfree, hscene⟩
  exact ⟨knext, rfl, hfree, hscene⟩

theorem steps_registerMapped {v : Scene} {l : Layout} {count index total : Nat}
    {remaining : UInt64} (k : m.Sound {} mem) (hl : m.layout = l)
    (haligned : Word.isAligned start l.pageSize = true)
    (hspan : start.toNat + (index + count) * l.pageBytes < UInt64.size)
    (hva : va = l.pageAt start index) (hremaining : remaining.toNat = total - index * l.pageBytes)
    (hadded : v.Populated p (l.pageAt start)
      (l.MappedPage p start writable f offset total) 0 index m.scene)
    (hsteps : Scene.Steps (Deed.Registering p fun page =>
      ∃ i, l.MappedPage p start writable f offset total i page) v m.scene) :
    Ends (registerMapped p start writable f offset count index va remaining) m Anyhow
      (fun result next => (result.2 = none → result.1 = index + count) ∧
        v.Populated p (l.pageAt start) (l.MappedPage p start writable f offset total) 0 result.1
          next.scene ∧
        Scene.Steps (Deed.Registering p fun page =>
          ∃ i, l.MappedPage p start writable f offset total i page) v next.scene ∧
        next.layout = l ∧ next.Sound {} mem)
      fun _ _ => False := by
  induction count generalizing m index va remaining with
  | zero => exact ⟨fun _ => rfl, hadded, hsteps, hl, k⟩
  | succ count ih =>
      subst hl hva
      unfold registerMapped
      rw [ends_bind, ends_get]
      dsimp only
      rw [ends_bind]
      unfold Layout.mappedExtent Word.addOrAbort
      cases hstart : Word.checkedAdd offset (UInt64.ofNat index * m.layout.pageSize) with
      | none => trivial
      | some first =>
          have hfits : start.toNat + index * m.layout.pageBytes < UInt64.size := by
            refine Nat.lt_of_le_of_lt (Nat.add_le_add_left ?_ _) hspan
            exact Nat.mul_le_mul_right _ (Nat.le_add_right index _)
          have hfirst : first.toNat = offset.toNat + index * m.layout.pageBytes := by
            rw [← Word.checkedAdd_eq_some_iff.mp hstart,
              Layout.toNat_mul_pageSize (Nat.lt_of_le_of_lt (Nat.le_add_left _ _) hfits)]
          have hcount : (min remaining m.layout.pageSize).toNat =
              min (total - index * m.layout.pageBytes) m.layout.pageBytes := by
            rw [← hremaining]
            exact Word.toNat_min remaining m.layout.pageSize
          rw [show Except.map _ (Except.ok first) = Except.ok _ from rfl, ends_ofAbort_ok,
            ends_bind, mappedPage_of_aligned (Layout.isAligned_pageAt haligned hfits),
            ends_ofStop_ok, ends_bind, ends_attempt]
          refine (steps_registerPart k).mono ?_ ?_
          · intro _ next hnext
            rcases hnext with ⟨knext, hlayout, hfree, hscene⟩
            have hgood : m.layout.MappedPage p start writable f offset total index
                ⟨m.nextId, m.layout.pageAt start index, writable, false, none, some start, p,
                  m.layout.pageSize, .uninit (.file ⟨f, first, min remaining m.layout.pageSize,
                    m.layout.pageSize - min remaining m.layout.pageSize⟩)⟩ :=
              ⟨rfl, rfl, rfl, rfl, rfl, _, rfl, rfl, hfirst, hcount⟩
            have hstep : Scene.Step (.register p ⟨m.nextId, m.layout.pageAt start index, writable,
                false, none, some start, p, m.layout.pageSize,
                .uninit (.file ⟨f, first, min remaining m.layout.pageSize,
                  m.layout.pageSize - min remaining m.layout.pageSize⟩)⟩) m.scene next.scene := by
              rw [hscene]
              exact .register hfree rfl
            have hleft : (remaining - min remaining m.layout.pageSize).toNat =
                total - (index + 1) * m.layout.pageBytes := by
              have hle : min remaining m.layout.pageSize ≤ remaining := by
                rw [UInt64.le_iff_toNat_le, Word.toNat_min]
                exact Nat.min_le_left _ _
              rw [UInt64.toNat_sub_of_le _ _ hle, hcount, hremaining, Nat.add_mul, Nat.one_mul]
              omega
            have hsteps' := hsteps.trans (.single _ ⟨_, ⟨index, hgood⟩, rfl⟩ hstep)
            have hadded' := hadded.extend (Nat.zero_le index) hfree hgood
            rw [← hscene] at hadded'
            have hspan' : start.toNat + (index + 1 + count) * m.layout.pageBytes < UInt64.size := by
              rw [Nat.add_assoc, Nat.add_comm 1 count]
              exact hspan
            refine (ih knext hlayout hspan' (Layout.pageAt_succ _ _ _) hleft hadded'
              hsteps').mono ?_ fun _ _ hfalse => hfalse
            intro result last hlast
            rw [Nat.add_assoc, Nat.add_comm 1 count] at hlast
            exact hlast
          · intro e next hnext
            rw [hnext]
            dsimp only
            rw [ends_pure]
            refine ⟨?_, hadded, hsteps, rfl, k⟩
            intro hnone
            contradiction

theorem steps_dropAdded {v : Scene} {address : Nat → Vaddr} {good : Nat → Page → Prop}
    {lo count : Nat} (k : m.Sound {} mem)
    (hadded : v.Populated p address good lo (lo + count) m.scene)
    (hidle : ∀ i page, good i page → page.frame = none) :
    Ends (dropPages p ((List.range' lo count).map address)) m Anyhow
      (fun _ next => next.scene = v) fun _ _ => False := by
  induction count generalizing m lo with
  | zero => exact hadded.of_le (Nat.le_refl lo)
  | succ count ih =>
      have hlt : lo < lo + (count + 1) := by omega
      rcases hadded.added lo (Nat.le_refl lo) hlt with ⟨page, hgood, hsight⟩
      have hpage : m.page? p (address lo) = some page := congrArg Sight.page hsight
      rw [List.range'_succ, List.map_cons]
      unfold dropPages
      rw [ends_bind]
      refine ((ends_dropPage k).and (steps_dropPage k)).mono ?_ fun _ _ hfalse => hfalse.1
      intro _ next hnext
      rcases hnext with ⟨⟨-, knext⟩, ⟨hnone, -⟩ | ⟨other, hother, hscene⟩⟩
      · rw [hpage] at hnone
        contradiction
      · cases hpage.symm.trans hother
        rw [hidle lo page hgood] at hscene
        have hgone : next.scene = m.scene.see p (address lo) .blank := by
          rw [hscene, ← (k.placed p _ page hpage).address]
          rfl
        have hrest := hadded.shrink hlt
        rw [← hgone, show lo + (count + 1) = lo + 1 + count by omega] at hrest
        exact ih knext hrest

theorem steps_registerRange {stop : Vaddr} {length : UInt64} (k : m.Sound {} mem)
    (haligned : Word.isAligned start m.layout.pageSize = true)
    (hspan : start.toNat + (stop - start).toNat / m.layout.pageBytes * m.layout.pageBytes =
      stop.toNat)
    (hpos : 0 < (stop - start).toNat / m.layout.pageBytes) :
    Ends (registerRange p start stop length writable f offset) m Anyhow
      (fun _ next => ∃ v,
        m.scene.Populated p (m.layout.pageAt start)
          (m.layout.MappedPage p start writable f offset
            ((m.file f).mappedBytes length offset).toNat)
          0 ((stop - start).toNat / m.layout.pageBytes) v ∧
        Scene.Steps (Deed.Registering p fun page => ∃ i, m.layout.MappedPage p start writable f
          offset ((m.file f).mappedBytes length offset).toNat i page) m.scene v ∧
        next.scene = v.grouped p ((m.process p).mappings.insert start
          ⟨start, length, m.layout.pagesFrom start
            ((stop - start).toNat / m.layout.pageBytes)⟩))
      fun _ next => next.scene = m.scene := by
  have hfirst : start = m.layout.pageAt start 0 := by
    unfold Layout.pageAt
    simp
  unfold registerRange
  rw [ends_bind, ends_get]
  dsimp only
  rw [ends_bind]
  have hwhole : ((m.file f).mappedBytes length offset).toNat =
      ((m.file f).mappedBytes length offset).toNat - 0 * m.layout.pageBytes := by
    rw [Nat.zero_mul, Nat.sub_zero]
  have hend : start.toNat + (0 + (stop - start).toNat / m.layout.pageBytes) *
      m.layout.pageBytes < UInt64.size := by
    rw [Nat.zero_add, hspan]
    exact stop.toNat_lt_size
  refine (steps_registerMapped k rfl haligned hend hfirst hwhole (.start m.scene p _ _ 0)
    (.refl _)).mono ?_ fun _ _ hfalse => hfalse.elim
  intro result next hnext
  rcases result with ⟨registered, failure⟩
  rcases hnext with ⟨hall, hadded, hsteps, hlayout, knext⟩
  dsimp only at hall hadded
  have hlist : ∀ n, m.layout.pagesFrom start n =
      (List.range' 0 n).map (m.layout.pageAt start) := by
    intro n
    rw [← List.range_eq_range']
    rfl
  cases failure with
  | some e =>
      dsimp only
      rw [ends_bind, hlist]
      rw [← Nat.zero_add registered] at hadded
      exact (steps_dropAdded knext hadded fun _ _ hgood => hgood.idle).mono
        (fun _ _ hlast => hlast) fun _ _ hfalse => hfalse.elim
  | none =>
      have hregistered := hall rfl
      rw [Nat.zero_add] at hregistered
      subst hregistered
      have hp : p < next.processes.length := by
        rcases hadded.added 0 (Nat.le_refl 0) hpos with ⟨page, -, hsight⟩
        exact lt_of_page?_eq_some (show next.page? p _ = some page from
          congrArg Sight.page hsight)
      have hmappings : (next.process p).mappings = (m.process p).mappings :=
        congrFun (congrArg Scene.mappings hadded.beside) p
      dsimp only
      rw [ends_bind, ends_report, ends_modify]
      refine ⟨next.scene, hadded, hsteps, ?_⟩
      rw [scene_modifyMappings (m := next.recorded _) hp, scene_recorded rfl,
        show (next.recorded _).layout = m.layout from hlayout]
      exact congrArg (fun mappings => next.scene.grouped p (AddressMap.insert mappings start _))
        hmappings

/-- A served map adds the pages of the range; one that is refused leaves no trace. -/
theorem steps_mapFile {length : UInt64} (k : m.Sound {} mem) :
    Ends (mapFile p start length writable f offset) m Anyhow
      (fun base next => base = start ∧ Word.isAligned start m.layout.pageSize = true ∧
        ∃ count v, 0 < count ∧ length.toNat ≤ count * m.layout.pageBytes ∧
          (∃ stop, m.layout.mappingEnd start length = some stop ∧
            start.toNat + count * m.layout.pageBytes = stop.toNat) ∧
          m.scene.Populated p (m.layout.pageAt start)
            (m.layout.MappedPage p start writable f offset
              ((m.file f).mappedBytes length offset).toNat) 0 count v ∧
          Scene.Steps (Deed.Registering p fun page => ∃ i, m.layout.MappedPage p start writable f
            offset ((m.file f).mappedBytes length offset).toNat i page) m.scene v ∧
          next.scene = v.grouped p ((m.process p).mappings.insert start
            ⟨start, length, m.layout.pagesFrom start count⟩))
      fun _ next => next.scene = m.scene := by
  unfold mapFile
  rw [ends_bind, ends_get]
  dsimp only
  rw [ends_bind, ends_require]
  split
  · rename_i hstart
    rw [Bool.and_eq_true] at hstart
    rw [ends_bind, ends_require]
    split
    · rename_i hlength
      simp only [Bool.and_eq_true, bne_iff_ne] at hlength
      rw [ends_bind]
      cases hstop : m.layout.mappingEnd start length with
      | none => rfl
      | some stop =>
          rcases Layout.mappingEnd_cover hstart.2 hstop with ⟨hspan, hcover⟩
          have hsome : length.toNat ≠ 0 := fun hzero => hlength.1.1 (UInt64.toNat_inj.mp hzero)
          have hpos : 0 < (stop - start).toNat / m.layout.pageBytes := by
            apply Nat.pos_of_ne_zero
            intro hzero
            rw [hzero, Nat.zero_mul] at hcover
            exact hsome (Nat.le_zero.mp hcover)
          rw [ends_orFail_some, ends_bind, ends_require]
          split
          · rw [ends_bind]
            refine (steps_registerRange k hstart.2 hspan hpos).mono ?_ fun _ _ hnext => hnext
            intro _ next hnext
            rcases hnext with ⟨v, hadded, hsteps, hscene⟩
            exact ⟨rfl, hstart.2, _, v, hpos, hcover, ⟨stop, rfl, hspan⟩, hadded, hsteps, hscene⟩
          · rfl
    · rfl
  · rfl

/-! ## Unmapping -/

theorem steps_mappingBaseAt (k : m.Sound {} mem) :
    Ends (mappingBaseAt p va) m Anyhow
      (fun base next => base = (m.lookup p va).bind Page.mapping ∧ SameScene m next ∧
        next.Sound {} mem)
      fun _ _ => False := by
  unfold mappingBaseAt
  rw [ends_bind, ends_get]
  cases m.lookup p va with
  | none => exact ⟨rfl, ⟨rfl, rfl⟩, k⟩
  | some page =>
      refine ((ends_mappingOf k List.not_mem_nil).and (kept_mappingOf sameScene_oblivious p page m)).mono ?_
        fun _ _ hfalse => hfalse.1
      intro base next hnext
      exact ⟨hnext.1.1, hnext.2, hnext.1.2.2⟩

/-- What an unmap at an address does: it takes a file mapping with all its members away, unless
the page at the address belongs to none. -/
theorem steps_unmapFile (k : m.Sound {} mem) :
    Ends (unmapFile p va) m Anyhow
      (fun _ next =>
        (∀ base, (m.lookup p va).bind Page.mapping = some base →
          (m.process p).mappings.get? base = none) ∧ next.scene = m.scene ∨
        ∃ base mapping, (m.lookup p va).bind Page.mapping = some base ∧
          (m.process p).mappings.get? base = some mapping ∧
          m.Cleared (fun q wa => q = p ∧ wa ∈ mapping.members) next ∧
          Scene.Steps (Deed.Dropping p (· ∈ mapping.members))
            (m.scene.grouped p ((m.process p).mappings.erase base)) next.scene ∧
          next.scene.mappings = (m.scene.grouped p ((m.process p).mappings.erase base)).mappings)
      fun _ _ => False := by
  unfold unmapFile
  rw [ends_bind]
  refine (steps_mappingBaseAt k).mono ?_ fun _ _ hfalse => hfalse.elim
  intro base asked hasked
  rcases hasked with ⟨hbase, hsame, kasked⟩
  cases base with
  | none =>
      rw [← hbase]
      exact Or.inl ⟨fun _ hnone => (nomatch hnone), hsame.scene⟩
  | some base =>
      rw [← hbase]
      have hmappings : (asked.process p).mappings = (m.process p).mappings :=
        congrFun (congrArg Scene.mappings hsame.scene) p
      unfold unmapBase
      rw [ends_bind, ends_get, hmappings]
      cases hget : (m.process p).mappings.get? base with
      | none =>
          left
          refine ⟨?_, hsame.scene⟩
          intro other hother
          cases hother
          exact hget
      | some mapping =>
          have hp : p < asked.processes.length := by
            apply Nat.lt_of_not_le
            intro hle
            rw [← hmappings, process_eq_absent hle] at hget
            contradiction
          have hscene : (asked.modifyMappings p fun mappings => mappings.erase base).scene =
              m.scene.grouped p ((m.process p).mappings.erase base) := by
            rw [scene_modifyMappings hp, hsame.scene, hmappings]
          dsimp only
          rw [ends_bind, ends_modify, ends_bind]
          have kerased := kasked.modifyMappings p fun mappings => mappings.erase base
          refine ((ends_dropPages kerased).and (steps_dropPages kerased)).mono ?_
            fun _ _ hfalse => hfalse.1.elim
          intro _ next hnext
          rcases hnext with ⟨⟨hcleared, -⟩, hsteps, hmappings⟩
          have hsame' : ∀ q wa, (asked.modifyMappings p fun mappings =>
              mappings.erase base).page? q wa = m.page? q wa := by
            intro q wa
            rw [page?_modifyMappings]
            exact congrArg (fun v : Scene => (v.sight q wa).page) hsame.scene
          have hlayout : asked.layout = m.layout := congrArg Scene.layout hsame.scene
          rw [ends_report, scene_recorded rfl]
          rw [hscene] at hsteps hmappings
          refine Or.inr ⟨base, mapping, rfl, hget,
            ⟨hcleared.layout.trans hlayout, hcleared.gone, ?_⟩, hsteps, hmappings⟩
          intro q wa hout
          exact (hcleared.kept q wa hout).trans (hsame' q wa)

end Machine
end DemandPaging
