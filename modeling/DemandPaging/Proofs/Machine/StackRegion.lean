import DemandPaging.Proofs.Machine.MappingGroups
import DemandPaging.Proofs.Machine.Resolution
import DemandPaging.Proofs.Machine.WriteCauses
import DemandPaging.Proofs.Scene.Natures

/-!
# The stack region

A range of addresses in user space is kept for the stack. Two checks see to it: the one of a file
mapping, which must end below the region or begin above it, and the one of a fault at an address
without a page, by which the stack grows. Both round to whole pages, and the region consists of
whole pages.
-/

namespace DemandPaging

/-! ## The region -/

namespace Layout

variable {l : Layout} {start stop va : Vaddr} {length : UInt64} {i count : Nat}

def InStack (l : Layout) (va : Vaddr) : Prop :=
  l.stackFloor.toNat ≤ va.toNat ∧ va.toNat + l.pageBytes ≤ l.userStackTop.toNat

def OffStack (l : Layout) (va : Vaddr) : Prop :=
  va.toNat + l.pageBytes ≤ l.stackFloor.toNat ∨ l.userStackTop.toNat ≤ va.toNat

theorem dvd_userStackTop (l : Layout) : l.pageBytes ∣ l.userStackTop.toNat := by
  have h := l.fits.2
  simp only [Config.stackFits, Bool.and_eq_true, beq_iff_eq] at h
  apply Nat.dvd_of_mod_eq_zero
  rw [pageBytes, ← UInt64.toNat_mod, h.1.1.1.1]
  rfl

theorem dvd_stackFloor (l : Layout) : l.pageBytes ∣ l.stackFloor.toNat := by
  have h := l.fits.2
  simp only [Config.stackFits, Bool.and_eq_true, beq_iff_eq] at h
  have hsize : l.pageBytes ∣ l.maxStackSize.toNat := by
    apply Nat.dvd_of_mod_eq_zero
    rw [pageBytes, ← UInt64.toNat_mod, h.1.2]
    rfl
  rw [stackFloor, UInt64.toNat_sub_of_le _ _ l.maxStackSize_le_userStackTop]
  exact Nat.dvd_sub l.dvd_userStackTop hsize

theorem inStack_alignDown (hfloor : l.stackFloor ≤ va) (htop : va < l.userStackTop) :
    l.InStack (Word.alignDown va l.pageSize) := by
  have hgreatest := Word.isGreatest_alignDown (v := va) l.fits.1
  rw [UInt64.le_iff_toNat_le] at hfloor
  rw [UInt64.lt_iff_toNat_lt] at htop
  constructor
  · exact hgreatest.2 ⟨l.dvd_stackFloor, hfloor⟩
  · exact Word.add_le_of_dvd_of_lt hgreatest.1.1 l.dvd_userStackTop
      (Nat.lt_of_le_of_lt hgreatest.1.2 htop)

theorem offStack_pageAt (hstop : l.mappingEnd start length = some stop)
    (hspan : start.toNat + count * l.pageBytes = stop.toNat) (hi : i < count) :
    l.OffStack (l.pageAt start i) := by
  have hnext : (i + 1) * l.pageBytes ≤ count * l.pageBytes := Nat.mul_le_mul_right _ hi
  rw [Nat.add_mul, Nat.one_mul] at hnext
  have hsize := stop.toNat_lt_size
  have hpos := l.pageBytes_pos
  rw [OffStack, toNat_pageAt (by omega)]
  rcases (mappingEnd_eq_some hstop).2.2 with hbelow | habove
  · left
    omega
  · right
    omega

/-- A page of the stack is writable and anonymous, and it is in the stack region and in no file
mapping. A page of a file mapping is not in the stack region. -/
structure Admits (l : Layout) (n : Nature) : Prop where
  stack : n.isStack = true →
    n.writable = true ∧ n.type = .anon ∧ n.mapping = none ∧ l.InStack n.va
  mapped : n.mapping ≠ none → l.OffStack n.va

theorem admits_plain {n : Nature} (hstack : n.isStack = false) (hmapping : n.mapping = none) :
    l.Admits n where
  stack := fun h => by
    rw [hstack] at h
    contradiction
  mapped := fun h => absurd hmapping h

end Layout

/-- The fault is an access of the user to the stack at an address without a mapping, and not
further below the stack pointer than the slack allows. -/
structure Fault.GrowsStack (l : Layout) (f : Fault) : Prop where
  user : f.cause.user = true
  notPresent : f.cause.notPresent = true
  nonzero : f.va ≠ 0
  inUserSpace : f.va < l.userLimit
  above : l.stackFloor ≤ f.va
  below : f.va < l.userStackTop
  near : f.stackPointer.toNat - l.stackSlack.toNat ≤ f.va.toNat

/-! ## Deeds -/

namespace Scene

variable {v w : Scene} {allowed : Deed → Prop}

def Admitted (v : Scene) : Prop :=
  ∀ p va n, v.natures p va = some n → v.layout.Admits n

theorem Step.admitted {deed : Deed} (hstep : Step deed v w)
    (hnew : ∀ p page, deed = .register p page → v.layout.Admits page.nature) (hv : v.Admitted) :
    w.Admitted := by
  intro p va n hn
  rw [hstep.natures_eq] at hn
  rw [hstep.layout_eq]
  cases deed with
  | register q page =>
      by_cases hat : p = q ∧ va = page.va
      · rw [Deed.onNatures, hat.1, hat.2, setAt_self] at hn
        cases hn
        exact hnew q page rfl
      · rw [Deed.onNatures, setAt_of_ne hat] at hn
        exact hv p va n hn
  | remove q page =>
      by_cases hat : p = q ∧ va = page.va
      · rw [Deed.onNatures, hat.1, hat.2, setAt_self] at hn
        contradiction
      · rw [Deed.onNatures, setAt_of_ne hat] at hn
        exact hv p va n hn
  | start | regroup | load | save | evict | strand | relink | clone | store => exact hv p va n hn

theorem Steps.admitted (h : Steps allowed v w)
    (hnew : ∀ p page, allowed (.register p page) → v.layout.Admits page.nature)
    (hv : v.Admitted) : w.Admitted := by
  refine (h.keeps (P := fun w => w.layout = v.layout ∧ w.Admitted) ?_ ⟨rfl, hv⟩).2
  intro deed u w hdeed hstep hu
  refine ⟨hstep.layout_eq.trans hu.1, hstep.admitted ?_ hu.2⟩
  intro p page heq
  rw [hu.1]
  exact hnew p page (heq ▸ hdeed)

end Scene

namespace Machine

open Routine

variable {m next : Machine} {mem : FlatMemory} {p q : Nat} {va wa : Vaddr} {f : Fault}

def natures (m : Machine) (p : Nat) (va : Vaddr) : Option Nature :=
  (m.page? p va).map Page.nature

theorem scene_natures (m : Machine) : m.scene.natures = m.natures := rfl

theorem isSome_natures (m : Machine) (p : Nat) (va : Vaddr) :
    (m.natures p va).isSome = (m.page? p va).isSome :=
  Option.isSome_map

theorem AlikeBut.natures {places : Nat → Vaddr → Prop} (h : m.AlikeBut places next)
    (hva : ¬places p va) : next.natures p va = m.natures p va := by
  have hsame := congrArg (Option.map Page.nature) (h.pages p va hva)
  simp only [Option.map_map, Function.comp_def, Page.nature_outline] at hsame
  exact hsame

/-! ## Faults -/

theorem resolveFault_cases (m : Machine) (p : Nat) (f : Fault) :
    (∃ page, m.lookup p f.va = some page ∧ resolveFault p f m = resolveAtPage p page f m) ∨
      (m.lookup p f.va = none ∧ f.GrowsStack m.layout ∧
        resolveFault p f m = growStack p (m.pageBase f.va) m) ∨
      ∃ message e, resolveFault p f m = refuse message e m := by
  have hstart : ∀ rest : Machine → Routine Unit, (get >>= rest) m = rest m m := fun _ => rfl
  unfold resolveFault
  rw [hstart]
  split
  · exact Or.inr (Or.inr ⟨_, _, rfl⟩)
  rename_i hinside
  split
  · exact Or.inr (Or.inr ⟨_, _, rfl⟩)
  rename_i hpresent
  cases hpage : m.lookup p f.va with
  | some page => exact Or.inl ⟨page, rfl, rfl⟩
  | none =>
      dsimp only
      split
      · rename_i htouches
        simp only [Fault.inUserSpace, Fault.touchesStack, Bool.not_eq_true', Bool.not_eq_false,
          Bool.and_eq_true, bne_iff_ne, decide_eq_true_eq] at hinside hpresent htouches
        rcases htouches with ⟨⟨⟨huser, hbelow⟩, habove⟩, hnear⟩
        rw [UInt64.le_iff_toNat_le, Word.toNat_saturatingSub] at hnear
        exact Or.inr (Or.inl ⟨rfl, ⟨huser, hpresent, hinside.1, hinside.2, habove, hbelow, hnear⟩,
          rfl⟩)
      · exact Or.inr (Or.inr ⟨_, _, rfl⟩)

theorem growsStack_of_resolveFault (hgone : m.lookup p f.va = none)
    (hend : ∀ e next, resolveFault p f m ≠ .error (.failed e) next) : f.GrowsStack m.layout := by
  rcases resolveFault_cases m p f with ⟨page, hpage, -⟩ | ⟨-, hgrows, -⟩ | ⟨message, e, hrefused⟩
  · rw [hgone] at hpage
    contradiction
  · exact hgrows
  · exact absurd hrefused (hend e _)

theorem ends_resolveFault_grows : Ends (resolveFault p f) m Anyhow
    (fun _ _ => m.lookup p f.va = none → f.GrowsStack m.layout) fun _ _ => True := by
  unfold Ends
  cases hend : resolveFault p f m with
  | ok done next =>
      intro hgone
      refine growsStack_of_resolveFault hgone ?_
      intro e last hfailed
      rw [hend] at hfailed
      contradiction
  | error stop next => cases stop <;> trivial

theorem Resolved.natures_eq {page : Page} {frame : Nat}
    (h : m.Resolved next p va mem page frame) :
    next.natures = setAt m.natures p (m.pageBase va) (some page.nature) := by
  have hpage : next.page? p (m.pageBase va) = some page := by
    have hlookup := h.lookup
    rw [Machine.lookup, Machine.pageBase, h.alike.layout] at hlookup
    exact hlookup
  funext q wa
  by_cases hat : q = p ∧ wa = m.pageBase va
  · rw [hat.1, hat.2, setAt_self, Machine.natures, hpage]
    rfl
  · rw [setAt_of_ne hat]
    exact h.alike.natures hat

theorem Resolved.natures_of_page {page old : Page} {frame : Nat}
    (h : m.Resolved next p va mem page frame) (hold : m.lookup p va = some old) :
    next.natures = m.natures := by
  rw [h.natures_eq, h.claimed old hold, Page.nature_loaded]
  funext q wa
  by_cases hat : q = p ∧ wa = m.pageBase va
  · rw [hat.1, hat.2, setAt_self, Machine.natures,
      show m.page? p (m.pageBase va) = some old from hold]
    rfl
  · exact setAt_of_ne hat

/-- However a fault ends, a page was added at most where the stack grows, and none was taken
away. -/
theorem Sound.natures_left_fault (k : m.Sound {} mem) (q : Nat) (wa : Vaddr) :
    (m.left (.fault p f)).natures q wa = m.natures q wa ∨
      ((q = p ∧ wa = m.pageBase f.va) ∧ m.lookup p f.va = none ∧ f.GrowsStack m.layout) := by
  refine left_of_perform (P := fun last => last.natures q wa = m.natures q wa ∨
    ((q = p ∧ wa = m.pageBase f.va) ∧ m.lookup p f.va = none ∧ f.GrowsStack m.layout)) ?_ ?_
  · unfold Operation.perform
    rw [ends_bind]
    refine ((ends_resolveFault k fun _ => trivial).and ends_resolveFault_grows).mono ?_ ?_
    · intro _ last hlast
      rcases hlast with ⟨⟨page, frame, hresolved, -⟩, hgrows⟩
      cases hpage : m.lookup p f.va with
      | some old => exact Or.inl (congrFun (congrFun (hresolved.natures_of_page hpage) q) wa)
      | none =>
          by_cases hat : q = p ∧ wa = m.pageBase f.va
          · exact Or.inr ⟨hat, rfl, hgrows hpage⟩
          · left
            rw [hresolved.natures_eq, setAt_of_ne hat]
    · intro _ last hlast
      exact Or.inl (hlast.1.alike.natures id)
  · refine Breaks.bind ?_ (ends_anyhow (fun _ _ => .pure _) fun _ _ => trivial)
    intro a last hend
    rcases resolveFault_cases m p f with ⟨page, -, hsame⟩ | ⟨hgone, hgrows, hsame⟩ | ⟨_, _, hsame⟩
    · left
      have hsteps := breaks_resolveAtPage k a last (hsame ▸ hend)
      refine hsteps.natures_eq_at fun deed natures hdeed => ?_
      have hclaiming : deed.Claiming p f.va := Or.inl hdeed
      rw [hclaiming.onNatures_eq]
    · have hsteps := breaks_growStack k a last (hsame ▸ hend)
      by_cases hat : q = p ∧ wa = m.pageBase f.va
      · exact Or.inr ⟨hat, hgone, hgrows⟩
      · left
        exact hsteps.natures_eq_at fun deed natures hdeed => hdeed.onNatures_eq hat natures
    · rw [hsame] at hend
      cases hend

/-! ## Fresh pages of the stack -/

/-- The page at an address is a resident page of the stack, of which the process reads zeros. -/
structure FreshStack (m : Machine) (p : Nat) (base : Vaddr) : Prop where
  resident : ∃ page, m.page? p base = some page ∧ page.isStack = true ∧ page.isResident = true
  zeros : ∀ a n, m.OnPage base a n →
    ∃ last, (Operation.read p a n).perform m = .ok (.data (Bytes.filled n 0)) last

theorem loadedMemory_of_gone (hgone : m.lookup p va = none) {a : Vaddr}
    (ha : m.pageBase a = m.pageBase va) : m.loadedMemory next p va mem p a = 0 := by
  have hin : (a - m.pageBase va).toNat < m.layout.pageBytes :=
    (Word.sub_lt_iff_alignDown_eq m.layout.fits.1 (isAligned_pageBase m va) a).mpr ha
  rw [loadedMemory, originAt?, hgone]
  show FlatMemory.store mem p (m.pageBase va) (Bytes.filled m.layout.pageBytes 0) p a = 0
  rw [FlatMemory.store, if_pos rfl, Bytes.filled, List.getD_replicate _ hin]

theorem Resolved.freshStack {page : Page} {frame : Nat}
    (h : m.Resolved next p va mem page frame) (hgone : m.lookup p va = none) :
    next.FreshStack p (m.pageBase va) := by
  have hlayout := h.alike.layout
  have hbase : ∀ a, next.pageBase a = m.pageBase a := by
    intro a
    rw [Machine.pageBase, hlayout]
    rfl
  have hpage : next.page? p (m.pageBase va) = some page := by
    rw [← hbase]
    exact h.lookup
  have hstack := h.stack hgone
  have hmapped : next.link? p (m.pageBase va) = some (frame, page.writable) := by
    refine h.mapped ?_
    rintro ⟨⟨old, hold, -⟩, -⟩
    rw [hgone] at hold
    contradiction
  rcases link?_eq_some_iff.mp hmapped with ⟨e, he, -⟩
  have he' : next.mapped? p (next.pageBase (m.pageBase va)) = some e := by
    rw [hbase, pageBase_pageBase]
    exact he
  refine ⟨⟨page, hpage, by rw [hstack], by rw [hstack]; rfl⟩, ?_⟩
  intro a n hon
  rcases h.sound.userRead_onPage he' hon with ⟨bytes, last, hread⟩
  have hspec : Ends (userRead p a n) next Anyhow _ _ := ends_userRead h.sound fun _ => trivial
  rcases (hspec.of_ok hread).2.2 bytes rfl with ⟨hlength, hbytes⟩
  have hzeros : bytes = Bytes.filled n 0 := by
    apply List.ext_getElem?
    intro i
    rw [Bytes.filled, List.getElem?_replicate]
    split
    · rename_i hi
      have hsame : next.pageBase (a + UInt64.ofNat i) = m.pageBase va := by
        have hblock : (a % next.layout.pageSize).toNat + i < next.layout.pageSize.toNat :=
          Nat.lt_of_lt_of_le (Nat.add_lt_add_left hi _) hon.2
        rw [Machine.pageBase, Word.alignDown_eq_sub_mod next.layout.fits.1,
          (Word.add_ofNat_in_block next.layout.fits.1 hblock).2.2,
          ← Word.alignDown_eq_sub_mod next.layout.fits.1]
        exact hon.1.trans ((hbase _).trans (pageBase_pageBase m va))
      rcases hbytes i hi with ⟨found, -, hfound, -, -, hvalue⟩
      rw [Machine.lookup, hsame, hpage] at hfound
      cases hfound
      rw [hvalue (by rw [hstack]; rfl), loadedMemory_of_gone hgone ((hbase _).symm.trans hsame)]
    · rw [List.getElem?_eq_none]
      omega
  refine ⟨last, ?_⟩
  unfold Operation.perform
  rw [bind_eq_ok_iff]
  refine ⟨_, _, hread, ?_⟩
  rw [hzeros]
  rfl

/-! ## Operations -/

theorem admitted_mapFile {start : Vaddr} {length offset : UInt64} {writable : Bool} {file : Nat}
    (k : m.Sound {} mem) (h : m.scene.Admitted) :
    Ends (mapFile p start length writable file offset) m Anyhow
      (fun _ next => next.scene.Admitted) fun _ next => next.scene.Admitted := by
  refine (steps_mapFile k).mono ?_ ?_
  · intro _ next hnext
    rcases hnext with ⟨-, -, count, v, -, -, ⟨stop, hstop, hspan⟩, hpopulated, -, hscene⟩
    have hlayout : next.scene.layout = m.layout := by
      rw [hscene, Scene.grouped, hpopulated.beside]
      rfl
    intro q wa n hn
    rw [hlayout]
    have hn' : (v.sight q wa).page.map Page.nature = some n := by
      rw [hscene] at hn
      exact hn
    by_cases hnew : ∃ i, i < count ∧ q = p ∧ wa = m.layout.pageAt start i
    · rcases hnew with ⟨i, hi, rfl, rfl⟩
      rcases hpopulated.added i (Nat.zero_le i) hi with ⟨page, hgood, hsight⟩
      rw [hsight] at hn'
      cases hn'
      constructor
      · intro hstack
        rw [show page.nature.isStack = false from hgood.plain] at hstack
        contradiction
      · intro _
        rw [show page.nature.va = m.layout.pageAt start i from hgood.address]
        exact Layout.offStack_pageAt hstop hspan hi
    · rw [hpopulated.others q wa fun i _ hi hat => hnew ⟨i, hi, hat⟩] at hn'
      exact h q wa n hn'
  · intro _ next hscene
    rw [hscene]
    exact h

theorem Copied.admitted {s t : Nat} (hcopied : Copied s t m next) (h : m.scene.Admitted) :
    next.scene.Admitted := by
  intro q wa n hn
  rw [scene_natures] at hn
  rw [show next.scene.layout = m.layout from hcopied.alike.layout]
  by_cases hnew : q = t ∧ m.page? t wa = none
  · rcases Option.map_eq_some_iff.mp hn with ⟨copy, hcopy, hnature⟩
    rw [hnew.1] at hcopy
    rcases hcopied.copies wa copy hnew.2 hcopy with ⟨page, hpage, hsame⟩
    refine h s wa n ?_
    rw [scene_natures, Machine.natures, hpage, ← hnature, ← Page.nature_outline copy, hsame,
      Option.map_some, ← Page.nature_outline page]
    rfl
  · rw [hcopied.alike.natures hnew] at hn
    exact h q wa n hn

theorem admitted_resolveFault (k : m.Sound {} mem) (h : m.scene.Admitted) :
    Ends (resolveFault p f) m Anyhow
      (fun _ next => next.scene.Admitted) fun _ next => next.scene.Admitted := by
  refine ((ends_resolveFault k fun _ => trivial).and ends_resolveFault_grows).mono ?_ ?_
  · intro _ next hnext
    rcases hnext with ⟨⟨page, frame, hresolved, -⟩, hgrows⟩
    intro q wa n hn
    rw [scene_natures] at hn
    rw [show next.scene.layout = m.layout from hresolved.alike.layout]
    cases hpage : m.lookup p f.va with
    | some old =>
        rw [hresolved.natures_of_page hpage] at hn
        exact h q wa n hn
    | none =>
        rw [hresolved.natures_eq, hresolved.stack hpage] at hn
        by_cases hat : q = p ∧ wa = m.pageBase f.va
        · rw [hat.1, hat.2, setAt_self] at hn
          cases hn
          have hgrown := hgrows hpage
          exact ⟨fun _ => ⟨rfl, rfl, rfl, Layout.inStack_alignDown hgrown.above hgrown.below⟩,
            fun hmapped => absurd rfl hmapped⟩
        · rw [setAt_of_ne hat] at hn
          exact h q wa n hn
  · intro _ next hnext q wa n hn
    rw [scene_natures, hnext.1.alike.natures id] at hn
    rw [show next.scene.layout = m.layout from hnext.1.alike.layout]
    exact h q wa n hn

theorem admitted_perform (op : Operation) (k : m.Sound {} mem) (h : m.scene.Admitted) :
    Ends op.perform m Anyhow (fun _ next => next.scene.Admitted)
      fun _ next => next.scene.Admitted := by
  -- The operations that add no pages, or one that is neither of the stack nor of a mapping.
  have hplain : (∀ q page, op.Permits m (.register q page) → m.layout.Admits page.nature) →
      Ends op.perform m Anyhow (fun _ next => next.scene.Admitted)
        fun _ next => next.scene.Admitted := fun hnew =>
    (steps_perform op k).mono (fun _ _ hsteps => hsteps.admitted hnew h)
      fun _ _ hsteps => hsteps.admitted hnew h
  cases op with
  | allocate p type va writable loader =>
      refine hplain ?_
      rintro q page ⟨origin, -, heq⟩
      cases heq
      exact Layout.admits_plain rfl rfl
  | fault p f =>
      unfold Operation.perform
      rw [ends_bind]
      exact (admitted_resolveFault k h).mono (fun _ _ hnext => hnext) fun _ _ hnext => hnext
  | map p start length writable file offset =>
      unfold Operation.perform
      rw [ends_bind]
      exact (admitted_mapFile k h).mono (fun _ _ hnext => hnext) fun _ _ hnext => hnext
  | fork s t =>
      unfold Operation.perform
      rw [ends_bind]
      refine (ends_fork k trivial).mono ?_ ?_
      · exact fun _ _ hnext => hnext.1.admitted h
      · exact fun _ _ hnext => hnext.1.admitted h
  | claim p va =>
      refine hplain ?_
      rintro q page (hevicting | ⟨other, -, heq⟩)
      · exact hevicting.elim
      · cases heq
  | finish p | teardown p =>
      refine hplain ?_
      rintro q page (⟨other, -, heq | heq⟩ | ⟨bases, heq⟩) <;> cases heq
  | remove p va =>
      refine hplain ?_
      rintro q page ⟨other, -, (heq | heq) | ⟨base, -, heq⟩⟩ <;> cases heq
  | unmap p va =>
      refine hplain ?_
      rintro q page ⟨base, mapping, -, -, heq | ⟨other, -, heq | heq⟩⟩ <;> cases heq
  | write p va data =>
      refine hplain ?_
      rintro q page ⟨count, heq⟩
      cases heq
  | start accepting =>
      refine hplain ?_
      intro q page heq
      cases heq
  | read | classAt | mappingAt => exact hplain fun q page hdeed => hdeed.elim

/-! ## Runs -/

theorem Reachable.admitted (h : m.Reachable) : m.scene.Admitted := by
  refine (h.induction (P := fun m => (∃ mem, m.Sound {} mem) ∧ m.scene.Admitted) ?_ ?_).2
  · intro config hardware start hboot
    refine ⟨⟨fun _ _ => 0, boot_sound _ hboot⟩, ?_⟩
    intro p va n hn
    rw [scene_natures, natures, page?_of_boot hboot] at hn
    contradiction
  · intro m op next hm hnext
    rcases hm with ⟨⟨mem, k⟩, hadmitted⟩
    exact ⟨k.after? hnext, of_after? (admitted_perform op k hadmitted) hnext⟩

/-- The stack region belongs to the stack: a page of the stack is writable, anonymous, in no file
mapping and in the region as a whole, and neither a page that says it belongs to a file mapping
nor one that a mapping lists has a byte in the region. A fault takes no page away, and it adds one
at most at its own address, if none was there and the stack may grow to it. When the fault is
resolved that page is a resident page of zeros, and when it fails there is no new page. -/
theorem Reachable.stack_region_kept (h : m.Reachable) :
    (∀ p va page, m.page? p va = some page →
      (page.isStack = true → page.writable = true ∧ page.effectiveClass = .anon ∧
        page.mapping = none ∧ m.layout.InStack va) ∧
      (page.mapping ≠ none → m.layout.OffStack va)) ∧
    (∀ p b g, (m.process p).mappings.get? b = some g →
      ∀ va ∈ g.members, m.layout.OffStack va) ∧
    ∀ p f,
      (∀ q va, (m.page? q va).isSome = true →
        ((m.left (.fault p f)).page? q va).isSome = true) ∧
      (∀ q va, m.page? q va = none → ((m.left (.fault p f)).page? q va).isSome = true →
        q = p ∧ va = m.pageBase f.va ∧ f.GrowsStack m.layout) ∧
      (∀ reply next, (Operation.fault p f).perform m = .ok reply next →
        m.page? p (m.pageBase f.va) = none → next.FreshStack p (m.pageBase f.va)) ∧
      ∀ e next, (Operation.fault p f).perform m = .error (.failed e) next →
        ∀ q va, (next.page? q va).isSome = (m.page? q va).isSome := by
  rcases h.sound with ⟨mem, k⟩
  have hadmitted := h.admitted
  have hpages : ∀ p va page, m.page? p va = some page →
      (page.isStack = true → page.writable = true ∧ page.effectiveClass = .anon ∧
        page.mapping = none ∧ m.layout.InStack va) ∧
      (page.mapping ≠ none → m.layout.OffStack va) := by
    intro p va page hpage
    have haddress := (k.placed p va page hpage).address
    subst haddress
    have hadmits : m.layout.Admits page.nature :=
      hadmitted p page.va page.nature (congrArg (Option.map Page.nature) hpage)
    exact ⟨hadmits.stack, hadmits.mapped⟩
  refine ⟨hpages, ?_, ?_⟩
  · intro p b g hget va hva
    have hbase := (h.lists hget).linked va hva
    rcases Option.bind_eq_some_iff.mp hbase with ⟨page, hpage, hmapping⟩
    refine (hpages p va page hpage).2 ?_
    rw [hmapping]
    exact Option.some_ne_none b
  · intro p f
    have hends : Ends (Operation.fault p f).perform m Anyhow
        (fun _ next => m.page? p (m.pageBase f.va) = none → next.FreshStack p (m.pageBase f.va))
        fun _ next => ∀ q va, (next.page? q va).isSome = (m.page? q va).isSome := by
      unfold Operation.perform
      rw [ends_bind]
      refine (ends_resolveFault k fun _ => trivial).mono ?_ ?_
      · intro _ next hnext hgone
        rcases hnext with ⟨page, frame, hresolved, -⟩
        exact hresolved.freshStack hgone
      · intro _ next hnext q va
        exact hnext.alike.isSome_page? id
    refine ⟨?_, ?_, fun _ _ hend => hends.of_ok hend, fun _ _ hend => hends.of_failed hend⟩
    · intro q va hsome
      rcases k.natures_left_fault (p := p) (f := f) q va with hsame | ⟨⟨hq, hva⟩, hgone, -⟩
      · rw [← isSome_natures, hsame, isSome_natures]
        exact hsome
      · rw [hq, hva, show m.page? p (m.pageBase f.va) = none from hgone] at hsome
        contradiction
    · intro q va hnone hsome
      rcases k.natures_left_fault (p := p) (f := f) q va with hsame | ⟨hat, -, hgrows⟩
      · rw [← isSome_natures, hsame, isSome_natures, hnone] at hsome
        contradiction
      · exact ⟨hat.1, hat.2, hgrows⟩

def borderedStack : List Operation :=
  [.start (.always true), .start (.always true), .map 0 0xfef0 16 true 0 0, .claim 0 0xfef0,
    .fault 0 ⟨0xfff8, ⟨true, true, true⟩, 0xfff8⟩, .fork 0 1]

def lowestAccess : Fault :=
  ⟨0xff00, ⟨true, true, true⟩, 0xff20⟩

/-- In the copy of a process the stack grows down to a page of a file mapping. -/
theorem stack_grows_to_mapping : ∃ (m next : Machine) (reply : Reply) (mapped stack : Page),
    m.Reachable ∧ (Operation.fault 1 lowestAccess).perform m = .ok reply next ∧
    (m.page? 1 0xfef0 = some mapped ∧ mapped.mapping = some 0xfef0 ∧ m.layout.OffStack 0xfef0) ∧
    (m.page? 1 0xfff0 = some stack ∧ stack.isStack = true ∧ m.layout.InStack 0xfff0) ∧
    (m.page? 1 0xff00 = none ∧ lowestAccess.GrowsStack m.layout ∧ next.FreshStack 1 0xff00) := by
  have hrun := Reachable.of_run smallConfig (smallHardware (some (.blank 4 8)) [.patterned 64])
    borderedStack
    (fun m => (m.page? 1 0xfef0).any (fun page => page.mapping == some 0xfef0) &&
      (m.page? 1 0xfff0).any Page.isStack && (m.page? 1 0xff00).isNone &&
      decide (m.pageBase lowestAccess.va = 0xff00) &&
      m.serves (.fault 1 lowestAccess) fun _ _ => true) (by decide +kernel)
  rcases hrun with ⟨m, hm, hcheck⟩
  simp only [Bool.and_eq_true, decide_eq_true_eq, Option.isNone_iff_eq_none, Option.any_eq_true,
    beq_iff_eq] at hcheck
  rcases hcheck with ⟨⟨⟨⟨⟨mapped, hpage, hmapping⟩, stack, hpage', hstack⟩, hnone⟩, hbase⟩,
    hserves⟩
  rcases exists_of_serves hserves with ⟨reply, next, hend, -⟩
  rcases hm.stack_region_kept with ⟨hpages, -, hfaults⟩
  rcases hfaults 1 lowestAccess with ⟨-, hadded, hfresh, -⟩
  rw [hbase] at hadded hfresh
  have hnew := hfresh reply next hend hnone
  have hleft : m.left (.fault 1 lowestAccess) = next := by
    rw [left, hend]
  have hgrows : lowestAccess.GrowsStack m.layout := by
    refine (hadded 1 0xff00 hnone ?_).2.2
    rcases hnew.resident with ⟨page, hpage, -⟩
    rw [hleft, hpage]
    rfl
  refine ⟨m, next, reply, mapped, stack, hm, hend, ⟨hpage, hmapping, ?_⟩, ⟨hpage', hstack, ?_⟩,
    hnone, hgrows, hnew⟩
  · refine (hpages 1 0xfef0 mapped hpage).2 ?_
    rw [hmapping]
    exact Option.some_ne_none _
  · exact ((hpages 1 0xfff0 stack hpage').1 hstack).2.2.2

end Machine
end DemandPaging
