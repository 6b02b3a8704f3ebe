import DemandPaging.Proofs.Machine.Residency

/-!
# Registration on a sound machine

Pages are registered without frame and slot, and what they had when they are removed goes back to
its place. All this happens between operations, so nothing is in hand before or after.
-/

namespace DemandPaging

/-! ## New pages -/

theorem Page.create_cases {va pageSize : UInt64} {writable : Bool} {type : PageClass}
    {loader : Option Loader} {p : Nat} (hsize : pageSize ≠ 0) :
    (∃ e, create va writable type loader p pageSize = .error (.failed e)) ∨
      ∃ origin, originOf type loader = .ok origin ∧
        create va writable type loader p pageSize =
          .ok ⟨0, va, writable, false, none, none, p, pageSize, .uninit origin⟩ := by
  unfold create
  rw [Word.isAlignedOrAbort_eq hsize]
  cases Word.isAligned va pageSize with
  | false => exact Or.inl ⟨_, rfl⟩
  | true =>
      cases originOf type loader with
      | error e => exact Or.inl ⟨e, rfl⟩
      | ok origin => exact Or.inr ⟨origin, rfl, rfl⟩

namespace Machine

open Routine

variable {m : Machine} {mem : FlatMemory} {fatal : Abort → Prop} {p : Nat} {page : Page}

theorem ends_register {h : InHand} (k : m.page? p page.va = none → m.Sound h mem)
    (hframe : page.frame = none) (hslot : page.slot = none) (hunit : page.mmu = p)
    (hsize : page.pageSize = m.layout.pageSize)
    (hextent : ∀ x, page.state = .file x → x.readBytes.toNat ≤ m.layout.pageBytes)
    (hblank : page.state = .anon none →
      mem.image p page.va m.layout.pageBytes = Bytes.filled m.layout.pageBytes 0) :
    Ends (register p page) m fatal
      (fun given next => given = { page with id := m.nextId } ∧ next = m.withPage p page ∧
        p < m.processes.length ∧ m.page? p page.va = none ∧ next.Sound h mem)
      fun _ next => next = m := by
  unfold register
  simp only [ends_bind, ends_get, ends_require, ends_set, ends_pure, true_and]
  split
  · rename_i htorn
    split
    · rename_i haligned
      split
      · rename_i hfree
        rw [Bool.not_eq_true'] at htorn hfree
        have habsent : m.page? p page.va = none := AddressMap.contains_eq_false_iff.mp hfree
        have hp := lt_of_tornDown_eq_false htorn
        exact ⟨hp, habsent, (k habsent).register htorn habsent hframe hslot hunit hsize haligned
          hextent hblank⟩
      · trivial
    · trivial
  · trivial

theorem ends_allocatePage {type : PageClass} {va : Vaddr} {writable : Bool}
    {loader : Option Loader} (k : m.Sound {} mem) :
    Ends (allocatePage p type va writable loader) m fatal
      (fun _ next => next.Sound {} mem ∧ p < m.processes.length ∧ m.page? p va = none ∧
        ∃ origin, Page.originOf type loader = .ok origin ∧
          next = m.withPage p
            ⟨0, va, writable, false, none, none, p, m.layout.pageSize, .uninit origin⟩)
      fun _ next => next = m := by
  unfold allocatePage
  rw [ends_bind, ends_get, ends_bind]
  rcases Page.create_cases m.layout.pageSize_ne_zero with ⟨e, he⟩ | ⟨origin, hof, horigin⟩
  · rw [he]
    rfl
  · rw [horigin, ends_ofStop_ok]
    refine Ends.mono (ends_register (fun _ => k) rfl rfl rfl rfl (fun _ hx => (by contradiction))
      fun hx => by contradiction) ?_ fun _ _ hnext => hnext
    intro _ next hend
    rcases hend with ⟨-, hnext, hp, hfree, knext⟩
    exact ⟨knext, hp, hfree, origin, hof, hnext⟩

/-! ## Removing one page -/

theorem erase_absent {va : Vaddr} (hgone : m.page? p va = none) :
    (m.modifyPages p fun pages => pages.erase va) = m := by
  refine (modifyPages_congr ?_).trans modifyPages_id
  apply AddressMap.ext_get?
  intro wa
  rw [AddressMap.get?_erase]
  split
  · rename_i hwa
    rw [hwa]
    exact hgone.symm
  · rfl

theorem ends_releaseTaken {n : Machine} {va : Vaddr} (k : n.Sound (InHand.taking {} p page) mem)
    (hplaced : page.Placed m.layout [] p va) (hp : p < n.processes.length)
    (hlayout : n.layout = m.layout) (hpages : n.page? = setAt m.page? p va none) :
    Ends (releasePage p page) n fatal
      (fun _ next => m.Cleared (At p va) next ∧ next.Sound {} mem) fun _ _ => False := by
  have haddress := hplaced.address
  subst haddress
  have hgone : n.page? p page.va = none := by
    rw [hpages, setAt_self]
  refine (ends_releasePage k hp hgone (hlayout ▸ hplaced) List.not_mem_nil List.not_mem_nil
    List.not_mem_nil).mono ?_ fun _ _ hfalse => hfalse
  intro _ next hend
  rcases hend with ⟨hundisturbed, hsame, knext⟩
  exact ⟨.of_setAt (hundisturbed.layout.trans hlayout) (hsame.trans hpages), knext⟩

theorem ends_dropPage {va : Vaddr} (k : m.Sound {} mem) :
    Ends (dropPage p va) m fatal
      (fun _ next => m.Cleared (At p va) next ∧ next.Sound {} mem) fun _ _ => False := by
  unfold dropPage takePage
  simp only [ends_bind, ends_get, ends_modify, ends_pure]
  cases hpage : m.page? p va with
  | none =>
      rw [erase_absent hpage]
      exact ⟨.absent hpage, k⟩
  | some page =>
      have hp := lt_of_page?_eq_some hpage
      refine ends_releaseTaken (k.unregister hpage) (k.placed p va page hpage) ?_ rfl
        (page?_erase_eq hp va)
      rw [modifyPages, length_modifyProcess]
      exact hp

theorem ends_dropPages {vas : List Vaddr} (k : m.Sound {} mem) :
    Ends (dropPages p vas) m fatal
      (fun _ next => m.Cleared (fun q wa => q = p ∧ wa ∈ vas) next ∧ next.Sound {} mem)
      fun _ _ => False := by
  induction vas generalizing m with
  | nil =>
      have hnowhere : m.Cleared (fun q wa => q = p ∧ wa ∈ []) m :=
        (Cleared.nowhere rfl rfl).congr fun q wa =>
          ⟨fun hin => absurd hin.2 List.not_mem_nil, False.elim⟩
      exact ⟨hnowhere, k⟩
  | cons va rest ih =>
      unfold dropPages
      rw [ends_bind]
      refine (ends_dropPage k).mono ?_ fun _ _ hfalse => hfalse
      intro _ next hnext
      refine (ih hnext.2).mono ?_ fun _ _ hfalse => hfalse
      intro _ last hlast
      refine ⟨(hnext.1.trans hlast.1).congr ?_, hlast.2⟩
      intro q wa
      rw [List.mem_cons, and_or_left]
      rfl

theorem ends_mappingOf {h : InHand} (k : m.Sound h mem) (hlock : Lock.page p page.va ∉ h.locks) :
    Ends (mappingOf p page) m fatal
      (fun base next => base = page.mapping ∧ m.Beside next ∧ next.Sound h mem)
      fun _ _ => False := by
  have hfree : Lock.page p page.va ∉ m.held := k.not_held hlock
  unfold mappingOf
  rw [ends_withLock hfree, ends_pure]
  exact ⟨rfl, ⟨rfl, rfl, rfl, rfl, rfl⟩, (k.locked _).unlocked rfl⟩

theorem ends_leaveMapping {h : InHand} {base va : Vaddr} (k : m.Sound h mem) :
    Ends (leaveMapping p base va) m fatal
      (fun _ next => next.layout = m.layout ∧ next.page? = m.page? ∧
        next.processes.length = m.processes.length ∧ next.Sound h mem)
      fun _ _ => False := by
  unfold leaveMapping
  rw [ends_modify]
  refine ⟨rfl, ?_, length_modifyProcess m p _, k.modifyMappings p _⟩
  funext q wa
  exact page?_modifyMappings m p q _ wa

theorem ends_removePage {va : Vaddr} (k : m.Sound {} mem) :
    Ends (removePage p va) m fatal
      (fun _ next => m.Cleared (At p (m.pageBase va)) next ∧ next.Sound {} mem)
      fun _ next => m.Cleared (At p (m.pageBase va)) next ∧ next.Sound {} mem := by
  unfold removePage takePage
  simp only [ends_bind, ends_get, ends_modify, ends_pure]
  cases hpage : m.page? p (m.pageBase va) with
  | none =>
      rw [erase_absent hpage]
      exact ⟨.absent hpage, k⟩
  | some page =>
      have hplaced := k.placed p _ page hpage
      have hp := lt_of_page?_eq_some hpage
      have hpages := page?_erase_eq hp (m.pageBase va)
      rw [ends_orFail_some]
      refine (ends_mappingOf (k.unregister hpage) List.not_mem_nil).mono ?_
        fun _ _ hfalse => hfalse.elim
      intro base asked hend
      rcases hend with ⟨-, hbeside, kasked⟩
      have hasked : p < asked.processes.length := by
        rw [hbeside.processes, modifyPages, length_modifyProcess]
        exact hp
      have haskedPages : asked.page? = setAt m.page? p (m.pageBase va) none := by
        rw [← hpages]
        funext q wa
        exact hbeside.page? q wa
      cases base with
      | none =>
          exact (ends_releaseTaken kasked hplaced hasked hbeside.layout haskedPages).mono
            (fun _ _ hnext => hnext) fun _ _ hfalse => hfalse.elim
      | some base =>
          dsimp only
          rw [ends_bind]
          refine (ends_leaveMapping kasked).mono ?_ fun _ _ hfalse => hfalse.elim
          intro _ left hend
          rcases hend with ⟨hlayout, hsame, hcount, kleft⟩
          exact (ends_releaseTaken kleft hplaced (hcount ▸ hasked)
            (hlayout.trans hbeside.layout) (hsame.trans haskedPages)).mono
              (fun _ _ hnext => hnext) fun _ _ hfalse => hfalse.elim

/-! ## Removing all pages -/

theorem get?_foldr_erase (pages : AddressMap Page) (l : List Page) (va : Vaddr) :
    (l.foldr (fun page pages => pages.erase page.va) pages).get? va =
      if va ∈ l.map Page.va then none else pages.get? va := by
  induction l with
  | nil => rfl
  | cons page rest ih =>
      rw [List.foldr_cons, AddressMap.get?_erase, ih]
      by_cases hva : va = page.va
      · simp [hva]
      · simp [hva]

/-- Taking pages one after the other leaves what they had in hand. -/
theorem Sound.unregisterAll {h : InHand} {l : List Page} (k : m.Sound h mem)
    (hpages : ∀ page ∈ l, m.page? p page.va = some page) (hapart : (l.map Page.va).Nodup) :
    (m.modifyPages p fun pages =>
      l.foldr (fun page pages => pages.erase page.va) pages).Sound (h.takingAll p l) mem := by
  induction l with
  | nil =>
      have hsame : (m.modifyPages p fun pages => pages) = m := modifyPages_id
      exact hsame.symm ▸ k
  | cons page rest ih =>
      rw [List.map_cons, List.nodup_cons] at hapart
      have krest := ih (fun other hother => hpages other (List.mem_cons_of_mem page hother))
        hapart.2
      have hpage := hpages page List.mem_cons_self
      have hstill : (m.modifyPages p fun pages =>
          rest.foldr (fun page pages => pages.erase page.va) pages).page? p page.va =
            some page := by
        rw [page?_modifyPages (lt_of_page?_eq_some hpage), if_pos rfl, get?_foldr_erase,
          if_neg hapart.1]
        exact hpage
      have kpage := krest.unregister hstill
      have hboth : (m.modifyPages p fun pages =>
          (page :: rest).foldr (fun page pages => pages.erase page.va) pages) =
            (m.modifyPages p fun pages =>
              rest.foldr (fun page pages => pages.erase page.va) pages).modifyPages p
                fun pages => pages.erase page.va := by
        unfold Machine.modifyPages Machine.modifyProcess
        rw [List.modify_modify_eq]
        rfl
      rw [hboth]
      exact kpage

theorem Sound.values_registered {h : InHand} (k : m.Sound h mem) :
    (∀ page ∈ (m.process p).pages.values, m.page? p page.va = some page) ∧
      (m.process p).pages.values.map Page.va = (m.process p).pages.keys := by
  have hentries : ∀ e ∈ (m.process p).pages.entries,
      m.page? p e.1 = some e.2 ∧ e.2.va = e.1 := by
    intro e he
    have hpage : m.page? p e.1 = some e.2 := AddressMap.get?_eq_some_iff.mpr he
    exact ⟨hpage, (k.placed p e.1 e.2 hpage).address⟩
  constructor
  · intro page hpage
    rcases List.mem_map.mp hpage with ⟨e, he, rfl⟩
    rcases hentries e he with ⟨hregistered, haddress⟩
    rw [haddress]
    exact hregistered
  · unfold AddressMap.values AddressMap.keys
    rw [List.map_map]
    apply List.map_congr_left
    intro e he
    exact (hentries e he).2

theorem Sound.unregisterEach {h : InHand} (k : m.Sound h mem) :
    (m.modifyPages p fun _ => .empty).Sound (h.takingAll p (m.process p).pages.values) mem := by
  rcases k.values_registered with ⟨hregistered, hkeys⟩
  have hapart : ((m.process p).pages.values.map Page.va).Nodup := by
    rw [hkeys]
    exact (m.process p).pages.keys_nodup
  have hempty : (m.process p).pages.values.foldr
      (fun page pages => pages.erase page.va) (m.process p).pages = .empty := by
    apply AddressMap.ext_get?
    intro va
    rw [get?_foldr_erase, hkeys]
    split
    · rfl
    · rename_i hva
      cases hpage : (m.process p).pages.get? va with
      | none => rfl
      | some page => exact absurd (AddressMap.mem_keys_iff.mpr ⟨page, hpage⟩) hva
  have hsame : (m.modifyPages p fun _ => .empty) = m.modifyPages p fun pages =>
      (m.process p).pages.values.foldr (fun page pages => pages.erase page.va) pages :=
    modifyPages_congr hempty.symm
  rw [hsame]
  exact k.unregisterAll hregistered hapart

theorem ends_releasePages {l : List Page} (k : m.Sound (InHand.takingAll {} p l) mem)
    (hp : p < m.processes.length) (hgone : ∀ page ∈ l, m.page? p page.va = none)
    (hplaced : ∀ page ∈ l, page.Placed m.layout [] p page.va) :
    Ends (releasePages p l) m fatal
      (fun _ next => next.layout = m.layout ∧ next.page? = m.page? ∧ next.Sound {} mem)
      fun _ _ => False := by
  induction l generalizing m with
  | nil => exact ⟨rfl, rfl, k⟩
  | cons page rest ih =>
      have hnolock := InHand.not_mem_locks_takingAll p rest
      have hplaced' : page.Placed m.layout (InHand.takingAll {} p rest).filling p page.va :=
        (hplaced page List.mem_cons_self).takingAll rest
      unfold releasePages
      rw [ends_bind]
      refine (ends_releasePage k hp (hgone page List.mem_cons_self) hplaced' (hnolock _)
        (hnolock _) (hnolock _)).mono ?_ fun _ _ hfalse => hfalse
      intro _ next hnext
      rcases hnext with ⟨hundisturbed, hpages, knext⟩
      have hp' : p < next.processes.length := by
        rw [hundisturbed.count]
        exact hp
      refine (ih knext hp' ?_ ?_).mono ?_ fun _ _ hfalse => hfalse
      · intro other hother
        rw [hpages]
        exact hgone other (List.mem_cons_of_mem page hother)
      · intro other hother
        rw [hundisturbed.layout]
        exact hplaced other (List.mem_cons_of_mem page hother)
      · intro _ last hend
        rcases hend with ⟨hlayout, hsame, klast⟩
        exact ⟨hlayout.trans hundisturbed.layout, hsame.trans hpages, klast⟩

theorem cleared_of_page?_empty {next : Machine} (hlayout : next.layout = m.layout)
    (hpages : next.page? = (m.modifyPages p fun _ => .empty).page?) :
    m.Cleared (fun q _ => q = p) next where
  layout := hlayout
  gone := by
    intro q va heq
    subst heq
    rw [hpages]
    by_cases hq : q < m.processes.length
    · rw [page?_modifyPages hq, if_pos rfl]
      rfl
    · rw [page?, process_eq_absent]
      · rfl
      · rw [modifyPages, length_modifyProcess]
        exact Nat.le_of_not_lt hq
  kept := by
    intro q va hne
    rw [hpages]
    by_cases hp : p < m.processes.length
    · rw [page?_modifyPages hp, if_neg hne]
    · rw [modifyPages, modifyProcess_absent (Nat.le_of_not_lt hp)]

theorem ends_teardown (k : m.Sound {} mem) :
    Ends (teardown p) m fatal
      (fun _ next => m.Cleared (fun q _ => q = p) next ∧ (next.process p).tornDown = true ∧
        next.Sound {} mem)
      fun _ _ => False := by
  have hregistered := k.values_registered (p := p)
  have kempty := k.unregisterEach (p := p)
  have hreleased : Ends (releasePages p (m.process p).pages.values)
      (m.modifyPages p fun _ => .empty) fatal
      (fun _ next => next.layout = m.layout ∧
        next.page? = (m.modifyPages p fun _ => .empty).page? ∧ next.Sound {} mem)
      fun _ _ => False := by
    cases hvalues : (m.process p).pages.values with
    | nil =>
        rw [hvalues] at kempty
        exact ⟨rfl, rfl, kempty⟩
    | cons page rest =>
        rw [hvalues] at kempty hregistered
        have hp := lt_of_page?_eq_some (hregistered.1 page List.mem_cons_self)
        refine ends_releasePages kempty ?_ ?_ ?_
        · rw [modifyPages, length_modifyProcess]
          exact hp
        · intro other _
          rw [page?_modifyPages hp, if_pos rfl]
          rfl
        · intro other hother
          exact k.placed p other.va other (hregistered.1 other hother)
  unfold teardown
  simp only [ends_bind, ends_get, ends_modify]
  refine hreleased.mono ?_ fun _ _ hfalse => hfalse
  intro _ next hend
  rcases hend with ⟨hlayout, hpages, knext⟩
  have hcleared := cleared_of_page?_empty hlayout hpages
  have ktorn : (next.modifyProcess p fun q =>
      { q with mappings := .empty, tornDown := true }).Sound {} mem :=
    knext.modifyProcess p _ (fun _ => rfl) (fun _ _ => rfl) (fun _ => rfl) (fun _ => rfl)
      (fun _ => rfl) (fun _ => rfl) fun _ va => hcleared.gone p va rfl
  have htorn : m.Cleared (fun q _ => q = p) (next.modifyProcess p fun q =>
      { q with mappings := .empty, tornDown := true }) := by
    refine cleared_of_page?_empty hlayout ?_
    rw [← hpages]
    funext q va
    exact process_modifyProcess_of_forall next p q (fun process => process.pages.get? va)
      fun _ => rfl
  have hclosed : ((next.modifyProcess p fun q =>
      { q with mappings := .empty, tornDown := true }).process p).tornDown = true := by
    by_cases hp : p < next.processes.length
    · rw [process_modifyProcess next p p _ hp, if_pos rfl]
    · rw [modifyProcess_absent (Nat.le_of_not_lt hp), process_eq_absent (Nat.le_of_not_lt hp)]
      rfl
  rw [ends_when]
  split
  · exact ⟨{ htorn with }, hclosed, ktorn.recorded _⟩
  · exact ⟨htorn, hclosed, ktorn⟩

theorem ends_endProcess (k : m.Sound {} mem) :
    Ends (endProcess p) m fatal
      (fun _ next => m.Cleared (fun q _ => q = p) next ∧ next.Sound {} mem)
      fun _ _ => False := by
  unfold endProcess
  rw [ends_bind]
  refine (ends_teardown k).mono ?_ fun _ _ hfalse => hfalse
  intro _ next hend
  rcases hend with ⟨htorn, hclosed, knext⟩
  have hpages : (next.modifyProcess p fun q => { q with ended := true }).page? = next.page? := by
    funext q va
    exact process_modifyProcess_of_forall next p q (fun process => process.pages.get? va)
      fun _ => rfl
  refine ⟨⟨htorn.layout, ?_, ?_⟩, knext.modifyProcess p _ (fun _ => rfl) (fun _ _ => rfl)
    (fun _ => rfl) (fun _ => rfl) (fun _ => rfl) (fun _ => hclosed) (knext.closed p)⟩
  · rw [hpages]
    exact htorn.gone
  · rw [hpages]
    exact htorn.kept

theorem ends_startProcess {accepting : Schedule Bool} (k : m.Sound {} mem) :
    Ends (startProcess accepting) m fatal
      (fun _ next => m.AlikeBut Nowhere next ∧ next.Sound {} mem) fun _ _ => False :=
  ⟨.of_page?_eq rfl (page?_withProcess m accepting), k.addProcess accepting⟩

theorem ends_classAt {va : Vaddr} (k : m.Sound {} mem) :
    Ends (classAt p va) m fatal
      (fun _ next => m.AlikeBut Nowhere next ∧ next.Sound {} mem) fun _ _ => False := by
  unfold classAt
  rw [ends_bind, ends_get]
  cases m.lookup p va with
  | none => exact ⟨.refl m, k⟩
  | some page =>
      have hfree : Lock.page p page.va ∉ m.held := k.not_held List.not_mem_nil
      dsimp only
      rw [ends_withLock hfree]
      exact ⟨.of_page?_eq rfl rfl, (k.locked _).unlocked rfl⟩

end Machine
end DemandPaging
