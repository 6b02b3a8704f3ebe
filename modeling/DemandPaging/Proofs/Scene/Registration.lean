import DemandPaging.Proofs.Machine.Registration
import DemandPaging.Proofs.Machine.Serving
import DemandPaging.Proofs.Scene.Residency

/-!
# Registration in scenes

A new page appears without a frame; a page that is removed is released and leaves its file mapping.
Pages that are taken away together are released one after the other.
-/

namespace DemandPaging

def AddressMap.leaving (mappings : AddressMap FileMapping) (base : Option Vaddr) (va : Vaddr) :
    AddressMap FileMapping :=
  match base with
  | none => mappings
  | some base =>
      match mappings.get? base with
      | none => mappings
      | some mapping =>
          match mapping.without va with
          | some smaller => mappings.insert base smaller
          | none => mappings.erase base

namespace AddressMap

variable {mappings : AddressMap FileMapping} {base wa va : Vaddr}

theorem get?_leaving_of_ne (h : wa ≠ base) :
    (mappings.leaving (some base) va).get? wa = mappings.get? wa := by
  unfold leaving
  dsimp only
  cases mappings.get? base with
  | none => rfl
  | some mapping =>
      dsimp only
      cases mapping.without va with
      | none => rw [get?_erase, if_neg h]
      | some smaller => rw [get?_insert, if_neg h]

theorem get?_leaving_self : (mappings.leaving (some base) va).get? base =
    (mappings.get? base).bind fun mapping => mapping.without va := by
  unfold leaving
  dsimp only
  cases hget : mappings.get? base with
  | none => exact hget
  | some mapping =>
      dsimp only
      cases hwithout : mapping.without va with
      | none => rw [get?_erase, if_pos rfl, Option.bind_some, hwithout]
      | some smaller => rw [get?_insert, if_pos rfl, Option.bind_some, hwithout]

end AddressMap

def Deed.Dropping (p : Nat) (places : Vaddr → Prop) (deed : Deed) : Prop :=
  ∃ page, places page.va ∧ deed.Releasing p page

def Deed.Clearing (p : Nat) (deed : Deed) : Prop :=
  deed.Dropping p (fun _ => True) ∨ ∃ bases, deed = .regroup p bases

namespace Scene

variable {v : Scene} {p : Nat} {page : Page} {pages : List Page}

/-- The scene without pages that still have their mappings. -/
def masked (v : Scene) (p : Nat) (pages : List Page) : Scene :=
  { v with
    sight := fun q va =>
      if q = p ∧ va ∈ pages.map Page.va then ⟨none, (v.sight q va).entry, none⟩
      else v.sight q va }

theorem sight_masked_of_mem (hpage : page ∈ pages) :
    (v.masked p pages).sight p page.va = ⟨none, (v.sight p page.va).entry, none⟩ :=
  if_pos ⟨rfl, List.mem_map_of_mem hpage⟩

theorem masked_nil : v.masked p [] = v := by
  have hsight : (v.masked p []).sight = v.sight := by
    funext q va
    exact if_neg fun hin => List.not_mem_nil hin.2
  exact congrArg (fun sight => { v with sight := sight }) hsight

theorem see_blank_masked (hout : page.va ∉ pages.map Page.va) :
    (v.masked p (page :: pages)).see p page.va .blank =
      (v.see p page.va .blank).masked p pages := by
  have hsight : ((v.masked p (page :: pages)).see p page.va .blank).sight =
      ((v.see p page.va .blank).masked p pages).sight := by
    funext q va
    by_cases hat : q = p ∧ va = page.va
    · rcases hat with ⟨rfl, rfl⟩
      have hblank : ((v.see q page.va .blank).masked q pages).sight q page.va = .blank :=
        (if_neg fun hin => hout hin.2).trans sight_see_self
      rw [sight_see_self, hblank]
    · have hlist : (q = p ∧ va ∈ (page :: pages).map Page.va) ↔ q = p ∧ va ∈ pages.map Page.va := by
        rw [List.map_cons, List.mem_cons, and_or_left, or_iff_right hat]
      rw [sight_see_of_ne hat]
      unfold masked
      dsimp only
      rw [sight_see_of_ne hat]
      simp only [hlist]
  exact congrArg (fun sight => { v with sight := sight }) hsight

theorem released_masked {entry : Option PageEntry} {content : Option Bytes}
    (hout : page.va ∉ pages.map Page.va) :
    (v.masked p (page :: pages)).released p page entry content =
      (v.released p page entry content).masked p pages := by
  cases content with
  | none => exact see_blank_masked hout
  | some bytes =>
      unfold released
      dsimp only
      generalize (⟨p, page.va, page.id⟩ : Owner) = owner
      have hsettled : (v.masked p (page :: pages)).settled owner page.state entry bytes =
          (v.settled owner page.state entry bytes).masked p (page :: pages) := by
        unfold masked
        rw [settled_sight, sight_settled]
      rw [hsettled, see_blank_masked hout]
      rfl

theorem released_sight_of_ne {entry : Option PageEntry} {content : Option Bytes} {q : Nat}
    {va : Vaddr} (hne : ¬(q = p ∧ va = page.va)) :
    (v.released p page entry content).sight q va = v.sight q va := by
  cases content with
  | none => exact sight_see_of_ne hne
  | some bytes => exact (sight_see_of_ne hne).trans (by rw [sight_settled])

theorem released_mappings {entry : Option PageEntry} {content : Option Bytes} :
    (v.released p page entry content).mappings = v.mappings := by
  cases content with
  | none => rfl
  | some bytes =>
      unfold released
      rcases v.settled_cases ⟨p, page.va, page.id⟩ page.state entry bytes with
        ⟨x, -, -, -, hsettled⟩ | ⟨-, hsettled⟩
      · dsimp only
        rw [hsettled]
        rfl
      · dsimp only
        rw [hsettled]
        rfl

end Scene

namespace Machine

open Routine

variable {m : Machine} {mem : FlatMemory} {p : Nat} {va : Vaddr} {page : Page}

/-! ## Registering -/

theorem steps_register {h : InHand} (k : m.page? p page.va = none → m.Sound h mem)
    (hframe : page.frame = none) (hunlinked : (p, page.va) ∉ h.unlinked) :
    Ends (register p page) m Anyhow
      (fun given next => given = { page with id := m.nextId } ∧
        m.scene.sight p page.va = .blank ∧
        next.scene = m.scene.see p page.va ⟨some { page with id := m.nextId }, none, none⟩)
      fun _ next => next = m := by
  unfold register
  simp only [ends_bind, ends_get, ends_require, ends_set, ends_pure, true_and]
  split
  · rename_i htorn
    split
    · split
      · rename_i hfree
        rw [Bool.not_eq_true'] at htorn hfree
        have habsent : m.page? p page.va = none := AddressMap.contains_eq_false_iff.mp hfree
        have hentry : m.entryAt p page.va = none := by
          apply entryAt_eq_none_iff.mpr
          exact (k habsent).link?_eq_none (by rw [habsent]; rfl) hunlinked
        constructor
        · refine (sight_of_absent habsent).trans ?_
          rw [hentry]
          rfl
        · rw [scene_withPage (lt_of_tornDown_eq_false htorn), hentry, hframe]
          rfl
      · trivial
    · trivial
  · trivial

theorem steps_allocatePage {type : PageClass} {writable : Bool} {loader : Option Loader}
    (k : m.Sound {} mem) :
    Ends (allocatePage p type va writable loader) m Anyhow
      (fun _ next => ∃ origin, Page.originOf type loader = .ok origin ∧
        Scene.Step (.register p ⟨m.nextId, va, writable, false, none, none, p,
          m.layout.pageSize, .uninit origin⟩) m.scene next.scene)
      fun _ next => next = m := by
  unfold allocatePage
  rw [ends_bind, ends_get, ends_bind]
  rcases Page.create_cases m.layout.pageSize_ne_zero with ⟨e, he⟩ | ⟨origin, hof, horigin⟩
  · rw [he]
    rfl
  · rw [horigin, ends_ofStop_ok]
    refine (steps_register (fun _ => k) rfl List.not_mem_nil).mono ?_ fun _ _ hnext => hnext
    intro _ next hnext
    rcases hnext with ⟨-, hfree, hscene⟩
    refine ⟨origin, hof, ?_⟩
    rw [hscene]
    exact .register hfree rfl

/-! ## Releasing what was taken -/

theorem Sound.bytes_taken {h : InHand} (k : m.Sound (h.taking p page) mem)
    (hplaced : page.Placed m.layout h.filling p va) {f : Nat} (hframe : page.frame = some f) :
    page.bytes = (m.pool.content f).length := by
  have hlisted : f ∈ (h.taking p page).stray := by
    show f ∈ page.frame.toList ++ h.stray
    rw [hframe]
    exact List.mem_cons_self
  rw [k.length_content (k.frames.lt_capacity (k.frames.strayListed f hlisted))]
  exact congrArg UInt64.toNat hplaced.size

theorem Sound.idle_taken {h : InHand} (k : m.Sound (h.taking p page) mem)
    (hgone : m.page? p page.va = none) (hunlinked : (p, page.va) ∉ h.unlinked)
    (hnone : page.frame = none) : m.entryAt p page.va = none := by
  have hsame : (h.taking p page).unlinked = h.unlinked :=
    if_neg (by rw [Page.isResident, hnone]; exact Bool.false_ne_true)
  apply entryAt_eq_none_iff.mpr
  refine k.link?_eq_none (by rw [hgone]; rfl) ?_
  rw [hsame]
  exact hunlinked

theorem steps_releaseTaken {v : Scene} {entry : Option PageEntry}
    (k : m.Sound (InHand.taking {} p page) mem) (hplaced : page.Placed m.layout [] p page.va)
    (hp : p < m.processes.length) (hscene : m.scene = v.see p page.va ⟨none, entry, none⟩) :
    Ends (releasePage p page) m Anyhow
      (fun _ next => next.scene = v.released p page entry (page.frame.map m.pool.content))
      fun _ _ => False := by
  have hsight := sight_of_scene hscene
  have hgone : m.page? p page.va = none := congrArg Sight.page hsight
  have hentry : m.entryAt p page.va = entry := congrArg Sight.entry hsight
  refine ((ends_releasePage k hp hgone hplaced List.not_mem_nil List.not_mem_nil
    List.not_mem_nil).and (steps_releasePage hp (fun f => k.bytes_taken hplaced) hgone
      (k.idle_taken hgone List.not_mem_nil))).mono ?_ fun _ _ hfalse => hfalse.1
  intro _ next hnext
  rw [hnext.2.2, hentry, hscene]
  exact Scene.released_see

/-! ## Removing one page -/

theorem Sound.sight_idle (k : m.Sound {} mem) (hpage : m.page? p va = some page)
    (hnone : page.frame.map m.pool.content = none) : m.entryAt p va = none := by
  have hframe : page.frame = none := Option.map_eq_none_iff.mp hnone
  apply entryAt_eq_none_iff.mpr
  refine k.link?_eq_none ?_ List.not_mem_nil
  rw [hpage, Option.bind_some, hframe]

theorem steps_dropPage (k : m.Sound {} mem) :
    Ends (dropPage p va) m Anyhow
      (fun _ next => m.page? p va = none ∧ next.scene = m.scene ∨
        ∃ page, m.page? p va = some page ∧ next.scene = m.scene.released p page
          (m.entryAt p va) (page.frame.map m.pool.content))
      fun _ _ => False := by
  unfold dropPage takePage
  simp only [ends_bind, ends_get, ends_modify, ends_pure]
  cases hpage : m.page? p va with
  | none =>
      rw [erase_absent hpage]
      exact Or.inl ⟨rfl, rfl⟩
  | some page =>
      have hplaced := k.placed p va page hpage
      have hp := lt_of_page?_eq_some hpage
      have haddress := hplaced.address
      subst haddress
      refine (steps_releaseTaken (k.unregister hpage) hplaced ?_ (scene_erase hp page.va)).mono ?_
        fun _ _ hfalse => hfalse
      · rw [modifyPages, length_modifyProcess]
        exact hp
      · intro _ next hnext
        exact Or.inr ⟨page, rfl, hnext⟩

theorem Sound.steps_released (k : m.Sound {} mem) (hpage : m.page? p va = some page) :
    Scene.Steps (Deed.Releasing p page) m.scene
      (m.scene.released p page (m.entryAt p va) (page.frame.map m.pool.content)) := by
  have haddress := (k.placed p va page hpage).address
  subst haddress
  exact Scene.steps_released (sight_of_page? hpage) (k.sight_idle hpage)

theorem steps_dropPages {vas : List Vaddr} (k : m.Sound {} mem) :
    Ends (dropPages p vas) m Anyhow
      (fun _ next => Scene.Steps (Deed.Dropping p (· ∈ vas)) m.scene next.scene ∧
        next.scene.mappings = m.scene.mappings)
      fun _ _ => False := by
  induction vas generalizing m with
  | nil => exact ⟨.refl _, rfl⟩
  | cons va rest ih =>
      unfold dropPages
      rw [ends_bind]
      refine ((ends_dropPage k).and (steps_dropPage k)).mono ?_ fun _ _ hfalse => hfalse.1
      intro _ next hnext
      rcases hnext with ⟨⟨-, knext⟩, hscene⟩
      have hfirst : Scene.Steps (Deed.Dropping p (· ∈ va :: rest)) m.scene next.scene ∧
          next.scene.mappings = m.scene.mappings := by
        rcases hscene with ⟨-, hscene⟩ | ⟨page, hpage, hscene⟩
        · rw [hscene]
          exact ⟨.refl _, rfl⟩
        · rw [hscene]
          refine ⟨(k.steps_released hpage).mono ?_, Scene.released_mappings⟩
          intro deed hdeed
          refine ⟨page, ?_, hdeed⟩
          rw [(k.placed p va page hpage).address]
          exact List.mem_cons_self
      refine (ih knext).mono ?_ fun _ _ hfalse => hfalse
      intro _ last hlast
      refine ⟨hfirst.1.trans (hlast.1.mono ?_), hlast.2.trans hfirst.2⟩
      intro deed hdeed
      rcases hdeed with ⟨page, hpage, hreleasing⟩
      exact ⟨page, List.mem_cons_of_mem va hpage, hreleasing⟩

theorem scene_leaveMapping (hp : p < m.processes.length) (base : Vaddr) :
    Ends (leaveMapping p base va) m Anyhow
      (fun _ next => next.pool = m.pool ∧ next.scene =
        m.scene.grouped p ((m.process p).mappings.leaving (some base) va))
      fun _ _ => False := by
  unfold leaveMapping
  rw [ends_modify]
  exact ⟨rfl, scene_modifyMappings hp⟩

theorem steps_removePage (k : m.Sound {} mem) :
    Ends (removePage p va) m Anyhow
      (fun _ next => ∃ page, m.page? p (m.pageBase va) = some page ∧ next.scene =
        (m.scene.grouped p ((m.process p).mappings.leaving page.mapping page.va)).released p page
          (m.entryAt p page.va) (page.frame.map m.pool.content))
      fun _ next => m.page? p (m.pageBase va) = none ∧ next.scene = m.scene := by
  unfold removePage takePage
  simp only [ends_bind, ends_get, ends_modify, ends_pure]
  cases hpage : m.page? p (m.pageBase va) with
  | none =>
      rw [erase_absent hpage]
      exact ⟨rfl, rfl⟩
  | some page =>
      have hplaced := k.placed p _ page hpage
      have hp := lt_of_page?_eq_some hpage
      have haddress := hplaced.address
      rw [← haddress] at hpage hplaced ⊢
      rw [ends_orFail_some]
      have kerased := k.unregister hpage
      have herased := scene_erase hp page.va
      have hcount : p < (m.modifyPages p fun pages => pages.erase page.va).processes.length := by
        rw [modifyPages, length_modifyProcess]
        exact hp
      refine ((ends_mappingOf kerased List.not_mem_nil).and
        (kept_mappingOf sameScene_oblivious p page _)).mono ?_ fun _ _ hfalse => hfalse.1.elim
      intro base asked hasked
      rcases hasked with ⟨⟨rfl, hbeside, kasked⟩, hsame⟩
      have hscene := hsame.scene.trans herased
      have hcontent : asked.pool.content = m.pool.content := by
        funext f
        unfold FramePool.content
        rw [hsame.frames]
        rfl
      have hgroups : (asked.process p).mappings = (m.process p).mappings :=
        congrFun (congrArg Scene.mappings hscene) p
      have hcount' : p < asked.processes.length := by
        rw [hbeside.processes]
        exact hcount
      have hplaced' : page.Placed asked.layout [] p page.va := by
        rw [hbeside.layout]
        exact hplaced
      cases hbase : page.mapping with
      | none =>
          refine (steps_releaseTaken kasked hplaced' hcount' hscene).mono ?_
            fun _ _ hfalse => hfalse.elim
          intro _ next hnext
          refine ⟨page, rfl, ?_⟩
          rw [hnext, hcontent, hbase]
          exact congrArg (fun v => Scene.released v p page _ _) (Scene.grouped_self rfl).symm
      | some base =>
          dsimp only
          rw [ends_bind]
          refine ((ends_leaveMapping kasked).and (scene_leaveMapping hcount' base)).mono ?_
            fun _ _ hfalse => hfalse.1.elim
          intro _ left hleft
          rcases hleft with ⟨⟨hlayout, -, hlength, kleft⟩, hpool, hleft⟩
          rw [hscene, hgroups] at hleft
          have hleft : left.scene = (m.scene.grouped p
              ((m.process p).mappings.leaving (some base) page.va)).see p page.va
                ⟨none, m.entryAt p page.va, none⟩ := hleft
          refine (steps_releaseTaken kleft (hlayout ▸ hplaced') (hlength ▸ hcount') hleft).mono ?_
            fun _ _ hfalse => hfalse.elim
          intro _ next hnext
          refine ⟨page, rfl, ?_⟩
          rw [hnext, hpool, hcontent, hbase]

/-! ## Processes -/

theorem steps_releasePages {v : Scene} {pages : List Page}
    (k : m.Sound (InHand.takingAll {} p pages) mem) (hp : p < m.processes.length)
    (hplaced : ∀ page ∈ pages, page.Placed m.layout [] p page.va)
    (hapart : (pages.map Page.va).Nodup) (hscene : m.scene = v.masked p pages)
    (hsight : ∀ page ∈ pages, ∃ entry, v.sight p page.va =
      ⟨some page, entry, page.frame.map m.pool.content⟩ ∧ (page.frame = none → entry = none)) :
    Ends (releasePages p pages) m Anyhow
      (fun _ next => Scene.Steps (Deed.Dropping p fun _ => True) v next.scene ∧
        next.scene.mappings = v.mappings)
      fun _ _ => False := by
  induction pages generalizing m v with
  | nil =>
      rw [Scene.masked_nil] at hscene
      exact ⟨.of_eq hscene, congrArg Scene.mappings hscene⟩
  | cons page rest ih =>
      have hnolock := InHand.not_mem_locks_takingAll p rest
      have hplaced' : page.Placed m.layout (InHand.takingAll {} p rest).filling p page.va :=
        (hplaced page List.mem_cons_self).takingAll rest
      rcases hsight page List.mem_cons_self with ⟨entry, hown, hidle⟩
      have hmasked : m.sight p page.va = ⟨none, entry, none⟩ := by
        have hseen : m.scene.sight p page.va = ⟨none, (v.sight p page.va).entry, none⟩ := by
          rw [hscene]
          exact Scene.sight_masked_of_mem List.mem_cons_self
        rw [hown] at hseen
        exact hseen
      have hgone : m.page? p page.va = none := congrArg Sight.page hmasked
      have hentry : m.entryAt p page.va = entry := congrArg Sight.entry hmasked
      rw [List.map_cons, List.nodup_cons] at hapart
      have hbytes : ∀ f, page.frame = some f → page.bytes = (m.pool.content f).length :=
        fun f => Sound.bytes_taken k hplaced'
      unfold releasePages
      rw [ends_bind]
      refine ((ends_releasePage k hp hgone hplaced' (hnolock _) (hnolock _) (hnolock _)).and
        (steps_releasePage hp hbytes hgone fun hnone => hentry.trans (hidle hnone))).mono ?_
        fun _ _ hfalse => hfalse.1
      intro _ next hnext
      rcases hnext with ⟨⟨hundisturbed, hpages, knext⟩, hframes, hreleased⟩
      rw [hentry, hscene, Scene.released_masked hapart.1] at hreleased
      have hcontent : next.pool.content = m.pool.content := by
        funext f
        unfold FramePool.content
        rw [hframes]
      have hsteps : Scene.Steps (Deed.Dropping p fun _ => True) v
          (v.released p page entry (page.frame.map m.pool.content)) := by
        refine (Scene.steps_released hown ?_).mono fun deed hdeed => ⟨page, trivial, hdeed⟩
        exact fun hnone => hidle (Option.map_eq_none_iff.mp hnone)
      refine (ih knext ?_ ?_ hapart.2 hreleased ?_).mono ?_ fun _ _ hfalse => hfalse
      · rw [hundisturbed.count]
        exact hp
      · intro other hother
        rw [hundisturbed.layout]
        exact hplaced other (List.mem_cons_of_mem page hother)
      · intro other hother
        have hne : ¬(p = p ∧ other.va = page.va) := by
          rintro ⟨-, heq⟩
          exact hapart.1 (heq ▸ List.mem_map_of_mem hother)
        rw [Scene.released_sight_of_ne hne, hcontent]
        exact hsight other (List.mem_cons_of_mem page hother)
      · intro _ last hlast
        exact ⟨hsteps.trans hlast.1, hlast.2.trans Scene.released_mappings⟩

theorem Sound.scene_emptied (k : m.Sound {} mem) (hp : p < m.processes.length) :
    (m.modifyPages p fun _ => .empty).scene =
      m.scene.masked p (m.process p).pages.values := by
  have hkeys := (k.values_registered (p := p)).2
  have hsight : (m.modifyPages p fun _ => .empty).sight =
      (m.scene.masked p (m.process p).pages.values).sight := by
    funext q va
    unfold Scene.masked
    dsimp only
    rw [hkeys]
    unfold sight
    rw [entryAt_modifyPages, page?_modifyPages hp]
    by_cases hq : q = p
    · subst hq
      by_cases hva : va ∈ (m.process q).pages.keys
      · rw [if_pos rfl, if_pos ⟨rfl, hva⟩]
        rfl
      · have habsent : m.page? q va = none := by
          cases hpage : m.page? q va with
          | none => rfl
          | some page => exact absurd (AddressMap.mem_keys_iff.mpr ⟨page, hpage⟩) hva
        rw [if_pos rfl, if_neg fun hin => hva hin.2]
        exact (sight_of_absent habsent).symm
    · rw [if_neg hq, if_neg fun hin => hq hin.1]
      rfl
  have hmappings : (fun q => ((m.modifyPages p fun _ => .empty).process q).mappings) =
      fun q => (m.process q).mappings := by
    funext q
    exact process_modifyProcess_of_forall m p q Process.mappings fun _ => rfl
  have haccepts : (fun q => ((m.modifyPages p fun _ => .empty).process q).mmu.accepting.outcome) =
      fun q => (m.process q).mmu.accepting.outcome := by
    funext q
    rw [mmu_modifyPages]
  apply Scene.ext
  · rfl
  · exact hsight
  · exact hmappings
  · rfl
  · exact haccepts
  · rfl

theorem scene_tornDown (m : Machine) (p : Nat) :
    (m.modifyProcess p fun q => { q with mappings := .empty, tornDown := true }).scene =
      m.scene.grouped p .empty := by
  by_cases hp : p < m.processes.length
  · exact scene_modifyProcess hp (fun _ => rfl) fun _ => rfl
  · have habsent := Nat.le_of_not_lt hp
    rw [modifyProcess_absent habsent]
    refine (Scene.grouped_self ?_).symm
    show (m.process p).mappings = .empty
    rw [process_eq_absent habsent]
    rfl

theorem scene_ended (m : Machine) (p : Nat) :
    (m.modifyProcess p fun q => { q with ended := true }).scene = m.scene := by
  by_cases hp : p < m.processes.length
  · have hscene : (m.modifyProcess p fun q => { q with ended := true }).scene =
        m.scene.grouped p (m.process p).mappings :=
      scene_modifyProcess hp (fun _ => rfl) fun _ => rfl
    rw [hscene]
    exact Scene.grouped_self rfl
  · rw [modifyProcess_absent (Nat.le_of_not_lt hp)]

theorem steps_teardown (k : m.Sound {} mem) :
    Ends (teardown p) m Anyhow
      (fun _ next => Scene.Steps (Deed.Clearing p) m.scene next.scene ∧
        next.scene.mappings = fun q => if q = p then .empty else m.scene.mappings q)
      fun _ _ => False := by
  have hreleased : Ends (releasePages p (m.process p).pages.values)
      (m.modifyPages p fun _ => .empty) Anyhow
      (fun _ next => Scene.Steps (Deed.Dropping p fun _ => True) m.scene next.scene ∧
        next.scene.mappings = m.scene.mappings)
      fun _ _ => False := by
    have hregistered := k.values_registered (p := p)
    have kempty := k.unregisterEach (p := p)
    by_cases hp : p < m.processes.length
    · refine steps_releasePages kempty ?_ ?_ ?_ (k.scene_emptied hp) ?_
      · rw [modifyPages, length_modifyProcess]
        exact hp
      · intro page hpage
        exact k.placed p page.va page (hregistered.1 page hpage)
      · rw [hregistered.2]
        exact (m.process p).pages.keys_nodup
      · intro page hpage
        have hpage := hregistered.1 page hpage
        refine ⟨m.entryAt p page.va, sight_of_page? hpage, ?_⟩
        intro hnone
        exact k.sight_idle hpage (Option.map_eq_none_iff.mpr hnone)
    · have habsent := Nat.le_of_not_lt hp
      rw [modifyPages, modifyProcess_absent habsent, process_eq_absent habsent]
      exact ⟨.refl _, rfl⟩
  unfold teardown
  simp only [ends_bind, ends_get, ends_modify]
  refine hreleased.mono ?_ fun _ _ hfalse => hfalse
  intro _ next hnext
  rcases hnext with ⟨hsteps, hmappings⟩
  have hgrouped : ∀ {last : Machine}, last.scene = next.scene.grouped p .empty →
      Scene.Steps (Deed.Clearing p) m.scene last.scene ∧
        last.scene.mappings = fun q => if q = p then .empty else m.scene.mappings q := by
    intro last hlast
    rw [hlast, ← hmappings]
    refine ⟨(hsteps.mono fun _ hdeed => Or.inl hdeed).trans (.single
      (.regroup p (next.process p).mappings.keys) (Or.inr ⟨_, rfl⟩) (.regroup _ ?_)), rfl⟩
    intro base hbase
    cases hget : (next.scene.mappings p).get? base with
    | none => rfl
    | some mapping => exact absurd (AddressMap.mem_keys_iff.mpr ⟨mapping, hget⟩) hbase
  rw [ends_when]
  split
  · rw [ends_report]
    exact hgrouped ((scene_recorded rfl).trans (scene_tornDown next p))
  · exact hgrouped (scene_tornDown next p)

theorem steps_endProcess (k : m.Sound {} mem) :
    Ends (endProcess p) m Anyhow
      (fun _ next => Scene.Steps (Deed.Clearing p) m.scene next.scene ∧
        next.scene.mappings = fun q => if q = p then .empty else m.scene.mappings q)
      fun _ _ => False := by
  unfold endProcess
  rw [ends_bind]
  refine (steps_teardown k).mono ?_ fun _ _ hfalse => hfalse
  intro _ next hnext
  rw [ends_modify, scene_ended]
  exact hnext

theorem sight_withProcess (m : Machine) (accepting : Schedule Bool) :
    (m.withProcess accepting).sight = m.sight := by
  funext q va
  have hentry : (m.withProcess accepting).entryAt q va = m.entryAt q va :=
    process_withProcess_of_forall m accepting q (fun process => process.mmu.entryAt va) rfl
  unfold sight
  rw [hentry, page?_withProcess]
  rfl

theorem steps_startProcess {accepting : Schedule Bool} :
    Ends (startProcess accepting) m Anyhow
      (fun number next => number = m.processes.length ∧
        next.scene.mappings = m.scene.mappings ∧
        Scene.Step (.start m.processes.length) m.scene next.scene)
      fun _ _ => False := by
  have hvacant : ∀ va, m.scene.sight m.processes.length va = .blank := by
    intro va
    show m.sight m.processes.length va = .blank
    unfold sight entryAt page?
    rw [process_eq_absent (Nat.le_refl _)]
    rfl
  have hscene : (m.withProcess accepting).scene = { m.scene with
      accepts := fun q => if q = m.processes.length then accepting.outcome
        else m.scene.accepts q } := by
    apply Scene.ext
    · rfl
    · exact sight_withProcess m accepting
    · funext q
      exact process_withProcess_of_forall m accepting q Process.mappings rfl
    · rfl
    · funext q
      show ((m.withProcess accepting).process q).mmu.accepting.outcome = _
      dsimp only
      split
      · rename_i hq
        rw [hq, process_withProcess_self]
        rfl
      · rename_i hq
        rw [process_withProcess_of_ne hq]
        rfl
    · rfl
  refine ⟨rfl, ?_, ?_⟩
  · show (m.withProcess accepting).scene.mappings = m.scene.mappings
    rw [hscene]
  · show Scene.Step _ m.scene (m.withProcess accepting).scene
    rw [hscene]
    exact .start accepting.outcome hvacant

end Machine
end DemandPaging
