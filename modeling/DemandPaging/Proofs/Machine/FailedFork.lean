import DemandPaging.Proofs.Machine.Conservation
import DemandPaging.Proofs.Machine.ForkFidelity
import DemandPaging.Proofs.Machine.Teardown
import DemandPaging.Proofs.Scene.Natures

/-!
# Forks that fail

A fork copies the pages of the source in the order of their addresses and stops at the first page
that it cannot copy. The copies that it made until then are whole. The last one is without content,
unless it was not even registered, because the target had a page at its address. Nothing else has
happened but evictions.
-/

namespace DemandPaging
namespace Machine

open Routine

variable {m mid next : Machine} {mem mem' mem'' : FlatMemory} {p q s t : Nat} {va wa : Vaddr}
  {page : Page} {e : PagingError}

/-! ## Pages that are spared -/

/-- Pages may have lost their frames, but none has gone, and all have the bytes that they had. -/
structure Spares (m : Machine) (mem : FlatMemory) (next : Machine) (mem' : FlatMemory) : Prop where
  layout : next.layout = m.layout
  fares : ∀ q wa page, m.page? q wa = some page →
    (m.scene.sight q wa).Fares (next.scene.sight q wa)
  image : ∀ q wa page, m.page? q wa = some page →
    mem'.image q wa m.layout.pageBytes = mem.image q wa m.layout.pageBytes

theorem Spares.trans (h : m.Spares mem mid mem') (h' : mid.Spares mem' next mem'') :
    m.Spares mem next mem'' where
  layout := h'.layout.trans h.layout
  fares := by
    intro q wa page hpage
    have hfares := h.fares q wa page hpage
    rcases hfares.exists_page (s := m.scene.sight q wa) hpage with ⟨state, frame, hmid, -⟩
    exact hfares.trans (h'.fares q wa _ hmid)
  image := by
    intro q wa page hpage
    rcases (h.fares q wa page hpage).exists_page hpage with ⟨state, frame, hmid, -⟩
    have himage := h'.image q wa _ hmid
    rw [h.layout] at himage
    exact himage.trans (h.image q wa page hpage)

theorem Spares.kept (h : m.Spares mem next mem') (k : m.Sound {} mem) (knext : next.Sound {} mem')
    (hpage : m.page? q wa = some page) :
    ∃ later, next.page? q wa = some later ∧ later.id = page.id ∧
      (page.Backed → m.Matches next page later) ∧ (page.frame = none → later = page) :=
  k.matches_of_fares knext (h.fares q wa page hpage) hpage h.layout (h.image q wa page hpage)

/-! ## The page that is not copied -/

/-- How a fork stops at a page: the target has a page there already, and nothing happens, or the
copy is registered, other pages are evicted, and the copy does not get a frame. -/
inductive StopsAt (m : Machine) (mem : FlatMemory) (s t : Nat) (va : Vaddr) :
    PagingError → Machine → Prop where
  | taken {next : Machine} (occupied : (m.page? t va).isSome = true)
      (scene : next.scene = m.scene) (sound : next.Sound {} mem) :
      StopsAt m mem s t va .alreadyMapped next
  | left {next : Machine} {e : PagingError} {page : Page} {id : Nat}
      (free : m.page? t va = none) (found : m.page? s va = some page)
      (steps : Scene.Steps (Deed.Evicting [.page t va, .page s va])
        (m.scene.see t va ⟨some { page.copyFor t with id := id }, none, none⟩) next.scene)
      (sound : next.Sound {} (mem.store t va (Bytes.filled m.layout.pageBytes 0))) :
      StopsAt m mem s t va e next

theorem ends_register_refused (hopen : (m.process p).tornDown = false)
    (haligned : Word.isAligned page.va m.layout.pageSize = true) :
    Ends (register p page) m Anyhow (fun _ _ => True) fun e next =>
      e = .alreadyMapped ∧ (m.page? p page.va).isSome = true ∧ next = m := by
  unfold register
  simp only [ends_bind, ends_get, ends_require, hopen, haligned, Bool.not_false, if_true, ends_set,
    ends_pure]
  split
  · trivial
  · rename_i htaken
    rw [Bool.not_eq_true', Bool.not_eq_false] at htaken
    exact ⟨trivial, htaken, trivial⟩

theorem stops_copyPage (k : m.Sound { locks := [.page s va] } mem)
    (hpage : m.page? s va = some page) (hopen : (m.process t).tornDown = false) :
    Ends (copyPage s t page) m Anyhow (fun _ _ => True) fun e next =>
      (e = .alreadyMapped ∧ (m.page? t va).isSome = true ∧ next = m) ∨
        m.page? t va = none ∧
          Scene.Steps (Deed.Evicting [.page t va, .page s va])
            (m.scene.see t va ⟨some { page.copyFor t with id := m.nextId }, none, none⟩)
            next.scene ∧
          next.Sound { locks := [.page s va] }
            (mem.store t va (Bytes.filled m.layout.pageBytes 0)) := by
  have hplaced := k.placed s va page hpage
  have haddress := hplaced.address
  subst haddress
  have hzeros : (mem.store t page.va (Bytes.filled m.layout.pageBytes 0)).image t page.va
      m.layout.pageBytes = Bytes.filled m.layout.pageBytes 0 :=
    k.image_store hplaced.aligned (Bytes.length_filled ..)
  have hregister : Ends (register t (page.copyFor t)) m Anyhow _ _ :=
    steps_register (fun _ => k) rfl List.not_mem_nil
  have hrefused : Ends (register t (page.copyFor t)) m Anyhow _ _ :=
    ends_register_refused hopen hplaced.aligned
  unfold copyPage
  rw [ends_bind]
  refine ((ends_registerCopy k hpage).and (hregister.and hrefused)).mono ?_ ?_
  · intro _ registered hend
    rcases hend with ⟨⟨rfl, rfl, hp, hfree, hne, kregistered⟩, ⟨-, -, hscene⟩, -⟩
    have hpage' : (m.withPage t (page.copyFor t)).page? s page.va = some page :=
      (page?_withPage_of_ne hp hne page.va).trans hpage
    have hcopy : (m.withPage t (page.copyFor t)).page? t page.va =
        some { page.copyFor t with id := m.nextId } :=
      page?_withPage_self hp
    refine ((ends_copyContent kregistered hpage' hcopy rfl rfl hzeros List.mem_cons_self ?_ ?_ ?_
      trivial).and (steps_copyContent kregistered hpage' (sight_of_scene hscene) rfl
        List.mem_cons_self ?_ ?_)).mono (fun _ _ _ => trivial) ?_
    · simpa using fun heq => hne heq.symm
    · simp
    · simp
    · simp
    · simp
    · intro _ next hend
      rcases hend with ⟨⟨-, knext⟩, hsteps⟩
      rw [hscene] at hsteps
      exact Or.inr ⟨hfree, hsteps, knext⟩
  · intro _ next hend
    exact Or.inl hend.2.2

theorem stops_copyPages (k : m.Sound {} mem) (hsome : (m.page? s va).isSome = true)
    (hopen : (m.process t).tornDown = false) :
    Ends (copyPages s t [va]) m Anyhow (fun _ _ => True)
      fun e next => m.StopsAt mem s t va e next := by
  rcases Option.isSome_iff_exists.mp hsome with ⟨page, hpage⟩
  have hpage' : (m.locked (.page s va)).page? s va = some page := hpage
  unfold copyPages
  rw [ends_bind]
  apply ends_withLock_of
  rw [ends_bind, ends_get, hpage']
  refine (stops_copyPage (k.locked (.page s va)) hpage' hopen).mono (fun _ _ _ => trivial) ?_
  intro e last hend
  rcases hend with ⟨rfl, hoccupied, rfl⟩ | ⟨hfree, hsteps, klast⟩
  · exact .taken hoccupied rfl ((k.locked (.page s va)).unlocked rfl)
  · exact .left hfree hpage hsteps (klast.unlocked rfl)

theorem StopsAt.spares (h : m.StopsAt mem s t va e next) (k : m.Sound {} mem) :
    ∃ mem', next.Sound {} mem' ∧ m.Spares mem next mem' := by
  cases h with
  | taken occupied scene sound =>
      refine ⟨mem, sound, congrArg Scene.layout scene, ?_, fun _ _ _ _ => rfl⟩
      intro q wa _ _
      exact .of_eq (congrArg (fun v => v.sight q wa) scene)
  | @left _ _ page id free found steps sound =>
      have hother : ∀ q wa other, m.page? q wa = some other → ¬(q = t ∧ wa = va) := by
        rintro q wa other hother ⟨rfl, rfl⟩
        rw [free] at hother
        contradiction
      refine ⟨_, sound, steps.layout_eq, ?_, ?_⟩
      · intro q wa other hat
        have hfares := steps.fares q wa
        rw [Scene.sight_see_of_ne (hother q wa other hat)] at hfares
        exact hfares
      · intro q wa other hat
        exact FlatMemory.image_store_block_of_ne k.powerOfTwo (k.placed s va page found).aligned
          (k.placed q wa other hat).aligned (Bytes.length_filled ..) (hother q wa other hat)

theorem StopsAt.left_hollow (h : m.StopsAt mem s t va e next) :
    (e = .alreadyMapped ∧ (m.page? t va).isSome = true ∧
        ∀ q wa, (next.page? q wa).isSome = (m.page? q wa).isSome) ∨
      m.page? t va = none ∧ (∃ copy, next.page? t va = some copy ∧ copy.frame = none ∧
          copy.slot = none ∧ next.mapped? t va = none) ∧
        ∀ q wa, (next.page? q wa).isSome =
          ((m.page? q wa).isSome || decide (q = t ∧ wa = va)) := by
  cases h with
  | taken occupied scene sound =>
      refine Or.inl ⟨rfl, occupied, ?_⟩
      intro q wa
      exact congrArg (fun v => (v.sight q wa).page.isSome) scene
  | @left _ _ page id free found steps sound =>
      have hsight := steps.sight_locked List.mem_cons_self
      rw [Scene.sight_see_self] at hsight
      have hentry : next.entryAt t va = none := congrArg Sight.entry hsight
      refine Or.inr ⟨free, ⟨_, congrArg Sight.page hsight, rfl,
        PageState.slot_copied page.state, Option.map_eq_none_iff.mp hentry⟩, ?_⟩
      intro q wa
      have hsome := (steps.fares q wa).isSome_page
      by_cases hat : q = t ∧ wa = va
      · rw [hat.1, hat.2, Scene.sight_see_self] at hsome
        rw [hat.1, hat.2, decide_eq_true ⟨rfl, rfl⟩, Bool.or_true]
        exact hsome
      · rw [Scene.sight_see_of_ne hat] at hsome
        rw [decide_eq_false hat, Bool.or_false]
        exact hsome

/-! ## The pages that are copied -/

/-- Copies that fail are whole up to a page, and they fail at that page. -/
theorem copyPages_cut {vas : List Vaddr} {stop : Stop}
    (h : copyPages s t vas m = .error stop next) :
    ∃ full cut after mid, vas = full ++ cut :: after ∧ copyPages s t full m = .ok () mid ∧
      copyPages s t [cut] mid = .error stop next := by
  induction vas generalizing m with
  | nil => cases h
  | cons va rest ih =>
      rw [← List.singleton_append, copyPages_append] at h
      rcases bind_eq_error_iff.mp h with hturn | ⟨_, turned, hturn, hrest⟩
      · exact ⟨[], va, rest, m, rfl, rfl, hturn⟩
      · rcases ih hrest with ⟨full, cut, after, mid, rfl, hfull, hcut⟩
        refine ⟨va :: full, cut, after, mid, rfl, ?_, hcut⟩
        rw [← List.singleton_append, copyPages_append]
        exact bind_eq_ok_iff.mpr ⟨_, turned, hturn, hfull⟩

theorem copyPages_of_fork_failed (hopen : (m.process t).tornDown = false)
    (h : fork s t m = .error (.failed e) next) :
    copyPages s t (m.process s).pages.keys m = .error (.failed e) next := by
  have hself : Ends (copyPages s t (m.process s).pages.keys) m Anyhow (fun _ _ => True)
      fun e next => copyPages s t (m.process s).pages.keys m = .error (.failed e) next := by
    unfold Ends
    rcases copyPages s t (m.process s).pages.keys m with ⟨_, last⟩ | ⟨⟨e⟩ | ⟨a⟩, last⟩
    · trivial
    · rfl
    · trivial
  have hends : Ends (fork s t) m Anyhow (fun _ _ => True)
      fun e next => copyPages s t (m.process s).pages.keys m = .error (.failed e) next := by
    unfold fork
    rw [ends_bind, ends_get, ends_bind, ends_require, hopen, Bool.not_false, if_pos rfl, ends_bind]
    exact hself.mono (fun _ _ _ => trivial) fun _ _ hstop => hstop
  exact hends.of_failed h

/-- What a fork has added to the target, when it has copied the pages `full` and fails at the page
`cut`. That page has no copy, since the target had a page there, or its copy is of its kind, but it
has no frame, no slot and no mapping. No other page is new. -/
def Remains (m : Machine) (s t : Nat) (full : List Vaddr) (cut : Vaddr) (e : PagingError)
    (next : Machine) : Prop :=
  (e = .alreadyMapped ∧ (m.page? t cut).isSome = true ∧
      ∀ q va, (next.page? q va).isSome =
        ((m.page? q va).isSome || decide (q = t ∧ va ∈ full))) ∨
    (m.page? t cut = none ∧
      (∃ page copy, m.page? s cut = some page ∧ next.page? t cut = some copy ∧
        copy.outline = { page.outline with id := copy.id, mmu := t } ∧
        copy.frame = none ∧ copy.slot = none ∧ next.mapped? t cut = none) ∧
      ∀ q va, (next.page? q va).isSome =
        ((m.page? q va).isSome || decide (q = t ∧ va ∈ full ++ [cut])))

/-- Where a fork that failed had got to: it had copied the pages `full`, which led to the machine
`mid`, and there it stopped at the page `cut`. -/
structure CutAt (m : Machine) (mem : FlatMemory) (s t : Nat) (full : List Vaddr) (cut : Vaddr)
    (mid : Machine) (e : PagingError) (next : Machine) : Prop where
  first : copyPages s t full m = .ok () mid
  second : copyPages s t [cut] mid = .error (.failed e) next
  registered : ∀ va ∈ full, (m.page? s va).isSome = true
  distinct : full.Nodup
  new : cut ∉ full
  copied : Copied s t m mid
  free : ∀ va ∈ full, m.page? t va = none
  sound : mid.Sound {} (mem.copy s t fun a => decide (m.pageBase a ∈ full))
  turns : Scene.Turns s t m.scene full mid.scene
  stops : mid.StopsAt (mem.copy s t fun a => decide (m.pageBase a ∈ full)) s t cut e next

theorem Sound.cutAt (k : m.Sound {} mem) (hopen : (m.process t).tornDown = false)
    (hfork : fork s t m = .error (.failed e) next) :
    ∃ full cut after mid, (m.process s).pages.keys = full ++ cut :: after ∧
      m.CutAt mem s t full cut mid e next := by
  have hregistered : ∀ wa ∈ (m.process s).pages.keys, (m.page? s wa).isSome = true :=
    fun _ => mem_keys_iff_isSome.mp
  have hdistinct := (m.process s).pages.keys_nodup
  rcases copyPages_cut (copyPages_of_fork_failed hopen hfork) with
    ⟨full, cut, after, mid, hkeys, hmid, hcut⟩
  rw [hkeys] at hregistered hdistinct
  rcases List.nodup_append.mp hdistinct with ⟨hfull, -, hapart⟩
  have hregisteredFull : ∀ wa ∈ full, (m.page? s wa).isSome = true :=
    fun wa hwa => hregistered wa (List.mem_append_left _ hwa)
  have hends : Ends (copyPages s t full) m Anyhow _ _ :=
    (ends_copyPages k hregisteredFull trivial).and (steps_copyPages k hregisteredFull)
  rcases hends.of_ok hmid with ⟨⟨hcopied, hfree, kmid⟩, hturns⟩
  -- The target is still open: it was open at the start, and later it has a copy.
  have hopenMid : (mid.process t).tornDown = false := by
    cases full with
    | nil =>
        cases hmid
        exact hopen
    | cons va rest =>
        rcases hturns.exists_copy hfull List.mem_cons_self with ⟨copy, hcopy, -⟩
        exact kmid.isOpen hcopy
  have hsource : (mid.page? s cut).isSome = true :=
    hcopied.isSome_of_isSome (hregistered cut (List.mem_append_right _ List.mem_cons_self))
  have hstops : Ends (copyPages s t [cut]) mid Anyhow _ _ := stops_copyPages kmid hsource hopenMid
  exact ⟨full, cut, after, mid, hkeys, hmid, hcut, hregisteredFull, hfull,
    fun hin => hapart cut hin cut List.mem_cons_self rfl, hcopied, hfree, kmid, hturns,
    hstops.of_failed hcut⟩

namespace CutAt

variable {full : List Vaddr} {cut : Vaddr}

theorem isSome_mid (h : m.CutAt mem s t full cut mid e next) (q : Nat) (wa : Vaddr) :
    (mid.page? q wa).isSome = ((m.page? q wa).isSome || decide (q = t ∧ wa ∈ full)) :=
  h.turns.isSome_page h.distinct q wa

theorem spares (h : m.CutAt mem s t full cut mid e next) (k : m.Sound {} mem) :
    m.Spares mem mid (mem.copy s t fun a => decide (m.pageBase a ∈ full)) := by
  have hother : ∀ q wa page, m.page? q wa = some page → ¬(q = t ∧ wa ∈ full) := by
    rintro q wa page hpage ⟨rfl, hin⟩
    rw [h.free wa hin] at hpage
    contradiction
  refine ⟨h.copied.alike.layout, fun q wa page hpage => h.turns.fares (hother q wa page hpage), ?_⟩
  intro q wa page hpage
  by_cases hq : q = t
  · refine FlatMemory.image_copy_of_not_chosen fun i hi => decide_eq_false ?_
    have hbase : m.pageBase (wa + UInt64.ofNat i) = wa :=
      Word.alignDown_add_ofNat k.powerOfTwo (k.placed q wa page hpage).aligned hi
    rw [hbase]
    exact fun hin => hother q wa page hpage ⟨hq, hin⟩
  · exact FlatMemory.image_copy_of_ne hq

/-- A copy is like its page, also after the fork has failed. -/
theorem exists_copy (h : m.CutAt mem s t full cut mid e next) (k : m.Sound {} mem)
    (knext : next.Sound {} mem')
    (hspares : mid.Spares (mem.copy s t fun a => decide (m.pageBase a ∈ full)) next mem')
    (hcopied : Copied s t m next) (hva : va ∈ full) (hpage : m.page? s va = some page) :
    ∃ copy, next.page? t va = some copy ∧ (page.Backed → m.Matches next page copy) ∧
      (page.frame = none → page.slot = none → copy = { page.copyFor t with id := copy.id }) := by
  rcases h.turns.exists_copy h.distinct hva with ⟨earlier, hearlier, hbackedEarlier⟩
  have hfares := hspares.fares t va earlier hearlier
  have himage := hspares.image t va earlier hearlier
  rw [h.copied.alike.layout] at himage
  have hsome : (next.page? t va).isSome = true := by
    refine hfares.isSome_page.trans ?_
    rw [hearlier]
    rfl
  rcases Option.isSome_iff_exists.mp hsome with ⟨copy, hcopy⟩
  refine ⟨copy, hcopy, ?_, ?_⟩
  · intro hbacked
    refine k.matches_of_copy knext hcopied hpage hbacked (h.free va hva) hcopy
      (hfares.backed ?_ _ hcopy) (himage.trans (k.image_of_chosen hpage ?_))
    · intro other hother
      cases hearlier.symm.trans hother
      refine hbackedEarlier ?_
      intro source hsource
      cases hpage.symm.trans hsource
      exact hbacked
    · rintro a rfl
      exact decide_eq_true hva
  · intro hframe hslot
    have hstart : m.scene.sight s va = ⟨some page, m.entryAt s va, none⟩ :=
      sight_of_frameless hpage hframe
    rcases h.turns.sight_of_idle h.distinct hva hstart hframe hslot with ⟨id, hsight⟩
    have hstill := (hfares.eq_of_idle (congrArg Sight.content hsight)).trans hsight
    cases hcopy.symm.trans (congrArg Sight.page hstill)
    rfl

theorem remains (h : m.CutAt mem s t full cut mid e next) (hcopied : Copied s t m next) :
    m.Remains s t full cut e next := by
  rcases h.stops.left_hollow with ⟨rfl, hoccupied, hsome⟩ | ⟨hvacant, hhollow, hsome⟩
  · left
    refine ⟨rfl, ?_, fun q va => (hsome q va).trans (h.isSome_mid q va)⟩
    rw [h.isSome_mid, decide_eq_false fun hin => h.new hin.2, Bool.or_false] at hoccupied
    exact hoccupied
  · right
    have hvacant' := h.copied.none_of_none hvacant
    rcases hhollow with ⟨copy, hcopy, hframe, hslot, hmapped⟩
    rcases hcopied.copies cut copy hvacant' hcopy with ⟨page, hpage, houtline⟩
    refine ⟨hvacant', ⟨page, copy, hpage, hcopy, houtline, hframe, hslot, hmapped⟩, ?_⟩
    intro q va
    rw [hsome, h.isSome_mid, Bool.or_assoc, ← Bool.decide_or]
    congr 2
    rw [List.mem_append, List.mem_singleton, and_or_left]

end CutAt

/-! ## What is left of a fork -/

/-- A fork failed at the page `cut` of the source. It had copied all pages before that one, which
are the pages `full`, and none of the pages `after` it. -/
structure ForkedUpTo (m : Machine) (s t : Nat) (full : List Vaddr) (cut : Vaddr)
    (after : List Vaddr) (e : PagingError) (next : Machine) : Prop where
  keys : (m.process s).pages.keys = full ++ cut :: after
  ascending : (full ++ cut :: after).Pairwise (· < ·)
  /-- All file mappings are as they were. -/
  mappings : ∀ q, (next.process q).mappings = (m.process q).mappings
  /-- All pages are still there. An anonymous page without a frame or a slot, which only a fork
  that failed leaves behind, has no bytes to compare, but it is the same, like any other page
  without a frame. -/
  kept : ∀ q va page, m.page? q va = some page →
    ∃ later, next.page? q va = some later ∧ later.id = page.id ∧
      (page.Backed → m.Matches next page later) ∧ (page.frame = none → later = page)
  free : ∀ va ∈ full, m.page? t va = none
  /-- The copies are like the pages. -/
  copied : ∀ va ∈ full, ∃ page copy, m.page? s va = some page ∧ next.page? t va = some copy ∧
    (page.Backed → m.Matches next page copy) ∧
    (page.frame = none → page.slot = none → copy = { page.copyFor t with id := copy.id })
  /-- The copy of a page of a file comes out of its turn with the bytes and the dirty bit that the
  page has then, or without a frame if the page has none, and then it stays without one. -/
  turned : ∀ before va rest, full = before ++ va :: rest →
    ∃ prior later mid, copyPages s t before m = .ok () prior ∧
      copyPages s t [va] prior = .ok () later ∧ copyPages s t rest later = .ok () mid ∧
      copyPages s t [cut] mid = .error (.failed e) next ∧
      ∃ page, prior.page? s va = some page ∧ ∀ x, page.state = .file x →
        ∃ copy, prior.Turned later s t va page copy ∧
          (page.frame = none → next.page? t va = some copy)
  remains : m.Remains s t full cut e next

theorem Sound.forkedUpTo (k : m.Sound {} mem) (hopen : (m.process t).tornDown = false)
    (hfork : fork s t m = .error (.failed e) next) :
    (∃ mem', next.Sound {} mem') ∧ ∃ full cut after, m.ForkedUpTo s t full cut after e next := by
  have hbroken : Ends (fork s t) m Anyhow _ _ := (ends_fork k trivial).and (steps_fork k)
  rcases hbroken.of_failed hfork with ⟨⟨hcopied, -⟩, hbroken⟩
  rcases k.cutAt hopen hfork with ⟨full, cut, after, mid, hkeys, h⟩
  rcases h.stops.spares h.sound with ⟨mem', knext, hspares⟩
  refine ⟨⟨mem', knext⟩, full, cut, after, hkeys, ?_, ?_, ?_, h.free, ?_, ?_, h.remains hcopied⟩
  · rw [← hkeys]
    exact (m.process s).pages.keys_ascending
  · exact congrFun hbroken.steps.mappings_eq_of_copying
  · intro q va page hpage
    exact ((h.spares k).trans hspares).kept k knext hpage
  · intro va hva
    rcases Option.isSome_iff_exists.mp (h.registered va hva) with ⟨page, hpage⟩
    rcases h.exists_copy k knext hspares hcopied hva hpage with ⟨copy, hcopy⟩
    exact ⟨page, copy, hpage, hcopy⟩
  · rintro before va rest rfl
    rcases k.turns_of_copied h.registered h.distinct h.first with
      ⟨prior, later, hprior, hlater, hrest, page, hpage, hturned⟩
    refine ⟨prior, later, mid, hprior, hlater, hrest, h.second, page, hpage, ?_⟩
    intro x hfile
    rcases hturned x hfile with ⟨copy, hturn, hidle⟩
    refine ⟨copy, hturn, ?_⟩
    intro hframe
    rcases hspares.kept h.sound knext (hidle hframe) with ⟨last, hlast, -, -, hsame⟩
    rw [hlast, hsame (hturn.idle hframe)]

/-- A fork that fails leaves a clean prefix behind: the pages of the source before one of them are
copied, that one has at most a copy without content, and all that was there before has stayed. No
frame is lost or pinned, and the page table of the target still gives back what it has. Only
earlier forks that failed leave anonymous pages behind that have neither a frame nor a slot. -/
theorem failed_fork_leaves_prefix {config : Config} {hardware : Hardware} {start : Machine}
    {ops : List Operation} (hboot : boot config hardware = .ok start)
    (hrun : start.run ops = some m) (hopen : (m.process t).tornDown = false)
    (hfork : (Operation.fork s t).perform m = .error (.failed e) next) :
    (∀ p, (Ledger.blank.along start ops).void p = false →
        ∀ va page, m.page? p va = some page → page.Backed) ∧
      (∃ full cut after, m.ForkedUpTo s t full cut after e next) ∧ next.Conserved ∧
      ∃ last, (Operation.teardown t).perform next = .ok .done last ∧ next.Dissolves t last ∧
        last.Conserved := by
  rcases backed_of_run hboot hrun with ⟨⟨mem, k⟩, hbacked⟩
  have hfailed : fork s t m = .error (.failed e) next := by
    rcases bind_eq_error_iff.mp hfork with hfailed | ⟨_, served, -, hlast⟩
    · exact hfailed
    · contradiction
  rcases k.forkedUpTo hopen hfailed with ⟨⟨mem', knext⟩, hforked⟩
  refine ⟨hbacked, hforked, knext.conserved, ?_⟩
  have hcount : t < next.processes.length := by
    have hkeeps : Ends (fork s t) m Anyhow _ _ := quiet_fork s t m
    rw [(hkeeps.of_failed hfailed).count]
    exact lt_of_tornDown_eq_false hopen
  have hdissolves : Ends (Operation.teardown t).perform next _ _ _ :=
    dissolves_perform knext hcount (Or.inl rfl)
  rcases hdissolves.exists_result with ⟨reply, last, hlast, rfl, hdissolved⟩
  rcases knext.after? (after?_eq_some_iff.mpr (Or.inl ⟨_, hlast⟩)) with ⟨mem'', klast⟩
  exact ⟨last, hlast, hdissolved, klast.conserved⟩

def rationedProcess : List Operation :=
  [.start (.always true), .start (.budget 1), .allocate 0 .anon 0x1000 true none, .claim 0 0x1000,
    .write 0 0x1000 [5], .allocate 0 .anon 0x2000 true none, .claim 0 0x2000,
    .write 0 0x2000 [7], .allocate 0 .anon 0x3000 true none, .claim 0 0x3000]

/-- The first page is copied from its slot, the copy of the second is not mapped, and both copies
cost the source a frame. -/
theorem fork_of_rationed_process : ∃ (start m next : Machine),
    boot smallConfig (smallHardware (some (.blank 8 8)) []) = .ok start ∧
    start.run rationedProcess = some m ∧ (m.process 1).tornDown = false ∧
    (Operation.fork 0 1).perform m = .error (.failed .mappingFailed) next ∧
    (Ledger.blank.along start rationedProcess).void 0 = false ∧
    (next.process 1).pages.keys = [0x1000, 0x2000] ∧
    m.ring.evictions = 1 ∧ next.ring.evictions = 3 ∧
    (∃ full cut after, m.ForkedUpTo 0 1 full cut after .mappingFailed next) ∧ next.Conserved ∧
    ∃ last, (Operation.teardown 1).perform next = .ok .done last ∧ next.Dissolves 1 last := by
  rcases exists_run smallConfig (smallHardware (some (.blank 8 8)) []) rationedProcess
    (fun start m => !(m.process 1).tornDown && !(Ledger.blank.along start rationedProcess).void 0 &&
      decide (m.ring.evictions = 1) &&
      m.fails (.fork 0 1) fun e next => decide (e = .mappingFailed) &&
        decide ((next.process 1).pages.keys = [0x1000, 0x2000]) &&
        decide (next.ring.evictions = 3)) (by decide +kernel) with ⟨start, m, hboot, hrun, hcheck⟩
  simp only [Bool.and_eq_true, Bool.not_eq_true', decide_eq_true_eq] at hcheck
  rcases hcheck with ⟨⟨⟨hopen, hvoid⟩, hbefore⟩, hfails⟩
  rcases exists_of_fails hfails with ⟨e, next, hfork, hcheck⟩
  simp only [Bool.and_eq_true, decide_eq_true_eq] at hcheck
  rcases hcheck with ⟨⟨rfl, hkeys⟩, hafter⟩
  rcases failed_fork_leaves_prefix hboot hrun hopen hfork with
    ⟨-, hforked, hconserved, last, hlast, hdissolves, -⟩
  exact ⟨start, m, next, hboot, hrun, hopen, hfork, hvoid, hkeys, hbefore, hafter, hforked,
    hconserved, last, hlast, hdissolves⟩

end Machine
end DemandPaging
