import DemandPaging.Proofs.Machine.Sound

/-!
# Moves between the parts of the machine

Each step in which a frame, a slot, a mapping or a page changes hands keeps the machine sound, with
what is in hand changed accordingly. An operation is a chain of such steps.
-/

namespace DemandPaging
namespace Machine
namespace Sound

variable {m : Machine} {h : InHand} {mem : FlatMemory} {p f s : Nat} {va : Vaddr} {page : Page}

/-! ## Frames and the pool -/

theorem setContent (k : m.Sound h mem) {content : Bytes}
    (hlength : f < m.pool.frames.length → content.length = m.layout.pageBytes)
    (hfree : ∀ q wa other, m.page? q wa = some other → other.frame = some f → f ∈ h.filling) :
    Sound { m with pool := m.pool.setContent f content } h mem :=
  { k with
    frameBytes := FramePool.forall_length_setContent k.frameBytes hlength
    frames := by
      show FramesKept _ _ _ _ _ _ (m.pool.setContent f content).frames.length
      rw [FramePool.length_frames_setContent]
      exact k.frames
    contents := by
      intro q wa other hother
      have hholds := k.contents q wa other hother
      refine ⟨hholds.inSlot, ?_, hholds.blank⟩
      intro g hstate hframe
      by_cases hg : g = f
      · subst hg
        exact Or.inl (hfree q wa other hother hframe)
      · exact (hholds.inFrame g hstate hframe).imp_right fun heq =>
          (FramePool.content_setContent hg).trans heq }

theorem writeFrame (k : m.Sound h mem) (start : Nat) (data : Bytes)
    (hf : f < m.pool.frames.length) (hfilling : f ∈ h.filling) :
    Sound { m with pool := m.pool.write f start data } h mem := by
  refine k.setContent ?_ fun _ _ _ _ _ => hfilling
  intro _
  rw [Bytes.length_overlay]
  exact k.length_content hf

theorem take (k : m.Sound h mem) {rest : List Nat} {content : Bytes} {granting : Schedule Bool}
    {given : Nat} (hfree : m.pool.free = f :: rest) (hlength : content.length = m.pool.pageBytes) :
    Sound { m with pool := { m.pool.setContent f content with
      granting := granting, free := rest, given := given } }
      { h with loose := f :: h.loose } mem := by
  have hframes : FramesKept m.page? m.ring.entries (f :: rest) h.loose h.stray h.filling
      m.pool.frames.length := hfree ▸ k.frames
  have hset : Sound { m with pool := m.pool.setContent f content } h mem := by
    refine k.setContent (fun _ => hlength.trans k.pool) ?_
    intro q wa other hother hframe
    have hmem : f ∈ (f :: rest) ++ h.loose := List.mem_cons_self
    exact absurd (hframes.held_listed hother hframe)
      (List.disjoint_of_nodup_append hframes.nodup hmem)
  exact { hset with
    frames := by
      show FramesKept _ _ _ _ _ _ (m.pool.setContent f content).frames.length
      rw [FramePool.length_frames_setContent]
      exact hframes.take }

theorem refuseFrame (k : m.Sound h mem) {granting : Schedule Bool} :
    Sound { m with pool := { m.pool with granting := granting } } h mem :=
  { k with }

theorem giveBack {loose : List Nat} (k : m.Sound h mem) (hloose : h.loose = f :: loose) :
    Sound { m with pool := { m.pool with free := f :: m.pool.free } }
      { h with loose := loose } mem :=
  { k with
    frames := by
      have hframes := k.frames
      rw [hloose] at hframes
      exact hframes.giveBack }

/-! ## Frames and the ring -/

theorem push {loose : List Nat} (k : m.Sound h mem) (hloose : h.loose = f :: loose) (o : Owner) :
    Sound { m with ring := m.ring.push ⟨f, o, true⟩ }
      { h with loose := loose, stray := f :: h.stray, filling := f :: h.filling } mem :=
  { k with
    placed := fun q wa other hother =>
      (k.placed q wa other hother).mono fun _ _ hg => List.mem_cons_of_mem f hg
    frames := by
      have hframes := k.frames
      rw [hloose] at hframes
      exact hframes.push o
    links := k.links.excuse (fun _ hg => List.mem_cons_of_mem f hg) fun _ hg => hg
    contents := fun q wa other hother =>
      (k.contents q wa other hother).mono fun _ _ hg => List.mem_cons_of_mem f hg }

theorem removeAt {stray filling : List Nat} {place : Nat} {e : RingEntry}
    (k : m.Sound h mem) (hstray : h.stray = f :: stray)
    (hplace : m.ring.entries[place]? = some e) (hf : e.frame = f)
    (hfilling : ∀ g ∈ h.filling, g = f ∨ g ∈ filling) :
    Sound { m with ring := m.ring.removeAt place }
      { h with loose := f :: h.loose, stray := stray, filling := filling } mem := by
  have hmem : f ∈ h.stray := hstray ▸ List.mem_cons_self
  have hheld : ∀ q wa other g, m.page? q wa = some other → other.frame = some g →
      g ∈ h.filling → g ∈ filling := by
    intro q wa other g hother hframe hg
    refine (hfilling g hg).resolve_left ?_
    intro heq
    subst heq
    exact k.not_stray hother hframe hmem
  exact { k with
    placed := fun q wa other hother =>
      (k.placed q wa other hother).mono fun g => hheld q wa other g hother
    frames := by
      have hframes := k.frames
      rw [hstray] at hframes
      exact hframes.removeAt hplace hf hfilling
    links := by
      refine k.links.settle (f := f) ?_ ?_
      · intro g hg
        rcases hg with hg | hg
        · exact (hfilling g hg).imp_right Or.inl
        · exact Or.inr (Or.inr hg)
      · intro q wa other hother hframe
        exact absurd hmem (k.not_stray hother hframe)
    contents := fun q wa other hother =>
      (k.contents q wa other hother).mono fun g => hheld q wa other g hother }

theorem unpin {filling : List Nat} (k : m.Sound h mem) (hpage : m.page? p va = some page)
    (hframe : page.frame = some f)
    (hloaded : page.state = .anon none ∨ ∃ x, page.state = .file x)
    (hcontent : page.state = .anon none →
      m.pool.content f = mem.image p va m.layout.pageBytes)
    (hlinked : (m.link? p va).isSome = true ∨ m.HasRefused p)
    (hfilling : ∀ g ∈ h.filling, g = f ∨ g ∈ filling) :
    Sound { m with ring := m.ring.unpin f } { h with filling := filling } mem := by
  have hholder : ∀ q wa other, m.page? q wa = some other → other.frame = some f →
      q = p ∧ wa = va :=
    fun q wa other hother hframe' => k.frames.holder_unique hpage hframe hother hframe'
  exact { k with
    placed := by
      intro q wa other hother
      have hplaced := k.placed q wa other hother
      refine { hplaced with loaded := ?_ }
      intro g hg
      by_cases hgf : g = f
      · subst hgf
        rcases hholder q wa other hother hg with ⟨rfl, rfl⟩
        cases hpage.symm.trans hother
        exact Or.inr hloaded
      · exact (hplaced.loaded g hg).imp_left fun hmem => (hfilling g hmem).resolve_left hgf
    frames := k.frames.unpin hfilling
    links := by
      refine k.links.settle (f := f) ?_ ?_
      · intro g hg
        rcases hg with hg | hg
        · exact (hfilling g hg).imp_right Or.inl
        · exact Or.inr (Or.inr hg)
      · intro q wa other hother hframe'
        rcases hholder q wa other hother hframe' with ⟨rfl, rfl⟩
        exact hlinked
    contents := by
      intro q wa other hother
      have hholds := k.contents q wa other hother
      refine { hholds with inFrame := ?_ }
      intro g hstate hg
      by_cases hgf : g = f
      · subst hgf
        rcases hholder q wa other hother hg with ⟨rfl, rfl⟩
        cases hpage.symm.trans hother
        exact Or.inr (hcontent hstate)
      · exact (hholds.inFrame g hstate hg).imp_left fun hmem =>
          (hfilling g hmem).resolve_left hgf }

/-! ## Slots and the area -/

theorem allocateSlot (k : m.Sound h mem) {slots : Swap.Bitmap}
    (hfree : m.swap.slots.isUsed s = false) (hform : slots.WellFormed)
    (htotal : slots.total = m.swap.slots.total)
    (hused : ∀ t, slots.isUsed t = (decide (t = s) || m.swap.slots.isUsed t)) :
    Sound { m with swap := { m.swap with slots := slots } } { h with slots := s :: h.slots } mem :=
  { k with
    swap := k.swap.withSlots hform htotal
    slots := k.slots.allocate hfree hused }

theorem releaseSlot {rest : List Nat} {slots : Swap.Bitmap} (k : m.Sound h mem)
    (hrest : h.slots = s :: rest) (hform : slots.WellFormed)
    (htotal : slots.total = m.swap.slots.total)
    (hused : ∀ t, slots.isUsed t = (!decide (t = s) && m.swap.slots.isUsed t)) :
    Sound { m with swap := { m.swap with slots := slots } } { h with slots := rest } mem :=
  { k with
    swap := k.swap.withSlots hform htotal
    slots := by
      have hslots := k.slots
      rw [hrest] at hslots
      exact hslots.release hused }

theorem withDisk (k : m.Sound h mem) {disk : Swap.Disk}
    (hfits : Swap.Area.Fits { m.swap with disk := some disk } m.layout.pageBytes)
    (hother : ∀ t, t ∉ h.slots →
      Swap.Area.slotContent { m.swap with disk := some disk } t = m.swap.slotContent t) :
    Sound { m with swap := { m.swap with disk := some disk } } h mem :=
  { k with
    swap := hfits
    contents := by
      intro q wa other hpage
      have hholds := k.contents q wa other hpage
      refine { hholds with inSlot := ?_ }
      intro t hstate
      have happart : t ∉ h.slots := by
        refine k.slots.apart q wa other t hpage ?_
        rw [Page.slot, hstate]
        rfl
      exact (hother t happart).trans (hholds.inSlot t hstate) }

/-! ## Mappings -/

theorem modifyUnit (k : m.Sound h mem) {unit : Mmu} {x : Option (Nat × Bool)}
    {unlinked : List (Nat × Vaddr)} (hp : p < m.processes.length)
    (hsize : unit.pageSize = (m.process p).mmu.pageSize)
    (hrefusing : unit.refusing = (m.process p).mmu.refusing)
    (hlink : ∀ wa, unit.link? wa = if wa = va then x else m.link? p wa)
    (hrefused : m.HasRefused p → unit.HasRefused)
    (hlinks : LinksKept m.page? (setAt m.link? p va x) unlinked h.filling h.parting
      m.HasRefused) :
    (m.modifyMmu p fun _ => unit).Sound { h with unlinked := unlinked } mem where
  held := k.held
  pool := k.pool
  frameBytes := k.frameBytes
  swap := k.swap
  units := by
    intro q hq
    have hq' : q < m.processes.length := by
      rw [modifyMmu, length_modifyProcess] at hq
      exact hq
    rcases k.units q hq' with ⟨hunit, hwilling⟩
    rw [mmu_modifyMmu hp]
    split
    · rename_i heq
      subst heq
      exact ⟨hsize.trans hunit, hrefusing.trans hwilling⟩
    · exact ⟨hunit, hwilling⟩
  torn := by
    intro q
    have hended := process_modifyProcess_of_forall m p q
      (f := fun process => { process with mmu := unit }) Process.ended fun _ => rfl
    have htorn := process_modifyProcess_of_forall m p q
      (f := fun process => { process with mmu := unit }) Process.tornDown fun _ => rfl
    rw [modifyMmu, hended, htorn]
    exact k.torn q
  closed := by
    intro q
    have htorn := process_modifyProcess_of_forall m p q
      (f := fun process => { process with mmu := unit }) Process.tornDown fun _ => rfl
    rw [page?_modifyMmu_eq, modifyMmu, htorn]
    exact k.closed q
  placed := by
    rw [page?_modifyMmu_eq]
    exact k.placed
  frames := by
    rw [page?_modifyMmu_eq]
    exact k.frames
  slots := by
    rw [page?_modifyMmu_eq]
    exact k.slots
  links := by
    rw [page?_modifyMmu_eq, link?_modifyMmu_eq hp hlink]
    exact hlinks.mono (hasRefused_modifyMmu hp hrefused)
  contents := by
    rw [page?_modifyMmu_eq]
    exact k.contents

theorem link (k : m.Sound h mem) (hpage : m.page? p va = some page)
    (hframe : page.frame = some f) :
    (m.modifyMmu p fun _ => (m.process p).mmu.linked va f page.writable).Sound h mem :=
  k.modifyUnit (lt_of_page?_eq_some hpage) rfl rfl (fun _ => Mmu.link?_linked)
    Mmu.hasRefused_linked (k.links.link hpage hframe)

theorem keepLinks (k : m.Sound h mem) {unit : Mmu} (hp : p < m.processes.length)
    (hsize : unit.pageSize = (m.process p).mmu.pageSize)
    (hrefusing : unit.refusing = (m.process p).mmu.refusing)
    (hlink : ∀ wa, unit.link? wa = m.link? p wa) (hrefused : m.HasRefused p → unit.HasRefused) :
    (m.modifyMmu p fun _ => unit).Sound h mem := by
  have hsame : setAt m.link? p 0 (m.link? p 0) = m.link? := by
    funext q wa
    unfold setAt
    split
    · rename_i hat
      rw [hat.1, hat.2]
    · rfl
  have hlinks : LinksKept m.page? (setAt m.link? p 0 (m.link? p 0)) h.unlinked h.filling
      h.parting m.HasRefused := hsame.symm ▸ k.links
  refine k.modifyUnit hp hsize hrefusing ?_ hrefused hlinks
  intro wa
  rw [hlink]
  split
  · rename_i hwa
    rw [hwa]
  · rfl

theorem decline (k : m.Sound h mem) (hp : p < m.processes.length) :
    (m.modifyMmu p fun _ => (m.process p).mmu.declined).Sound h mem :=
  k.keepLinks hp rfl rfl (fun _ => rfl) Mmu.hasRefused_declined_of_hasRefused

theorem unlink (k : m.Sound h mem) {unlinked : List (Nat × Vaddr)}
    (hp : p < m.processes.length)
    (hpage : ∀ page g, m.page? p va = some page → page.frame = some g →
      g ∈ h.filling ∨ g ∈ h.parting)
    (hunlinked : ∀ x ∈ h.unlinked, x ≠ (p, va) → x ∈ unlinked) :
    (m.unmapped p va).Sound { h with unlinked := unlinked } mem :=
  k.modifyUnit hp rfl rfl (fun _ => Mmu.link?_unmap) id (k.links.unlink hpage hunlinked)

/-- A page may be unmapped while its content is saved. -/
theorem park (k : m.Sound h mem) (f : Nat) :
    m.Sound { h with parting := f :: h.parting } mem :=
  { k with links := k.links.excuse (fun _ hg => hg) fun _ hg => List.mem_cons_of_mem f hg }

theorem unpark {parting : List Nat} (k : m.Sound h mem) (hparting : h.parting = f :: parting)
    (hpage : ∀ q wa page, m.page? q wa = some page → page.frame = some f →
      (m.link? q wa).isSome = true ∨ m.HasRefused q) :
    m.Sound { h with parting := parting } mem :=
  { k with
    links := by
      refine k.links.settle (f := f) ?_ hpage
      intro g hg
      rw [hparting] at hg
      rcases hg with hg | hg
      · exact Or.inr (Or.inl hg)
      · exact (List.mem_cons.mp hg).imp_right Or.inr }

/-! ## Pages -/

theorem modifyPages (k : m.Sound h mem) {change : AddressMap Page → AddressMap Page}
    {x : Option Page} {stray slots : List Nat} {unlinked : List (Nat × Vaddr)} (nextId : Nat)
    (hopen : x.isSome = true → (m.process p).tornDown = false)
    (hpages : (m.modifyPages p change).page? = setAt m.page? p va x)
    (hplaced : ∀ next, x = some next → next.Placed m.layout h.filling p va)
    (hframes : FramesKept (setAt m.page? p va x) m.ring.entries m.pool.free h.loose stray
      h.filling m.pool.frames.length)
    (hslots : SlotsKept (setAt m.page? p va x) m.swap.slots.isUsed slots)
    (hlinks : LinksKept (setAt m.page? p va x) m.link? unlinked h.filling h.parting m.HasRefused)
    (hholds : ∀ next, x = some next → next.Holds m.pool.content m.swap.slotContent h.filling
      (mem.image p va m.layout.pageBytes)) :
    Sound { m.modifyPages p change with nextId := nextId }
      { h with stray := stray, slots := slots, unlinked := unlinked } mem := by
  have hview : Machine.page? { m.modifyPages p change with nextId := nextId } =
      setAt m.page? p va x := hpages
  have hlink : Machine.link? { m.modifyPages p change with nextId := nextId } = m.link? :=
    link?_modifyPages m p change
  have hrefused : Machine.HasRefused { m.modifyPages p change with nextId := nextId } =
      m.HasRefused := hasRefused_modifyPages m p change
  constructor
  · exact k.held
  · exact k.pool
  · exact k.frameBytes
  · exact k.swap
  · intro q hq
    have hq' : q < m.processes.length := by
      rw [← length_modifyProcess m p]
      exact hq
    have hunit := mmu_modifyPages m p q change
    rcases k.units q hq' with ⟨hsize, hwilling⟩
    exact ⟨(congrArg Mmu.pageSize hunit).trans hsize,
      (congrArg Mmu.refusing hunit).trans hwilling⟩
  · intro q
    have hended := process_modifyProcess_of_forall m p q
      (f := fun process => { process with pages := change process.pages }) Process.ended
      fun _ => rfl
    have htorn := process_modifyProcess_of_forall m p q
      (f := fun process => { process with pages := change process.pages }) Process.tornDown
      fun _ => rfl
    intro hover
    exact htorn.trans (k.torn q (hended.symm.trans hover))
  · intro q hclosed wa
    have htorn := process_modifyProcess_of_forall m p q
      (f := fun process => { process with pages := change process.pages }) Process.tornDown
      fun _ => rfl
    have hbefore : (m.process q).tornDown = true := htorn.symm.trans hclosed
    rw [hview]
    by_cases hat : q = p ∧ wa = va
    · rcases hat with ⟨rfl, rfl⟩
      rw [setAt_self, ← Option.not_isSome_iff_eq_none]
      intro hsome
      rw [hopen hsome] at hbefore
      contradiction
    · rw [setAt_of_ne hat]
      exact k.closed q hbefore wa
  · rw [hview]
    intro q wa other hother
    by_cases hat : q = p ∧ wa = va
    · rcases hat with ⟨rfl, rfl⟩
      rw [setAt_self] at hother
      exact hplaced other hother
    · rw [setAt_of_ne hat] at hother
      exact k.placed q wa other hother
  · rw [hview]
    exact hframes
  · rw [hview]
    exact hslots
  · rw [hview, hlink, hrefused]
    exact hlinks
  · rw [hview]
    intro q wa other hother
    by_cases hat : q = p ∧ wa = va
    · rcases hat with ⟨rfl, rfl⟩
      rw [setAt_self] at hother
      exact hholds other hother
    · rw [setAt_of_ne hat] at hother
      exact k.contents q wa other hother

theorem attach {stray : List Nat} (k : m.Sound h mem) (hstray : h.stray = f :: stray)
    (hpage : m.page? p va = some page) (hnone : page.frame = none) (hfilling : f ∈ h.filling)
    {e : RingEntry} (he : e ∈ m.ring.entries) (hef : e.frame = f)
    (howner : e.owner = ⟨p, va, page.id⟩) :
    (m.modifyPage p va fun q => { q with frame := some f }).Sound { h with stray := stray }
      mem := by
  have hidle : (m.page? p va).bind Page.frame = none := by
    rw [hpage, Option.bind_some, hnone]
  have hplaced := k.placed p va page hpage
  have hholds := k.contents p va page hpage
  refine k.modifyPages m.nextId (fun _ => k.isOpen hpage) (page?_modifyPage_eq hpage) ?_ ?_ ?_ ?_ ?_
  · intro next hnext
    cases hnext
    exact ⟨hplaced.address, hplaced.unit, hplaced.size, hplaced.aligned, hplaced.extent,
      fun g hg => Or.inl (Option.some.inj hg ▸ hfilling)⟩
  · have hframes := k.frames
    rw [hstray] at hframes
    exact hframes.attach hpage hnone rfl rfl he hef howner
  · exact k.slots.sameSlot (by rw [hpage]; rfl)
  · exact k.links.attach hidle rfl (Or.inl hfilling)
  · intro next hnext
    cases hnext
    exact ⟨hholds.inSlot, fun g _ hg => Or.inl (Option.some.inj hg ▸ hfilling),
      fun _ hg => by contradiction⟩

theorem detach (k : m.Sound h mem) {change : Page → Page} (hpage : m.page? p va = some page)
    (hframe : page.frame = some f) (hchange : change page = { page with frame := none })
    (hlink : m.link? p va = none)
    (hblank : page.state = .anon none →
      mem.image p va m.layout.pageBytes = Bytes.filled m.layout.pageBytes 0) :
    (m.modifyPage p va change).Sound { h with stray := f :: h.stray } mem := by
  have hplaced := k.placed p va page hpage
  have hholds := k.contents p va page hpage
  have hview := page?_modifyPage_eq (f := change) hpage
  rw [hchange] at hview
  refine k.modifyPages m.nextId (fun _ => k.isOpen hpage) hview ?_ ?_ ?_ ?_ ?_
  · intro next hnext
    cases hnext
    exact ⟨hplaced.address, hplaced.unit, hplaced.size, hplaced.aligned, hplaced.extent,
      fun _ hg => by contradiction⟩
  · exact k.frames.detach hpage hframe rfl
  · exact k.slots.sameSlot (by rw [hpage]; rfl)
  · exact k.links.vacate (fun hsome => by rw [hlink] at hsome; contradiction) rfl
  · intro next hnext
    cases hnext
    refine ⟨hholds.inSlot, fun _ _ hg => (by contradiction), ?_⟩
    intro hstate _
    rw [FlatMemory.length_image]
    exact hblank hstate

/-- A page that is not mapped loses its frame; its content is in a slot now. -/
theorem swapOut {rest : List Nat} (k : m.Sound h mem) (hrest : h.slots = s :: rest)
    (hpage : m.page? p va = some page) (hframe : page.frame = some f)
    (hstate : page.state = .anon none) (hlink : m.link? p va = none)
    (hslot : m.swap.slotContent s = mem.image p va m.layout.pageBytes) :
    (m.modifyPage p va fun q => { q with state := .anon (some s), frame := none }).Sound
      { h with stray := f :: h.stray, slots := rest } mem := by
  have hplaced := k.placed p va page hpage
  refine k.modifyPages m.nextId (fun _ => k.isOpen hpage) (page?_modifyPage_eq hpage) ?_ ?_ ?_ ?_ ?_
  · intro next hnext
    cases hnext
    exact ⟨hplaced.address, hplaced.unit, hplaced.size, hplaced.aligned,
      fun _ hx => (by contradiction), fun _ hg => by contradiction⟩
  · exact k.frames.detach hpage hframe rfl
  · have hslots := k.slots
    rw [hrest] at hslots
    refine hslots.record ?_ rfl
    rw [hpage, Option.bind_some, Page.slot, hstate]
    rfl
  · exact k.links.vacate (fun hsome => by rw [hlink] at hsome; contradiction) rfl
  · intro next hnext
    cases hnext
    constructor
    · intro t ht
      cases ht
      exact hslot
    · intro _ hx
      cases hx
    · intro hx
      cases hx

theorem restate (k : m.Sound h mem) (state : PageState) (hpage : m.page? p va = some page)
    (hframe : page.frame = some f) (hfilling : f ∈ h.filling) (hold : page.slot = none)
    (hnew : state.slot = none)
    (hextent : ∀ x, state = .file x → x.readBytes.toNat ≤ m.layout.pageBytes) :
    (m.modifyPage p va fun q => { q with state := state }).Sound h mem := by
  have hplaced := k.placed p va page hpage
  have hheld : ∀ g, page.frame = some g → g ∈ h.filling := by
    intro g hg
    rw [hframe] at hg
    cases hg
    exact hfilling
  refine k.modifyPages m.nextId (fun _ => k.isOpen hpage) (page?_modifyPage_eq hpage) ?_ ?_ ?_ ?_ ?_
  · intro next hnext
    cases hnext
    exact ⟨hplaced.address, hplaced.unit, hplaced.size, hplaced.aligned, hextent,
      fun g hg => Or.inl (hheld g hg)⟩
  · exact k.frames.sameFrame hpage rfl rfl
  · refine k.slots.sameSlot ?_
    rw [hpage, Option.bind_some, Option.bind_some, hold]
    exact hnew
  · exact k.links.sameFrame hpage rfl rfl
  · intro next hnext
    cases hnext
    refine ⟨?_, fun g _ hg => Or.inl (hheld g hg), ?_⟩
    · intro t ht
      have hslot : state.slot = some t := by
        rw [show state = .anon (some t) from ht]
        rfl
      rw [hnew] at hslot
      contradiction
    · intro _ hnone
      rw [show page.frame = none from hnone] at hframe
      contradiction

theorem reclaim (k : m.Sound h mem) {slots : Swap.Bitmap} (hpage : m.page? p va = some page)
    (hframe : page.frame = some f) (hfilling : f ∈ h.filling)
    (hstate : page.state = .anon (some s)) (hform : slots.WellFormed)
    (htotal : slots.total = m.swap.slots.total)
    (hused : ∀ t, slots.isUsed t = (!decide (t = s) && m.swap.slots.isUsed t)) :
    (Machine.modifyPage { m with swap := { m.swap with slots := slots } } p va fun q =>
      { q with state := .anon none }).Sound h mem := by
  have hslot : page.slot = some s := by
    rw [Page.slot, hstate]
    rfl
  have hplaced := k.placed p va page hpage
  have hheld : ∀ g, page.frame = some g → g ∈ h.filling := by
    intro g hg
    rw [hframe] at hg
    cases hg
    exact hfilling
  have hforget : (m.modifyPage p va fun q => { q with state := .anon none }).Sound
      { h with slots := s :: h.slots } mem := by
    refine k.modifyPages m.nextId (fun _ => k.isOpen hpage) (page?_modifyPage_eq hpage)
      ?_ ?_ ?_ ?_ ?_
    · intro next hnext
      cases hnext
      exact ⟨hplaced.address, hplaced.unit, hplaced.size, hplaced.aligned,
        fun _ hx => (by contradiction), fun g hg => Or.inl (hheld g hg)⟩
    · exact k.frames.sameFrame hpage rfl rfl
    · exact k.slots.forget hpage hslot rfl
    · exact k.links.sameFrame hpage rfl rfl
    · intro next hnext
      cases hnext
      refine ⟨?_, fun g _ hg => Or.inl (hheld g hg), ?_⟩
      · intro _ hx
        cases hx
      · intro _ hnone
        rw [show page.frame = none from hnone] at hframe
        contradiction
  exact hforget.releaseSlot rfl hform htotal hused

theorem register (k : m.Sound h mem) (hopen : (m.process p).tornDown = false)
    (hfree : m.page? p page.va = none) (hframe : page.frame = none) (hslot : page.slot = none)
    (hunit : page.mmu = p) (hsize : page.pageSize = m.layout.pageSize)
    (haligned : Word.isAligned page.va m.layout.pageSize = true)
    (hextent : ∀ x, page.state = .file x → x.readBytes.toNat ≤ m.layout.pageBytes)
    (hblank : page.state = .anon none →
      mem.image p page.va m.layout.pageBytes = Bytes.filled m.layout.pageBytes 0) :
    (m.withPage p page).Sound h mem := by
  have hp := lt_of_tornDown_eq_false hopen
  have hidle : (m.page? p page.va).bind Page.frame = none := by
    rw [hfree]
    rfl
  refine k.modifyPages (m.nextId + 1) (fun _ => hopen) (page?_withPage_eq hp) ?_ ?_ ?_ ?_ ?_
  · intro next hnext
    cases hnext
    refine ⟨rfl, hunit, hsize, haligned, hextent, ?_⟩
    intro g hg
    rw [show page.frame = some g from hg] at hframe
    contradiction
  · exact k.frames.idle hidle hframe
  · refine k.slots.sameSlot ?_
    rw [hfree]
    exact hslot
  · exact k.links.vacate (k.links.unlinked_of_idle hidle) hframe
  · intro next hnext
    cases hnext
    constructor
    · intro t ht
      rw [Page.slot, show page.state = .anon (some t) from ht] at hslot
      contradiction
    · intro g _ hg
      rw [show page.frame = some g from hg] at hframe
      contradiction
    · intro hstate _
      rw [FlatMemory.length_image]
      exact hblank hstate

theorem unregister (k : m.Sound h mem) (hpage : m.page? p va = some page) :
    (m.modifyPages p fun pages => pages.erase va).Sound (h.taking p page) mem := by
  have haddress := (k.placed p va page hpage).address
  have hnone : (none : Option Page).bind Page.frame = none := rfl
  refine k.modifyPages (x := none) m.nextId (fun hx => absurd hx Bool.false_ne_true)
    (page?_erase_eq (lt_of_page?_eq_some hpage) va) ?_ ?_ ?_ ?_ ?_
  · intro next hnext
    contradiction
  · cases hframe : page.frame with
    | none =>
        refine k.frames.idle ?_ hnone
        rw [hpage, Option.bind_some, hframe]
    | some f => exact k.frames.detach hpage hframe hnone
  · cases hslot : page.slot with
    | none =>
        refine k.slots.sameSlot ?_
        rw [hpage, Option.bind_some, hslot]
        rfl
    | some s => exact k.slots.forget hpage hslot rfl
  · cases hframe : page.frame with
    | none =>
        rw [if_neg (by rw [Page.isResident, hframe]; exact Bool.false_ne_true)]
        refine k.links.vacate (k.links.unlinked_of_idle ?_) hnone
        rw [hpage, Option.bind_some, hframe]
    | some f =>
        rw [if_pos (by rw [Page.isResident, hframe]; rfl)]
        refine (k.links.expect fun x hx => List.mem_cons_of_mem _ hx).vacate ?_ hnone
        intro _
        rw [haddress]
        exact List.mem_cons_self
  · intro next hnext
    contradiction

/-! ## Users and processes -/

/-- Bytes are written to the frame of a page, and to the flat memory. -/
theorem store (k : m.Sound h mem) (hpage : m.page? p va = some page)
    (hframe : page.frame = some f) (hfilled : f ∉ h.filling) {off : Nat} {data : Bytes}
    (hoff : off < m.layout.pageBytes) (hfit : off + data.length ≤ m.layout.pageBytes) :
    Sound { m with pool := m.pool.write f off data } h
      (mem.store p (va + UInt64.ofNat off) data) := by
  have hf := k.frame_lt hpage hframe
  have hplaced := k.placed p va page hpage
  have hother : ∀ q wa other, m.page? q wa = some other → ¬(q = p ∧ wa = va) →
      (mem.store p (va + UInt64.ofNat off) data).image q wa m.layout.pageBytes =
        mem.image q wa m.layout.pageBytes := by
    intro q wa other hpage' hne
    exact FlatMemory.image_store_of_ne k.powerOfTwo hplaced.aligned
      (k.placed q wa other hpage').aligned hoff hfit hne
  exact { k with
    frameBytes := by
      refine FramePool.forall_length_setContent k.frameBytes fun _ => ?_
      rw [Bytes.length_overlay]
      exact k.length_content hf
    frames := by
      show FramesKept _ _ _ _ _ _ (m.pool.setContent _ _).frames.length
      rw [FramePool.length_frames_setContent]
      exact k.frames
    contents := by
      intro q wa other hpage'
      have hholds := k.contents q wa other hpage'
      by_cases hat : q = p ∧ wa = va
      · rcases hat with ⟨rfl, rfl⟩
        cases hpage.symm.trans hpage'
        constructor
        · intro s hstate
          rcases hplaced.loaded f hframe with hmem | hanon | ⟨x, hfile⟩
          · exact absurd hmem hfilled
          · rw [hstate] at hanon
            cases hanon
          · rw [hstate] at hfile
            cases hfile
        · intro g hstate hg
          rw [hframe] at hg
          cases hg
          have hcontent := (hholds.inFrame f hstate hframe).resolve_left hfilled
          right
          refine (FramePool.content_setContent_self hf).trans ?_
          rw [hcontent]
          exact (FlatMemory.image_store k.powerOfTwo hplaced.aligned hoff hfit).symm
        · intro _ hnone
          rw [hnone] at hframe
          contradiction
      · have himage := hother q wa other hpage' hat
        constructor
        · intro s hstate
          exact (hholds.inSlot s hstate).trans himage.symm
        · intro g hstate hg
          have hne : g ≠ f := by
            intro heq
            subst heq
            exact hat (k.frames.holder_unique hpage hframe hpage' hg)
          refine (hholds.inFrame g hstate hg).imp_right fun heq => ?_
          exact (FramePool.content_setContent hne).trans (heq.trans himage.symm)
        · intro hstate hnone
          exact (congrArg (fun b => b = Bytes.filled b.length 0) himage).mpr
            (hholds.blank hstate hnone) }

theorem addProcess (k : m.Sound h mem) (accepting : Schedule Bool) :
    (m.withProcess accepting).Sound h mem := by
  have hpages := page?_withProcess m accepting
  constructor
  · exact k.held
  · exact k.pool
  · exact k.frameBytes
  · exact k.swap
  · intro q hq
    by_cases heq : q = m.processes.length
    · rw [heq, process_withProcess_self]
      exact ⟨rfl, rfl⟩
    · have hlt : q < m.processes.length + 1 := by
        simpa [withProcess] using hq
      rw [process_withProcess_of_ne heq]
      exact k.units q (by omega)
  · intro q
    by_cases heq : q = m.processes.length
    · rw [heq, process_withProcess_self]
      intro hended
      contradiction
    · rw [process_withProcess_of_ne heq]
      exact k.torn q
  · intro q
    rw [hpages]
    by_cases heq : q = m.processes.length
    · rw [heq, process_withProcess_self]
      intro htorn
      contradiction
    · rw [process_withProcess_of_ne heq]
      exact k.closed q
  · rw [hpages]
    exact k.placed
  · rw [hpages]
    exact k.frames
  · rw [hpages]
    exact k.slots
  · rw [hpages, link?_withProcess]
    refine k.links.mono ?_
    intro q hq
    have hlt : q < m.processes.length := by
      apply Nat.lt_of_not_le
      intro hle
      rw [HasRefused, process_eq_absent hle] at hq
      rcases hq with ⟨call, hcall, _⟩
      exact absurd hcall (Nat.not_lt_zero call)
    rw [HasRefused, process_withProcess_of_ne (Nat.ne_of_lt hlt)]
    exact hq
  · rw [hpages]
    exact k.contents

end Sound
end Machine
end DemandPaging
