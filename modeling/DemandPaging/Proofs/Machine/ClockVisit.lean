import DemandPaging.Proofs.Machine.Saving

/-!
# A visit of the clock hand

What one visit of the hand does to the entry that it meets: an entry that can be evicted and was not
accessed gives up its frame. From any other, at most the accessed bit is taken; whatever else an
attempt to save the page does is undone before the hand moves on.
-/

namespace DemandPaging
namespace Machine

open Routine

/-! ## Who can be evicted -/

def lockFree (m : Machine) (o : Owner) : Bool :=
  decide (Lock.page o.process o.va ∉ m.held)

/-- The page of the entry is asked to give up its frame: the entry is not pinned, and the page
exists and is not locked. -/
def asks (m : Machine) (e : RingEntry) : Bool :=
  !e.pinned && (m.ownedPage? e.owner).isSome && m.lockFree e.owner

/-- An entry can be evicted if it is not pinned and its page is gone, or is not locked and can be
saved. -/
def evictable (m : Machine) (saves : Owner → Bool) (e : RingEntry) : Bool :=
  !e.pinned && ((m.ownedPage? e.owner).isNone || m.lockFree e.owner && saves e.owner)

def untouched (m : Machine) (e : RingEntry) : Bool :=
  (m.ownedPage? e.owner).all fun page => !(m.process page.mmu).mmu.isAccessed page.va

def yields (m : Machine) (saves : Owner → Bool) (e : RingEntry) : Bool :=
  m.evictable saves e && m.untouched e

/-! ## The turn of an entry -/

/-- One visit of the hand. The answer is the frame that was given up, if any. -/
def visit : Routine (Option Nat) := do
  let ring := (← get).ring
  match ring.entries[ring.candidate]? with
  | none => abort .framesExhausted
  | some entry =>
      modifyRing FrameRing.advance
      evictEntry ring.candidate entry

/-- The machine in which the page of the next candidate is saved: the hand has moved on, and the
page is locked. -/
def turned (m : Machine) (o : Owner) : Machine :=
  Machine.seized { m with ring := m.ring.advance } (.page o.process o.va)

def pagesOut (m : Machine) (owner : Owner) (page : Page) : Bool :=
  match pageOut owner page m with
  | .ok _ _ => true
  | .error _ _ => false

/-- If the page of the next candidate is about to be saved, that turns out as said, and the memory
management unit accepts the mapping again that is taken away for it. -/
def foretold (saves : Owner → Bool) (m : Machine) : Bool :=
  m.ring.next?.all fun e =>
    (m.ownedPage? e.owner).all fun page =>
      !m.asks e || !m.untouched e ||
        (m.turned e.owner).pagesOut e.owner page == saves e.owner &&
          (m.process page.mmu).mmu.readmits page.va e.frame page.writable

/-! ## Rings as the page tables make them -/

/-- The page of an entry holds its frame and is mapped to it, and its content is one page. -/
structure Attended (m : Machine) (e : RingEntry) (page : Page) : Prop where
  frame : page.frame = some e.frame
  unit : page.mmu = e.owner.process
  address : page.va = e.owner.va
  linked : m.link? page.mmu page.va = some (e.frame, page.writable)
  whole : ((m.pool.content e.frame).take page.bytes).length = m.layout.pageBytes
  extent : ∀ x, page.state = .file x → x.readBytes.toNat ≤ m.layout.pageBytes

/-- No frame and no registered page is listed twice, each page that may be asked for its frame is
resident and mapped, and the swap area is free for use. -/
structure Ready (m : Machine) : Prop where
  swapFree : Lock.swap ∉ m.held
  fits : m.swap.Fits m.layout.pageBytes
  listedOnce : m.ring.frames.Nodup
  ownedOnce : ∀ d ∈ m.ring.entries, ∀ e ∈ m.ring.entries, ∀ page,
    m.ownedPage? e.owner = some page → d.owner = e.owner → d = e
  attended : ∀ e ∈ m.ring.entries, m.asks e = true → ∀ page,
    m.ownedPage? e.owner = some page → m.Attended e page

/-! ## Places that are asked for a frame -/

variable {m s n : Machine} {saves : Owner → Bool} {d e v : RingEntry} {l rest : List RingEntry}

theorem asks_eq_true_iff : m.asks e = true ↔ e.pinned = false ∧
    (∃ page, m.ownedPage? e.owner = some page) ∧
    Lock.page e.owner.process e.owner.va ∉ m.held := by
  simp only [asks, lockFree, Bool.and_eq_true, Bool.not_eq_true', decide_eq_true_eq,
    Option.isSome_iff_exists, and_assoc]

def askedPlaces (m : Machine) (l : List RingEntry) : List (Nat × Vaddr) :=
  (l.filter m.asks).map fun e => (e.owner.process, e.owner.va)

theorem mem_askedPlaces {p : Nat} {va : Vaddr} :
    (p, va) ∈ m.askedPlaces l ↔
      ∃ e ∈ l, m.asks e = true ∧ e.owner.process = p ∧ e.owner.va = va := by
  simp only [askedPlaces, List.mem_map, List.mem_filter, Prod.mk.injEq, and_assoc]

theorem askedPlaces_append (m : Machine) (l l' : List RingEntry) :
    m.askedPlaces (l ++ l') = m.askedPlaces l ++ m.askedPlaces l' := by
  rw [askedPlaces, List.filter_append, List.map_append]
  rfl

theorem Ready.eq_of_place (k : m.Ready) (hd : d ∈ m.ring.entries) (he : e ∈ m.ring.entries)
    (hasks : m.asks d = true) {page : Page} (hpage : m.ownedPage? e.owner = some page)
    (hplace : d.owner.process = e.owner.process ∧ d.owner.va = e.owner.va) : d = e := by
  rcases asks_eq_true_iff.mp hasks with ⟨-, ⟨other, hother⟩, -⟩
  apply k.ownedOnce d hd e he page hpage
  have hthere := (ownedPage?_eq_some_iff.mp hother).1
  rw [hplace.1, hplace.2, (ownedPage?_eq_some_iff.mp hpage).1, Option.some.injEq] at hthere
  have hid := (ownedPage?_eq_some_iff.mp hother).2
  rw [← hthere, (ownedPage?_eq_some_iff.mp hpage).2] at hid
  rcases d with ⟨_, ⟨p, va, id⟩, _⟩
  rcases e with ⟨_, ⟨q, wa, id'⟩, _⟩
  simp only at hplace hid
  rw [hplace.1, hplace.2, hid]

/-! ## Entries that the hand has passed -/

/-- What is left of a machine when the hand has passed the given entries: the pages that were asked
for their frames have lost their accessed bits. -/
structure Passed (m : Machine) (l : List RingEntry) (n : Machine) : Prop where
  layout : n.layout = m.layout
  pool : n.pool = m.pool
  held : n.held = m.held
  fits : ∀ size, m.swap.Fits size → n.swap.Fits size
  listed : n.ring.entries = m.ring.entries
  pages : n.page? = m.page?
  mapped : ∀ p va, n.mapped? p va =
    if (p, va) ∈ m.askedPlaces l then (m.mapped? p va).map PageEntry.unaccessed
    else m.mapped? p va

namespace Passed

theorem nil (m : Machine) : m.Passed [] m :=
  ⟨rfl, rfl, rfl, fun _ h => h, rfl, rfl, fun _ _ => rfl⟩

theorem ownedPage? (h : m.Passed l n) (o : Owner) : n.ownedPage? o = m.ownedPage? o := by
  rw [Machine.ownedPage?, h.pages]
  rfl

theorem lockFree (h : m.Passed l n) (o : Owner) : n.lockFree o = m.lockFree o := by
  unfold Machine.lockFree
  rw [h.held]

theorem asks (h : m.Passed l n) : n.asks = m.asks := by
  funext e
  unfold Machine.asks
  rw [h.ownedPage?, h.lockFree]

theorem evictable (h : m.Passed l n) (saves : Owner → Bool) :
    n.evictable saves = m.evictable saves := by
  funext e
  unfold Machine.evictable
  rw [h.ownedPage?, h.lockFree]

theorem askedPlaces (h : m.Passed l n) (l' : List RingEntry) :
    n.askedPlaces l' = m.askedPlaces l' := by
  unfold Machine.askedPlaces
  rw [h.asks]

theorem append {l' : List RingEntry} (h : m.Passed l s) (h' : s.Passed l' n) :
    m.Passed (l ++ l') n where
  layout := h'.layout.trans h.layout
  pool := h'.pool.trans h.pool
  held := h'.held.trans h.held
  fits := fun size hfits => h'.fits size (h.fits size hfits)
  listed := h'.listed.trans h.listed
  pages := h'.pages.trans h.pages
  mapped := by
    intro p va
    rw [h'.mapped, h.askedPlaces, h.mapped, askedPlaces_append]
    simp only [List.mem_append]
    by_cases hfirst : (p, va) ∈ m.askedPlaces l
    · by_cases hagain : (p, va) ∈ m.askedPlaces l'
      · rw [if_pos hagain, if_pos hfirst, if_pos (Or.inl hfirst), Option.map_map]
        rfl
      · rw [if_neg hagain, if_pos hfirst, if_pos (Or.inl hfirst)]
    · by_cases hnow : (p, va) ∈ m.askedPlaces l'
      · rw [if_pos hnow, if_neg hfirst, if_pos (Or.inr hnow)]
      · rw [if_neg hnow, if_neg hfirst, if_neg (not_or.mpr ⟨hfirst, hnow⟩)]

theorem unaccessed_mapped? (h : m.Passed l n) (p : Nat) (va : Vaddr) :
    (n.mapped? p va).map PageEntry.unaccessed = (m.mapped? p va).map PageEntry.unaccessed := by
  rw [h.mapped]
  split
  · rw [Option.map_map]
    rfl
  · rfl

theorem link? (h : m.Passed l n) (p : Nat) (va : Vaddr) : n.link? p va = m.link? p va := by
  have hlink : ∀ k : Machine, k.link? p va =
      ((k.mapped? p va).map PageEntry.unaccessed).map fun e => (e.frame, e.writable) := by
    intro k
    rw [Option.map_map]
    rfl
  rw [hlink, hlink, h.unaccessed_mapped?]

theorem ready (h : m.Passed l n) (k : m.Ready) : n.Ready where
  swapFree := by
    rw [h.held]
    exact k.swapFree
  fits := by
    rw [h.layout]
    exact h.fits _ k.fits
  listedOnce := by
    rw [FrameRing.frames, h.listed]
    exact k.listedOnce
  ownedOnce := by
    intro d hd e he page hpage
    rw [h.listed] at hd he
    rw [h.ownedPage?] at hpage
    exact k.ownedOnce d hd e he page hpage
  attended := by
    intro e he hasks page hpage
    rw [h.listed] at he
    rw [h.asks] at hasks
    rw [h.ownedPage?] at hpage
    have hattended := k.attended e he hasks page hpage
    refine { hattended with linked := ?_, whole := ?_, extent := ?_ }
    · rw [h.link?]
      exact hattended.linked
    · rw [h.pool, h.layout]
      exact hattended.whole
    · rw [h.layout]
      exact hattended.extent

end Passed

/-! ## One visit -/

/-- What is left of a machine when an entry has given up its frame: it is listed no longer, and its
page, if there is one, has neither frame nor mapping. -/
structure Yielded (m : Machine) (v : RingEntry) (n : Machine) : Prop where
  pool : n.pool = m.pool
  listed : n.ring.entries = m.ring.entries.erase v
  pages : ∀ p va, (p, va) ∉ m.askedPlaces [v] → n.page? p va = m.page? p va
  mapped : ∀ p va, (p, va) ∉ m.askedPlaces [v] → n.mapped? p va = m.mapped? p va
  parted : ∀ page, m.ownedPage? v.owner = some page →
    (∃ state, n.page? v.owner.process v.owner.va =
      some { page with state := state, frame := none }) ∧
    n.mapped? v.owner.process v.owner.va = none

/-- How a visit of an entry ends: the entry gives up its frame if it can be evicted and was not
accessed, and otherwise the hand passes it. -/
def Visited (m : Machine) (saves : Owner → Bool) (e : RingEntry) (taken : Option Nat)
    (n : Machine) : Prop :=
  match taken with
  | some frame => frame = e.frame ∧ m.yields saves e = true ∧ m.Yielded e n
  | none => m.yields saves e = false ∧ m.Passed [e] n ∧
      n.ring = m.ring.advance

theorem askedPlaces_of_not_asks (h : m.asks e = false) : m.askedPlaces [e] = [] := by
  rw [askedPlaces, List.filter_cons_of_neg (by rw [h]; exact Bool.false_ne_true)]
  rfl

theorem askedPlaces_of_asks (h : m.asks e = true) :
    m.askedPlaces [e] = [(e.owner.process, e.owner.va)] := by
  rw [askedPlaces, List.filter_cons_of_pos h]
  rfl

theorem mem_askedPlaces_single (h : m.asks e = true) {p : Nat} {va : Vaddr} :
    (p, va) ∈ m.askedPlaces [e] ↔ p = e.owner.process ∧ va = e.owner.va := by
  rw [askedPlaces_of_asks h, List.mem_singleton, Prod.mk.injEq]

theorem passed_of_not_asks (h : m.asks e = false) :
    m.Passed [e] { m with ring := m.ring.advance } := by
  refine ⟨rfl, rfl, rfl, fun _ hfits => hfits, rfl, rfl, ?_⟩
  intro p va
  rw [askedPlaces_of_not_asks h, if_neg List.not_mem_nil]
  rfl

theorem passed_of_spared (h : m.asks e = true)
    (hspared : (m.turned e.owner).Spared e.owner.process e.owner.va n) :
    m.Passed [e] (n.unlocked (.page e.owner.process e.owner.va)) ∧
      (n.unlocked (.page e.owner.process e.owner.va)).ring = m.ring.advance := by
  have hheld : (n.unlocked (.page e.owner.process e.owner.va)).held = m.held :=
    SameFrames.erase_held hspared.held
  have hring : n.ring = m.ring.advance := hspared.ring
  refine ⟨⟨hspared.layout, hspared.pool, hheld, hspared.fits, ?_, hspared.pages, ?_⟩, hring⟩
  · show n.ring.entries = m.ring.entries
    rw [hring]
    rfl
  · intro p va
    show n.mapped? p va = _
    rw [hspared.entries]
    by_cases hat : p = e.owner.process ∧ va = e.owner.va
    · rw [if_pos ((mem_askedPlaces_single h).mpr hat), hat.1, hat.2, setAt_self]
      rfl
    · rw [if_neg fun hmem => hat ((mem_askedPlaces_single h).mp hmem), setAt_of_ne hat]
      rfl

theorem spared_setAccessed {p : Nat} (hp : p < m.processes.length) (va : Vaddr) :
    m.Spared p va (m.modifyMmu p fun mmu => mmu.setAccessed va false) := by
  refine ⟨(SameFrames.refl m).modifyProcess p _, page?_modifyMmu_eq m p _, ?_⟩
  apply mapped?_eq_setAt (mmu_modifyMmu_eq hp)
  intro wa
  rw [Mmu.mapped?_setAccessed]
  split
  · rename_i hat
    rw [hat]
    rfl
  · rfl

theorem ends_pageOut_of_pagesOut {owner : Owner} {page : Page} {b : Bool}
    (h : m.pagesOut owner page = b) :
    Ends (pageOut owner page) m Anyhow (fun _ _ => b = true) fun _ _ => b = false := by
  unfold pagesOut at h
  unfold Ends
  split at h
  · rename_i hend
    rw [hend]
    exact h.symm
  · rename_i stop _ hend
    rw [hend]
    cases stop with
    | failed e => exact h.symm
    | aborted a => trivial

theorem Attended.lt_length {page : Page} (h : m.Attended e page) :
    page.mmu < m.processes.length := by
  rcases link?_eq_some_iff.mp h.linked with ⟨entry, hentry, -⟩
  exact lt_of_mapped?_eq_some hentry

theorem Ready.saveRisks {page : Page} {fatal : Abort → Prop} (k : m.Ready)
    (h : m.Attended e page) :
    (m.turned e.owner).SaveRisks fatal page.state
      ((m.pool.content e.frame).take page.bytes) where
  wait := by
    intro hheld
    rcases List.mem_cons.mp hheld with hpage | hswap
    · contradiction
    · exact absurd hswap k.swapFree
  length := by
    intro disk hdisk hwrong
    exact absurd (h.whole.trans (k.fits.page disk hdisk).symm) hwrong
  extent := by
    intro x hx hlong
    rw [h.whole] at hlong
    exact absurd hlong (Nat.not_lt.mpr (h.extent x hx))

/-- An asked page gives up its frame if its save is to succeed. -/
theorem visit_evictPage {page : Page} {fatal : Abort → Prop} (k : m.Ready)
    (hnext : m.ring.next? = some e) (he : e ∈ m.ring.entries)
    (hasks : m.asks e = true) (hpage : m.ownedPage? e.owner = some page)
    (hreadmits : (m.process page.mmu).mmu.readmits page.va e.frame page.writable = true)
    (hsaves : (m.turned e.owner).pagesOut e.owner page = saves e.owner) :
    Ends (evictPage m.ring.candidate e page) (m.turned e.owner) fatal
      (fun taken next =>
        match taken with
        | some frame => frame = e.frame ∧ saves e.owner = true ∧
            m.Yielded e (next.unlocked (.page e.owner.process e.owner.va))
        | none => saves e.owner = false ∧
            (m.turned e.owner).Spared e.owner.process e.owner.va next)
      fun _ _ => False := by
  have hattended := k.attended e he hasks page hpage
  have hplace := (ownedPage?_eq_some_iff.mp hpage).1
  unfold evictPage
  rw [ends_bind, ends_attempt]
  refine ((saving_pageOut (m := m.turned e.owner) hplace hattended.frame hattended.linked hreadmits
    (k.saveRisks hattended)).and (ends_pageOut_of_pagesOut hsaves)).mono ?_ ?_
  · rintro frame next ⟨⟨rfl, hparted⟩, hsaved⟩
    have hring : next.ring = m.ring.advance := hparted.ring
    simp only [ends_bind, ends_ensure, beq_self_eq_true, if_true, ends_modifyRing, ends_report,
      ends_pure]
    refine ⟨trivial, hsaved, hparted.pool, ?_, ?_, ?_, ?_⟩
    · show next.ring.entries.eraseIdx m.ring.candidate = _
      rw [hring]
      exact FrameRing.entries_removeAt_candidate k.listedOnce hnext
    · intro p va hne
      rcases hparted.pages with ⟨state, hpages⟩
      show next.page? p va = _
      rw [hpages, setAt_of_ne fun hat => hne ((mem_askedPlaces_single hasks).mpr hat)]
      rfl
    · intro p va hne
      show next.mapped? p va = _
      rw [hparted.entries, hattended.unit, hattended.address,
        setAt_of_ne fun hat => hne ((mem_askedPlaces_single hasks).mpr hat)]
      rfl
    · intro other hother
      cases hpage.symm.trans hother
      rcases hparted.pages with ⟨state, hpages⟩
      refine ⟨⟨state, ?_⟩, ?_⟩
      · show next.page? _ _ = _
        rw [hpages, setAt_self]
      · show next.mapped? _ _ = _
        rw [hparted.entries, hattended.unit, hattended.address, setAt_self]
  · rintro failure next ⟨⟨hspared, -⟩, hunsaved⟩
    rw [ends_bind, ends_report, ends_pure]
    rw [hattended.unit, hattended.address] at hspared
    exact ⟨hunsaved, { hspared with }⟩

theorem visit_evictUnlessAccessed {page : Page} {fatal : Abort → Prop} (k : m.Ready)
    (hnext : m.ring.next? = some e) (he : e ∈ m.ring.entries) (hasks : m.asks e = true)
    (hpage : m.ownedPage? e.owner = some page) (hforetold : foretold saves m = true) :
    Ends (evictUnlessAccessed m.ring.candidate e page) (m.turned e.owner) fatal
      (fun taken next =>
        m.Visited saves e taken (next.unlocked (.page e.owner.process e.owner.va)))
      fun _ _ => False := by
  have hattended := k.attended e he hasks page hpage
  have hevictable : m.evictable saves e = saves e.owner := by
    rcases asks_eq_true_iff.mp hasks with ⟨hpinned, -, hfree⟩
    simp [evictable, hpinned, hpage, lockFree, hfree]
  have huntouched : m.untouched e = !(m.process page.mmu).mmu.isAccessed page.va := by
    rw [untouched, hpage]
    rfl
  unfold evictUnlessAccessed secondChance
  simp only [ends_bind, ends_get, ends_when, ends_setAccessed, ends_pure]
  rw [show (m.turned e.owner).process page.mmu = m.process page.mmu from rfl]
  cases haccessed : (m.process page.mmu).mmu.isAccessed page.va with
  | true =>
      rw [if_pos rfl, if_pos rfl, ends_pure]
      have hspared := spared_setAccessed (m := m.turned e.owner) hattended.lt_length page.va
      rw [hattended.unit, hattended.address] at hspared ⊢
      refine ⟨?_, passed_of_spared hasks hspared⟩
      rw [yields, huntouched, haccessed, Bool.not_true, Bool.and_false]
  | false =>
      rw [foretold, hnext, Option.all_some, hpage, Option.all_some, hasks, huntouched, haccessed,
        Bool.not_true, Bool.not_false, Bool.not_true, Bool.false_or, Bool.false_or,
        Bool.and_eq_true, beq_iff_eq] at hforetold
      rw [if_neg Bool.false_ne_true, if_neg Bool.false_ne_true]
      refine (visit_evictPage k hnext he hasks hpage hforetold.2 hforetold.1).mono ?_
        fun _ _ hfalse => hfalse
      intro taken next hnext
      cases taken with
      | some frame =>
          refine ⟨hnext.1, ?_, hnext.2.2⟩
          rw [yields, hevictable, hnext.2.1, huntouched, haccessed]
          rfl
      | none =>
          refine ⟨?_, passed_of_spared hasks hnext.2⟩
          rw [yields, hevictable, hnext.1, Bool.false_and]

theorem visit_evictEntry {fatal : Abort → Prop} (k : m.Ready) (hnext : m.ring.next? = some e)
    (he : e ∈ m.ring.entries) (hforetold : foretold saves m = true) :
    Ends (evictEntry m.ring.candidate e) { m with ring := m.ring.advance } fatal
      (m.Visited saves e) fun _ _ => False := by
  unfold evictEntry
  cases hpinned : e.pinned with
  | true =>
      have hasks : m.asks e = false := by
        simp [asks, hpinned]
      rw [if_pos rfl, ends_pure]
      refine ⟨?_, passed_of_not_asks hasks, rfl⟩
      simp [yields, evictable, hpinned]
  | false =>
      rw [if_neg Bool.false_ne_true, ends_bind, ends_get,
        show Machine.ownedPage? { m with ring := m.ring.advance } e.owner = m.ownedPage? e.owner
          from rfl]
      cases hpage : m.ownedPage? e.owner with
      | none =>
          simp only [ends_bind, ends_modifyRing, ends_pure]
          refine ⟨rfl, ?_, rfl, ?_, fun _ _ _ => rfl, fun _ _ _ => rfl, ?_⟩
          · simp [yields, evictable, untouched, hpinned, hpage]
          · exact FrameRing.entries_removeAt_candidate k.listedOnce hnext
          · intro page hsome
            rw [hpage] at hsome
            contradiction
      | some page =>
          dsimp only
          rw [ends_withFreeLock]
          split
          · rename_i hlocked
            have hasks : m.asks e = false := by
              rw [← Bool.not_eq_true, asks_eq_true_iff]
              exact fun hall => hall.2.2 hlocked
            refine ⟨?_, { passed_of_not_asks hasks with }, rfl⟩
            have hbusy : m.lockFree e.owner = false :=
              decide_eq_false (not_not.mpr hlocked)
            simp [yields, evictable, hpage, hbusy]
          · rename_i hfree
            have hasks : m.asks e = true :=
              asks_eq_true_iff.mpr ⟨hpinned, ⟨page, hpage⟩, hfree⟩
            exact visit_evictUnlessAccessed k hnext he hasks hpage hforetold

theorem visit_cases (k : m.Ready) (hahead : m.ring.ahead = e :: rest)
    (hforetold : foretold saves m = true) :
    ∃ taken next, visit m = .ok taken next ∧ m.Visited saves e taken next := by
  have hnext := FrameRing.next?_of_ahead hahead
  have he : e ∈ m.ring.entries := by
    rw [← FrameRing.mem_ahead, hahead]
    exact List.mem_cons_self
  have hentry : m.ring.entries[m.ring.candidate]? = some e := hnext
  apply Ends.exists_result
  unfold visit
  rw [ends_bind, ends_get]
  dsimp only
  rw [hentry]
  exact visit_evictEntry k hnext he hforetold

end Machine
end DemandPaging
