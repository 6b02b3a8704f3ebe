import DemandPaging.Proofs.Machine.ClockHand
import DemandPaging.Proofs.Machine.Working

/-!
# Failed claims

A claim or a fault that fails leaves no trace that a process could find, whatever made it fail. If
it was a refused mapping or a failed load, the same claim is served once both work again, with the
content that it would have had at first: its frame is back in the pool, so there is one to take.
-/

namespace DemandPaging

namespace Operation

def claims? : Operation → Option (Nat × Vaddr)
  | claim p va => some (p, va)
  | fault p f => some (p, f.va)
  | _ => none

/-- A claim or a fault that is not rejected: there is a page that allows the access, or the stack
can grow by one. Only a refused mapping or a failed load can make it fail. -/
def Admitted (op : Operation) (m : Machine) : Prop :=
  match op with
  | claim p va => (m.lookup p va).isSome = true
  | fault p f => f.inUserSpace m.layout = true ∧ f.cause.notPresent = true ∧
      match m.lookup p f.va with
      | some page => (f.cause.write && !page.writable) = false
      | none => f.touchesStack m.layout = true ∧ (m.process p).tornDown = false
  | _ => False

end Operation

namespace Machine

open Routine

variable {m next : Machine} {mem : FlatMemory} {fatal : Abort → Prop} {p : Nat} {va : Vaddr}
  {page : Page} {op : Operation} {e : PagingError}

/-! ## The frame of a failed claim -/

theorem stocked_freeFrame (frame : Nat) :
    Ends (freeFrame frame) m Anyhow (fun _ next => next.pool.free ≠ []) fun _ _ => False := by
  have hreturned : ∀ {next : Machine}, Ends (returnToPool frame) next Anyhow
      (fun _ last => last.pool.free ≠ []) fun _ _ => False := by
    intro next
    unfold returnToPool FramePool.giveBack
    rw [ends_bind, ends_get]
    split
    · trivial
    · rw [ends_bind, ends_ofAbort_ok, ends_modify]
      exact List.cons_ne_nil frame _
  unfold freeFrame
  rw [ends_bind]
  apply ends_withLock_of
  unfold unlistFrame
  rw [ends_bind, ends_get]
  cases (m.locked .ring).ring.position? frame with
  | some place => exact hreturned
  | none => exact hreturned

theorem stocked_makeResident :
    Ends (makeResident p page) m Anyhow (fun _ _ => True) fun _ next => next.pool.free ≠ [] := by
  unfold makeResident
  rw [ends_bind]
  refine (ring_allocateFrame (ownerOf p page)).mono ?_ fun _ _ hfalse => hfalse.elim
  intro f given _
  unfold attachFrame
  rw [ends_bind, ends_bind, ends_get, ends_bind, ends_ensure]
  split
  · rw [ends_updatePage, ends_bind, ends_attempt]
    have hloading : Ends (mapAndLoad p page f)
        (given.modifyPage p page.va fun q => { q with frame := some f }) Anyhow
        (fun _ _ => True) fun _ _ => True := by
      unfold Ends
      split <;> trivial
    -- Nothing fails after a load that succeeds; one that fails is undone, which returns `f`.
    refine hloading.mono ?_ ?_
    · intro _ loaded _
      rw [ends_bind]
      exact ends_withLock_of trivial
    · intro e failed _
      unfold undoClaim detachFrame
      simp only [ends_bind, ends_unmapPage, ends_updatePage, ends_refuse]
      exact (stocked_freeFrame f).mono (fun _ _ hnext => hnext) fun _ _ hfalse => hfalse.elim
  · trivial

theorem stocked_claim (hpage : m.page? p va = some page) :
    Ends (claim p va) m Anyhow (fun _ _ => True) fun _ next => next.pool.free ≠ [] := by
  have hpage' : (m.locked (.page p va)).page? p va = some page := hpage
  apply ends_withLock_of
  rw [ends_bind, ends_get, ends_bind, hpage', ends_orFail_some, ends_when]
  split
  · exact stocked_makeResident.mono (fun _ _ _ => trivial) fun _ _ hnext => hnext
  · trivial

theorem ends_removeBlank (hpage : m.lookup p va = some page) (hframe : page.frame = none)
    (hmapping : page.mapping = none) {origin : Origin} (hstate : page.state = .uninit origin) :
    Ends (removePage p va) m Anyhow
      (fun _ next => next.pool = m.pool ∧ (next.process p).tornDown = (m.process p).tornDown)
      fun _ next => next.pool = m.pool ∧
        (next.process p).tornDown = (m.process p).tornDown := by
  have herased : ((m.modifyPages p fun pages => pages.erase (m.pageBase va)).process p).tornDown =
      (m.process p).tornDown :=
    process_modifyProcess_of_forall m p p Process.tornDown fun _ => rfl
  unfold removePage takePage
  simp only [ends_bind, ends_get, ends_modify, ends_pure]
  rw [show m.page? p (m.pageBase va) = some page from hpage, ends_orFail_some]
  unfold mappingOf
  apply ends_withLock_of
  rw [ends_pure, hmapping]
  apply ends_withLock_of
  unfold unmapResident releaseBacking
  rw [if_neg (by rw [Page.isResident, hframe]; exact Bool.false_ne_true), hframe, hstate]
  exact ⟨rfl, herased⟩

/-! ## Growing the stack -/

def withStackPage (m : Machine) (p : Nat) (va : Vaddr) : Machine :=
  m.withPage p ⟨0, m.pageBase va, true, true, none, none, p, m.layout.pageSize,
    .uninit (.anon none)⟩

theorem page?_withStackPage (va : Vaddr) (hopen : (m.process p).tornDown = false) :
    (m.withStackPage p va).page? p (m.pageBase va) = some
      ⟨m.nextId, m.pageBase va, true, true, none, none, p, m.layout.pageSize,
        .uninit (.anon none)⟩ := by
  rw [withStackPage, page?_withPage_eq (lt_of_tornDown_eq_false hopen)]
  exact setAt_self

section Stack

variable (k : m.Sound {} mem) (hgone : m.lookup p va = none)
  (hopen : (m.process p).tornDown = false)

include hgone hopen

theorem ends_growStack_iff {done : Unit → Machine → Prop}
    {failed : PagingError → Machine → Prop} :
    Ends (growStack p (m.pageBase va)) m fatal done failed ↔
      Ends (claim p (m.pageBase va)) (m.withStackPage p va) fatal
        (fun _ next => done () (next.recorded (.reported (.stackGrown (m.pageBase va)))))
        fun e next => Ends (removePage p (m.pageBase va)) next fatal
          (fun _ last => failed e last) fun _ last => failed e last := by
  have hfree : (m.process p).pages.contains (m.pageBase va) = false := by
    rw [AddressMap.contains, show (m.process p).pages.get? (m.pageBase va) = none from hgone]
    rfl
  unfold growStack register
  simp only [ends_bind, ends_get, stackPage_of_aligned (isAligned_pageBase m va),
    ends_ofStop_ok, ends_require, hopen, isAligned_pageBase, hfree, Bool.not_false, if_true,
    ends_set, ends_pure, ends_attempt]
  rfl

include k

theorem Sound.withStackPage : (m.withStackPage p va).Sound {} mem :=
  k.register hopen hgone rfl rfl rfl rfl (isAligned_pageBase m va) (fun _ hx => by contradiction)
    fun hx => by contradiction

theorem prevails_growStack (hworks : m.Works p (.uninit (.anon none))) :
    Prevails (growStack p (m.pageBase va)) m := by
  have hlasting : Lasting m (m.withStackPage p va) :=
    { Lasting.modifyProcess m p _ ⟨rfl, Nat.le_refl _⟩ with }
  refine (ends_growStack_iff hgone hopen).mpr ?_
  refine Ends.mono (prevails_claim (k.withStackPage hgone hopen) (page?_withStackPage va hopen)
    fun _ => hlasting.works hworks) ?_ fun _ _ hfalse => hfalse.elim
  exact fun _ _ htrue => htrue

theorem stocked_growStack :
    Ends (growStack p (m.pageBase va)) m Anyhow (fun _ _ => True)
      fun _ next => next.pool.free ≠ [] ∧ (next.process p).tornDown = false := by
  have hadded := page?_withStackPage va hopen
  refine (ends_growStack_iff hgone hopen).mpr ?_
  refine ((ends_claim (k.withStackPage hgone hopen) List.not_mem_nil List.not_mem_nil
    List.not_mem_nil fun _ => trivial).and (stocked_claim hadded)).mono ?_ ?_
  · exact fun _ _ _ => trivial
  · intro e next hnext
    rcases hnext with ⟨⟨halike, hsame, knext, -⟩, hstocked⟩
    have hpage := hsame.trans hadded
    have hbase : next.pageBase (m.pageBase va) = m.pageBase va :=
      pageBase_pageBase_of_layout halike.layout va
    have hlookup := hpage
    rw [← hbase] at hlookup
    -- The page that is removed again is as blank as it was added, so no frame goes with it.
    have hkept : ∀ {last : Machine}, last.pool = next.pool ∧
        (last.process p).tornDown = (next.process p).tornDown →
        last.pool.free ≠ [] ∧ (last.process p).tornDown = false := by
      intro last hlast
      rw [hlast.1, hlast.2]
      exact ⟨hstocked, knext.isOpen hpage⟩
    exact (ends_removeBlank hlookup rfl rfl rfl).mono (fun _ _ => hkept) fun _ _ => hkept

end Stack

/-! ## Admitted claims and faults -/

theorem admitted_cases (k : m.Sound {} mem) (hclaims : op.claims? = some (p, va))
    (hadmitted : op.Admitted m) :
    (∃ page looked, m.lookup p va = some page ∧ looked.Sound {} mem ∧ looked.page? = m.page? ∧
      Lasting m looked ∧ ∀ {fatal : Abort → Prop} {done : Machine → Prop}
        {failed : PagingError → Machine → Prop},
        Ends op.perform m fatal (fun _ => done) failed ↔
          Ends (claim p page.va) looked fatal (fun _ => done) failed) ∨
    (m.lookup p va = none ∧ (m.process p).tornDown = false ∧
      ∀ {fatal : Abort → Prop} {done : Machine → Prop} {failed : PagingError → Machine → Prop},
        Ends op.perform m fatal (fun _ => done) failed ↔
          Ends (growStack p (m.pageBase va)) m fatal (fun _ => done) failed) := by
  cases op with
  | claim q wa =>
      cases hclaims
      rcases Option.isSome_iff_exists.mp hadmitted with ⟨page, hpage⟩
      refine Or.inl ⟨page, m, hpage, k, rfl, .refl m, ?_⟩
      intro fatal done failed
      unfold Operation.perform claimPage
      simp only [ends_bind, ends_get, hpage, ends_orFail_some, ends_pure]
  | fault q f =>
      cases hclaims
      rcases hadmitted with ⟨hinside, habsent, hallowed⟩
      cases hpage : m.lookup p f.va with
      | none =>
          rw [hpage] at hallowed
          refine Or.inr ⟨rfl, hallowed.2, ?_⟩
          intro fatal done failed
          unfold Operation.perform resolveFault
          simp only [ends_bind, ends_get, hinside, habsent, hpage, hallowed.1, Bool.not_true,
            Bool.false_eq_true, if_false, if_true, ends_pure]
      | some page =>
          rw [hpage] at hallowed
          -- Whether the page permits a write is looked up under its lock, so that the claim starts
          -- from another machine than the fault.
          have hlooking : ∃ looked, looked.Sound {} mem ∧ looked.page? = m.page? ∧
              Lasting m looked ∧ ∀ {fatal : Abort → Prop} {done : Bool → Machine → Prop}
                {failed : PagingError → Machine → Prop},
                Ends (forbidsWrite p page f.cause) m fatal done failed ↔ done false looked := by
            have hfree : Lock.page p page.va ∉ m.held := k.not_held List.not_mem_nil
            cases hwrite : f.cause.write with
            | false =>
                refine ⟨m, k, rfl, .refl m, ?_⟩
                intro fatal done failed
                unfold forbidsWrite
                rw [hwrite]
                exact Iff.rfl
            | true =>
                have hpermits : (!page.writable) = false := by
                  rw [hwrite] at hallowed
                  exact hallowed
                refine ⟨(m.locked (.page p page.va)).unlocked (.page p page.va),
                  (k.locked _).unlocked rfl, rfl, { Lasting.refl m with }, ?_⟩
                intro fatal done failed
                unfold forbidsWrite
                rw [hwrite, if_pos rfl, ends_withLock hfree, ends_pure, hpermits]
          rcases hlooking with ⟨looked, klooked, hpages, hlasting, hlooking⟩
          refine Or.inl ⟨page, looked, rfl, klooked, hpages, hlasting, ?_⟩
          intro fatal done failed
          unfold Operation.perform resolveFault resolveAtPage
          simp only [ends_bind, ends_get, hinside, habsent, hpage, hlooking, Bool.not_true,
            Bool.false_eq_true, if_false, ends_pure]
  | _ => contradiction

theorem prevails_perform (k : m.Sound {} mem) (hclaims : op.claims? = some (p, va))
    (hadmitted : op.Admitted m) (hworks : m.Idle p va → m.Works p (m.stateAt p va)) :
    Prevails op.perform m := by
  rcases admitted_cases k hclaims hadmitted with
    ⟨page, looked, hpage, klooked, hpages, hlasting, hends⟩ | ⟨hgone, hopen, hends⟩
  · have haddress := (k.placed p _ page hpage).address
    have hpage' : looked.page? p page.va = some page := by
      rw [hpages, haddress]
      exact hpage
    have hstate : m.stateAt p va = page.state := by
      rw [stateAt, hpage]
    rw [hstate] at hworks
    refine hends.mpr (prevails_claim klooked hpage' ?_)
    intro hnone
    refine hlasting.works (hworks ?_)
    intro other hother
    cases hpage.symm.trans hother
    exact hnone
  · have hstate : m.stateAt p va = .uninit (.anon none) := by
      rw [stateAt, hgone]
    rw [hstate] at hworks
    refine hends.mpr (prevails_growStack k hgone hopen (hworks ?_))
    intro other hother
    rw [hgone] at hother
    contradiction

/-- What is admitted and fails has returned its frame to the pool. -/
theorem stocked_perform (k : m.Sound {} mem) (hclaims : op.claims? = some (p, va))
    (hadmitted : op.Admitted m) :
    Ends op.perform m Anyhow (fun _ _ => True) fun _ next => next.pool.free ≠ [] ∧
      (m.lookup p va = none → (next.process p).tornDown = false) := by
  rcases admitted_cases k hclaims hadmitted with
    ⟨page, looked, hpage, klooked, hpages, -, hends⟩ | ⟨hgone, hopen, hends⟩
  · have hpage' : looked.page? p page.va = some page := by
      rw [hpages, (k.placed p _ page hpage).address]
      exact hpage
    refine hends.mpr ((stocked_claim hpage').mono (fun _ _ htrue => htrue) ?_)
    intro _ next hstocked
    refine ⟨hstocked, ?_⟩
    intro hgone
    rw [hpage] at hgone
    contradiction
  · refine hends.mpr ((stocked_growStack k hgone hopen).mono (fun _ _ htrue => htrue) ?_)
    exact fun _ next hnext => ⟨hnext.1, fun _ => hnext.2⟩

theorem ends_claims (k : m.Sound {} mem) (hclaims : op.claims? = some (p, va))
    (hfatal : m.pool.GivesNone → fatal .framesExhausted) :
    Ends op.perform m fatal (fun _ next => ∃ page f, m.Resolved next p va mem page f)
      fun _ next => m.Unresolved next p va mem := by
  cases op with
  | claim q wa =>
      cases hclaims
      unfold Operation.perform
      rw [ends_bind]
      refine (ends_claimPage k hfatal).mono ?_ fun _ _ hnext => hnext
      rintro _ next ⟨page, f, hresolved, -⟩
      exact ⟨page, f, hresolved⟩
  | fault q f =>
      cases hclaims
      unfold Operation.perform
      rw [ends_bind]
      refine (ends_resolveFault k hfatal).mono ?_ fun _ _ hnext => hnext
      rintro _ next ⟨page, frame, hresolved, -⟩
      exact ⟨page, frame, hresolved⟩
  | _ => contradiction

theorem Sound.exists_resolved {reply : Reply} (k : m.Sound {} mem)
    (hclaims : op.claims? = some (p, va)) (hserved : op.perform m = .ok reply next) :
    ∃ page f, m.Resolved next p va mem page f :=
  Ends.of_ok (ends_claims k hclaims fun _ => show Anyhow .framesExhausted from trivial) hserved

theorem Sound.unresolved (k : m.Sound {} mem) (hclaims : op.claims? = some (p, va))
    (hfailed : op.perform m = .error (.failed e) next) : m.Unresolved next p va mem :=
  Ends.of_failed (ends_claims k hclaims fun _ => show Anyhow .framesExhausted from trivial) hfailed

theorem Unresolved.lookup (h : m.Unresolved next p va mem) :
    next.lookup p va = m.lookup p va := by
  unfold Machine.lookup pageBase
  rw [h.alike.layout]
  exact h.page

theorem Unresolved.admitted (h : m.Unresolved next p va mem)
    (hclaims : op.claims? = some (p, va)) (hadmitted : op.Admitted m)
    (hopen : m.lookup p va = none → (next.process p).tornDown = false) : op.Admitted next := by
  have hlookup := h.lookup
  have hlayout := h.alike.layout
  cases op with
  | claim q wa =>
      cases hclaims
      unfold Operation.Admitted at hadmitted ⊢
      dsimp only at hadmitted ⊢
      rw [hlookup]
      exact hadmitted
  | fault q f =>
      cases hclaims
      rcases hadmitted with ⟨hinside, habsent, hallowed⟩
      unfold Operation.Admitted
      dsimp only
      rw [hlookup, hlayout]
      refine ⟨hinside, habsent, ?_⟩
      cases hpage : m.lookup p f.va with
      | none =>
          rw [hpage] at hallowed
          exact ⟨hallowed.1, hopen hpage⟩
      | some page =>
          rw [hpage] at hallowed
          exact hallowed
  | _ => contradiction

/-! ## What is left of a failed claim -/

/-- A claim or a fault for an address has left everything as it was, but for the frames and slots
of other pages, which may have been evicted. -/
structure Unharmed (m : Machine) (p : Nat) (va : Vaddr) (next : Machine) : Prop where
  /-- The same pages are registered, with the same outlines. -/
  pages : ∀ q wa, (next.page? q wa).map Page.outline = (m.page? q wa).map Page.outline
  /-- The page that was to become resident is the same in every part. -/
  page : next.lookup p va = m.lookup p va
  slot : ∀ page s, m.lookup p va = some page → page.slot = some s →
    next.swap.slotContent s = m.swap.slotContent s
  unmapped : m.mapped? p (m.pageBase va) = none → next.mapped? p (m.pageBase va) = none
  unpinned : ∀ entry ∈ next.ring.entries, entry.pinned = false
  unlisted : m.Idle p va → ∀ entry ∈ next.ring.entries,
    ¬(entry.owner.process = p ∧ entry.owner.va = m.pageBase va)
  /-- The anonymous pages of all processes hold the same bytes. -/
  contents : ∀ q wa page, m.page? q wa = some page → page.stateClass = .anon →
    ∃ other, next.page? q wa = some other ∧ next.bytesOf other = m.bytesOf page

theorem Unresolved.slotContent (k : m.Sound {} mem) (h : m.Unresolved next p va mem) {s : Nat}
    (hpage : m.lookup p va = some page) (hslot : page.slot = some s) :
    next.swap.slotContent s = m.swap.slotContent s := by
  have hanon := PageState.eq_anon_of_slot hslot
  have hbefore := (k.contents p _ page hpage).inSlot s hanon
  have hafter := (h.sound.contents p _ page (h.page.trans hpage)).inSlot s hanon
  rw [h.alike.layout] at hafter
  exact hafter.trans hbefore.symm

theorem Unresolved.unharmed (k : m.Sound {} mem) (h : m.Unresolved next p va mem) :
    m.Unharmed p va next where
  pages := fun q wa => h.alike.pages q wa id
  page := h.lookup
  slot := fun _ _ hpage hslot => h.slotContent k hpage hslot
  unmapped := by
    intro hnone
    exact Option.map_eq_none_iff.mp (h.unmapped (Option.map_eq_none_iff.mpr hnone))
  unpinned := by
    intro entry hentry
    cases hpinned : entry.pinned with
    | false => rfl
    | true => exact absurd (h.sound.frames.pinned entry hentry hpinned) List.not_mem_nil
  unlisted := by
    rintro hidle entry hentry ⟨hprocess, hva⟩
    rcases (h.sound.frames.owned entry hentry).resolve_left List.not_mem_nil with
      ⟨page, hpage, -, hframe⟩
    rw [hprocess, hva, h.page] at hpage
    rw [hidle page hpage] at hframe
    contradiction
  contents := by
    intro q wa page hpage hclass
    have hsame := h.alike.pages q wa id
    rw [hpage, Option.map_some] at hsame
    rcases Option.map_eq_some_iff.mp hsame with ⟨other, hother, houtline⟩
    rcases PageState.exists_anon_of_ownClass hclass with ⟨slot, hanon⟩
    have hclass' := congrArg PageState.ownClass (congrArg Page.state houtline)
    rw [Page.outline, Page.outline, PageState.ownClass_copied, PageState.ownClass_copied, hanon]
      at hclass'
    rcases PageState.exists_anon_of_ownClass hclass' with ⟨slot', hanon'⟩
    refine ⟨other, hother, ?_⟩
    rw [k.bytesOf_anon hpage hanon, h.sound.bytesOf_anon hother hanon', h.alike.layout]

/-- A page of a failed claim or fault is resident after the next attempt, with what a load would
have delivered at first if its files and its loader still deliver the same. -/
structure Recovered (m next last : Machine) (p : Nat) (va : Vaddr) (page : Page) (f : Nat) :
    Prop where
  lookup : last.lookup p va = some page
  frame : page.frame = some f
  mapped : last.link? p (m.pageBase va) = some (f, page.writable)
  content : SameContents m.files last.files →
    (m.stateAt p va).SameLoader m.loaderRuns next.loaderRuns m.layout.pageBytes →
    last.pool.content f = m.deliveredAt p va

/-- A claim or a fault that fails leaves everything as it was, whatever made it fail. If it was
admitted, then a refused mapping or a failed load made it fail; when the next calls are let
through, it is served the next time. It can abort only if the pool refuses to give the frame that
it got back. -/
theorem failed_claim_retryable (h : m.Reachable) (hclaims : op.claims? = some (p, va))
    (hfailed : op.perform m = .error (.failed e) next) :
    m.Unharmed p va next ∧
      (op.Admitted m → next.Works p (m.stateAt p va) →
        Ends op.perform next
          (fun a => a = .framesExhausted ∧ next.pool.granting.peek = false)
          (fun _ last => ∃ page f, m.Recovered next last p va page f)
          fun _ _ => False) := by
  rcases h.sound with ⟨mem, k⟩
  have hends : Ends op.perform m Anyhow (fun _ next => ∃ page f, m.Resolved next p va mem page f)
      fun _ next => m.Unresolved next p va mem := ends_claims k hclaims fun _ => trivial
  have hunresolved := hends.of_failed hfailed
  refine ⟨hunresolved.unharmed k, ?_⟩
  intro hadmitted hworks
  rcases (stocked_perform k hclaims hadmitted).of_failed hfailed with ⟨hstocked, hopen⟩
  have hadmitted' := hunresolved.admitted hclaims hadmitted hopen
  -- The claim of a resident page does not fail, whatever works or not.
  have hidle : m.Idle p va := by
    by_contra hresident
    exact Ends.of_failed (prevails_perform k hclaims hadmitted fun hidle =>
      absurd hidle hresident) hfailed
  have hidle' : next.Idle p va := by
    intro page hpage
    rw [hunresolved.lookup] at hpage
    exact hidle page hpage
  have hstate : next.stateAt p va = m.stateAt p va := by
    rw [stateAt, hunresolved.lookup]
    rfl
  have hprevails := prevails_perform hunresolved.sound hclaims hadmitted' fun _ => by
    rw [hstate]
    exact hworks
  have hfatal : next.pool.GivesNone → Abort.framesExhausted = .framesExhausted ∧
      next.pool.granting.peek = false :=
    fun hnone => ⟨rfl, hnone.resolve_right hstocked⟩
  refine ((ends_claims hunresolved.sound hclaims hfatal).and hprevails).mono ?_
    fun _ _ hfalse => hfalse.2
  intro _ last hlast
  rcases hlast with ⟨⟨page, f, hresolved⟩, -⟩
  have hlayout := hunresolved.alike.layout
  have hbase : next.pageBase va = m.pageBase va := by
    rw [pageBase, hlayout]
    rfl
  refine ⟨page, f, hresolved.lookup, hresolved.frame, ?_, ?_⟩
  · rw [← hbase]
    exact hresolved.mapped hidle'.not_stranded
  · intro hfiles hloader
    rw [hresolved.content_eq hunresolved.sound hidle', hstate, hlayout]
    refine PageState.delivered_congr hfiles hloader ?_
    intro s hslot
    cases hpage : m.lookup p va with
    | none =>
        rw [stateAt, hpage] at hslot
        contradiction
    | some old =>
        rw [stateAt, hpage] at hslot
        exact hunresolved.slotContent k hpage hslot

def acceptingAfter? (m : Machine) (op : Operation) (p : Nat) : Option (Schedule Bool) :=
  match op.perform m with
  | .error (.failed _) next => some (next.process p).mmu.accepting
  | _ => none

theorem exists_of_acceptingAfter? {s : Schedule Bool} (h : m.acceptingAfter? op p = some s) :
    ∃ e next, op.perform m = .error (.failed e) next ∧ (next.process p).mmu.accepting = s := by
  unfold acceptingAfter? at h
  split at h
  · rename_i e next hfailed
    exact ⟨e, next, hfailed, Option.some.inj h⟩
  · contradiction

def firstRefused : Schedule Bool :=
  ⟨fun call => call != 0, 0⟩

/-- A first claim is refused its mapping, and a second one is served. -/
theorem claimed_after_refusal : ∃ (m : Machine) (e : PagingError) (next : Machine),
    m.Reachable ∧ (Operation.claim 0 0x1000).perform m = .error (.failed e) next ∧
      m.Unharmed 0 0x1000 next ∧ Ends (Operation.claim 0 0x1000).perform next
        (fun a => a = .framesExhausted ∧ next.pool.granting.peek = false)
        (fun _ last => ∃ page f, m.Recovered next last 0 0x1000 page f) fun _ _ => False := by
  have hrun := Reachable.of_view smallConfig (smallHardware none [])
    [.start firstRefused, .allocate 0 .anon 0x1000 true none]
    (fun m => ((m.lookup 0 0x1000).map Page.state, m.acceptingAfter? (.claim 0 0x1000) 0))
    (show _ = some (some (.uninit (.anon none)), some ⟨firstRefused.outcome, 1⟩) from rfl)
  rcases hrun with ⟨m, hm, hview⟩
  rcases Prod.mk.inj hview with ⟨hstate, haccepting⟩
  rcases exists_of_acceptingAfter? haccepting with ⟨e, next, hfailed, haccepting⟩
  rcases Option.map_eq_some_iff.mp hstate with ⟨page, hpage, hstate⟩
  have hworks : next.Works 0 (m.stateAt 0 0x1000) := by
    rw [stateAt, hpage]
    dsimp only
    rw [hstate]
    refine ⟨?_, trivial⟩
    rw [haccepting]
    intro call hcall
    exact bne_iff_ne.mpr (Nat.ne_of_gt hcall)
  have hretry := failed_claim_retryable hm rfl hfailed
  exact ⟨m, e, next, hm, hfailed, hretry.1,
    hretry.2 (Option.isSome_iff_exists.mpr ⟨page, hpage⟩) hworks⟩

end Machine
end DemandPaging
