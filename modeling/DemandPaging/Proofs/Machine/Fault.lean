import DemandPaging.Machine.Fault
import DemandPaging.Proofs.Machine.Registration

/-!
# Faults on a sound machine

A fault that is resolved leaves a resident page. The page is mapped, too, unless it was resident
before the fault without being mapped: then claiming it does nothing.
-/

namespace DemandPaging
namespace Machine

open Routine

/-- What the page at an address has still to be loaded from: nothing, if it was loaded before, and
zeros, if it will be a new page of the stack. -/
def originAt? (m : Machine) (p : Nat) (va : Vaddr) : Option Origin :=
  match m.lookup p va with
  | some page => page.state.origin?
  | none => some (.anon none)

def Stranded (m : Machine) (p : Nat) (va : Vaddr) : Prop :=
  (∃ page, m.lookup p va = some page ∧ page.isResident = true) ∧
    m.mapped? p (m.pageBase va) = none

def stateAt (m : Machine) (p : Nat) (va : Vaddr) : PageState :=
  match m.lookup p va with
  | some page => page.state
  | none => .uninit (.anon none)

def Idle (m : Machine) (p : Nat) (va : Vaddr) : Prop :=
  ∀ page, m.lookup p va = some page → page.frame = none

theorem Idle.not_stranded {m : Machine} {p : Nat} {va : Vaddr} (h : m.Idle p va) :
    ¬m.Stranded p va := by
  rintro ⟨⟨page, hpage, hresident⟩, -⟩
  rw [Page.isResident, h page hpage] at hresident
  contradiction

def loadedMemory (m next : Machine) (p : Nat) (va : Vaddr) (mem : FlatMemory) : FlatMemory :=
  match m.originAt? p va with
  | some origin =>
      mem.store p (m.pageBase va) (origin.image next.files m.loaderRuns m.layout.pageBytes)
  | none => mem

variable {m : Machine} {mem : FlatMemory} {fatal : Abort → Prop} {p : Nat} {va : Vaddr}

structure Resolved (m next : Machine) (p : Nat) (va : Vaddr) (mem : FlatMemory) (page : Page)
    (f : Nat) : Prop where
  alike : m.AlikeBut (At p (m.pageBase va)) next
  lookup : next.lookup p va = some page
  frame : page.frame = some f
  claimed : ∀ old, m.lookup p va = some old →
    page = { old with frame := some f, state := old.state.loaded }
  stack : m.lookup p va = none → page =
    ⟨m.nextId, m.pageBase va, true, true, some f, none, p, m.layout.pageSize, .anon none⟩
  stays : m.Stranded p va → next.link? p (m.pageBase va) = none
  mapped : ¬m.Stranded p va → next.link? p (m.pageBase va) = some (f, page.writable)
  filled : m.Idle p va → Filled (next.pool.content f) (m.stateAt p va) next.files m.loaderRuns
    (mem.image p (m.pageBase va) m.layout.pageBytes)
  sound : next.Sound {} (m.loadedMemory next p va mem)

/-- A claim or a fault that fails changes nothing that the process could find, and it leaves the
page that it is about as it was. -/
structure Unresolved (m next : Machine) (p : Nat) (va : Vaddr) (mem : FlatMemory) : Prop where
  alike : m.AlikeBut Nowhere next
  page : next.page? p (m.pageBase va) = m.page? p (m.pageBase va)
  unmapped : m.link? p (m.pageBase va) = none → next.link? p (m.pageBase va) = none
  sound : next.Sound {} mem

theorem Unresolved.alike_sound {next : Machine} (h : m.Unresolved next p va mem) :
    m.AlikeBut Nowhere next ∧ next.Sound {} mem :=
  ⟨h.alike, h.sound⟩

theorem Resolved.permission {next : Machine} {page old : Page} {f : Nat}
    (h : m.Resolved next p va mem page f) (hold : m.lookup p va = some old) :
    page.writable = old.writable := by
  rw [h.claimed old hold]

theorem isAligned_pageBase (m : Machine) (va : Vaddr) :
    Word.isAligned (m.pageBase va) m.layout.pageSize = true :=
  Word.isAligned_alignDown m.layout.fits.1

theorem pageBase_pageBase (m : Machine) (va : Vaddr) :
    m.pageBase (m.pageBase va) = m.pageBase va :=
  Word.alignDown_alignDown m.layout.fits.1

theorem pageBase_pageBase_of_layout {next : Machine} (h : next.layout = m.layout) (va : Vaddr) :
    next.pageBase (m.pageBase va) = m.pageBase va := by
  rw [pageBase, h]
  exact pageBase_pageBase m va

/-! ## Registered pages -/

theorem ends_claim_resolved {page : Page} (k : m.Sound {} mem)
    (hpage : m.lookup p va = some page) (hfatal : m.pool.GivesNone → fatal .framesExhausted) :
    Ends (claim p page.va) m fatal
      (fun _ next => ∃ resolved f, m.Resolved next p va mem resolved f)
      fun _ next => m.Unresolved next p va mem := by
  have haddress : page.va = m.pageBase va := (k.placed p _ page hpage).address
  rw [haddress]
  refine (ends_claim k List.not_mem_nil List.not_mem_nil List.not_mem_nil hfatal).mono ?_ ?_
  · intro _ next hnext
    rcases hnext with ⟨halike, old, f, hold, hnew, knext, hlink⟩
    have hsame : old = page := Option.some.inj (hold.symm.trans hpage)
    subst hsame
    have hmemory : m.loadedMemory next p va mem =
        mem.load p (m.pageBase va) old.state next.files m.loaderRuns m.layout.pageBytes := by
      rw [loadedMemory, originAt?, hpage]
      rfl
    have hstate : m.stateAt p va = old.state := by
      rw [stateAt, hpage]
    refine ⟨{ old with frame := some f, state := old.state.loaded }, f, halike, ?_, rfl, ?_, ?_,
      ?_, ?_, ?_, ?_⟩
    · rw [lookup, pageBase, halike.layout]
      exact hnew
    · intro other hother
      rw [hpage] at hother
      cases hother
      rfl
    · intro hnone
      rw [hpage] at hnone
      contradiction
    · intro hstranded
      rcases hstranded with ⟨⟨other, hother, hresident⟩, hunmapped⟩
      rcases hlink with ⟨_, hkept⟩ | ⟨hnone, -⟩
      · rw [hkept]
        exact Option.map_eq_none_iff.mpr hunmapped
      · rw [hpage] at hother
        cases hother
        rw [Page.isResident, hnone] at hresident
        contradiction
    · intro hmapped
      rcases hlink with ⟨hframe, hkept⟩ | ⟨_, hnew, -⟩
      · rw [hkept]
        cases hlinked : m.link? p (m.pageBase va) with
        | none =>
            refine absurd ⟨⟨old, hpage, ?_⟩, Option.map_eq_none_iff.mp hlinked⟩ hmapped
            rw [Page.isResident, hframe]
            rfl
        | some l =>
            rcases (k.links.backed p _ l.1 l.2 hlinked).resolve_left List.not_mem_nil with
              ⟨other, hother, hframe', hwritable⟩
            cases hold.symm.trans hother
            rw [hframe] at hframe'
            cases hframe'
            rw [hwritable]
      · exact hnew
    · intro hidle
      rcases hlink with ⟨hframe, _⟩ | ⟨_, _, hfilled⟩
      · rw [hidle old hpage] at hframe
        contradiction
      · rw [hstate]
        exact hfilled
    · rw [hmemory]
      exact knext
  · intro _ next hnext
    rcases hnext with ⟨halike, hsame, knext, hidle⟩
    exact ⟨halike, hsame, fun _ => knext.link?_eq_none (hsame ▸ hidle) List.not_mem_nil, knext⟩

theorem ends_claimPage (k : m.Sound {} mem) (hfatal : m.pool.GivesNone → fatal .framesExhausted) :
    Ends (claimPage p va) m fatal
      (fun _ next => ∃ page f, m.Resolved next p va mem page f ∧ (m.lookup p va).isSome = true)
      fun _ next => m.Unresolved next p va mem := by
  unfold claimPage
  rw [ends_bind, ends_get, ends_bind]
  cases hpage : m.lookup p va with
  | none => exact ⟨.refl m, rfl, id, k⟩
  | some page =>
      rw [ends_orFail_some]
      refine (ends_claim_resolved k hpage hfatal).mono ?_ fun _ _ hnext => hnext
      intro _ next hend
      rcases hend with ⟨resolved, f, hresolved⟩
      exact ⟨resolved, f, hresolved, rfl⟩

/-! ## The stack -/

theorem stackPage_of_aligned {l : Layout} {p : Nat} {va : Vaddr}
    (haligned : Word.isAligned va l.pageSize = true) :
    stackPage l p va =
      .ok ⟨0, va, true, true, none, none, p, l.pageSize, .uninit (.anon none)⟩ := by
  unfold stackPage Page.create
  rw [Word.isAlignedOrAbort_eq l.pageSize_ne_zero, haligned]
  rfl

theorem ends_removeAdded {next : Machine} (k : next.Sound {} mem) (hgone : m.lookup p va = none)
    (hadded : m.AlikeBut (At p (m.pageBase va)) next) :
    Ends (removePage p (m.pageBase va)) next fatal
      (fun _ last => m.Unresolved last p va mem) fun _ last => m.Unresolved last p va mem := by
  have hbase := pageBase_pageBase_of_layout hadded.layout va
  have hremoved : ∀ {last : Machine},
      next.Cleared (At p (next.pageBase (m.pageBase va))) last ∧ last.Sound {} mem →
      m.Unresolved last p va mem := by
    intro last hend
    rcases hend with ⟨hcleared, klast⟩
    rw [hbase] at hcleared
    have hsame : last.page? p (m.pageBase va) = m.page? p (m.pageBase va) :=
      (hcleared.gone p _ ⟨rfl, rfl⟩).trans hgone.symm
    refine ⟨(hadded.trans hcleared.alikeBut).unchanged (congrArg (Option.map Page.outline) hsame),
      hsame, fun _ => klast.link?_eq_none ?_ List.not_mem_nil, klast⟩
    rw [hcleared.gone p _ ⟨rfl, rfl⟩]
    rfl
  refine (ends_removePage k).mono ?_ ?_
  · intro _ last hlast
    exact hremoved hlast
  · intro _ last hlast
    exact hremoved hlast

theorem ends_growStack (k : m.Sound {} mem) (hgone : m.lookup p va = none)
    (hfatal : m.pool.GivesNone → fatal .framesExhausted) :
    Ends (growStack p (m.pageBase va)) m fatal
      (fun _ next => ∃ page f, m.Resolved next p va mem page f)
      fun _ next => m.Unresolved next p va mem := by
  unfold growStack
  rw [ends_bind, ends_get, ends_bind]
  rw [stackPage_of_aligned (isAligned_pageBase m va), ends_ofStop_ok, ends_bind]
  refine Ends.mono (ends_register (fun _ => k) rfl rfl rfl rfl (fun _ hx => (by contradiction))
    fun hx => by contradiction) ?_ ?_
  · intro _ registered hend
    -- From here on there is a page, so the claim is judged against the machine that has it.
    rcases hend with ⟨-, rfl, hp, hfree, kregistered⟩
    have hviews : (m.withPage p ⟨0, m.pageBase va, true, true, none, none, p,
        m.layout.pageSize, .uninit (.anon none)⟩).page? =
        setAt m.page? p (m.pageBase va) (some ⟨m.nextId, m.pageBase va, true, true, none, none,
          p, m.layout.pageSize, .uninit (.anon none)⟩) := page?_withPage_eq hp
    have hadded : m.AlikeBut (At p (m.pageBase va)) (m.withPage p
        ⟨0, m.pageBase va, true, true, none, none, p, m.layout.pageSize,
          .uninit (.anon none)⟩) := .of_setAt rfl hviews
    rw [ends_bind, ends_attempt]
    refine (ends_claim kregistered List.not_mem_nil List.not_mem_nil List.not_mem_nil
      hfatal).mono ?_ ?_
    · intro _ next hnext
      rcases hnext with ⟨hclaimed, old, f, hold, hnew, knext, hlink⟩
      rw [hviews, setAt_self] at hold
      cases hold
      have halike := hadded.trans hclaimed
      rcases hlink.resolve_left fun h => nomatch h.1 with ⟨_, hmapped, hfilled⟩
      have hmemory : next.Sound {} (m.loadedMemory next p va mem) := by
        rw [loadedMemory, originAt?, hgone]
        exact knext
      have hstate : m.stateAt p va = .uninit (.anon none) := by
        rw [stateAt, hgone]
      refine ⟨_, f, { halike with }, ?_, rfl, ?_, fun _ => rfl, ?_, fun _ => hmapped, ?_,
        hmemory.recorded _⟩
      · show next.page? p (Word.alignDown va next.layout.pageSize) = _
        rw [halike.layout]
        exact hnew
      · intro other hother
        rw [hgone] at hother
        contradiction
      · intro hat
        rcases hat with ⟨⟨other, hother, _⟩, _⟩
        rw [hgone] at hother
        contradiction
      · intro _
        rw [hstate]
        exact hfilled
    · intro e next hend
      rcases hend with ⟨hfailed, -, knext, -⟩
      have hnext := hadded.trans (hfailed.mono fun _ _ hin => hin.elim)
      rw [ends_bind, ends_attempt]
      exact ends_removeAdded knext hgone hnext
  · intro _ _ heq
    subst heq
    exact ⟨.refl _, rfl, id, k⟩

/-! ## All faults -/

theorem ends_forbidsWrite {page : Page} {cause : FaultCause} (k : m.Sound {} mem) :
    Ends (forbidsWrite p page cause) m fatal
      (fun forbidden next => forbidden = (cause.write && !page.writable) ∧
        (next = m ∨ next = (m.locked (.page p page.va)).unlocked (.page p page.va)))
      fun _ _ => False := by
  have hfree : Lock.page p page.va ∉ m.held := k.not_held List.not_mem_nil
  unfold forbidsWrite
  split
  · rename_i hwrite
    rw [ends_withLock hfree, ends_pure, hwrite]
    exact ⟨rfl, Or.inr rfl⟩
  · rename_i hread
    rw [Bool.eq_false_iff.mpr hread]
    exact ⟨rfl, Or.inl rfl⟩

theorem ends_resolveAtPage {page : Page} {f : Fault} (k : m.Sound {} mem)
    (hpage : m.lookup p f.va = some page) (hfatal : m.pool.GivesNone → fatal .framesExhausted) :
    Ends (resolveAtPage p page f) m fatal
      (fun _ next => ∃ resolved frame, m.Resolved next p f.va mem resolved frame ∧
        (f.cause.write = true → resolved.writable = true))
      fun _ next => m.Unresolved next p f.va mem := by
  have hclaimed : ∀ {looked : Machine},
      looked = m ∨ looked = (m.locked (.page p page.va)).unlocked (.page p page.va) →
      (f.cause.write && !page.writable) = false →
      Ends (claim p page.va) looked fatal
        (fun _ next => ∃ resolved frame, m.Resolved next p f.va mem resolved frame ∧
          (f.cause.write = true → resolved.writable = true))
        fun _ next => m.Unresolved next p f.va mem := by
    intro looked hlooked hallowed
    have hwritable : ∀ {resolved : Page} {next : Machine} {frame : Nat},
        m.Resolved next p f.va mem resolved frame →
          f.cause.write = true → resolved.writable = true := by
      intro resolved next frame hresolved hwrite
      rw [hresolved.permission hpage]
      rw [hwrite, Bool.true_and, Bool.not_eq_false'] at hallowed
      exact hallowed
    rcases hlooked with rfl | rfl
    · refine (ends_claim_resolved k hpage hfatal).mono ?_ fun _ _ hnext => hnext
      intro _ next hend
      rcases hend with ⟨resolved, frame, hresolved⟩
      exact ⟨resolved, frame, hresolved, hwritable hresolved⟩
    · have klooked := (k.locked (.page p page.va)).unlocked rfl
      refine (ends_claim_resolved klooked hpage hfatal).mono ?_
        fun _ _ hnext => { hnext with alike := { hnext.alike with } }
      intro _ next hend
      rcases hend with ⟨resolved, frame, hresolved⟩
      have hresolved' : m.Resolved next p f.va mem resolved frame :=
        { hresolved with alike := { hresolved.alike with } }
      exact ⟨resolved, frame, hresolved', hwritable hresolved'⟩
  unfold resolveAtPage
  rw [ends_bind]
  refine (ends_forbidsWrite k).mono ?_ fun _ _ hfalse => hfalse.elim
  intro forbidden next hend
  rcases hend with ⟨rfl, hlooked⟩
  cases hforbidden : (f.cause.write && !page.writable) with
  | true =>
      rcases hlooked with rfl | rfl
      · exact ⟨.of_page?_eq rfl rfl, rfl, id, k.recorded _⟩
      · exact ⟨.of_page?_eq rfl rfl, rfl, id, ((k.locked _).unlocked rfl).recorded _⟩
  | false => exact hclaimed hlooked hforbidden

/-- A fault that is resolved leaves a resident page that allows the access. -/
theorem ends_resolveFault {f : Fault} (k : m.Sound {} mem)
    (hfatal : m.pool.GivesNone → fatal .framesExhausted) :
    Ends (resolveFault p f) m fatal
      (fun _ next => ∃ page frame, m.Resolved next p f.va mem page frame ∧
        (f.cause.write = true → page.writable = true))
      fun _ next => m.Unresolved next p f.va mem := by
  unfold resolveFault
  rw [ends_bind, ends_get]
  split
  · exact ⟨.of_page?_eq rfl rfl, rfl, id, k.recorded _⟩
  · split
    · exact ⟨.of_page?_eq rfl rfl, rfl, id, k.recorded _⟩
    · cases hpage : m.lookup p f.va with
      | none =>
          dsimp only
          split
          · refine (ends_growStack k hpage hfatal).mono ?_ fun _ _ hnext => hnext
            intro _ next hend
            rcases hend with ⟨page, frame, hresolved⟩
            exact ⟨page, frame, hresolved, fun _ => by rw [hresolved.stack hpage]⟩
          · exact ⟨.of_page?_eq rfl rfl, rfl, id, k.recorded _⟩
      | some page => exact ends_resolveAtPage k hpage hfatal

end Machine
end DemandPaging
