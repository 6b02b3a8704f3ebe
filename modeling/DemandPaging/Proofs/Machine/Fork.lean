import DemandPaging.Machine.Fork
import DemandPaging.Proofs.Machine.Registration

/-!
# Forks on a sound machine

A copied page stands for the bytes that its original stood for when it was copied. To the flat
memory a successful fork is one copy of all registered pages; one that fails has changed the memory
of the target only.
-/

namespace DemandPaging
namespace Machine

open Routine

/-! ## Machines before and after copying -/

/-- Every page is still there, up to frames and slots, and what is new are copies of pages of the
source. -/
structure Copied (s t : Nat) (m n : Machine) : Prop where
  alike : AlikeBut (fun q wa => q = t ∧ m.page? t wa = none) m n
  copies : ∀ va copy, m.page? t va = none → n.page? t va = some copy →
    ∃ page, m.page? s va = some page ∧
      copy.outline = { page.outline with id := copy.id, mmu := t }

namespace Copied

variable {s t : Nat} {l m n : Machine}

theorem of_alike (h : AlikeBut Nowhere m n) : Copied s t m n := by
  refine ⟨h.mono fun _ _ hin => hin.elim, ?_⟩
  intro va copy hnone hcopy
  rcases h.page?_eq_some id hcopy with ⟨old, hold, -⟩
  rw [hnone] at hold
  contradiction

theorem refl (m : Machine) : Copied s t m m :=
  .of_alike (.refl m)

theorem none_of_none (h : Copied s t m n) {va : Vaddr} (hnone : n.page? t va = none) :
    m.page? t va = none := by
  cases hpage : m.page? t va with
  | none => rfl
  | some page =>
      have hsome := h.alike.isSome_page? (p := t) fun hin => by
        rw [hpage] at hin
        exact nomatch hin.2
      rw [hnone, hpage] at hsome
      contradiction

theorem isSome_of_isSome (h : Copied s t m n) {q : Nat} {va : Vaddr}
    (hsome : (m.page? q va).isSome = true) : (n.page? q va).isSome = true := by
  rw [h.alike.isSome_page?]
  · exact hsome
  · intro hat
    rcases hat with ⟨rfl, hnone⟩
    rw [hnone] at hsome
    contradiction

theorem trans (h : Copied s t l m) (h' : Copied s t m n) : Copied s t l n := by
  constructor
  · refine h.alike.trans (h'.alike.mono ?_)
    intro q wa hend
    rcases hend with ⟨rfl, hnone⟩
    exact ⟨rfl, h.none_of_none hnone⟩
  · intro va copy hnone hcopy
    cases hmiddle : m.page? t va with
    | none =>
        rcases h'.copies va copy hmiddle hcopy with ⟨page, hpage, houtline⟩
        have hold : ¬(s = t ∧ l.page? t va = none) := by
          intro hat
          rcases hat with ⟨rfl, -⟩
          rw [hmiddle] at hpage
          contradiction
        rcases h.alike.page?_eq_some hold hpage with ⟨old, hold, hsame⟩
        exact ⟨old, hold, hsame ▸ houtline⟩
    | some first =>
        have hkept : ¬(t = t ∧ m.page? t va = none) := by
          rw [hmiddle]
          exact fun hin => nomatch hin.2
        rcases h'.alike.page?_eq_some hkept hcopy with ⟨old, hold, hsame⟩
        cases hmiddle.symm.trans hold
        rcases h.copies va first hnone hmiddle with ⟨page, hpage, houtline⟩
        have hid : copy.outline.id = first.outline.id := by
          rw [hsame]
        refine ⟨page, hpage, ?_⟩
        rw [hsame, houtline, show copy.id = first.id from hid]

theorem withPage {page : Page} (hp : t < m.processes.length)
    (hpage : m.page? s page.va = some page) (hfree : m.page? t page.va = none) :
    Copied s t m (m.withPage t (page.copyFor t)) := by
  have hcopied : page.state.copied.copied = page.state.copied :=
    PageState.copied_eq_self (PageState.slot_copied page.state)
  have hadded : AlikeBut (At t page.va) m (m.withPage t (page.copyFor t)) :=
    .of_setAt rfl (page?_withPage_eq hp)
  refine ⟨hadded.mono ?_, ?_⟩
  · intro q wa hend
    rcases hend with ⟨rfl, rfl⟩
    exact ⟨rfl, hfree⟩
  · intro va copy hnone hcopy
    rw [page?_withPage hp] at hcopy
    split at hcopy
    · rename_i hat
      cases hcopy
      rw [hat.2]
      refine ⟨page, hpage, ?_⟩
      unfold Page.outline Page.copyFor
      rw [hcopied]
    · rw [hnone] at hcopy
      contradiction

end Copied

variable {m : Machine} {mem : FlatMemory} {fatal : Abort → Prop} {locks : List Lock} {t f : Nat}
  {copy : Page} {data : Bytes}

/-! ## Placing a copy -/

theorem ends_openCopy {owner : Owner} {va : Vaddr} {page : Page} {dirty : Bool}
    (k : m.Sound { locks := locks, filling := [f] } mem)
    (hpage : m.page? t va = some page) (hframe : page.frame = some f)
    (hstate : page.state = .anon none ∨ ∃ x, page.state = .file x)
    (hcontent : page.state = .anon none →
      m.pool.content f = mem.image t va m.layout.pageBytes)
    (hlinked : (m.link? t va).isSome = true) (hring : Lock.ring ∉ locks) :
    Ends (do
        when dirty (setDirty t va true)
        unpinFrame f
        record (.cloned owner dirty)) m fatal
      (fun _ next => m.AlikeBut Nowhere next ∧ next.Sound { locks := locks } mem)
      fun _ _ => False := by
  have hunpinned : ∀ {marked : Machine}, m.AlikeBut Nowhere marked →
      marked.Sound { locks := locks, filling := [f] } mem → marked.pool = m.pool →
      marked.page? t va = some page → (marked.link? t va).isSome = true →
      Ends (do unpinFrame f; record (.cloned owner dirty)) marked fatal
        (fun _ next => m.AlikeBut Nowhere next ∧ next.Sound { locks := locks } mem)
        fun _ _ => False := by
    intro marked halike kmarked hpool hpage hlinked
    have hfree : Lock.ring ∉ marked.held := kmarked.not_held hring
    have kunpinned : Sound { marked.locked .ring with ring := marked.ring.unpin f }
        { locks := .ring :: locks } mem := by
      refine (kmarked.locked .ring).unpin hpage hframe hstate ?_ (Or.inl hlinked)
        fun g hg => Or.inl (List.mem_singleton.mp hg)
      rw [show (marked.locked .ring).pool = m.pool from hpool,
        show (marked.locked .ring).layout = m.layout from halike.layout]
      exact hcontent
    rw [ends_bind, ends_unpinFrame hfree, ends_record]
    exact ⟨{ halike with }, (kunpinned.unlocked rfl).recorded _⟩
  rw [ends_bind, ends_when]
  split
  · rw [ends_setDirty]
    refine hunpinned (.modifyMmu m t _) (k.setDirty t va true) rfl ?_ ?_
    · rw [page?_modifyMmu]
      exact hpage
    · rw [link?, mmu_modifyMmu (lt_of_page?_eq_some hpage), if_pos rfl, Mmu.link?_setDirty]
      exact hlinked
  · exact hunpinned (.refl m) k rfl hpage hlinked

theorem ends_dropCopy {e : PagingError}
    (k : m.Sound { locks := locks, filling := [f] } mem)
    (hpage : m.page? t copy.va = some { copy with frame := some f })
    (hlink : m.link? t copy.va = none) (hring : Lock.ring ∉ locks)
    (hblank : copy.state = .anon none →
      mem.image t copy.va m.layout.pageBytes = Bytes.filled m.layout.pageBytes 0) :
    Ends (do
        detachFrame t copy
        freeFrame f
        fail e : Routine Unit) m fatal (fun _ _ => False)
      fun _ next => m.AlikeBut Nowhere next ∧ next.Sound { locks := locks } mem := by
  have kdetached : (m.modifyPage t copy.va fun q => { q with frame := none }).Sound
      { locks := locks, filling := [f], stray := [f] } mem :=
    k.detach hpage rfl rfl hlink hblank
  unfold detachFrame
  rw [ends_bind, ends_updatePage, ends_bind]
  refine (ends_freeFrame [] kdetached rfl ?_ hring).mono ?_ fun _ _ hfalse => hfalse.elim
  · intro g hg
    exact Or.inl (List.mem_singleton.mp hg)
  · intro _ next hnext
    have hfreed : (m.modifyPage t copy.va fun q => { q with frame := none }).AlikeBut Nowhere
        next := { AlikeBut.of_beside hnext.1 with }
    exact ⟨(AlikeBut.setFrame m t copy.va _).trans hfreed, hnext.2⟩

theorem ends_mapCopy {dirty : Bool}
    (k : m.Sound { locks := locks, stray := [f], filling := [f] } mem)
    (hpage : m.page? t copy.va = some copy) (hnone : copy.frame = none)
    (hstate : copy.state = .anon none ∨ ∃ x, copy.state = .file x)
    (hentry : ⟨f, ownerOf t copy, true⟩ ∈ m.ring.entries)
    (hblank : copy.state = .anon none →
      mem.image t copy.va m.layout.pageBytes = Bytes.filled m.layout.pageBytes 0)
    (hlength : data.length = m.layout.pageBytes)
    (hcontent : copy.state = .anon none → m.pool.content f = data) (hring : Lock.ring ∉ locks) :
    Ends (mapCopy t copy f dirty) m fatal
      (fun _ next => m.AlikeBut Nowhere next ∧
        next.Sound { locks := locks } (mem.store t copy.va data))
      fun _ next => m.AlikeBut Nowhere next ∧ next.Sound { locks := locks } mem := by
  have haligned := (k.placed t copy.va copy hpage).aligned
  have hlink : m.link? t copy.va = none := by
    refine k.link?_eq_none ?_ List.not_mem_nil
    rw [hpage, Option.bind_some, hnone]
  have hslot : copy.slot = none := by
    rcases hstate with hanon | ⟨x, hfile⟩
    · rw [Page.slot, hanon]
      rfl
    · rw [Page.slot, hfile]
      rfl
  have kattached : (m.modifyPage t copy.va fun q => { q with frame := some f }).Sound
      { locks := locks, filling := [f] } mem :=
    k.attach rfl hpage hnone List.mem_cons_self hentry rfl rfl
  have hattached : (m.modifyPage t copy.va fun q => { q with frame := some f }).page? t copy.va =
      some { copy with frame := some f } := page?_modifyPage_self hpage
  have hunlinked : (m.modifyPage t copy.va fun q => { q with frame := some f }).link? t copy.va =
      none := by
    rw [modifyPage, link?_modifyPages]
    exact hlink
  unfold mapCopy
  rw [ends_bind, ends_attachFrame_idle hpage hnone, ends_bind]
  refine (ends_mapPage kattached hattached rfl hunlinked).mono ?_ fun _ _ hfalse => hfalse.elim
  intro accepted _ hend
  rcases hend with ⟨kmapped, ⟨unit, rfl⟩, hlinked⟩
  have hpage' : ((m.modifyPage t copy.va fun q => { q with frame := some f }).modifyMmu t
      fun _ => unit).page? t copy.va = some { copy with frame := some f } := by
    rw [page?_modifyMmu, hattached]
  have halike : m.AlikeBut Nowhere ((m.modifyPage t copy.va fun q =>
      { q with frame := some f }).modifyMmu t fun _ => unit) :=
    (AlikeBut.setFrame m t copy.va _).trans (.modifyMmu _ t _)
  cases accepted with
  | true =>
      have kpromised := kmapped.promiseFilling hpage' rfl List.mem_cons_self hslot hlength
      refine (ends_openCopy kpromised hpage' rfl hstate ?_ ?_ hring).mono ?_
        fun _ _ hfalse => hfalse.elim
      · intro hanon
        exact (hcontent hanon).trans (k.image_store haligned hlength).symm
      · rw [hlinked]
        rfl
      · intro _ next hnext
        exact ⟨halike.trans hnext.1, hnext.2⟩
  | false =>
      refine (ends_dropCopy kmapped hpage' hlinked.1 hring hblank).mono
        (fun _ _ hfalse => hfalse.elim) ?_
      intro _ next hnext
      exact ⟨halike.trans hnext.1, hnext.2⟩

/-- A routine puts the bytes of a copy into a frame, or fails without any effect on the rules. -/
def Fills (fill : Nat → Routine Unit) (m : Machine) (fatal : Abort → Prop) (locks : List Lock)
    (mem : FlatMemory) (copy : Page) (data : Bytes) : Prop :=
  ∀ n f, Undisturbed locks m n →
    n.Sound { locks := locks, stray := [f], filling := [f] } mem →
    Ends (fill f) n fatal
      (fun _ next => n.Beside next ∧
        next.Sound { locks := locks, stray := [f], filling := [f] } mem ∧
        (copy.state = .anon none → next.pool.content f = data))
      fun _ next => n.Beside next ∧
        next.Sound { locks := locks, stray := [f], filling := [f] } mem

theorem ends_settleCopy {dirty : Bool} {fill : Nat → Routine Unit}
    (k : m.Sound { locks := locks, stray := [f], filling := [f] } mem)
    (hpage : m.page? t copy.va = some copy) (hnone : copy.frame = none)
    (hstate : copy.state = .anon none ∨ ∃ x, copy.state = .file x)
    (hentry : ⟨f, ownerOf t copy, true⟩ ∈ m.ring.entries)
    (hblank : copy.state = .anon none →
      mem.image t copy.va m.layout.pageBytes = Bytes.filled m.layout.pageBytes 0)
    (hlength : data.length = m.layout.pageBytes) (hring : Lock.ring ∉ locks)
    (hfill : Fills fill m fatal locks mem copy data) :
    Ends (do
        match ← attempt (fill f) with
        | .ok () => mapCopy t copy f dirty
        | .error e =>
            freeFrame f
            fail e) m fatal
      (fun _ next => m.AlikeBut Nowhere next ∧
        next.Sound { locks := locks } (mem.store t copy.va data))
      fun _ next => m.AlikeBut Nowhere next ∧ next.Sound { locks := locks } mem := by
  rw [ends_bind, ends_attempt]
  refine (hfill m f (.refl locks m) k).mono ?_ ?_
  · intro _ filled hend
    rcases hend with ⟨hbeside, kfilled, hcontent⟩
    have halike : m.AlikeBut Nowhere filled := .of_beside hbeside
    have hpage' : filled.page? t copy.va = some copy := by
      rw [hbeside.page?, hpage]
    have hentry' : ⟨f, ownerOf t copy, true⟩ ∈ filled.ring.entries := by
      rw [hbeside.ring]
      exact hentry
    have hlayout := halike.layout
    refine (ends_mapCopy kfilled hpage' hnone hstate hentry' (hlayout.symm ▸ hblank)
      (hlayout.symm ▸ hlength) hcontent hring).mono ?_ ?_
    · intro _ next hend
      rcases hend with ⟨hnext, knext⟩
      exact ⟨halike.trans hnext, knext⟩
    · intro _ next hend
      rcases hend with ⟨hnext, knext⟩
      exact ⟨halike.trans hnext, knext⟩
  · intro e failed hend
    rcases hend with ⟨hbeside, kfailed⟩
    have halike : m.AlikeBut Nowhere failed := .of_beside hbeside
    dsimp only
    rw [ends_bind]
    refine (ends_freeFrame [] kfailed rfl ?_ hring).mono ?_ fun _ _ hfalse => hfalse.elim
    · intro g hg
      exact Or.inl (List.mem_singleton.mp hg)
    · intro _ next hnext
      have hfreed : failed.AlikeBut Nowhere next := { AlikeBut.of_beside hnext.1 with }
      exact ⟨halike.trans hfreed, hnext.2⟩

theorem Fills.later {n : Machine} {fill : Nat → Routine Unit}
    (h : Fills fill m fatal locks mem copy data) (hundisturbed : Undisturbed locks m n) :
    Fills fill n fatal locks mem copy data :=
  fun last f hlast => h last f (hundisturbed.trans hlast)

/-- A copy gets a frame, its content and its mapping, or it stays without a frame. -/
theorem ends_placeCopy {dirty : Bool} {fill : Nat → Routine Unit}
    (k : m.Sound { locks := locks } mem) (hpage : m.page? t copy.va = some copy)
    (hnone : copy.frame = none) (hstate : copy.state = .anon none ∨ ∃ x, copy.state = .file x)
    (hblank : copy.state = .anon none →
      mem.image t copy.va m.layout.pageBytes = Bytes.filled m.layout.pageBytes 0)
    (hlength : data.length = m.layout.pageBytes) (hlock : Lock.page t copy.va ∉ locks)
    (hring : Lock.ring ∉ locks) (hswap : Lock.swap ∉ locks) (hfatal : fatal .framesExhausted)
    (hfill : Fills fill m fatal (.page t copy.va :: locks) mem copy data) :
    Ends (placeCopy t copy dirty fill) m fatal
      (fun _ next => m.AlikeBut Nowhere next ∧
        next.Sound { locks := locks } (mem.store t copy.va data))
      fun _ next => m.AlikeBut Nowhere next ∧ next.Sound { locks := locks } mem := by
  have hfree : Lock.page t copy.va ∉ m.held := k.not_held hlock
  have hring' : Lock.ring ∉ Lock.page t copy.va :: locks := by
    simpa using hring
  have hswap' : Lock.swap ∉ Lock.page t copy.va :: locks := by
    simpa using hswap
  unfold placeCopy
  rw [ends_withLock hfree, ends_bind]
  refine (ends_allocateFrame (k.locked (.page t copy.va)) hring' hswap' fun _ => hfatal).mono ?_
    fun _ _ hfalse => hfalse.elim
  intro f given hend
  rcases hend with ⟨hundisturbed, kgiven, hentry⟩
  have hundisturbed' : Undisturbed (.page t copy.va :: locks) m given := { hundisturbed with }
  have halike : m.AlikeBut Nowhere given := hundisturbed'.alike
  have hpage' : given.page? t copy.va = some copy :=
    (hundisturbed'.locked t copy.va List.mem_cons_self).trans hpage
  refine (ends_settleCopy kgiven hpage' hnone hstate hentry (halike.layout.symm ▸ hblank)
    (halike.layout.symm ▸ hlength) hring' (hfill.later hundisturbed')).mono ?_ ?_
  · intro _ next hend
    exact ⟨{ halike.trans hend.1 with }, hend.2.unlocked rfl⟩
  · intro _ next hend
    exact ⟨{ halike.trans hend.1 with }, hend.2.unlocked rfl⟩

/-! ## Copying one page -/

theorem fills_writeFrame {bytes : Bytes} (hcontent : copy.state = .anon none → bytes = data)
    (hlength : bytes.length = m.layout.pageBytes) :
    Fills (fun place => writeFrame place 0 bytes) m fatal locks mem copy data := by
  intro n f hundisturbed k
  have hf := k.frames.lt_capacity (k.frames.strayListed f List.mem_cons_self)
  rw [ends_writeFrame]
  refine ⟨⟨rfl, rfl, rfl, rfl, rfl⟩, k.writeFrame 0 bytes hf List.mem_cons_self, ?_⟩
  intro hanon
  rw [FramePool.content_write_self, ← hcontent hanon]
  refine Bytes.overlay_zero_of_length_eq ?_
  rw [hlength, k.length_content hf, hundisturbed.layout]

/-- The slot of a page whose lock is held stays its slot. -/
theorem fills_readSlot {p slot : Nat} {va : Vaddr} {page : Page}
    (hpage : m.page? p va = some page) (hlock : Lock.page p va ∈ locks)
    (hstate : page.state = .anon (some slot)) (hbytes : copy.bytes = m.layout.pageBytes) :
    Fills (fun place => readSlot slot place copy.bytes) m fatal locks mem copy
      (mem.image p va m.layout.pageBytes) := by
  intro n f hundisturbed k
  have hpage' : n.page? p va = some page := (hundisturbed.locked p va hlock).trans hpage
  have hslot : page.slot = some slot := by
    rw [Page.slot, hstate]
    rfl
  have hused := k.slots.used_of_recorded hpage' hslot
  have hf := k.frames.lt_capacity (k.frames.strayListed f List.mem_cons_self)
  rw [hbytes, ← hundisturbed.layout]
  refine (ends_readSlot k hused hf List.mem_cons_self).mono ?_ fun _ _ hnext => hnext
  intro _ next hend
  rcases hend with ⟨hbeside, knext, hcontent⟩
  refine ⟨hbeside, knext, fun _ => ?_⟩
  exact hcontent.trans ((k.contents p va page hpage').inSlot slot hstate)

theorem ends_copyResident {s frame : Nat} {va : Vaddr} {page : Page} {dirty : Bool}
    (k : m.Sound { locks := locks } mem) (hpage : m.page? s va = some page)
    (hframe : page.frame = some frame) (hcopy : m.page? t va = some copy)
    (hnone : copy.frame = none) (hstate : copy.state = page.state)
    (hblank : mem.image t va m.layout.pageBytes = Bytes.filled m.layout.pageBytes 0)
    (hlock : Lock.page t va ∉ locks) (hring : Lock.ring ∉ locks) (hswap : Lock.swap ∉ locks)
    (hfatal : fatal .framesExhausted) :
    Ends (do
        let bytes ← readFrame frame page.bytes
        placeCopy t copy dirty fun place => writeFrame place 0 bytes) m fatal
      (fun _ next => m.AlikeBut Nowhere next ∧
        next.Sound { locks := locks } (mem.store t va (mem.image s va m.layout.pageBytes)))
      fun _ next => m.AlikeBut Nowhere next ∧ next.Sound { locks := locks } mem := by
  have hf := k.frame_lt hpage hframe
  have hwhole : (m.pool.content frame).take page.bytes = m.pool.content frame := by
    rw [k.bytes_eq hpage]
    exact List.take_of_length_le (Nat.le_of_eq (k.length_content hf))
  have hloaded : copy.state = .anon none ∨ ∃ x, copy.state = .file x := by
    rw [hstate]
    exact k.state_of_frame hpage hframe
  have haddress := (k.placed t va copy hcopy).address
  subst haddress
  rw [ends_bind, ends_readFrame, hwhole]
  refine ends_placeCopy k hcopy hnone hloaded (fun _ => hblank) FlatMemory.length_image hlock hring
    hswap hfatal (fills_writeFrame ?_ (k.length_content hf))
  intro hanon
  rw [hstate] at hanon
  exact ((k.contents s copy.va page hpage).inFrame frame hanon hframe).resolve_left
    List.not_mem_nil

theorem ends_copyEvicted {s slot : Nat} {va : Vaddr} {page : Page}
    (k : m.Sound { locks := locks } mem) (hpage : m.page? s va = some page)
    (hslot : page.slot = some slot) (hcopy : m.page? t va = some copy)
    (hnone : copy.frame = none) (hstate : copy.state = .anon none)
    (hblank : mem.image t va m.layout.pageBytes = Bytes.filled m.layout.pageBytes 0)
    (hsource : Lock.page s va ∈ locks) (hlock : Lock.page t va ∉ locks)
    (hring : Lock.ring ∉ locks) (hswap : Lock.swap ∉ locks) (hfatal : fatal .framesExhausted) :
    Ends (placeCopy t copy false fun place => readSlot slot place copy.bytes) m fatal
      (fun _ next => m.AlikeBut Nowhere next ∧
        next.Sound { locks := locks } (mem.store t va (mem.image s va m.layout.pageBytes)))
      fun _ next => m.AlikeBut Nowhere next ∧ next.Sound { locks := locks } mem := by
  have haddress := (k.placed t va copy hcopy).address
  subst haddress
  exact ends_placeCopy k hcopy hnone (Or.inl hstate) (fun _ => hblank) FlatMemory.length_image
    hlock hring hswap hfatal (fills_readSlot hpage (List.mem_cons_of_mem _ hsource)
      (PageState.eq_anon_of_slot hslot) (k.bytes_eq hcopy))

theorem Sound.copyBlank {s : Nat} {va : Vaddr} {page : Page} (k : m.Sound { locks := locks } mem)
    (hpage : m.page? s va = some page) (hidle : page.frame = none)
    (hcopy : m.page? t va = some copy) (hnone : copy.frame = none)
    (hstate : copy.state = page.state) (hslot : page.slot = none) :
    m.Sound { locks := locks } (mem.store t va (mem.image s va m.layout.pageBytes)) := by
  refine k.promise (k.placed t va copy hcopy).aligned FlatMemory.length_image ?_
  intro other hother
  cases hcopy.symm.trans hother
  constructor
  · intro x hx
    rw [Page.slot, ← hstate, hx] at hslot
    contradiction
  · intro g _ hg
    rw [hnone] at hg
    contradiction
  · intro hanon _
    rw [hstate] at hanon
    exact (k.contents s va page hpage).blank hanon hidle

theorem ends_copyContent {s : Nat} {va : Vaddr} {page : Page} (k : m.Sound { locks := locks } mem)
    (hpage : m.page? s va = some page) (hcopy : m.page? t va = some copy)
    (hnone : copy.frame = none) (hstate : copy.state = page.state.copied)
    (hblank : mem.image t va m.layout.pageBytes = Bytes.filled m.layout.pageBytes 0)
    (hsource : Lock.page s va ∈ locks) (hlock : Lock.page t va ∉ locks)
    (hring : Lock.ring ∉ locks) (hswap : Lock.swap ∉ locks) (hfatal : fatal .framesExhausted) :
    Ends (copyContent s t page copy) m fatal
      (fun _ next => m.AlikeBut Nowhere next ∧
        next.Sound { locks := locks } (mem.store t va (mem.image s va m.layout.pageBytes)))
      fun _ next => m.AlikeBut Nowhere next ∧ next.Sound { locks := locks } mem := by
  unfold copyContent
  cases hframe : page.frame with
  | some frame =>
      rw [PageState.copied_eq_self (k.slot_of_frame hpage hframe)] at hstate
      dsimp only
      rw [ends_bind, ends_get]
      exact ends_copyResident k hpage hframe hcopy hnone hstate hblank hlock hring hswap hfatal
  | none =>
      cases hslot : page.slot with
      | some slot =>
          have hanon : copy.state = .anon none := by
            rw [hstate, PageState.eq_anon_of_slot hslot]
            rfl
          exact ends_copyEvicted k hpage hslot hcopy hnone hanon hblank hsource hlock hring hswap
            hfatal
      | none =>
          rw [PageState.copied_eq_self hslot] at hstate
          exact ⟨.refl m, k.copyBlank hpage hframe hcopy hnone hstate hslot⟩

theorem ends_registerCopy {s : Nat} {page : Page} (k : m.Sound { locks := [.page s page.va] } mem)
    (hpage : m.page? s page.va = some page) :
    Ends (register t (page.copyFor t)) m fatal
      (fun copy next => copy = { page.copyFor t with id := m.nextId } ∧
        next = m.withPage t (page.copyFor t) ∧ t < m.processes.length ∧
        m.page? t page.va = none ∧ s ≠ t ∧
        next.Sound { locks := [.page s page.va] }
          (mem.store t page.va (Bytes.filled m.layout.pageBytes 0)))
      fun _ next => next = m := by
  have hplaced := k.placed s page.va page hpage
  have hzeros : (Bytes.filled m.layout.pageBytes 0).length = m.layout.pageBytes :=
    Bytes.length_filled ..
  have himage : (mem.store t page.va (Bytes.filled m.layout.pageBytes 0)).image t page.va
      m.layout.pageBytes = Bytes.filled m.layout.pageBytes 0 :=
    k.image_store hplaced.aligned hzeros
  have kblank : m.page? t (page.copyFor t).va = none → m.Sound { locks := [.page s page.va] }
      (mem.store t page.va (Bytes.filled m.layout.pageBytes 0)) := by
    intro hfree
    refine k.promise hplaced.aligned hzeros ?_
    intro other hother
    rw [show (page.copyFor t).va = page.va from rfl, hother] at hfree
    contradiction
  refine (ends_register kblank rfl (PageState.slot_copied page.state) rfl hplaced.size ?_
    fun _ => himage).mono ?_ fun _ _ hnext => hnext
  · intro x hx
    exact hplaced.extent x (PageState.copied_eq_file_iff.mp hx)
  · intro _ registered hend
    rcases hend with ⟨hcopy, hnext, hp, hfree, kregistered⟩
    refine ⟨hcopy, hnext, hp, hfree, ?_, kregistered⟩
    rintro rfl
    rw [show (page.copyFor s).va = page.va from rfl, hpage] at hfree
    contradiction

theorem ends_copyPage {s : Nat} {va : Vaddr} {page : Page}
    (k : m.Sound { locks := [.page s va] } mem) (hpage : m.page? s va = some page)
    (hfatal : fatal .framesExhausted) :
    Ends (copyPage s t page) m fatal
      (fun _ next => Copied s t m next ∧ m.page? t va = none ∧
        next.Sound { locks := [.page s va] }
        (mem.store t va (mem.image s va m.layout.pageBytes)))
      fun _ next => Copied s t m next ∧ ∃ mem', next.Sound { locks := [.page s va] } mem' ∧
        ∀ q, q ≠ t → mem' q = mem q := by
  have haddress := (k.placed s va page hpage).address
  subst haddress
  have hzeros : (Bytes.filled m.layout.pageBytes 0).length = m.layout.pageBytes :=
    Bytes.length_filled ..
  have himage : (mem.store t page.va (Bytes.filled m.layout.pageBytes 0)).image t page.va
      m.layout.pageBytes = Bytes.filled m.layout.pageBytes 0 :=
    k.image_store (k.placed s page.va page hpage).aligned hzeros
  unfold copyPage
  rw [ends_bind]
  refine (ends_registerCopy k hpage).mono ?_ ?_
  · intro _ registered hend
    rcases hend with ⟨rfl, rfl, hp, hfree, hne, kregistered⟩
    have hsame : (mem.store t page.va (Bytes.filled m.layout.pageBytes 0)).image s page.va
        m.layout.pageBytes = mem.image s page.va m.layout.pageBytes :=
      FlatMemory.image_congr fun i _ => congrFun (FlatMemory.store_of_ne hne) _
    have hpage' : (m.withPage t (page.copyFor t)).page? s page.va = some page :=
      (page?_withPage_of_ne hp hne page.va).trans hpage
    have hcopy : (m.withPage t (page.copyFor t)).page? t page.va =
        some { page.copyFor t with id := m.nextId } :=
      page?_withPage_self hp
    have hcopied := Copied.withPage hp hpage hfree
    refine (ends_copyContent kregistered hpage' hcopy rfl rfl himage List.mem_cons_self ?_ ?_ ?_
      hfatal).mono ?_ ?_
    · simpa using fun heq => hne heq.symm
    · simp
    · simp
    · intro _ next hend
      rcases hend with ⟨hnext, knext⟩
      refine ⟨hcopied.trans (.of_alike hnext), hfree, ?_⟩
      have hmem : (mem.store t page.va (Bytes.filled m.layout.pageBytes 0)).store t page.va
          ((mem.store t page.va (Bytes.filled m.layout.pageBytes 0)).image s page.va
            m.layout.pageBytes) =
          mem.store t page.va (mem.image s page.va m.layout.pageBytes) := by
        rw [hsame]
        exact FlatMemory.store_store_same
          (Nat.le_of_eq (hzeros.trans FlatMemory.length_image.symm))
      rw [← hmem]
      exact knext
    · intro _ next hend
      rcases hend with ⟨hnext, knext⟩
      exact ⟨hcopied.trans (.of_alike hnext), _, knext, fun q hq => FlatMemory.store_of_ne hq⟩
  · intro _ _ heq
    subst heq
    exact ⟨.refl _, mem, k, fun _ _ => rfl⟩

/-! ## Copying a process -/

theorem ends_copyPages {s : Nat} {vas : List Vaddr} (k : m.Sound {} mem)
    (hpages : ∀ va ∈ vas, (m.page? s va).isSome = true) (hfatal : fatal .framesExhausted) :
    Ends (copyPages s t vas) m fatal
      (fun _ next => Copied s t m next ∧ (∀ va ∈ vas, m.page? t va = none) ∧
        next.Sound {} (mem.copy s t fun a => decide (m.pageBase a ∈ vas)))
      fun _ next => Copied s t m next ∧
        ∃ mem', next.Sound {} mem' ∧ ∀ q, q ≠ t → mem' q = mem q := by
  induction vas generalizing m mem with
  | nil =>
      have hnone : (mem.copy s t fun a => decide (m.pageBase a ∈ [])) = mem :=
        FlatMemory.copy_of_forall fun a => decide_eq_false List.not_mem_nil
      refine ⟨.refl m, fun _ hin => absurd hin List.not_mem_nil, ?_⟩
      rw [hnone]
      exact k
  | cons va rest ih =>
      rcases Option.isSome_iff_exists.mp (hpages va List.mem_cons_self) with ⟨page, hpage⟩
      have haligned := (k.placed s va page hpage).aligned
      have hfree : Lock.page s va ∉ m.held := k.not_held List.not_mem_nil
      have hpage' : (m.locked (.page s va)).page? s va = some page := hpage
      unfold copyPages
      rw [ends_bind, ends_withLock hfree, ends_bind, ends_get, hpage']
      refine (ends_copyPage (k.locked (.page s va)) hpage hfatal).mono ?_ ?_
      · intro _ copied hend
        rcases hend with ⟨hlocked, hnone, kcopied⟩
        have hcopied : Copied s t m (copied.unlocked (.page s va)) :=
          ⟨{ hlocked.alike with }, hlocked.copies⟩
        have hrest : ∀ wa ∈ rest, ((copied.unlocked (.page s va)).page? s wa).isSome = true :=
          fun wa hwa => hcopied.isSome_of_isSome (hpages wa (List.mem_cons_of_mem va hwa))
        -- Copying one page and then the pages of the rest copies the pages of the whole list.
        have hmem : ((mem.store t va (mem.image s va m.layout.pageBytes)).copy s t fun a =>
            decide ((copied.unlocked (.page s va)).pageBase a ∈ rest)) =
            mem.copy s t fun a => decide (m.pageBase a ∈ va :: rest) := by
          refine (FlatMemory.copy_store m.layout.fits.1 haligned s t _).trans ?_
          congr 1
          funext a
          rw [pageBase, pageBase, hcopied.alike.layout, Bool.eq_iff_iff]
          simp
        refine (ih (kcopied.unlocked rfl) hrest).mono ?_ ?_
        · intro _ next hend
          rcases hend with ⟨hnext, hfresh, knext⟩
          rw [← hmem]
          refine ⟨hcopied.trans hnext, ?_, knext⟩
          intro wa hwa
          rcases List.mem_cons.mp hwa with rfl | hwa
          · exact hnone
          · exact hcopied.none_of_none (hfresh wa hwa)
        · intro _ next hend
          rcases hend with ⟨hnext, mem', knext, hother⟩
          refine ⟨hcopied.trans hnext, mem', knext, ?_⟩
          intro q hq
          rw [hother q hq, FlatMemory.store_of_ne hq]
      · intro _ next hend
        rcases hend with ⟨hnext, mem', knext, hother⟩
        exact ⟨⟨{ hnext.alike with }, hnext.copies⟩, mem', knext.unlocked rfl, hother⟩

/-- A successful fork copies all registered pages, none of which the target had. -/
theorem ends_fork {s : Nat} (k : m.Sound {} mem) (hfatal : fatal .framesExhausted) :
    Ends (fork s t) m fatal
      (fun _ next => Copied s t m next ∧
        (∀ va, (m.page? s va).isSome = true → m.page? t va = none) ∧
        next.Sound {} (mem.copy s t fun a => (m.lookup s a).isSome))
      fun _ next => Copied s t m next ∧
        ∃ mem', next.Sound {} mem' ∧ ∀ q, q ≠ t → mem' q = mem q := by
  have hchosen : (fun a => decide (m.pageBase a ∈ (m.process s).pages.keys)) =
      fun a => (m.lookup s a).isSome := by
    funext a
    rw [Bool.eq_iff_iff, decide_eq_true_iff, mem_keys_iff_isSome]
    rfl
  unfold fork
  rw [ends_bind, ends_get, ends_bind, ends_require]
  split
  · rw [ends_bind]
    refine (ends_copyPages k (fun _ => mem_keys_iff_isSome.mp) hfatal).mono ?_
      fun _ _ hnext => hnext
    intro _ next hend
    rcases hend with ⟨hcopied, hfresh, knext⟩
    rw [hchosen] at knext
    rw [ends_bind, ends_modify, ends_report]
    refine ⟨?_, fun va hva => hfresh va (mem_keys_iff_isSome.mpr hva),
      (knext.modifyMappings t _).recorded _⟩
    exact hcopied.trans (.of_alike ((AlikeBut.modifyMappings next t _).trans (.recorded _ _)))
  · exact ⟨.refl m, mem, k, fun _ _ => rfl⟩

end Machine
end DemandPaging
