import DemandPaging.Proofs.Machine.Aborts
import DemandPaging.Proofs.Scene.Fault
import DemandPaging.Proofs.Scene.Fork

/-!
# Aborts in scenes

An operation that aborts for want of a frame stops in the middle of an eviction. The scene that it
leaves was reached by the evictions that were tried before, after what the operation had done until
then.
-/

namespace DemandPaging
namespace Machine

open Routine

variable {m : Machine} {mem : FlatMemory} {locks : List Lock} {p s t : Nat} {va : Vaddr}
  {page copy : Page}

/-! ## Evictions -/

/-- The frames are exhausted after some pages were visited, of which none gave up its frame. -/
theorem breaks_sweep {visits : Nat} (k : m.Sound { locks := locks } mem)
    (hswap : Lock.swap ∉ locks) :
    Breaks (sweep visits) m fun last => Scene.Steps (Deed.Evicting []) m.scene last.scene := by
  induction visits generalizing m with
  | zero => exact .abort _ (.refl _)
  | succ visits ih =>
      unfold sweep
      apply Breaks.after
      rw [ends_get]
      dsimp only
      split
      · exact .abort _ (.refl _)
      · rename_i entry hentry
        have kadvanced : Sound { m with ring := m.ring.advance } { locks := locks } mem :=
          { k with }
        apply Breaks.after
        rw [ends_modifyRing]
        apply Breaks.after
        refine ((ends_evictEntry kadvanced hentry hswap).and
          (steps_evictEntry kadvanced hentry hswap)).mono ?_ fun _ _ hfalse => hfalse.1.elim
        intro taken next hnext
        rcases hnext with ⟨⟨-, knext⟩, hsteps⟩
        cases taken with
        | some f => exact .pure f
        | none =>
            have hbefore : Scene.Steps (Deed.Evicting []) m.scene next.scene :=
              hsteps.mono fun _ hdeed => hdeed.unlocked
            exact (ih knext).mono fun _ hlast => hbefore.trans hlast

theorem breaks_obtainFrame (k : m.Sound { locks := locks } mem) (hswap : Lock.swap ∉ locks) :
    Breaks obtainFrame m fun last => Scene.Steps (Deed.Evicting []) m.scene last.scene := by
  unfold obtainFrame
  apply Breaks.after
  refine ((ends_takeFromPool k).and (steps_takeFromPool k)).mono ?_ fun _ _ _ => trivial
  intro taken next hnext
  rcases hnext with ⟨⟨-, knext⟩, hscene⟩
  cases taken with
  | some f => exact .pure f
  | none =>
      unfold evict
      apply Breaks.after
      rw [ends_get, ← hscene]
      exact breaks_sweep knext.2 hswap

theorem breaks_allocateFrame {owner : Owner} (k : m.Sound { locks := locks } mem)
    (hring : Lock.ring ∉ locks) (hswap : Lock.swap ∉ locks) :
    Breaks (allocateFrame owner) m fun last =>
      Scene.Steps (Deed.Evicting []) m.scene last.scene := by
  have hfree : Lock.ring ∉ m.held := k.not_held hring
  have hswap' : Lock.swap ∉ Lock.ring :: locks := by
    simpa using hswap
  unfold allocateFrame
  refine Breaks.withLock hfree ?_
  refine (breaks_obtainFrame (k.locked .ring) hswap').bind ?_
  refine (ends_obtainFrame (k.locked .ring) hswap' fun _ => trivial).mono ?_ fun _ _ _ => trivial
  intro f next _
  apply Breaks.after
  rw [ends_modifyRing]
  exact .pure f

/-! ## Claims and faults -/

theorem breaks_makeResident (k : m.Sound { locks := locks } mem)
    (hpage : m.page? p page.va = some page) (hnone : page.frame = none)
    (hlock : Lock.page p page.va ∈ locks) (hring : Lock.ring ∉ locks)
    (hswap : Lock.swap ∉ locks) :
    Breaks (makeResident p page) m fun last =>
      Scene.Steps (Deed.Evicting []) m.scene last.scene := by
  unfold makeResident
  refine (breaks_allocateFrame k hring hswap).bind ?_
  refine (ends_allocateFrame k hring hswap fun _ => trivial).mono ?_ fun _ _ _ => trivial
  intro f given hgiven
  rcases hgiven with ⟨hundisturbed, kgiven, hentry⟩
  have hpage' : given.page? p page.va = some page :=
    (hundisturbed.locked p page.va hlock).trans hpage
  have halike : m.AlikeBut (At p page.va) given := hundisturbed.alike
  exact .of_ends (ends_settleClaim kgiven hpage' hnone hentry
    (halike.layout.symm ▸ k.image_blank hpage hnone) hring hswap)

theorem breaks_claim (k : m.Sound { locks := locks } mem) (hlock : Lock.page p va ∉ locks)
    (hring : Lock.ring ∉ locks) (hswap : Lock.swap ∉ locks) :
    Breaks (claim p va) m fun last => Scene.Steps (Deed.Evicting []) m.scene last.scene := by
  have hfree : Lock.page p va ∉ m.held := k.not_held hlock
  have klocked := k.locked (.page p va)
  unfold claim
  refine Breaks.withLock hfree ?_
  apply Breaks.after
  rw [ends_get]
  cases hpage : (m.locked (.page p va)).page? p va with
  | none => exact .after trivial
  | some page =>
      have haddress := (klocked.placed p va page hpage).address
      apply Breaks.after
      rw [ends_orFail_some]
      cases hframe : page.frame with
      | some f =>
          rw [Page.isResident, hframe]
          exact .pure ()
      | none =>
          have hring' : Lock.ring ∉ Lock.page p va :: locks := by
            simpa using hring
          have hswap' : Lock.swap ∉ Lock.page p va :: locks := by
            simpa using hswap
          subst haddress
          rw [Page.isResident, hframe]
          exact breaks_makeResident klocked hpage hframe List.mem_cons_self hring' hswap'

theorem breaks_claimPage (k : m.Sound {} mem) :
    Breaks (claimPage p va) m fun last =>
      Scene.Steps (Deed.Evicting []) m.scene last.scene := by
  unfold claimPage
  apply Breaks.after
  rw [ends_get]
  cases hpage : m.lookup p va with
  | none => exact .after trivial
  | some page =>
      apply Breaks.after
      rw [ends_orFail_some]
      exact breaks_claim k List.not_mem_nil List.not_mem_nil List.not_mem_nil

theorem breaks_growStack (k : m.Sound {} mem) :
    Breaks (growStack p (m.pageBase va)) m fun last =>
      Scene.Steps (Deed.Faulting p (m.pageBase va)) m.scene last.scene := by
  unfold growStack
  apply Breaks.after
  rw [ends_get, stackPage_of_aligned (isAligned_pageBase m va)]
  apply Breaks.after
  rw [ends_ofStop_ok]
  have hregister := steps_registerStack (p := p) ⟨0, m.pageBase va, true, true, none, none, p,
    m.layout.pageSize, .uninit (.anon none)⟩ k ⟨rfl, rfl, rfl⟩ rfl rfl rfl
  have hdone : Ends (register p ⟨0, m.pageBase va, true, true, none, none, p,
      m.layout.pageSize, .uninit (.anon none)⟩) m (fun _ => False) _ _ :=
    ends_register (fun _ => k) rfl rfl rfl rfl (fun _ hx => (by contradiction))
      fun hx => by contradiction
  apply Breaks.after
  refine (hdone.and hregister).mono ?_ fun _ _ _ => trivial
  intro stack registered hend
  rcases hend with ⟨-, hva, hnew, kregistered, -, -, hstep⟩
  have hadded : Scene.Steps (Deed.Faulting p (m.pageBase va)) m.scene registered.scene :=
    .single (.register p stack) (Or.inr ⟨stack, hva, hnew, Or.inl rfl⟩) hstep
  have hlock : Lock.page p (m.pageBase va) ∉ ([] : List Lock) := List.not_mem_nil
  have hbreaks := breaks_claim kregistered hlock List.not_mem_nil List.not_mem_nil
  refine (hbreaks.mono fun last hlast =>
    hadded.trans (hlast.mono fun _ hdeed => Or.inl (Or.inl hdeed))).attempt.bind ?_
  rw [ends_attempt]
  refine (ends_claim kregistered List.not_mem_nil List.not_mem_nil List.not_mem_nil
    fun _ => trivial).mono (fun _ _ _ => .report _) ?_
  intro e next hnext
  rcases hnext with ⟨-, -, knext, -⟩
  apply Breaks.after
  rw [ends_attempt]
  exact (ends_removePage knext).mono (fun _ _ _ => .fail e) fun _ _ _ => .fail e

theorem breaks_resolveAtPage {f : Fault} (k : m.Sound {} mem) :
    Breaks (resolveAtPage p page f) m fun last =>
      Scene.Steps (Deed.Evicting []) m.scene last.scene := by
  unfold resolveAtPage
  apply Breaks.after
  refine (ends_forbidsWrite k).mono ?_ fun _ _ _ => trivial
  intro forbidden looked hend
  rcases hend with ⟨-, hlooked⟩
  have hscene : looked.scene = m.scene := by
    rcases hlooked with rfl | rfl
    · rfl
    · rw [scene_unlocked, scene_locked]
  have klooked : looked.Sound {} mem := by
    rcases hlooked with rfl | rfl
    · exact k
    · exact (k.locked (.page p page.va)).unlocked rfl
  cases forbidden with
  | true => exact .refuse _ _
  | false =>
      rw [← hscene]
      exact breaks_claim klooked List.not_mem_nil List.not_mem_nil List.not_mem_nil

theorem breaks_resolveFault {f : Fault} (k : m.Sound {} mem) :
    Breaks (resolveFault p f) m fun last =>
      Scene.Steps (Deed.Faulting p (m.pageBase f.va)) m.scene last.scene := by
  unfold resolveFault
  apply Breaks.after
  rw [ends_get]
  split
  · exact .refuse _ _
  split
  · exact .refuse _ _
  cases hpage : m.lookup p f.va with
  | none =>
      dsimp only
      split
      · exact breaks_growStack k
      · exact .refuse _ _
  | some page =>
      exact (breaks_resolveAtPage k).mono fun _ hlast =>
        hlast.mono fun _ hdeed => Or.inl (Or.inl hdeed)

/-! ## Forks -/

theorem breaks_placeCopy {dirty : Bool} {fill : Nat → Routine Unit} {data : Bytes}
    (k : m.Sound { locks := locks } mem) (hpage : m.page? t copy.va = some copy)
    (hnone : copy.frame = none) (hstate : copy.state = .anon none ∨ ∃ x, copy.state = .file x)
    (hblank : copy.state = .anon none →
      mem.image t copy.va m.layout.pageBytes = Bytes.filled m.layout.pageBytes 0)
    (hlength : data.length = m.layout.pageBytes) (hlock : Lock.page t copy.va ∉ locks)
    (hring : Lock.ring ∉ locks) (hswap : Lock.swap ∉ locks)
    (hfill : Fills fill m (fun _ => False) (.page t copy.va :: locks) mem copy data) :
    Breaks (placeCopy t copy dirty fill) m fun last =>
      Scene.Steps (Deed.Evicting []) m.scene last.scene := by
  have hfree : Lock.page t copy.va ∉ m.held := k.not_held hlock
  have hring' : Lock.ring ∉ Lock.page t copy.va :: locks := by
    simpa using hring
  have hswap' : Lock.swap ∉ Lock.page t copy.va :: locks := by
    simpa using hswap
  have klocked := k.locked (.page t copy.va)
  unfold placeCopy
  refine Breaks.withLock hfree ?_
  refine (breaks_allocateFrame klocked hring' hswap').bind ?_
  refine (ends_allocateFrame klocked hring' hswap' fun _ => trivial).mono ?_ fun _ _ _ => trivial
  intro f given hend
  rcases hend with ⟨hundisturbed, kgiven, hentry⟩
  have hundisturbed' : Undisturbed (.page t copy.va :: locks) m given := { hundisturbed with }
  have halike : m.AlikeBut Nowhere given := hundisturbed'.alike
  have hpage' : given.page? t copy.va = some copy :=
    (hundisturbed'.locked t copy.va List.mem_cons_self).trans hpage
  exact .of_ends (ends_settleCopy kgiven hpage' hnone hstate hentry (halike.layout.symm ▸ hblank)
    (halike.layout.symm ▸ hlength) hring' (hfill.later hundisturbed'))

theorem breaks_copyContent (k : m.Sound { locks := locks } mem)
    (hpage : m.page? s va = some page) (hcopy : m.page? t va = some copy)
    (hnone : copy.frame = none) (hstate : copy.state = page.state.copied)
    (hblank : mem.image t va m.layout.pageBytes = Bytes.filled m.layout.pageBytes 0)
    (hsource : Lock.page s va ∈ locks) (hlock : Lock.page t va ∉ locks)
    (hring : Lock.ring ∉ locks) (hswap : Lock.swap ∉ locks) :
    Breaks (copyContent s t page copy) m fun last =>
      Scene.Steps (Deed.Evicting []) m.scene last.scene := by
  have haddress := (k.placed t va copy hcopy).address
  subst haddress
  unfold copyContent
  cases hframe : page.frame with
  | some frame =>
      rw [PageState.copied_eq_self (k.slot_of_frame hpage hframe)] at hstate
      have hlength := k.length_content (k.frame_lt hpage hframe)
      have hwhole : (m.pool.content frame).take page.bytes = m.pool.content frame := by
        rw [k.bytes_eq hpage]
        exact List.take_of_length_le (Nat.le_of_eq hlength)
      dsimp only
      apply Breaks.after
      rw [ends_get]
      apply Breaks.after
      rw [ends_readFrame, hwhole]
      refine breaks_placeCopy k hcopy hnone ?_ (fun _ => hblank) hlength hlock hring hswap
        (fills_writeFrame (fun _ => rfl) hlength)
      rw [hstate]
      exact k.state_of_frame hpage hframe
  | none =>
      cases hslot : page.slot with
      | some slot =>
          have hanon := PageState.eq_anon_of_slot hslot
          refine breaks_placeCopy k hcopy hnone (Or.inl ?_) (fun _ => hblank)
            FlatMemory.length_image hlock hring hswap
            (fills_readSlot hpage (List.mem_cons_of_mem _ hsource) hanon (k.bytes_eq hcopy))
          rw [hstate, hanon]
          rfl
      | none => exact .pure ()

theorem breaks_copyPage (k : m.Sound { locks := [.page s va] } mem)
    (hpage : m.page? s va = some page) :
    Breaks (copyPage s t page) m fun last =>
      Scene.Steps (Deed.Preparing t) m.scene last.scene := by
  have hplaced := k.placed s va page hpage
  have haddress := hplaced.address
  subst haddress
  have hzeros : (Bytes.filled m.layout.pageBytes 0).length = m.layout.pageBytes :=
    Bytes.length_filled ..
  have hregister : Ends (register t (page.copyFor t)) m Anyhow _ _ :=
    steps_register (fun _ => k) rfl List.not_mem_nil
  unfold copyPage
  apply Breaks.after
  refine ((ends_registerCopy k hpage).and hregister).mono ?_ fun _ _ _ => trivial
  intro _ registered hend
  rcases hend with ⟨⟨rfl, rfl, hp, hfree, hne, kregistered⟩, -, hblank, hscene⟩
  have hpage' : (m.withPage t (page.copyFor t)).page? s page.va = some page :=
    (page?_withPage_of_ne hp hne page.va).trans hpage
  have hcopy : (m.withPage t (page.copyFor t)).page? t page.va =
      some { page.copyFor t with id := m.nextId } :=
    page?_withPage_self hp
  have hlock : Lock.page t page.va ∉ [Lock.page s page.va] := by
    simpa using Ne.symm hne
  have hregistered : Scene.Steps (Deed.Preparing t) m.scene
      (m.withPage t (page.copyFor t)).scene := by
    rw [hscene]
    exact .single (.register t { page.copyFor t with id := m.nextId }) (Or.inr ⟨_, rfl⟩)
      (.register hblank rfl)
  refine (breaks_copyContent kregistered hpage' hcopy rfl rfl (k.image_store hplaced.aligned hzeros)
    List.mem_cons_self hlock ?_ ?_).mono fun last hlast =>
      hregistered.trans (hlast.mono fun _ hdeed => Or.inl hdeed)
  · simp
  · simp

theorem breaks_copyPages {vas : List Vaddr} (k : m.Sound {} mem)
    (hpages : ∀ va ∈ vas, (m.page? s va).isSome = true) :
    Breaks (copyPages s t vas) m fun last => Scene.BrokenOff s t m.scene last.scene := by
  induction vas generalizing m mem with
  | nil => exact .pure ()
  | cons va rest ih =>
      rcases Option.isSome_iff_exists.mp (hpages va List.mem_cons_self) with ⟨page, hpage⟩
      have hpage' : (m.locked (.page s va)).page? s va = some page := hpage
      have klocked := k.locked (.page s va)
      have haddress := (k.placed s va page hpage).address
      have hfree : Lock.page s va ∉ m.held := k.not_held List.not_mem_nil
      unfold copyPages
      refine Breaks.bind (Breaks.withLock hfree ?_) ?_
      · apply Breaks.after
        rw [ends_get, hpage']
        exact (breaks_copyPage klocked hpage').mono fun _ => .of_steps
      apply ends_withLock_of
      rw [ends_bind, ends_get, hpage']
      refine ((ends_copyPage klocked hpage' trivial).and (steps_copyPage klocked hpage')).mono ?_
        fun _ _ _ => trivial
      intro _ copied hend
      rcases hend with ⟨⟨hcopied, -, kcopied⟩, hturn⟩
      have hcopied' : Copied s t m (copied.unlocked (.page s va)) :=
        ⟨{ hcopied.alike with }, hcopied.copies⟩
      have hstart : (m.scene.sight s va).page = some page := hpage
      refine (ih (kcopied.unlocked rfl) fun wa hwa =>
        hcopied'.isSome_of_isSome (hpages wa (List.mem_cons_of_mem va hwa))).mono ?_
      intro last hlast
      rw [scene_unlocked] at hlast
      exact .cons hstart haddress rfl hturn hlast

theorem breaks_fork (k : m.Sound {} mem) :
    Breaks (fork s t) m fun last => Scene.BrokenOff s t m.scene last.scene := by
  have hpages : ∀ va ∈ (m.process s).pages.keys, (m.page? s va).isSome = true :=
    fun _ => mem_keys_iff_isSome.mp
  unfold fork
  apply Breaks.after
  rw [ends_get]
  apply Breaks.after
  rw [ends_require]
  split
  · refine (breaks_copyPages k hpages).bind ?_
    refine (steps_copyPages k hpages).mono ?_ fun _ _ _ => trivial
    intro _ copied _
    apply Breaks.after
    rw [ends_modify]
    exact .report _
  · trivial

/-! ## Accesses and mappings that leave the address space -/

/-- What two machines have in common if neither a file was called nor anything recorded. -/
structure Aside (m n : Machine) : Prop where
  layout : n.layout = m.layout
  files : n.files = m.files
  trace : n.trace = m.trace

theorem breaks_registerMapped {base : Vaddr} {writable : Bool} {f : Nat} {offset : UInt64}
    {count index : Nat} {remaining : UInt64} (k : m.Sound {} mem) :
    Breaks (registerMapped p base writable f offset count index va remaining) m m.Aside := by
  induction count generalizing m index va remaining with
  | zero => exact .pure _
  | succ count ih =>
      unfold registerMapped
      apply Breaks.after
      rw [ends_get]
      dsimp only
      cases hextent : m.layout.mappedExtent f offset index remaining with
      | error a =>
          intro a' last hend
          cases hend
          exact ⟨rfl, rfl, rfl⟩
      | ok extent =>
          apply Breaks.after
          rw [ends_ofAbort_ok]
          rcases mappedPage_cases m.layout p base va writable extent with ⟨e, he⟩ | hpage
          · rw [he]
            exact .after trivial
          · rw [hpage]
            apply Breaks.after
            rw [ends_ofStop_ok]
            apply Breaks.after
            rw [ends_attempt]
            refine Ends.mono (ends_register (fun _ => k) rfl rfl rfl rfl
              (fun _ hx => (by contradiction)) fun hx => by contradiction) ?_ ?_
            · intro _ next hend
              rcases hend with ⟨-, rfl, -, -, knext⟩
              exact (ih knext).mono fun _ hlast => ⟨hlast.layout, hlast.files, hlast.trace⟩
            · exact fun _ _ _ => .pure _

theorem breaks_mapFile {start : Vaddr} {length offset : UInt64} {writable : Bool} {f : Nat}
    (k : m.Sound {} mem) :
    Breaks (mapFile p start length writable f offset) m m.Aside := by
  unfold mapFile
  apply Breaks.after
  rw [ends_get]
  dsimp only
  apply Breaks.after
  rw [ends_require]
  split
  · apply Breaks.after
    rw [ends_require]
    split
    · cases hstop : m.layout.mappingEnd start length with
      | none => exact .after trivial
      | some stop =>
          apply Breaks.after
          rw [ends_orFail_some]
          apply Breaks.after
          rw [ends_require]
          split
          · have hrange : Breaks (registerRange p start stop length writable f offset) m
                m.Aside := by
              unfold registerRange
              apply Breaks.after
              rw [ends_get]
              refine (breaks_registerMapped k).bind ?_
              refine (ends_registerMapped k fun _ _ _ _ => trivial).mono ?_ fun _ _ _ => trivial
              intro hfirst next hsecond
              rcases hfirst with ⟨registered, failure⟩
              cases failure with
              | some e =>
                  apply Breaks.after
                  exact (ends_dropPages hsecond.2).mono (fun _ _ _ => .fail e) fun _ _ _ => trivial
              | none =>
                  apply Breaks.after
                  rw [ends_report]
                  intro a last hend
                  cases hend
            refine hrange.bind ?_
            refine (ends_registerRange k fun _ _ _ => trivial).mono ?_ fun _ _ _ => trivial
            exact fun _ _ _ => .pure start
          · trivial
    · trivial
  · trivial

theorem breaks_userRead {length : Nat} :
    Breaks (userRead p va length) m m.Aside := by
  unfold userRead
  apply Breaks.after
  rw [ends_get]
  generalize (m.process p).mmu.userRead m.pool.frames va length = outcome
  rcases outcome with ⟨result, bytes, mmu⟩
  apply Breaks.after
  rw [ends_set]
  intro a last hend
  rcases result with (fault | _) | _
  · cases hend
  · cases hend
    exact ⟨rfl, rfl, rfl⟩
  · cases hend

theorem breaks_userWrite {data : Bytes} :
    Breaks (userWrite p va data) m fun last =>
      ∃ count, (m.recorded (.stored p va count)).Aside last := by
  unfold userWrite
  apply Breaks.after
  rw [ends_get]
  generalize (m.process p).mmu.userWrite m.pool.frames va data = effect
  apply Breaks.after
  rw [ends_set]
  apply Breaks.after
  rw [ends_record]
  intro a last hend
  cases hresult : effect.result with
  | ok done =>
      rw [hresult] at hend
      cases hend
  | error stop =>
      rw [hresult] at hend
      cases stop with
      | faulted fault => cases hend
      | wrapped =>
          cases hend
          exact ⟨effect.written, rfl, rfl, rfl⟩

/-! ## Operations -/

def CutShort (m : Machine) (op : Operation) (last : Machine) : Prop :=
  match op with
  | .claim p va => Scene.Steps (Deed.Claiming p (m.pageBase va)) m.scene last.scene
  | .fault p f => Scene.Steps (Deed.Faulting p (m.pageBase f.va)) m.scene last.scene
  | .fork s t => Scene.BrokenOff s t m.scene last.scene
  | .read .. | .map .. => m.Aside last
  | .write p va _ => ∃ count, (m.recorded (.stored p va count)).Aside last
  | _ => False

theorem breaks_perform (op : Operation) (k : m.Sound {} mem) :
    Breaks op.perform m (m.CutShort op) := by
  have hforeseen : (∀ a, ¬op.Foreseen m a) → Breaks op.perform m (m.CutShort op) := by
    intro hnever a last hend
    exact (hnever a (k.foreseen hend)).elim
  have hdone : ∀ {α : Type} {r : Routine α} {reply : α → Reply} {left : Machine → Prop},
      Breaks r m left → Breaks (r >>= fun a => Pure.pure (reply a)) m left :=
    fun h => h.bind (ends_anyhow (fun _ _ => .pure _) fun _ _ => trivial)
  cases op with
  | claim p va =>
      exact hdone ((breaks_claimPage k).mono fun _ hlast => hlast.mono fun _ => Or.inl)
  | fault p f => exact hdone (breaks_resolveFault k)
  | fork s t => exact hdone (breaks_fork k)
  | read p va length => exact hdone breaks_userRead
  | write p va data => exact hdone breaks_userWrite
  | map p start length writable f offset => exact hdone (breaks_mapFile k)
  | start | finish | allocate | remove | unmap | teardown | classAt | mappingAt =>
      refine hforeseen ?_
      rintro a (⟨-, hnever⟩ | ⟨-, hnever⟩)
      · exact hnever
      · exact hnever

end Machine
end DemandPaging
