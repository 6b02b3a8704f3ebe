import DemandPaging.Proofs.Machine.Fork
import DemandPaging.Proofs.Machine.Quiet
import DemandPaging.Proofs.Scene.Registration

/-!
# Forks in scenes

The copy of a page appears without a frame. If the page is resident or in a slot, pages whose lock
is free may be evicted, and then the copy gets a frame, the content of the page and its dirty bit.
-/

namespace DemandPaging

def Deed.Copying (t : Nat) (deed : Deed) : Prop :=
  deed.Evicting [] ∨ (∃ page, deed = .register t page) ∨ ∃ copy, deed = .clone t copy

theorem Scene.Steps.mappings_eq_of_copying {t : Nat} {v w : Scene}
    (h : Steps (Deed.Copying t) v w) : w.mappings = v.mappings := by
  refine h.mappings_eq ?_
  rintro q bases (hevicting | ⟨page, hpage⟩ | ⟨copy, hcopy⟩)
  · exact hevicting
  · cases hpage
  · cases hcopy

def Scene.Cloned (v : Scene) (t : Nat) (copy : Page) (dirty : Bool) (bytes : Bytes)
    (w : Scene) : Prop :=
  ∃ f, w = (v.see t copy.va
    ⟨some { copy with frame := some f }, some ⟨f, copy.writable, dirty, false⟩, some bytes⟩).noted
      (.cloned ⟨t, copy.va, copy.id⟩ dirty)

/-- What becomes of the copy of a page. It is registered without a frame, and that is all, if the
page has neither a frame nor a slot. Otherwise pages may be evicted, but not this one, and then the
copy gets a frame; the content and the dirty bit of a resident page go along, and the copy of any
other page is clean. -/
structure Scene.Copied (v : Scene) (s t : Nat) (page copy : Page) (w : Scene) : Prop where
  fresh : v.sight t page.va = .blank
  outcome :
    (page.frame = none ∧ page.slot = none ∧ w = v.see t page.va ⟨some copy, none, none⟩) ∨
    (page.frame.isSome = true ∨ page.slot.isSome = true) ∧ ∃ u dirty bytes,
      Steps (Deed.Evicting [.page t page.va, .page s page.va])
        (v.see t page.va ⟨some copy, none, none⟩) u ∧
      u.Cloned t copy dirty bytes w ∧
      (page.frame.isSome = true → (v.sight s page.va).content = some bytes ∧
        dirty = (v.sight s page.va).entry.any PageEntry.dirty) ∧
      (page.frame = none → dirty = false)

theorem Scene.Copied.steps {v w : Scene} {s t : Nat} {page copy : Page}
    (h : v.Copied s t page copy w) (hva : copy.va = page.va) (hnone : copy.frame = none) :
    Steps (Deed.Copying t) v w := by
  have hregistered : Steps (Deed.Copying t) v (v.see t page.va ⟨some copy, none, none⟩) := by
    rw [← hva]
    refine .single _ (Or.inr (Or.inl ⟨copy, rfl⟩)) (.register ?_ hnone)
    rw [hva]
    exact h.fresh
  rcases h.outcome with ⟨-, -, rfl⟩ | ⟨-, u, dirty, bytes, hsteps, ⟨f, rfl⟩, -⟩
  · exact hregistered
  · have hsight : u.sight t copy.va = ⟨some copy, none, none⟩ := by
      rw [hva, hsteps.sight_locked List.mem_cons_self]
      exact sight_see_self
    exact (hregistered.trans (hsteps.mono fun deed hdeed => Or.inl hdeed.unlocked)).trans
      (.single _ (Or.inr (Or.inr ⟨copy, rfl⟩)) (.clone hsight hnone))

/-- The pages at some addresses are copied one after the other. Each copy is that of the page as it
is at its turn. -/
inductive Scene.Turns (s t : Nat) : Scene → List Vaddr → Scene → Prop where
  | nil (v : Scene) : Turns s t v [] v
  | cons {v w u : Scene} {va : Vaddr} {rest : List Vaddr} {page copy : Page} {id : Nat}
      (found : (v.sight s va).page = some page) (address : page.va = va)
      (alike : copy = { page.copyFor t with id := id }) (copied : v.Copied s t page copy w)
      (later : Turns s t w rest u) : Turns s t v (va :: rest) u

theorem Scene.Turns.steps {s t : Nat} {v w : Scene} {vas : List Vaddr} (h : Turns s t v vas w) :
    Steps (Deed.Copying t) v w := by
  induction h with
  | nil v => exact .refl v
  | cons found address alike copied later ih =>
      subst alike
      exact (copied.steps rfl rfl).trans ih

def Deed.Preparing (t : Nat) (deed : Deed) : Prop :=
  deed.Evicting [] ∨ ∃ page, deed = .register t page

/-- Some pages were copied, and the next copy did not get its content. -/
def Scene.BrokenOff (s t : Nat) (v w : Scene) : Prop :=
  ∃ vas u, Turns s t v vas u ∧ Steps (Deed.Preparing t) u w

theorem Scene.BrokenOff.steps {s t : Nat} {v w : Scene} (h : BrokenOff s t v w) :
    Steps (Deed.Copying t) v w := by
  rcases h with ⟨vas, u, hturns, hsteps⟩
  refine hturns.steps.trans (hsteps.mono fun deed hdeed => ?_)
  rcases hdeed with hevicting | hregister
  · exact Or.inl hevicting
  · exact Or.inr (Or.inl hregister)

theorem Scene.BrokenOff.of_steps {s t : Nat} {v w : Scene} (h : Steps (Deed.Preparing t) v w) :
    BrokenOff s t v w :=
  ⟨[], v, .nil v, h⟩

theorem Scene.BrokenOff.cons {s t id : Nat} {v w u : Scene} {va : Vaddr} {page copy : Page}
    (found : (v.sight s va).page = some page) (address : page.va = va)
    (alike : copy = { page.copyFor t with id := id }) (copied : v.Copied s t page copy w)
    (later : BrokenOff s t w u) : BrokenOff s t v u := by
  rcases later with ⟨vas, x, hturns, hsteps⟩
  exact ⟨va :: vas, x, .cons found address alike copied hturns, hsteps⟩

namespace Machine

open Routine

variable {m n : Machine} {mem : FlatMemory} {locks : List Lock} {s t f : Nat} {va : Vaddr}
  {page copy : Page} {dirty : Bool}

/-! ## Placing a copy -/

theorem steps_mapCopy (k : m.Sound { locks := locks, stray := [f], filling := [f] } mem)
    (hnone : copy.frame = none) (hlisted : ⟨f, ownerOf t copy, true⟩ ∈ m.ring.entries)
    (hsight : m.scene.sight t copy.va = ⟨some copy, none, none⟩) :
    Ends (mapCopy t copy f dirty) m Anyhow
      (fun _ next => m.scene.Cloned t copy dirty (m.pool.content f) next.scene)
      fun _ next => next.scene = m.scene := by
  have hpage : m.page? t copy.va = some copy := congrArg Sight.page hsight
  unfold mapCopy
  rw [ends_bind]
  refine ((ends_attachFrame k hpage hnone hlisted).and (steps_attachFrame hnone hsight)).mono ?_
    fun _ _ hfalse => hfalse.2.elim
  intro _ attached hattached
  rcases hattached with ⟨⟨-, -, kattached, hpage', hlink⟩, hscene⟩
  rw [ends_bind]
  refine (steps_mapPage kattached hpage' hlink).mono ?_ fun _ _ hfalse => hfalse.elim
  intro accepted mapped hmapped
  cases accepted with
  | true =>
      have hmappedScene : mapped.scene = m.scene.see t copy.va
          ⟨some { copy with frame := some f }, some ⟨f, copy.writable, false, false⟩,
            some (m.pool.content f)⟩ := by
        have hseen : mapped.scene = _ := hmapped
        rw [hseen, sight_of_scene hscene, hscene, Scene.see_see]
      rw [if_pos rfl, ends_bind]
      refine (steps_markModified hmappedScene).mono ?_ fun _ _ hfalse => hfalse.elim
      intro _ marked hmarked
      rw [ends_bind]
      refine (steps_unpinFrame f).mono ?_ fun _ _ hfalse => hfalse.elim
      intro _ next hnext
      rw [ends_record, scene_noted rfl, hnext.scene, hmarked]
      exact ⟨f, rfl⟩
  | false =>
      have hdetached := scene_detached hnone hsight (hmapped.1.trans hscene)
      unfold detachFrame
      rw [if_neg Bool.false_ne_true, ends_bind, ends_updatePage, ends_bind]
      refine (keeps_freeFrame f _).mono ?_ ?_
      · intro _ next hnext
        rw [ends_fail]
        exact hnext.scene.trans hdetached
      · intro _ next hnext
        exact hnext.scene.trans hdetached

def Filling (fill : Nat → Routine Unit) (m : Machine) (locks : List Lock) (mem : FlatMemory)
    (good : Bytes → Prop) : Prop :=
  ∀ n f, Undisturbed locks m n →
    n.Sound { locks := locks, stray := [f], filling := [f] } mem →
    Ends (fill f) n Anyhow (fun _ next => Pours f n next ∧ good (next.pool.content f))
      fun _ next => Pours f n next

theorem steps_placeCopy {fill : Nat → Routine Unit} {data : Bytes} {good : Bytes → Prop}
    (k : m.Sound { locks := locks } mem)
    (hsight : m.scene.sight t copy.va = ⟨some copy, none, none⟩) (hnone : copy.frame = none)
    (hring : Lock.ring ∉ locks) (hswap : Lock.swap ∉ locks)
    (hfill : Fills fill (m.locked (.page t copy.va)) Anyhow (.page t copy.va :: locks) mem copy
      data)
    (hfilling : Filling fill (m.locked (.page t copy.va)) (.page t copy.va :: locks) mem good) :
    Ends (placeCopy t copy dirty fill) m Anyhow
      (fun _ next => ∃ v bytes, Scene.Steps (Deed.Evicting (.page t copy.va :: locks)) m.scene v ∧
        good bytes ∧ v.Cloned t copy dirty bytes next.scene)
      fun _ next =>
        Scene.Steps (Deed.Evicting (.page t copy.va :: locks)) m.scene next.scene := by
  have hring' : Lock.ring ∉ Lock.page t copy.va :: locks := by
    simpa using hring
  have hswap' : Lock.swap ∉ Lock.page t copy.va :: locks := by
    simpa using hswap
  have klocked := k.locked (.page t copy.va)
  unfold placeCopy
  apply ends_withLock_of
  rw [ends_bind]
  refine ((ends_allocateFrame klocked hring' hswap' fun _ => trivial).and
    (steps_allocateFrame klocked hswap')).mono ?_ fun _ _ hfalse => hfalse.1.elim
  intro f given hgiven
  rcases hgiven with ⟨⟨hundisturbed, kgiven, hlisted⟩, hsteps⟩
  rw [scene_locked] at hsteps
  have hgivenSight := (hsteps.sight_locked List.mem_cons_self).trans hsight
  rw [ends_bind, ends_attempt]
  refine ((hfill given f hundisturbed kgiven).and (hfilling given f hundisturbed kgiven)).mono
    ?_ ?_
  · intro _ filled hfilled
    rcases hfilled with ⟨⟨hbeside, kfilled, -⟩, hpours, hgood⟩
    have hscene := hpours.scene_unheld kgiven List.mem_cons_self
    rw [← hscene] at hsteps hgivenSight
    dsimp only
    refine (steps_mapCopy kfilled hnone ?_ hgivenSight).mono ?_ ?_
    · rw [hbeside.ring]
      exact hlisted
    · intro _ next hnext
      rw [scene_unlocked]
      exact ⟨filled.scene, _, hsteps, hgood, hnext⟩
    · intro _ next hnext
      rw [scene_unlocked, hnext]
      exact hsteps
  · intro e failed hfailed
    have hscene := hfailed.2.scene_unheld kgiven List.mem_cons_self
    rw [← hscene] at hsteps
    dsimp only
    rw [ends_bind]
    refine (keeps_freeFrame f failed).mono ?_ ?_
    · intro _ next hnext
      rw [ends_fail, scene_unlocked, hnext.scene]
      exact hsteps
    · intro _ next hnext
      rw [scene_unlocked, hnext.scene]
      exact hsteps

/-! ## Copying one page -/

theorem filling_writeFrame {bytes : Bytes} (hlength : bytes.length = m.layout.pageBytes) :
    Filling (fun place => writeFrame place 0 bytes) m locks mem (· = bytes) := by
  intro n f hundisturbed k
  have hf := k.frames.lt_capacity (k.frames.strayListed f List.mem_cons_self)
  have hpours := ends_writeFrame.mp (pours_writeFrame (f := f) 0 bytes n)
  rw [ends_writeFrame]
  refine ⟨hpours, ?_⟩
  rw [FramePool.content_write_self]
  refine Bytes.overlay_zero_of_length_eq ?_
  rw [hlength, k.length_content hf, hundisturbed.layout]

theorem filling_readSlot {slot length : Nat} :
    Filling (fun place => readSlot slot place length) m locks mem fun _ => True := by
  intro n f _ _
  exact (pours_readSlot (f := f) slot length n).mono (fun _ _ hnext => ⟨hnext, trivial⟩)
    fun _ _ hnext => hnext

/-- A copy without content stays as it is; otherwise it gets a frame after other pages were
evicted. The content and the dirty bit of a resident page go along. -/
theorem steps_copyContent (k : m.Sound { locks := locks } mem)
    (hpage : m.page? s va = some page) (hsight : m.scene.sight t va = ⟨some copy, none, none⟩)
    (hnone : copy.frame = none) (hsource : Lock.page s va ∈ locks)
    (hring : Lock.ring ∉ locks) (hswap : Lock.swap ∉ locks) :
    Ends (copyContent s t page copy) m Anyhow
      (fun _ next => page.frame = none ∧ page.slot = none ∧ next.scene = m.scene ∨
        (page.frame.isSome = true ∨ page.slot.isSome = true) ∧ ∃ v dirty bytes,
          Scene.Steps (Deed.Evicting (.page t va :: locks)) m.scene v ∧
          v.Cloned t copy dirty bytes next.scene ∧
          (∀ f, page.frame = some f →
            bytes = m.pool.content f ∧ dirty = (m.process s).mmu.isDirty va) ∧
          (page.frame = none → dirty = false))
      fun _ next => Scene.Steps (Deed.Evicting (.page t va :: locks)) m.scene next.scene := by
  have hcopy : m.page? t va = some copy := congrArg Sight.page hsight
  have haddress := (k.placed t va copy hcopy).address
  have haddress' := (k.placed s va page hpage).address
  subst haddress
  unfold copyContent
  cases hframe : page.frame with
  | some frame =>
      have hf := k.frame_lt hpage hframe
      have hlength := k.length_content hf
      have hwhole : (m.pool.content frame).take page.bytes = m.pool.content frame := by
        rw [k.bytes_eq hpage]
        exact List.take_of_length_le (Nat.le_of_eq hlength)
      dsimp only
      rw [ends_bind, ends_get, ends_bind, ends_readFrame, hwhole, haddress']
      have hfills : Fills (fun place => writeFrame place 0 (m.pool.content frame))
          (m.locked (.page t copy.va)) Anyhow (.page t copy.va :: locks) mem copy
          (m.pool.content frame) := fills_writeFrame (fun _ => rfl) hlength
      refine (steps_placeCopy k hsight hnone hring hswap hfills
        (filling_writeFrame hlength)).mono ?_ fun _ _ hnext => hnext
      intro _ next hnext
      rcases hnext with ⟨v, bytes, hsteps, rfl, hcloned⟩
      right
      refine ⟨Or.inl rfl, v, _, _, hsteps, hcloned, ?_, nofun⟩
      intro f hf
      cases hf
      exact ⟨rfl, rfl⟩
  | none =>
      cases hslot : page.slot with
      | some slot =>
          dsimp only
          have hanon := PageState.eq_anon_of_slot hslot
          refine (steps_placeCopy k hsight hnone hring hswap
            (fills_readSlot (m := m.locked _) hpage (List.mem_cons_of_mem _ hsource) hanon
              (k.bytes_eq hcopy)) filling_readSlot).mono ?_ fun _ _ hnext => hnext
          intro _ next hnext
          rcases hnext with ⟨v, bytes, hsteps, -, hcloned⟩
          exact Or.inr ⟨Or.inr rfl, v, _, bytes, hsteps, hcloned, nofun, fun _ => rfl⟩
      | none => exact Or.inl ⟨rfl, rfl, rfl⟩

theorem steps_copyPage (k : m.Sound { locks := [.page s va] } mem)
    (hpage : m.page? s va = some page) :
    Ends (copyPage s t page) m Anyhow
      (fun _ next => m.scene.Copied s t page { page.copyFor t with id := m.nextId } next.scene)
      fun _ next => Scene.Steps (Deed.Preparing t) m.scene next.scene := by
  have haddress := (k.placed s va page hpage).address
  subst haddress
  unfold copyPage
  rw [ends_bind]
  have hregister : Ends (register t (page.copyFor t)) m Anyhow _ _ :=
    steps_register (fun _ => k) rfl List.not_mem_nil
  refine ((ends_registerCopy k hpage).and hregister).mono ?_ ?_
  · intro _ registered hend
    rcases hend with ⟨⟨rfl, rfl, hp, hfree, hne, kregistered⟩, -, hblank, hscene⟩
    have hpage' : (m.withPage t (page.copyFor t)).page? s page.va = some page :=
      (page?_withPage_of_ne hp hne page.va).trans hpage
    have hsource : (m.withPage t (page.copyFor t)).scene.sight s page.va =
        m.scene.sight s page.va := by
      rw [hscene]
      exact Scene.sight_see_of_ne fun hat => hne hat.1
    have hregistered : Scene.Steps (Deed.Preparing t) m.scene
        (m.withPage t (page.copyFor t)).scene := by
      rw [hscene]
      have hstep : Scene.Step (.register t { page.copyFor t with id := m.nextId }) m.scene
          (m.scene.see t page.va ⟨some { page.copyFor t with id := m.nextId }, none, none⟩) :=
        .register hblank rfl
      exact .single _ (Or.inr ⟨_, rfl⟩) hstep
    refine (steps_copyContent kregistered hpage' (sight_of_scene hscene) rfl List.mem_cons_self
      ?_ ?_).mono ?_ ?_
    · simp
    · simp
    · intro _ next hnext
      refine ⟨hblank, ?_⟩
      rcases hnext with ⟨hframe, hslot, hnext⟩ |
        ⟨hsome, u, dirty, bytes, hsteps, hcloned, hexact, hclean⟩
      · exact Or.inl ⟨hframe, hslot, hnext.trans hscene⟩
      · right
        rw [hscene] at hsteps
        refine ⟨hsome, u, dirty, bytes, hsteps, hcloned, ?_, hclean⟩
        intro hresident
        rcases Option.isSome_iff_exists.mp hresident with ⟨f, hframe⟩
        rcases hexact f hframe with ⟨rfl, rfl⟩
        rw [← hsource]
        have hseen : (m.withPage t (page.copyFor t)).scene.sight s page.va = _ :=
          sight_of_page? hpage'
        rw [hseen, hframe]
        exact ⟨rfl, Mmu.isDirty_eq_entry? _ _⟩
    · intro _ next hnext
      exact hregistered.trans (hnext.mono fun deed hdeed => Or.inl hdeed.unlocked)
  · intro _ _ hend
    rw [hend.1]
    exact .refl _

/-! ## Copying a process -/

theorem steps_copyPages {vas : List Vaddr} (k : m.Sound {} mem)
    (hpages : ∀ va ∈ vas, (m.page? s va).isSome = true) :
    Ends (copyPages s t vas) m Anyhow (fun _ next => Scene.Turns s t m.scene vas next.scene)
      fun _ next => Scene.BrokenOff s t m.scene next.scene := by
  induction vas generalizing m mem with
  | nil => exact .nil m.scene
  | cons va rest ih =>
      rcases Option.isSome_iff_exists.mp (hpages va List.mem_cons_self) with ⟨page, hpage⟩
      have hpage' : (m.locked (.page s va)).page? s va = some page := hpage
      have klocked := k.locked (.page s va)
      have haddress := (k.placed s va page hpage).address
      unfold copyPages
      rw [ends_bind]
      apply ends_withLock_of
      rw [ends_bind, ends_get, hpage']
      refine ((ends_copyPage klocked hpage' trivial).and (steps_copyPage klocked hpage')).mono
        ?_ ?_
      · intro _ copied hend
        rcases hend with ⟨⟨hcopied, -, kcopied⟩, hturn⟩
        rw [scene_locked] at hturn
        have hstart : (m.scene.sight s va).page = some page := hpage
        refine (ih (kcopied.unlocked rfl) ?_).mono ?_ ?_
        · intro wa hwa
          have hcopied' : Copied s t m (copied.unlocked (.page s va)) :=
            ⟨{ hcopied.alike with }, hcopied.copies⟩
          exact hcopied'.isSome_of_isSome (hpages wa (List.mem_cons_of_mem va hwa))
        · intro _ next hnext
          rw [scene_unlocked] at hnext
          exact .cons hstart haddress rfl hturn hnext
        · intro _ next hnext
          rw [scene_unlocked] at hnext
          exact .cons hstart haddress rfl hturn hnext
      · intro _ next hend
        rw [scene_unlocked]
        rw [scene_locked] at hend
        exact .of_steps hend.2

theorem steps_fork (k : m.Sound {} mem) :
    Ends (fork s t) m Anyhow
      (fun _ next => ∃ v, Scene.Turns s t m.scene (m.process s).pages.keys v ∧ next.scene =
        v.grouped t (mergeMappings (m.process t).mappings (m.process s).mappings.entries))
      fun _ next => Scene.BrokenOff s t m.scene next.scene := by
  have hpages : ∀ va ∈ (m.process s).pages.keys, (m.page? s va).isSome = true :=
    fun _ => mem_keys_iff_isSome.mp
  unfold fork
  rw [ends_bind, ends_get, ends_bind, ends_require]
  split
  · rename_i hopen
    rw [Bool.not_eq_true'] at hopen
    rw [ends_bind]
    refine ((steps_copyPages k hpages).and (quiet_copyPages s t _ m)).mono ?_
      fun _ _ hnext => hnext.1
    intro _ next hnext
    rcases hnext with ⟨hturns, hquiet⟩
    have ht : t < next.processes.length := by
      rw [hquiet.count]
      exact lt_of_tornDown_eq_false hopen
    have hmappings : ∀ q, (next.process q).mappings = (m.process q).mappings :=
      congrFun hturns.steps.mappings_eq_of_copying
    rw [ends_bind, ends_modify, ends_report]
    refine ⟨next.scene, hturns, ?_⟩
    rw [scene_recorded rfl, scene_modifyMappings ht, hmappings, hmappings]
  · exact .of_steps (.refl _)

end Machine
end DemandPaging
