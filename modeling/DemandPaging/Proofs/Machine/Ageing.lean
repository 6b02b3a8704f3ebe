import DemandPaging.Proofs.Machine.Numbering
import DemandPaging.Proofs.Machine.Retry
import DemandPaging.Proofs.Scene.Initialisation
import DemandPaging.Proofs.Scene.Operation

/-!
# The age of pages

Up to its frame and its slot, a page changes once at most, by its first load; it is older then. No
operation makes a page younger, and only a claim or a fault that succeeds makes one older, the page
that it is about. A page that is removed does not come back, because a new page gets a new number.
-/

namespace DemandPaging

/-! ## The age of a page -/

/-- A page stays as it is up to its frame and its slot, or it is initialised where it may be. -/
def Page.Ripens (may : Prop) (page later : Page) : Prop :=
  later.outline = page.outline ∨ may ∧ later.outline = page.initialised

namespace Page.Ripens

variable {may may' : Prop} {page middle later : Page}

theorem mono (h : page.Ripens may later) (hmay : may → may') : page.Ripens may' later :=
  h.imp_right fun hinit => ⟨hmay hinit.1, hinit.2⟩

theorem trans (h : page.Ripens may middle) (h' : middle.Ripens may later) :
    page.Ripens may later := by
  rcases h' with hsame | ⟨hmay, hinit⟩
  · unfold Ripens
    rw [hsame]
    exact h
  · refine Or.inr ⟨hmay, ?_⟩
    rw [hinit, ← middle.initialised_outline]
    rcases h with hsame | ⟨-, hinit'⟩
    · rw [hsame, page.initialised_outline]
    · rw [hinit', page.initialised_initialised]

theorem nature_eq (h : page.Ripens may later) : later.nature = page.nature := by
  rcases h with hsame | ⟨-, hinit⟩
  · exact nature_eq_of_outline hsame
  · rw [← nature_outline later, hinit, nature_initialised]

end Page.Ripens

/-! ## Deeds that may initialise -/

namespace Deed

variable {deed : Deed} {places : Nat → Vaddr → Prop} {locks : List Lock} {p : Nat} {va : Vaddr}

theorem Evicting.ageing (h : deed.Evicting locks) : deed.Ageing places := by
  cases deed with
  | save | evict | strand | relink => trivial
  | start | register | regroup | load | remove | clone | store => exact h.elim

theorem Claiming.ageing (h : deed.Claiming p va) : deed.Ageing (Machine.At p va) := by
  rcases h with hevicting | ⟨page, rfl, rfl⟩
  · exact hevicting.ageing
  · exact ⟨rfl, rfl⟩

theorem Releasing.ageing {page : Page} (h : deed.Releasing p page) : deed.Ageing places := by
  rcases h with rfl | rfl
  · trivial
  · trivial

theorem Evicting.growing (h : deed.Evicting locks) : deed.Growing := by
  cases deed with
  | save | evict | strand | relink => trivial
  | start | register | regroup | load | remove | clone | store => exact h.elim

theorem Copying.growing {t : Nat} (h : deed.Copying t) : deed.Growing := by
  rcases h with hevicting | ⟨page, rfl⟩ | ⟨copy, rfl⟩
  · exact hevicting.growing
  · trivial
  · trivial

end Deed

namespace Machine

open Routine

variable {l m n : Machine} {mem : FlatMemory} {p q : Nat} {va wa : Vaddr} {page later : Page}
  {o : Owner} {op : Operation} {places places' : Nat → Vaddr → Prop}

/-! ## Pages and their first loads -/

def firstLoads (m : Machine) (o : Owner) : Nat :=
  m.trace.count (.filled o true)

theorem firstLoads_scene (m : Machine) (o : Owner) : m.scene.firstLoads o = m.firstLoads o :=
  List.count_filter rfl

theorem exists_owned_of_outlines {look : Page}
    (h : m.scene.outlines o.process o.va = some look) (hid : look.id = o.id) :
    ∃ page, m.ownedPage? o = some page ∧ page.outline = look := by
  rcases Option.map_eq_some_iff.mp h with ⟨page, hpage, hlook⟩
  refine ⟨page, ownedPage?_eq_some_iff.mpr ⟨hpage, ?_⟩, hlook⟩
  rw [← hid, ← hlook]
  rfl

theorem outlines_of_owned (h : m.ownedPage? o = some page) :
    m.scene.outlines o.process o.va = some page.outline :=
  Option.map_eq_some_iff.mpr ⟨page, (ownedPage?_eq_some_iff.mp h).1, rfl⟩

theorem awaits_scene_iff : m.scene.awaits o = true ↔
    ∃ page, m.ownedPage? o = some page ∧ page.stateClass = .uninit := by
  rw [Scene.awaits_iff]
  constructor
  · rintro ⟨look, hlook, hid, hclass⟩
    rcases exists_owned_of_outlines hlook hid with ⟨page, hpage, rfl⟩
    exact ⟨page, hpage, (Page.stateClass_eq_of_outline page.outline_outline).symm.trans hclass⟩
  · rintro ⟨page, hpage, hclass⟩
    exact ⟨page.outline, outlines_of_owned hpage, (ownedPage?_eq_some_iff.mp hpage).2,
      (Page.stateClass_eq_of_outline page.outline_outline).trans hclass⟩

/-- The numbers of the pages were given out, no page had a first load before it had its number, and
no page has more than one. -/
structure Numbered (m : Machine) : Prop where
  pages : ∀ p va page, m.page? p va = some page → page.id < m.nextId
  fresh : ∀ o, m.nextId ≤ o.id → m.firstLoads o = 0
  once : ∀ o, m.scene.loadsDue o ≤ 1

namespace Numbered

theorem id_lt (h : m.Numbered) (howned : m.ownedPage? o = some page) : o.id < m.nextId := by
  rcases ownedPage?_eq_some_iff.mp howned with ⟨hpage, hid⟩
  rw [← hid]
  exact h.pages _ _ _ hpage

theorem loadsDue_fresh (h : m.Numbered) (hfresh : m.nextId ≤ o.id) : m.scene.loadsDue o = 0 := by
  have hawaits : m.scene.awaits o = false := by
    apply Bool.eq_false_iff.mpr
    intro hawaits
    rcases awaits_scene_iff.mp hawaits with ⟨page, hpage, -⟩
    exact Nat.not_le_of_lt (h.id_lt hpage) hfresh
  rw [Scene.loadsDue_of_not_awaits hawaits, firstLoads_scene]
  exact h.fresh o hfresh

theorem firstLoads_le_one (h : m.Numbered) (o : Owner) : m.firstLoads o ≤ 1 := by
  rw [← firstLoads_scene]
  exact Nat.le_trans Scene.firstLoads_le_loadsDue (h.once o)

theorem firstLoads_eq_zero (h : m.Numbered) (howned : m.ownedPage? o = some page)
    (hclass : page.stateClass = .uninit) : m.firstLoads o = 0 := by
  have honce := h.once o
  rw [Scene.loadsDue_of_awaits (awaits_scene_iff.mpr ⟨page, howned, hclass⟩),
    firstLoads_scene] at honce
  exact Nat.le_zero.mp (Nat.le_of_succ_le_succ honce)

theorem pages_after (h : m.Numbered) (hnumbers : NumbersOn m n) (p : Nat) (va : Vaddr)
    (page : Page) (hpage : n.page? p va = some page) : page.id < n.nextId := by
  rcases hnumbers.pages p va page hpage with ⟨old, hold, hid⟩ | ⟨-, hbound⟩
  · rw [hid]
    exact Nat.lt_of_lt_of_le (h.pages p va old hold) hnumbers.next
  · exact hbound

end Numbered

/-! ## Machines that age -/

/-- No page changes but by its first load, which happens at the given places alone. -/
structure Ages (places : Nat → Vaddr → Prop) (m n : Machine) : Prop where
  next : m.nextId ≤ n.nextId
  /-- A page that has its number does not come back when it is gone. -/
  ripens : ∀ o later, o.id < m.nextId → n.ownedPage? o = some later →
    ∃ page, m.ownedPage? o = some page ∧ page.Ripens (places o.process o.va) later
  numbered : m.Numbered → n.Numbered

namespace Ages

theorem mono (h : Ages places m n) (hplaces : ∀ p va, places p va → places' p va) :
    Ages places' m n where
  next := h.next
  ripens := by
    intro o later hid hlater
    rcases h.ripens o later hid hlater with ⟨page, hpage, hripens⟩
    exact ⟨page, hpage, hripens.mono (hplaces _ _)⟩
  numbered := h.numbered

theorem anywhere (h : Ages Nowhere m n) : Ages places m n :=
  h.mono fun _ _ => False.elim

theorem trans (h : Ages places l m) (h' : Ages places m n) : Ages places l n where
  next := Nat.le_trans h.next h'.next
  ripens := by
    intro o later hid hlater
    rcases h'.ripens o later (Nat.lt_of_lt_of_le hid h.next) hlater with
      ⟨middle, hmiddle, hripens'⟩
    rcases h.ripens o middle hid hmiddle with ⟨page, hpage, hripens⟩
    exact ⟨page, hpage, hripens.trans hripens'⟩
  numbered := fun hm => h'.numbered (h.numbered hm)

theorem of_ageing (h : Scene.Steps (Deed.Ageing places) m.scene n.scene)
    (hnumbers : NumbersOn m n) : Ages places m n where
  next := hnumbers.next
  ripens := by
    intro o later _ hlater
    have hid := (ownedPage?_eq_some_iff.mp hlater).2
    rcases h.descends (outlines_of_owned hlater) with ⟨look, hlook, hcases⟩
    have hripe : look.id = o.id ∧ ∀ page : Page, page.outline = look →
        page.Ripens (places o.process o.va) later := by
      rcases hcases with hsame | ⟨hplace, hinit⟩
      · refine ⟨?_, ?_⟩
        · rw [← hid, ← hsame]
          rfl
        · rintro page rfl
          exact Or.inl hsame
      · refine ⟨?_, ?_⟩
        · rw [← hid]
          exact (congrArg Page.id hinit).symm
        · rintro page rfl
          rw [page.initialised_outline] at hinit
          exact Or.inr ⟨hplace, hinit⟩
    rcases exists_owned_of_outlines hlook hripe.1 with ⟨page, hpage, hout⟩
    exact ⟨page, hpage, hripe.2 page hout⟩
  numbered := by
    intro hm
    refine ⟨hm.pages_after hnumbers, ?_, fun o => Nat.le_trans (h.loadsDue_le o) (hm.once o)⟩
    intro o hfresh
    have hdue := h.loadsDue_le o
    rw [hm.loadsDue_fresh (Nat.le_trans hnumbers.next hfresh)] at hdue
    rw [← firstLoads_scene]
    exact Nat.le_zero.mp (Nat.le_trans Scene.firstLoads_le_loadsDue hdue)

theorem of_growing (h : Scene.Steps Deed.Growing m.scene n.scene) (hnumbers : NumbersOn m n) :
    Ages Nowhere m n := by
  have hkept : ∀ o later, o.id < m.nextId → n.ownedPage? o = some later →
      ∃ page, m.ownedPage? o = some page ∧ later.outline = page.outline := by
    intro o later hold hlater
    rcases ownedPage?_eq_some_iff.mp hlater with ⟨hpage, hid⟩
    rcases hnumbers.pages _ _ later hpage with ⟨page, hbefore, heq⟩ | ⟨hnew, -⟩
    · have howned := ownedPage?_eq_some_iff.mpr ⟨hbefore, heq.symm.trans hid⟩
      have hsurvives := h.survives (outlines_of_owned howned)
      rw [outlines_of_owned hlater] at hsurvives
      exact ⟨page, howned, Option.some.inj hsurvives⟩
    · rw [hid] at hnew
      exact absurd hold (Nat.not_lt_of_le hnew)
  refine ⟨hnumbers.next, ?_, ?_⟩
  · intro o later hold hlater
    rcases hkept o later hold hlater with ⟨page, hpage, hsame⟩
    exact ⟨page, hpage, Or.inl hsame⟩
  · intro hm
    refine ⟨hm.pages_after hnumbers, ?_, ?_⟩
    · intro o hfresh
      rw [← firstLoads_scene, h.firstLoads_eq, firstLoads_scene]
      exact hm.fresh o (Nat.le_trans hnumbers.next hfresh)
    · intro o
      rcases Nat.lt_or_ge o.id m.nextId with hold | hnew
      · refine Nat.le_trans (Scene.loadsDue_le (h.firstLoads_eq o) ?_) (hm.once o)
        intro hawaits
        rcases awaits_scene_iff.mp hawaits with ⟨later, hlater, hclass⟩
        rcases hkept o later hold hlater with ⟨page, hpage, hsame⟩
        exact awaits_scene_iff.mpr
          ⟨page, hpage, (Page.stateClass_eq_of_outline hsame).symm.trans hclass⟩
      · rw [Scene.loadsDue, h.firstLoads_eq, firstLoads_scene, hm.fresh o hnew, Nat.zero_add]
        exact Bool.toNat_le _

theorem of_scene (h : n.scene = m.scene) (hnumbers : NumbersOn m n) : Ages places m n :=
  .of_ageing (.of_eq h) hnumbers

theorem recorded (m : Machine) {event : Event} (h : event.isMovement = false) :
    Ages places m (m.recorded event) :=
  .of_scene (scene_recorded h) (.of_page?_eq rfl rfl)

end Ages

/-! ## Claims and faults -/

theorem ages_of_claiming {r : Routine Unit} (hsteps : Ends r m Anyhow
      (fun _ next => Scene.Steps (Deed.Claiming p va) m.scene next.scene)
      fun _ next => Scene.Steps (Deed.Evicting []) m.scene next.scene)
    (hnumbers : Keeps NumbersOn r) :
    Ends r m Anyhow (fun _ next => Ages (At p va) m next) fun _ next => Ages Nowhere m next := by
  refine (hsteps.and (hnumbers m)).mono ?_ ?_
  · exact fun _ _ hnext => .of_ageing (hnext.1.mono fun _ => Deed.Claiming.ageing) hnext.2
  · exact fun _ _ hnext => .of_ageing (hnext.1.mono fun _ => Deed.Evicting.ageing) hnext.2

theorem ages_growStack (k : m.Sound {} mem) :
    Ends (growStack p (m.pageBase va)) m Anyhow
      (fun _ next => Ages (At p (m.pageBase va)) m next) fun _ next => Ages Nowhere m next := by
  have hserving := numbersOn_ignores.toIgnoresServing
  unfold growStack
  rw [ends_bind, ends_get, ends_bind]
  rw [stackPage_of_aligned (isAligned_pageBase m va), ends_ofStop_ok, ends_bind]
  refine ((steps_registerStack (p := p) ⟨0, m.pageBase va, true, true, none, none, p,
    m.layout.pageSize, .uninit (.anon none)⟩ k ⟨rfl, rfl, rfl⟩ rfl rfl rfl).and
      (kept_register hserving.toIgnoresCopying p _ m)).mono ?_ ?_
  · intro stack registered hend
    rcases hend with ⟨⟨-, hnew, kregistered, hlayout, hpage, hstep⟩, hnumbers⟩
    have hadded : Ages Nowhere m registered :=
      .of_growing (.single (.register p stack) trivial hstep) hnumbers
    rw [ends_bind, ends_attempt]
    have hclaim := ages_of_claiming
      (steps_claim kregistered List.not_mem_nil List.not_mem_nil List.not_mem_nil)
      (kept_claim numbersOn_ignores p (m.pageBase va))
    refine ((ends_claim kregistered List.not_mem_nil List.not_mem_nil List.not_mem_nil
      fun _ => trivial).and hclaim).mono ?_ ?_
    · intro _ next hnext
      rw [ends_report]
      exact (hadded.anywhere.trans hnext.2).trans (.recorded next rfl)
    · intro e next hnext
      rcases hnext with ⟨⟨halike, hkept, knext, -⟩, hclaimed⟩
      have hstack : next.page? p (next.pageBase (m.pageBase va)) = some stack := by
        rw [pageBase_pageBase_of_layout (halike.layout.trans hlayout), hkept, hpage]
      have hremoved : ∀ {last : Machine}, Scene.Steps (Deed.Releasing p stack) next.scene
          last.scene → NumbersOn next last → Ages Nowhere m last := by
        intro last hsteps hlast
        exact (hadded.trans hclaimed).trans
          (.of_ageing (hsteps.mono fun _ => Deed.Releasing.ageing) hlast)
      rw [ends_bind, ends_attempt]
      refine ((steps_removeUngrouped knext hstack hnew.2.1).and
        (kept_removePage hserving p _ next)).mono ?_ ?_
      · exact fun _ _ hlast => hremoved hlast.1 hlast.2
      · exact fun _ _ hlast => hremoved hlast.1 hlast.2
  · exact fun _ _ hend => .of_scene (congrArg scene hend.1) hend.2

theorem ages_resolveFault {f : Fault} (k : m.Sound {} mem) :
    Ends (resolveFault p f) m Anyhow (fun _ next => Ages (At p (m.pageBase f.va)) m next)
      fun _ next => Ages Nowhere m next := by
  unfold resolveFault
  rw [ends_bind, ends_get]
  split
  · exact .recorded m rfl
  split
  · exact .recorded m rfl
  cases hpage : m.lookup p f.va with
  | none =>
      dsimp only
      split
      · exact ages_growStack k
      · exact .recorded m rfl
  | some page =>
      rw [← (k.placed p _ page hpage).address]
      exact ages_of_claiming (steps_resolveAtPage k) (kept_resolveAtPage numbersOn_ignores p page f)

end Machine

/-! ## Operations -/

namespace Operation

def Claims (op : Operation) (m : Machine) (p : Nat) (base : Vaddr) : Prop :=
  ∃ va, op.claims? = some (p, va) ∧ m.pageBase va = base

theorem growing_of_fork {m : Machine} {s t : Nat} {deed : Deed}
    (h : (Operation.fork s t).Permits m deed) : deed.Growing := by
  rcases h with hcopying | ⟨bases, rfl⟩
  · exact hcopying.growing
  · trivial

theorem growing_or_ageing {op : Operation} (m : Machine) (places : Nat → Vaddr → Prop)
    (hclaims : op.claims? = none) :
    (∀ deed, op.Permits m deed → deed.Growing) ∨
      ∀ deed, op.Permits m deed → deed.Ageing places := by
  have hgrouped : ∀ {p : Nat} {bases : List Vaddr},
      (Deed.regroup p bases).Ageing places := trivial
  cases op with
  | claim | fault => contradiction
  | start accepting =>
      refine Or.inl ?_
      rintro _ rfl
      trivial
  | allocate p type va writable loader =>
      refine Or.inl ?_
      rintro _ ⟨origin, -, rfl⟩
      trivial
  | map p start length writable f offset =>
      refine Or.inl ?_
      rintro _ (⟨page, -, rfl⟩ | rfl)
      · trivial
      · trivial
  | fork s t => exact Or.inl fun _ => growing_of_fork
  | finish p | teardown p =>
      refine Or.inr ?_
      rintro _ (⟨page, -, hreleasing⟩ | ⟨bases, rfl⟩)
      · exact hreleasing.ageing
      · exact hgrouped
  | remove p va =>
      refine Or.inr ?_
      rintro _ ⟨page, -, hreleasing | ⟨base, -, rfl⟩⟩
      · exact hreleasing.ageing
      · exact hgrouped
  | unmap p va =>
      refine Or.inr ?_
      rintro _ ⟨base, mapping, -, -, rfl | ⟨page, -, hreleasing⟩⟩
      · exact hgrouped
      · exact hreleasing.ageing
  | write p va data =>
      refine Or.inr ?_
      rintro _ ⟨count, rfl⟩
      trivial
  | read | classAt | mappingAt => exact Or.inr fun _ hdeed => hdeed.elim

end Operation

namespace Machine

open Routine

variable {m n last : Machine} {mem : FlatMemory} {op : Operation} {o : Owner} {page later : Page}

/-- A page is initialised by an operation that claims it and succeeds. -/
theorem ages_perform (op : Operation) (k : m.Sound {} mem) :
    Ends op.perform m Anyhow (fun _ next => Ages (op.Claims m) m next)
      fun _ next => Ages Nowhere m next := by
  have hclaimed : ∀ {p : Nat} {va : Vaddr} {next : Machine}, op.claims? = some (p, va) →
      Ages (At p (m.pageBase va)) m next → Ages (op.Claims m) m next := by
    intro p va next hclaims hages
    refine hages.mono ?_
    rintro _ _ ⟨rfl, rfl⟩
    exact ⟨va, hclaims, rfl⟩
  cases hclaims : op.claims? with
  | none =>
      have hkept : ∀ {places : Nat → Vaddr → Prop} {next : Machine},
          Scene.Steps (op.Permits m) m.scene next.scene → NumbersOn m next →
          Ages places m next := by
        intro places next hsteps hnumbers
        rcases op.growing_or_ageing m places hclaims with hgrowing | hageing
        · exact (Ages.of_growing (hsteps.mono hgrowing) hnumbers).anywhere
        · exact .of_ageing (hsteps.mono hageing) hnumbers
      exact ((steps_perform op k).and (kept_perform numbersOn_ignores op m)).mono
        (fun _ _ hnext => hkept hnext.1 hnext.2) fun _ _ hnext => hkept hnext.1 hnext.2
  | some place =>
      cases op with
      | claim p va =>
          unfold Operation.perform
          rw [ends_bind]
          exact (ages_of_claiming (steps_claimPage k) (kept_claimPage numbersOn_ignores p va)).mono
            (fun _ _ hnext => hclaimed rfl hnext) fun _ _ hnext => hnext
      | fault p f =>
          unfold Operation.perform
          rw [ends_bind]
          exact (ages_resolveFault k).mono (fun _ _ hnext => hclaimed rfl hnext)
            fun _ _ hnext => hnext
      | _ => contradiction

def Initialising (m : Machine) (op : Operation) (n : Machine) (p : Nat) (base : Vaddr) : Prop :=
  op.Claims m p base ∧ ∃ reply, op.perform m = .ok reply n

theorem Sound.ages_after? (k : m.Sound {} mem) (h : m.after? op = some n) :
    Ages (m.Initialising op n) m n := by
  rcases after?_eq_some_iff.mp h with ⟨reply, hserved⟩ | ⟨e, hfailed⟩
  · exact ((ages_perform op k).of_ok hserved).mono fun _ _ hplace => ⟨hplace, reply, hserved⟩
  · exact ((ages_perform op k).of_failed hfailed).anywhere

/-! ## Runs -/

theorem Reachable.numbered (h : m.Reachable) : m.Numbered := by
  refine (h.induction (P := fun m => (∃ mem, m.Sound {} mem) ∧ m.Numbered) ?_ ?_).2
  · intro config hardware start hboot
    refine ⟨⟨fun _ _ => 0, boot_sound _ hboot⟩, ?_⟩
    have hnone := page?_of_boot hboot
    have hloads : ∀ o, start.firstLoads o = 0 := by
      rcases boot_eq_initial hboot with ⟨layout, area, report, rfl, -⟩
      exact fun o => rfl
    refine ⟨?_, fun o _ => hloads o, ?_⟩
    · intro p va page hpage
      rw [hnone] at hpage
      contradiction
    · intro o
      rw [Scene.loadsDue, firstLoads_scene, hloads, Nat.zero_add]
      exact Bool.toNat_le _
  · intro m op next hm hnext
    rcases hm with ⟨⟨mem, k⟩, hnumbered⟩
    exact ⟨k.after? hnext, (k.ages_after? hnext).numbered hnumbered⟩

theorem Sound.ages_run {ops : List Operation} (k : m.Sound {} mem)
    (h : m.run ops = some last) : Ages (fun _ _ => True) m last := by
  induction ops generalizing m mem with
  | nil =>
      cases h
      exact .of_scene rfl (.of_page?_eq rfl rfl)
  | cons op rest ih =>
      rw [run_cons, Option.bind_eq_some_iff] at h
      rcases h with ⟨next, hnext, hlast⟩
      rcases k.after? hnext with ⟨mem', knext⟩
      exact ((k.ages_after? hnext).mono fun _ _ _ => trivial).trans (ih knext hlast)

end Machine
end DemandPaging
