import DemandPaging.Proofs.Machine.Ledger
import DemandPaging.Proofs.Scene.Copies
import DemandPaging.Proofs.Scene.Groups

/-!
# What a fork hands down

A fork that is served gives the target a copy of every page of the source, of the same kind and with
the same content, whatever was evicted meanwhile. A page that was never loaded is not loaded, and
the source keeps what it has.
-/

namespace DemandPaging
namespace Machine

open Routine

variable {m next : Machine} {mem mem' : FlatMemory} {p q s t : Nat} {va : Vaddr}
  {page other : Page}

/-! ## Backed pages -/

theorem backed_of_permits {op : Operation} (h : op.Permits m (.register q page))
    (hop : ∀ s t, op ≠ .fork s t) : page.Backed := by
  have huninit : ∀ {origin}, page.state = .uninit origin → page.Backed := by
    intro origin hstate hanon
    rw [hstate] at hanon
    contradiction
  cases op with
  | start accepting => cases h
  | finish p | teardown p =>
      rcases h with ⟨other, -, h | h⟩ | ⟨bases, h⟩
      · cases h
      · cases h
      · cases h
  | allocate p type va writable loader =>
      rcases h with ⟨origin, -, h⟩
      cases h
      exact huninit rfl
  | remove p va =>
      rcases h with ⟨other, -, (h | h) | ⟨base, -, h⟩⟩
      · cases h
      · cases h
      · cases h
  | claim p va =>
      rcases h with h | ⟨other, -, h⟩
      · exact h.elim
      · cases h
  | fault p f =>
      rcases h with (h | ⟨other, -, h⟩) | ⟨other, -, hnew, h | h | h⟩
      · exact h.elim
      · cases h
      · cases h
        exact huninit hnew.2.2
      · cases h
      · cases h
  | read p va length => exact h.elim
  | write p va data =>
      rcases h with ⟨count, h⟩
      cases h
  | map p base length writable f offset =>
      rcases h with ⟨other, ⟨i, hgood⟩, h⟩ | h
      · cases h
        rcases hgood.part with ⟨x, hstate, -⟩
        exact huninit hstate
      · cases h
  | unmap p va =>
      rcases h with ⟨base, mapping, -, -, h | ⟨other, -, h | h⟩⟩
      · cases h
      · cases h
      · cases h
  | fork s t => exact absurd rfl (hop s t)
  | classAt p va => exact h.elim
  | mappingAt p va => exact h.elim

theorem Ledger.void_served {l : Ledger} {op : Operation} {reply : Reply}
    (hop : ∀ s t, op ≠ .fork s t) : (l.served m op reply next).void = l.void := by
  cases op with
  | fault p f =>
      unfold Ledger.served
      dsimp only
      split <;> rfl
  | fork s t => exact absurd rfl (hop s t)
  | _ => rfl

theorem backed_perform {l : Ledger} (op : Operation) (k : m.Sound {} mem)
    (h : ∀ p, l.void p = false → m.scene.Backed p) :
    Ends op.perform m Anyhow
      (fun reply next => ∀ p, (l.served m op reply next).void p = false → next.scene.Backed p)
      fun _ next => ∀ p, (l.refused op).void p = false → next.scene.Backed p := by
  by_cases hop : ∀ s t, op ≠ .fork s t
  · refine (steps_perform op k).mono ?_ ?_
    · intro reply next hsteps p hvoid
      rw [Ledger.void_served hop] at hvoid
      exact hsteps.backed (h p hvoid) fun page hdeed => backed_of_permits hdeed hop
    · intro _ next hsteps p hvoid
      refine hsteps.backed (h p ?_) fun page hdeed => backed_of_permits hdeed hop
      cases op with
      | fork s t => exact absurd rfl (hop s t)
      | _ => exact hvoid
  · simp only [not_forall, not_not] at hop
    rcases hop with ⟨s, t, rfl⟩
    have hother : ∀ {w q}, Scene.Steps (Deed.Copying t) m.scene w → q ≠ t → l.void q = false →
        w.Backed q := by
      intro w q hsteps hq hvoid
      refine hsteps.backed (h q hvoid) ?_
      rintro page (hdeed | ⟨other, hdeed⟩ | ⟨copy, hdeed⟩)
      · exact hdeed.elim
      · cases hdeed
        exact absurd rfl hq
      · cases hdeed
    unfold Operation.perform
    rw [ends_bind]
    refine (steps_fork k).mono ?_ ?_
    · intro _ next hnext p hvoid
      rcases hnext with ⟨v, hturns, hscene⟩
      rcases Bool.or_eq_false_iff.mp hvoid with ⟨hvalid, hsource⟩
      have hbacked : v.Backed p := by
        by_cases hp : p = t
        · rw [decide_eq_true hp, Bool.true_and] at hsource
          exact hturns.backed (h s hsource) (h p hvalid)
        · exact hother hturns.steps hp hvalid
      rw [hscene]
      exact hbacked
    · intro _ next hbroken p hvoid
      rcases Bool.or_eq_false_iff.mp hvoid with ⟨hvalid, hne⟩
      exact hother hbroken.steps (of_decide_eq_false hne) hvalid

/-- Along a run, all anonymous pages have a frame or a slot, but for those that were left behind by
a copy that failed. -/
theorem Sound.backed_along {l : Ledger} {ops : List Operation} {last : Machine}
    (k : m.Sound {} mem) (h : ∀ p, l.void p = false → m.scene.Backed p)
    (hrun : m.run ops = some last) :
    (∃ mem', last.Sound {} mem') ∧ ∀ p, (l.along m ops).void p = false → last.scene.Backed p := by
  induction ops generalizing m mem l with
  | nil =>
      cases hrun
      exact ⟨⟨mem, k⟩, h⟩
  | cons op rest ih =>
      have hends := (ends_perform op k).and (backed_perform op k h)
      unfold Ends at hends
      rw [run, Machine.after?] at hrun
      rw [Ledger.along]
      rcases hperform : op.perform m with ⟨reply, next⟩ | ⟨⟨e⟩ | ⟨reason⟩, next⟩
      · rw [hperform] at hends hrun
        rcases hends with ⟨⟨mem', knext, -⟩, hbacked⟩
        exact ih knext hbacked hrun
      · rw [hperform] at hends hrun
        rcases hends with ⟨⟨mem', knext, -⟩, hbacked⟩
        exact ih knext hbacked hrun
      · rw [hperform] at hrun
        contradiction

theorem backed_of_run {config : Config} {hardware : Hardware} {start : Machine}
    {ops : List Operation} (hboot : boot config hardware = .ok start)
    (hrun : start.run ops = some m) :
    (∃ mem, m.Sound {} mem) ∧
      ∀ p, (Ledger.blank.along start ops).void p = false → m.scene.Backed p := by
  refine (boot_sound (fun _ _ => 0) hboot).backed_along ?_ hrun
  intro p _ va page hpage
  rw [show (start.scene.sight p va).page = start.page? p va from rfl, page?_of_boot hboot] at hpage
  contradiction

/-! ## The bytes of anonymous pages -/

def anonBytes (m : Machine) (page : Page) : Option Bytes :=
  match page.frame with
  | some f => some (m.pool.content f)
  | none => page.slot.map m.swap.slotContent

theorem Sound.anonBytes_eq {slot : Option Nat} (k : m.Sound {} mem)
    (hpage : m.page? p va = some page) (hanon : page.state = .anon slot)
    (hbacked : page.Backed) : m.anonBytes page = some (mem.image p va m.layout.pageBytes) := by
  have hholds := k.contents p va page hpage
  unfold anonBytes
  cases hframe : page.frame with
  | some f =>
      have hclass : page.effectiveClass = .anon := by
        rw [Page.effectiveClass, hanon]
        rfl
      have hstate := k.state_of_anon_frame hpage hframe hclass
      exact congrArg some ((hholds.inFrame f hstate hframe).resolve_left List.not_mem_nil)
  | none =>
      rw [Page.slot, hanon]
      cases slot with
      | none => exact absurd hframe (hbacked hanon)
      | some x => exact congrArg some (hholds.inSlot x hanon)

/-- A page is like another one, or like itself at another time: it is of the same kind, and it has
the same bytes if it is anonymous. -/
structure Matches (m next : Machine) (page other : Page) : Prop where
  writable : other.writable = page.writable
  isStack : other.isStack = page.isStack
  mapping : other.mapping = page.mapping
  effectiveClass : other.effectiveClass = page.effectiveClass
  uninit : ∀ origin, page.state = .uninit origin →
    other.state = .uninit origin ∧ other.frame = none
  file : ∀ x, page.state = .file x → other.state = .file x
  anon : ∀ slot, page.state = .anon slot → (∃ slot', other.state = .anon slot') ∧
    ∃ bytes, m.anonBytes page = some bytes ∧ next.anonBytes other = some bytes

theorem Sound.matches_of_outline {id mmu : Nat} (k : m.Sound {} mem) (knext : next.Sound {} mem')
    (hpage : m.page? p va = some page) (hother : next.page? q va = some other)
    (houtline : other.outline = { page.outline with id := id, mmu := mmu })
    (hbacked : page.Backed) (hbacked' : other.Backed) (hlayout : next.layout = m.layout)
    (himage : mem'.image q va m.layout.pageBytes = mem.image p va m.layout.pageBytes) :
    m.Matches next page other := by
  have hstate : other.state.copied = page.state.copied := congrArg Page.state houtline
  have hclass : ∀ state : PageState, state.copied.effectiveClass = state.effectiveClass := by
    intro state
    cases state <;> rfl
  have hsame : ∀ {α : Type} (part : Page → α),
      part other.outline = part { page.outline with id := id, mmu := mmu } :=
    fun part => congrArg part houtline
  refine ⟨hsame Page.writable, hsame Page.isStack, hsame Page.mapping, ?_, ?_, ?_, ?_⟩
  · rw [Page.effectiveClass, Page.effectiveClass, ← hclass, hstate, hclass]
  · intro origin huninit
    rw [huninit] at hstate
    have hsame := PageState.copied_eq_uninit_iff.mp hstate
    refine ⟨hsame, ?_⟩
    cases hframe : other.frame with
    | none => rfl
    | some f =>
        rcases knext.state_of_frame hother hframe with hanon | ⟨x, hfile⟩
        · rw [hsame] at hanon
          contradiction
        · rw [hsame] at hfile
          contradiction
  · intro x hfile
    rw [hfile] at hstate
    exact PageState.copied_eq_file_iff.mp hstate
  · intro slot hanon
    have hclass := congrArg PageState.ownClass hstate
    rw [PageState.ownClass_copied, PageState.ownClass_copied, hanon] at hclass
    rcases PageState.exists_anon_of_ownClass hclass with ⟨slot', hanon'⟩
    refine ⟨⟨slot', hanon'⟩, _, k.anonBytes_eq hpage hanon hbacked, ?_⟩
    rw [knext.anonBytes_eq hother hanon' hbacked', hlayout, himage]

/-! ## Turns -/

theorem copyPages_append (s t : Nat) (first second : List Vaddr) :
    copyPages s t (first ++ second) = copyPages s t first >>= fun _ => copyPages s t second := by
  induction first with
  | nil => exact (pure_bind () fun _ : Unit => copyPages s t second).symm
  | cons va rest ih => rw [List.cons_append, copyPages, copyPages, ih, bind_assoc]

/-- How the copy of a page of a file comes out of its turn: with the bytes and the dirty bit of the
page in a frame of its own, or without a frame, like the page. -/
structure Turned (m next : Machine) (s t : Nat) (va : Vaddr) (page copy : Page) : Prop where
  found : m.page? s va = some page
  copied : next.page? t va = some copy
  state : copy.state = page.state
  idle : page.frame = none → copy.frame = none
  resident : ∀ f, page.frame = some f → ∃ g, copy.frame = some g ∧
    next.pool.content g = m.pool.content f ∧
    (next.process t).mmu.isDirty va = (m.process s).mmu.isDirty va ∧
    ∀ q wa other, next.page? q wa = some other → other.frame = some g → q = t ∧ wa = va

theorem Sound.turned {x : FileExtent} (knext : next.Sound {} mem')
    (hturns : Scene.Turns s t m.scene [va] next.scene) (hpage : m.page? s va = some page)
    (hfile : page.state = .file x) : ∃ copy, m.Turned next s t va page copy := by
  have hsight : m.scene.sight s va = ⟨some page, m.entryAt s va, page.frame.map m.pool.content⟩ :=
    sight_of_page? hpage
  cases hturns with
  | @cons _ w _ _ _ found copy id hfound address alike copied later =>
      cases later
      rw [hsight] at hfound
      cases hfound
      subst alike address
      have hcopied : (page.copyFor t).state = page.state := by
        show page.state.copied = page.state
        rw [hfile]
        rfl
      rcases copied.sight_copy rfl with ⟨hframe, -, hcopy⟩ | ⟨hsome, g, dirty, bytes, hcopy, hsame⟩
      · refine ⟨{ page.copyFor t with id := id }, hpage, congrArg Sight.page hcopy, hcopied,
          fun _ => rfl, ?_⟩
        intro f hf
        rw [hframe] at hf
        contradiction
      · have hother : next.page? t page.va =
            some { page.copyFor t with id := id, frame := some g } := congrArg Sight.page hcopy
        refine ⟨_, hpage, hother, hcopied, ?_, ?_⟩
        · intro hframe
          rw [hframe, Page.slot, hfile] at hsome
          rcases hsome with hsome | hsome
          · contradiction
          · contradiction
        · intro f hf
          rw [hsight, hf] at hsame
          rcases hsame rfl with ⟨hbytes, rfl⟩
          refine ⟨g, rfl, ?_, ?_, ?_⟩
          · have hcontent := congrArg Sight.content ((sight_of_page? hother).symm.trans hcopy)
            exact Option.some.inj (hcontent.trans hbytes.symm)
          · rw [Mmu.isDirty_eq_entry?, Mmu.isDirty_eq_entry?]
            have hentry : (next.process t).mmu.entryAt page.va =
                some ⟨g, page.writable, (m.entryAt s page.va).any PageEntry.dirty, false⟩ :=
              congrArg Sight.entry hcopy
            rw [hentry]
            rfl
          · intro q wa other hq hframe
            exact knext.frames.holder_unique hother rfl hq hframe

theorem ends_fork_copyPages :
    Ends (fork s t) m Anyhow
      (fun _ next => ∃ last, copyPages s t (m.process s).pages.keys m = .ok () last ∧
        next.page? = last.page?)
      fun _ _ => True := by
  have hself : Ends (copyPages s t (m.process s).pages.keys) m Anyhow
      (fun _ last => copyPages s t (m.process s).pages.keys m = .ok () last) fun _ _ => True := by
    unfold Ends
    rcases copyPages s t (m.process s).pages.keys m with ⟨_, last⟩ | ⟨stop, last⟩
    · rfl
    · cases stop <;> trivial
  unfold fork
  rw [ends_bind, ends_get, ends_bind, ends_require]
  split
  · rw [ends_bind]
    refine hself.mono ?_ fun _ _ _ => trivial
    intro _ last hlast
    rw [ends_bind, ends_modify, ends_report]
    refine ⟨last, hlast, ?_⟩
    funext q va
    exact page?_modifyMappings last t q
      (fun mappings => mergeMappings mappings (last.process s).mappings.entries) va
  · trivial

/-- Each page that is copied has its turn. If it is a page of a file, the copy comes out of it with
the bytes and the dirty bit of the page, or without a frame, and then it stays without one. -/
theorem Sound.turns_of_copied {before after : List Vaddr} {last : Machine}
    (k : m.Sound {} mem)
    (hregistered : ∀ wa ∈ before ++ va :: after, (m.page? s wa).isSome = true)
    (hdistinct : (before ++ va :: after).Nodup)
    (hcopied : copyPages s t (before ++ va :: after) m = .ok () last) :
    ∃ prior later, copyPages s t before m = .ok () prior ∧
      copyPages s t [va] prior = .ok () later ∧ copyPages s t after later = .ok () last ∧
      ∃ page, prior.page? s va = some page ∧ ∀ x, page.state = .file x →
        ∃ copy, prior.Turned later s t va page copy ∧
          (page.frame = none → last.page? t va = some copy) := by
  rw [copyPages_append, bind_eq_ok_iff] at hcopied
  rcases hcopied with ⟨_, prior, hprior, hrest⟩
  rw [← List.singleton_append, copyPages_append, bind_eq_ok_iff] at hrest
  rcases hrest with ⟨_, later, hlater, hlast⟩
  have hbefore : Ends (copyPages s t before) m Anyhow _ _ :=
    ends_copyPages k (fun wa hwa => hregistered wa (List.mem_append_left _ hwa)) trivial
  rcases hbefore.of_ok hprior with ⟨halike, -, kprior⟩
  have hstill : ∀ wa ∈ va :: after, (prior.page? s wa).isSome = true := fun wa hwa =>
    halike.isSome_of_isSome (hregistered wa (List.mem_append_right _ hwa))
  have hone : ∀ wa ∈ [va], (prior.page? s wa).isSome = true := by
    intro wa hwa
    rw [List.mem_singleton.mp hwa]
    exact hstill va List.mem_cons_self
  have hturn : Ends (copyPages s t [va]) prior Anyhow _ _ :=
    (ends_copyPages kprior hone trivial).and (steps_copyPages kprior hone)
  rcases hturn.of_ok hlater with ⟨⟨halike', -, klater⟩, hturns⟩
  have hremaining : Ends (copyPages s t after) later Anyhow _ _ :=
    steps_copyPages klater fun wa hwa =>
      halike'.isSome_of_isSome (hstill wa (List.mem_cons_of_mem va hwa))
  have hlast' := hremaining.of_ok hlast
  rcases Option.isSome_iff_exists.mp (hstill va List.mem_cons_self) with ⟨page, hpage⟩
  refine ⟨prior, later, hprior, hlater, hlast, page, hpage, ?_⟩
  intro x hfile
  rcases klater.turned hturns hpage hfile with ⟨copy, hturned⟩
  refine ⟨copy, hturned, ?_⟩
  intro hframe
  have hnew : va ∉ after := (List.nodup_cons.mp (List.nodup_append.mp hdistinct).2.1).1
  have hsight : later.scene.sight t va = ⟨some copy, later.entryAt t va, none⟩ :=
    sight_of_frameless hturned.copied (hturned.idle hframe)
  have hfares : (later.scene.sight t va).Fares (last.scene.sight t va) :=
    hlast'.fares fun hin => hnew hin.2
  exact (congrArg Sight.page (hfares.eq_of_idle (congrArg Sight.content hsight))).trans
    hturned.copied

theorem Sound.turns_of_copyPages {before after : List Vaddr} {last : Machine}
    (k : m.Sound {} mem) (hkeys : (m.process s).pages.keys = before ++ va :: after)
    (hcopied : copyPages s t (m.process s).pages.keys m = .ok () last) :
    ∃ prior later, copyPages s t before m = .ok () prior ∧
      copyPages s t [va] prior = .ok () later ∧ copyPages s t after later = .ok () last ∧
      ∃ page, prior.page? s va = some page ∧ ∀ x, page.state = .file x →
        ∃ copy, prior.Turned later s t va page copy ∧
          (page.frame = none → last.page? t va = some copy) := by
  have hregistered : ∀ wa ∈ (m.process s).pages.keys, (m.page? s wa).isSome = true :=
    fun _ => mem_keys_iff_isSome.mp
  have hdistinct := (m.process s).pages.keys_nodup
  rw [hkeys] at hregistered hdistinct hcopied
  exact k.turns_of_copied hregistered hdistinct hcopied

/-! ## Pages before and after -/

theorem Sound.matches_of_fares (k : m.Sound {} mem) (knext : next.Sound {} mem')
    (hfares : (m.scene.sight p va).Fares (next.scene.sight p va))
    (hpage : m.page? p va = some page) (hlayout : next.layout = m.layout)
    (himage : mem'.image p va m.layout.pageBytes = mem.image p va m.layout.pageBytes) :
    ∃ later, next.page? p va = some later ∧ later.id = page.id ∧
      (page.Backed → m.Matches next page later) ∧ (page.frame = none → later = page) := by
  have hstart : m.scene.sight p va = ⟨some page, m.entryAt p va, page.frame.map m.pool.content⟩ :=
    sight_of_page? hpage
  have hstart' : (m.scene.sight p va).page = some page := congrArg Sight.page hstart
  rcases hfares.exists_page hstart' with ⟨state, frame, hlater, hsame⟩
  have hlater' : next.page? p va = some { page with state := state, frame := frame } := hlater
  have hcopied : state.copied = page.state.copied := by
    rcases hsame with ⟨rfl, -⟩ | ⟨hevicted, -⟩
    · rfl
    · exact hevicted.copied_eq
  have houtline : ({ page with state := state, frame := frame } : Page).outline =
      { page.outline with id := page.id, mmu := page.mmu } := by
    unfold Page.outline
    dsimp only
    rw [hcopied]
  refine ⟨_, hlater', rfl, ?_, ?_⟩
  · intro hbacked
    refine k.matches_of_outline knext hpage hlater' houtline hbacked ?_ hlayout himage
    refine hfares.backed ?_ _ hlater
    intro other hother
    cases hstart'.symm.trans hother
    exact hbacked
  · intro hidle
    have hstill := hfares.eq_of_idle (by rw [hstart, hidle]; rfl)
    rw [hstill, hstart'] at hlater
    exact (Option.some.inj hlater).symm

theorem Sound.matches_of_copy {copy : Page} (k : m.Sound {} mem) (knext : next.Sound {} mem')
    (hcopied : Copied s t m next) (hpage : m.page? s va = some page) (hbacked : page.Backed)
    (hfree : m.page? t va = none) (hcopy : next.page? t va = some copy)
    (hbackedCopy : copy.Backed)
    (himage : mem'.image t va m.layout.pageBytes = mem.image s va m.layout.pageBytes) :
    m.Matches next page copy := by
  rcases hcopied.copies va copy hfree hcopy with ⟨old, hold, houtline⟩
  cases hpage.symm.trans hold
  exact k.matches_of_outline knext hpage hcopy houtline hbacked hbackedCopy hcopied.alike.layout
    himage

theorem Sound.image_of_chosen {chosen : Vaddr → Bool} (k : m.Sound {} mem)
    (hpage : m.page? s va = some page) (hchosen : ∀ a, m.pageBase a = va → chosen a = true) :
    (mem.copy s t chosen).image t va m.layout.pageBytes = mem.image s va m.layout.pageBytes := by
  have haligned := (k.placed s va page hpage).aligned
  exact FlatMemory.image_copy fun i hi =>
    hchosen _ (Word.alignDown_add_ofNat k.powerOfTwo haligned hi)

/-- What a fork that is served does to the pages of the source and of the target. -/
theorem Sound.matches_of_fork (k : m.Sound {} mem)
    (knext : next.Sound {} (mem.copy s t fun a => (m.lookup s a).isSome))
    (hcopied : Copied s t m next) (hfree : ∀ va, (m.page? s va).isSome = true → m.page? t va = none)
    {v : Scene} (hturns : Scene.Turns s t m.scene (m.process s).pages.keys v)
    (hsight : next.scene.sight = v.sight) (hbacked : m.scene.Backed s)
    (hpage : m.page? s va = some page) :
    ∃ source copy, next.page? s va = some source ∧ next.page? t va = some copy ∧
      m.Matches next page source ∧ m.Matches next page copy ∧
      source.id = page.id ∧ (page.slot.isSome = true → source = page) := by
  have hsome : (m.page? s va).isSome = true := by
    rw [hpage]
    rfl
  have hnone := hfree va hsome
  have hne : s ≠ t := by
    rintro rfl
    rw [hpage] at hnone
    contradiction
  -- The page of the source may have been evicted.
  have hfares : (m.scene.sight s va).Fares (next.scene.sight s va) := by
    rw [hsight]
    exact hturns.fares fun hin => hne hin.1
  have hbackedPage := hbacked va page hpage
  rcases k.matches_of_fares knext hfares hpage hcopied.alike.layout
    (FlatMemory.image_copy_of_ne hne) with ⟨source, hsource, hid, hmatches, hidle⟩
  -- The copy came out of its turn with a frame if the page had one or a slot.
  rcases hturns.exists_copy (m.process s).pages.keys_nodup (mem_keys_iff_isSome.mpr hsome) with
    ⟨copy, hcopy, hbackedCopy⟩
  have hcopy' : next.page? t va = some copy := by
    rw [← hcopy, ← hsight]
    rfl
  refine ⟨source, copy, hsource, hcopy', hmatches hbackedPage, ?_, hid, ?_⟩
  · refine k.matches_of_copy knext hcopied hpage hbackedPage hnone hcopy'
      (hbackedCopy (hbacked va)) (k.image_of_chosen hpage ?_)
    intro a ha
    rw [lookup, ha]
    exact hsome
  · intro hslot
    refine hidle ?_
    cases hframe : page.frame with
    | none => rfl
    | some f =>
        rw [k.slot_of_frame hpage hframe] at hslot
        contradiction

theorem Copied.isSome_page? (h : Copied s t m next)
    (hcopy : ∀ va page, m.page? s va = some page → ∃ copy, next.page? t va = some copy)
    (q : Nat) (va : Vaddr) : (next.page? q va).isSome =
      ((m.page? q va).isSome || decide (q = t) && (m.page? s va).isSome) := by
  by_cases hnew : q = t ∧ m.page? t va = none
  · rcases hnew with ⟨rfl, hnone⟩
    rw [hnone, decide_eq_true rfl, Bool.true_and, Option.isSome_none, Bool.false_or]
    cases hpage : m.page? s va with
    | some page =>
        rcases hcopy va page hpage with ⟨copy, hcopy⟩
        rw [hcopy]
        rfl
    | none =>
        cases hcopy : next.page? q va with
        | none => rfl
        | some copy =>
            rcases h.copies va copy hnone hcopy with ⟨page, hpage', -⟩
            rw [hpage] at hpage'
            contradiction
  · rw [h.alike.isSome_page? hnew]
    cases hpage : m.page? q va with
    | some page => rfl
    | none =>
        by_cases hq : q = t
        · subst hq
          exact absurd ⟨rfl, hpage⟩ hnew
        · rw [decide_eq_false hq]
          rfl

/-- A fork that is served gives the target a copy of every page of the source, of the same kind and
with the same bytes, and nothing else. It loads nothing, and it leaves the source what it has. A
page of a file is copied as it is at its turn, with its bytes and its dirty bit if it has a frame
then. -/
theorem fork_faithful {config : Config} {hardware : Hardware} {start : Machine}
    {ops : List Operation} {reply : Reply} (hboot : boot config hardware = .ok start)
    (hrun : start.run ops = some m) (hvoid : (Ledger.blank.along start ops).void s = false)
    (hfork : (Operation.fork s t).perform m = .ok reply next) :
    (∀ va, (m.page? s va).isSome = true → m.page? t va = none) ∧
      (∀ q va, (next.page? q va).isSome =
        ((m.page? q va).isSome || decide (q = t) && (m.page? s va).isSome)) ∧
      (∀ va page, m.page? s va = some page → ∃ source copy,
        next.page? s va = some source ∧ next.page? t va = some copy ∧
        m.Matches next page source ∧ m.Matches next page copy ∧
        source.id = page.id ∧ (page.slot.isSome = true → source = page)) ∧
      (next.process s).mappings = (m.process s).mappings ∧
      next.loaderRuns = m.loaderRuns ∧
      next.files.map BackingFile.reading = m.files.map BackingFile.reading ∧
      ∀ before va after, (m.process s).pages.keys = before ++ va :: after →
        ∃ prior later last, copyPages s t before m = .ok () prior ∧
          copyPages s t [va] prior = .ok () later ∧ copyPages s t after later = .ok () last ∧
          ∃ page, prior.page? s va = some page ∧ ∀ x, page.state = .file x →
            ∃ copy, prior.Turned later s t va page copy ∧
              (page.frame = none → next.page? t va = some copy) := by
  have hblank : ∀ p, Ledger.blank.void p = false → start.scene.Backed p := by
    intro p _ va page hpage
    rw [show (start.scene.sight p va).page = start.page? p va from rfl,
      page?_of_boot hboot] at hpage
    contradiction
  rcases (boot_sound (fun _ _ => 0) hboot).backed_along hblank hrun with ⟨⟨mem, k⟩, hbacked⟩
  have hserved : fork s t m = .ok () next := by
    rcases bind_eq_ok_iff.mp hfork with ⟨_, served, hserved, hlast⟩
    cases hlast
    exact hserved
  have hends : Ends (fork s t) m Anyhow _ _ :=
    ((ends_fork k trivial).and (steps_fork k)).and
      (ends_fork_copyPages.and (quiet_fork s t m))
  rcases hends.of_ok hserved with
    ⟨⟨⟨hcopied, hfree, knext⟩, v, hturns, hscene⟩, ⟨last, hlast, hpages⟩, hquiet⟩
  have hsight : next.scene.sight = v.sight := by
    rw [hscene]
    rfl
  have hmatches := fun va page (hpage : m.page? s va = some page) =>
    k.matches_of_fork knext hcopied hfree hturns hsight (hbacked s hvoid) hpage
  refine ⟨hfree, ?_, hmatches, ?_, hquiet.runs, hquiet.reading, ?_⟩
  · refine hcopied.isSome_page? fun va page hpage => ?_
    rcases hmatches va page hpage with ⟨source, copy, -, hcopy, -⟩
    exact ⟨copy, hcopy⟩
  · show next.scene.mappings s = m.scene.mappings s
    rw [hscene]
    by_cases hs : s = t
    · subst hs
      rw [Scene.mappings_grouped_self]
      apply AddressMap.ext_get?
      intro b
      rw [get?_mergeMappings]
      exact Option.or_self
    · rw [Scene.mappings_grouped_of_ne hs, hturns.steps.mappings_eq_of_copying]
  · intro before va after hkeys
    rcases k.turns_of_copyPages hkeys hlast with
      ⟨prior, later, hprior, hlater, hafter, page, hpage, hturned⟩
    refine ⟨prior, later, last, hprior, hlater, hafter, page, hpage, ?_⟩
    intro x hfile
    rw [hpages]
    exact hturned x hfile

def crowdedProcess : List Operation :=
  [.start (.always true), .start (.always true), .map 0 0x1000 16 true 0 0, .claim 0 0x1000,
    .write 0 0x1000 [7], .allocate 0 .anon 0x2000 true none, .claim 0 0x2000,
    .write 0 0x2000 [9]]

/-- The anonymous page is evicted while the other one is copied, and the first copy is evicted while
the anonymous page is copied from its slot. -/
theorem fork_of_crowded_process : ∃ (start m next : Machine) (page copy : Page) (bytes : Bytes),
    boot smallConfig (smallHardware (some (.blank 8 8)) [.patterned 32]) = .ok start ∧
    start.run crowdedProcess = some m ∧
    (∃ reply, (Operation.fork 0 1).perform m = .ok reply next) ∧
    m.ring.evictions = 0 ∧ next.ring.evictions = 2 ∧
    m.page? 0 0x2000 = some page ∧ next.page? 1 0x2000 = some copy ∧
    m.anonBytes page = some bytes ∧ next.anonBytes copy = some bytes ∧ bytes.take 2 = [9, 0] := by
  rcases exists_run smallConfig (smallHardware (some (.blank 8 8)) [.patterned 32]) crowdedProcess
    (fun start m => !(Ledger.blank.along start crowdedProcess).void 0 &&
      decide (m.ring.evictions = 0) &&
      ((m.page? 0 0x2000).any fun page => decide (page.stateClass = .anon) &&
        decide ((m.anonBytes page).map (List.take 2) = some [9, 0])) &&
      match (Operation.fork 0 1).perform m with
      | .ok _ next => decide (next.ring.evictions = 2)
      | _ => false) (by decide +kernel) with ⟨start, m, hboot, hrun, hcheck⟩
  simp only [Bool.and_eq_true, Bool.not_eq_true', decide_eq_true_eq] at hcheck
  rcases hcheck with ⟨⟨⟨hvoid, hbefore⟩, hpage⟩, hserved⟩
  split at hserved
  · rename_i reply next hfork
    rcases (Option.any_eq_true ..).mp hpage with ⟨page, hpage, hkind⟩
    rw [Bool.and_eq_true, decide_eq_true_eq, decide_eq_true_eq] at hkind
    rcases (fork_faithful hboot hrun hvoid hfork).2.2.1 0x2000 page hpage with
      ⟨source, copy, -, hcopy, -, hmatches, -⟩
    rcases PageState.exists_anon_of_ownClass hkind.1 with ⟨slot, hanon⟩
    rcases (hmatches.anon slot hanon).2 with ⟨bytes, hbytes, hbytes'⟩
    have htake := hkind.2
    rw [hbytes] at htake
    exact ⟨start, m, next, page, copy, bytes, hboot, hrun, ⟨reply, hfork⟩, hbefore,
      of_decide_eq_true hserved, hpage, hcopy, hbytes, hbytes', Option.some.inj htake⟩
  · contradiction

end Machine
end DemandPaging
