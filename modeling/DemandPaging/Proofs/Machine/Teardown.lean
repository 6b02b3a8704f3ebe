import DemandPaging.Proofs.Machine.Closing
import DemandPaging.Proofs.Machine.Conservation
import DemandPaging.Proofs.Machine.MappingGroups
import DemandPaging.Proofs.Scene.Provenance

/-!
# Teardown

What the teardown of a page table leaves: nothing of the process, its frames and slots free, its
changes sent to their files, and everything else as it was. Pages are released one after another,
so this is shown of the release of one page and carried along the list of them.
-/

namespace DemandPaging

def Operation.TearsDown (op : Operation) (p : Nat) : Prop :=
  op = .teardown p ∨ op = .finish p

/-! ## Requests to files -/

def Event.request? : Event → Option FileWrite
  | .wroteBack write => some { write with accepted := none }
  | _ => none

def requests (events : List Event) : List FileWrite :=
  (events.filterMap Event.request?).reverse

theorem requests_append (later earlier : List Event) :
    requests (later ++ earlier) = requests earlier ++ requests later := by
  rw [requests, List.filterMap_append, List.reverse_append]
  rfl

namespace Machine

open Routine

/-! ## What a release gives up -/

/-- A process gave up some frames, in the given order, and some slots, and lost mappings. Nothing
else changed but files, and the content of frames and slots did not. -/
structure Sheds (m : Machine) (p : Nat) (frames slots : List Nat) (n : Machine) : Prop where
  layout : n.layout = m.layout
  loaderRuns : n.loaderRuns = m.loaderRuns
  nextId : n.nextId = m.nextId
  count : n.processes.length = m.processes.length
  own : ∃ unit, n.process p = { m.process p with mmu := unit }
  others : ∀ q, q ≠ p → n.process q = m.process q
  pool : n.pool = { m.pool with free := frames.reverse ++ m.pool.free }
  ring : n.ring.entries = m.ring.entries.filter fun e => decide (e.frame ∉ frames)
  swap : n.swap = { m.swap with slots := n.swap.slots }
  used : ∀ s, n.swap.slots.isUsed s = (m.swap.slots.isUsed s && decide (s ∉ slots))

variable {l m n next : Machine} {mem : FlatMemory} {p : Nat} {page : Page}
  {pages : List Page} {frames slots frames' slots' : List Nat} {f s : Nat}

namespace Sheds

theorem refl (p : Nat) (m : Machine) : Sheds m p [] [] m where
  layout := rfl
  loaderRuns := rfl
  nextId := rfl
  count := rfl
  own := ⟨(m.process p).mmu, rfl⟩
  others := fun _ _ => rfl
  pool := rfl
  ring := (List.filter_eq_self.mpr fun _ _ => decide_eq_true List.not_mem_nil).symm
  swap := rfl
  used := fun _ => by rw [decide_eq_true List.not_mem_nil, Bool.and_true]

theorem trans (h : Sheds l p frames slots m) (h' : Sheds m p frames' slots' n) :
    Sheds l p (frames ++ frames') (slots ++ slots') n where
  layout := h'.layout.trans h.layout
  loaderRuns := h'.loaderRuns.trans h.loaderRuns
  nextId := h'.nextId.trans h.nextId
  count := h'.count.trans h.count
  own := by
    rcases h.own with ⟨unit, hunit⟩
    rcases h'.own with ⟨unit', hunit'⟩
    refine ⟨unit', ?_⟩
    rw [hunit', hunit]
  others := fun q hq => (h'.others q hq).trans (h.others q hq)
  pool := by
    rw [h'.pool, h.pool, List.reverse_append, List.append_assoc]
  ring := by
    rw [h'.ring, h.ring, List.filter_filter]
    apply List.filter_congr
    intro e _
    rw [← Bool.decide_and, decide_eq_decide, List.mem_append, not_or]
    exact And.comm
  swap := by
    rw [h'.swap, h.swap]
  used := by
    intro s
    rw [h'.used, h.used, Bool.and_assoc, ← Bool.decide_and]
    congr 1
    rw [decide_eq_decide, List.mem_append, not_or]

theorem entries_eq (h : Sheds m p [] slots n) : n.ring.entries = m.ring.entries :=
  h.ring.trans (List.filter_eq_self.mpr fun _ _ => decide_eq_true List.not_mem_nil)

theorem unmapped (m : Machine) (p : Nat) (va : Vaddr) : Sheds m p [] [] (m.unmapped p va) := by
  by_cases hp : p < m.processes.length
  · exact
      { refl p m with
        count := length_modifyProcess m p _
        own := ⟨((m.process p).mmu.unmap va).2,
          (process_modifyProcess m p p _ hp).trans (if_pos rfl)⟩
        others := fun q hq => (process_modifyProcess m p q _ hp).trans (if_neg hq) }
  · rw [Machine.unmapped, modifyMmu, modifyProcess_absent (Nat.le_of_not_lt hp)]
    exact refl p m

theorem aside (p : Nat) (m : Machine) (files : List BackingFile) (held : List Lock)
    (trace : List Event) :
    Sheds m p [] [] { m with files := files, held := held, trace := trace } :=
  { refl p m with }

theorem freeSlot (p : Nat) {slots : Swap.Bitmap} (held : List Lock) (trace : List Event)
    (hused : ∀ t, slots.isUsed t = (!decide (t = s) && m.swap.slots.isUsed t)) :
    Sheds m p [] [s]
      { m with swap := { m.swap with slots := slots }, held := held, trace := trace } :=
  { refl p m with
    swap := rfl
    used := by
      intro t
      show slots.isUsed t = _
      rw [hused, Bool.and_comm, ← decide_not]
      congr 1
      rw [decide_eq_decide, List.mem_singleton] }

theorem freeFrame (p : Nat) {place : Nat} {e : RingEntry} (held : List Lock)
    (trace : List Event) (hnodup : m.ring.frames.Nodup)
    (hplace : m.ring.entries[place]? = some e) :
    Sheds m p [e.frame] []
      { m with
        ring := m.ring.removeAt place
        pool := { m.pool with free := e.frame :: m.pool.free }
        held := held
        trace := trace } :=
  { refl p m with
    pool := rfl
    ring := by
      show (m.ring.removeAt place).entries = _
      rw [FrameRing.entries_removeAt hnodup hplace]
      apply List.filter_congr
      intro d _
      rw [Bool.eq_iff_iff, bne_iff_ne, decide_eq_true_iff, List.mem_singleton] }

end Sheds

/-! ## The release of a page -/

theorem sheds_saveChanges {x : FileExtent} :
    Ends (saveChanges p page x f) m Anyhow (fun _ next => m.Sheds p [] [] next)
      fun _ _ => True := by
  have hwritten : ∀ (owner : Owner) (bytes : Bytes),
      Ends (writeBack owner x bytes) m Anyhow (fun _ next => m.Sheds p [] [] next)
        fun _ next => ∃ files trace,
          next = { m with files := files, trace := trace } := by
    intro owner bytes
    unfold writeBack writeFile
    dsimp only
    split
    · exact .refl p m
    · simp only [ends_bind, ends_ensure, ends_get, ends_setFile, ends_record, ends_pure]
      split
      · cases ((m.file x.file).write x.offset.toNat (bytes.take x.readBytes.toNat)).1 with
        | none => exact ⟨_, _, rfl⟩
        | some count =>
            rw [ends_orFail_some]
            split
            · exact .aside p m _ _ _
            · exact ⟨_, _, rfl⟩
      · trivial
  unfold saveChanges
  simp only [ends_bind, ends_readFrame, ends_attempt]
  refine (hwritten _ _).mono (fun _ _ h => h) ?_
  intro e next hnext
  rcases hnext with ⟨files, trace, rfl⟩
  exact .aside p m files m.held _

theorem sheds_releaseBacking {dirty : Bool} (hlock : Lock.swap ∉ m.held)
    (hform : m.swap.slots.WellFormed)
    (hused : ∀ s, page.slot = some s → m.swap.slots.isUsed s = true) :
    Ends (releaseBacking p page dirty) m Anyhow
      (fun _ next => m.Sheds p [] page.slot.toList next) fun _ _ => True := by
  unfold releaseBacking
  split
  · rename_i s hstate
    have hslot : page.slot = some s := by
      rw [Page.slot, hstate]
      rfl
    rw [hslot]
    refine (ends_releaseSlot hlock hform (hused s hslot)).mono ?_ fun _ _ _ => trivial
    intro _ next hnext
    rcases hnext with ⟨slots, -, -, hslots, rfl⟩
    exact .freeSlot p _ _ hslots
  · rename_i x f hstate hframe
    have hslot : page.slot = none := by
      rw [Page.slot, hstate]
      rfl
    rw [hslot, ends_when]
    split
    · exact sheds_saveChanges
    · exact .refl p m
  · rename_i hanon hfile
    have hslot : page.slot = none := by
      unfold Page.slot
      cases hstate : page.state with
      | uninit | file => rfl
      | anon slot =>
          cases slot with
          | none => rfl
          | some s => exact (hanon s hstate).elim
    rw [hslot]
    exact .refl p m

theorem sheds_freeFrame (hnodup : m.ring.frames.Nodup) (hlisted : f ∈ m.ring.frames) :
    Ends (freeFrame f) m Anyhow (fun _ next => m.Sheds p [f] [] next) fun _ _ => True := by
  unfold freeFrame
  rw [ends_bind]
  refine (?_ : Ends (withLock .ring (unlistFrame f)) m Anyhow (fun _ next =>
    ∃ place e trace, m.ring.entries[place]? = some e ∧ e.frame = f ∧
      next = { m with
        ring := m.ring.removeAt place, held := next.held, trace := trace }) fun _ _ => True).mono
    ?_ fun _ _ _ => trivial
  · apply ends_withLock_of
    unfold unlistFrame
    rw [ends_bind, ends_get]
    cases hplace : (m.locked .ring).ring.position? f with
    | none => exact absurd hlisted (FrameRing.position?_eq_none_iff.mp hplace)
    | some place =>
        rcases FrameRing.entry_of_position? hplace with ⟨e, he, hef⟩
        exact ⟨place, e, _, he, hef, rfl⟩
  · intro _ unlisted hunlisted
    rcases hunlisted with ⟨place, e, trace, hplace, rfl, hunlisted⟩
    unfold returnToPool FramePool.giveBack
    rw [ends_bind, ends_get, ends_bind]
    split
    · trivial
    · rw [ends_ofAbort_ok, ends_modify, hunlisted]
      exact .freeFrame p _ _ hnodup hplace

theorem sheds_releasePage (hlock : Lock.swap ∉ m.held) (hform : m.swap.slots.WellFormed)
    (hused : ∀ s, page.slot = some s → m.swap.slots.isUsed s = true)
    (hnodup : m.ring.frames.Nodup) (hlisted : ∀ f, page.frame = some f → f ∈ m.ring.frames) :
    Ends (releasePage p page) m Anyhow
      (fun _ next => m.Sheds p page.frame.toList page.slot.toList next) fun _ _ => True := by
  have hunmapped : Ends (unmapResident p page) (m.locked (.page p page.va)) Anyhow
      (fun _ next => m.Sheds p [] [] next ∧ next.swap = m.swap ∧
        next.held = .page p page.va :: m.held) fun _ _ => True := by
    unfold unmapResident
    split
    · exact ⟨{ Sheds.unmapped (m.locked (.page p page.va)) p page.va with }, rfl, rfl⟩
    · exact ⟨.aside p m _ _ _, rfl, rfl⟩
  unfold releasePage
  apply ends_withLock_of
  rw [ends_bind]
  refine hunmapped.mono ?_ fun _ _ _ => trivial
  intro dirty unmapped hnext
  rcases hnext with ⟨hunmapped, hswap, hheld⟩
  rw [ends_bind]
  refine (sheds_releaseBacking ?_ (hswap ▸ hform) (hswap ▸ hused)).mono ?_ fun _ _ _ => trivial
  · rw [hheld]
    simpa using hlock
  · intro _ saved hsaved
    have hsaved : m.Sheds p [] page.slot.toList saved := hunmapped.trans hsaved
    cases hframe : page.frame with
    | none => exact { hsaved with }
    | some f =>
        have hframes : saved.ring.frames = m.ring.frames :=
          congrArg (List.map RingEntry.frame) hsaved.entries_eq
        rw [ends_bind, ends_readFrame, ends_bind, ends_record]
        refine (sheds_freeFrame (p := p) ?_ ?_).mono ?_ fun _ _ _ => trivial
        · exact hframes ▸ hnodup
        · exact hframes ▸ hlisted f hframe
        · intro _ next hnext
          have hnext : saved.Sheds p [f] [] next := { hnext with }
          have hboth := hsaved.trans hnext
          rw [List.append_nil] at hboth
          exact { hboth with }

/-! ## What a release sends -/

/-- What the file of a page is asked to write when the page is given up: the content of a dirty
resident page, if any of its bytes belong to the file. -/
def request? (m : Machine) (p : Nat) (page : Page) : Option FileWrite :=
  match page.state, page.frame with
  | .file x, some f =>
      if x.readBytes ≠ 0 ∧ (m.process p).mmu.isDirty page.va = true then
        some ⟨ownerOf p page, x.file, x.offset, (m.pool.content f).take x.readBytes.toNat, none⟩
      else none
  | _, _ => none

/-- Files were asked for the given writes in the given order, and changed by these alone. -/
def Sends (m : Machine) (asked : List FileWrite) (n : Machine) : Prop :=
  ∃ recent, n.movements = recent ++ m.movements ∧
    n.files.map BackingFile.unread = replay (m.files.map BackingFile.unread) recent ∧
    requests recent = asked

variable {asked asked' : List FileWrite} {va : Vaddr}

namespace Sends

theorem of_scene (h : n.scene = m.scene) : m.Sends [] n :=
  ⟨[], congrArg Scene.movements h, congrArg Scene.files h, rfl⟩

theorem trans (h : Sends l asked m) (h' : Sends m asked' n) : Sends l (asked ++ asked') n := by
  rcases h with ⟨first, hmovements, hfiles, hasked⟩
  rcases h' with ⟨second, hmovements', hfiles', hasked'⟩
  refine ⟨second ++ first, ?_, ?_, ?_⟩
  · rw [hmovements', hmovements, List.append_assoc]
  · rw [hfiles', hfiles, replay_append]
  · rw [requests_append, hasked, hasked']

theorem of_released (h : n.scene = m.scene.released p page (m.entryAt p page.va)
    (page.frame.map m.pool.content)) : m.Sends (m.request? p page).toList n := by
  have hmovements : n.movements = _ := congrArg Scene.movements h
  have hfiles : n.files.map BackingFile.unread = _ := congrArg Scene.files h
  cases hframe : page.frame with
  | none =>
      have hnone : m.request? p page = none := by
        unfold request?
        rw [hframe]
        cases page.state <;> rfl
      rw [hframe] at hmovements hfiles
      rw [hnone]
      exact ⟨[], hmovements, hfiles, rfl⟩
  | some f =>
      rw [hframe] at hmovements hfiles
      have hdirty : (m.process p).mmu.isDirty page.va =
          (m.entryAt p page.va).any PageEntry.dirty := Mmu.isDirty_eq_entry? _ _
      dsimp only [Option.map_some, Scene.released] at hmovements hfiles
      unfold request?
      rw [hframe]
      rcases m.scene.settled_cases ⟨p, page.va, page.id⟩ page.state (m.entryAt p page.va)
        (m.pool.content f) with ⟨x, hstate, hsome, hset, hsettled⟩ | ⟨hclean, hsettled⟩
      · rw [hsettled] at hmovements hfiles
        refine ⟨[_, _], hmovements, hfiles, ?_⟩
        rw [hstate]
        dsimp only
        rw [if_pos ⟨hsome, hdirty.trans hset⟩]
        rfl
      · rw [hsettled] at hmovements hfiles
        refine ⟨[_], hmovements, hfiles, ?_⟩
        cases hstate : page.state with
        | uninit | anon => rfl
        | file x =>
            dsimp only
            rw [if_neg fun hunsaved => hclean x hstate hunsaved.1 (hdirty.symm.trans hunsaved.2)]
            rfl

end Sends

theorem request?_of_released {other : Page} (h : n.scene = m.scene.released p page
    (m.entryAt p page.va) (page.frame.map m.pool.content))
    (hframes : n.pool.frames = m.pool.frames) (hne : other.va ≠ page.va) :
    n.request? p other = m.request? p other ∧ n.entryAt p other.va = m.entryAt p other.va := by
  have hsight : n.scene.sight p other.va = m.scene.sight p other.va := by
    rw [h]
    exact Scene.released_sight_of_ne fun hat => hne hat.2
  have hentry : n.entryAt p other.va = m.entryAt p other.va := congrArg Sight.entry hsight
  have hcontent : n.pool.content = m.pool.content := by
    funext f
    unfold FramePool.content
    rw [hframes]
  have hdirty : (n.process p).mmu.isDirty other.va = (m.process p).mmu.isDirty other.va := by
    rw [Mmu.isDirty_eq_entry?, Mmu.isDirty_eq_entry?]
    exact congrArg (fun entry => entry.any PageEntry.dirty) hentry
  refine ⟨?_, hentry⟩
  unfold request?
  rw [hcontent, hdirty]

/-! ## The release of all pages -/

theorem Sound.sheds_releasePage {h : InHand} (k : m.Sound (h.taking p page) mem)
    (hswap : Lock.swap ∉ h.locks) : Ends (releasePage p page) m Anyhow
      (fun _ next => m.Sheds p page.frame.toList page.slot.toList next) fun _ _ => True := by
  refine Machine.sheds_releasePage ?_ k.swap.slots ?_ k.frames.entries_nodup ?_
  · exact k.not_held hswap
  · intro s hslot
    refine k.slots.used_of_mem ?_
    show s ∈ page.slot.toList ++ h.slots
    rw [hslot]
    exact List.mem_cons_self
  · intro f hframe
    refine k.frames.strayListed f ?_
    show f ∈ page.frame.toList ++ h.stray
    rw [hframe]
    exact List.mem_cons_self

theorem Sound.sheds_releasePages (k : m.Sound (InHand.takingAll {} p pages) mem)
    (hp : p < m.processes.length) (hgone : ∀ page ∈ pages, m.page? p page.va = none)
    (hplaced : ∀ page ∈ pages, page.Placed m.layout [] p page.va)
    (hidle : ∀ page ∈ pages, page.frame = none → m.entryAt p page.va = none)
    (hapart : (pages.map Page.va).Nodup) :
    Ends (releasePages p pages) m Anyhow
      (fun _ next => m.Sheds p (pages.filterMap Page.frame) (pages.filterMap Page.slot) next ∧
        m.Sends (pages.filterMap (m.request? p)) next)
      fun _ _ => False := by
  induction pages generalizing m with
  | nil => exact ⟨.refl p m, .of_scene rfl⟩
  | cons page rest ih =>
      have hnolock := InHand.not_mem_locks_takingAll p rest
      have hplaced' : page.Placed m.layout (InHand.takingAll {} p rest).filling p page.va :=
        (hplaced page List.mem_cons_self).takingAll rest
      have hgone' := hgone page List.mem_cons_self
      have hreleased := steps_releasePage hp (fun f => Sound.bytes_taken k hplaced') hgone'
        (hidle page List.mem_cons_self)
      rw [List.map_cons, List.nodup_cons] at hapart
      unfold releasePages
      rw [ends_bind]
      refine ((ends_releasePage k hp hgone' hplaced' (hnolock _) (hnolock _) (hnolock _)).and
        ((Sound.sheds_releasePage k (hnolock _)).and hreleased)).mono ?_
        fun _ _ hfalse => hfalse.1
      intro _ next hnext
      rcases hnext with ⟨⟨hundisturbed, hpages, knext⟩, hsheds, hframes, hscene⟩
      have hothers : ∀ other ∈ rest, next.request? p other = m.request? p other ∧
          next.entryAt p other.va = m.entryAt p other.va := by
        intro other hother
        refine request?_of_released hscene hframes ?_
        intro heq
        exact hapart.1 (heq ▸ List.mem_map_of_mem hother)
      refine (ih knext ?_ ?_ ?_ ?_ hapart.2).mono ?_ fun _ _ hfalse => hfalse
      · rw [hundisturbed.count]
        exact hp
      · intro other hother
        rw [hpages]
        exact hgone other (List.mem_cons_of_mem page hother)
      · intro other hother
        rw [hundisturbed.layout]
        exact hplaced other (List.mem_cons_of_mem page hother)
      · intro other hother hnone
        rw [(hothers other hother).2]
        exact hidle other (List.mem_cons_of_mem page hother) hnone
      · intro _ last hlast
        rcases hlast with ⟨hrest, hsent⟩
        have hlist : ∀ {α : Type} (read : Page → Option α),
            (page :: rest).filterMap read = (read page).toList ++ rest.filterMap read := by
          intro α read
          rw [List.filterMap_cons]
          cases read page <;> rfl
        rw [hlist, hlist, hlist, ← List.filterMap_congr fun other hother =>
          (hothers other hother).1]
        exact ⟨hsheds.trans hrest, (Sends.of_released hscene).trans hsent⟩

/-! ## Teardown -/

/-- The page table of a process is torn down, and only that: nothing is left of it, what its pages
held is free, and their changes were sent to their files. -/
structure Dissolves (m : Machine) (p : Nat) (next : Machine) : Prop where
  pages : (next.process p).pages = .empty
  mappings : (next.process p).mappings = .empty
  entries : (next.process p).mmu.entries = .empty
  tornDown : (next.process p).tornDown = true
  /-- The frames of the pages are free again, and no frame has other bytes. -/
  pool : next.pool = { m.pool with
    free := ((m.process p).pages.values.filterMap Page.frame).reverse ++ m.pool.free }
  ring : next.ring.entries = m.ring.entries.filter fun e => e.owner.process != p
  /-- The slots of the pages are free again, and no slot has other bytes. -/
  swap : next.swap = { m.swap with slots := next.swap.slots }
  used : ∀ s, next.swap.slots.isUsed s = (m.swap.slots.isUsed s &&
    decide (s ∉ (m.process p).pages.values.filterMap Page.slot))
  sends : m.Sends ((m.process p).pages.values.filterMap (m.request? p)) next
  others : ∀ q, q ≠ p → next.process q = m.process q
  count : next.processes.length = m.processes.length
  layout : next.layout = m.layout
  loaderRuns : next.loaderRuns = m.loaderRuns
  nextId : next.nextId = m.nextId

/-- The pages of a process send their changes in the order of their addresses, each at most once. -/
theorem Sound.requests_ascending (k : m.Sound {} mem) (p : Nat) :
    ((m.process p).pages.values.filterMap (m.request? p)).Pairwise fun write later =>
      write.page.va < later.page.va := by
  have hascending : (m.process p).pages.values.Pairwise fun page later => page.va < later.va := by
    rw [← List.pairwise_map, k.values_registered.2]
    exact (m.process p).pages.keys_ascending
  have howner : ∀ {page : Page} {write : FileWrite}, m.request? p page = some write →
      write.page.va = page.va := by
    intro page write hwrite
    unfold request? at hwrite
    split at hwrite
    · split at hwrite
      · cases hwrite
        rfl
      · contradiction
    · contradiction
  refine hascending.filterMap _ ?_
  intro page later hlt write hwrite write' hwrite'
  rw [howner hwrite, howner hwrite']
  exact hlt

theorem Sound.mem_frames_iff (k : m.Sound {} mem) {e : RingEntry} (he : e ∈ m.ring.entries) :
    e.frame ∈ (m.process p).pages.values.filterMap Page.frame ↔ e.owner.process = p := by
  rcases (k.frames.owned e he).resolve_left List.not_mem_nil with ⟨owner, howner, -, hheld⟩
  rw [List.mem_filterMap]
  constructor
  · intro hat
    rcases hat with ⟨page, hpage, hframe⟩
    rcases AddressMap.mem_values_iff.mp hpage with ⟨va, hva⟩
    have hat : m.page? p va = some page := hva
    exact (k.frames.holder_unique hat hframe howner hheld).1
  · intro hp
    subst hp
    exact ⟨owner, AddressMap.mem_values_iff.mpr ⟨_, howner⟩, hheld⟩

theorem Sound.entries_empty (k : m.Sound {} mem) (hpages : ∀ va, m.page? p va = none) :
    (m.process p).mmu.entries = .empty := by
  apply AddressMap.ext_get?
  intro va
  cases hentry : (m.process p).mmu.entries.get? va with
  | none => rfl
  | some e =>
      rcases k.backed hentry with ⟨page, hpage, -⟩
      rw [hpages va] at hpage
      contradiction

theorem dissolves_of_sheds (k : m.Sound {} mem) (hp : p < m.processes.length)
    (hsheds : (m.modifyPages p fun _ => .empty).Sheds p
      ((m.process p).pages.values.filterMap Page.frame)
      ((m.process p).pages.values.filterMap Page.slot) n)
    (hsends : m.Sends ((m.process p).pages.values.filterMap (m.request? p)) n)
    (kn : n.Sound {} mem) :
    m.Dissolves p (n.modifyProcess p fun q => { q with mappings := .empty, tornDown := true }) := by
  have hpn : p < n.processes.length := by
    rw [hsheds.count, modifyPages, length_modifyProcess]
    exact hp
  have hown : ((n.modifyProcess p fun q =>
      { q with mappings := .empty, tornDown := true }).process p) =
      { n.process p with mappings := .empty, tornDown := true } :=
    (process_modifyProcess n p p _ hpn).trans (if_pos rfl)
  have hpages : (n.process p).pages = .empty := by
    rcases hsheds.own with ⟨unit, hunit⟩
    rw [hunit, modifyPages, process_modifyProcess m p p _ hp, if_pos rfl]
  constructor
  · rw [hown, hpages]
  · rw [hown]
  · rw [hown]
    refine kn.entries_empty fun va => ?_
    rw [page?, hpages]
    rfl
  · rw [hown]
  · exact hsheds.pool
  · refine hsheds.ring.trans (List.filter_congr ?_)
    intro e he
    rw [Bool.eq_iff_iff, decide_eq_true_iff, bne_iff_ne, k.mem_frames_iff he]
  · exact hsheds.swap
  · exact hsheds.used
  · exact hsends
  · intro q hq
    rw [process_modifyProcess n p q _ hpn, if_neg hq, hsheds.others q hq, modifyPages,
      process_modifyProcess m p q _ hp, if_neg hq]
  · rw [length_modifyProcess, hsheds.count, modifyPages, length_modifyProcess]
  · exact hsheds.layout
  · exact hsheds.loaderRuns
  · exact hsheds.nextId

theorem dissolves_teardown (k : m.Sound {} mem) (hp : p < m.processes.length) :
    Ends (teardown p) m (fun _ => False) (fun _ next => m.Dissolves p next) fun _ _ => False := by
  have hregistered := k.values_registered (p := p)
  have kempty := k.unregisterEach (p := p)
  have hlength : p < (m.modifyPages p fun _ => .empty).processes.length := by
    rw [modifyPages, length_modifyProcess]
    exact hp
  have hgone : ∀ page ∈ (m.process p).pages.values,
      (m.modifyPages p fun _ => .empty).page? p page.va = none := by
    intro page _
    rw [page?_modifyPages hp, if_pos rfl]
    rfl
  have hplaced : ∀ page ∈ (m.process p).pages.values, page.Placed m.layout [] p page.va :=
    fun page hpage => k.placed p page.va page (hregistered.1 page hpage)
  have hidle : ∀ page ∈ (m.process p).pages.values, page.frame = none →
      (m.modifyPages p fun _ => .empty).entryAt p page.va = none := by
    intro page hpage hnone
    rw [entryAt_modifyPages]
    exact k.sight_idle (hregistered.1 page hpage) (Option.map_eq_none_iff.mpr hnone)
  have hapart : ((m.process p).pages.values.map Page.va).Nodup := by
    rw [hregistered.2]
    exact (m.process p).pages.keys_nodup
  have hrequest : (m.modifyPages p fun _ => .empty).request? p = m.request? p := by
    funext page
    unfold request?
    rw [mmu_modifyPages]
    rfl
  unfold teardown
  simp only [ends_bind, ends_get, ends_modify]
  refine ((ends_releasePages kempty hlength hgone hplaced).and
    (kempty.sheds_releasePages hlength hgone hplaced hidle hapart)).mono ?_ fun _ _ hfalse =>
      hfalse.1
  intro _ n hn
  rcases hn with ⟨⟨-, -, kn⟩, hsheds, hsends⟩
  rw [hrequest] at hsends
  have hdissolves := dissolves_of_sheds k hp hsheds hsends kn
  rw [ends_when]
  split
  · exact { hdissolves with }
  · exact hdissolves

theorem Dissolves.ended (h : m.Dissolves p next) (hp : p < m.processes.length) :
    m.Dissolves p (next.modifyProcess p fun q => { q with ended := true }) := by
  have hpn : p < next.processes.length := by
    rw [h.count]
    exact hp
  have hown : (next.modifyProcess p fun q => { q with ended := true }).process p =
      { next.process p with ended := true } :=
    (process_modifyProcess next p p _ hpn).trans (if_pos rfl)
  exact
    { h with
      pages := by rw [hown, h.pages]
      mappings := by rw [hown, h.mappings]
      entries := by rw [hown, h.entries]
      tornDown := by rw [hown, h.tornDown]
      others := by
        intro q hq
        rw [process_modifyProcess next p q _ hpn, if_neg hq, h.others q hq]
      count := by rw [length_modifyProcess, h.count] }

theorem dissolves_perform {op : Operation} (k : m.Sound {} mem) (hp : p < m.processes.length)
    (hop : op.TearsDown p) :
    Ends op.perform m (fun _ => False) (fun reply next => reply = .done ∧ m.Dissolves p next)
      fun _ _ => False := by
  rcases hop with rfl | rfl
  · refine ends_bind.mpr ?_
    exact (dissolves_teardown k hp).mono (fun _ _ hnext => ⟨rfl, hnext⟩) fun _ _ hfalse => hfalse
  · refine ends_bind.mpr ?_
    unfold endProcess
    rw [ends_bind]
    refine (dissolves_teardown k hp).mono ?_ fun _ _ hfalse => hfalse
    intro _ next hnext
    rw [ends_modify]
    exact ⟨rfl, hnext.ended hp⟩

/-! ## After a teardown -/

theorem Reachable.empty_of_tornDown (h : m.Reachable) (htorn : (m.process p).tornDown = true) :
    (m.process p).pages = .empty ∧ (m.process p).mappings = .empty := by
  rcases h.sound with ⟨mem, k⟩
  have hclosed := k.closed p htorn
  constructor
  · exact AddressMap.ext_get? hclosed
  · apply AddressMap.ext_get?
    intro base
    cases hget : (m.process p).mappings.get? base with
    | none => rfl
    | some g =>
        have hlists := h.lists hget
        rcases List.exists_mem_of_ne_nil _ hlists.inhabited with ⟨va, hva⟩
        have hlink := hlists.linked va hva
        rw [baseAt, hclosed va] at hlink
        contradiction

theorem ends_teardown_again (hpages : (m.process p).pages = .empty)
    (hmappings : (m.process p).mappings = .empty) (htorn : (m.process p).tornDown = true) :
    Ends (teardown p) m (fun _ => False) (fun _ next => next = m) fun _ _ => False := by
  have hemptied : (m.modifyPages p fun _ => .empty) = m := by
    apply modifyProcess_eq_self
    rw [← hpages]
  have hclosed : (m.modifyProcess p fun q => { q with mappings := .empty, tornDown := true }) =
      m := by
    apply modifyProcess_eq_self
    rw [← hmappings, ← htorn]
  unfold teardown
  simp only [ends_bind, ends_get, ends_modify]
  rw [hemptied, hpages, htorn]
  exact hclosed

theorem Reachable.teardown_again (h : m.Reachable) (htorn : (m.process p).tornDown = true) :
    (∀ va, m.page? p va = none) ∧ (Operation.teardown p).perform m = .ok .done m ∧
      (Operation.finish p).perform m =
        .ok .done (m.modifyProcess p fun q => { q with ended := true }) := by
  rcases h.empty_of_tornDown htorn with ⟨hpages, hmappings⟩
  rcases (ends_teardown_again hpages hmappings htorn).exists_result with ⟨_, _, hend, rfl⟩
  refine ⟨?_, ?_, ?_⟩
  · intro va
    rw [page?, hpages]
    rfl
  · exact bind_eq_ok_iff.mpr ⟨_, _, hend, rfl⟩
  · exact bind_eq_ok_iff.mpr ⟨_, _, bind_eq_ok_iff.mpr ⟨_, _, hend, rfl⟩, rfl⟩

/-- When all page tables are torn down, no frame and no slot is held. -/
theorem Conserved.all_free (h : m.Conserved) (hnone : ∀ p va, m.page? p va = none) :
    m.ring.entries = [] ∧ m.pool.free.Perm (List.range m.pool.capacity) ∧
      ∀ s, m.swap.slots.isUsed s = false := by
  have hholdings : ∀ read : Page → Option Nat,
      (m.livePlaces.filterMap fun place => (m.page? place.1 place.2).bind read) = [] := by
    intro read
    refine List.filterMap_eq_nil_iff.mpr ?_
    intro place _
    rw [hnone]
    rfl
  have hframes : m.heldFrames = [] := hholdings Page.frame
  have hslots : m.recordedSlots = [] := hholdings Page.slot
  refine ⟨?_, ?_, ?_⟩
  · have hlisted := h.listed
    rw [hframes] at hlisted
    exact List.map_eq_nil_iff.mp hlisted.eq_nil
  · have hconserved := h.frames
    rwa [hframes, List.append_nil] at hconserved
  · intro s
    have hused := h.used s
    rw [hslots] at hused
    cases hs : m.swap.slots.isUsed s with
    | false => rfl
    | true => exact absurd (hused.mp hs) List.not_mem_nil

/-- Tearing a page table down gives up all that it has and nothing else. Its dirty pages are sent
to their files in the order of their addresses, each once, and no page is ever added to it again.
When all page tables are torn down, all frames and slots are free. -/
theorem Reachable.torn_down_completely (h : m.Reachable) :
    (∀ (op : Operation) p, op.TearsDown p → p < m.processes.length →
      ∃ next, op.perform m = .ok .done next ∧ m.Dissolves p next ∧
        ((m.process p).pages.values.filterMap (m.request? p)).Pairwise
          (fun write later => write.page.va < later.page.va) ∧
        ∀ ops last, next.run ops = some last → (∀ va, last.page? p va = none) ∧
          (Operation.teardown p).perform last = .ok .done last ∧
          (Operation.finish p).perform last =
            .ok .done (last.modifyProcess p fun q => { q with ended := true })) ∧
      ((∀ p < m.processes.length, (m.process p).tornDown = true) →
        m.ring.entries = [] ∧ m.pool.free.Perm (List.range m.pool.capacity) ∧
          ∀ s, m.swap.slots.isUsed s = false) := by
  rcases h.sound with ⟨mem, k⟩
  constructor
  · intro op p hop hp
    rcases (dissolves_perform k hp hop).exists_result with ⟨_, next, hend, rfl, hdissolves⟩
    refine ⟨next, hend, hdissolves, k.requests_ascending p, ?_⟩
    intro ops last hrun
    have hnext : next.Reachable := h.after? (after?_eq_some_iff.mpr (Or.inl ⟨_, hend⟩))
    have hpn : p < next.processes.length := by
      rw [hdissolves.count]
      exact hp
    exact (hnext.later hrun).teardown_again
      ((staysShut_of_run hrun).tornDown p hpn hdissolves.tornDown)
  · intro htorn
    refine k.conserved.all_free ?_
    intro p va
    by_cases hp : p < m.processes.length
    · exact k.closed p (htorn p hp) va
    · rw [page?, process_eq_absent (Nat.le_of_not_lt hp)]
      rfl

def threePages : List Operation :=
  [.start (.always true), .start (.always true), .allocate 0 .anon 0x1000 true none,
    .claim 0 0x1000, .map 0 0x2000 16 true 0 0, .claim 0 0x2000, .write 0 0x2000 [7],
    .allocate 1 .anon 0x1000 true none, .claim 1 0x1000]

/-- A frame and a slot come back, the file gets its byte, and the other process keeps its frame. -/
theorem dirty_page_written_at_teardown : ∃ m next : Machine, m.Reachable ∧
    (Operation.teardown 0).perform m = .ok .done next ∧ m.Dissolves 0 next ∧
    (m.process 0).pages.values.map (fun page => (page.frame, page.slot)) =
      [(none, some 0), (some 1, none)] ∧
    ((m.process 0).pages.values.filterMap (m.request? 0)).map
      (fun write => (write.page.va, write.data.head?)) = [(0x2000, some 7)] ∧
    (m.process 1).pages.values.map Page.frame = [some 0] ∧ next.pool.free = [1] := by
  rcases Reachable.of_run smallConfig (smallHardware (some (.blank 4 8)) [.patterned 16]) threePages
    (fun m => decide (m.processes.length = 2 ∧ m.pool.free = [] ∧
      (m.process 0).pages.values.map (fun page => (page.frame, page.slot)) =
        [(none, some 0), (some 1, none)] ∧
      ((m.process 0).pages.values.filterMap (m.request? 0)).map
        (fun write => (write.page.va, write.data.head?)) = [(0x2000, some 7)] ∧
      (m.process 1).pages.values.map Page.frame = [some 0])) (by decide +kernel) with
    ⟨m, hm, hcheck⟩
  rcases of_decide_eq_true hcheck with ⟨hcount, hfree, hheld, hsent, hother⟩
  have hp : 0 < m.processes.length := by
    rw [hcount]
    exact Nat.zero_lt_two
  rcases (Reachable.torn_down_completely hm).1 (.teardown 0) 0 (Or.inl rfl) hp with
    ⟨next, hend, hdissolves, -⟩
  refine ⟨m, next, hm, hend, hdissolves, hheld, hsent, hother, ?_⟩
  have hframes : (m.process 0).pages.values.filterMap Page.frame = [1] := by
    have hmapped := congrArg (List.filterMap Prod.fst) hheld
    rwa [List.filterMap_map] at hmapped
  rw [hdissolves.pool, hframes, hfree]
  rfl

end Machine
end DemandPaging
