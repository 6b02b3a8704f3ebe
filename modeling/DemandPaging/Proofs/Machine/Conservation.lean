import DemandPaging.Proofs.Machine.Operation

/-!
# Conservation of frames and slots

Between operations each frame is free or belongs to one registered page, each slot is unused or
belongs to one, and the ring and the bitmap say the same. Torn-down page tables and ended processes
hold nothing, so only the pages of the others are counted.
-/

namespace DemandPaging
namespace Machine

/-! ## Live pages -/

/-- Where the processes that have not ended have pages, if their page tables are not torn down. -/
def livePlaces (m : Machine) : List (Nat × Vaddr) :=
  (List.range m.processes.length).flatMap fun p =>
    if (m.process p).tornDown || (m.process p).ended then []
    else (m.process p).pages.keys.map fun va => (p, va)

def heldFrames (m : Machine) : List Nat :=
  m.livePlaces.filterMap fun place => (m.page? place.1 place.2).bind Page.frame

def recordedSlots (m : Machine) : List Nat :=
  m.livePlaces.filterMap fun place => (m.page? place.1 place.2).bind Page.slot

/-- Frames and slots are conserved: none is lost and none is held twice. -/
structure Conserved (m : Machine) : Prop where
  /-- Each frame is free or held by one page, and none is both. -/
  frames : (m.pool.free ++ m.heldFrames).Perm (List.range m.pool.capacity)
  /-- The entries of the ring are the frames that are held. -/
  listed : m.ring.frames.Perm m.heldFrames
  /-- The owner of an entry is the page that holds its frame, and between operations no frame is
  pinned. -/
  owned : ∀ e ∈ m.ring.entries, e.pinned = false ∧
    ∃ page, m.ownedPage? e.owner = some page ∧ page.frame = some e.frame
  /-- No two pages record one slot. -/
  recorded : m.recordedSlots.Nodup
  /-- The slots in use are those that are recorded. -/
  used : ∀ s, m.swap.slots.isUsed s = true ↔ s ∈ m.recordedSlots
  /-- The count of the slots in use is right. -/
  counted : m.swap.slots.used = m.recordedSlots.length
  /-- No page has both a frame and a slot. -/
  apart : ∀ p va page, m.page? p va = some page → page.frame = none ∨ page.slot = none

variable {m : Machine} {mem : FlatMemory} {p : Nat} {va : Vaddr} {page : Page}

theorem livePlaces_nodup (m : Machine) : m.livePlaces.Nodup := by
  refine List.nodup_flatMap.mpr ⟨?_, ?_⟩
  · intro p _
    split
    · exact List.nodup_nil
    · refine List.Nodup.map ?_ ((m.process p).pages.keys_nodup)
      intro va wa h
      exact congrArg Prod.snd h
  · refine List.nodup_range.imp ?_
    intro p q hne x hx hy
    have hfirst : ∀ {r : Nat}, x ∈ (if (m.process r).tornDown || (m.process r).ended then []
        else (m.process r).pages.keys.map fun va => (r, va)) → x.1 = r := by
      intro r hr
      split at hr
      · exact absurd hr List.not_mem_nil
      · rcases List.mem_map.mp hr with ⟨va, -, rfl⟩
        rfl
    exact hne ((hfirst hx).symm.trans (hfirst hy))

theorem Sound.mem_livePlaces (k : m.Sound {} mem) :
    (p, va) ∈ m.livePlaces ↔ ∃ page, m.page? p va = some page := by
  constructor
  · intro h
    rcases List.mem_flatMap.mp h with ⟨q, -, hq⟩
    split at hq
    · exact absurd hq List.not_mem_nil
    · rcases List.mem_map.mp hq with ⟨wa, hwa, heq⟩
      cases heq
      exact AddressMap.mem_keys_iff.mp hwa
  · intro hat
    rcases hat with ⟨page, hpage⟩
    have hopen := k.isOpen hpage
    have hlive : (m.process p).ended = false := by
      cases hended : (m.process p).ended with
      | false => rfl
      | true =>
          rw [k.torn p hended] at hopen
          contradiction
    refine List.mem_flatMap.mpr ⟨p, List.mem_range.mpr (lt_of_page?_eq_some hpage), ?_⟩
    rw [hopen, hlive]
    exact List.mem_map.mpr ⟨va, AddressMap.mem_keys_iff.mpr ⟨page, hpage⟩, rfl⟩

/-! ## What live pages hold -/

section Holdings

variable {read : Page → Option Nat} {n : Nat}

theorem Sound.mem_holdings (k : m.Sound {} mem) :
    n ∈ m.livePlaces.filterMap (fun place => (m.page? place.1 place.2).bind read) ↔
      ∃ p va page, m.page? p va = some page ∧ read page = some n := by
  rw [List.mem_filterMap]
  constructor
  · intro hat
    rcases hat with ⟨⟨p, va⟩, -, hread⟩
    rcases Option.bind_eq_some_iff.mp hread with ⟨page, hpage, hn⟩
    exact ⟨p, va, page, hpage, hn⟩
  · intro hat
    rcases hat with ⟨p, va, page, hpage, hn⟩
    refine ⟨(p, va), k.mem_livePlaces.mpr ⟨page, hpage⟩, ?_⟩
    rw [hpage]
    exact hn

theorem holdings_nodup (h : ∀ p va page q wa other n, m.page? p va = some page →
      read page = some n → m.page? q wa = some other → read other = some n → q = p ∧ wa = va) :
    (m.livePlaces.filterMap fun place => (m.page? place.1 place.2).bind read).Nodup := by
  refine List.Nodup.filterMap ?_ m.livePlaces_nodup
  intro hfirst hsecond n hn hn'
  rcases hfirst with ⟨p, va⟩
  rcases hsecond with ⟨q, wa⟩
  rcases Option.bind_eq_some_iff.mp hn with ⟨page, hpage, hread⟩
  rcases Option.bind_eq_some_iff.mp hn' with ⟨other, hother, hread'⟩
  rcases h p va page q wa other n hpage hread hother hread' with ⟨rfl, rfl⟩
  rfl

end Holdings

theorem Sound.ring_perm_heldFrames (k : m.Sound {} mem) :
    m.ring.frames.Perm m.heldFrames := by
  have hnodup : m.heldFrames.Nodup := by
    apply holdings_nodup
    intro p va page q wa other f hpage hframe hother hframe'
    exact k.frames.holder_unique hpage hframe hother hframe'
  refine (List.perm_ext_iff_of_nodup k.frames.entries_nodup hnodup).mpr ?_
  intro f
  rw [heldFrames, k.mem_holdings]
  constructor
  · intro hf
    rcases List.mem_map.mp hf with ⟨e, he, rfl⟩
    rcases (k.frames.owned e he).resolve_left List.not_mem_nil with ⟨page, hpage, -, hframe⟩
    exact ⟨_, _, page, hpage, hframe⟩
  · intro hat
    rcases hat with ⟨p, va, page, hpage, hframe⟩
    exact k.frames.held_listed hpage hframe

theorem Sound.used_iff_recorded (k : m.Sound {} mem) (s : Nat) :
    m.swap.slots.isUsed s = true ↔ s ∈ m.recordedSlots := by
  rw [recordedSlots, k.mem_holdings, k.slots.used_iff s]
  exact or_iff_right List.not_mem_nil

theorem Sound.recordedSlots_nodup (k : m.Sound {} mem) : m.recordedSlots.Nodup :=
  holdings_nodup k.slots.sole

theorem Sound.conserved (k : m.Sound {} mem) : m.Conserved where
  frames := by
    have hconserved := k.frames.conserved
    rw [List.append_nil] at hconserved
    exact (k.ring_perm_heldFrames.symm.append_left m.pool.free).trans hconserved
  listed := k.ring_perm_heldFrames
  owned := by
    intro e he
    constructor
    · cases hpinned : e.pinned with
      | false => rfl
      | true => exact absurd (k.frames.pinned e he hpinned) List.not_mem_nil
    · rcases (k.frames.owned e he).resolve_left List.not_mem_nil with ⟨page, hpage, hid, hframe⟩
      exact ⟨page, ownedPage?_eq_some_iff.mpr ⟨hpage, hid⟩, hframe⟩
  recorded := k.recordedSlots_nodup
  used := k.used_iff_recorded
  counted := by
    rw [k.swap.slots.counted, List.countP_eq_length_filter]
    refine List.Perm.length_eq ?_
    refine (List.perm_ext_iff_of_nodup (List.nodup_range.filter _) k.recordedSlots_nodup).mpr ?_
    intro s
    rw [List.mem_filter, List.mem_range, ← k.used_iff_recorded]
    exact and_iff_right_of_imp k.slot_lt
  apart := by
    intro p va page hpage
    cases hframe : page.frame with
    | none => exact Or.inl rfl
    | some f =>
        right
        rcases ((k.placed p va page hpage).loaded f hframe).resolve_left List.not_mem_nil with
          hanon | ⟨x, hfile⟩
        · rw [Page.slot, hanon]
          rfl
        · rw [Page.slot, hfile]
          rfl

/-- Between operations frames and slots are conserved. -/
theorem Reachable.frames_and_slots_conserved (h : m.Reachable) : m.Conserved := by
  rcases h.sound with ⟨mem, k⟩
  exact k.conserved

/-- A third page takes a frame from a page of another process, which is written to a slot. -/
theorem conserved_after_eviction : ∃ m : Machine, m.Reachable ∧ m.heldFrames.length = 2 ∧
    m.recordedSlots.length = 1 ∧ m.Conserved := by
  have hrun := Reachable.of_run smallConfig (smallHardware (some (.blank 4 8)) [])
    [.start (.always true), .start (.always true), .allocate 0 .anon 0x1000 true none,
      .claim 0 0x1000, .allocate 1 .anon 0x1000 true none, .claim 1 0x1000,
      .allocate 1 .anon 0x1010 true none, .claim 1 0x1010]
    (fun m => decide (m.heldFrames.length = 2 ∧ m.recordedSlots.length = 1)) (by decide +kernel)
  rcases hrun with ⟨m, hm, hcheck⟩
  rcases of_decide_eq_true hcheck with ⟨hheld, hrecorded⟩
  exact ⟨m, hm, hheld, hrecorded, Reachable.frames_and_slots_conserved hm⟩

end Machine
end DemandPaging
