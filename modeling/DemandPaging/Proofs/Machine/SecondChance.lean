import DemandPaging.Proofs.Machine.ClockVisit
import Mathlib.Data.List.Find

/-!
# The second chance

Which page gives up its frame. Seen from the hand, the first entry that can be evicted and was not
accessed gives up its frame; when all of them were accessed, the first one that can be evicted at
all. The clock finds it in at most two rounds: the first one takes the accessed bits away that it
meets, so that the second one meets none.
-/

namespace DemandPaging
namespace Machine

open Routine

variable {m s n : Machine} {saves : Owner → Bool} {e v : RingEntry} {l rest : List RingEntry}

/-! ## The turns of a sweep -/

theorem sweep_succ (visits : Nat) :
    sweep (visits + 1) = visit >>= fun taken =>
      match taken with
      | some frame => pure frame
      | none => sweep visits := by
  unfold visit
  rw [sweep, bind_assoc]
  congr
  funext m
  dsimp only
  cases m.ring.entries[m.ring.candidate]? with
  | none => rfl
  | some entry => exact (bind_assoc (modifyRing _) _ _).symm

theorem sweep_of_taken {m next : Machine} {frame : Nat} (visits : Nat)
    (h : visit m = .ok (some frame) next) : sweep (visits + 1) m = .ok frame next := by
  rw [sweep_succ]
  exact bind_eq_ok_iff.mpr ⟨some frame, next, h, rfl⟩

theorem sweep_of_passed {m next : Machine} (visits : Nat) (h : visit m = .ok none next) :
    sweep (visits + 1) m = sweep visits next := by
  rw [sweep_succ]
  show EStateM.bind visit _ m = _
  unfold EStateM.bind
  rw [h]

def turns : Nat → Machine → List Machine
  | 0, _ => []
  | visits + 1, m =>
      m :: match visit m with
        | .ok none next => turns visits next
        | .ok (some _) _ => []
        | .error _ _ => []

theorem mem_turns_self (visits : Nat) (m : Machine) : m ∈ turns (visits + 1) m :=
  List.mem_cons_self

theorem mem_turns_of_passed {m next turn : Machine} {visits : Nat} (h : visit m = .ok none next)
    (hturn : turn ∈ turns visits next) : turn ∈ turns (visits + 1) m := by
  rw [turns, h]
  exact List.mem_cons_of_mem m hturn

/-- As long as the hand sweeps, each attempt to save a page turns out as said. -/
def Steady (m : Machine) (saves : Owner → Bool) : Prop :=
  ∀ turn ∈ turns (2 * m.ring.entries.length) m, foretold saves turn = true

/-! ## One round -/

theorem evictable_eq_false (hasks : m.asks e = false) {page : Page}
    (hpage : m.ownedPage? e.owner = some page) : m.evictable saves e = false := by
  cases hpinned : e.pinned with
  | true => simp [evictable, hpinned]
  | false =>
      have hbusy : m.lockFree e.owner = false := by
        simpa [asks, hpinned, hpage] using hasks
      simp [evictable, hpage, hbusy]

theorem Passed.yields_of_not_mem (h : m.Passed l s) (k : m.Ready) (hl : l ⊆ m.ring.entries)
    (he : e ∈ m.ring.entries) (hnew : e ∉ l) :
    s.yields saves e = m.yields saves e := by
  unfold yields untouched
  rw [h.evictable]
  rw [h.ownedPage?]
  cases hpage : m.ownedPage? e.owner with
  | none => rfl
  | some page =>
      cases hasks : m.asks e with
      | false => rw [evictable_eq_false hasks hpage, Bool.false_and, Bool.false_and]
      | true =>
          have hattended := k.attended e he hasks page hpage
          have hmapped : s.mapped? page.mmu page.va = m.mapped? page.mmu page.va := by
            rw [h.mapped, if_neg]
            rw [mem_askedPlaces]
            rintro ⟨d, hd, hasked, hplace⟩
            rw [hattended.unit, hattended.address] at hplace
            exact hnew (k.eq_of_place (hl hd) he hasked hpage hplace ▸ hd)
          show (_ && !(s.mapped? page.mmu page.va).any PageEntry.accessed) = _
          rw [hmapped]
          rfl

theorem Passed.yields_of_mem (h : m.Passed l s) (k : m.Ready) (he : e ∈ m.ring.entries)
    (hpassed : e ∈ l) : s.yields saves e = m.evictable saves e := by
  unfold yields untouched
  rw [h.evictable]
  rw [h.ownedPage?]
  cases hpage : m.ownedPage? e.owner with
  | none => exact Bool.and_true _
  | some page =>
      cases hasks : m.asks e with
      | false => rw [evictable_eq_false hasks hpage, Bool.false_and]
      | true =>
          have hattended := k.attended e he hasks page hpage
          have hplace : (page.mmu, page.va) ∈ m.askedPlaces l := by
            rw [hattended.unit, hattended.address, mem_askedPlaces]
            exact ⟨e, hpassed, hasks, rfl, rfl⟩
          show (_ && !(s.mapped? page.mmu page.va).any PageEntry.accessed) = _
          rw [h.mapped, if_pos hplace]
          cases m.mapped? page.mmu page.va with
          | none => exact Bool.and_true _
          | some entry => exact Bool.and_true _

/-- The hand goes on over the rest of the ring. The first entry that can be evicted and was not
accessed when the round began gives up its frame; if there is none, the round ends. -/
theorem sweep_round (k : m.Ready) (visits : Nat) (h : m.Passed l s)
    (hahead : m.ring.ahead = l ++ rest) (hahead' : s.ring.ahead = rest ++ l)
    (hsteady : ∀ turn ∈ turns (rest.length + visits) s, foretold saves turn = true) :
    match rest.find? (m.yields saves) with
    | some v => ∃ next passed last, sweep (rest.length + visits) s = .ok v.frame next ∧
        m.Passed passed last ∧ passed ⊆ m.ring.entries ∧ last.Yielded v next
    | none => ∃ last, sweep (rest.length + visits) s = sweep visits last ∧
        m.Passed m.ring.ahead last ∧ last.ring.ahead = m.ring.ahead ∧
        ∀ turn ∈ turns visits last, foretold saves turn = true := by
  induction rest generalizing l s with
  | nil =>
      rw [List.append_nil] at hahead
      rw [List.length_nil, Nat.zero_add] at hsteady ⊢
      rw [hahead]
      exact ⟨s, rfl, h, hahead', hsteady⟩
  | cons e rest ih =>
      have hcount : (e :: rest).length + visits = rest.length + visits + 1 := by
        rw [List.length_cons]
        omega
      rw [hcount] at hsteady ⊢
      have hl : l ⊆ m.ring.entries := by
        intro d hd
        rw [← FrameRing.mem_ahead, hahead]
        exact List.mem_append_left _ hd
      have he : e ∈ m.ring.entries := by
        rw [← FrameRing.mem_ahead, hahead]
        exact List.mem_append_right _ List.mem_cons_self
      have hnew : e ∉ l := by
        have hnodup := FrameRing.nodup_ahead k.listedOnce
        rw [hahead] at hnodup
        exact fun hmem => List.disjoint_of_nodup_append hnodup hmem List.mem_cons_self
      have hnext : s.ring.ahead = e :: (rest ++ l) := hahead'
      have hsame : s.yields saves e = m.yields saves e := h.yields_of_not_mem k hl he hnew
      rcases visit_cases (h.ready k) hnext (hsteady s (mem_turns_self _ s)) with
        ⟨taken, next, hvisit, hvisited⟩
      cases taken with
      | some frame =>
          rcases hvisited with ⟨rfl, htakable, hyielded⟩
          rw [hsame] at htakable
          rw [List.find?_cons_of_pos htakable]
          exact ⟨next, l, s, sweep_of_taken _ hvisit, h, hl, hyielded⟩
      | none =>
          rcases hvisited with ⟨hkept, hpassed, hring⟩
          rw [hsame] at hkept
          rw [List.find?_cons_of_neg (by rw [hkept]; exact Bool.false_ne_true),
            sweep_of_passed _ hvisit]
          apply ih (h.append hpassed)
          · rw [hahead, List.append_assoc, List.singleton_append]
          · rw [hring, FrameRing.ahead_advance hnext, List.append_assoc]
          · exact fun turn hturn => hsteady turn (mem_turns_of_passed hvisit hturn)

/-! ## Two rounds -/

/-- The first entry from the hand on that can be evicted and was not accessed, or else the first
one that can be evicted. -/
def victim? (m : Machine) (saves : Owner → Bool) : Option RingEntry :=
  (m.ring.ahead.find? (m.yields saves)).or (m.ring.ahead.find? (m.evictable saves))

/-- An entry has given up its frame, and nothing else has changed but accessed bits. -/
structure Evicts (m : Machine) (v : RingEntry) (n : Machine) : Prop where
  listed : n.ring.entries = m.ring.entries.erase v
  /-- The bytes of all frames are as before. -/
  pool : n.pool = m.pool
  /-- Another page keeps its frame, its mapping and its dirty bit. -/
  others : ∀ e ∈ m.ring.entries, e ≠ v → ∀ page, m.ownedPage? e.owner = some page →
    n.ownedPage? e.owner = some page ∧
      (n.mapped? e.owner.process e.owner.va).map PageEntry.unaccessed =
        (m.mapped? e.owner.process e.owner.va).map PageEntry.unaccessed
  /-- The page of a pinned entry keeps its accessed bit as well. -/
  pinned : ∀ e ∈ m.ring.entries, e.pinned = true → ∀ page, m.ownedPage? e.owner = some page →
    n.mapped? e.owner.process e.owner.va = m.mapped? e.owner.process e.owner.va
  locked : ∀ p va, Lock.page p va ∈ m.held →
    n.page? p va = m.page? p va ∧ n.mapped? p va = m.mapped? p va
  /-- The page of the entry, if there is one, has neither frame nor mapping. -/
  parted : ∀ page, m.ownedPage? v.owner = some page →
    (∃ state, n.page? v.owner.process v.owner.va =
      some { page with state := state, frame := none }) ∧
    n.mapped? v.owner.process v.owner.va = none

theorem Ready.not_mem_of_pinned (k : m.Ready) (hl : l ⊆ m.ring.entries) (he : e ∈ m.ring.entries)
    (hpinned : e.pinned = true) {page : Page} (hpage : m.ownedPage? e.owner = some page) :
    (e.owner.process, e.owner.va) ∉ m.askedPlaces l := by
  rw [mem_askedPlaces]
  rintro ⟨d, hd, hasks, hplace⟩
  rw [k.eq_of_place (hl hd) he hasks hpage hplace, asks_eq_true_iff, hpinned] at hasks
  exact Bool.noConfusion hasks.1

theorem not_mem_of_locked {p : Nat} {va : Vaddr} (hheld : Lock.page p va ∈ m.held) :
    (p, va) ∉ m.askedPlaces l := by
  rw [mem_askedPlaces]
  rintro ⟨d, _, hasks, rfl, rfl⟩
  exact (asks_eq_true_iff.mp hasks).2.2 hheld

theorem Passed.evicts (h : m.Passed l s) (k : m.Ready) (hl : l ⊆ m.ring.entries)
    (hv : v ∈ m.ring.entries) (hyielded : s.Yielded v n) : m.Evicts v n where
  listed := by
    rw [hyielded.listed, h.listed]
  pool := hyielded.pool.trans h.pool
  others := by
    intro e he hne page hpage
    have hplace : (e.owner.process, e.owner.va) ∉ s.askedPlaces [v] := by
      rw [h.askedPlaces, mem_askedPlaces]
      rintro ⟨d, hd, hasks, hplace⟩
      rw [List.mem_singleton] at hd
      subst hd
      exact hne (k.eq_of_place hv he hasks hpage hplace).symm
    constructor
    · rw [Machine.ownedPage?, hyielded.pages _ _ hplace, h.pages]
      exact hpage
    · rw [hyielded.mapped _ _ hplace, h.unaccessed_mapped?]
  pinned := by
    intro e he hpinned page hpage
    have hv' : [v] ⊆ m.ring.entries := List.cons_subset.mpr ⟨hv, List.nil_subset _⟩
    rw [hyielded.mapped, h.mapped, if_neg (k.not_mem_of_pinned hl he hpinned hpage)]
    rw [h.askedPlaces]
    exact k.not_mem_of_pinned hv' he hpinned hpage
  locked := by
    intro p va hheld
    have hplace : (p, va) ∉ s.askedPlaces [v] := by
      rw [h.askedPlaces]
      exact not_mem_of_locked hheld
    rw [hyielded.pages p va hplace, hyielded.mapped p va hplace, h.pages, h.mapped,
      if_neg (not_mem_of_locked hheld)]
    exact ⟨rfl, rfl⟩
  parted := by
    intro page hpage
    exact hyielded.parted page ((h.ownedPage? v.owner).trans hpage)

theorem evict_eq_sweep (m : Machine) :
    evict m = sweep (m.ring.ahead.length + m.ring.ahead.length) m := by
  show sweep (2 * m.ring.entries.length) m = _
  rw [FrameRing.length_ahead, Nat.two_mul]

/-- The first round finds an entry that was not accessed, or else the second one finds any. -/
theorem evict_cases (k : m.Ready) (hsteady : m.Steady saves) :
    match m.victim? saves with
    | some v => v ∈ m.ring.entries ∧ m.evictable saves v = true ∧
        ∃ next, evict m = .ok v.frame next ∧ m.Evicts v next
    | none => (∀ e ∈ m.ring.entries, m.evictable saves e = false) ∧
        ∃ next, evict m = .error (.aborted .framesExhausted) next := by
  have hsteady' : ∀ turn ∈ turns (m.ring.ahead.length + m.ring.ahead.length) m,
      foretold saves turn = true := by
    rw [FrameRing.length_ahead, ← Nat.two_mul]
    exact hsteady
  have hfirst := sweep_round k m.ring.ahead.length (.nil m)
    (show m.ring.ahead = [] ++ m.ring.ahead from rfl) (List.append_nil _).symm hsteady'
  rw [evict_eq_sweep]
  unfold victim?
  cases hfound : m.ring.ahead.find? (m.yields saves) with
  | some v =>
      rw [hfound] at hfirst
      rcases hfirst with ⟨next, passed, last, hsweep, hpassed, hsub, hyielded⟩
      have hv : v ∈ m.ring.entries := FrameRing.mem_ahead.mp (List.mem_of_find?_eq_some hfound)
      have hboth := List.find?_some hfound
      rw [yields, Bool.and_eq_true] at hboth
      exact ⟨hv, hboth.1, next, hsweep, hpassed.evicts k hsub hv hyielded⟩
  | none =>
      rw [hfound] at hfirst
      rcases hfirst with ⟨middle, hsweep, hpassed, hahead, hrest⟩
      have hsecond := sweep_round (hpassed.ready k) 0 (.nil middle)
        (show middle.ring.ahead = [] ++ m.ring.ahead from hahead)
        (by rw [hahead, List.append_nil]) hrest
      have hsame : m.ring.ahead.find? (middle.yields saves) =
          m.ring.ahead.find? (m.evictable saves) := by
        apply List.find?_congr
        intro e he
        exact hpassed.yields_of_mem k (FrameRing.mem_ahead.mp he) he
      rw [hsame] at hsecond
      rw [hsweep, Option.none_or]
      cases hagain : m.ring.ahead.find? (m.evictable saves) with
      | some v =>
          rw [hagain] at hsecond
          rcases hsecond with ⟨next, passed, last, hsweep', hpassed', hsub, hyielded⟩
          have hv : v ∈ m.ring.entries :=
            FrameRing.mem_ahead.mp (List.mem_of_find?_eq_some hagain)
          refine ⟨hv, List.find?_some hagain, next, hsweep', ?_⟩
          apply (hpassed.append hpassed').evicts k _ hv hyielded
          apply List.append_subset.mpr
          rw [hpassed.listed] at hsub
          exact ⟨fun e he => FrameRing.mem_ahead.mp he, hsub⟩
      | none =>
          rw [hagain] at hsecond
          rcases hsecond with ⟨last, hsweep', -, -, -⟩
          constructor
          · intro e he
            rw [← Bool.not_eq_true]
            exact List.find?_eq_none.mp hagain e (FrameRing.mem_ahead.mpr he)
          · exact ⟨last, hsweep'⟩

/-! ## The victim -/

/-- The rings that operations leave are of the kind that is asked for, as long as each page that is
listed is mapped. -/
theorem Sound.ready {mem : FlatMemory} {locks : List Lock} (k : m.Sound { locks := locks } mem)
    (hswap : Lock.swap ∉ locks)
    (hlinked : ∀ e ∈ m.ring.entries, (m.link? e.owner.process e.owner.va).isSome = true) :
    m.Ready := by
  have howned : ∀ e ∈ m.ring.entries, ∀ page, m.ownedPage? e.owner = some page →
      page.frame = some e.frame := by
    intro e he page hpage
    rcases (k.frames.owned e he).resolve_left List.not_mem_nil with ⟨other, hother, -, hframe⟩
    rw [(ownedPage?_eq_some_iff.mp hpage).1] at hother
    cases hother
    exact hframe
  refine ⟨?_, k.swap, k.frames.entries_nodup, ?_, ?_⟩
  · exact k.not_held hswap
  · intro d hd e he page hpage howner
    apply FrameRing.eq_of_frame_eq k.frames.entries_nodup hd he
    have hfirst := howned d hd page (howner ▸ hpage)
    rw [howned e he page hpage] at hfirst
    exact (Option.some.inj hfirst).symm
  · intro e he _ page hpage
    have hplace := (ownedPage?_eq_some_iff.mp hpage).1
    have hplaced := k.placed _ _ page hplace
    have hframe := howned e he page hpage
    rcases Option.isSome_iff_exists.mp (hlinked e he) with ⟨⟨f, w⟩, hlink⟩
    rcases (k.links.backed _ _ f w hlink).resolve_left List.not_mem_nil with
      ⟨other, hother, hframe', rfl⟩
    rw [hplace] at hother
    cases hother
    rw [hframe] at hframe'
    cases hframe'
    refine ⟨hframe, hplaced.unit, hplaced.address, ?_, ?_, hplaced.extent⟩
    · rw [hplaced.unit, hplaced.address]
      exact hlink
    · rw [k.bytes_eq hplace, List.length_take, k.length_content (k.frame_lt hplace hframe),
        Nat.min_self]

/-- Evicting panics exactly if no entry can be evicted. Otherwise the victim is the first entry
from the hand on that can be evicted and was not accessed, or else the first one that can be
evicted; it gives up its frame, and nothing else is touched. -/
theorem evict_second_chance (k : m.Ready) (hsteady : m.Steady saves) :
    ((∃ next, evict m = .error (.aborted .framesExhausted) next) ↔
      ∀ e ∈ m.ring.entries, m.evictable saves e = false) ∧
    ((∃ e ∈ m.ring.entries, m.evictable saves e = true) →
      ∃ v next, m.victim? saves = some v ∧ evict m = .ok v.frame next ∧ m.Evicts v next) := by
  have hcases := evict_cases k hsteady
  cases hvictim : m.victim? saves with
  | some v =>
      rw [hvictim] at hcases
      rcases hcases with ⟨hv, hevictable, next, hevict, hevicts⟩
      refine ⟨⟨?_, ?_⟩, fun _ => ⟨v, next, rfl, hevict, hevicts⟩⟩
      · rintro ⟨last, habort⟩
        rw [hevict] at habort
        cases habort
      · intro hnone
        rw [hnone v hv] at hevictable
        contradiction
  | none =>
      rw [hvictim] at hcases
      rcases hcases with ⟨hnone, next, habort⟩
      refine ⟨⟨fun _ => hnone, fun _ => ⟨next, habort⟩⟩, ?_⟩
      rintro ⟨e, he, hevictable⟩
      rw [hnone e he] at hevictable
      contradiction

/-- Both pages were accessed, and the one under the hand is locked: the other one gives up its frame
in the second round. -/
theorem second_round_victim : ∃ (m next : Machine) (v : RingEntry), m.Ready ∧
    (∀ e ∈ m.ring.entries, m.untouched e = false) ∧ m.ring.next? ≠ some v ∧
    evict m = .ok v.frame next ∧ m.Evicts v next := by
  have hrun := Reachable.of_run smallConfig (smallHardware (some (.blank 8 8)) [])
    [.start (.always true), .allocate 0 .anon 0x1000 true none, .allocate 0 .anon 0x1010 true none,
      .claim 0 0x1000, .claim 0 0x1010, .read 0 0x1000 1, .write 0 0x1010 [7]]
    (fun m => m.ring.entries.all (fun e => (m.link? e.owner.process e.owner.va).isSome) &&
      (turns (2 * m.ring.entries.length) (m.locked (.page 0 0x1000))).all
        (foretold fun _ => true) &&
      m.ring.entries.all (fun e => !(m.locked (.page 0 0x1000)).untouched e) &&
      m.ring.entries.any ((m.locked (.page 0 0x1000)).evictable fun _ => true) &&
      ((m.locked (.page 0 0x1000)).victim? fun _ => true) != m.ring.next?) (by decide +kernel)
  rcases hrun with ⟨m, hm, hcheck⟩
  simp only [Bool.and_eq_true, List.all_eq_true, List.any_eq_true, bne_iff_ne, ne_eq,
    Bool.not_eq_true'] at hcheck
  rcases hcheck with ⟨⟨⟨⟨hlinked, hsteady⟩, htouched⟩, hsome⟩, hnext⟩
  rcases hm.sound with ⟨mem, k⟩
  have hready : (m.locked (.page 0 0x1000)).Ready :=
    (k.locked (.page 0 0x1000)).ready (by decide) hlinked
  rcases (evict_second_chance hready hsteady).2 hsome with ⟨v, next, hvictim, hevict, hevicts⟩
  refine ⟨m.locked (.page 0 0x1000), next, v, hready, htouched, ?_, hevict, hevicts⟩
  intro hcandidate
  exact hnext (hvictim.trans hcandidate.symm)

end Machine
end DemandPaging
