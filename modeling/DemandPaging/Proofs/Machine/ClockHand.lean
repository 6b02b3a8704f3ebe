import DemandPaging.Proofs.FrameRing
import DemandPaging.Proofs.Machine.Keeping
import DemandPaging.Proofs.Machine.Operation

/-!
# The clock hand

Which entry of the ring is the next candidate after a frame was handed out or taken back. The hand
stays with its entry and moves on to the follower when that entry goes. The one exception is a
hand at the end of the ring: it points to the first entry until a new entry is put in its place.
-/

namespace DemandPaging
namespace Machine

open Routine

variable {m : Machine}

/-! ## The ring during an eviction -/

def SameRing (m n : Machine) : Prop :=
  n.ring = m.ring

theorem sameRing_ignores : IgnoresParting SameRing where
  refl := fun _ => rfl
  trans := fun _ _ _ h h' => Eq.trans h' h
  locked := fun _ _ => rfl
  seized := fun _ _ => rfl
  unlocked := fun _ _ => rfl
  contended := fun _ _ => rfl
  reported := fun _ _ => rfl
  setSwap := fun _ _ _ => rfl
  recorded := fun _ _ => rfl
  modifyPage := fun _ _ _ _ _ => rfl
  modifyMmu := fun _ _ _ _ => rfl
  writeFile := fun _ _ _ _ => rfl

/-- An entry that gives up its frame leaves the ring, and the hand with it stays in place. -/
def RingAfter (m : Machine) (place : Nat) (entry : RingEntry) (taken : Option Nat)
    (next : Machine) : Prop :=
  match taken with
  | some frame => frame = entry.frame ∧
      next.ring.entries = (m.ring.removeAt place).entries ∧
      next.ring.hand = (m.ring.removeAt place).hand
  | none => next.ring = m.ring

theorem ring_evictPage (place : Nat) (entry : RingEntry) (page : Page) :
    Ends (evictPage place entry page) m Anyhow (m.RingAfter place entry) fun _ _ => False := by
  unfold evictPage
  rw [ends_bind, ends_attempt]
  refine (kept_pageOut sameRing_ignores entry.owner page m).mono ?_ ?_
  · intro frame next hring
    have hring : next.ring = m.ring := hring
    rw [ends_bind, ends_ensure]
    split
    · rename_i hagree
      rw [ends_bind, ends_modifyRing, ends_bind, ends_report, ends_pure]
      refine ⟨beq_iff_eq.mp hagree, ?_, ?_⟩
      · exact congrArg (fun ring => (ring.removeAt place).entries) hring
      · exact congrArg (fun ring => (ring.removeAt place).hand) hring
    · trivial
  · intro e next hring
    rw [ends_bind, ends_report, ends_pure]
    exact hring

theorem ring_secondChance (page : Page) :
    Ends (secondChance page) m Anyhow (fun _ next => SameRing m next) fun _ _ => False := by
  unfold secondChance
  simp only [ends_bind, ends_get, ends_when, ends_setAccessed, ends_pure]
  split <;> rfl

theorem ring_evictEntry (place : Nat) (entry : RingEntry) :
    Ends (evictEntry place entry) m Anyhow (m.RingAfter place entry) fun _ _ => False := by
  unfold evictEntry
  split
  · exact rfl
  · rw [ends_bind, ends_get]
    split
    · rw [ends_bind, ends_modifyRing, ends_pure]
      exact ⟨rfl, rfl, rfl⟩
    · rename_i page _
      rw [ends_withFreeLock]
      split
      · exact rfl
      · unfold evictUnlessAccessed
        rw [ends_bind]
        refine (ring_secondChance page).mono ?_ fun _ _ hfalse => hfalse
        intro accessed next hring
        have hring : next.ring = m.ring := hring
        cases accessed with
        | true => exact hring
        | false =>
            refine (ring_evictPage place entry page).mono ?_ fun _ _ hfalse => hfalse
            intro taken last hlast
            unfold RingAfter at hlast ⊢
            rw [hring] at hlast
            exact hlast

theorem ring_sweep (visits : Nat) :
    Ends (sweep visits) m Anyhow
      (fun frame next => ∃ place entry, m.ring.entries[place]? = some entry ∧
        entry.frame = frame ∧ next.ring.entries = m.ring.entries.eraseIdx place ∧
        next.ring.hand = place)
      fun _ _ => False := by
  induction visits generalizing m with
  | zero => trivial
  | succ visits ih =>
      unfold sweep
      rw [ends_bind, ends_get]
      dsimp only
      split
      · trivial
      · rename_i entry hentry
        rw [ends_bind, ends_modifyRing, ends_bind]
        refine (ring_evictEntry m.ring.candidate entry).mono ?_ fun _ _ hfalse => hfalse
        intro taken next hnext
        cases taken with
        | some frame =>
            -- The hand has moved past the candidate, so the removal draws it back by one.
            rcases hnext with ⟨rfl, hentries, hhand⟩
            refine ⟨m.ring.candidate, entry, hentry, rfl, hentries, hhand.trans ?_⟩
            exact if_pos (Nat.lt_succ_self m.ring.candidate)
        | none =>
            have hring : next.ring = m.ring.advance := hnext
            refine ih.mono ?_ fun _ _ hfalse => hfalse
            intro frame last hlast
            rw [hring] at hlast
            exact hlast

/-! ## Handing out and taking back -/

/-- What the ring is after a frame was handed out: it came from the pool, or an entry gave it up
and left its place to the hand. -/
theorem ring_allocateFrame (owner : Owner) :
    Ends (allocateFrame owner) m Anyhow
      (fun frame next =>
        (m.pool.take.1 = some frame ∧ next.ring = m.ring.push ⟨frame, owner, true⟩) ∨
        (m.pool.take.1 = none ∧ ∃ place entry, m.ring.entries[place]? = some entry ∧
          entry.frame = frame ∧ next.ring.hand = place ∧
          next.ring.entries = m.ring.entries.eraseIdx place ++ [⟨frame, owner, true⟩]))
      fun _ _ => False := by
  unfold allocateFrame
  apply ends_withLock_of
  unfold obtainFrame takeFromPool
  simp only [ends_bind, ends_get, ends_modify, ends_pure]
  rw [show (m.locked .ring).pool = m.pool from rfl]
  cases htaken : m.pool.take.1 with
  | some frame => exact Or.inl ⟨rfl, rfl⟩
  | none =>
      unfold evict
      rw [ends_bind, ends_get]
      refine (ring_sweep _).mono ?_ fun _ _ hfalse => hfalse
      intro frame next hnext
      rcases hnext with ⟨place, entry, hentry, hframe, hentries, hhand⟩
      refine Or.inr ⟨rfl, place, entry, hentry, hframe, hhand, ?_⟩
      exact congrArg (· ++ [⟨frame, owner, true⟩]) hentries

theorem ring_freeFrame (frame : Nat) :
    Ends (freeFrame frame) m Anyhow
      (fun _ next => match m.ring.position? frame with
        | some place => next.ring = m.ring.removeAt place
        | none => next.ring = m.ring)
      fun _ _ => False := by
  have hreturned : ∀ {next : Machine}, Ends (returnToPool frame) next Anyhow
      (fun _ last => last.ring = next.ring) fun _ _ => False := by
    intro next
    unfold returnToPool
    rw [ends_bind, ends_get, ends_bind]
    rcases next.pool.giveBack frame with a | pool
    · trivial
    · exact rfl
  unfold freeFrame
  rw [ends_bind]
  apply ends_withLock_of
  unfold unlistFrame
  rw [ends_bind, ends_get, show (m.locked .ring).ring = m.ring from rfl]
  cases m.ring.position? frame with
  | some place =>
      rw [ends_modifyRing]
      exact hreturned
  | none =>
      rw [ends_report]
      exact hreturned

/-! ## The next candidate -/

/-- A frame of the pool leaves the next candidate alone, unless the hand stands at the end. A frame
that was taken from an entry leaves the follower of that entry as the next candidate, unless the
entry was the last one. In both exceptions the new entry is the next candidate. A frame that is
taken back leaves the next candidate alone or, if it was the candidate's, leaves the follower. -/
theorem next_candidate (m : Machine) :
    (∀ owner frame next, allocateFrame owner m = .ok frame next →
      (m.pool.take.1.isSome = true → m.ring.entries ≠ [] →
        next.ring.next? = if m.ring.hand = m.ring.entries.length
          then some ⟨frame, owner, true⟩ else m.ring.next?) ∧
      (m.pool.take.1 = none → ∃ place entry, m.ring.entries[place]? = some entry ∧
        entry.frame = frame ∧
        next.ring.entries = m.ring.entries.eraseIdx place ++ [⟨frame, owner, true⟩] ∧
        (1 < m.ring.entries.length →
          next.ring.next? = if place + 1 = m.ring.entries.length
            then some ⟨frame, owner, true⟩ else m.ring.follower? place))) ∧
    ∀ frame next, freeFrame frame m = .ok () next →
      match m.ring.position? frame with
      | some place => 1 < m.ring.entries.length →
          next.ring.next? =
            if place = m.ring.candidate then m.ring.follower? place else m.ring.next?
      | none => next.ring = m.ring := by
  constructor
  · intro owner frame next hgiven
    rcases (ring_allocateFrame owner).of_ok hgiven with ⟨htaken, hring⟩ |
      ⟨hnone, place, entry, hentry, hframe, hhand, hentries⟩
    · constructor
      · intro _ hsome
        rw [hring]
        exact FrameRing.next?_push _ hsome
      · intro hnone
        rw [htaken] at hnone
        contradiction
    · constructor
      · intro hsome
        rw [hnone] at hsome
        contradiction
      · intro _
        refine ⟨place, entry, hentry, hframe, hentries, ?_⟩
        intro _
        exact FrameRing.next?_replaced (List.getElem?_eq_some_iff.mp hentry).1 hhand hentries
  · intro frame next hfreed
    have hring := (ring_freeFrame frame).of_ok hfreed
    cases hplace : m.ring.position? frame with
    | none =>
        rw [hplace] at hring
        exact hring
    | some place =>
        rw [hplace] at hring
        intro hmany
        rcases FrameRing.entry_of_position? hplace with ⟨entry, hentry, _⟩
        rw [show next.ring = m.ring.removeAt place from hring]
        exact FrameRing.next?_removeAt (List.getElem?_eq_some_iff.mp hentry).1 hmany

def twoPages : List Operation :=
  [.start (.always true), .allocate 0 .anon 0x1000 true none, .allocate 0 .anon 0x1010 true none,
    .claim 0 0x1000, .claim 0 0x1010]

def handsOut (m : Machine) (owner : Owner) (check : Nat → FrameRing → Bool) : Bool :=
  match allocateFrame owner m with
  | .ok frame next => check frame next.ring
  | .error _ _ => false

theorem exists_of_handsOut {owner : Owner} {check : Nat → FrameRing → Bool}
    (h : m.handsOut owner check = true) :
    ∃ frame next, allocateFrame owner m = .ok frame next ∧ check frame next.ring = true := by
  unfold handsOut at h
  split at h
  · rename_i frame next hgiven
    exact ⟨frame, next, hgiven, h⟩
  · contradiction

/-- The first page gives up its frame, and the second one is the next candidate. -/
theorem candidate_after_eviction : ∃ (m : Machine) (owner : Owner) (frame : Nat) (next : Machine),
    m.Reachable ∧ allocateFrame owner m = .ok frame next ∧ m.pool.take.1 = none ∧
      1 < m.ring.entries.length ∧ next.ring.next? = m.ring.follower? 0 := by
  have hrun := Reachable.of_run smallConfig (smallHardware (some (.blank 8 16)) []) twoPages
    (fun m => m.pool.take.1.isNone && m.ring.entries.length == 2 &&
      m.handsOut ⟨0, 0x1020, 2⟩ fun frame _ => frame == 0 &&
        m.ring.entries.map RingEntry.frame == [0, 1]) (by decide +kernel)
  rcases hrun with ⟨m, hm, hcheck⟩
  simp only [Bool.and_eq_true, beq_iff_eq, Option.isNone_iff_eq_none] at hcheck
  rcases hcheck with ⟨⟨hnone, hlength⟩, hgiven⟩
  rcases exists_of_handsOut hgiven with ⟨frame, next, hgiven, hframes⟩
  simp only [Bool.and_eq_true, beq_iff_eq] at hframes
  rcases hframes with ⟨rfl, hframes⟩
  have hmany : 1 < m.ring.entries.length := by
    rw [hlength]
    decide
  rcases ((next_candidate m).1 _ _ next hgiven).2 hnone with
    ⟨place, entry, hentry, hframe, -, hnext⟩
  have hplace : (m.ring.entries.map RingEntry.frame)[place]? = some 0 := by
    rw [List.getElem?_map, hentry, Option.map_some, hframe]
  rw [hframes] at hplace
  have hfirst : place = 0 := by
    rcases place with _ | _ | place
    · rfl
    · contradiction
    · contradiction
  subst hfirst
  refine ⟨m, _, _, next, hm, hgiven, hnone, hmany, ?_⟩
  rw [hnext hmany, if_neg (by rw [hlength]; decide)]

/-- The first page was accessed, so the second one gives up its frame. The hand stands at the end
then, and the page that is to get the frame is the next candidate before the first one. -/
theorem not_always_follower : ¬∀ (m : Machine) owner frame next place entry, m.Reachable →
    m.pool.take.1 = none → 1 < m.ring.entries.length → allocateFrame owner m = .ok frame next →
    m.ring.entries[place]? = some entry → entry.frame = frame →
    next.ring.next? = m.ring.follower? place := by
  intro hall
  have hrun := Reachable.of_run smallConfig (smallHardware (some (.blank 8 16)) [])
    (twoPages ++ [.read 0 0x1000 1])
    (fun m => m.pool.take.1.isNone && decide (1 < m.ring.entries.length) &&
      m.handsOut ⟨0, 0x1020, 2⟩ fun frame ring =>
        (m.ring.entries[1]?).any (fun entry => entry.frame == frame) &&
          ring.next? != m.ring.follower? 1) (by decide +kernel)
  rcases hrun with ⟨m, hm, hcheck⟩
  simp only [Bool.and_eq_true, decide_eq_true_eq, Option.isNone_iff_eq_none] at hcheck
  rcases hcheck with ⟨⟨hnone, hmany⟩, hgiven⟩
  rcases exists_of_handsOut hgiven with ⟨frame, next, hgiven, hother⟩
  rw [Bool.and_eq_true, bne_iff_ne] at hother
  rcases (Option.any_eq_true ..).mp hother.1 with ⟨entry, hentry, hframe⟩
  exact hother.2 (hall m _ frame next 1 entry hm hnone hmany hgiven hentry (beq_iff_eq.mp hframe))

end Machine
end DemandPaging
