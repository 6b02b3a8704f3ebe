import DemandPaging.FrameRing
import Mathlib.Data.List.Nodup
import Mathlib.Data.List.Rotate

/-!
# The entries of a frame ring

How the operations on the ring change the frames that it lists. Removing an entry takes exactly
its frame away, and unpinning changes one mark; the place of an entry is found by its frame,
which is unambiguous as long as no frame is listed twice.
-/

namespace DemandPaging

theorem perm_cons_eraseIdx {α : Type} {l : List α} {i : Nat} {a : α} (h : l[i]? = some a) :
    l.Perm (a :: l.eraseIdx i) := by
  induction l generalizing i with
  | nil => simp at h
  | cons b rest ih =>
      cases i with
      | zero =>
          simp only [List.getElem?_cons_zero, Option.some.injEq] at h
          subst h
          exact List.Perm.refl _
      | succ i =>
          rw [List.getElem?_cons_succ] at h
          exact ((ih h).cons b).trans (List.Perm.swap a b _)

namespace FrameRing

def frames (r : FrameRing) : List Nat :=
  r.entries.map RingEntry.frame

variable {r : FrameRing}

theorem mem_frames {f : Nat} : f ∈ r.frames ↔ ∃ e ∈ r.entries, e.frame = f := by
  rw [frames, List.mem_map]

@[simp]
theorem mem_entries_push {r : FrameRing} {e d : RingEntry} :
    d ∈ (r.push e).entries ↔ d ∈ r.entries ∨ d = e := by
  simp [push]

/-! ## Entries by their frame -/

theorem eq_of_frame_eq (hnodup : r.frames.Nodup) {d e : RingEntry} (hd : d ∈ r.entries)
    (he : e ∈ r.entries) (h : d.frame = e.frame) : d = e :=
  List.inj_on_of_nodup_map hnodup hd he h

theorem entry_of_position? {f place : Nat} (h : r.position? f = some place) :
    ∃ e, r.entries[place]? = some e ∧ e.frame = f := by
  rw [position?, List.findIdx?_eq_some_iff_getElem] at h
  rcases h with ⟨hlt, hframe, _⟩
  exact ⟨r.entries[place], List.getElem?_eq_getElem hlt, beq_iff_eq.mp hframe⟩

theorem position?_eq_none_iff {f : Nat} : r.position? f = none ↔ f ∉ r.frames := by
  rw [position?, List.findIdx?_eq_none_iff, mem_frames]
  simp

/-! ## Removal -/

theorem frames_perm_removeAt {place : Nat} {e : RingEntry} (h : r.entries[place]? = some e) :
    r.frames.Perm (e.frame :: (r.removeAt place).frames) :=
  (perm_cons_eraseIdx h).map RingEntry.frame

theorem mem_entries_removeAt (hnodup : r.frames.Nodup) {place : Nat} {e d : RingEntry}
    (h : r.entries[place]? = some e) :
    d ∈ (r.removeAt place).entries ↔ d ∈ r.entries ∧ d.frame ≠ e.frame := by
  have hperm := perm_cons_eraseIdx h
  have hframes : (e.frame :: (r.removeAt place).frames).Nodup :=
    (frames_perm_removeAt h).nodup_iff.mp hnodup
  have hmem : d ∈ r.entries ↔ d = e ∨ d ∈ (r.removeAt place).entries := by
    rw [hperm.mem_iff, List.mem_cons]
    rfl
  constructor
  · intro hd
    refine ⟨hmem.mpr (Or.inr hd), ?_⟩
    intro heq
    apply (List.nodup_cons.mp hframes).1
    rw [← heq]
    exact mem_frames.mpr ⟨d, hd, rfl⟩
  · intro hd
    rcases hmem.mp hd.1 with rfl | hrest
    · exact absurd rfl hd.2
    · exact hrest

theorem entries_removeAt (hnodup : r.frames.Nodup) {place : Nat} {e : RingEntry}
    (h : r.entries[place]? = some e) :
    (r.removeAt place).entries = r.entries.filter fun d => d.frame != e.frame := by
  have hrest : ∀ d ∈ (r.removeAt place).entries, (d.frame != e.frame) = true := by
    intro d hd
    exact bne_iff_ne.mpr ((mem_entries_removeAt hnodup h).mp hd).2
  have hlt := (List.getElem?_eq_some_iff.mp h).1
  have hentry : r.entries.drop place = e :: r.entries.drop (place + 1) := by
    rw [List.drop_eq_getElem_cons hlt, (List.getElem?_eq_some_iff.mp h).2]
  calc (r.removeAt place).entries
      = (r.removeAt place).entries.filter fun d => d.frame != e.frame :=
        (List.filter_eq_self.mpr hrest).symm
    _ = (r.entries.take place ++ r.entries.drop (place + 1)).filter fun d =>
          d.frame != e.frame := by rw [removeAt, List.eraseIdx_eq_take_drop_succ]
    _ = (r.entries.take place ++ e :: r.entries.drop (place + 1)).filter fun d =>
          d.frame != e.frame := by
        rw [List.filter_append, List.filter_append, List.filter_cons_of_neg (by simp)]
    _ = r.entries.filter fun d => d.frame != e.frame := by
        rw [← hentry, List.take_append_drop]

/-! ## Unpinning -/

theorem entries_unpin (hnodup : r.frames.Nodup) (f : Nat) :
    (r.unpin f).entries =
      r.entries.map fun e => if e.frame = f then { e with pinned := false } else e := by
  unfold unpin
  split
  · rename_i place hplace
    rcases entry_of_position? hplace with ⟨e, he, hef⟩
    have hlt : place < r.frames.length := by
      rw [frames, List.length_map]
      exact (List.getElem?_eq_some_iff.mp he).1
    apply List.ext_getElem?
    intro i
    rw [List.getElem?_modify, List.getElem?_map]
    cases hc : r.entries[i]? with
    | none => rfl
    | some c =>
        have hkey : place = i ↔ c.frame = f := by
          constructor
          · intro hi
            subst hi
            rw [he] at hc
            cases hc
            exact hef
          · intro hcf
            apply (List.getElem?_inj hlt hnodup).mp
            simp only [frames, List.getElem?_map, he, hc, Option.map_some, hef, hcf]
        by_cases hi : place = i
        · simp [hi, hkey.mp hi]
        · have hne : ¬c.frame = f := fun h => hi (hkey.mpr h)
          simp [hi, hne]
  · rename_i hnone
    have hf := position?_eq_none_iff.mp hnone
    symm
    refine (List.map_congr_left ?_).trans (List.map_id _)
    intro e he
    have hne : ¬e.frame = f := by
      intro hef
      exact hf (mem_frames.mpr ⟨e, he, hef⟩)
    exact if_neg hne

theorem frames_unpin (hnodup : r.frames.Nodup) (f : Nat) : (r.unpin f).frames = r.frames := by
  rw [frames, entries_unpin hnodup, List.map_map]
  apply List.map_congr_left
  intro e _
  simp only [Function.comp_apply]
  split <;> rfl

/-! ## The next candidate -/

/-- The entry under the hand, with the hand at the end meaning the first one. -/
def next? (r : FrameRing) : Option RingEntry :=
  r.entries[r.candidate]?

def follower? (r : FrameRing) (place : Nat) : Option RingEntry :=
  r.entries[(place + 1) % r.entries.length]?

theorem candidate_of_lt (h : r.hand < r.entries.length) : r.candidate = r.hand :=
  if_neg (Nat.not_le.mpr h)

theorem candidate_of_le (h : r.entries.length ≤ r.hand) : r.candidate = 0 :=
  if_pos h

theorem follower?_of_lt {place : Nat} (h : place + 1 < r.entries.length) :
    r.follower? place = r.entries[place + 1]? := by
  rw [follower?, Nat.mod_eq_of_lt h]

theorem follower?_last {place : Nat} (h : place + 1 = r.entries.length) :
    r.follower? place = r.entries[0]? := by
  rw [follower?, h, Nat.mod_self]

/-- A new entry stands at the end. A hand that stands there as well points to it. -/
theorem next?_push (e : RingEntry) (hsome : r.entries ≠ []) :
    (r.push e).next? = if r.hand = r.entries.length then some e else r.next? := by
  have hlength : (r.push e).entries.length = r.entries.length + 1 := by
    simp [push]
  have hpos : 0 < r.entries.length := List.length_pos_iff.mpr hsome
  unfold next?
  rcases Nat.lt_trichotomy r.hand r.entries.length with hlt | heq | hgt
  · rw [if_neg (Nat.ne_of_lt hlt), candidate_of_lt hlt,
      candidate_of_lt (hlength ▸ Nat.lt_succ_of_lt hlt)]
    exact List.getElem?_append_left hlt
  · have hhand : (r.push e).hand < (r.push e).entries.length := by
      rw [hlength]
      exact Nat.lt_succ_of_le (Nat.le_of_eq heq)
    rw [if_pos heq, candidate_of_lt hhand, show (r.push e).hand = r.hand from rfl, heq]
    exact List.getElem?_concat_length
  · rw [if_neg (Nat.ne_of_gt hgt), candidate_of_le (Nat.le_of_lt hgt),
      candidate_of_le (hlength ▸ hgt)]
    exact List.getElem?_append_left hpos

theorem candidate_removeAt {place : Nat} (hlt : place < r.entries.length)
    (hmany : 1 < r.entries.length) :
    (r.removeAt place).candidate =
      if place < r.candidate then r.candidate - 1
      else if r.candidate + 1 = r.entries.length then 0 else r.candidate := by
  have hlength : (r.removeAt place).entries.length = r.entries.length - 1 :=
    List.length_eraseIdx_of_lt hlt
  have hhand : (r.removeAt place).hand = if place < r.hand then r.hand - 1 else r.hand := rfl
  unfold candidate
  rw [hlength, hhand]
  split_ifs <;> omega

theorem next?_removeAt {place : Nat} (hlt : place < r.entries.length)
    (hmany : 1 < r.entries.length) :
    (r.removeAt place).next? = if place = r.candidate then r.follower? place else r.next? := by
  have hat : ∀ i, (r.removeAt place).entries[i]? =
      if i < place then r.entries[i]? else r.entries[i + 1]? := by
    intro i
    exact List.getElem?_eraseIdx
  have hbound : r.candidate < r.entries.length := by
    unfold candidate
    split <;> omega
  unfold next?
  rw [candidate_removeAt hlt hmany]
  rcases Nat.lt_trichotomy place r.candidate with hbefore | hunder | hbehind
  · rw [if_pos hbefore, hat, if_neg (by omega), if_neg (by omega), Nat.sub_add_cancel (by omega)]
  · rw [← hunder, if_neg (Nat.lt_irrefl place), if_pos rfl]
    by_cases hlast : place + 1 = r.entries.length
    · rw [if_pos hlast, hat, if_pos (by omega), follower?_last hlast]
    · rw [if_neg hlast, hat, if_neg (Nat.lt_irrefl place), follower?_of_lt (by omega)]
  · rw [if_neg (by omega), if_neg (by omega), hat, if_pos hbehind, if_neg (by omega)]

/-- An entry is replaced by one at the end, and the hand stays in its place. -/
theorem next?_replaced {s : FrameRing} {place : Nat} {e : RingEntry}
    (hlt : place < r.entries.length) (hhand : s.hand = place)
    (hentries : s.entries = r.entries.eraseIdx place ++ [e]) :
    s.next? = if place + 1 = r.entries.length then some e else r.follower? place := by
  have herased : (r.entries.eraseIdx place).length = r.entries.length - 1 :=
    List.length_eraseIdx_of_lt hlt
  have hlength : s.entries.length = r.entries.length := by
    rw [hentries, List.length_append, herased, List.length_singleton]
    omega
  rw [next?, candidate_of_lt (by rw [hlength, hhand]; exact hlt), hhand, hentries]
  by_cases hlast : place + 1 = r.entries.length
  · have hend : place = (r.entries.eraseIdx place).length := by
      rw [herased]
      omega
    rw [if_pos hlast, List.getElem?_append_right (Nat.le_of_eq hend.symm), ← hend, Nat.sub_self]
    rfl
  · rw [if_neg hlast, List.getElem?_append_left (by rw [herased]; omega), List.getElem?_eraseIdx,
      if_neg (Nat.lt_irrefl place), follower?_of_lt (by omega)]

/-! ## The ring from the hand on -/

/-- The entries in the order in which the hand meets them. -/
def ahead (r : FrameRing) : List RingEntry :=
  r.entries.rotate r.candidate

variable {e : RingEntry} {rest : List RingEntry}

theorem mem_ahead : e ∈ r.ahead ↔ e ∈ r.entries :=
  List.mem_rotate

theorem length_ahead (r : FrameRing) : r.ahead.length = r.entries.length :=
  List.length_rotate r.entries r.candidate

theorem nodup_ahead (h : r.frames.Nodup) : r.ahead.Nodup :=
  List.nodup_rotate.mpr (List.Nodup.of_map RingEntry.frame h)

theorem candidate_lt_of_ahead (h : r.ahead = e :: rest) : r.candidate < r.entries.length := by
  have hpos : 0 < r.entries.length := by
    rw [← length_ahead, h]
    exact Nat.succ_pos rest.length
  unfold candidate
  split
  · exact hpos
  · omega

theorem next?_of_ahead (h : r.ahead = e :: rest) : r.next? = some e := by
  rw [next?, ← List.head?_rotate (candidate_lt_of_ahead h), ← ahead, h]
  rfl

/-- The entry that the hand has passed is the last one that it will meet again. -/
theorem ahead_advance (h : r.ahead = e :: rest) : r.advance.ahead = rest ++ [e] := by
  have hrotated : r.entries.rotate (r.candidate + 1) = rest ++ [e] := by
    rw [← List.rotate_rotate, ← ahead, h, List.rotate_cons_succ, List.rotate_zero]
  rw [← hrotated, ahead, candidate]
  show r.entries.rotate (if r.entries.length ≤ r.candidate + 1 then 0 else r.candidate + 1) = _
  split
  · rename_i hend
    have hlt := candidate_lt_of_ahead h
    rw [show r.candidate + 1 = r.entries.length by omega, List.rotate_length, List.rotate_zero]
  · rfl

theorem entries_removeAt_candidate (hnodup : r.frames.Nodup) (h : r.next? = some e) :
    r.entries.eraseIdx r.candidate = r.entries.erase e := by
  rcases List.getElem?_eq_some_iff.mp h with ⟨hlt, rfl⟩
  exact ((List.Nodup.of_map RingEntry.frame hnodup).erase_getElem _ hlt).symm

end FrameRing
end DemandPaging
