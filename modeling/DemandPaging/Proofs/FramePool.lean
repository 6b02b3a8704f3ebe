import DemandPaging.FramePool

/-!
# The content of frames

How the operations on a pool change its free frames and the content of its frames.
-/

namespace DemandPaging
namespace FramePool

variable {p : FramePool}

theorem content_setContent {f g : Nat} {content : Bytes} (h : g ≠ f) :
    (p.setContent f content).content g = p.content g := by
  simp only [FramePool.content, setContent, List.getD_eq_getElem?_getD]
  rw [List.getElem?_set_ne (Ne.symm h)]

theorem content_setContent_self {f : Nat} {content : Bytes} (h : f < p.frames.length) :
    (p.setContent f content).content f = content := by
  simp [FramePool.content, setContent, List.getD_eq_getElem?_getD, h]

theorem content_mem {f : Nat} (h : f < p.frames.length) : p.content f ∈ p.frames := by
  rw [FramePool.content, List.getD_eq_getElem?_getD, List.getElem?_eq_getElem h]
  exact List.getElem_mem h

@[simp]
theorem length_frames_setContent (p : FramePool) (f : Nat) (content : Bytes) :
    (p.setContent f content).frames.length = p.frames.length :=
  List.length_set

theorem forall_length_setContent {n f : Nat} {content : Bytes}
    (h : ∀ c ∈ p.frames, c.length = n) (hcontent : f < p.frames.length → content.length = n) :
    ∀ c ∈ (p.setContent f content).frames, c.length = n := by
  intro c hc
  by_cases hf : f < p.frames.length
  · rcases List.mem_or_eq_of_mem_set hc with hold | rfl
    · exact h c hold
    · exact hcontent hf
  · have hsame : (p.setContent f content).frames = p.frames :=
      List.set_eq_of_length_le (Nat.le_of_not_lt hf)
    rw [hsame] at hc
    exact h c hc

theorem content_of_le {f : Nat} (h : p.frames.length ≤ f) : p.content f = [] := by
  rw [FramePool.content, List.getD_eq_getElem?_getD, List.getElem?_eq_none h]
  rfl

theorem content_write (p : FramePool) (f start : Nat) (data : Bytes) (g : Nat) :
    (p.write f start data).content g =
      if g = f then Bytes.overlay (p.content f) start data else p.content g := by
  split
  · rename_i heq
    subst heq
    by_cases hg : g < p.frames.length
    · exact content_setContent_self hg
    · -- A frame that does not exist has no bytes, and nothing can be laid over them.
      have hle := Nat.le_of_not_lt hg
      have hle' : (p.write g start data).frames.length ≤ g := by
        rw [write, length_frames_setContent]
        exact hle
      rw [content_of_le hle, content_of_le hle']
      exact (List.length_eq_zero_iff.mp (Bytes.length_overlay [] start data)).symm
  · rename_i hne
    exact content_setContent hne

theorem content_write_self (p : FramePool) (f start : Nat) (data : Bytes) :
    (p.write f start data).content f = Bytes.overlay (p.content f) start data :=
  (content_write p f start data f).trans (if_pos rfl)

/-- What is read of the part of a frame that was filled with one byte depends on no other. -/
theorem take_content_write_filled (p : FramePool) (f n : Nat) (b : UInt8) :
    ((p.write f 0 (Bytes.filled n b)).content f).take n =
      Bytes.filled (min n (p.content f).length) b := by
  rw [content_write_self]
  exact Bytes.take_overlay_filled _ n b

theorem length_content_setContent (p : FramePool) (f g : Nat) (content : Bytes) :
    ((p.setContent f content).content g).length =
      if g = f ∧ f < p.frames.length then content.length else (p.content g).length := by
  split
  · rename_i h
    rw [h.1, content_setContent_self h.2]
  · rename_i h
    by_cases hg : g = f
    · have hout : p.frames.length ≤ f := Nat.le_of_not_lt fun hlt => h ⟨hg, hlt⟩
      rw [FramePool.content, setContent, List.set_eq_of_length_le hout]
      rfl
    · rw [content_setContent hg]

def GivesNone (p : FramePool) : Prop :=
  p.granting.peek = false ∨ p.free = []

theorem take_of_givesNone (h : p.GivesNone) :
    p.take = (none, { p with granting := p.granting.advance }) := by
  unfold take
  rcases h with hrefused | hempty
  · rw [hrefused]
    rfl
  · rw [hempty]
    exact ite_self _

theorem take_of_gives (h : ¬p.GivesNone) :
    ∃ f rest, p.free = f :: rest ∧
      p.take = (some f, { p.setContent f ((List.range p.pageBytes).map (p.residue p.given)) with
        granting := p.granting.advance, free := rest, given := p.given + 1 }) := by
  have hgranted : p.granting.peek = true := Bool.of_not_eq_false fun hno => h (Or.inl hno)
  unfold take
  rw [if_pos hgranted]
  cases hfree : p.free with
  | nil => exact absurd (Or.inr hfree) h
  | cons f rest => exact ⟨f, rest, rfl, rfl⟩

theorem take_cases (p : FramePool) :
    p.take = (none, { p with granting := p.granting.advance }) ∨
      ∃ f rest content, p.free = f :: rest ∧ content.length = p.pageBytes ∧
        p.take = (some f, { p.setContent f content with
          granting := p.granting.advance, free := rest, given := p.given + 1 }) := by
  by_cases hnone : p.GivesNone
  · exact Or.inl (take_of_givesNone hnone)
  · rcases take_of_gives hnone with ⟨f, rest, hfree, htake⟩
    refine Or.inr ⟨f, rest, _, hfree, ?_, htake⟩
    rw [List.length_map, List.length_range]

theorem givesNone_of_take (h : p.take.1 = none) : p.GivesNone := by
  by_cases hgives : p.GivesNone
  · exact hgives
  · rcases take_of_gives hgives with ⟨f, rest, _, htake⟩
    rw [htake] at h
    contradiction

theorem giveBack_of_not_mem {f : Nat} (h : f ∉ p.free) :
    p.giveBack f = .ok { p with free := f :: p.free } :=
  if_neg h

end FramePool
end DemandPaging
