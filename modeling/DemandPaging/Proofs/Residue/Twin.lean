import DemandPaging.Proofs.Machine.Sound
import DemandPaging.Proofs.Residue.Blind

/-!
# Pools that differ in hidden bytes

Two pools are twins when they differ only in the bytes of free frames and of frames that are being
filled. A routine that cannot tell twins apart ends alike with both and leaves twins behind.
-/

namespace DemandPaging
namespace FramePool

variable {p q : FramePool} {hidden : List Nat} {f : Nat}

/-! ## Twins -/

/-- The pools hand out the same frames at the same requests, and a frame that is neither free nor
hidden has the same bytes in both. -/
structure Twin (hidden : List Nat) (p q : FramePool) : Prop where
  pageBytes : q.pageBytes = p.pageBytes
  free : q.free = p.free
  granting : q.granting = p.granting
  count : q.frames.length = p.frames.length
  lengths : ∀ f, (q.content f).length = (p.content f).length
  contents : ∀ f, f ∉ p.free → f ∉ hidden → q.content f = p.content f

namespace Twin

theorem mono {hidden' : List Nat} (h : Twin hidden p q) (hsub : hidden ⊆ hidden') :
    Twin hidden' p q :=
  { h with contents := fun f hfree hf => h.contents f hfree fun hin => hf (hsub hin) }

theorem symm (h : Twin hidden p q) : Twin hidden q p where
  pageBytes := h.pageBytes.symm
  free := h.free.symm
  granting := h.granting.symm
  count := h.count.symm
  lengths f := (h.lengths f).symm
  contents f hfree hf := (h.contents f (h.free ▸ hfree) hf).symm

theorem trans {r : FramePool} (h : Twin hidden p q) (h' : Twin hidden q r) : Twin hidden p r where
  pageBytes := h'.pageBytes.trans h.pageBytes
  free := h'.free.trans h.free
  granting := h'.granting.trans h.granting
  count := h'.count.trans h.count
  lengths f := (h'.lengths f).trans (h.lengths f)
  contents f hfree hf := (h'.contents f (h.free.symm ▸ hfree) hf).trans (h.contents f hfree hf)

theorem hide (h : Twin [] p q) (hidden : List Nat) : Twin hidden p q :=
  h.mono (List.nil_subset hidden)

theorem reveal (h : Twin (f :: hidden) p q) (hf : q.content f = p.content f) :
    Twin hidden p q where
  pageBytes := h.pageBytes
  free := h.free
  granting := h.granting
  count := h.count
  lengths := h.lengths
  contents g hfree hg := by
    by_cases hgf : g = f
    · rw [hgf]
      exact hf
    · exact h.contents g hfree (List.not_mem_cons_of_ne_of_not_mem hgf hg)

theorem overwrite (h : Twin hidden p q) (hf : f ∈ hidden) (start : Nat) (data data' : Bytes) :
    Twin hidden (p.write f start data) (q.write f start data') where
  pageBytes := h.pageBytes
  free := h.free
  granting := h.granting
  count := by
    rw [FramePool.write, FramePool.write, length_frames_setContent, length_frames_setContent]
    exact h.count
  lengths g := by
    rw [content_write, content_write]
    split
    · rw [Bytes.length_overlay, Bytes.length_overlay]
      exact h.lengths f
    · exact h.lengths g
  contents g hfree hg := by
    have hne : g ≠ f := fun heq => hg (heq ▸ hf)
    rw [content_write, content_write, if_neg hne, if_neg hne]
    exact h.contents g hfree hg

theorem write (h : Twin hidden p q) (f start : Nat) (data : Bytes) :
    Twin hidden (p.write f start data) (q.write f start data) where
  pageBytes := h.pageBytes
  free := h.free
  granting := h.granting
  count := by
    rw [FramePool.write, FramePool.write, length_frames_setContent, length_frames_setContent]
    exact h.count
  lengths := ((h.mono (List.subset_cons_self f hidden)).overwrite List.mem_cons_self start data
    data).lengths
  contents g hfree hg := by
    rw [content_write, content_write]
    split
    · rename_i heq
      rw [h.contents f (heq ▸ hfree) (heq ▸ hg)]
    · exact h.contents g hfree hg

theorem take (h : Twin [] p q) :
    q.take.1 = p.take.1 ∧ Twin p.take.1.toList p.take.2 q.take.2 := by
  by_cases hnone : p.GivesNone
  · have hnone' : q.GivesNone := hnone.imp (h.granting ▸ ·) h.free.trans
    rw [take_of_givesNone hnone, take_of_givesNone hnone']
    exact ⟨rfl, { h with granting := congrArg Schedule.advance h.granting }⟩
  · rcases take_of_gives hnone with ⟨f, rest, hfree, htake⟩
    have hnone' : ¬q.GivesNone := fun hq => hnone (hq.imp (h.granting ▸ ·) h.free.symm.trans)
    rcases take_of_gives hnone' with ⟨f', rest', hfree', htake'⟩
    cases hfree.symm.trans (h.free.symm.trans hfree')
    rw [htake, htake']
    refine ⟨rfl, h.pageBytes, rfl, congrArg Schedule.advance h.granting, ?_, fun g => ?_,
      fun g hrest hg => ?_⟩
    · exact (length_frames_setContent q f _).trans
        (h.count.trans (length_frames_setContent p f _).symm)
    · refine (length_content_setContent q f g _).trans
        (Eq.trans ?_ (length_content_setContent p f g _).symm)
      rw [h.count, h.lengths, h.pageBytes, List.length_map, List.length_map]
    · have hne : g ≠ f := fun heq => hg (heq ▸ List.mem_singleton_self f)
      refine (content_setContent hne).trans
        (Eq.trans (h.contents g ?_ List.not_mem_nil) (content_setContent hne).symm)
      rw [hfree]
      exact List.not_mem_cons_of_ne_of_not_mem hne hrest

theorem giveBack (h : Twin [f] p q) :
    Twin [] { p with free := f :: p.free } { q with free := f :: q.free } where
  pageBytes := h.pageBytes
  free := congrArg (f :: ·) h.free
  granting := h.granting
  count := h.count
  lengths := h.lengths
  contents g hfree _ := by
    have hne : g ∉ [f] := fun hg => hfree (List.mem_singleton.mp hg ▸ List.mem_cons_self)
    exact h.contents g (fun hg => hfree (List.mem_cons_of_mem f hg)) hne

end Twin
end FramePool

/-! ## Routines that cannot tell twins apart -/

namespace Routine

open FramePool

variable {α : Type} {r : Routine α} {m : Machine} {q : FramePool} {hidden refused : List Nat}

/-- With either pool the routine ends alike. The pools are twins afterwards, with the hidden
frames that are named for a result and for a failure. -/
def Conceals (r : Routine α) (m : Machine) (q : FramePool) (hidden refused : List Nat) : Prop :=
  Agree r r m q (fun _ next q' => Twin hidden next.pool q') fun _ next q' =>
    Twin refused next.pool q'

theorem Ignores.conceals (h : Ignores r m q) (htwin : Twin hidden m.pool q) :
    Conceals r m q hidden hidden := by
  refine h.mono ?_ ?_
  · rintro a next _ ⟨hpool, rfl⟩
    rw [hpool]
    exact htwin
  · rintro e next _ ⟨hpool, rfl⟩
    rw [hpool]
    exact htwin

theorem Blind.conceals (h : Blind r) (htwin : Twin hidden m.pool q) :
    Conceals r m q hidden hidden :=
  (h m q).conceals htwin

/-- With either pool the routine ends alike. It writes to no frame and leaves nothing hidden. -/
def Spares (r : Routine α) (m : Machine) (q : FramePool) : Prop :=
  Agree r r m q (fun _ next q' => Twin [] next.pool q' ∧ next.pool.frames = m.pool.frames ∧
      q'.frames = q.frames)
    fun _ next q' => Twin [] next.pool q' ∧ next.pool.frames = m.pool.frames ∧
      q'.frames = q.frames

theorem Ignores.spares (h : Ignores r m q) (htwin : Twin [] m.pool q) : Spares r m q := by
  refine h.mono ?_ ?_
  · rintro a next _ ⟨hpool, rfl⟩
    rw [hpool]
    exact ⟨htwin, rfl, rfl⟩
  · rintro e next _ ⟨hpool, rfl⟩
    rw [hpool]
    exact ⟨htwin, rfl, rfl⟩

namespace Spares

theorem conceals (h : Spares r m q) : Conceals r m q [] [] :=
  Agree.mono h (fun _ _ _ hdone => hdone.1) fun _ _ _ hfailed => hfailed.1

theorem bind {β : Type} {f : α → Routine β} (h : Spares r m q)
    (hf : ∀ a next q', Twin [] next.pool q' → next.pool.frames = m.pool.frames →
      q'.frames = q.frames → Spares (f a) next q') :
    Spares (r >>= f) m q := by
  refine Agree.bind h ?_
  rintro a next q' ⟨htwin, hframes, hframes'⟩
  refine Agree.mono (hf a next q' htwin hframes hframes') ?_ ?_
  · rintro b last q'' ⟨htwin, hlast, hlast'⟩
    exact ⟨htwin, hlast.trans hframes, hlast'.trans hframes'⟩
  · rintro e last q'' ⟨htwin, hlast, hlast'⟩
    exact ⟨htwin, hlast.trans hframes, hlast'.trans hframes'⟩

theorem withLock {lock : Lock} (h : Spares r (m.locked lock) q) :
    Spares (Routine.withLock lock r) m q :=
  Agree.withLock h

end Spares

namespace Conceals

theorem bind {β : Type} {f : α → Routine β} {hidden' : List Nat}
    (h : Conceals r m q hidden refused)
    (hf : ∀ a next q', Twin hidden next.pool q' → Conceals (f a) next q' hidden' refused) :
    Conceals (r >>= f) m q hidden' refused :=
  Agree.bind h hf

theorem bind_ends {β : Type} {f : α → Routine β} {hidden' : List Nat}
    {done : α → Machine → Prop} {failed : PagingError → Machine → Prop}
    (h : Conceals r m q hidden refused) (hends : Ends r m Anyhow done failed)
    (hf : ∀ a next q', Twin hidden next.pool q' → done a next →
      Conceals (f a) next q' hidden' refused) :
    Conceals (r >>= f) m q hidden' refused :=
  Agree.bind_ends h hends hf

theorem after {β : Type} {f : α → Routine β} {hidden' : List Nat} {done : α → Machine → Prop}
    (h : Blind r) (hends : Ends r m Anyhow done fun _ _ => False) (htwin : Twin hidden m.pool q)
    (hf : ∀ a next, Twin hidden next.pool q → done a next →
      Conceals (f a) next q hidden' refused) :
    Conceals (r >>= f) m q hidden' refused := by
  refine Agree.bind ((Agree.and_ends (h m q) hends).mono (fun _ _ _ hdone => hdone)
    fun _ _ _ hfalse => hfalse.2.elim) ?_
  rintro a next _ ⟨⟨hpool, rfl⟩, hdone⟩
  exact hf a next (hpool ▸ htwin) hdone

theorem attempt (h : Conceals r m q hidden hidden) :
    Conceals (Routine.attempt r) m q hidden refused :=
  Agree.attempt h

theorem withLock {lock : Lock} (h : Conceals r (m.locked lock) q hidden refused) :
    Conceals (Routine.withLock lock r) m q hidden refused :=
  Agree.withLock h

theorem when {condition : Bool} {body : Routine Unit}
    (h : condition = true → Conceals body m q hidden refused)
    (hskipped : condition = false → Twin hidden m.pool q) :
    Conceals (Routine.when condition body) m q hidden refused :=
  Agree.when h hskipped

end Conceals
end Routine

namespace Machine

open FramePool

variable {m : Machine} {q : FramePool} {hidden : List Nat} {mem : FlatMemory} {h : InHand}

theorem withPool_layout (m : Machine) (q : FramePool) : (m.withPool q).layout = m.layout :=
  rfl

/-- A sound machine stays sound with the twin of its pool, as long as it hides only frames that
are being filled. -/
theorem Sound.withTwin (k : m.Sound h mem) (htwin : Twin hidden m.pool q)
    (hhidden : hidden ⊆ h.filling) : (m.withPool q).Sound h mem where
  held := k.held
  pool := htwin.pageBytes.trans k.pool
  frameBytes content hcontent := by
    rcases List.mem_iff_getElem.mp hcontent with ⟨f, hf, rfl⟩
    have hlt : f < m.pool.frames.length := htwin.count ▸ hf
    have hlength := htwin.lengths f
    rw [k.length_content hlt, FramePool.content, List.getD_eq_getElem q.frames [] hf] at hlength
    exact hlength
  swap := k.swap
  units := k.units
  torn := k.torn
  closed := k.closed
  placed := k.placed
  frames := by
    show FramesKept m.page? m.ring.entries q.free h.loose h.stray h.filling q.frames.length
    rw [htwin.free, htwin.count]
    exact k.frames
  slots := k.slots
  links := k.links
  contents p va page hpage := by
    have hholds := k.contents p va page hpage
    refine { hholds with inFrame := fun f hanon hframe => ?_ }
    by_cases hf : f ∈ h.filling
    · exact Or.inl hf
    · refine Or.inr ?_
      have hsame : q.content f = m.pool.content f :=
        htwin.contents f (k.not_free hpage hframe) fun hin => hf (hhidden hin)
      exact hsame.trans ((hholds.inFrame f hanon hframe).resolve_left hf)

end Machine
end DemandPaging
