import DemandPaging.Proofs.Machine.Content
import DemandPaging.Proofs.Residue.Twin

/-!
# Loading with two pools

What is found in a frame has no influence on how a load ends. A load that succeeds overwrites it:
the frame then has the content that the description of the page gives, in either pool.
-/

namespace DemandPaging

theorem Swap.Area.read_of_length_eq (a : Area) (slot : Nat) {buffer buffer' : Bytes}
    (h : buffer'.length = buffer.length) :
    ∃ bytes, a.read slot buffer' = ((a.read slot buffer).1, bytes, (a.read slot buffer).2.2) := by
  unfold read
  cases a.disk with
  | none => exact ⟨buffer', rfl⟩
  | some disk =>
      dsimp only
      rw [h]
      split
      · exact ⟨buffer', rfl⟩
      · exact ⟨_, rfl⟩

namespace Machine

open Routine FramePool

variable {α : Type} {m : Machine} {q : FramePool} {hidden : List Nat} {f : Nat}

/-! ## The pool -/

theorem agree_takeFromPool (h : Twin [] m.pool q) :
    Agree takeFromPool takeFromPool m q (fun frame next q' => Twin frame.toList next.pool q')
      fun _ next q' => Twin [] next.pool q' :=
  ⟨q.take.2, congrArg (EStateM.Result.ok · _) h.take.1, h.take.2⟩

theorem spares_returnToPool (h : Twin [f] m.pool q) : Spares (returnToPool f) m q := by
  refine Agree.get ?_
  show Agree (ofAbort (m.pool.giveBack f) >>= _) (ofAbort (q.giveBack f) >>= _) m q _ _
  by_cases hfree : f ∈ m.pool.free
  · have hfirst : m.pool.giveBack f = .error (.frameFreedTwice f) := if_pos hfree
    have hsecond : q.giveBack f = .error (.frameFreedTwice f) := if_pos (h.free.symm ▸ hfree)
    rw [hfirst, hsecond]
    exact .bind (.abort _) fun _ _ _ hnone => hnone
  · have hsecond : f ∉ q.free := h.free.symm ▸ hfree
    rw [giveBack_of_not_mem hfree, giveBack_of_not_mem hsecond]
    exact .change _ rfl ⟨h.giveBack, rfl, rfl⟩

theorem spares_freeFrame (h : Twin [f] m.pool q) : Spares (freeFrame f) m q := by
  have hends : Ends (withLock .ring (unlistFrame f)) m Anyhow (fun _ _ => True)
      fun _ _ => False := by
    refine ends_withLock_of ?_
    unfold unlistFrame
    rw [ends_bind, ends_get]
    cases (m.locked .ring).ring.position? f with
    | some place => trivial
    | none => trivial
  have hblind : Ignores (withLock .ring (unlistFrame f)) m q :=
    Blind.withLock (blind_unlistFrame f) m q
  refine Agree.bind ((Agree.and_ends hblind hends).mono (fun _ _ _ hdone => hdone.1)
    fun _ _ _ hfalse => hfalse.2.elim) ?_
  rintro _ unlisted _ ⟨hpool, rfl⟩
  refine (spares_returnToPool (hpool ▸ h)).mono ?_ ?_
  · rintro _ next q' ⟨htwin, hframes, hframes'⟩
    exact ⟨htwin, hframes.trans (congrArg FramePool.frames hpool), hframes'⟩
  · rintro _ next q' ⟨htwin, hframes, hframes'⟩
    exact ⟨htwin, hframes.trans (congrArg FramePool.frames hpool), hframes'⟩

theorem conceals_freeFrame (h : Twin [f] m.pool q) : Conceals (freeFrame f) m q [] [] :=
  (spares_freeFrame h).conceals

theorem conceals_writeFrame (start : Nat) (data : Bytes) (h : Twin hidden m.pool q) :
    Conceals (writeFrame f start data) m q hidden hidden :=
  Agree.change _ rfl (h.write f start data)

theorem agree_overwrite (hf : f ∈ hidden) (start : Nat) (data data' : Bytes)
    (h : Twin hidden m.pool q) :
    Agree (writeFrame f start data) (writeFrame f start data') m q
      (fun _ next q' => Twin hidden next.pool q') fun _ next q' => Twin hidden next.pool q' :=
  .change _ rfl (h.overwrite hf start data data')

theorem agree_readFrame {k k' : Bytes → Routine α} {length : Nat}
    {done : α → Machine → FramePool → Prop} {failed : PagingError → Machine → FramePool → Prop}
    (h : Agree (k ((m.pool.content f).take length)) (k' ((q.content f).take length)) m q done
      failed) :
    Agree (readFrame f length >>= k) (readFrame f length >>= k') m q done failed :=
  h

/-! ## Loading -/

theorem conceals_readExtent (x : FileExtent) (length : Nat) (h : Twin hidden m.pool q) :
    Conceals (readExtent x f length) m q hidden hidden := by
  refine ((Blind.require _ _).conceals h).bind fun _ _ _ h => ?_
  refine ((blind_readFile _ _ _).conceals h).bind fun data _ _ h => ?_
  refine ((Blind.orFail _ data).conceals h).bind fun bytes _ _ h => ?_
  refine (conceals_writeFrame 0 bytes h).bind fun _ _ _ h => ?_
  split
  · exact conceals_writeFrame _ _ h
  · exact (Blind.refuse _ _).conceals h

theorem conceals_runCustom (loader : CustomLoader) (length : Nat) (h : Twin hidden m.pool q) :
    Conceals (runCustom loader f length) m q hidden hidden := by
  -- Zeroed frames are read alike, so the loader is given the same bytes.
  have hread : ((q.write f 0 (Bytes.filled length 0)).content f).take length =
      ((m.pool.write f 0 (Bytes.filled length 0)).content f).take length := by
    rw [take_content_write_filled, take_content_write_filled, h.lengths]
  have hzeroed : Agree (writeFrame f 0 (Bytes.filled length 0))
      (writeFrame f 0 (Bytes.filled length 0)) m q
      (fun _ next q' => Twin hidden next.pool q' ∧
        (q'.content f).take length = (next.pool.content f).take length)
      fun _ next q' => Twin hidden next.pool q' :=
    .change _ rfl ⟨h.write f 0 _, hread⟩
  refine Agree.bind hzeroed ?_
  rintro _ zeroed q' ⟨h, hsame⟩
  refine agree_readFrame ?_
  rw [hsame]
  refine Agree.get ?_
  have hcounted : Conceals (modify fun n : Machine => n.countRun loader.counter) zeroed q' hidden
      hidden :=
    Agree.change q' rfl h
  refine hcounted.bind fun _ _ _ h => ?_
  refine (conceals_writeFrame 0 _ h).bind fun _ _ _ h => ?_
  split
  · exact (Blind.throw _).conceals h
  · exact (Blind.pure ()).conceals h

theorem conceals_readSlot (slot length : Nat) (hf : f ∈ hidden) (h : Twin hidden m.pool q) :
    Conceals (readSlot slot f length) m q hidden hidden := by
  refine agree_readFrame (Agree.get ?_)
  have hlength : ((q.content f).take length).length = ((m.pool.content f).take length).length := by
    rw [List.length_take, List.length_take, h.lengths]
  rcases m.swap.read_of_length_eq slot hlength with ⟨bytes, hsecond⟩
  rcases hfirst : m.swap.read slot ((m.pool.content f).take length) with ⟨result, data, area⟩
  dsimp only [withPool]
  rw [hsecond, hfirst]
  refine Agree.bind ((blind_setSwap area).conceals h) fun _ _ _ h => ?_
  refine Agree.bind (agree_overwrite hf 0 data bytes h) fun _ _ _ h => ?_
  cases result with
  | ok done => exact (Blind.pure ()).conceals h
  | error failure =>
      have hblind : Blind (do
          report? (Swap.Area.readReport? slot failure)
          throw failure.stop : Routine Unit) := .bind (.report? _) fun _ => .throw _
      exact hblind.conceals h

theorem conceals_loadOrigin (origin : Origin) (length : Nat) (h : Twin hidden m.pool q) :
    Conceals (loadOrigin origin f length) m q hidden hidden := by
  unfold loadOrigin
  split
  · exact conceals_writeFrame 0 _ h
  · exact conceals_readExtent _ length h
  · exact conceals_runCustom _ length h
  · exact conceals_readExtent _ length h

theorem conceals_loadState (state : PageState) (length : Nat) (hf : f ∈ hidden)
    (h : Twin hidden m.pool q) : Conceals (loadState state f length) m q hidden hidden := by
  unfold loadState
  split
  · exact (conceals_loadOrigin _ length h).bind fun _ _ _ h => (Blind.pure _).conceals h
  · rename_i slot
    refine (conceals_readSlot slot length hf h).bind fun _ _ _ h => ?_
    exact ((blind_releaseSlot slot).conceals h).bind fun _ _ _ h => (Blind.pure _).conceals h
  · exact (conceals_writeFrame 0 _ h).bind fun _ _ _ h => (Blind.pure _).conceals h
  · exact (conceals_readExtent _ length h).bind fun _ _ _ h => (Blind.pure _).conceals h

theorem conceals_loadPage (p : Nat) (page : Page) (hf : f ∈ hidden) (h : Twin hidden m.pool q) :
    Conceals (loadPage p page f) m q hidden hidden := by
  refine (conceals_loadState page.state page.bytes hf h).bind fun _ _ _ h => ?_
  refine ((blind_updatePage _ _ _).conceals h).bind fun _ _ _ h => ?_
  exact (Blind.record _).conceals h

end Machine
end DemandPaging
