import DemandPaging.Proofs.Machine.UserAccess
import DemandPaging.Proofs.Residue.Twin

/-!
# User accesses with two pools

The user reaches only frames that pages hold, and those have the same bytes in both pools. What the
user writes goes to the same places in both.
-/

namespace DemandPaging

theorem Mmu.readChunks_congr {memory memory' : List Bytes} (fuel : Nat) (m : Mmu) (va : Vaddr)
    (remaining : Nat)
    (h : ∀ wa f w, m.link? wa = some (f, w) → memory'.getD f [] = memory.getD f []) :
    readChunks memory' fuel m va remaining = readChunks memory fuel m va remaining := by
  induction fuel generalizing m va remaining with
  | zero => rfl
  | succ fuel ih =>
      have htouched : ∀ next n,
          readChunks memory' fuel (m.setAccessed (va - va % m.pageSize) true) next n =
            readChunks memory fuel (m.setAccessed (va - va % m.pageSize) true) next n := by
        intro next n
        refine ih _ next n fun wa f w hlink => h wa f w ?_
        rw [← link?_setAccessed m (va - va % m.pageSize) wa true]
        exact hlink
      unfold readChunks
      dsimp only
      cases hmapped : m.mapped? (va - va % m.pageSize) with
      | none => rfl
      | some e =>
          dsimp only
          rw [h _ _ _ (link?_of_mapped? hmapped)]
          simp only [htouched]

namespace FramePool

variable {p q : FramePool} {hidden : List Nat}

/-- The writes differ only in the memory that they leave, and the pools with that memory are
twins. -/
def SameCourse (hidden : List Nat) (p q : FramePool) (first second : WriteEffect) : Prop :=
  second = { first with memory := second.memory } ∧
    Twin hidden { p with frames := first.memory } { q with frames := second.memory }

theorem Twin.writeChunks (h : Twin hidden p q) (fuel : Nat) (m : Mmu) (va : Vaddr) (data : Bytes) :
    SameCourse hidden p q (Mmu.writeChunks fuel p.frames m va data)
      (Mmu.writeChunks fuel q.frames m va data) := by
  induction fuel generalizing p q m va data with
  | zero => exact ⟨rfl, h⟩
  | succ fuel ih =>
      unfold Mmu.writeChunks
      by_cases hzero : data.length = 0
      · rw [if_pos hzero, if_pos hzero]
        exact ⟨rfl, h⟩
      rw [if_neg hzero, if_neg hzero]
      dsimp only
      cases m.mapped? (va - va % m.pageSize) with
      | none => exact ⟨rfl, h⟩
      | some e =>
          have hchunk : Twin hidden { p with frames := m.writeChunk p.frames va data e.frame }
              { q with frames := m.writeChunk q.frames va data e.frame } :=
            h.write e.frame _ _
          dsimp only
          by_cases hreadOnly : (!e.writable) = true
          · rw [if_pos hreadOnly, if_pos hreadOnly]
            exact ⟨rfl, h⟩
          rw [if_neg hreadOnly, if_neg hreadOnly]
          by_cases hlast : data.length = m.chunkLength va data.length
          · rw [if_pos hlast, if_pos hlast]
            exact ⟨rfl, hchunk⟩
          rw [if_neg hlast, if_neg hlast]
          cases Word.checkedAdd va (UInt64.ofNat (m.chunkLength va data.length)) with
          | none => exact ⟨rfl, hchunk⟩
          | some next =>
              rcases ih hchunk (m.writeTouched va) next (data.drop (m.chunkLength va data.length))
                with ⟨hcourse, htwin⟩
              exact ⟨congrArg (fun effect : WriteEffect => { effect with
                written := m.chunkLength va data.length + effect.written }) hcourse, htwin⟩

end FramePool

namespace Machine

open Routine FramePool

variable {m : Machine} {q : FramePool} {mem : FlatMemory} {p : Nat} {va : Vaddr}

theorem blind_ofAccess {α : Type} (result : Except AccessStop α) : Blind (ofAccess result) := by
  rcases result with (fault | _) | a
  · exact .pure _
  · exact .throw _
  · exact .pure _

theorem conceals_userRead {length : Nat} (k : m.Sound {} mem) (h : Twin [] m.pool q) :
    Conceals (userRead p va length) m q [] [] := by
  have hsame : (m.process p).mmu.userRead q.frames va length =
      (m.process p).mmu.userRead m.pool.frames va length := by
    refine Mmu.readChunks_congr _ _ va length fun wa f w hlink => ?_
    rcases link?_eq_some_iff.mp hlink with ⟨e, he, rfl, -⟩
    rcases k.backed he with ⟨page, hpage, hframe, -⟩
    exact h.contents e.frame (k.not_free hpage hframe) List.not_mem_nil
  refine Agree.get ?_
  dsimp only [withPool, process] at hsame ⊢
  rw [hsame]
  have hset : Agree (set (m.modifyMmu p fun _ =>
    ((m.process p).mmu.userRead m.pool.frames va length).mmu)) _ m q
      (fun _ next q' => Twin [] next.pool q') fun _ next q' => Twin [] next.pool q' := .set q rfl h
  refine hset.bind fun _ _ _ h => (blind_ofAccess _).conceals h

theorem agree_wrote {first second : WriteEffect} (h : SameCourse [] m.pool q first second) :
    Agree (do
        set (m.wrote p first)
        record (.stored p va first.written)
        ofAccess first.result) (do
        set ((m.withPool q).wrote p second)
        record (.stored p va second.written)
        ofAccess second.result) m q (fun _ next q' => Twin [] next.pool q')
      fun _ next q' => Twin [] next.pool q' := by
  rcases second with ⟨result, written, memory, mmu⟩
  rcases h with ⟨heffect, htwin⟩
  cases heffect
  have hset : Agree (set (m.wrote p first)) (set ((m.withPool q).wrote p
      { first with memory := memory })) m q (fun _ next q' => Twin [] next.pool q')
      fun _ next q' => Twin [] next.pool q' := .set { q with frames := memory } rfl htwin
  refine hset.bind fun _ _ _ h => ?_
  exact ((Blind.record _).conceals h).bind fun _ _ _ h => (blind_ofAccess _).conceals h

theorem conceals_userWrite {data : Bytes} (h : Twin [] m.pool q) :
    Conceals (userWrite p va data) m q [] [] :=
  Agree.get (agree_wrote (h.writeChunks data.length (m.process p).mmu va data))

end Machine
end DemandPaging
