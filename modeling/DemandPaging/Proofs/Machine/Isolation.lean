import DemandPaging.Proofs.Machine.Operation

/-!
# Isolation of address spaces

What a memory management unit maps, between operations: the frames of the pages that are registered
with its process, each at its own address and with its own permission. A frame is mapped at one
address of one process at most, and a free frame or an evicted page is not mapped at all.
-/

namespace DemandPaging
namespace Machine

structure Isolated (m : Machine) : Prop where
  /-- What is mapped is the frame of the page that is registered at the address, with the
  permission of the page. -/
  backed : ∀ p va e, m.mapped? p va = some e →
    ∃ page, m.page? p va = some page ∧ page.frame = some e.frame ∧ page.writable = e.writable
  /-- No frame is mapped at two addresses or for two processes. -/
  sole : ∀ p va e q wa d, m.mapped? p va = some e → m.mapped? q wa = some d →
    e.frame = d.frame → q = p ∧ wa = va
  /-- No mapped frame is free. -/
  taken : ∀ p va e, m.mapped? p va = some e →
    e.frame < m.pool.capacity ∧ e.frame ∉ m.pool.free
  /-- An address without a resident page is not mapped. -/
  evicted : ∀ p va, (m.page? p va).bind Page.frame = none → m.mapped? p va = none

variable {m : Machine} {mem : FlatMemory}

theorem Sound.isolated (k : m.Sound {} mem) : m.Isolated where
  backed := fun p va e he => k.backed he
  sole := by
    intro p va e q wa d he hd hsame
    rcases k.backed he with ⟨page, hpage, hframe, -⟩
    rcases k.backed hd with ⟨other, hother, hframe', -⟩
    rw [← hsame] at hframe'
    exact k.frames.holder_unique hpage hframe hother hframe'
  taken := by
    intro p va e he
    rcases k.backed he with ⟨page, hpage, hframe, -⟩
    exact ⟨k.frame_lt hpage hframe, k.not_free hpage hframe⟩
  evicted := by
    intro p va hidle
    cases he : m.mapped? p va with
    | none => rfl
    | some e =>
        rcases k.backed he with ⟨page, hpage, hframe, -⟩
        rw [hpage, Option.bind_some, hframe] at hidle
        contradiction

/-- Between operations each mapping is that of a registered page. -/
theorem Reachable.mappings_isolated (h : m.Reachable) : m.Isolated := by
  rcases h.sound with ⟨mem, k⟩
  exact k.isolated

/-- A frame is taken from a page of one process for a page of another. -/
theorem isolated_after_eviction : ∃ m : Machine, m.Reachable ∧
    (m.mapped? 0 0x1000).isSome = true ∧ (m.mapped? 1 0x1000).isSome = true ∧
    m.mapped? 1 0x1010 = none ∧ m.Isolated := by
  have hrun := Reachable.of_run smallConfig (smallHardware (some (.blank 4 8)) [])
    [.start (.always true), .start (.always true), .allocate 1 .anon 0x1010 true none,
      .claim 1 0x1010, .allocate 0 .anon 0x1000 true none, .claim 0 0x1000,
      .allocate 1 .anon 0x1000 false none, .claim 1 0x1000]
    (fun m => decide ((m.mapped? 0 0x1000).isSome = true ∧ (m.mapped? 1 0x1000).isSome = true ∧
      m.mapped? 1 0x1010 = none)) (by decide +kernel)
  rcases hrun with ⟨m, hm, hcheck⟩
  rcases of_decide_eq_true hcheck with ⟨hfirst, hsecond, hevicted⟩
  exact ⟨m, hm, hfirst, hsecond, hevicted, Reachable.mappings_isolated hm⟩

end Machine
end DemandPaging
