import DemandPaging.Proofs.Machine.Operation

/-!
# Faults that stay resolved

After a fault was resolved its page should be mapped, so that the access does not fault again. It
is, unless the page was resident without being mapped before the fault: claiming a resident page
does nothing. Only a memory management unit that once refused a mapping can have such a page, which
it keeps after an eviction that failed and could not map the page again.
-/

namespace DemandPaging
namespace Machine

open Routine

def OnPage (m : Machine) (va a : Vaddr) (n : Nat) : Prop :=
  m.pageBase a = m.pageBase va ∧ (a % m.layout.pageSize).toNat + n ≤ m.layout.pageBytes

/-- The page that contains an address is mapped to the frame that it holds, with its permission,
and so no access that stays on it faults, be it a read or, where writing is at issue, a write. -/
structure Settled (m : Machine) (p : Nat) (va : Vaddr) (write : Bool) : Prop where
  mapped : ∃ page e, m.lookup p va = some page ∧ m.mapped? p (m.pageBase va) = some e ∧
    page.frame = some e.frame ∧ page.writable = e.writable
  reads : ∀ a n, m.OnPage va a n → ∃ bytes next, userRead p a n m = .ok (.ok bytes) next
  writes : write = true → ∀ a data, m.OnPage va a data.length →
    ∃ next, userWrite p a data m = .ok (.ok ()) next

variable {m next : Machine} {mem : FlatMemory} {p : Nat} {va a : Vaddr} {e : PageEntry} {f : Fault}

/-! ## Accesses to a mapped page -/

theorem Sound.mapped_onPage (k : m.Sound {} mem) {n : Nat}
    (he : m.mapped? p (m.pageBase va) = some e) (hon : m.OnPage va a n) :
    (m.process p).mmu.mapped? (a - a % (m.process p).mmu.pageSize) = some e ∧
      (a % (m.process p).mmu.pageSize).toNat + n ≤ (m.process p).mmu.pageSize.toNat := by
  rw [(k.units p (lt_of_mapped?_eq_some he)).1, ← Word.alignDown_eq_sub_mod k.powerOfTwo]
  refine ⟨?_, hon.2⟩
  rw [← hon.1] at he
  exact he

theorem Sound.userRead_onPage (k : m.Sound {} mem) {n : Nat}
    (he : m.mapped? p (m.pageBase va) = some e) (hon : m.OnPage va a n) :
    ∃ bytes next, userRead p a n m = .ok (.ok bytes) next := by
  rcases k.mapped_onPage he hon with ⟨hmapped, hfit⟩
  have hresult := Mmu.userRead_of_mapped? m.pool.frames hmapped hfit
  have hsteps : ∃ after, userRead p a n m =
      (ofAccess ((m.process p).mmu.userRead m.pool.frames a n).answer) after := ⟨_, rfl⟩
  rcases hsteps with ⟨after, hsteps⟩
  refine ⟨((m.process p).mmu.userRead m.pool.frames a n).delivered, after, ?_⟩
  rw [hsteps, ReadEffect.answer, hresult]
  rfl

theorem Sound.userWrite_onPage (k : m.Sound {} mem) {data : Bytes}
    (he : m.mapped? p (m.pageBase va) = some e) (hwritable : e.writable = true)
    (hon : m.OnPage va a data.length) :
    ∃ next, userWrite p a data m = .ok (.ok ()) next := by
  rcases k.mapped_onPage he hon with ⟨hmapped, hfit⟩
  have hresult := Mmu.userWrite_of_mapped? m.pool.frames hmapped hwritable hfit
  have hsteps : ∃ after, userWrite p a data m =
      (ofAccess ((m.process p).mmu.userWrite m.pool.frames a data).result) after := ⟨_, rfl⟩
  rcases hsteps with ⟨after, hsteps⟩
  refine ⟨after, ?_⟩
  rw [hsteps, hresult]
  rfl

/-! ## Resolved faults -/

/-- A page is stranded only if the memory management unit has refused a mapping. -/
theorem Sound.hasRefused_of_stranded (k : m.Sound {} mem) (h : m.Stranded p va) :
    m.HasRefused p := by
  rcases h with ⟨⟨page, hpage, hresident⟩, hunmapped⟩
  rcases Option.isSome_iff_exists.mp hresident with ⟨g, hframe⟩
  have hlink : ¬(m.link? p (m.pageBase va)).isSome = true := by
    rw [link?, Mmu.link?, show (m.process p).mmu.mapped? (m.pageBase va) = none from hunmapped]
    exact Bool.false_ne_true
  rcases k.links.linked p _ page g hpage hframe with hhand | hlinked | hrefused
  · rcases hhand with hmem | hmem
    · exact absurd hmem List.not_mem_nil
    · exact absurd hmem List.not_mem_nil
  · exact absurd hlinked hlink
  · exact hrefused

theorem Sound.resolved (k : m.Sound {} mem) (hok : resolveFault p f m = .ok () next) :
    ∃ page frame, m.Resolved next p f.va mem page frame ∧
      (f.cause.write = true → page.writable = true) := by
  have hends : Ends (resolveFault p f) m (fun _ => True) _ _ := ends_resolveFault k fun _ => trivial
  rw [Ends, hok] at hends
  exact hends

theorem Sound.settled_iff (k : m.Sound {} mem) (hok : resolveFault p f m = .ok () next) :
    next.Settled p f.va f.cause.write ↔ ¬m.Stranded p f.va := by
  rcases k.resolved hok with ⟨page, frame, hresolved, hwritable⟩
  have hbase : next.pageBase f.va = m.pageBase f.va := by
    rw [pageBase, hresolved.alike.layout]
    rfl
  constructor
  · intro hsettled hstranded
    rcases hsettled.mapped with ⟨-, e, -, he, -, -⟩
    have hnone := hresolved.stays hstranded
    rw [hbase] at he
    rw [link?, Mmu.link?, show (next.process p).mmu.mapped? (m.pageBase f.va) = some e from he]
      at hnone
    contradiction
  · intro hfree
    rcases link?_eq_some_iff.mp (hresolved.mapped hfree) with ⟨e, he, hframe, hpermission⟩
    rw [← hbase] at he
    refine ⟨⟨page, e, hresolved.lookup, he, ?_, hpermission.symm⟩, ?_, ?_⟩
    · rw [hframe]
      exact hresolved.frame
    · intro a n hon
      exact hresolved.sound.userRead_onPage he hon
    · intro hwrite a data hon
      exact hresolved.sound.userWrite_onPage he (hpermission.trans (hwritable hwrite)) hon

/-- The page of a resolved fault is resident, and the access does not fault again, exactly if the
page was not stranded before. Without a refused mapping no page is ever stranded. -/
theorem Reachable.settled_iff_not_stranded (h : m.Reachable)
    (hok : resolveFault p f m = .ok () next) :
    (∃ page, next.lookup p f.va = some page ∧ page.isResident = true) ∧
      (next.Settled p f.va f.cause.write ↔ ¬m.Stranded p f.va) ∧
      (m.Stranded p f.va → m.HasRefused p) := by
  rcases h.sound with ⟨mem, k⟩
  rcases k.resolved hok with ⟨page, frame, hresolved, -⟩
  refine ⟨⟨page, hresolved.lookup, ?_⟩, k.settled_iff hok, k.hasRefused_of_stranded⟩
  rw [Page.isResident, hresolved.frame]
  rfl

def smallFault : Fault :=
  ⟨0x1000, ⟨true, false, true⟩, 0xf000⟩

/-- The fault brings the page back from its slot. -/
theorem settled_after_eviction : ∃ m next : Machine, m.Reachable ∧
    resolveFault 0 smallFault m = .ok () next ∧ ¬m.Stranded 0 0x1000 ∧
    next.Settled 0 0x1000 false := by
  have hrun := Reachable.of_run smallConfig (smallHardware (some (.blank 4 8)) [])
    [.start (.always true), .start (.always true), .allocate 0 .anon 0x1000 true none,
      .claim 0 0x1000, .allocate 1 .anon 0x1000 true none, .claim 1 0x1000,
      .allocate 1 .anon 0x1010 true none, .claim 1 0x1010]
    (fun m => (m.lookup 0 0x1000).all (fun page => !page.isResident) &&
      match resolveFault 0 smallFault m with
      | .ok _ _ => true
      | .error _ _ => false) (by decide +kernel)
  rcases hrun with ⟨m, hm, hcheck⟩
  rw [Bool.and_eq_true] at hcheck
  rcases hcheck with ⟨hevicted, hdone⟩
  have hfree : ¬m.Stranded 0 0x1000 := by
    intro hat
    rcases hat with ⟨⟨page, hpage, hresident⟩, -⟩
    rw [hpage, Option.all_some, hresident] at hevicted
    contradiction
  cases hok : resolveFault 0 smallFault m with
  | error stop next =>
      rw [hok] at hdone
      contradiction
  | ok _ next =>
      have hsettled := (Reachable.settled_iff_not_stranded hm hok).2.1
      exact ⟨m, next, hm, hok, hfree, hsettled.mpr hfree⟩

/-- The page cannot be evicted, since there is no disk, and its unit refuses to map it again. The
fault is resolved, but the page is not mapped. -/
theorem not_always_settled : ¬∀ (m next : Machine) (p : Nat) (f : Fault), m.Reachable →
    resolveFault p f m = .ok () next → next.Settled p f.va f.cause.write := by
  intro hall
  have hrun := Reachable.of_run smallConfig (smallHardware none [.patterned 64])
    [.start (.budget 1), .start (.always true), .allocate 0 .anon 0x1000 true none,
      .claim 0 0x1000, .map 1 0x2000 32 true 0 0, .claim 1 0x2000, .claim 1 0x2010]
    (fun m => match resolveFault 0 smallFault m with
      | .ok _ next => decide (next.mapped? 0 (next.pageBase 0x1000) = none)
      | .error _ _ => false) (by decide +kernel)
  rcases hrun with ⟨m, hm, hcheck⟩
  cases hok : resolveFault 0 smallFault m with
  | error stop next =>
      rw [hok] at hcheck
      contradiction
  | ok _ next =>
      rw [hok] at hcheck
      rcases (hall m next 0 smallFault hm hok).mapped with ⟨page, e, -, he, -⟩
      have hnone : next.mapped? 0 (next.pageBase 0x1000) = none := of_decide_eq_true hcheck
      rw [show next.mapped? 0 (next.pageBase 0x1000) = some e from he] at hnone
      contradiction

end Machine
end DemandPaging
