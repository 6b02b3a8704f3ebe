import DemandPaging.Proofs.Machine.Aborts
import DemandPaging.Proofs.Machine.Isolation
import DemandPaging.Proofs.Machine.Retry

/-!
# Admission of pages

A page brings along a page size and a memory management unit of its own, which eviction and loading
use where claiming and releasing use those of the machine and of the process. Registering does not
compare them. If they agree, then registering the page is allocating it, and the machine stays
managed for ever; if one of them differs, it need not.
-/

namespace DemandPaging
namespace Machine

open Routine

variable {m next added last : Machine} {mem : FlatMemory} {p q f : Nat} {va wa : Vaddr}
  {page registered : Page}

/-! ## Managed machines -/

/-- A page was loaded into a frame that is mapped, and the load has filled the whole of it. -/
structure Delivered (m next : Machine) (q : Nat) (wa : Vaddr) (page : Page) (f : Nat) : Prop where
  lookup : next.lookup q wa = some page
  frame : page.frame = some f
  mapped : next.link? q (m.pageBase wa) = some (f, page.writable)
  content : next.pool.content f =
    (m.stateAt q wa).delivered next.files m.loaderRuns m.swap.slotContent m.layout.pageBytes
  length : (next.pool.content f).length = m.layout.pageBytes

/-- What the processes may rely on between operations and during the next one. -/
structure Managed (m : Machine) : Prop where
  /-- Only frames of registered pages are mapped, each at the address of its page. -/
  isolated : m.Isolated
  aborts : ∀ (op : Operation) a next, op.perform m = .error (.aborted a) next → op.Foreseen m a
  loads : ∀ (op : Operation) q wa reply next, op.claims? = some (q, wa) → m.Idle q wa →
    op.perform m = .ok reply next → ∃ page f, m.Delivered next q wa page f

theorem Resolved.delivered (k : m.Sound {} mem) (h : m.Resolved next q wa mem page f)
    (hidle : m.Idle q wa) : m.Delivered next q wa page f where
  lookup := h.lookup
  frame := h.frame
  mapped := h.mapped hidle.not_stranded
  content := h.content_eq k hidle
  length := by
    have hlength := h.sound.length_content (h.sound.frame_lt h.lookup h.frame)
    rw [h.alike.layout] at hlength
    exact hlength

theorem Sound.managed (k : m.Sound {} mem) : m.Managed where
  isolated := k.isolated
  aborts := fun _ _ _ => k.foreseen
  loads := by
    intro op q wa reply next hclaims hidle hserved
    have hends : Ends op.perform m Anyhow
        (fun _ next => ∃ page f, m.Resolved next q wa mem page f)
        fun _ next => m.Unresolved next q wa mem := ends_claims k hclaims fun _ => trivial
    rcases hends.of_ok hserved with ⟨page, f, hresolved⟩
    exact ⟨page, f, hresolved.delivered k hidle⟩

/-! ## Registered pages -/

/-- A new page, whose page size is not above that of the machine, was registered with a process,
and a run has led on from there. -/
structure Accepts (m : Machine) (p : Nat) (page : Page) (last : Machine) : Prop where
  reachable : m.Reachable
  created : ∃ va writable type loader,
    Page.create va writable type loader page.mmu page.pageSize = .ok page
  small : page.pageSize ≤ m.layout.pageSize
  later : ∃ registered added ops, register p page m = .ok registered added ∧
    added.run ops = some last

def guestPage (mmu : Nat) (pageSize : UInt64) : Page :=
  ⟨0, 0x1000, true, false, none, none, mmu, pageSize, .uninit (.anon none)⟩

def guestEviction : List Operation :=
  [.claim 0 0x1000, .allocate 0 .anon 0x1010 true none, .allocate 0 .anon 0x1020 true none,
    .claim 0 0x1010, .claim 0 0x1020]

def hosts (m : Machine) (guest : Page) (ops : List Operation) (check : Machine → Bool) : Bool :=
  match register 0 guest m with
  | .ok _ added => (added.run ops).any check
  | .error _ _ => false

theorem exists_of_hosts {mmu : Nat} {pageSize : UInt64} {ops : List Operation}
    {check : Machine → Bool} (hm : m.Reachable)
    (hcreated : Page.create 0x1000 true .anon none mmu pageSize = .ok (guestPage mmu pageSize))
    (hsmall : pageSize ≤ m.layout.pageSize)
    (h : m.hosts (guestPage mmu pageSize) ops check = true) :
    ∃ last, m.Accepts 0 (guestPage mmu pageSize) last ∧ check last = true := by
  unfold hosts at h
  split at h
  · rename_i registered added hregistered
    rcases (Option.any_eq_true ..).mp h with ⟨last, hrun, hcheck⟩
    exact ⟨last, ⟨hm, ⟨_, _, _, _, hcreated⟩, hsmall, registered, added, ops, hregistered, hrun⟩,
      hcheck⟩
  · contradiction

theorem after?_allocate {writable : Bool} {type : PageClass} {loader : Option Loader}
    (hcreated : Page.create va writable type loader p m.layout.pageSize = .ok page)
    (hregistered : register p page m = .ok registered added) :
    m.after? (.allocate p type va writable loader) = some added := by
  have hends : Ends (Operation.allocate p type va writable loader).perform m (fun _ => False)
      (fun _ next => next = added) fun _ _ => False := by
    unfold Operation.perform allocatePage
    rw [ends_bind, ends_bind, ends_get, ends_bind, hcreated, ends_ofStop_ok]
    unfold Ends
    rw [hregistered]
    rfl
  rcases hends.exists_result with ⟨reply, next, hserved, rfl⟩
  exact after?_eq_some_iff.mpr (Or.inl ⟨reply, hserved⟩)

/-- A page with the unit of its process and the page size of the machine leaves the machine
managed, whatever is done afterwards. -/
theorem managed_of_agreement (h : m.Accepts p page last) (hunit : page.mmu = p)
    (hsize : page.pageSize = m.layout.pageSize) : last.Reachable ∧ last.Managed := by
  rcases h.created with ⟨va, writable, type, loader, hcreated⟩
  rcases h.later with ⟨registered, added, ops, hregistered, hrun⟩
  -- The machine itself makes pages of this kind, so the registered one is an allocated one.
  rw [hunit, hsize] at hcreated
  have hreachable := (h.reachable.after? (after?_allocate hcreated hregistered)).later hrun
  rcases hreachable.sound with ⟨mem, k⟩
  exact ⟨hreachable, k.managed⟩

/-- A page that agrees is claimed and evicted. -/
theorem managed_with_guest : ∃ m last : Machine, m.Accepts 0 (guestPage 0 16) last ∧
    last.ring.evictions = 1 ∧ last.Reachable ∧ last.Managed := by
  rcases Reachable.of_run smallConfig (smallHardware (some (.blank 8 16)) [])
    [.start (.always true)]
    (fun m => decide (m.layout.pageSize = 16) &&
      m.hosts (guestPage 0 16) guestEviction fun last =>
        decide (last.ring.evictions = 1)) (by decide +kernel) with ⟨m, hm, hcheck⟩
  rw [Bool.and_eq_true, decide_eq_true_eq] at hcheck
  rcases hcheck with ⟨hsize, hhosts⟩
  rcases exists_of_hosts hm rfl (UInt64.le_of_eq hsize.symm) hhosts with
    ⟨last, haccepts, hevictions⟩
  exact ⟨m, last, haccepts, of_decide_eq_true hevictions,
    managed_of_agreement haccepts rfl hsize.symm⟩

/-! ## Pages that do not agree -/

def misloads (m : Machine) (p : Nat) (va : Vaddr) : Bool :=
  match (Operation.claim p va).perform m with
  | .ok _ next => (m.lookup p va).all (fun page => page.frame.isNone) &&
      (next.lookup p va).any fun page => page.frame.any fun f =>
        next.pool.content f != (m.stateAt p va).delivered next.files m.loaderRuns
          m.swap.slotContent m.layout.pageBytes
  | .error _ _ => false

theorem Managed.not_misloads (h : m.Managed) (p : Nat) (va : Vaddr) :
    m.misloads p va = false := by
  cases hmisloads : m.misloads p va with
  | false => rfl
  | true =>
      unfold misloads at hmisloads
      split at hmisloads
      · rename_i reply next hserved
        rw [Bool.and_eq_true] at hmisloads
        rcases hmisloads with ⟨hnone, hdiffers⟩
        have hidle : m.Idle p va := by
          intro page hpage
          rw [hpage, Option.all_some, Option.isNone_iff_eq_none] at hnone
          exact hnone
        rcases h.loads _ p va reply next rfl hidle hserved with ⟨page, f, hdelivered⟩
        rw [hdelivered.lookup, Option.any_some, hdelivered.frame, Option.any_some,
          hdelivered.content, bne_self_eq_false] at hdiffers
        contradiction
      · contradiction

/-- Each of the two conditions is needed. A page of half the size leaves the rest of its frame as
it was found; a page with the unit of another process stays mapped when it is evicted. -/
theorem not_managed_of_disagreement :
    (¬∀ (m last : Machine) p page, m.Accepts p page last → page.mmu = p → last.Managed) ∧
      ¬∀ (m last : Machine) p page, m.Accepts p page last →
        page.pageSize = m.layout.pageSize → last.Managed := by
  constructor
  · intro hall
    rcases Reachable.of_run smallConfig (smallHardware none []) [.start (.always true)]
      (fun m => decide (8 ≤ m.layout.pageSize) &&
        m.hosts (guestPage 0 8) [] fun last => last.misloads 0 0x1000) (by decide +kernel) with
      ⟨m, hm, hcheck⟩
    rw [Bool.and_eq_true, decide_eq_true_eq] at hcheck
    rcases exists_of_hosts hm rfl hcheck.1 hcheck.2 with ⟨last, haccepts, hmisloads⟩
    rw [(hall m last 0 _ haccepts rfl).not_misloads] at hmisloads
    contradiction
  · intro hall
    rcases Reachable.of_run smallConfig (smallHardware (some (.blank 8 16)) [])
      [.start (.always true), .start (.always true)]
      (fun m => decide (m.layout.pageSize = 16) &&
        m.hosts (guestPage 1 16) guestEviction fun last =>
          decide ((last.page? 0 0x1000).bind Page.frame = none) &&
            (last.mapped? 0 0x1000).isSome) (by decide +kernel) with ⟨m, hm, hcheck⟩
    rw [Bool.and_eq_true, decide_eq_true_eq] at hcheck
    rcases hcheck with ⟨hsize, hhosts⟩
    rcases exists_of_hosts hm rfl (UInt64.le_of_eq hsize.symm) hhosts with
      ⟨last, haccepts, hcheck⟩
    rw [Bool.and_eq_true, decide_eq_true_eq] at hcheck
    -- The eviction cleared the entry of the other process, and the page is still mapped here.
    rw [(hall m last 0 _ haccepts hsize.symm).isolated.evicted 0 0x1000 hcheck.1] at hcheck
    exact absurd hcheck.2 Bool.false_ne_true

end Machine
end DemandPaging
