import DemandPaging.Proofs.Machine.Fork
import DemandPaging.Proofs.Residue.Residency

/-!
# Forks with two pools

The copy of a page gets the bytes of the page or of its slot, over the whole of its frame. Nothing
of what was found in that frame remains.
-/

namespace DemandPaging
namespace Machine

open Routine FramePool

variable {m : Machine} {q : FramePool} {mem : FlatMemory} {locks : List Lock} {s t f : Nat}
  {page copy : Page}

/-! ## Filling the frame of a copy -/

theorem conceals_mapCopy {dirty : Bool} (h : Twin [] m.pool q) :
    Conceals (mapCopy t copy f dirty) m q [] [] := by
  refine ((blind_attachFrame _ _ _).conceals h).bind fun _ _ _ h => ?_
  refine ((blind_mapPage _ _ _ _).conceals h).bind fun accepted mapped q' h => ?_
  cases accepted with
  | true =>
      refine (Conceals.when (fun _ => (blind_setDirty _ _ _).conceals h) fun _ => h).bind
        fun _ _ _ h => ?_
      exact ((blind_unpinFrame f).conceals h).bind fun _ _ _ h => .record h
  | false =>
      refine ((blind_detachFrame t copy).conceals h).bind fun _ _ _ h => ?_
      exact (conceals_freeFrame (h.hide [f])).bind fun _ _ _ h => .fail h

/-- Filling a frame overwrites all of it, or it fails. -/
def Covers (fill : Nat → Routine Unit) (m : Machine) (locks : List Lock) (mem : FlatMemory) :
    Prop :=
  ∀ n f q, Undisturbed locks m n →
    n.Sound { locks := locks, stray := [f], filling := [f] } mem → Twin [f] n.pool q →
      Conceals (fill f) n q [] [f]

theorem conceals_placeCopy {dirty : Bool} {fill : Nat → Routine Unit}
    (k : m.Sound { locks := locks } mem) (hring : Lock.ring ∉ locks) (hswap : Lock.swap ∉ locks)
    (hfill : Covers fill m (.page t copy.va :: locks) mem) (h : Twin [] m.pool q) :
    Conceals (placeCopy t copy dirty fill) m q [] [] := by
  have hring' : Lock.ring ∉ Lock.page t copy.va :: locks := by
    simpa using hring
  have hswap' : Lock.swap ∉ Lock.page t copy.va :: locks := by
    simpa using hswap
  have klocked := k.locked (.page t copy.va)
  refine Conceals.withLock ((agree_allocateFrame klocked hswap' h).bind_ends
    (ends_allocateFrame klocked hring' hswap' fun _ => trivial) ?_)
  intro f given q' htwin hgiven
  rcases hgiven with ⟨hundisturbed, kgiven, -⟩
  have hfilled := hfill given f q' { hundisturbed with } kgiven htwin
  refine .attempt_bind (hfilled.mono ?_ ?_)
  · exact fun _ next q' htwin => conceals_mapCopy htwin
  · exact fun e next q' htwin => (conceals_freeFrame htwin).bind fun _ _ _ h => .fail h

/-! ## Copying one page -/

theorem covers_writeFrame {bytes : Bytes} (hlength : bytes.length = m.layout.pageBytes) :
    Covers (fun place => writeFrame place 0 bytes) m locks mem := by
  intro n f q hundisturbed k htwin
  have hf := k.frames.lt_capacity (k.frames.strayListed f List.mem_cons_self)
  have hfirst : (n.pool.content f).length = bytes.length := by
    rw [k.length_content hf, hundisturbed.layout, hlength]
  refine Agree.change _ rfl ((htwin.write f 0 bytes).reveal ?_)
  show (q.write f 0 bytes).content f = (n.pool.write f 0 bytes).content f
  rw [content_write_self, content_write_self,
    Bytes.overlay_zero_of_length_eq hfirst.symm,
    Bytes.overlay_zero_of_length_eq ((htwin.lengths f).trans hfirst).symm]

theorem covers_readSlot {p slot : Nat} {va : Vaddr} (hpage : m.page? p va = some page)
    (hlock : Lock.page p va ∈ locks) (hstate : page.state = .anon (some slot))
    (hbytes : copy.bytes = m.layout.pageBytes) :
    Covers (fun place => readSlot slot place copy.bytes) m locks mem := by
  intro n f q hundisturbed k htwin
  have hpage' : n.page? p va = some page := (hundisturbed.locked p va hlock).trans hpage
  have hslot : page.slot = some slot := by
    rw [Page.slot, hstate]
    rfl
  have hused := k.slots.used_of_recorded hpage' hslot
  have hf := k.frames.lt_capacity (k.frames.strayListed f List.mem_cons_self)
  rw [hbytes, ← hundisturbed.layout]
  have k' : (n.withPool q).Sound { locks := locks, stray := [f], filling := [f] } mem :=
    k.withTwin htwin (List.Subset.refl [f])
  have halike : Conceals (readSlot slot f n.layout.pageBytes) n q [f] [f] :=
    conceals_readSlot slot _ List.mem_cons_self htwin
  have hsecond : Ends (readSlot slot f (n.withPool q).layout.pageBytes) (n.withPool q) Anyhow
      (fun _ next => next.pool.content f = n.swap.slotContent slot) fun _ _ => True :=
    (ends_readSlot k' hused (htwin.count ▸ hf) List.mem_cons_self).mono
      (fun _ _ hnext => hnext.2.2) fun _ _ _ => trivial
  rw [withPool_layout] at hsecond
  have hboth := (Agree.and_ends halike
    (ends_readSlot k hused hf List.mem_cons_self)).and_ends_other hsecond
  refine hboth.mono ?_ fun _ _ _ hfailed => hfailed.1.1
  rintro _ next q' ⟨⟨htwin, -, -, hcontent⟩, hcontent'⟩
  exact htwin.reveal (hcontent'.trans hcontent.symm)

theorem conceals_copyContent {va : Vaddr} (k : m.Sound { locks := locks } mem)
    (hpage : m.page? s va = some page) (hbytes : copy.bytes = m.layout.pageBytes)
    (hsource : Lock.page s va ∈ locks) (hring : Lock.ring ∉ locks) (hswap : Lock.swap ∉ locks)
    (h : Twin [] m.pool q) : Conceals (copyContent s t page copy) m q [] [] := by
  unfold copyContent
  cases hframe : page.frame with
  | some frame =>
      have hlength : ((m.pool.content frame).take page.bytes).length = m.layout.pageBytes := by
        rw [List.length_take, k.length_content (k.frame_lt hpage hframe), k.bytes_eq hpage,
          Nat.min_self]
      refine Agree.get (agree_readFrame ?_)
      rw [k.sameContent h hpage frame hframe]
      exact conceals_placeCopy k hring hswap (covers_writeFrame hlength) h
  | none =>
      cases hslot : page.slot with
      | some slot =>
          exact conceals_placeCopy k hring hswap (covers_readSlot hpage
            (List.mem_cons_of_mem _ hsource) (PageState.eq_anon_of_slot hslot) hbytes) h
      | none => exact Agree.pure h

theorem conceals_copyPage {va : Vaddr} (k : m.Sound { locks := [.page s va] } mem)
    (hpage : m.page? s va = some page) (h : Twin [] m.pool q) :
    Conceals (copyPage s t page) m q [] [] := by
  have haddress := (k.placed s va page hpage).address
  subst haddress
  refine ((blind_register _ _).conceals h).bind_ends (ends_registerCopy k hpage) ?_
  rintro _ registered q' h ⟨rfl, rfl, hp, -, hne, kregistered⟩
  have hbytes : page.bytes = m.layout.pageBytes := k.bytes_eq hpage
  refine conceals_copyContent kregistered ?_ hbytes List.mem_cons_self ?_ ?_ h
  · exact (page?_withPage_of_ne hp hne page.va).trans hpage
  · simp
  · simp

/-! ## Copying a process -/

theorem conceals_copyPages {vas : List Vaddr} (k : m.Sound {} mem) (h : Twin [] m.pool q) :
    Conceals (copyPages s t vas) m q [] [] := by
  induction vas generalizing m q mem with
  | nil => exact Agree.pure h
  | cons va rest ih =>
      have klocked := k.locked (.page s va)
      unfold copyPages
      refine Agree.bind (?turn : Agree _ _ m q (fun _ next q' => Twin [] next.pool q' ∧
        ∃ mem', next.Sound {} mem') fun _ next q' => Twin [] next.pool q') ?rest
      case turn =>
        refine .withLock (.get ?_)
        rw [show ((m.locked (.page s va)).withPool q).page? s va = m.page? s va from rfl,
          show (m.locked (.page s va)).page? s va = m.page? s va from rfl]
        cases hpage : m.page? s va with
        | none => exact .pure ⟨h, mem, klocked.unlocked rfl⟩
        | some page =>
            refine (Agree.and_ends (conceals_copyPage klocked hpage h)
              (ends_copyPage klocked hpage trivial)).mono ?_ fun _ _ _ hfailed => hfailed.1
            rintro _ next q' ⟨htwin, -, -, knext⟩
            exact ⟨htwin, _, knext.unlocked rfl⟩
      case rest =>
        rintro _ next q' ⟨htwin, mem', knext⟩
        exact ih knext htwin

theorem conceals_fork (k : m.Sound {} mem) (h : Twin [] m.pool q) :
    Conceals (fork s t) m q [] [] := by
  refine Agree.get (.require_bind (fun _ => ?_) fun _ => h)
  have hcopied : Conceals (copyPages s t (m.process s).pages.keys) m q [] [] :=
    conceals_copyPages k h
  refine hcopied.bind fun _ _ _ h => ?_
  exact Agree.bind (.change _ rfl h) fun _ _ _ h => .report h

end Machine
end DemandPaging
