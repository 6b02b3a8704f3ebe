import DemandPaging.Proofs.Machine.Fault
import DemandPaging.Proofs.Machine.FileMapping
import DemandPaging.Proofs.Residue.Residency

/-!
# Registration with two pools

Pages come and go in the same way with either pool, whether they are removed one by one, with the
process, with a file mapping, or because a stack could not grow.
-/

namespace DemandPaging
namespace Machine

open Routine FramePool

variable {m : Machine} {q : FramePool} {mem : FlatMemory} {p : Nat} {va : Vaddr}

/-! ## Removing pages -/

theorem agree_takePage {α : Type} {k k' : Option Page → Routine α}
    {done : α → Machine → FramePool → Prop} {failed : PagingError → Machine → FramePool → Prop}
    (h : Agree (k (m.page? p va)) (k' (m.page? p va))
      (m.modifyPages p fun pages => pages.erase va) q done failed) :
    Agree (takePage p va >>= k) (takePage p va >>= k') m q done failed :=
  h

theorem conceals_dropPage (k : m.Sound {} mem) (h : Twin [] m.pool q) :
    Conceals (dropPage p va) m q [] [] := by
  refine agree_takePage ?_
  cases hpage : m.page? p va with
  | none => exact .pure h
  | some page =>
      have hreleased : Spares (releasePage p page)
          (m.modifyPages p fun pages => pages.erase va) q :=
        spares_releasePage h (k.sameContent h hpage)
      exact hreleased.conceals

theorem conceals_dropPages {vas : List Vaddr} (k : m.Sound {} mem) (h : Twin [] m.pool q) :
    Conceals (dropPages p vas) m q [] [] := by
  induction vas generalizing m q with
  | nil => exact .pure h
  | cons va rest ih =>
      exact (conceals_dropPage k h).bind_ends (ends_dropPage k) fun _ next q' h hnext =>
        ih hnext.2 h

theorem conceals_removePage (k : m.Sound {} mem) (h : Twin [] m.pool q) :
    Conceals (removePage p va) m q [] [] := by
  refine Agree.get (agree_takePage (.orFail_bind (fun page hpage => ?_) fun _ => h))
  have hsame : SameContent (m.modifyPages p fun pages => pages.erase (m.pageBase va)) q page :=
    k.sameContent h hpage
  have hasked : Spares (mappingOf p page)
      (m.modifyPages p fun pages => pages.erase (m.pageBase va)) q :=
    (blind_mappingOf p page _ q).spares h
  refine (hasked.bind fun base asked q' h hfirst hsecond => ?_).conceals
  have hsame := hsame.congr hfirst hsecond
  cases base with
  | none => exact spares_releasePage h hsame
  | some base =>
      refine ((blind_leaveMapping p base page.va asked q').spares h).bind
        fun _ left q'' h hfirst hsecond => ?_
      exact spares_releasePage h (hsame.congr hfirst hsecond)

/-! ## Processes -/

theorem conceals_teardown (k : m.Sound {} mem) (h : Twin [] m.pool q) :
    Conceals (teardown p) m q [] [] := by
  have hsame : ∀ page ∈ (m.process p).pages.values,
      SameContent (m.modifyPages p fun _ => .empty) q page := fun page hpage =>
    k.sameContent h (k.values_registered.1 page hpage)
  have hreleased : Spares (releasePages p (m.process p).pages.values)
      (m.modifyPages p fun _ => .empty) q := spares_releasePages h hsame
  have hblind : Blind (do
      modify fun n : Machine => n.modifyProcess p fun q =>
        { q with mappings := .empty, tornDown := true }
      when (!(m.process p).tornDown) (report (.tornDown (m.process p).pages.size))) :=
    .bind (.change (fun _ _ => rfl) fun _ => rfl) fun _ => .when _ (.report _)
  exact Agree.get (hreleased.conceals.bind fun _ _ _ h => hblind.conceals h)

theorem conceals_endProcess (k : m.Sound {} mem) (h : Twin [] m.pool q) :
    Conceals (endProcess p) m q [] [] :=
  (conceals_teardown k h).bind fun _ _ q' h => Agree.change q' rfl h

/-! ## Faults -/

theorem conceals_growStack (k : m.Sound {} mem) (h : Twin [] m.pool q) :
    Conceals (growStack p (m.pageBase va)) m q [] [] := by
  refine Agree.get (.ofStop_bind (fun page hpage => ?_) fun _ _ => h)
  rw [stackPage_of_aligned (isAligned_pageBase m va)] at hpage
  cases hpage
  refine ((blind_register _ _).conceals h).bind_ends (ends_register (fun _ => k) rfl rfl rfl rfl
    (fun _ hx => nomatch hx) fun hx => nomatch hx) ?_
  rintro _ registered q' h ⟨-, -, -, -, kregistered⟩
  have hends : Ends (attempt (claim p (m.pageBase va))) registered Anyhow
      (fun _ next => ∃ mem', next.Sound {} mem') fun _ _ => False := by
    refine ends_attempt.mpr ((ends_claim kregistered List.not_mem_nil List.not_mem_nil
      List.not_mem_nil fun _ => trivial).mono ?_ ?_)
    · rintro _ next ⟨-, _, _, _, _, knext, -⟩
      exact ⟨_, knext⟩
    · rintro _ next ⟨-, -, knext, -⟩
      exact ⟨_, knext⟩
  refine ((conceals_claim kregistered List.not_mem_nil List.not_mem_nil h).attempt).bind_ends hends
    fun result next q' h hnext => ?_
  rcases hnext with ⟨mem', knext⟩
  cases result with
  | ok done => exact .report h
  | error e => exact (conceals_removePage knext h).attempt.bind fun _ _ _ h => .fail h

theorem conceals_resolveAtPage (f : Fault) {page : Page} (k : m.Sound {} mem)
    (h : Twin [] m.pool q) : Conceals (resolveAtPage p page f) m q [] [] := by
  refine ((blind_forbidsWrite _ _ _).conceals h).bind_ends (ends_forbidsWrite k) ?_
  rintro forbidden next q' h ⟨-, hnext⟩
  have knext : next.Sound {} mem := by
    rcases hnext with rfl | rfl
    · exact k
    · exact (k.locked _).unlocked rfl
  cases forbidden with
  | true => exact .refuse h
  | false => exact conceals_claim knext List.not_mem_nil List.not_mem_nil h

theorem conceals_resolveFault (f : Fault) (k : m.Sound {} mem) (h : Twin [] m.pool q) :
    Conceals (resolveFault p f) m q [] [] := by
  refine Agree.get ?_
  rw [show (m.withPool q).lookup p f.va = m.lookup p f.va from rfl,
    show (m.withPool q).pageBase f.va = m.pageBase f.va from rfl,
    show (m.withPool q).layout = m.layout from rfl]
  split
  · exact .refuse h
  · split
    · exact .refuse h
    · cases m.lookup p f.va with
      | some page => exact conceals_resolveAtPage f k h
      | none =>
          dsimp only
          split
          · exact conceals_growStack k h
          · exact .refuse h

/-! ## File mappings -/

theorem conceals_registerRange {start stop : Vaddr} {length : UInt64} {writable : Bool} {f : Nat}
    {offset : UInt64} (k : m.Sound {} mem) (h : Twin [] m.pool q) :
    Conceals (registerRange p start stop length writable f offset) m q [] [] := by
  refine Agree.get ?_
  refine Conceals.bind_ends ((blind_registerMapped _ _ _ _ _ _ _ _ _).conceals h)
    (ends_registerMapped k fun _ _ _ _ => trivial) ?_
  rintro ⟨registered, failure⟩ next q' h ⟨-, knext⟩
  cases failure with
  | some e => exact (conceals_dropPages knext h).bind fun _ _ _ h => .fail h
  | none => exact ((Blind.report _).conceals h).bind fun _ _ q' h => .change q' rfl h

theorem conceals_mapFile {start : Vaddr} {length : UInt64} {writable : Bool} {f : Nat}
    {offset : UInt64} (k : m.Sound {} mem) (h : Twin [] m.pool q) :
    Conceals (mapFile p start length writable f offset) m q [] [] := by
  refine Agree.get (.require_bind (fun _ => ?_) fun _ => h)
  refine .require_bind (fun _ => ?_) fun _ => h
  refine .orFail_bind (fun stop _ => ?_) fun _ => h
  refine .require_bind (fun _ => ?_) fun _ => h
  exact (conceals_registerRange k h).bind fun _ _ _ h => .pure h

theorem conceals_unmapBase {base : Vaddr} (k : m.Sound {} mem) (h : Twin [] m.pool q) :
    Conceals (unmapBase p base) m q [] [] := by
  refine Agree.get ?_
  rw [show (m.withPool q).process p = m.process p from rfl]
  cases (m.process p).mappings.get? base with
  | none => exact .pure h
  | some mapping =>
      have hdropped : Conceals (dropPages p mapping.members)
          (m.modifyMappings p fun mappings => mappings.erase base) q [] [] :=
        conceals_dropPages (k.modifyMappings p _) h
      exact hdropped.bind fun _ _ _ h => .report h

theorem conceals_unmapFile (k : m.Sound {} mem) (h : Twin [] m.pool q) :
    Conceals (unmapFile p va) m q [] [] := by
  refine ((blind_mappingBaseAt p va).conceals h).bind_ends (ends_mappingBaseAt k)
    fun base _ _ h hnext => ?_
  cases base with
  | none => exact .pure h
  | some base => exact conceals_unmapBase hnext.2 h

end Machine
end DemandPaging
