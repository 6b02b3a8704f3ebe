import DemandPaging.Proofs.Machine.Operation
import DemandPaging.Proofs.Word.Rounding

/-!
# Look-ups of pages

A page is looked up at the address rounded down to a page. Where all pages are registered at page
starts, this finds a page exactly for the addresses from its own on that are less than a page away
from it. The last page of the address space is no exception, as no end of a page is computed.
-/

namespace DemandPaging

def Layout.PageSpans (l : Layout) (va x : Vaddr) : Prop :=
  va ≤ x ∧ x - va < l.pageSize

namespace Machine

variable {m : Machine} {mem : FlatMemory} {p : Nat} {va x : Vaddr} {page : Page}

def PageAligned (m : Machine) (p : Nat) : Prop :=
  ∀ va ∈ (m.process p).pages.keys, m.layout.pageSize.toNat ∣ va.toNat

/-! ## The page of an address -/

theorem pageBase_eq_iff (hva : m.layout.pageSize.toNat ∣ va.toNat) :
    m.pageBase x = va ↔ m.layout.PageSpans va x := by
  have hpow := m.layout.fits.1
  have hblock := Word.sub_lt_iff_alignDown_eq hpow ((Word.isAligned_iff_dvd hpow).mpr hva) x
  unfold Layout.PageSpans
  rw [UInt64.lt_iff_toNat_lt, hblock]
  constructor
  · intro hbase
    refine ⟨?_, hbase⟩
    rw [← hbase, UInt64.le_iff_toNat_le]
    exact (Word.isGreatest_alignDown hpow).1.2
  · rintro ⟨-, hbase⟩
    exact hbase

theorem PageAligned.dvd (h : m.PageAligned p) (hpage : m.page? p va = some page) :
    m.layout.pageSize.toNat ∣ va.toNat :=
  h va (AddressMap.mem_keys_iff.mpr ⟨page, hpage⟩)

theorem PageAligned.lookup_eq_some_iff (h : m.PageAligned p) :
    m.lookup p x = some page ↔ ∃ va, m.page? p va = some page ∧ m.layout.PageSpans va x := by
  constructor
  · intro hfound
    exact ⟨m.pageBase x, hfound, (pageBase_eq_iff (h.dvd hfound)).mp rfl⟩
  · rintro ⟨va, hpage, hspans⟩
    rw [lookup, (pageBase_eq_iff (h.dvd hpage)).mpr hspans]
    exact hpage

theorem contains_eq_true_iff : m.contains p x = true ↔ ∃ page, m.lookup p x = some page :=
  Option.isSome_iff_exists

/-! ## Tables of pages between operations -/

theorem Sound.pageAligned (k : m.Sound {} mem) (p : Nat) : m.PageAligned p := by
  intro va hva
  rcases AddressMap.mem_keys_iff.mp hva with ⟨page, hpage⟩
  exact (Word.isAligned_iff_dvd k.powerOfTwo).mp (k.placed p va page hpage).aligned

theorem Sound.lookup_eq_some_iff (k : m.Sound {} mem) (hpage : m.page? p va = some page) :
    m.lookup p x = some page ↔ m.layout.PageSpans va x := by
  rw [(k.pageAligned p).lookup_eq_some_iff]
  constructor
  · rintro ⟨wa, hother, hspans⟩
    -- Both addresses are the one that the page itself has.
    have hsame : va = wa :=
      (k.placed p va page hpage).address.symm.trans (k.placed p wa page hother).address
    rw [hsame]
    exact hspans
  · intro hspans
    exact ⟨va, hpage, hspans⟩

/-- Alignment to a power of two is exact for all words. So where the pages of a process are
registered at page starts, an address leads to the page that has it and to no other. In a reachable
machine they are, each at its own address. -/
theorem alignment_and_lookup_exact :
    (∀ v a : UInt64, (∃ k, a.toNat = 2 ^ k) → Word.AlignsExactly v a) ∧
    (∀ (m : Machine) p, m.PageAligned p → ∀ x,
      (∀ page, m.lookup p x = some page ↔
        ∃ va, m.page? p va = some page ∧ m.layout.PageSpans va x) ∧
      (m.contains p x = true ↔
        ∃ va page, m.page? p va = some page ∧ m.layout.PageSpans va x)) ∧
    ∀ m : Machine, m.Reachable → ∀ p, m.PageAligned p ∧
      ∀ va page, m.page? p va = some page → page.va = va ∧
        ∀ x, m.lookup p x = some page ↔ m.layout.PageSpans va x := by
  refine ⟨?_, ?_, ?_⟩
  · intro v a hpow
    exact Word.alignsExactly (Word.isPowerOfTwo_iff.mpr hpow)
  · intro m p haligned x
    constructor
    · intro page
      exact haligned.lookup_eq_some_iff
    · rw [contains_eq_true_iff, exists_comm]
      apply exists_congr
      intro page
      exact haligned.lookup_eq_some_iff
  · intro m hm p
    rcases hm.sound with ⟨mem, k⟩
    refine ⟨k.pageAligned p, ?_⟩
    intro va page hpage
    exact ⟨(k.placed p va page hpage).address, fun _ => k.lookup_eq_some_iff hpage⟩

/-- The last page of the address space has the last address, and it does not have the first, which
would follow if addresses wrapped. Half of the address space is the largest alignment: rounding up
from beyond it has no result. -/
theorem lookup_in_last_page :
    ((∃ k, (0x8000000000000000 : UInt64).toNat = 2 ^ k) ∧
      Word.AlignsExactly 0x8000000000000001 0x8000000000000000 ∧
      Word.alignUp? 0x8000000000000001 0x8000000000000000 = none) ∧
    ∃ (m : Machine) (first last : Page), m.Reachable ∧ m.PageAligned 0 ∧
      m.page? 0 0 = some first ∧ m.page? 0 0xfffffffffffffff0 = some last ∧
      m.lookup 0 0xffffffffffffffff = some last ∧ m.contains 0 0xffffffffffffffff = true ∧
      m.lookup 0 0 = some first ∧ m.lookup 0 0 ≠ some last := by
  rcases alignment_and_lookup_exact with ⟨hwords, htables, hreachable⟩
  have hlargest : ∃ k, (0x8000000000000000 : UInt64).toNat = 2 ^ k := ⟨63, by decide⟩
  have hrun := Reachable.of_run smallConfig (smallHardware none [])
    [.start (.always true), .allocate 0 .anon 0 true none,
      .allocate 0 .anon 0xfffffffffffffff0 true none]
    (fun m => decide (m.layout.pageSize = 16) && (m.page? 0 0).isSome &&
      (m.page? 0 0xfffffffffffffff0).isSome) (by decide +kernel)
  rcases hrun with ⟨m, hm, hcheck⟩
  simp only [Bool.and_eq_true, decide_eq_true_eq, Option.isSome_iff_exists] at hcheck
  rcases hcheck with ⟨⟨hsize, first, hfirst⟩, last, hlast⟩
  rcases hreachable m hm 0 with ⟨haligned, hpages⟩
  have hend : m.layout.PageSpans 0xfffffffffffffff0 0xffffffffffffffff := by
    rw [Layout.PageSpans, hsize]
    decide
  have hstart : m.layout.PageSpans 0 0 := by
    rw [Layout.PageSpans, hsize]
    decide
  rcases htables m 0 haligned 0xffffffffffffffff with ⟨hlookup, hcontains⟩
  refine ⟨⟨hlargest, hwords _ _ hlargest, by decide⟩, m, first, last, hm, haligned, hfirst, hlast,
    (hlookup last).mpr ⟨_, hlast, hend⟩, hcontains.mpr ⟨_, last, hlast, hend⟩,
    ((hpages 0 first hfirst).2 0).mpr hstart, ?_⟩
  intro hwrapped
  have hbelow := (((hpages _ last hlast).2 0).mp hwrapped).1
  exact absurd hbelow (by decide)

end Machine
end DemandPaging
