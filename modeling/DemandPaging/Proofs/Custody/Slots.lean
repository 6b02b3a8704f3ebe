import DemandPaging.Proofs.Custody.Frames

/-!
# Custody of slots

A slot is in use exactly if one registered page records it or if it is in hand: given out and not
yet recorded, or taken from a page and not yet given back.
-/

namespace DemandPaging

/-- Every used slot has exactly one place. -/
structure SlotsKept (pages : PageView) (used : Nat → Bool) (slots : List Nat) : Prop where
  used_iff : ∀ s, used s = true ↔
    s ∈ slots ∨ ∃ p va page, pages p va = some page ∧ page.slot = some s
  apart : ∀ p va page s, pages p va = some page → page.slot = some s → s ∉ slots
  sole : ∀ p va page q wa other s, pages p va = some page → page.slot = some s →
    pages q wa = some other → other.slot = some s → q = p ∧ wa = va
  slotsApart : slots.Nodup

namespace SlotsKept

variable {pages : PageView} {used used' : Nat → Bool} {slots : List Nat} {s : Nat} {p : Nat}
  {va : Vaddr}

theorem noPages (hpages : ∀ p va page, pages p va ≠ some page) (hused : ∀ s, used s = false) :
    SlotsKept pages used [] where
  used_iff := by
    intro s
    rw [hused s]
    refine ⟨fun h => absurd h Bool.false_ne_true, ?_⟩
    intro hat
    rcases hat with hmem | ⟨p, va, page, hpage, -⟩
    · exact absurd hmem List.not_mem_nil
    · exact absurd hpage (hpages p va page)
  apart := fun p va page _ hpage => absurd hpage (hpages p va page)
  sole := fun p va page _ _ _ _ hpage => absurd hpage (hpages p va page)
  slotsApart := List.nodup_nil

theorem used_of_recorded (k : SlotsKept pages used slots) {page : Page}
    (hpage : pages p va = some page) (hslot : page.slot = some s) : used s = true :=
  (k.used_iff s).mpr (Or.inr ⟨p, va, page, hpage, hslot⟩)

theorem used_of_mem (k : SlotsKept pages used slots) (h : s ∈ slots) : used s = true :=
  (k.used_iff s).mpr (Or.inl h)

/-! ## Between the area and the hand -/

theorem allocate (k : SlotsKept pages used slots) (hfree : used s = false)
    (hused : ∀ t, used' t = (decide (t = s) || used t)) :
    SlotsKept pages used' (s :: slots) where
  used_iff := by
    intro t
    rw [hused, Bool.or_eq_true, decide_eq_true_eq, k.used_iff, List.mem_cons, or_assoc]
  apart := by
    intro q wa page t hpage hslot hmem
    rcases List.mem_cons.mp hmem with rfl | hrest
    · rw [k.used_of_recorded hpage hslot] at hfree
      contradiction
    · exact k.apart q wa page t hpage hslot hrest
  sole := k.sole
  slotsApart := by
    refine List.nodup_cons.mpr ⟨?_, k.slotsApart⟩
    intro hmem
    rw [k.used_of_mem hmem] at hfree
    contradiction

theorem release (k : SlotsKept pages used (s :: slots))
    (hused : ∀ t, used' t = (!decide (t = s) && used t)) : SlotsKept pages used' slots where
  used_iff := by
    intro t
    rw [hused, Bool.and_eq_true, Bool.not_eq_true', decide_eq_false_iff_not, k.used_iff,
      List.mem_cons]
    constructor
    · intro h
      rcases h with ⟨hne, (heq | hmem) | hrecorded⟩
      · exact absurd heq hne
      · exact Or.inl hmem
      · exact Or.inr hrecorded
    · intro h
      rcases h with hmem | ⟨q, wa, page, hpage, hslot⟩
      · refine ⟨?_, Or.inl (Or.inr hmem)⟩
        intro heq
        subst heq
        exact (List.nodup_cons.mp k.slotsApart).1 hmem
      · refine ⟨?_, Or.inr ⟨q, wa, page, hpage, hslot⟩⟩
        intro heq
        subst heq
        exact k.apart q wa page _ hpage hslot List.mem_cons_self
  apart := by
    intro q wa page t hpage hslot hmem
    exact k.apart q wa page t hpage hslot (List.mem_cons_of_mem s hmem)
  sole := k.sole
  slotsApart := (List.nodup_cons.mp k.slotsApart).2

/-! ## Between the hand and the pages -/

theorem sameSlot (k : SlotsKept pages used slots) {x : Option Page}
    (hslot : x.bind Page.slot = (pages p va).bind Page.slot) :
    SlotsKept (setAt pages p va x) used slots := by
  have hback : ∀ q wa t, (∃ page, setAt pages p va x q wa = some page ∧ page.slot = some t) ↔
      ∃ page, pages q wa = some page ∧ page.slot = some t := by
    intro q wa t
    rw [← Option.bind_eq_some_iff, ← Option.bind_eq_some_iff]
    by_cases hat : q = p ∧ wa = va
    · rcases hat with ⟨rfl, rfl⟩
      rw [setAt_self, hslot]
    · rw [setAt_of_ne hat]
  constructor
  · intro t
    rw [k.used_iff]
    simp only [hback]
  · intro q wa page t hpage hpageSlot
    rcases (hback q wa t).mp ⟨page, hpage, hpageSlot⟩ with ⟨old, hold, holdSlot⟩
    exact k.apart q wa old t hold holdSlot
  · intro q wa page r ua other t hpage hpageSlot hother hotherSlot
    rcases (hback q wa t).mp ⟨page, hpage, hpageSlot⟩ with ⟨old, hold, holdSlot⟩
    rcases (hback r ua t).mp ⟨other, hother, hotherSlot⟩ with ⟨old', hold', holdSlot'⟩
    exact k.sole q wa old r ua old' t hold holdSlot hold' holdSlot'
  · exact k.slotsApart

theorem record (k : SlotsKept pages used (s :: slots)) {next : Page}
    (hnone : (pages p va).bind Page.slot = none) (hslot : next.slot = some s) :
    SlotsKept (setAt pages p va (some next)) used slots := by
  have hold : ∀ q wa page t, setAt pages p va (some next) q wa = some page →
      page.slot = some t → (q = p ∧ wa = va ∧ t = s) ∨ (pages q wa = some page ∧ t ≠ s) := by
    intro q wa page t hpage hpageSlot
    rcases setAt_some_cases hpage with ⟨rfl, rfl, rfl⟩ | ⟨-, hpage⟩
    · cases hslot.symm.trans hpageSlot
      exact Or.inl ⟨rfl, rfl, rfl⟩
    · right
      refine ⟨hpage, ?_⟩
      intro heq
      subst heq
      exact k.apart q wa page _ hpage hpageSlot List.mem_cons_self
  constructor
  · intro t
    rw [k.used_iff, List.mem_cons]
    constructor
    · intro h
      rcases h with (rfl | hmem) | ⟨q, wa, page, hpage, hpageSlot⟩
      · exact Or.inr ⟨p, va, next, setAt_self, hslot⟩
      · exact Or.inl hmem
      · refine Or.inr ⟨q, wa, page, ?_, hpageSlot⟩
        rw [setAt_of_ne, hpage]
        intro hat
        rw [← hat.1, ← hat.2, hpage, Option.bind_some, hpageSlot] at hnone
        contradiction
    · intro h
      rcases h with hmem | ⟨q, wa, page, hpage, hpageSlot⟩
      · exact Or.inl (Or.inr hmem)
      · rcases hold q wa page t hpage hpageSlot with ⟨_, _, rfl⟩ | ⟨hpage', _⟩
        · exact Or.inl (Or.inl rfl)
        · exact Or.inr ⟨q, wa, page, hpage', hpageSlot⟩
  · intro q wa page t hpage hpageSlot hmem
    rcases hold q wa page t hpage hpageSlot with ⟨_, _, rfl⟩ | ⟨hpage', _⟩
    · exact (List.nodup_cons.mp k.slotsApart).1 hmem
    · exact k.apart q wa page t hpage' hpageSlot (List.mem_cons_of_mem s hmem)
  · intro q wa page r ua other t hpage hpageSlot hother hotherSlot
    rcases hold q wa page t hpage hpageSlot with ⟨rfl, rfl, rfl⟩ | ⟨hpage', hne⟩
    · rcases hold r ua other _ hother hotherSlot with ⟨rfl, rfl, _⟩ | ⟨_, hne⟩
      · exact ⟨rfl, rfl⟩
      · exact absurd rfl hne
    · rcases hold r ua other t hother hotherSlot with ⟨_, _, heq⟩ | ⟨hother', _⟩
      · exact absurd heq hne
      · exact k.sole q wa page r ua other t hpage' hpageSlot hother' hotherSlot
  · exact (List.nodup_cons.mp k.slotsApart).2

theorem forget (k : SlotsKept pages used slots) {page : Page} {x : Option Page}
    (hpage : pages p va = some page) (hslot : page.slot = some s)
    (hnew : x.bind Page.slot = none) : SlotsKept (setAt pages p va x) used (s :: slots) := by
  have hold : ∀ q wa other t, setAt pages p va x q wa = some other → other.slot = some t →
      ¬(q = p ∧ wa = va) ∧ pages q wa = some other :=
    fun _ _ _ _ hother hotherSlot => eq_some_of_setAt hnew hother hotherSlot
  constructor
  · intro t
    rw [k.used_iff, List.mem_cons]
    constructor
    · intro h
      rcases h with hmem | ⟨q, wa, other, hother, hotherSlot⟩
      · exact Or.inl (Or.inr hmem)
      · by_cases hat : q = p ∧ wa = va
        · rw [hat.1, hat.2, hpage] at hother
          cases hother
          rw [hslot] at hotherSlot
          cases hotherSlot
          exact Or.inl (Or.inl rfl)
        · exact Or.inr ⟨q, wa, other, (setAt_of_ne hat).trans hother, hotherSlot⟩
    · intro h
      rcases h with (rfl | hmem) | ⟨q, wa, other, hother, hotherSlot⟩
      · exact Or.inr ⟨p, va, page, hpage, hslot⟩
      · exact Or.inl hmem
      · exact Or.inr ⟨q, wa, other, (hold q wa other t hother hotherSlot).2, hotherSlot⟩
  · intro q wa other t hother hotherSlot hmem
    rcases hold q wa other t hother hotherSlot with ⟨hne, hother'⟩
    rcases List.mem_cons.mp hmem with rfl | hrest
    · exact hne (k.sole p va page q wa other _ hpage hslot hother' hotherSlot)
    · exact k.apart q wa other t hother' hotherSlot hrest
  · intro q wa other r ua third t hother hotherSlot hthird hthirdSlot
    exact k.sole q wa other r ua third t (hold q wa other t hother hotherSlot).2 hotherSlot
      (hold r ua third t hthird hthirdSlot).2 hthirdSlot
  · exact List.nodup_cons.mpr ⟨k.apart p va page s hpage hslot, k.slotsApart⟩

end SlotsKept
end DemandPaging
