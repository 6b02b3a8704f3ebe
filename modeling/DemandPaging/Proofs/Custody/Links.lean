import DemandPaging.Proofs.Custody.Frames

/-!
# Custody of mappings

A mapping leads to the frame of the page registered at its address and allows writes exactly if
the page does. While an operation runs there may be mappings whose page is registered no longer.
A resident page is mapped, unless its frame is being filled, its content is being saved, or the
memory management unit has refused a mapping.
-/

namespace DemandPaging

/-- The frame that an address of a process is mapped to, and whether writes are allowed. -/
abbrev LinkView := Nat → Vaddr → Option (Nat × Bool)

/-- Every mapping belongs to a page, and every page to a mapping. -/
structure LinksKept (pages : PageView) (links : LinkView) (unlinked : List (Nat × Vaddr))
    (filling parting : List Nat) (refused : Nat → Prop) : Prop where
  backed : ∀ p va f w, links p va = some (f, w) → (p, va) ∈ unlinked ∨
    ∃ page, pages p va = some page ∧ page.frame = some f ∧ page.writable = w
  linked : ∀ p va page f, pages p va = some page → page.frame = some f →
    (f ∈ filling ∨ f ∈ parting) ∨ (links p va).isSome = true ∨ refused p

namespace LinksKept

variable {pages : PageView} {links : LinkView} {unlinked unlinked' : List (Nat × Vaddr)}
  {filling parting : List Nat} {refused : Nat → Prop} {f : Nat} {p : Nat} {va : Vaddr}

theorem noPages (hpages : ∀ p va page, pages p va ≠ some page)
    (hlinks : ∀ p va l, links p va ≠ some l) (refused : Nat → Prop) :
    LinksKept pages links [] [] [] refused where
  backed := fun p va f w hlink => absurd hlink (hlinks p va (f, w))
  linked := fun p va page _ hpage => absurd hpage (hpages p va page)

theorem unlinked_of_idle (k : LinksKept pages links unlinked filling parting refused)
    (hidle : (pages p va).bind Page.frame = none) (hlink : (links p va).isSome = true) :
    (p, va) ∈ unlinked := by
  rcases Option.isSome_iff_exists.mp hlink with ⟨⟨g, w⟩, hg⟩
  rcases k.backed p va g w hg with hmem | ⟨page, hpage, hframe, _⟩
  · exact hmem
  · rw [hpage, Option.bind_some, hframe] at hidle
    contradiction

/-! ## Changes of the mappings -/

theorem link (k : LinksKept pages links unlinked filling parting refused) {page : Page}
    (hpage : pages p va = some page) (hframe : page.frame = some f) :
    LinksKept pages (setAt links p va (some (f, page.writable))) unlinked filling parting
      refused where
  backed := by
    intro q wa g w hlink
    by_cases hat : q = p ∧ wa = va
    · rcases hat with ⟨rfl, rfl⟩
      rw [setAt_self] at hlink
      cases hlink
      exact Or.inr ⟨page, hpage, hframe, rfl⟩
    · rw [setAt_of_ne hat] at hlink
      exact k.backed q wa g w hlink
  linked := by
    intro q wa other g hother hframe'
    by_cases hat : q = p ∧ wa = va
    · rcases hat with ⟨rfl, rfl⟩
      exact Or.inr (Or.inl (by rw [setAt_self]; rfl))
    · rw [setAt_of_ne hat]
      exact k.linked q wa other g hother hframe'

theorem unlink (k : LinksKept pages links unlinked filling parting refused)
    (hpage : ∀ page g, pages p va = some page → page.frame = some g → g ∈ filling ∨ g ∈ parting)
    (hunlinked : ∀ x ∈ unlinked, x ≠ (p, va) → x ∈ unlinked') :
    LinksKept pages (setAt links p va none) unlinked' filling parting refused where
  backed := by
    intro q wa g w hlink
    by_cases hat : q = p ∧ wa = va
    · rcases hat with ⟨rfl, rfl⟩
      rw [setAt_self] at hlink
      contradiction
    · rw [setAt_of_ne hat] at hlink
      refine (k.backed q wa g w hlink).imp_left ?_
      intro hmem
      apply hunlinked _ hmem
      intro hat
      rcases hat with ⟨rfl, rfl⟩
      exact hat ⟨rfl, rfl⟩
  linked := by
    intro q wa other g hother hframe
    by_cases hat : q = p ∧ wa = va
    · rcases hat with ⟨rfl, rfl⟩
      exact Or.inl (hpage other g hother hframe)
    · rw [setAt_of_ne hat]
      exact k.linked q wa other g hother hframe

/-! ## Weaker and stronger rules -/

theorem mono (k : LinksKept pages links unlinked filling parting refused)
    {refused' : Nat → Prop} (hrefused : ∀ q, refused q → refused' q) :
    LinksKept pages links unlinked filling parting refused' where
  backed := k.backed
  linked := by
    intro q wa page g hpage hframe
    exact (k.linked q wa page g hpage hframe).imp_right fun h => h.imp_right (hrefused q)

theorem expect (k : LinksKept pages links unlinked filling parting refused)
    (hunlinked : ∀ x ∈ unlinked, x ∈ unlinked') :
    LinksKept pages links unlinked' filling parting refused where
  backed := by
    intro q wa g w hlink
    exact (k.backed q wa g w hlink).imp_left (hunlinked _)
  linked := k.linked

theorem excuse (k : LinksKept pages links unlinked filling parting refused)
    {filling' parting' : List Nat} (hfilling : ∀ g ∈ filling, g ∈ filling')
    (hparting : ∀ g ∈ parting, g ∈ parting') :
    LinksKept pages links unlinked filling' parting' refused where
  backed := k.backed
  linked := by
    intro q wa page g hpage hframe
    exact (k.linked q wa page g hpage hframe).imp_left fun h => h.imp (hfilling g) (hparting g)

/-- Fewer frames are excused when the page in the frame that loses its excuse needs none. -/
theorem settle (k : LinksKept pages links unlinked filling parting refused)
    {filling' parting' : List Nat}
    (hlists : ∀ g, g ∈ filling ∨ g ∈ parting → g = f ∨ g ∈ filling' ∨ g ∈ parting')
    (hpage : ∀ q wa page, pages q wa = some page → page.frame = some f →
      (links q wa).isSome = true ∨ refused q) :
    LinksKept pages links unlinked filling' parting' refused where
  backed := k.backed
  linked := by
    intro q wa page g hother hframe
    rcases k.linked q wa page g hother hframe with hexcused | hrest
    · rcases hlists g hexcused with rfl | hstill
      · exact Or.inr (hpage q wa page hother hframe)
      · exact Or.inl hstill
    · exact Or.inr hrest

/-! ## Changes of the pages -/

theorem vacate (k : LinksKept pages links unlinked filling parting refused) {x : Option Page}
    (hlink : (links p va).isSome = true → (p, va) ∈ unlinked)
    (hnew : x.bind Page.frame = none) :
    LinksKept (setAt pages p va x) links unlinked filling parting refused where
  backed := by
    intro q wa g w h
    by_cases hat : q = p ∧ wa = va
    · rcases hat with ⟨rfl, rfl⟩
      exact Or.inl (hlink (by rw [h]; rfl))
    · rw [setAt_of_ne hat]
      exact k.backed q wa g w h
  linked := by
    intro q wa page g hpage hframe
    exact k.linked q wa page g (eq_some_of_setAt hnew hpage hframe).2 hframe

theorem sameFrame (k : LinksKept pages links unlinked filling parting refused)
    {page next : Page} (hpage : pages p va = some page) (hframe : next.frame = page.frame)
    (hwritable : next.writable = page.writable) :
    LinksKept (setAt pages p va (some next)) links unlinked filling parting refused where
  backed := by
    intro q wa g w hlink
    refine (k.backed q wa g w hlink).imp_right ?_
    intro h
    rcases h with ⟨other, hother, hframe', hwritable'⟩
    by_cases hat : q = p ∧ wa = va
    · rcases hat with ⟨rfl, rfl⟩
      rw [hpage] at hother
      cases hother
      exact ⟨next, setAt_self, hframe.trans hframe', hwritable.trans hwritable'⟩
    · exact ⟨other, (setAt_of_ne hat).trans hother, hframe', hwritable'⟩
  linked := by
    intro q wa other g hother hframe'
    rcases setAt_some_cases hother with ⟨rfl, rfl, rfl⟩ | ⟨-, hother⟩
    · exact k.linked _ _ page g hpage (hframe.symm.trans hframe')
    · exact k.linked q wa other g hother hframe'

theorem attach (k : LinksKept pages links unlinked filling parting refused) {next : Page}
    (hidle : (pages p va).bind Page.frame = none) (hframe : next.frame = some f)
    (hexcused : f ∈ filling ∨ f ∈ parting) :
    LinksKept (setAt pages p va (some next)) links unlinked filling parting refused where
  backed := by
    intro q wa g w hlink
    by_cases hat : q = p ∧ wa = va
    · rcases hat with ⟨rfl, rfl⟩
      exact Or.inl (k.unlinked_of_idle hidle (by rw [hlink]; rfl))
    · rw [setAt_of_ne hat]
      exact k.backed q wa g w hlink
  linked := by
    intro q wa other g hother hframe'
    rcases setAt_some_cases hother with ⟨rfl, rfl, rfl⟩ | ⟨-, hother⟩
    · cases hframe.symm.trans hframe'
      exact Or.inl hexcused
    · exact k.linked q wa other g hother hframe'

end LinksKept
end DemandPaging
