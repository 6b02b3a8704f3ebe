import DemandPaging.Proofs.Machine.Devices

/-!
# Likeness of machines

What an operation leaves alone. An eviction takes frames and slots from pages and gives them
others, but it changes nothing else about a page; `Page.outline` is what remains. The relations
below compare the registered pages of two machines up to that, but for the pages that the operation
is about.
-/

namespace DemandPaging

def Page.outline (page : Page) : Page :=
  { page with frame := none, state := page.state.copied }

namespace Machine

def Nowhere : Nat → Vaddr → Prop :=
  fun _ _ => False

def At (p : Nat) (va : Vaddr) : Nat → Vaddr → Prop :=
  fun q wa => q = p ∧ wa = va

/-! ## The same pages -/

/-- But for the given places both machines have the same pages, up to frames and slots. -/
structure AlikeBut (places : Nat → Vaddr → Prop) (m n : Machine) : Prop where
  layout : n.layout = m.layout
  pages : ∀ p va, ¬places p va →
    (n.page? p va).map Page.outline = (m.page? p va).map Page.outline

namespace AlikeBut

variable {places places' : Nat → Vaddr → Prop} {l m n : Machine} {p : Nat} {va : Vaddr}
  {page : Page}

theorem refl (m : Machine) : AlikeBut places m m :=
  ⟨rfl, fun _ _ _ => rfl⟩

theorem trans (h : AlikeBut places l m) (h' : AlikeBut places m n) : AlikeBut places l n :=
  ⟨h'.layout.trans h.layout, fun p va hva => (h'.pages p va hva).trans (h.pages p va hva)⟩

theorem mono (h : AlikeBut places m n) (hplaces : ∀ p va, places p va → places' p va) :
    AlikeBut places' m n :=
  ⟨h.layout, fun p va hva => h.pages p va fun hin => hva (hplaces p va hin)⟩

theorem of_page?_eq (hlayout : n.layout = m.layout) (hpages : n.page? = m.page?) :
    AlikeBut places m n :=
  ⟨hlayout, fun _ _ _ => by rw [hpages]⟩

theorem of_beside (h : Beside m n) : AlikeBut places m n :=
  ⟨h.layout, fun p va _ => congrArg (Option.map Page.outline) (h.page? p va)⟩

theorem modifyPage (m : Machine) (p : Nat) (va : Vaddr) (change : Page → Page) :
    AlikeBut (At p va) m (m.modifyPage p va change) :=
  ⟨rfl, fun _ _ hne => congrArg (Option.map Page.outline) (page?_modifyPage_ne hne)⟩

theorem of_setAt {x : Option Page} (hlayout : n.layout = m.layout)
    (hpages : n.page? = setAt m.page? p va x) : AlikeBut (At p va) m n := by
  refine ⟨hlayout, ?_⟩
  intro q wa hne
  rw [hpages, setAt_of_ne hne]

theorem modifyMmu (m : Machine) (p : Nat) (change : Mmu → Mmu) :
    AlikeBut places m (m.modifyMmu p change) :=
  .of_page?_eq rfl (page?_modifyMmu_eq m p change)

theorem modifyMappings (m : Machine) (p : Nat)
    (change : AddressMap FileMapping → AddressMap FileMapping) :
    AlikeBut places m (m.modifyMappings p change) := by
  refine .of_page?_eq rfl ?_
  funext q wa
  exact page?_modifyMappings m p q change wa

theorem recorded (m : Machine) (event : Event) : AlikeBut places m (m.recorded event) :=
  .of_page?_eq rfl rfl

theorem setFrame (m : Machine) (p : Nat) (va : Vaddr) (frame : Option Nat) :
    AlikeBut places m (m.modifyPage p va fun q => { q with frame := frame }) := by
  refine ⟨rfl, ?_⟩
  intro q wa _
  rw [page?_modifyPage]
  split
  · rw [Option.map_map]
    rfl
  · rfl

theorem unchanged (h : AlikeBut (At p va) m n)
    (hpage : (n.page? p va).map Page.outline = (m.page? p va).map Page.outline) :
    AlikeBut Nowhere m n := by
  refine ⟨h.layout, ?_⟩
  intro q wa _
  by_cases hat : q = p ∧ wa = va
  · rw [hat.1, hat.2]
    exact hpage
  · exact h.pages q wa hat

theorem isSome_page? (h : AlikeBut places m n) (hva : ¬places p va) :
    (n.page? p va).isSome = (m.page? p va).isSome := by
  have hsame := congrArg Option.isSome (h.pages p va hva)
  rw [Option.isSome_map, Option.isSome_map] at hsame
  exact hsame

theorem page?_eq_some (h : AlikeBut places m n) (hva : ¬places p va)
    (hpage : n.page? p va = some page) :
    ∃ old, m.page? p va = some old ∧ page.outline = old.outline := by
  have hsame := h.pages p va hva
  rw [hpage] at hsame
  rcases Option.map_eq_some_iff.mp hsame.symm with ⟨old, hold, hequal⟩
  exact ⟨old, hold, hequal.symm⟩

end AlikeBut

/-! ## Fewer pages -/

structure Cleared (places : Nat → Vaddr → Prop) (m n : Machine) : Prop where
  layout : n.layout = m.layout
  gone : ∀ p va, places p va → n.page? p va = none
  kept : ∀ p va, ¬places p va → n.page? p va = m.page? p va

namespace Cleared

variable {places places' : Nat → Vaddr → Prop} {l m n : Machine}

theorem alikeBut (h : Cleared places m n) : AlikeBut places m n :=
  ⟨h.layout, fun p va hva => congrArg (Option.map Page.outline) (h.kept p va hva)⟩

theorem of_setAt {p : Nat} {va : Vaddr} (hlayout : n.layout = m.layout)
    (hpages : n.page? = setAt m.page? p va none) : Cleared (At p va) m n where
  layout := hlayout
  gone := by
    intro q wa hend
    rcases hend with ⟨rfl, rfl⟩
    rw [hpages, setAt_self]
  kept := by
    intro q wa hne
    rw [hpages, setAt_of_ne hne]

theorem absent {p : Nat} {va : Vaddr} (hgone : m.page? p va = none) : Cleared (At p va) m m where
  layout := rfl
  gone := by
    intro q wa hend
    rcases hend with ⟨rfl, rfl⟩
    exact hgone
  kept := fun _ _ _ => rfl

theorem nowhere (hlayout : n.layout = m.layout) (hpages : n.page? = m.page?) :
    Cleared Nowhere m n :=
  ⟨hlayout, fun _ _ hin => hin.elim, fun _ _ _ => by rw [hpages]⟩

theorem trans (h : Cleared places l m) (h' : Cleared places' m n) :
    Cleared (fun p va => places p va ∨ places' p va) l n where
  layout := h'.layout.trans h.layout
  gone := by
    intro p va hin
    by_cases hlater : places' p va
    · exact h'.gone p va hlater
    · rw [h'.kept p va hlater]
      exact h.gone p va (hin.resolve_right hlater)
  kept := by
    intro p va hout
    rw [h'.kept p va fun hin => hout (Or.inr hin), h.kept p va fun hin => hout (Or.inl hin)]

theorem congr (h : Cleared places m n) (hplaces : ∀ p va, places' p va ↔ places p va) :
    Cleared places' m n where
  layout := h.layout
  gone := fun p va hin => h.gone p va ((hplaces p va).mp hin)
  kept := fun p va hout => h.kept p va fun hin => hout ((hplaces p va).mpr hin)

end Cleared

/-- Pages of files may be new, and any page may be gone. -/
structure Inherits (m n : Machine) : Prop where
  layout : n.layout = m.layout
  pages : ∀ p va page, n.page? p va = some page →
    (∃ old, m.page? p va = some old ∧ page.outline = old.outline) ∨
      ∃ x, page.state = .uninit (.file x)

namespace Inherits

variable {places : Nat → Vaddr → Prop} {l m n : Machine}

theorem of_alike (h : AlikeBut Nowhere m n) : Inherits m n :=
  ⟨h.layout, fun _ _ _ hpage => Or.inl (h.page?_eq_some id hpage)⟩

theorem refl (m : Machine) : Inherits m m :=
  .of_alike (.refl m)

theorem of_cleared (h : Cleared places m n) : Inherits m n := by
  refine ⟨h.layout, ?_⟩
  intro p va page hpage
  by_cases hva : places p va
  · rw [h.gone p va hva] at hpage
    contradiction
  · rw [h.kept p va hva] at hpage
    exact Or.inl ⟨page, hpage, rfl⟩

theorem trans (h : Inherits l m) (h' : Inherits m n) : Inherits l n := by
  refine ⟨h'.layout.trans h.layout, ?_⟩
  intro p va page hpage
  rcases h'.pages p va page hpage with ⟨old, hold, hsame⟩ | hfile
  · rcases h.pages p va old hold with ⟨first, hfirst, hsame'⟩ | ⟨x, hfile⟩
    · exact Or.inl ⟨first, hfirst, hsame.trans hsame'⟩
    · right
      refine ⟨x, PageState.copied_eq_uninit_iff.mp ?_⟩
      rw [show page.state.copied = old.state.copied from congrArg Page.state hsame, hfile]
      rfl
  · exact Or.inr hfile

theorem withPage {p : Nat} {page : Page} {x : FileExtent} (hp : p < m.processes.length)
    (hstate : page.state = .uninit (.file x)) : Inherits m (m.withPage p page) := by
  refine ⟨rfl, ?_⟩
  intro q wa other hother
  rw [page?_withPage hp] at hother
  split at hother
  · cases hother
    exact Or.inr ⟨x, hstate⟩
  · exact Or.inl ⟨other, hother, rfl⟩

end Inherits

/-! ## Machines before and after an eviction -/

/-- Pages may have lost their frames, but no page whose lock is listed. -/
structure Undisturbed (locks : List Lock) (m n : Machine) : Prop where
  layout : n.layout = m.layout
  nextId : n.nextId = m.nextId
  loaderRuns : n.loaderRuns = m.loaderRuns
  count : n.processes.length = m.processes.length
  pages : ∀ p va, (n.page? p va).map Page.outline = (m.page? p va).map Page.outline
  locked : ∀ p va, .page p va ∈ locks → n.page? p va = m.page? p va
  tornDown : ∀ p, (n.process p).tornDown = (m.process p).tornDown
  ended : ∀ p, (n.process p).ended = (m.process p).ended
  mappings : ∀ p, (n.process p).mappings = (m.process p).mappings

namespace Undisturbed

variable {l m n : Machine} {locks : List Lock}

theorem refl (locks : List Lock) (m : Machine) : Undisturbed locks m m :=
  ⟨rfl, rfl, rfl, rfl, fun _ _ => rfl, fun _ _ _ => rfl, fun _ => rfl, fun _ => rfl,
    fun _ => rfl⟩

theorem trans (h : Undisturbed locks l m) (h' : Undisturbed locks m n) :
    Undisturbed locks l n where
  layout := h'.layout.trans h.layout
  nextId := h'.nextId.trans h.nextId
  loaderRuns := h'.loaderRuns.trans h.loaderRuns
  count := h'.count.trans h.count
  pages := fun p va => (h'.pages p va).trans (h.pages p va)
  locked := fun p va hlock => (h'.locked p va hlock).trans (h.locked p va hlock)
  tornDown := fun p => (h'.tornDown p).trans (h.tornDown p)
  ended := fun p => (h'.ended p).trans (h.ended p)
  mappings := fun p => (h'.mappings p).trans (h.mappings p)

theorem of_beside (h : Beside m n) : Undisturbed locks m n where
  layout := h.layout
  nextId := h.nextId
  loaderRuns := h.loaderRuns
  count := congrArg List.length h.processes
  pages := fun p va => congrArg (Option.map Page.outline) (h.page? p va)
  locked := fun p va _ => h.page? p va
  tornDown := fun p => congrArg Process.tornDown (h.process p)
  ended := fun p => congrArg Process.ended (h.process p)
  mappings := fun p => congrArg Process.mappings (h.process p)

theorem mono (h : Undisturbed locks m n) {fewer : List Lock} (hfewer : ∀ l ∈ fewer, l ∈ locks) :
    Undisturbed fewer m n :=
  { h with locked := fun p va hlock => h.locked p va (hfewer _ hlock) }

theorem modifyMmu (locks : List Lock) (m : Machine) (p : Nat) (change : Mmu → Mmu) :
    Undisturbed locks m (m.modifyMmu p change) where
  layout := rfl
  nextId := rfl
  loaderRuns := rfl
  count := length_modifyProcess m p _
  pages := fun q va => congrArg (Option.map Page.outline) (page?_modifyMmu m p q change va)
  locked := fun q va _ => page?_modifyMmu m p q change va
  tornDown := fun q => process_modifyProcess_of_forall m p q Process.tornDown fun _ => rfl
  ended := fun q => process_modifyProcess_of_forall m p q Process.ended fun _ => rfl
  mappings := fun q => process_modifyProcess_of_forall m p q Process.mappings fun _ => rfl

theorem modifyPage {p : Nat} {va : Vaddr} {change : Page → Page}
    (hchange : ∀ page, m.page? p va = some page → (change page).outline = page.outline)
    (hfree : Lock.page p va ∉ locks) : Undisturbed locks m (m.modifyPage p va change) where
  layout := rfl
  nextId := rfl
  loaderRuns := rfl
  count := length_modifyProcess m p _
  pages := by
    intro q wa
    rw [page?_modifyPage]
    split
    · rename_i hat
      rw [hat.1, hat.2]
      cases hpage : m.page? p va with
      | none => rfl
      | some page => exact congrArg some (hchange page hpage)
    · rfl
  locked := by
    intro q wa hlock
    apply page?_modifyPage_ne
    intro hat
    rcases hat with ⟨rfl, rfl⟩
    exact hfree hlock
  tornDown := fun q => process_modifyProcess_of_forall m p q Process.tornDown fun _ => rfl
  ended := fun q => process_modifyProcess_of_forall m p q Process.ended fun _ => rfl
  mappings := fun q => process_modifyProcess_of_forall m p q Process.mappings fun _ => rfl

theorem alike (h : Undisturbed locks m n) {places : Nat → Vaddr → Prop} : AlikeBut places m n :=
  ⟨h.layout, fun p va _ => h.pages p va⟩

end Undisturbed
end Machine
end DemandPaging
