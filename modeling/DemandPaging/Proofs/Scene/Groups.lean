import DemandPaging.Proofs.Scene.Operation

/-!
# File mappings and their pages

A page of a file mapping says to which mapping it belongs, and a file mapping lists its pages. The
lists are right in every scene. What a page says is right, too, until a mapping with the same base
takes the place of the one that lists the page.
-/

namespace DemandPaging

/-! ## What pages say -/

/-- A deed that changes no file mapping and neither adds nor takes away a page of one. -/
def Deed.KeepsLinks : Deed → Prop
  | register _ page | remove _ page => page.mapping = none
  | regroup .. => False
  | _ => True

theorem Deed.Evicting.keepsLinks {deed : Deed} {locks : List Lock} (h : deed.Evicting locks) :
    deed.KeepsLinks := by
  cases deed with
  | save | evict | strand | relink => trivial
  | start | register | regroup | load | remove | clone | store => exact h.elim

theorem Deed.Claiming.keepsLinks {deed : Deed} {q : Nat} {va : Vaddr} (h : deed.Claiming q va) :
    deed.KeepsLinks := by
  rcases h with hevicting | ⟨page, -, rfl⟩
  · exact hevicting.keepsLinks
  · trivial

namespace Scene

def link (v : Scene) (p : Nat) (va : Vaddr) : Option Vaddr :=
  (v.sight p va).page.bind Page.mapping

variable {v w : Scene} {p q s t : Nat} {va wa b : Vaddr} {sight : Sight}

theorem isSome_page_of_link (h : v.link p va = some b) :
    (v.sight p va).page.isSome = true := by
  rcases Option.bind_eq_some_iff.mp h with ⟨page, hpage, -⟩
  rw [hpage]
  rfl

theorem link_see : (v.see p va sight).link =
    setAt v.link p va (sight.page.bind Page.mapping) :=
  map_setAt fun seen : Sight => seen.page.bind Page.mapping

theorem link_see_same {old : Sight} (hold : v.sight p va = old)
    (hsame : sight.page.bind Page.mapping = old.page.bind Page.mapping) :
    (v.see p va sight).link = v.link := by
  rw [link_see, hsame, ← hold]
  exact setAt_eq_self rfl

theorem Step.link_eq {deed : Deed} (hstep : Step deed v w) (hkeeps : deed.KeepsLinks) :
    w.link = v.link := by
  cases hstep with
  | start | save => rfl
  | regroup => exact hkeeps.elim
  | register free idle => exact link_see_same free hkeeps
  | load sight idle image => exact link_see_same sight rfl
  | evict sight evicted saved => exact link_see_same sight rfl
  | strand sight refused => exact link_see_same sight rfl
  | relink sight frame anon => exact link_see_same sight rfl
  | forget sight => exact link_see_same sight hkeeps.symm
  | remove sight saved => exact link_see_same sight hkeeps.symm
  | clone sight idle => exact link_see_same sight rfl
  | @store _ p va data writable =>
      funext q wa
      exact congrArg (Option.bind · Page.mapping) (page_stored q)

theorem Steps.link_eq {allowed : Deed → Prop} (h : Steps allowed v w)
    (hkeeps : ∀ deed, allowed deed → deed.KeepsLinks) : w.link = v.link := by
  refine h.keeps (P := fun w => w.link = v.link) ?_ rfl
  intro deed u w hdeed hstep hu
  exact (hstep.link_eq (hkeeps deed hdeed)).trans hu

theorem Copied.link {page copy : Page} (h : v.Copied s t page copy w) (hva : copy.va = page.va) :
    w.link = setAt v.link t page.va copy.mapping := by
  have hregistered : (v.see t page.va ⟨some copy, none, none⟩).link =
      setAt v.link t page.va copy.mapping := link_see
  rcases h.outcome with ⟨-, -, rfl⟩ | ⟨-, u, dirty, bytes, hsteps, ⟨f, rfl⟩, -⟩
  · exact hregistered
  · have hevicted : u.link = (v.see t page.va ⟨some copy, none, none⟩).link :=
      hsteps.link_eq fun _ hdeed => hdeed.keepsLinks
    have hsight : u.sight t copy.va = ⟨some copy, none, none⟩ := by
      rw [hva, hsteps.sight_locked List.mem_cons_self]
      exact sight_see_self
    rw [← hregistered, ← hevicted]
    exact link_see_same hsight rfl

theorem Turns.link (h : Turns s t v vas w) :
    (∀ wa ∈ vas, w.link t wa = v.link s wa) ∧
      ∀ q wa, ¬(q = t ∧ wa ∈ vas) → w.link q wa = v.link q wa := by
  induction h with
  | nil v => exact ⟨fun wa hwa => absurd hwa List.not_mem_nil, fun _ _ _ => rfl⟩
  | @cons v w u va rest page copy id found address alike copied later ih =>
      subst alike address
      have hne : s ≠ t := by
        rintro rfl
        rw [copied.fresh] at found
        contradiction
      have hturn := copied.link rfl
      have hlink : v.link s page.va = page.mapping := by
        unfold Scene.link
        rw [found]
        rfl
      constructor
      · intro wa hwa
        by_cases hlater : wa ∈ rest
        · rw [ih.1 wa hlater, hturn, setAt_of_ne fun hat => hne hat.1]
        · have hfirst := (List.mem_cons.mp hwa).resolve_right hlater
          subst hfirst
          rw [ih.2 t _ fun hin => hlater hin.2, hturn, setAt_self, hlink]
          rfl
      · intro q wa hout
        rw [ih.2 q wa fun hin => hout ⟨hin.1, List.mem_cons_of_mem _ hin.2⟩, hturn]
        refine setAt_of_ne fun hat => hout ⟨hat.1, ?_⟩
        rw [hat.2]
        exact List.mem_cons_self

/-! ## Mappings and their pages -/

structure Loses (v : Scene) (p : Nat) (places : Vaddr → Prop) (groups : AddressMap FileMapping)
    (w : Scene) : Prop where
  gone : ∀ va, places va → w.link p va = none
  kept : ∀ q va, ¬(q = p ∧ places va) → w.link q va = v.link q va
  mappings : w.mappings = (v.grouped p groups).mappings

structure Gains (v : Scene) (p : Nat) (mapping : FileMapping) (w : Scene) : Prop where
  inhabited : mapping.members ≠ []
  distinct : mapping.members.Nodup
  free : ∀ va ∈ mapping.members, (v.sight p va).page = none
  added : ∀ va ∈ mapping.members, w.link p va = some mapping.base
  kept : ∀ q va, ¬(q = p ∧ va ∈ mapping.members) → w.link q va = v.link q va
  mappings : w.mappings = (v.grouped p ((v.mappings p).insert mapping.base mapping)).mappings

structure Merges (v : Scene) (s t : Nat) (w : Scene) : Prop where
  free : ∀ va, (v.sight s va).page.isSome = true → (v.sight t va).page = none
  added : ∀ va, (v.sight s va).page.isSome = true → w.link t va = v.link s va
  kept : ∀ q va, ¬(q = t ∧ (v.sight s va).page.isSome = true) → w.link q va = v.link q va
  mappings : w.mappings =
    (v.grouped t (Machine.mergeMappings (v.mappings t) (v.mappings s).entries)).mappings

/-- Copies were added to the pages of a process, but its file mappings do not list them. -/
structure Spoils (v : Scene) (t : Nat) (w : Scene) : Prop where
  others : ∀ q va, q ≠ t → w.link q va = v.link q va
  kept : ∀ va b, v.link t va = some b → w.link t va = some b
  mappings : w.mappings = v.mappings

/-! A page that says where it belongs keeps saying so. -/

theorem Gains.link_mono {mapping : FileMapping} (h : v.Gains p mapping w)
    (hva : v.link q va = some b) : w.link q va = some b := by
  rw [h.kept q va, hva]
  rintro ⟨rfl, hin⟩
  have hpage := isSome_page_of_link hva
  rw [h.free va hin] at hpage
  contradiction

theorem Merges.link_mono (h : v.Merges s t w) (hva : v.link q va = some b) :
    w.link q va = some b := by
  rw [h.kept q va, hva]
  rintro ⟨rfl, hin⟩
  have hpage := isSome_page_of_link hva
  rw [h.free va hin] at hpage
  contradiction

theorem Spoils.link_mono (h : v.Spoils t w) (hva : v.link q va = some b) :
    w.link q va = some b := by
  by_cases hq : q = t
  · subst hq
    exact h.kept va b hva
  · rw [h.others q va hq]
    exact hva

end Scene

def Operation.Relinks (op : Operation) (v w : Scene) : Prop :=
  match op with
  | .map p base length .. => ∃ members, v.Gains p ⟨base, length, members⟩ w
  | .remove p _ => ∃ va, v.Loses p (· = va) ((v.mappings p).leaving (v.link p va) va) w
  | .unmap p _ => w.link = v.link ∧ w.mappings = v.mappings ∨
      ∃ base mapping, (v.mappings p).get? base = some mapping ∧
        v.Loses p (· ∈ mapping.members) ((v.mappings p).erase base) w
  | .finish p | .teardown p => v.Loses p (fun _ => True) .empty w
  | .fork s t => v.Merges s t w
  | _ => w.link = v.link ∧ w.mappings = v.mappings

def Operation.Mislinks (op : Operation) (v w : Scene) : Prop :=
  match op with
  | .fork _ t => v.Spoils t w
  | _ => w.link = v.link ∧ w.mappings = v.mappings

/-! ## Calls -/

/-- The calls that mapped files, in their order, and what came of them. -/
structure MappingCalls where
  count : Nat
  /-- The base that a call asked for. -/
  base : Nat → Vaddr
  /-- The call that made the page at an address, or the page that this one is a copy of. -/
  maker : Nat → Vaddr → Nat
  /-- Whether another mapping took the place of the one that listed the page at an address. -/
  replaced : Nat → Vaddr → Bool
  /-- Whether the page table was left behind by a copy that failed. -/
  void : Nat → Bool

namespace MappingCalls

def blank : MappingCalls :=
  ⟨0, fun _ => 0, fun _ _ => 0, fun _ _ => false, fun _ => false⟩

def mapped (c : MappingCalls) (v : Scene) (p : Nat) (start : Vaddr) : MappingCalls where
  count := c.count + 1
  base := fun n => if n = c.count then start else c.base n
  maker := fun q va => if (v.sight q va).page.isSome then c.maker q va else c.count
  replaced := fun q va => (v.sight q va).page.isSome &&
    (c.replaced q va || decide (q = p ∧ v.link q va = some start))
  void := c.void

def copied (c : MappingCalls) (v : Scene) (s t : Nat) : MappingCalls where
  count := c.count
  base := c.base
  maker := fun q va =>
    if q = t ∧ (v.sight s va).page.isSome = true then c.maker s va else c.maker q va
  replaced := fun q va =>
    if q = t ∧ (v.sight s va).page.isSome = true then c.replaced s va
    else c.replaced q va || (decide (q = t) && (v.link q va).any (v.mappings s).contains)
  void := fun q => c.void q || (decide (q = t) && c.void s)

def spoiled (c : MappingCalls) (t : Nat) : MappingCalls :=
  { c with void := fun q => c.void q || decide (q = t) }

def served (c : MappingCalls) (v : Scene) (op : Operation) : MappingCalls :=
  match op with
  | .map p start .. => c.mapped v p start
  | .fork s t => c.copied v s t
  | _ => c

def refused (c : MappingCalls) (op : Operation) : MappingCalls :=
  match op with
  | .fork _ t => c.spoiled t
  | _ => c

/-- The call that made the page at an address, if it made one and the page is still there. -/
def callAt (c : MappingCalls) (v : Scene) (p : Nat) (va : Vaddr) : Option Nat :=
  (v.link p va).map fun _ => c.maker p va

variable {c : MappingCalls} {v : Scene} {p q s t : Nat} {start b : Vaddr}

theorem valid_of_copied (h : (c.copied v s t).void q = false) :
    c.void q = false ∧ (q = t → c.void s = false) := by
  rcases Bool.or_eq_false_iff.mp h with ⟨hvoid, hsource⟩
  refine ⟨hvoid, ?_⟩
  intro hq
  rw [decide_eq_true hq, Bool.true_and] at hsource
  exact hsource

end MappingCalls

namespace Scene

variable {v w : Scene} {p q s t : Nat} {va b : Vaddr}

/-- After a file was mapped, a page that says where it belongs is a new one, or it said so before.
Then, if its mapping was not replaced, it belongs to another one than the new one. -/
theorem Gains.link_cases {mapping : FileMapping} (h : v.Gains p mapping w) (c : MappingCalls)
    (hva : w.link q va = some b) :
    q = p ∧ va ∈ mapping.members ∧ b = mapping.base ∧
        (c.mapped v p mapping.base).maker q va = c.count ∨
      v.link q va = some b ∧ (c.mapped v p mapping.base).maker q va = c.maker q va ∧
        ((c.mapped v p mapping.base).replaced q va = false →
          c.replaced q va = false ∧ ¬(q = p ∧ b = mapping.base)) := by
  by_cases hin : q = p ∧ va ∈ mapping.members
  · rcases hin with ⟨rfl, hin⟩
    rw [h.added va hin] at hva
    refine Or.inl ⟨rfl, hin, (Option.some.inj hva).symm, if_neg ?_⟩
    rw [h.free va hin]
    exact Bool.false_ne_true
  · rw [h.kept q va hin] at hva
    have hpage := isSome_page_of_link hva
    refine Or.inr ⟨hva, if_pos hpage, ?_⟩
    intro hkept
    have hkept' : ((v.sight q va).page.isSome &&
      (c.replaced q va || decide (q = p ∧ v.link q va = some mapping.base))) = false := hkept
    rw [hpage, Bool.true_and, Bool.or_eq_false_iff, decide_eq_false_iff_not, hva] at hkept'
    refine ⟨hkept'.1, ?_⟩
    rintro ⟨hq, rfl⟩
    exact hkept'.2 ⟨hq, rfl⟩

/-- After a fork, a page that says where it belongs is a copy of one that did, or it said so before.
Then, if its mapping was not replaced, the other process has none with this base. -/
theorem Merges.link_cases (h : v.Merges s t w) (c : MappingCalls) (hva : w.link q va = some b) :
    q = t ∧ v.link s va = some b ∧ (c.copied v s t).maker q va = c.maker s va ∧
        (c.copied v s t).replaced q va = c.replaced s va ∨
      v.link q va = some b ∧ (c.copied v s t).maker q va = c.maker q va ∧
        ((c.copied v s t).replaced q va = false →
          c.replaced q va = false ∧ (q = t → (v.mappings s).get? b = none)) := by
  by_cases hin : q = t ∧ (v.sight s va).page.isSome = true
  · rcases hin with ⟨rfl, hin⟩
    rw [h.added va hin] at hva
    exact Or.inl ⟨rfl, hva, if_pos ⟨rfl, hin⟩, if_pos ⟨rfl, hin⟩⟩
  · rw [h.kept q va hin] at hva
    refine Or.inr ⟨hva, if_neg hin, ?_⟩
    intro hkept
    have hkept' : (c.replaced q va ||
        (decide (q = t) && (v.link q va).any (v.mappings s).contains)) = false :=
      (if_neg hin).symm.trans hkept
    rw [Bool.or_eq_false_iff, hva, Option.any_some] at hkept'
    refine ⟨hkept'.1, ?_⟩
    intro hq
    rw [decide_eq_true hq, Bool.true_and] at hkept'
    exact Option.not_isSome_iff_eq_none.mp (Bool.eq_false_iff.mp hkept'.2)

end Scene

/-- A file mapping is listed under its base, and it lists pages that say so, each one once. -/
structure FileMapping.Lists (mapping : FileMapping) (b : Vaddr) (link : Vaddr → Option Vaddr) :
    Prop where
  base : mapping.base = b
  inhabited : mapping.members ≠ []
  distinct : mapping.members.Nodup
  linked : ∀ va ∈ mapping.members, link va = some b

theorem FileMapping.Lists.mono {mapping : FileMapping} {b : Vaddr}
    {link link' : Vaddr → Option Vaddr} (h : mapping.Lists b link)
    (hlink : ∀ va, link va = some b → link' va = some b) : mapping.Lists b link' :=
  { h with linked := fun va hva => hlink va (h.linked va hva) }

/-- The lists of the file mappings are right. The pages of a process say under which base they were
made. Those whose mapping was not replaced are the ones that it lists, and they all come from one
call. -/
structure Scene.Grouped (v : Scene) (c : MappingCalls) : Prop where
  lists : ∀ p b g, (v.mappings p).get? b = some g → g.Lists b (v.link p)
  made : ∀ p va b, c.void p = false → v.link p va = some b →
    c.maker p va < c.count ∧ c.base (c.maker p va) = b
  together : ∀ p va wa b, c.void p = false → v.link p va = some b → v.link p wa = some b →
    c.replaced p va = false → c.replaced p wa = false → c.maker p va = c.maker p wa
  listed : ∀ p va b, c.void p = false → v.link p va = some b → c.replaced p va = false →
    ∃ g, (v.mappings p).get? b = some g ∧ va ∈ g.members
  current : ∀ p b g va, c.void p = false → (v.mappings p).get? b = some g → va ∈ g.members →
    c.replaced p va = false

/-! ## Maps of mappings -/

theorem FileMapping.without_eq_some_iff {g smaller : FileMapping} {va : Vaddr} :
    g.without va = some smaller ↔
      smaller = { g with members := g.members.filter fun wa => wa != va } ∧
        smaller.members ≠ [] := by
  unfold FileMapping.without
  dsimp only
  split
  · rename_i hempty
    constructor
    · intro hnone
      contradiction
    · intro h
      rw [h.1] at h
      exact absurd (List.isEmpty_iff.mp hempty) h.2
  · rename_i hsome
    constructor
    · intro h
      cases h
      exact ⟨rfl, fun hnil => hsome (List.isEmpty_iff.mpr hnil)⟩
    · intro h
      rw [h.1]

namespace Machine

theorem get?_mergeEntries {entries : List (Vaddr × FileMapping)}
    {mappings : AddressMap FileMapping} (b : Vaddr)
    (hascending : entries.Pairwise fun e e' => e.1 < e'.1) :
    (mergeMappings mappings entries).get? b =
      (AddressMap.findEntry b entries).or (mappings.get? b) := by
  induction entries generalizing mappings with
  | nil => rfl
  | cons e rest ih =>
      rcases List.pairwise_cons.mp hascending with ⟨hhead, hrest⟩
      unfold mergeMappings AddressMap.findEntry
      rw [ih hrest, AddressMap.get?_insert]
      split
      · rename_i heq
        subst heq
        rw [AddressMap.findEntry_eq_none_of_lt hhead]
        rfl
      · rfl

theorem get?_mergeMappings (mappings groups : AddressMap FileMapping) (b : Vaddr) :
    (mergeMappings mappings groups.entries).get? b = (groups.get? b).or (mappings.get? b) :=
  get?_mergeEntries b groups.ascending

end Machine

namespace Scene

variable {v w : Scene} {p q s t : Nat} {b : Vaddr} {places : Vaddr → Prop}
  {groups : AddressMap FileMapping} {mapping g : FileMapping}

theorem Loses.get?_iff (h : v.Loses p places groups w) : (w.mappings q).get? b = some g ↔
    q = p ∧ groups.get? b = some g ∨ q ≠ p ∧ (v.mappings q).get? b = some g := by
  rw [h.mappings]
  by_cases hq : q = p
  · subst hq
    rw [mappings_grouped_self]
    simp
  · rw [mappings_grouped_of_ne hq]
    simp [hq]

theorem Gains.get?_iff (h : v.Gains p mapping w) : (w.mappings q).get? b = some g ↔
    (q = p ∧ b = mapping.base) ∧ g = mapping ∨
      ¬(q = p ∧ b = mapping.base) ∧ (v.mappings q).get? b = some g := by
  rw [h.mappings]
  by_cases hq : q = p
  · subst hq
    rw [mappings_grouped_self, AddressMap.get?_insert]
    split
    · simp [*, eq_comm]
    · simp [*]
  · rw [mappings_grouped_of_ne hq]
    simp [hq]

theorem Merges.get?_iff (h : v.Merges s t w) : (w.mappings q).get? b = some g ↔
    q = t ∧ (v.mappings s).get? b = some g ∨
      (q = t → (v.mappings s).get? b = none) ∧ (v.mappings q).get? b = some g := by
  rw [h.mappings]
  by_cases hq : q = t
  · subst hq
    rw [mappings_grouped_self, Machine.get?_mergeMappings, Option.or_eq_some_iff]
    simp
  · rw [mappings_grouped_of_ne hq]
    simp [hq]

end Scene

namespace Scene.Grouped

variable {v w : Scene} {c : MappingCalls} {p s t : Nat} {va : Vaddr} {places : Vaddr → Prop}
  {groups : AddressMap FileMapping} {mapping : FileMapping}

theorem blank (hsight : v.sight = fun _ _ => .blank) (hmappings : v.mappings = fun _ => .empty) :
    v.Grouped .blank := by
  have hlink : ∀ p va, v.link p va = none := by
    intro p va
    unfold link
    rw [hsight]
    rfl
  constructor
  · intro p b g hget
    rw [hmappings] at hget
    contradiction
  · intro p va b _ hva
    rw [hlink] at hva
    contradiction
  · intro p va wa b _ hva
    rw [hlink] at hva
    contradiction
  · intro p va b _ hva
    rw [hlink] at hva
    contradiction
  · intro p b g va _ hget
    rw [hmappings] at hget
    contradiction

theorem congr (h : v.Grouped c) (hlink : w.link = v.link) (hmappings : w.mappings = v.mappings) :
    w.Grouped c := by
  constructor
  · rw [hlink, hmappings]
    exact h.lists
  · rw [hlink]
    exact h.made
  · rw [hlink]
    exact h.together
  · rw [hlink, hmappings]
    exact h.listed
  · rw [hmappings]
    exact h.current

theorem loses (h : v.Grouped c) (hloses : v.Loses p places groups w)
    (hsmaller : ∀ b g, groups.get? b = some g → ∃ old, (v.mappings p).get? b = some old ∧
      g.base = old.base ∧ g.members ≠ [] ∧ g.members.Sublist old.members ∧
      ∀ va ∈ g.members, ¬places va)
    (hlarge : ∀ b g va, (v.mappings p).get? b = some g → va ∈ g.members → ¬places va →
      ∃ g', groups.get? b = some g' ∧ va ∈ g'.members) : w.Grouped c := by
  have hold : ∀ q va b, w.link q va = some b → v.link q va = some b ∧ ¬(q = p ∧ places va) := by
    intro q va b hva
    by_cases hout : q = p ∧ places va
    · rw [hout.1, hloses.gone va hout.2] at hva
      contradiction
    · exact ⟨(hloses.kept q va hout).symm.trans hva, hout⟩
  constructor
  · intro q b g hget
    rcases hloses.get?_iff.mp hget with ⟨rfl, hget⟩ | ⟨hq, hget⟩
    · rcases hsmaller b g hget with ⟨old, hbefore, hbase, hsome, hsub, hout⟩
      have hlists := h.lists q b old hbefore
      refine ⟨hbase.trans hlists.base, hsome, hlists.distinct.sublist hsub, ?_⟩
      intro va hva
      rw [hloses.kept q va fun hin => hout va hva hin.2]
      exact hlists.linked va (hsub.subset hva)
    · refine (h.lists q b g hget).mono fun va hva => ?_
      exact (hloses.kept q va fun hin => hq hin.1).trans hva
  · intro q va b hvoid hva
    exact h.made q va b hvoid (hold q va b hva).1
  · intro q va wa b hvoid hva hwa
    exact h.together q va wa b hvoid (hold q va b hva).1 (hold q wa b hwa).1
  · intro q va b hvoid hva hkept
    rcases hold q va b hva with ⟨hbefore, hout⟩
    rcases h.listed q va b hvoid hbefore hkept with ⟨g, hget, hmember⟩
    by_cases hq : q = p
    · subst hq
      rcases hlarge b g va hget hmember fun hin => hout ⟨rfl, hin⟩ with ⟨g', hget', hmember'⟩
      exact ⟨g', hloses.get?_iff.mpr (Or.inl ⟨rfl, hget'⟩), hmember'⟩
    · exact ⟨g, hloses.get?_iff.mpr (Or.inr ⟨hq, hget⟩), hmember⟩
  · intro q b g va hvoid hget hmember
    rcases hloses.get?_iff.mp hget with ⟨rfl, hget⟩ | ⟨-, hget⟩
    · rcases hsmaller b g hget with ⟨old, hbefore, -, -, hsub, -⟩
      exact h.current q b old va hvoid hbefore (hsub.subset hmember)
    · exact h.current q b g va hvoid hget hmember

theorem leaves (h : v.Grouped c)
    (hloses : v.Loses p (· = va) ((v.mappings p).leaving (v.link p va) va) w) : w.Grouped c := by
  cases hlink : v.link p va with
  | none =>
      rw [hlink] at hloses
      refine h.loses hloses ?_ fun b g wa hget hmember _ => ⟨g, hget, hmember⟩
      intro b g hget
      have hlists := h.lists p b g hget
      refine ⟨g, hget, rfl, hlists.inhabited, List.Sublist.refl _, ?_⟩
      intro wa hwa heq
      rw [← heq, hlists.linked wa hwa] at hlink
      contradiction
  | some base =>
      rw [hlink] at hloses
      refine h.loses hloses ?_ ?_
      · intro b g hget
        by_cases hb : b = base
        · subst hb
          rw [AddressMap.get?_leaving_self] at hget
          rcases Option.bind_eq_some_iff.mp hget with ⟨old, hold, hwithout⟩
          rcases FileMapping.without_eq_some_iff.mp hwithout with ⟨rfl, hsome⟩
          refine ⟨old, hold, rfl, hsome, List.filter_sublist, ?_⟩
          intro wa hwa
          exact bne_iff_ne.mp (List.mem_filter.mp hwa).2
        · rw [AddressMap.get?_leaving_of_ne hb] at hget
          have hlists := h.lists p b g hget
          refine ⟨g, hget, rfl, hlists.inhabited, List.Sublist.refl _, ?_⟩
          intro wa hwa heq
          rw [heq] at hwa
          exact hb (Option.some.inj ((hlists.linked va hwa).symm.trans hlink))
      · intro b g wa hget hmember hne
        by_cases hb : b = base
        · subst hb
          have hmember' : wa ∈ g.members.filter fun wa => wa != va :=
            List.mem_filter.mpr ⟨hmember, bne_iff_ne.mpr hne⟩
          refine ⟨{ g with members := g.members.filter fun wa => wa != va }, ?_, hmember'⟩
          rw [AddressMap.get?_leaving_self, hget]
          exact FileMapping.without_eq_some_iff.mpr ⟨rfl, List.ne_nil_of_mem hmember'⟩
        · exact ⟨g, (AddressMap.get?_leaving_of_ne hb).trans hget, hmember⟩

theorem unmaps (h : v.Grouped c) {base : Vaddr} (hget : (v.mappings p).get? base = some mapping)
    (hloses : v.Loses p (· ∈ mapping.members) ((v.mappings p).erase base) w) : w.Grouped c := by
  have hmapping := h.lists p base mapping hget
  refine h.loses hloses ?_ ?_
  · intro b g hg
    rw [AddressMap.get?_erase] at hg
    split at hg
    · contradiction
    · rename_i hb
      have hlists := h.lists p b g hg
      refine ⟨g, hg, rfl, hlists.inhabited, List.Sublist.refl _, ?_⟩
      intro va hva hin
      exact hb (Option.some.inj ((hlists.linked va hva).symm.trans (hmapping.linked va hin)))
  · intro b g va hg hmember hout
    refine ⟨g, ?_, hmember⟩
    rw [AddressMap.get?_erase, if_neg]
    · exact hg
    · rintro rfl
      cases hget.symm.trans hg
      exact hout hmember

theorem clears (h : v.Grouped c) (hloses : v.Loses p (fun _ => True) .empty w) : w.Grouped c :=
  h.loses hloses (fun _ _ hget => (nomatch hget)) fun _ _ _ _ _ hout => absurd trivial hout

theorem get?_ne_none {b : Vaddr} (h : v.Grouped c) (hvoid : c.void p = false)
    (hva : v.link p va = some b) (hkept : c.replaced p va = false) :
    (v.mappings p).get? b ≠ none := by
  rcases h.listed p va b hvoid hva hkept with ⟨g, hget, -⟩
  rw [hget]
  exact Option.some_ne_none g

theorem current_mapped {q : Nat} {start b : Vaddr} (h : v.Grouped c) (hvoid : c.void q = false)
    (hget : (v.mappings q).get? b = some mapping) (hin : va ∈ mapping.members)
    (hother : ¬(q = p ∧ b = start)) : (c.mapped v p start).replaced q va = false := by
  have hlink := (h.lists q b mapping hget).linked va hin
  have hnot : ¬(q = p ∧ v.link q va = some start) := fun hat =>
    hother ⟨hat.1, Option.some.inj (hlink.symm.trans hat.2)⟩
  show ((v.sight q va).page.isSome && (c.replaced q va || decide _)) = false
  rw [h.current q b mapping va hvoid hget hin, decide_eq_false hnot]
  exact Bool.and_false _

theorem current_copied {q : Nat} {b : Vaddr} (h : v.Grouped c) (hmerges : v.Merges s t w)
    (hvoid : c.void q = false) (hget : (v.mappings q).get? b = some mapping)
    (hin : va ∈ mapping.members) (hnone : q = t → (v.mappings s).get? b = none) :
    (c.copied v s t).replaced q va = false := by
  have hlink := (h.lists q b mapping hget).linked va hin
  have hold : ¬(q = t ∧ (v.sight s va).page.isSome = true) := by
    rintro ⟨rfl, hpage⟩
    have htaken := isSome_page_of_link hlink
    rw [hmerges.free va hpage] at htaken
    contradiction
  have hclear : (decide (q = t) && (v.link q va).any (v.mappings s).contains) = false := by
    by_cases hq : q = t
    · rw [hlink, Option.any_some, AddressMap.contains, hnone hq]
      exact Bool.and_false _
    · rw [decide_eq_false hq, Bool.false_and]
  refine (if_neg hold).trans ?_
  rw [h.current q b mapping va hvoid hget hin, hclear]
  rfl

/-- The new pages come from one call. If pages of an earlier one with the same base are left, their
mapping is replaced. -/
theorem gains (h : v.Grouped c) (hgains : v.Gains p mapping w) :
    w.Grouped (c.mapped v p mapping.base) := by
  constructor
  · intro q b g hget
    rcases hgains.get?_iff.mp hget with ⟨⟨rfl, rfl⟩, rfl⟩ | ⟨-, hget⟩
    · exact ⟨rfl, hgains.inhabited, hgains.distinct, hgains.added⟩
    · exact (h.lists q b g hget).mono fun va => hgains.link_mono
  · intro q va b hvoid hva
    rcases hgains.link_cases c hva with ⟨-, -, hb, hmaker⟩ | ⟨hold, hmaker, -⟩
    · rw [hmaker, hb]
      exact ⟨Nat.lt_succ_self _, if_pos rfl⟩
    · rcases h.made q va b hvoid hold with ⟨hlt, hbase⟩
      rw [hmaker]
      exact ⟨Nat.lt_succ_of_lt hlt, (if_neg (Nat.ne_of_lt hlt)).trans hbase⟩
  · intro q va wa b hvoid hva hwa hkept hkept'
    rcases hgains.link_cases c hva with ⟨hq, -, hb, hmaker⟩ | ⟨hold, hmaker, hbefore⟩
    · rcases hgains.link_cases c hwa with ⟨-, -, -, hmaker'⟩ | ⟨-, -, hbefore'⟩
      · rw [hmaker, hmaker']
      · exact absurd ⟨hq, hb⟩ (hbefore' hkept').2
    · rcases hgains.link_cases c hwa with ⟨hq, -, hb, -⟩ | ⟨hold', hmaker', hbefore'⟩
      · exact absurd ⟨hq, hb⟩ (hbefore hkept).2
      · rw [hmaker, hmaker']
        exact h.together q va wa b hvoid hold hold' (hbefore hkept).1 (hbefore' hkept').1
  · intro q va b hvoid hva hkept
    rcases hgains.link_cases c hva with ⟨hq, hin, hb, -⟩ | ⟨hold, -, hbefore⟩
    · exact ⟨mapping, hgains.get?_iff.mpr (Or.inl ⟨⟨hq, hb⟩, rfl⟩), hin⟩
    · rcases hbefore hkept with ⟨hkept, hother⟩
      rcases h.listed q va b hvoid hold hkept with ⟨g, hget, hin⟩
      exact ⟨g, hgains.get?_iff.mpr (Or.inr ⟨hother, hget⟩), hin⟩
  · intro q b g va hvoid hget hin
    rcases hgains.get?_iff.mp hget with ⟨⟨rfl, rfl⟩, rfl⟩ | ⟨hother, hget⟩
    · show ((v.sight q va).page.isSome && _) = false
      rw [hgains.free va hin]
      rfl
    · exact h.current_mapped hvoid hget hin hother

/-- The copies come from the calls that the pages come from. If the other process had a mapping with
the same base, that one is replaced. -/
theorem merges (h : v.Grouped c) (hmerges : v.Merges s t w) : w.Grouped (c.copied v s t) := by
  constructor
  · intro q b g hget
    rcases hmerges.get?_iff.mp hget with ⟨rfl, hsource⟩ | ⟨-, hbefore⟩
    · refine (h.lists s b g hsource).mono fun va hva => ?_
      exact (hmerges.added va (isSome_page_of_link hva)).trans hva
    · exact (h.lists q b g hbefore).mono fun va => hmerges.link_mono
  · intro q va b hvoid hva
    rcases MappingCalls.valid_of_copied hvoid with ⟨hvoid, hsource⟩
    rcases hmerges.link_cases c hva with ⟨hq, hold, hmaker, -⟩ | ⟨hold, hmaker, -⟩
    · rw [hmaker]
      exact h.made s va b (hsource hq) hold
    · rw [hmaker]
      exact h.made q va b hvoid hold
  · intro q va wa b hvoid hva hwa hkept hkept'
    rcases MappingCalls.valid_of_copied hvoid with ⟨hvalid, hsource⟩
    rcases hmerges.link_cases c hva with ⟨hq, hold, hmaker, hsame⟩ | ⟨hold, hmaker, hbefore⟩
    · rw [hsame] at hkept
      rcases hmerges.link_cases c hwa with ⟨-, hold', hmaker', hsame'⟩ | ⟨-, -, hbefore'⟩
      · rw [hsame'] at hkept'
        rw [hmaker, hmaker']
        exact h.together s va wa b (hsource hq) hold hold' hkept hkept'
      · exact absurd ((hbefore' hkept').2 hq) (h.get?_ne_none (hsource hq) hold hkept)
    · rcases hmerges.link_cases c hwa with ⟨hq, hold', -, hsame'⟩ | ⟨hold', hmaker', hbefore'⟩
      · rw [hsame'] at hkept'
        exact absurd ((hbefore hkept).2 hq) (h.get?_ne_none (hsource hq) hold' hkept')
      · rw [hmaker, hmaker']
        exact h.together q va wa b hvalid hold hold' (hbefore hkept).1 (hbefore' hkept').1
  · intro q va b hvoid hva hkept
    rcases MappingCalls.valid_of_copied hvoid with ⟨hvalid, hsource⟩
    rcases hmerges.link_cases c hva with ⟨hq, hold, -, hsame⟩ | ⟨hold, -, hbefore⟩
    · rw [hsame] at hkept
      rcases h.listed s va b (hsource hq) hold hkept with ⟨g, hget, hin⟩
      exact ⟨g, hmerges.get?_iff.mpr (Or.inl ⟨hq, hget⟩), hin⟩
    · rcases hbefore hkept with ⟨hkept, hnone⟩
      rcases h.listed q va b hvalid hold hkept with ⟨g, hget, hin⟩
      exact ⟨g, hmerges.get?_iff.mpr (Or.inr ⟨hnone, hget⟩), hin⟩
  · intro q b g va hvoid hget hin
    rcases MappingCalls.valid_of_copied hvoid with ⟨hvalid, hsource⟩
    rcases hmerges.get?_iff.mp hget with ⟨hq, hfound⟩ | ⟨hnone, hbefore⟩
    · have hpage := isSome_page_of_link ((h.lists s b g hfound).linked va hin)
      exact (if_pos ⟨hq, hpage⟩).trans (h.current s b g va (hsource hq) hfound hin)
    · exact h.current_copied hmerges hvalid hbefore hin hnone

theorem spoils (h : v.Grouped c) (hspoils : v.Spoils t w) : w.Grouped (c.spoiled t) := by
  have hvalid : ∀ q, (c.spoiled t).void q = false → c.void q = false ∧
      ∀ va, w.link q va = v.link q va := by
    intro q hvoid
    rcases Bool.or_eq_false_iff.mp hvoid with ⟨hvalid, hne⟩
    exact ⟨hvalid, fun va => hspoils.others q va (of_decide_eq_false hne)⟩
  constructor
  · intro q b g hget
    rw [hspoils.mappings] at hget
    exact (h.lists q b g hget).mono fun va => hspoils.link_mono
  · intro q va b hvoid hva
    rcases hvalid q hvoid with ⟨hvoid, hlink⟩
    rw [hlink] at hva
    exact h.made q va b hvoid hva
  · intro q va wa b hvoid hva hwa
    rcases hvalid q hvoid with ⟨hvoid, hlink⟩
    rw [hlink] at hva hwa
    exact h.together q va wa b hvoid hva hwa
  · intro q va b hvoid hva
    rcases hvalid q hvoid with ⟨hvoid, hlink⟩
    rw [hlink] at hva
    rw [hspoils.mappings]
    exact h.listed q va b hvoid hva
  · intro q b g va hvoid hget
    rw [hspoils.mappings] at hget
    exact h.current q b g va (hvalid q hvoid).1 hget

theorem served {op : Operation} (h : v.Grouped c) (hrelinks : op.Relinks v w) :
    w.Grouped (c.served v op) := by
  cases op with
  | map p start length writable f offset =>
      rcases hrelinks with ⟨members, hgains⟩
      exact h.gains hgains
  | remove p va =>
      rcases hrelinks with ⟨wa, hloses⟩
      exact h.leaves hloses
  | unmap p va =>
      rcases hrelinks with hsame | ⟨base, mapping, hget, hloses⟩
      · exact h.congr hsame.1 hsame.2
      · exact h.unmaps hget hloses
  | finish p | teardown p => exact h.clears hrelinks
  | fork s t => exact h.merges hrelinks
  | _ => exact h.congr hrelinks.1 hrelinks.2

theorem refused {op : Operation} (h : v.Grouped c) (hmislinks : op.Mislinks v w) :
    w.Grouped (c.refused op) := by
  cases op with
  | fork s t => exact h.spoils hmislinks
  | _ => exact h.congr hmislinks.1 hmislinks.2

end Scene.Grouped
end DemandPaging
