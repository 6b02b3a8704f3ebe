import DemandPaging.Page
import DemandPaging.Proofs.FrameRing

/-!
# Custody of frames

Each frame is free, listed in the ring for one page, or on its way between the two. The frames on
their way are named: a *loose* frame is neither free nor listed, a *stray* frame is listed but not
held by any registered page, and a *filling* frame is one whose content is not complete. While an
operation runs some frames are on their way; between operations there are none.

The pages are given by a view, which says what page is registered at each address of each process.
-/

namespace DemandPaging

/-! ## Views -/

def setAt {α : Type} (view : Nat → Vaddr → α) (p : Nat) (va : Vaddr) (x : α) : Nat → Vaddr → α :=
  fun q wa => if q = p ∧ wa = va then x else view q wa

section SetAt

variable {α : Type} {view : Nat → Vaddr → α} {p q : Nat} {va wa : Vaddr} {x y : α}

@[simp]
theorem setAt_self : setAt view p va x p va = x :=
  if_pos ⟨rfl, rfl⟩

theorem setAt_of_ne (h : ¬(q = p ∧ wa = va)) : setAt view p va x q wa = view q wa :=
  if_neg h

theorem setAt_eq_self (h : view p va = x) : setAt view p va x = view := by
  funext q wa
  by_cases hat : q = p ∧ wa = va
  · rw [hat.1, hat.2, setAt_self, h]
  · exact setAt_of_ne hat

theorem setAt_setAt : setAt (setAt view p va x) p va y = setAt view p va y := by
  funext q wa
  by_cases hat : q = p ∧ wa = va
  · rw [hat.1, hat.2, setAt_self, setAt_self]
  · rw [setAt_of_ne hat, setAt_of_ne hat, setAt_of_ne hat]

theorem map_setAt {β : Type} (f : α → β) :
    (fun q wa => f (setAt view p va x q wa)) = setAt (fun q wa => f (view q wa)) p va (f x) := by
  funext q wa
  by_cases hat : q = p ∧ wa = va
  · rw [hat.1, hat.2, setAt_self, setAt_self]
  · rw [setAt_of_ne hat, setAt_of_ne hat]

theorem setAt_some_cases {view : Nat → Vaddr → Option α}
    (h : setAt view p va (some x) q wa = some y) :
    (q = p ∧ wa = va ∧ x = y) ∨ (¬(q = p ∧ wa = va) ∧ view q wa = some y) := by
  by_cases hat : q = p ∧ wa = va
  · rcases hat with ⟨rfl, rfl⟩
    rw [setAt_self] at h
    exact Or.inl ⟨rfl, rfl, Option.some.inj h⟩
  · rw [setAt_of_ne hat] at h
    exact Or.inr ⟨hat, h⟩

theorem eq_some_of_setAt {β : Type} {view : Nat → Vaddr → Option α} {new : Option α}
    {f : α → Option β} {b : β} (hnew : new.bind f = none)
    (h : setAt view p va new q wa = some y) (hy : f y = some b) :
    ¬(q = p ∧ wa = va) ∧ view q wa = some y := by
  by_cases hat : q = p ∧ wa = va
  · rcases hat with ⟨rfl, rfl⟩
    rw [setAt_self] at h
    rw [h, Option.bind_some, hy] at hnew
    contradiction
  · rw [setAt_of_ne hat] at h
    exact ⟨hat, h⟩

end SetAt

abbrev PageView := Nat → Vaddr → Option Page

/-! ## The rules -/

/-- Every frame has exactly one place, and a listed frame belongs to the page that holds it. -/
structure FramesKept (pages : PageView) (entries : List RingEntry)
    (free loose stray filling : List Nat) (capacity : Nat) : Prop where
  conserved : (free ++ loose ++ entries.map RingEntry.frame).Perm (List.range capacity)
  pinned : ∀ e ∈ entries, e.pinned = true → e.frame ∈ filling
  owned : ∀ e ∈ entries, e.frame ∈ stray ∨
    ∃ page, pages e.owner.process e.owner.va = some page ∧ page.id = e.owner.id ∧
      page.frame = some e.frame
  listed : ∀ p va page f, pages p va = some page → page.frame = some f →
    f ∉ stray ∧ ∃ e ∈ entries, e.frame = f ∧ e.owner = ⟨p, va, page.id⟩
  strayListed : ∀ f ∈ stray, f ∈ entries.map RingEntry.frame
  strayApart : stray.Nodup

namespace FramesKept

variable {pages : PageView} {entries : List RingEntry} {free loose stray filling : List Nat}
  {capacity f : Nat} {p : Nat} {va : Vaddr}

theorem noPages (hpages : ∀ p va page, pages p va ≠ some page) (capacity : Nat) :
    FramesKept pages [] (List.range capacity) [] [] [] capacity where
  conserved := by
    rw [List.append_nil, List.map_nil, List.append_nil]
  pinned := fun _ he => absurd he List.not_mem_nil
  owned := fun _ he => absurd he List.not_mem_nil
  listed := fun p va page _ hpage => absurd hpage (hpages p va page)
  strayListed := fun _ hf => absurd hf List.not_mem_nil
  strayApart := List.nodup_nil

theorem nodup (k : FramesKept pages entries free loose stray filling capacity) :
    (free ++ loose ++ entries.map RingEntry.frame).Nodup :=
  k.conserved.nodup_iff.mpr List.nodup_range

theorem entries_nodup (k : FramesKept pages entries free loose stray filling capacity) :
    (entries.map RingEntry.frame).Nodup :=
  k.nodup.of_append_right

theorem holder_unique (k : FramesKept pages entries free loose stray filling capacity)
    {q : Nat} {wa : Vaddr} {page other : Page} (hpage : pages p va = some page)
    (hframe : page.frame = some f) (hother : pages q wa = some other)
    (hframe' : other.frame = some f) : q = p ∧ wa = va := by
  rcases (k.listed p va page f hpage hframe).2 with ⟨e, he, hef, howner⟩
  rcases (k.listed q wa other f hother hframe').2 with ⟨d, hd, hdf, howner'⟩
  have hsame : e = d :=
    FrameRing.eq_of_frame_eq (r := ⟨entries, 0, 0⟩) k.entries_nodup he hd (hef.trans hdf.symm)
  subst hsame
  rw [howner, Owner.mk.injEq] at howner'
  exact ⟨howner'.1.symm, howner'.2.1.symm⟩

theorem lt_capacity (k : FramesKept pages entries free loose stray filling capacity)
    (h : f ∈ entries.map RingEntry.frame) : f < capacity := by
  have hmem : f ∈ free ++ loose ++ entries.map RingEntry.frame :=
    List.mem_append_right _ h
  exact List.mem_range.mp (k.conserved.mem_iff.mp hmem)

theorem held_listed (k : FramesKept pages entries free loose stray filling capacity) {page : Page}
    (hpage : pages p va = some page) (hframe : page.frame = some f) :
    f ∈ entries.map RingEntry.frame := by
  rcases (k.listed p va page f hpage hframe).2 with ⟨e, he, hef, _⟩
  exact List.mem_map.mpr ⟨e, he, hef⟩

/-! ## Between the pool and the ring -/

theorem take (k : FramesKept pages entries (f :: free) loose stray filling capacity) :
    FramesKept pages entries free (f :: loose) stray filling capacity where
  conserved := by
    refine List.Perm.trans ?_ k.conserved
    exact List.perm_middle.append_right _
  pinned := k.pinned
  owned := k.owned
  listed := k.listed
  strayListed := k.strayListed
  strayApart := k.strayApart

theorem giveBack (k : FramesKept pages entries free (f :: loose) stray filling capacity) :
    FramesKept pages entries (f :: free) loose stray filling capacity where
  conserved := by
    refine List.Perm.trans ?_ k.conserved
    exact List.perm_middle.symm.append_right _
  pinned := k.pinned
  owned := k.owned
  listed := k.listed
  strayListed := k.strayListed
  strayApart := k.strayApart

theorem not_free_of_loose (k : FramesKept pages entries free (f :: loose) stray filling capacity) :
    f ∉ free := by
  intro hmem
  have hnodup : (free ++ (f :: loose)).Nodup := k.nodup.of_append_left
  exact List.disjoint_of_nodup_append hnodup hmem List.mem_cons_self

theorem push (k : FramesKept pages entries free (f :: loose) stray filling capacity)
    (o : Owner) :
    FramesKept pages (entries ++ [⟨f, o, true⟩]) free loose (f :: stray) (f :: filling)
      capacity := by
  have hunlisted : f ∉ entries.map RingEntry.frame := by
    intro hmem
    have hloose : f ∈ free ++ (f :: loose) := List.mem_append_right _ List.mem_cons_self
    exact List.disjoint_of_nodup_append k.nodup hloose hmem
  constructor
  · refine List.Perm.trans ?_ k.conserved
    simp only [List.map_append, List.map_cons, List.map_nil, List.append_assoc]
    refine List.Perm.append_left free ?_
    rw [← List.append_assoc, List.cons_append]
    exact List.perm_append_comm
  · intro e he hpin
    rcases List.mem_append.mp he with hold | hnew
    · exact List.mem_cons_of_mem f (k.pinned e hold hpin)
    · rw [List.mem_singleton.mp hnew]
      exact List.mem_cons_self
  · intro e he
    rcases List.mem_append.mp he with hold | hnew
    · exact (k.owned e hold).imp_left (List.mem_cons_of_mem f)
    · rw [List.mem_singleton.mp hnew]
      exact Or.inl List.mem_cons_self
  · intro q wa page g hpage hframe
    rcases k.listed q wa page g hpage hframe with ⟨hstray, e, he, hef, howner⟩
    refine ⟨?_, e, List.mem_append_left _ he, hef, howner⟩
    intro hmem
    rcases List.mem_cons.mp hmem with rfl | hrest
    · exact hunlisted (List.mem_map.mpr ⟨e, he, hef⟩)
    · exact hstray hrest
  · intro g hg
    rw [List.map_append]
    rcases List.mem_cons.mp hg with rfl | hrest
    · exact List.mem_append_right _ List.mem_cons_self
    · exact List.mem_append_left _ (k.strayListed g hrest)
  · refine List.nodup_cons.mpr ⟨?_, k.strayApart⟩
    intro hmem
    exact hunlisted (k.strayListed f hmem)

theorem removeAt {r : FrameRing} {place : Nat} {e : RingEntry} {filling' : List Nat}
    (k : FramesKept pages r.entries free loose (f :: stray) filling capacity)
    (hplace : r.entries[place]? = some e) (hf : e.frame = f)
    (hfilling : ∀ g ∈ filling, g = f ∨ g ∈ filling') :
    FramesKept pages (r.removeAt place).entries free (f :: loose) stray filling' capacity := by
  have hmem : ∀ d, d ∈ (r.removeAt place).entries ↔ d ∈ r.entries ∧ d.frame ≠ f := by
    intro d
    rw [FrameRing.mem_entries_removeAt k.entries_nodup hplace, hf]
  have hperm := FrameRing.frames_perm_removeAt hplace
  rw [hf] at hperm
  have hapart : f ∉ stray := (List.nodup_cons.mp k.strayApart).1
  constructor
  · refine List.Perm.trans ?_ k.conserved
    simp only [List.append_assoc]
    refine List.Perm.append_left free ?_
    refine List.Perm.trans ?_ (hperm.symm.append_left loose)
    exact List.perm_middle.symm
  · intro d hd hpin
    rcases (hmem d).mp hd with ⟨hold, hne⟩
    exact (hfilling _ (k.pinned d hold hpin)).resolve_left hne
  · intro d hd
    rcases (hmem d).mp hd with ⟨hold, hne⟩
    refine (k.owned d hold).imp_left ?_
    intro hstray
    rcases List.mem_cons.mp hstray with heq | hrest
    · exact absurd heq hne
    · exact hrest
  · intro q wa page g hpage hframe
    rcases k.listed q wa page g hpage hframe with ⟨hstray, d, hd, hdg, howner⟩
    refine ⟨fun hg => hstray (List.mem_cons_of_mem f hg), d, ?_, hdg, howner⟩
    refine (hmem d).mpr ⟨hd, ?_⟩
    intro heq
    exact hstray (List.mem_cons.mpr (Or.inl (hdg.symm.trans heq)))
  · intro g hg
    rcases List.mem_map.mp (k.strayListed g (List.mem_cons_of_mem f hg)) with ⟨d, hd, hdg⟩
    refine List.mem_map.mpr ⟨d, (hmem d).mpr ⟨hd, ?_⟩, hdg⟩
    intro heq
    exact hapart (heq ▸ hdg ▸ hg)
  · exact (List.nodup_cons.mp k.strayApart).2

theorem unpin {r : FrameRing} {filling' : List Nat}
    (k : FramesKept pages r.entries free loose stray filling capacity)
    (hfilling : ∀ g ∈ filling, g = f ∨ g ∈ filling') :
    FramesKept pages (r.unpin f).entries free loose stray filling' capacity := by
  have hentries := FrameRing.entries_unpin k.entries_nodup f
  have hframes : (r.unpin f).entries.map RingEntry.frame = r.entries.map RingEntry.frame :=
    FrameRing.frames_unpin k.entries_nodup f
  have hback : ∀ d ∈ (r.unpin f).entries, ∃ e ∈ r.entries, d.frame = e.frame ∧
      d.owner = e.owner ∧ (d.pinned = true → e.pinned = true ∧ e.frame ≠ f) := by
    intro d hd
    rw [hentries] at hd
    rcases List.mem_map.mp hd with ⟨e, he, hde⟩
    refine ⟨e, he, ?_⟩
    subst hde
    split
    · exact ⟨rfl, rfl, fun hpin => absurd hpin Bool.false_ne_true⟩
    · rename_i hne
      exact ⟨rfl, rfl, fun hpin => ⟨hpin, hne⟩⟩
  constructor
  · rw [hframes]
    exact k.conserved
  · intro d hd hpin
    rcases hback d hd with ⟨e, he, hframe, _, hpinned⟩
    rcases hpinned hpin with ⟨hepin, hne⟩
    rw [hframe]
    exact (hfilling _ (k.pinned e he hepin)).resolve_left hne
  · intro d hd
    rcases hback d hd with ⟨e, he, hframe, howner, _⟩
    rw [hframe, howner]
    exact k.owned e he
  · intro q wa page g hpage hframe
    rcases k.listed q wa page g hpage hframe with ⟨hstray, e, he, heg, howner⟩
    refine ⟨hstray, if e.frame = f then { e with pinned := false } else e, ?_, ?_, ?_⟩
    · rw [hentries]
      exact List.mem_map.mpr ⟨e, he, rfl⟩
    · split <;> exact heg
    · split <;> exact howner
  · rw [hframes]
    exact k.strayListed
  · exact k.strayApart

/-! ## Between the ring and the pages -/

theorem idle (k : FramesKept pages entries free loose stray filling capacity) {x : Option Page}
    (hold : (pages p va).bind Page.frame = none) (hnew : x.bind Page.frame = none) :
    FramesKept (setAt pages p va x) entries free loose stray filling capacity where
  conserved := k.conserved
  pinned := k.pinned
  owned := by
    intro e he
    refine (k.owned e he).imp_right ?_
    intro h
    rcases h with ⟨page, hpage, hid, hframe⟩
    refine ⟨page, ?_, hid, hframe⟩
    rw [setAt_of_ne, hpage]
    intro hat
    rw [hat.1, hat.2] at hpage
    rw [hpage, Option.bind_some, hframe] at hold
    contradiction
  listed := by
    intro q wa page g hpage hframe
    exact k.listed q wa page g (eq_some_of_setAt hnew hpage hframe).2 hframe
  strayListed := k.strayListed
  strayApart := k.strayApart

theorem sameFrame (k : FramesKept pages entries free loose stray filling capacity)
    {page next : Page} (hpage : pages p va = some page) (hid : next.id = page.id)
    (hframe : next.frame = page.frame) :
    FramesKept (setAt pages p va (some next)) entries free loose stray filling capacity where
  conserved := k.conserved
  pinned := k.pinned
  owned := by
    intro e he
    refine (k.owned e he).imp_right ?_
    intro h
    rcases h with ⟨other, hother, hid', hframe'⟩
    by_cases hat : e.owner.process = p ∧ e.owner.va = va
    · rw [hat.1, hat.2] at hother ⊢
      rw [hpage] at hother
      cases hother
      exact ⟨next, setAt_self, hid.trans hid', hframe.trans hframe'⟩
    · exact ⟨other, (setAt_of_ne hat).trans hother, hid', hframe'⟩
  listed := by
    intro q wa other g hother hframe'
    rcases setAt_some_cases hother with ⟨rfl, rfl, rfl⟩ | ⟨-, hother⟩
    · rw [hid]
      exact k.listed _ _ page g hpage (hframe.symm.trans hframe')
    · exact k.listed q wa other g hother hframe'
  strayListed := k.strayListed
  strayApart := k.strayApart

theorem attach (k : FramesKept pages entries free loose (f :: stray) filling capacity)
    {page next : Page} (hpage : pages p va = some page) (hnone : page.frame = none)
    (hid : next.id = page.id) (hframe : next.frame = some f) {e : RingEntry} (he : e ∈ entries)
    (hef : e.frame = f) (howner : e.owner = ⟨p, va, page.id⟩) :
    FramesKept (setAt pages p va (some next)) entries free loose stray filling capacity where
  conserved := k.conserved
  pinned := k.pinned
  owned := by
    intro d hd
    by_cases hdf : d.frame = f
    · have hsame : d = e :=
        FrameRing.eq_of_frame_eq (r := ⟨entries, 0, 0⟩) k.entries_nodup hd he
          (hdf.trans hef.symm)
      right
      rw [hsame, howner, hef]
      exact ⟨next, setAt_self, hid, hframe⟩
    · rcases k.owned d hd with hstray | ⟨other, hother, hid', hframe'⟩
      · exact Or.inl ((List.mem_cons.mp hstray).resolve_left hdf)
      · right
        refine ⟨other, ?_, hid', hframe'⟩
        rw [setAt_of_ne, hother]
        intro hat
        rw [hat.1, hat.2, hpage] at hother
        cases hother
        rw [hnone] at hframe'
        contradiction
  listed := by
    intro q wa other g hother hframe'
    rcases setAt_some_cases hother with ⟨rfl, rfl, rfl⟩ | ⟨-, hother⟩
    · cases hframe.symm.trans hframe'
      exact ⟨(List.nodup_cons.mp k.strayApart).1, e, he, hef, hid.symm ▸ howner⟩
    · rcases k.listed q wa other g hother hframe' with ⟨hstray, rest⟩
      exact ⟨fun hg => hstray (List.mem_cons_of_mem f hg), rest⟩
  strayListed := fun g hg => k.strayListed g (List.mem_cons_of_mem f hg)
  strayApart := (List.nodup_cons.mp k.strayApart).2

theorem detach (k : FramesKept pages entries free loose stray filling capacity)
    {page : Page} {x : Option Page} (hpage : pages p va = some page)
    (hframe : page.frame = some f) (hnew : x.bind Page.frame = none) :
    FramesKept (setAt pages p va x) entries free loose (f :: stray) filling capacity where
  conserved := k.conserved
  pinned := k.pinned
  owned := by
    intro e he
    rcases k.owned e he with hstray | ⟨other, hother, hid, hframe'⟩
    · exact Or.inl (List.mem_cons_of_mem f hstray)
    · by_cases hat : e.owner.process = p ∧ e.owner.va = va
      · rw [hat.1, hat.2, hpage] at hother
        cases hother
        rw [hframe] at hframe'
        cases hframe'
        exact Or.inl List.mem_cons_self
      · exact Or.inr ⟨other, (setAt_of_ne hat).trans hother, hid, hframe'⟩
  listed := by
    intro q wa other g hother hframe'
    rcases eq_some_of_setAt hnew hother hframe' with ⟨hat, hother⟩
    rcases k.listed q wa other g hother hframe' with ⟨hstray, rest⟩
    refine ⟨?_, rest⟩
    intro hg
    rcases List.mem_cons.mp hg with rfl | hrest
    · exact hat (k.holder_unique hpage hframe hother hframe')
    · exact hstray hrest
  strayListed := by
    intro g hg
    rcases List.mem_cons.mp hg with rfl | hrest
    · exact k.held_listed hpage hframe
    · exact k.strayListed g hrest
  strayApart := List.nodup_cons.mpr ⟨(k.listed p va page f hpage hframe).1, k.strayApart⟩

end FramesKept
end DemandPaging
