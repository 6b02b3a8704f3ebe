import DemandPaging.Proofs.Scene.Operation

/-!
# Modified pages of files

A page of a file is modified when the user wrote to it since it got its content, or when it is the
copy of such a page. The only record of that is the dirty bit of its mapping, and so a page that
lost its mapping, but not its frame, has lost the record, too. All other pages are sent to their
file before they give up their frames.
-/

namespace DemandPaging

/-! ## The history of a page -/

namespace Owner

def modified (l : Layout) (o : Owner) : List Event → Bool
  | [] => false
  | .filled page _ :: earlier => page != o && modified l o earlier
  | .cloned page dirty :: earlier => if page = o then dirty else modified l o earlier
  | .stored p va count :: earlier =>
      p == o.process && l.touches va count o.va || modified l o earlier
  | _ :: earlier => modified l o earlier

/-- Whether a page lost its mapping, but not its frame, since it got its content. -/
def stranded (o : Owner) : List Event → Bool
  | [] => false
  | .filled page _ :: earlier => page != o && stranded o earlier
  | .cloned page _ :: earlier => page != o && stranded o earlier
  | .stranded page :: earlier => page == o || stranded o earlier
  | _ :: earlier => stranded o earlier

variable {o page : Owner} {l : Layout} {earlier : List Event} {dirty first evicted : Bool}
  {extent : Option FileExtent} {bytes : Bytes} {write : FileWrite} {p count : Nat} {va : Vaddr}

@[simp]
theorem modified_filled : o.modified l (.filled page first :: earlier) =
    (page != o && o.modified l earlier) := rfl

@[simp]
theorem modified_cloned : o.modified l (.cloned page dirty :: earlier) =
    if page = o then dirty else o.modified l earlier := rfl

@[simp]
theorem modified_stored : o.modified l (.stored p va count :: earlier) =
    (p == o.process && l.touches va count o.va || o.modified l earlier) := rfl

@[simp]
theorem modified_wroteBack :
    o.modified l (.wroteBack write :: earlier) = o.modified l earlier := rfl

@[simp]
theorem modified_parted : o.modified l (.parted page extent bytes evicted :: earlier) =
    o.modified l earlier := rfl

@[simp]
theorem modified_stranded :
    o.modified l (.stranded page :: earlier) = o.modified l earlier := rfl

@[simp]
theorem stranded_filled : o.stranded (.filled page first :: earlier) =
    (page != o && o.stranded earlier) := rfl

@[simp]
theorem stranded_cloned : o.stranded (.cloned page dirty :: earlier) =
    (page != o && o.stranded earlier) := rfl

@[simp]
theorem stranded_stored :
    o.stranded (.stored p va count :: earlier) = o.stranded earlier := rfl

@[simp]
theorem stranded_wroteBack :
    o.stranded (.wroteBack write :: earlier) = o.stranded earlier := rfl

@[simp]
theorem stranded_parted :
    o.stranded (.parted page extent bytes evicted :: earlier) = o.stranded earlier := rfl

@[simp]
theorem stranded_stranded :
    o.stranded (.stranded page :: earlier) = (page == o || o.stranded earlier) := rfl

end Owner

/-- The last movement was that a page was sent to its file, all of the bytes that the file has of
it. If it is evicted next, the file accepted them all. -/
def SavedBefore (o : Owner) (x : FileExtent) (bytes : Bytes) (evicted : Bool)
    (movements : List Event) : Prop :=
  ∃ accepted before, movements =
      .wroteBack ⟨o, x.file, x.offset, bytes.take x.readBytes.toNat, accepted⟩ :: before ∧
    (evicted = true → accepted = some x.readBytes.toNat)

/-- A page of a file that parted with its frame although it was modified was saved right before. -/
def SavedWhenParted (l : Layout) (movements : List Event) : Prop :=
  ∀ o x bytes evicted earlier, .parted o (some x) bytes evicted :: earlier <:+ movements →
    x.readBytes ≠ 0 → o.modified l earlier = true → o.stranded earlier = false →
    SavedBefore o x bytes evicted earlier

namespace SavedWhenParted

variable {l : Layout} {movements : List Event} {event : Event}

theorem nil : SavedWhenParted l [] := by
  intro o x bytes evicted earlier hsuffix
  exact absurd (List.suffix_nil.mp hsuffix) (List.cons_ne_nil _ _)

theorem cons (h : SavedWhenParted l movements)
    (hother : ∀ o extent bytes evicted, event ≠ .parted o extent bytes evicted) :
    SavedWhenParted l (event :: movements) := by
  intro o x bytes evicted earlier hsuffix
  rcases List.suffix_cons_iff.mp hsuffix with heq | hlater
  · exact absurd (List.cons.inj heq).1.symm (hother o (some x) bytes evicted)
  · exact h o x bytes evicted earlier hlater

theorem part {o : Owner} {extent : Option FileExtent} {bytes : Bytes} {evicted : Bool}
    (h : SavedWhenParted l movements)
    (hsaved : ∀ x, extent = some x → x.readBytes ≠ 0 → o.modified l movements = true →
      o.stranded movements = false → SavedBefore o x bytes evicted movements) :
    SavedWhenParted l (.parted o extent bytes evicted :: movements) := by
  intro o' x bytes' evicted' earlier hsuffix
  rcases List.suffix_cons_iff.mp hsuffix with heq | hlater
  · cases heq
    exact hsaved x rfl
  · exact h o' x bytes' evicted' earlier hlater

end SavedWhenParted

/-! ## Scenes in which modifications are recorded -/

namespace Scene

/-- The dirty bit of a page says whether the page is modified, if the page has its mapping. -/
def Records (v : Scene) (o : Owner) (entry : Option PageEntry) : Prop :=
  (o.stranded v.movements = true → entry = none) ∧
    (o.stranded v.movements = false →
      ∃ e, entry = some e ∧ e.dirty = o.modified v.layout v.movements)

structure Recorded (v : Scene) : Prop where
  address : ∀ p va page, (v.sight p va).page = some page → page.va = va
  records : ∀ p va page x entry bytes, v.sight p va = ⟨some page, entry, some bytes⟩ →
    page.state = .file x → v.Records ⟨p, va, page.id⟩ entry
  saved : SavedWhenParted v.layout v.movements

variable {v w : Scene} {p : Nat} {va : Vaddr} {s : Sight}

theorem Recorded.blank (hsight : v.sight = fun _ _ => .blank) (hmovements : v.movements = []) :
    v.Recorded := by
  constructor
  · intro p va page hpage
    rw [hsight] at hpage
    contradiction
  · intro p va page x entry bytes hpage
    rw [hsight] at hpage
    cases congrArg Sight.page hpage
  · rw [hmovements]
    exact .nil

theorem Recorded.see (h : v.Recorded) (hlayout : w.layout = v.layout)
    (hsight : w.sight = (v.see p va s).sight)
    (hothers : ∀ o : Owner, ¬(o.process = p ∧ o.va = va) →
      o.modified v.layout w.movements = o.modified v.layout v.movements ∧
        o.stranded w.movements = o.stranded v.movements)
    (haddress : ∀ page, s.page = some page → page.va = va)
    (hrecords : ∀ page x entry bytes, s = ⟨some page, entry, some bytes⟩ → page.state = .file x →
      w.Records ⟨p, va, page.id⟩ entry)
    (hsaved : SavedWhenParted v.layout w.movements) : w.Recorded := by
  constructor
  · intro q wa page hpage
    rw [hsight] at hpage
    by_cases hat : q = p ∧ wa = va
    · rw [hat.1, hat.2, sight_see_self] at hpage
      rw [hat.2]
      exact haddress page hpage
    · rw [sight_see_of_ne hat] at hpage
      exact h.address q wa page hpage
  · intro q wa page x entry bytes hpage hfile
    rw [hsight] at hpage
    by_cases hat : q = p ∧ wa = va
    · rw [hat.1, hat.2, sight_see_self] at hpage
      rw [hat.1, hat.2]
      exact hrecords page x entry bytes hpage hfile
    · rw [sight_see_of_ne hat] at hpage
      have hold := h.records q wa page x entry bytes hpage hfile
      rcases hothers ⟨q, wa, page.id⟩ hat with ⟨hmodified, hstranded⟩
      unfold Records
      rw [hlayout, hmodified, hstranded]
      exact hold
  · rw [hlayout]
    exact hsaved

theorem bne_owner {o : Owner} (id : Nat) (hne : ¬(o.process = p ∧ o.va = va)) :
    ((⟨p, va, id⟩ : Owner) != o) = true := by
  rw [bne_iff_ne]
  rintro rfl
  exact hne ⟨rfl, rfl⟩

theorem Recorded.unsaved {page : Page} {entry : Option PageEntry} {bytes : Bytes}
    {x : FileExtent} (h : v.Recorded)
    (hsight : v.sight p page.va = ⟨some page, entry, some bytes⟩)
    (hextent : page.state.extent = some x) (hsome : x.readBytes ≠ 0)
    (hmodified : (⟨p, page.va, page.id⟩ : Owner).modified v.layout v.movements = true)
    (hlinked : (⟨p, page.va, page.id⟩ : Owner).stranded v.movements = false) :
    page.Unsaved entry x := by
  have hfile : page.state = .file x := by
    cases hstate : page.state with
    | uninit origin =>
        rw [hstate] at hextent
        contradiction
    | anon slot =>
        rw [hstate] at hextent
        contradiction
    | file y =>
        rw [hstate] at hextent
        exact congrArg PageState.file (Option.some.inj hextent)
  rcases (h.records p page.va page x entry bytes hsight hfile).2 hlinked with ⟨e, rfl, hdirty⟩
  exact ⟨hfile, hsome, hdirty.trans hmodified⟩

theorem Recorded.store {data : Bytes} (h : v.Recorded) :
    ((v.stored p va data).noted (.stored p va data.length)).Recorded := by
  have hsame : ∀ {q : Nat} {wa : Vaddr}, q ≠ p →
      ((v.stored p va data).noted (.stored p va data.length)).sight q wa = v.sight q wa :=
    sight_stored_of_ne
  have hself : ∀ {wa : Vaddr},
      ((v.stored p va data).noted (.stored p va data.length)).sight p wa =
        { page := (v.sight p wa).page
          entry := (v.sight p wa).entry.map fun e =>
            { e with dirty := e.dirty || v.layout.touches va data.length wa }
          content := (v.sight p wa).content.map fun content => content.stored wa va data } :=
    sight_stored_self
  constructor
  · intro q wa page hpage
    by_cases hq : q = p
    · rw [hq, hself] at hpage
      exact h.address p wa page hpage
    · rw [hsame hq] at hpage
      exact h.address q wa page hpage
  · intro q wa page x entry bytes hpage hfile
    unfold Records
    show (Owner.stranded _ (.stored p va data.length :: v.movements) = true → _) ∧
      (Owner.stranded _ (.stored p va data.length :: v.movements) = false → ∃ e : PageEntry, _ ∧
        e.dirty = Owner.modified v.layout _ (.stored p va data.length :: v.movements))
    rw [Owner.stranded_stored, Owner.modified_stored]
    by_cases hq : q = p
    · subst hq
      rw [hself] at hpage
      cases hold : v.sight q wa with
      | mk old oldEntry content =>
          rw [hold] at hpage
          cases content with
          | none => cases congrArg Sight.content hpage
          | some content =>
              cases congrArg Sight.page hpage
              have hentry := congrArg Sight.entry hpage
              rcases h.records q wa page x oldEntry content hold hfile with ⟨hlost, hkept⟩
              refine ⟨?_, ?_⟩
              · intro hstranded
                rw [hlost hstranded] at hentry
                exact hentry.symm
              · intro hlinked
                rcases hkept hlinked with ⟨e, rfl, hdirty⟩
                refine ⟨_, hentry.symm, ?_⟩
                simp [hdirty, Bool.or_comm]
    · rw [hsame hq] at hpage
      have hne : (p == q) = false := beq_eq_false_iff_ne.mpr (Ne.symm hq)
      rw [hne, Bool.false_and, Bool.false_or]
      exact h.records q wa page x entry bytes hpage hfile
  · exact h.saved.cons fun _ _ _ _ => Event.noConfusion

theorem Recorded.step {deed : Deed} (h : v.Recorded) (hstep : Step deed v w) : w.Recorded := by
  cases hstep with
  | start accepts vacant => exact ⟨h.address, h.records, h.saved⟩
  | regroup groups kept => exact ⟨h.address, h.records, h.saved⟩
  | save sight unsaved =>
      exact ⟨h.address, h.records, h.saved.cons fun _ _ _ _ => Event.noConfusion⟩
  | store writable => exact h.store
  | @register _ p page free idle =>
      refine h.see rfl rfl (fun _ _ => ⟨rfl, rfl⟩) ?_ ?_ h.saved
      · intro other hother
        cases hother
        rfl
      · intro other x entry bytes heq
        cases congrArg Sight.content heq
  | @relink _ p f page bytes sight frame anon =>
      refine h.see rfl rfl (fun _ _ => ⟨rfl, rfl⟩) ?_ ?_ h.saved
      · intro other hother
        cases hother
        rfl
      · intro other x entry content heq hfile
        cases congrArg Sight.page heq
        rw [anon] at hfile
        contradiction
  | @forget _ p page sight =>
      refine h.see rfl rfl (fun _ _ => ⟨rfl, rfl⟩) ?_ ?_ h.saved
      · intro other hother
        contradiction
      · intro other x entry bytes heq
        cases congrArg Sight.content heq
  | @load _ p f page bytes sight idle image =>
      refine h.see rfl rfl ?_ ?_ ?_ (h.saved.cons fun _ _ _ _ => Event.noConfusion)
      · intro o hne
        have hother := bne_owner page.id hne
        exact ⟨by simp [hother], by simp [hother]⟩
      · intro other hother
        cases hother
        rfl
      · intro other x entry content heq hfile
        cases heq
        unfold Records
        simp
  | @clone _ p f copy bytes dirty sight idle =>
      refine h.see rfl rfl ?_ ?_ ?_ (h.saved.cons fun _ _ _ _ => Event.noConfusion)
      · intro o hne
        have hother := bne_owner copy.id hne
        have hneq := bne_iff_ne.mp hother
        exact ⟨by simp [hneq], by simp [hother]⟩
      · intro other hother
        cases hother
        rfl
      · intro other x entry content heq hfile
        cases heq
        unfold Records
        simp
  | @strand _ p page entry bytes sight refused =>
      refine h.see rfl rfl ?_ ?_ ?_ (h.saved.cons fun _ _ _ _ => Event.noConfusion)
      · intro o hne
        have hneq := bne_iff_ne.mp (bne_owner page.id hne)
        exact ⟨by simp, by simp [hneq]⟩
      · intro other hother
        cases hother
        rfl
      · intro other x entry content heq hfile
        cases heq
        unfold Records
        simp
  | @evict _ p page entry bytes state sight evicted saved =>
      refine h.see rfl rfl (fun _ _ => ⟨rfl, rfl⟩) ?_ ?_ (h.saved.part ?_)
      · intro other hother
        cases hother
        rfl
      · intro other x entry content heq
        cases congrArg Sight.content heq
      · intro x hextent hsome hmodified hlinked
        rcases saved x (h.unsaved sight hextent hsome hmodified hlinked) with ⟨before, hsent⟩
        exact ⟨_, before, hsent, fun _ => rfl⟩
  | @remove _ p page entry bytes sight saved =>
      refine h.see rfl rfl (fun _ _ => ⟨rfl, rfl⟩) ?_ ?_ (h.saved.part ?_)
      · intro other hother
        contradiction
      · intro other x entry content heq
        cases congrArg Sight.content heq
      · intro x hextent hsome hmodified hlinked
        rcases saved x (h.unsaved sight hextent hsome hmodified hlinked) with
          ⟨accepted, before, hsent⟩
        exact ⟨accepted, before, hsent, fun hevicted => by contradiction⟩

/-! ## Resident pages stay until they part with their frames -/

theorem Step.movements {deed : Deed} (hstep : Step deed v w) :
    ∃ recent, w.movements = recent ++ v.movements := by
  cases hstep with
  | start | register | regroup | relink | forget => exact ⟨[], rfl⟩
  | load | save | evict | strand | remove | clone | store => exact ⟨[_], rfl⟩

/-- In the second scene a resident page of the first is where it was, and it is still modified if
it was. -/
def Stays (v : Scene) (p : Nat) (page : Page) (w : Scene) : Prop :=
  (∃ entry bytes, w.sight p page.va = ⟨some page, entry, some bytes⟩) ∧
    ((⟨p, page.va, page.id⟩ : Owner).modified v.layout v.movements = true →
      (⟨p, page.va, page.id⟩ : Owner).modified w.layout w.movements = true)

theorem Step.stays {deed : Deed} {page : Page} {entry : Option PageEntry} {bytes : Bytes}
    (hstep : Step deed v w) (hsight : v.sight p page.va = ⟨some page, entry, some bytes⟩) :
    (∃ content evicted, w.movements =
      .parted ⟨p, page.va, page.id⟩ page.state.extent content evicted :: v.movements) ∨
      v.Stays p page w := by
  -- A page without content is another one.
  have hidle : ∀ {q : Nat} {wa : Vaddr} {other : Option Page} {e : Option PageEntry},
      v.sight q wa = ⟨other, e, none⟩ → ¬(p = q ∧ page.va = wa) := by
    rintro q wa other e hother ⟨rfl, rfl⟩
    cases congrArg Sight.content (hsight.symm.trans hother)
  have hfound : ∀ {q : Nat} {other : Page} {e : Option PageEntry} {content : Option Bytes},
      v.sight q other.va = ⟨some other, e, content⟩ → p = q ∧ page.va = other.va →
        page = other := by
    rintro q other e content hother ⟨rfl, hva⟩
    rw [← hva] at hother
    exact Option.some.inj (congrArg Sight.page (hsight.symm.trans hother))
  cases hstep with
  | start accepts vacant => exact Or.inr ⟨⟨entry, bytes, hsight⟩, id⟩
  | regroup groups kept => exact Or.inr ⟨⟨entry, bytes, hsight⟩, id⟩
  | save sight unsaved => exact Or.inr ⟨⟨entry, bytes, hsight⟩, id⟩
  | register free idle =>
      exact Or.inr ⟨⟨entry, bytes, (sight_see_of_ne (hidle free)).trans hsight⟩, id⟩
  | forget sight =>
      exact Or.inr ⟨⟨entry, bytes, (sight_see_of_ne (hidle sight)).trans hsight⟩, id⟩
  | @load _ q f other content sight idle image =>
      have hne := hidle sight
      refine Or.inr ⟨⟨entry, bytes, (sight_see_of_ne hne).trans hsight⟩, ?_⟩
      intro hmodified
      simp [hmodified, bne_owner (o := ⟨p, page.va, page.id⟩) other.id hne]
  | @clone _ q f copy content dirty sight idle =>
      have hne := hidle sight
      refine Or.inr ⟨⟨entry, bytes, (sight_see_of_ne hne).trans hsight⟩, ?_⟩
      intro hmodified
      have hneq := bne_iff_ne.mp (bne_owner (o := ⟨p, page.va, page.id⟩) copy.id hne)
      simp [hmodified, hneq]
  | @evict _ q other e content state sight evicted saved =>
      by_cases hat : p = q ∧ page.va = other.va
      · cases hfound sight hat
        rw [hat.1]
        exact Or.inl ⟨_, _, rfl⟩
      · exact Or.inr ⟨⟨entry, bytes, (sight_see_of_ne hat).trans hsight⟩, id⟩
  | @remove _ q other e content sight saved =>
      by_cases hat : p = q ∧ page.va = other.va
      · cases hfound sight hat
        rw [hat.1]
        exact Or.inl ⟨_, _, rfl⟩
      · exact Or.inr ⟨⟨entry, bytes, (sight_see_of_ne hat).trans hsight⟩, id⟩
  | @strand _ q other e content sight refused =>
      right
      refine ⟨?_, id⟩
      by_cases hat : p = q ∧ page.va = other.va
      · cases hfound sight hat
        rw [hat.1]
        exact ⟨none, content, sight_see_self⟩
      · exact ⟨entry, bytes, (sight_see_of_ne hat).trans hsight⟩
  | @relink _ q f other content sight frame anon =>
      right
      refine ⟨?_, id⟩
      by_cases hat : p = q ∧ page.va = other.va
      · cases hfound sight hat
        rw [hat.1]
        exact ⟨_, content, sight_see_self⟩
      · exact ⟨entry, bytes, (sight_see_of_ne hat).trans hsight⟩
  | @store _ q va data writable =>
      right
      constructor
      · by_cases hq : p = q
        · subst hq
          have hstored : (v.stored p va data).sight p page.va = _ := sight_stored_self
          rw [hsight] at hstored
          exact ⟨_, _, hstored⟩
        · exact ⟨entry, bytes, (sight_stored_of_ne hq).trans hsight⟩
      · intro hmodified
        show Owner.modified v.layout _ (.stored q va data.length :: v.movements) = true
        simp [hmodified]

theorem Steps.movements {allowed : Deed → Prop} (h : Steps allowed v w) :
    v.movements <:+ w.movements := by
  induction h with
  | refl => exact List.suffix_refl _
  | tail _ hdeed ih =>
      rcases hdeed with ⟨deed, -, hdeed⟩
      rcases hdeed.movements with ⟨recent, hrecent⟩
      exact ih.trans (hrecent ▸ List.suffix_append recent _)

/-- A resident page of the first scene gave up its frame on the way to the second one, with its
extent, and until then it was still modified if it was modified at first. -/
def PartsOnTheWay (v : Scene) (p : Nat) (page : Page) (w : Scene) : Prop :=
  ∃ content evicted earlier,
    .parted ⟨p, page.va, page.id⟩ page.state.extent content evicted :: earlier <:+ w.movements ∧
    v.movements <:+ earlier ∧
    ((⟨p, page.va, page.id⟩ : Owner).modified v.layout v.movements = true →
      (⟨p, page.va, page.id⟩ : Owner).modified v.layout earlier = true)

theorem Steps.stays {allowed : Deed → Prop} {page : Page} {entry : Option PageEntry}
    {bytes : Bytes} (h : Steps allowed v w)
    (hsight : v.sight p page.va = ⟨some page, entry, some bytes⟩) :
    v.PartsOnTheWay p page w ∨ v.Stays p page w := by
  induction h with
  | refl => exact Or.inr ⟨⟨entry, bytes, hsight⟩, id⟩
  | tail hbefore hdeed ih =>
      rcases hdeed with ⟨deed, -, hdeed⟩
      rcases hdeed.movements with ⟨recent, hrecent⟩
      rcases ih with ⟨content, evicted, earlier, hparted, hkept⟩ | hstays
      · refine Or.inl ⟨content, evicted, earlier, ?_, hkept⟩
        exact hparted.trans (hrecent ▸ List.suffix_append recent _)
      rcases hstays.1 with ⟨e, last, hat⟩
      rcases hdeed.stays hat with ⟨content, evicted, hparted⟩ | hstill
      · refine Or.inl ⟨content, evicted, _, hparted ▸ List.suffix_refl _,
          Steps.movements hbefore, ?_⟩
        intro hmodified
        have hstill := hstays.2 hmodified
        rwa [Steps.layout_eq hbefore] at hstill
      · exact Or.inr ⟨hstill.1, fun hmodified => hstill.2 (hstays.2 hmodified)⟩

end Scene

theorem Machine.Reachable.recorded {m : Machine} (h : m.Reachable) : m.scene.Recorded := by
  rcases h.steps with ⟨v, hsight, -, hmovements, hsteps⟩
  exact hsteps.keeps (fun _ _ _ _ hstep hrecorded => hrecorded.step hstep)
    (.blank hsight hmovements)

end DemandPaging
