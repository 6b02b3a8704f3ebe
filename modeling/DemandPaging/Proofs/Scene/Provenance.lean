import DemandPaging.Proofs.Scene.Modification

/-!
# Where writes to files come from

Every call that sends bytes to a file is traced back to a dirty page of a file that was there before
the operation: the page itself, or the one that it was copied from since. So is every modified page
that gives up its frame, with the content that it has then. No deed but a store makes a page dirty,
and a copy is dirty only if its original was.
-/

namespace DemandPaging

/-! ## Calls -/

/-- The files after the calls that movements record, of which the latest comes first. -/
def replay (files : List BackingFile) : List Event → List BackingFile
  | [] => files
  | .wroteBack write :: earlier =>
      (replay files earlier).set write.file
        (((replay files earlier).getD write.file (.ofBytes [])).write write.offset.toNat
          write.data).2
  | _ :: earlier => replay files earlier

theorem replay_of_ne {files : List BackingFile} {event : Event} {earlier : List Event}
    (h : ∀ write, event ≠ .wroteBack write) :
    replay files (event :: earlier) = replay files earlier := by
  cases event with
  | wroteBack write => exact absurd rfl (h write)
  | reported | acquired | seized | released | contended | filled | cloned | stored | parted
  | stranded => rfl

theorem replay_append (files : List BackingFile) (later earlier : List Event) :
    replay files (later ++ earlier) = replay (replay files earlier) later := by
  induction later with
  | nil => rfl
  | cons event rest ih =>
      cases event with
      | wroteBack write =>
          rw [List.cons_append, replay, replay, ih]
      | reported | acquired | seized | released | contended | filled | cloned | stored | parted
      | stranded => exact ih

def FileWrite.Answered (write : FileWrite) (files : List BackingFile) : Prop :=
  write.accepted =
    ((files.getD write.file (.ofBytes [])).write write.offset.toNat write.data).1

theorem PageState.eq_file_of_copied {state : PageState} {x : FileExtent}
    (h : state.copied = .file x) : state = .file x := by
  cases state with
  | file y => exact h
  | uninit origin | anon slot => cases h

def Operation.Copies (op : Operation) (p q : Nat) : Prop :=
  op = .fork p q

def Deed.Tidy : Deed → Prop
  | clone .. | store .. => False
  | _ => True

theorem Deed.Evicting.tidy {locks : List Lock} {deed : Deed} (h : deed.Evicting locks) :
    deed.Tidy := by
  cases deed with
  | clone | store => exact h.elim
  | start | register | regroup | load | save | evict | strand | relink | remove => trivial

theorem Deed.Preparing.tidy {t : Nat} {deed : Deed} (h : deed.Preparing t) : deed.Tidy := by
  rcases h with hevicting | ⟨page, rfl⟩
  · exact hevicting.tidy
  · trivial

theorem Deed.Releasing.tidy {p : Nat} {page : Page} {deed : Deed} (h : deed.Releasing p page) :
    deed.Tidy := by
  rcases h with rfl | rfl
  · trivial
  · trivial

theorem Deed.Claiming.tidy {p : Nat} {va : Vaddr} {deed : Deed} (h : deed.Claiming p va) :
    deed.Tidy := by
  rcases h with hevicting | ⟨page, -, rfl⟩
  · exact hevicting.tidy
  · trivial

theorem Deed.Faulting.tidy {p : Nat} {va : Vaddr} {deed : Deed} (h : deed.Faulting p va) :
    deed.Tidy := by
  rcases h with hclaiming | ⟨page, -, -, rfl | hreleasing⟩
  · exact hclaiming.tidy
  · trivial
  · exact hreleasing.tidy

namespace Scene

def Dirty (v : Scene) (p : Nat) (va : Vaddr) (page : Page) (bytes : Bytes) : Prop :=
  ∃ entry, v.sight p va = ⟨some page, entry, some bytes⟩ ∧ entry.any PageEntry.dirty = true

/-- The content of a page of a file comes from a dirty page. That is the page itself, or it was
copied to the page in the meantime. -/
def Source (v : Scene) (copies : Nat → Nat → Prop) (earlier : List Event) (o : Owner)
    (x : FileExtent) (bytes : Bytes) : Prop :=
  ∃ p page, v.Dirty p o.va page bytes ∧ page.state = .file x ∧
    (p = o.process ∧ page.id = o.id ∨ copies p o.process ∧ .cloned o true ∈ earlier)

/-- A call for a write is due to a modified page. It sends what the file has of the page. -/
structure Due (v : Scene) (copies : Nat → Nat → Prop) (earlier : List Event)
    (write : FileWrite) : Prop where
  modified : write.page.modified v.layout (earlier ++ v.movements) = true
  source : ∃ x bytes, v.Source copies earlier write.page x bytes ∧ x.readBytes ≠ 0 ∧
    write.file = x.file ∧ write.offset = x.offset ∧ write.data = bytes.take x.readBytes.toNat

/-- One scene became another by the recent movements. Files changed by the calls on record alone;
each call was due, and each dirty copy is one of a dirty page. A modified page gave up its frame
only after it was saved, and the content that it had then has a source, too. -/
structure Accounts (v : Scene) (copies : Nat → Nat → Prop) (recent : List Event)
    (w : Scene) : Prop where
  layout : w.layout = v.layout
  movements : w.movements = recent ++ v.movements
  files : w.files = replay v.files recent
  writes : ∀ write earlier, .wroteBack write :: earlier <:+ recent →
    v.Due copies earlier write ∧ write.Answered (replay v.files earlier)
  clones : ∀ copy, .cloned copy true ∈ recent →
    ∃ p page bytes, copies p copy.process ∧ v.Dirty p copy.va page bytes
  saved : SavedWhenParted v.layout w.movements
  parts : ∀ o x bytes evicted earlier, .parted o (some x) bytes evicted :: earlier <:+ recent →
    x.readBytes ≠ 0 → o.modified v.layout (earlier ++ v.movements) = true →
    o.stranded (earlier ++ v.movements) = false → v.Source copies earlier o x bytes

/-- Each page that is dirty was dirty before, or it was copied from a page that was. -/
structure Traced (v : Scene) (copies : Nat → Nat → Prop) (recent : List Event)
    (w : Scene) : Prop where
  recorded : w.Recorded
  dirty : ∀ q va page bytes, w.Dirty q va page bytes → v.Dirty q va page bytes ∨
    ∃ p original, copies p q ∧ v.Dirty p va original bytes ∧
      (∀ x, page.state = .file x → original.state = .file x) ∧
      .cloned ⟨q, va, page.id⟩ true ∈ recent

variable {u v w : Scene} {copies : Nat → Nat → Prop} {recent : List Event} {event : Event}
  {p q : Nat} {va wa : Vaddr} {page : Page} {bytes : Bytes}

/-! ## Tidy deeds -/

theorem Dirty.of_see {seen : Sight}
    (hclean : seen.content = none ∨ seen.entry.any PageEntry.dirty = false)
    (h : (v.see p va seen).Dirty q wa page bytes) : v.Dirty q wa page bytes := by
  rcases h with ⟨entry, hsight, hdirty⟩
  by_cases hat : q = p ∧ wa = va
  · rw [hat.1, hat.2, sight_see_self] at hsight
    rw [hsight] at hclean
    rcases hclean with hnone | hfalse
    · contradiction
    · rw [hdirty] at hfalse
      contradiction
  · rw [sight_see_of_ne hat] at hsight
    exact ⟨entry, hsight, hdirty⟩

theorem Step.dirty_of_tidy {deed : Deed} (hstep : Step deed v w) (htidy : deed.Tidy)
    (h : w.Dirty q wa page bytes) : v.Dirty q wa page bytes := by
  cases hstep with
  | start accepts vacant => exact h
  | register free idle => exact h.of_see (Or.inl rfl)
  | regroup groups kept => exact h
  | load sight idle image => exact Dirty.of_see (Or.inr rfl) h
  | save sight unsaved => exact h
  | evict sight evicted saved => exact Dirty.of_see (Or.inl rfl) h
  | strand sight refused => exact Dirty.of_see (Or.inr rfl) h
  | relink sight frame anon => exact h.of_see (Or.inr rfl)
  | forget sight => exact h.of_see (Or.inl rfl)
  | remove sight saved => exact Dirty.of_see (Or.inl rfl) h
  | clone sight idle => exact htidy.elim
  | store writable => exact htidy.elim

/-! ## Accounts -/

theorem Accounts.refl (h : v.Recorded) : v.Accounts copies [] v where
  layout := rfl
  movements := rfl
  files := rfl
  writes := by
    intro write earlier hsuffix
    exact absurd (List.suffix_nil.mp hsuffix) (List.cons_ne_nil _ _)
  clones := fun copy hmem => absurd hmem List.not_mem_nil
  saved := h.saved
  parts := by
    intro o x bytes evicted earlier hsuffix
    exact absurd (List.suffix_nil.mp hsuffix) (List.cons_ne_nil _ _)

theorem Accounts.still (h : v.Accounts copies recent w) (hlayout : u.layout = w.layout)
    (hmovements : u.movements = w.movements) (hfiles : u.files = w.files) :
    v.Accounts copies recent u where
  layout := hlayout.trans h.layout
  movements := hmovements.trans h.movements
  files := hfiles.trans h.files
  writes := h.writes
  clones := h.clones
  saved := hmovements ▸ h.saved
  parts := h.parts

theorem Accounts.cons (h : v.Accounts copies recent w) (hlayout : u.layout = w.layout)
    (hmovements : u.movements = event :: w.movements) (hfiles : u.files = replay w.files [event])
    (hcall : ∀ write, event = .wroteBack write →
      v.Due copies recent write ∧ write.Answered w.files)
    (hcopy : ∀ copy, event = .cloned copy true →
      ∃ p page bytes, copies p copy.process ∧ v.Dirty p copy.va page bytes)
    (hsaved : SavedWhenParted v.layout u.movements)
    (hpart : ∀ o x bytes evicted, event = .parted o (some x) bytes evicted → x.readBytes ≠ 0 →
      o.modified w.layout w.movements = true → o.stranded w.movements = false →
      v.Source copies recent o x bytes) :
    v.Accounts copies (event :: recent) u where
  layout := hlayout.trans h.layout
  movements := by
    rw [hmovements, h.movements]
    rfl
  files := by
    rw [hfiles, h.files, ← replay_append]
    rfl
  writes := by
    intro write earlier hsuffix
    rcases List.suffix_cons_iff.mp hsuffix with heq | hlater
    · cases heq
      rw [← h.files]
      exact hcall write rfl
    · exact h.writes write earlier hlater
  clones := by
    intro copy hmem
    rcases List.mem_cons.mp hmem with heq | hrest
    · exact hcopy copy heq.symm
    · exact h.clones copy hrest
  saved := hsaved
  parts := by
    intro o x bytes evicted earlier hsuffix
    rcases List.suffix_cons_iff.mp hsuffix with heq | hlater
    · cases heq
      rw [← h.layout, ← h.movements]
      exact hpart o x bytes evicted rfl
    · exact h.parts o x bytes evicted earlier hlater

/-- An event that is neither a call nor the loss of a frame needs an account only if it is a dirty
copy. -/
theorem Accounts.noted (h : v.Accounts copies recent w) (hlayout : u.layout = w.layout)
    (hmovements : u.movements = event :: w.movements) (hfiles : u.files = w.files)
    (hcall : ∀ write, event ≠ .wroteBack write)
    (hcopy : ∀ copy, event = .cloned copy true →
      ∃ p page bytes, copies p copy.process ∧ v.Dirty p copy.va page bytes)
    (hpart : ∀ o extent bytes evicted, event ≠ .parted o extent bytes evicted) :
    v.Accounts copies (event :: recent) u := by
  have hreplay : u.files = replay w.files [event] := by
    rw [hfiles, replay_of_ne hcall]
    rfl
  refine h.cons hlayout hmovements hreplay ?_ hcopy ?_ ?_
  · intro write heq
    exact absurd heq (hcall write)
  · rw [hmovements]
    exact h.saved.cons hpart
  · intro o x bytes evicted heq
    exact absurd heq (hpart o (some x) bytes evicted)

theorem Traced.source {x : FileExtent} {entry : Option PageEntry} (t : v.Traced copies recent w)
    (hsight : w.sight p page.va = ⟨some page, entry, some bytes⟩)
    (hunsaved : page.Unsaved entry x) :
    v.Source copies recent ⟨p, page.va, page.id⟩ x bytes := by
  rcases hunsaved with ⟨hfile, -, hdirty⟩
  rcases t.dirty p page.va page bytes ⟨entry, hsight, hdirty⟩ with
    hown | ⟨origin, original, hcopies, horiginal, hstate, hcloned⟩
  · exact ⟨p, page, hown, hfile, Or.inl ⟨rfl, rfl⟩⟩
  · exact ⟨origin, original, horiginal, hstate x hfile, Or.inr ⟨hcopies, hcloned⟩⟩

theorem Accounts.written {x : FileExtent} {entry : Option PageEntry}
    (h : v.Accounts copies recent w) (t : v.Traced copies recent w)
    (hsight : w.sight p page.va = ⟨some page, entry, some bytes⟩)
    (hunsaved : page.Unsaved entry x) :
    v.Accounts copies (.wroteBack (w.writeOf ⟨p, page.va, page.id⟩ x bytes) :: recent)
      (w.written ⟨p, page.va, page.id⟩ x bytes) := by
  refine h.cons rfl rfl rfl ?_ nofun (h.saved.cons nofun) nofun
  intro write heq
  cases heq
  refine ⟨⟨?_, x, bytes, t.source hsight hunsaved, hunsaved.2.1, rfl, rfl, rfl⟩, rfl⟩
  rcases hunsaved with ⟨hfile, -, hdirty⟩
  rcases t.recorded.records p page.va page x entry bytes hsight hfile with ⟨hlost, hkept⟩
  rw [← h.layout, ← h.movements]
  show (⟨p, page.va, page.id⟩ : Owner).modified w.layout w.movements = true
  cases hstranded : (⟨p, page.va, page.id⟩ : Owner).stranded w.movements with
  | true =>
      rw [hlost hstranded] at hdirty
      contradiction
  | false =>
      rcases hkept hstranded with ⟨e, rfl, hmodified⟩
      exact hmodified.symm.trans hdirty

theorem Accounts.parted {entry : Option PageEntry} {evicted : Bool}
    (h : v.Accounts copies recent w) (t : v.Traced copies recent w)
    (hsight : w.sight p page.va = ⟨some page, entry, some bytes⟩) (hlayout : u.layout = w.layout)
    (hmovements : u.movements =
      .parted ⟨p, page.va, page.id⟩ page.state.extent bytes evicted :: w.movements)
    (hfiles : u.files = w.files) (hrecorded : u.Recorded) :
    v.Accounts copies
      (.parted ⟨p, page.va, page.id⟩ page.state.extent bytes evicted :: recent) u := by
  refine h.cons hlayout hmovements hfiles nofun nofun ?_ ?_
  · rw [← h.layout, ← hlayout]
    exact hrecorded.saved
  · intro o x content evicted' heq hsome hmodified hlinked
    rcases Event.parted.inj heq with ⟨rfl, hextent, rfl, rfl⟩
    exact t.source hsight (t.recorded.unsaved hsight hextent hsome hmodified hlinked)

theorem Accounts.step {deed : Deed} (h : v.Accounts copies recent w)
    (t : v.Traced copies recent w) (hstep : Step deed w u) (htidy : deed.Tidy) :
    ∃ events, v.Accounts copies (events ++ recent) u := by
  cases hstep with
  | start accepts vacant => exact ⟨[], h.still rfl rfl rfl⟩
  | register free idle => exact ⟨[], h.still rfl rfl rfl⟩
  | regroup groups kept => exact ⟨[], h.still rfl rfl rfl⟩
  | load sight idle image => exact ⟨[_], h.noted rfl rfl rfl nofun nofun nofun⟩
  | save sight unsaved => exact ⟨[_], h.written t sight unsaved⟩
  | evict sight evicted saved =>
      have hrecorded := t.recorded.step (.evict sight evicted saved)
      exact ⟨[_], h.parted t sight rfl rfl rfl hrecorded⟩
  | strand sight refused => exact ⟨[_], h.noted rfl rfl rfl nofun nofun nofun⟩
  | relink sight frame anon => exact ⟨[], h.still rfl rfl rfl⟩
  | forget sight => exact ⟨[], h.still rfl rfl rfl⟩
  | remove sight saved =>
      have hrecorded := t.recorded.step (.remove sight saved)
      exact ⟨[_], h.parted t sight rfl rfl rfl hrecorded⟩
  | clone sight idle => exact htidy.elim
  | store writable => exact htidy.elim

theorem Traced.step {deed : Deed} {events : List Event} (t : v.Traced copies recent w)
    (hstep : Step deed w u) (htidy : deed.Tidy) : v.Traced copies (events ++ recent) u where
  recorded := t.recorded.step hstep
  dirty := by
    intro q va page bytes hdirty
    refine (t.dirty q va page bytes (hstep.dirty_of_tidy htidy hdirty)).imp_right ?_
    rintro ⟨p, original, hcopies, horiginal, hstate, hcloned⟩
    exact ⟨p, original, hcopies, horiginal, hstate, List.mem_append_right _ hcloned⟩

theorem Accounts.steps {allowed : Deed → Prop} (h : v.Accounts copies recent w)
    (t : v.Traced copies recent w) (hsteps : Steps allowed w u)
    (htidy : ∀ deed, allowed deed → deed.Tidy) :
    ∃ recent', v.Accounts copies recent' u ∧ v.Traced copies recent' u := by
  induction hsteps with
  | refl => exact ⟨recent, h, t⟩
  | tail _ hdeed ih =>
      rcases hdeed with ⟨deed, hallowed, hstep⟩
      rcases ih with ⟨recent', h', t'⟩
      rcases h'.step t' hstep (htidy deed hallowed) with ⟨events, hevents⟩
      exact ⟨events ++ recent', hevents, t'.step hstep (htidy deed hallowed)⟩

theorem Traced.refl (h : v.Recorded) : v.Traced copies [] v where
  recorded := h
  dirty := fun _ _ _ _ => Or.inl

theorem Accounts.stores {allowed : Deed → Prop} (h : v.Accounts copies recent w)
    (hsteps : Steps allowed w u)
    (hstore : ∀ deed, allowed deed → ∃ p va data, deed = .store p va data) :
    ∃ recent', v.Accounts copies recent' u := by
  induction hsteps with
  | refl => exact ⟨recent, h⟩
  | tail _ hdeed ih =>
      rcases hdeed with ⟨deed, hallowed, hstep⟩
      rcases ih with ⟨recent', h'⟩
      rcases hstore deed hallowed with ⟨p, va, data, rfl⟩
      cases hstep with
      | store writable => exact ⟨_, h'.noted rfl rfl rfl nofun nofun nofun⟩

/-! ## Forks -/

variable {s t id : Nat} {copy : Page} {vas : List Vaddr}

theorem Accounts.cloned {dirty : Bool} (h : v.Accounts copies recent w)
    (k : v.Traced copies recent w) (hsight : w.sight t copy.va = ⟨some copy, none, none⟩)
    (hnone : copy.frame = none) (hcloned : w.Cloned t copy dirty bytes u)
    (hsource : dirty = true → ∃ p original, copies p t ∧ v.Dirty p copy.va original bytes ∧
      ∀ x, copy.state = .file x → original.state = .file x) :
    ∃ recent', v.Accounts copies recent' u ∧ v.Traced copies recent' u := by
  rcases hcloned with ⟨f, rfl⟩
  refine ⟨.cloned ⟨t, copy.va, copy.id⟩ dirty :: recent, h.noted rfl rfl rfl nofun ?_ nofun,
    k.recorded.step (.clone hsight hnone), ?_⟩
  · intro other hother
    cases hother
    rcases hsource rfl with ⟨p, original, hcopies, horiginal, -⟩
    exact ⟨p, original, bytes, hcopies, horiginal⟩
  · intro q wa page content hdirty
    rcases hdirty with ⟨entry, hplace, hdirty⟩
    by_cases hat : q = t ∧ wa = copy.va
    · rcases hat with ⟨rfl, rfl⟩
      cases hplace.symm.trans sight_see_self
      rcases hsource hdirty with ⟨p, original, hcopies, horiginal, hstate⟩
      rw [show dirty = true from hdirty]
      exact Or.inr ⟨p, original, hcopies, horiginal, hstate, List.mem_cons_self⟩
    · have hbefore : w.Dirty q wa page content := ⟨entry, (sight_see_of_ne hat).symm.trans hplace,
        hdirty⟩
      refine (k.dirty q wa page content hbefore).imp_right ?_
      rintro ⟨p, original, hcopies, horiginal, hstate, hcloned⟩
      exact ⟨p, original, hcopies, horiginal, hstate, List.mem_cons_of_mem _ hcloned⟩

/-- The account of one turn. A resident page is dirty at its turn only if it was dirty before, since
no copies are made in its own process. -/
theorem Copied.accounts (copied : w.Copied s t page copy u)
    (h : v.Accounts (Operation.fork s t).Copies recent w)
    (k : v.Traced (Operation.fork s t).Copies recent w)
    (found : (w.sight s page.va).page = some page)
    (alike : copy = { page.copyFor t with id := id }) :
    ∃ recent', v.Accounts (Operation.fork s t).Copies recent' u ∧
      v.Traced (Operation.fork s t).Copies recent' u := by
  have hva : copy.va = page.va := by
    rw [alike]
    rfl
  have hnone : copy.frame = none := by
    rw [alike]
    rfl
  have hne : s ≠ t := by
    rintro rfl
    rw [copied.fresh] at found
    contradiction
  have hregister : Step (.register t copy) w (w.see t page.va ⟨some copy, none, none⟩) := by
    rw [← hva]
    refine .register ?_ hnone
    rw [hva]
    exact copied.fresh
  have hregistered := h.still (u := w.see t page.va ⟨some copy, none, none⟩) rfl rfl rfl
  have kregistered : v.Traced (Operation.fork s t).Copies ([] ++ recent)
      (w.see t page.va ⟨some copy, none, none⟩) := k.step hregister trivial
  rcases copied.outcome with ⟨-, -, rfl⟩ | ⟨-, x, dirty, bytes, hsteps, hcloned, hresident, hclean⟩
  · exact ⟨recent, hregistered, kregistered⟩
  · have hsight : x.sight t copy.va = ⟨some copy, none, none⟩ := by
      rw [hva, hsteps.sight_locked List.mem_cons_self]
      exact sight_see_self
    rcases hregistered.steps kregistered hsteps fun _ hdeed => hdeed.tidy with ⟨recent', h', k'⟩
    refine h'.cloned k' hsight hnone hcloned ?_
    rintro rfl
    cases hframe : page.frame with
    | none => cases hclean hframe
    | some f =>
        rw [hframe] at hresident
        rcases hresident rfl with ⟨hcontent, hdirty⟩
        have hsource : w.Dirty s page.va page bytes := by
          refine ⟨(w.sight s page.va).entry, ?_, hdirty.symm⟩
          rw [← found, ← hcontent]
        rcases k.dirty s page.va page bytes hsource with hbefore | ⟨_, _, hcopies, -⟩
        · refine ⟨s, page, rfl, hva ▸ hbefore, ?_⟩
          intro x hx
          rw [alike] at hx
          exact PageState.eq_file_of_copied hx
        · cases hcopies
          exact absurd rfl hne

theorem Turns.accounts (h : Turns s t w vas u)
    (ha : v.Accounts (Operation.fork s t).Copies recent w)
    (k : v.Traced (Operation.fork s t).Copies recent w) :
    ∃ recent', v.Accounts (Operation.fork s t).Copies recent' u ∧
      v.Traced (Operation.fork s t).Copies recent' u := by
  induction h generalizing recent with
  | nil w => exact ⟨recent, ha, k⟩
  | cons found address alike copied later ih =>
      subst address
      rcases copied.accounts ha k found alike with ⟨recent', ha', k'⟩
      exact ih ha' k'

theorem BrokenOff.accounts (h : BrokenOff s t w u)
    (ha : v.Accounts (Operation.fork s t).Copies recent w)
    (k : v.Traced (Operation.fork s t).Copies recent w) :
    ∃ recent', v.Accounts (Operation.fork s t).Copies recent' u ∧
      v.Traced (Operation.fork s t).Copies recent' u := by
  rcases h with ⟨vas, x, hturns, hsteps⟩
  rcases hturns.accounts ha k with ⟨recent', ha', k'⟩
  exact ha'.steps k' hsteps fun _ hdeed => hdeed.tidy

end Scene
end DemandPaging
