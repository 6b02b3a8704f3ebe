import DemandPaging.Proofs.Machine.Resolution
import DemandPaging.Proofs.Machine.WriteCauses

/-!
# Write-back of modified pages

A page of a file that the user wrote to is sent to its file before it gives up its frame, and an
eviction takes the frame only if the file accepted all bytes. That holds as long as the page has its
mapping. A page that could not be saved and could not be mapped again has lost its dirty bit, and
the next eviction takes its frame without a word to the file.
-/

namespace DemandPaging
namespace Machine

variable {m next : Machine} {mem : FlatMemory} {p f : Nat} {va : Vaddr} {page : Page}

/-- Whether the user wrote to a page since it got its content, or it is a copy of a page that was
modified. -/
def modified (m : Machine) (o : Owner) : Bool :=
  o.modified m.layout m.movements

/-! ## What mappings show -/

/-- What a resident page of a file shows of its modifications: the dirty bit of its mapping, or
nothing, if the unit refused to map the page again. -/
def ShowsModification (m : Machine) (p : Nat) (page : Page) (f : Nat) : Prop :=
  if (ownerOf p page).stranded m.movements = true then
    m.mapped? p page.va = none ∧ m.HasRefused p
  else
    ∃ e, m.mapped? p page.va = some e ∧ e.frame = f ∧ e.dirty = m.modified (ownerOf p page)

theorem Sound.showsModification {x : FileExtent} (k : m.Sound {} mem) (h : m.scene.Recorded)
    (hpage : m.page? p va = some page) (hframe : page.frame = some f)
    (hfile : page.state = .file x) : m.ShowsModification p page f := by
  have haddress := (k.placed p va page hpage).address
  subst haddress
  have hsight : m.scene.sight p page.va =
      ⟨some page, m.entryAt p page.va, some (m.pool.content f)⟩ := sight_of_frame hpage hframe
  rcases h.records p page.va page x _ _ hsight hfile with ⟨hlost, hkept⟩
  unfold ShowsModification
  split
  · rename_i hstranded
    have hnone : m.mapped? p page.va = none := Option.map_eq_none_iff.mp (hlost hstranded)
    have hbase : m.pageBase page.va = page.va :=
      Word.alignDown_of_isAligned k.powerOfTwo (k.placed p page.va page hpage).aligned
    have hat : m.Stranded p page.va := by
      refine ⟨⟨page, ?_, ?_⟩, ?_⟩
      · rw [lookup, hbase, hpage]
      · rw [Page.isResident, hframe]
        rfl
      · rw [hbase, hnone]
    exact ⟨hnone, k.hasRefused_of_stranded hat⟩
  · rename_i hlinked
    rcases hkept (Bool.eq_false_iff.mpr hlinked) with ⟨e, he, hdirty⟩
    rcases Option.map_eq_some_iff.mp he with ⟨e', he', rfl⟩
    rcases k.backed he' with ⟨other, hother, hframe', -⟩
    cases hpage.symm.trans hother
    exact ⟨e', he', Option.some.inj (hframe'.symm.trans hframe), hdirty⟩

/-! ## Runs -/

theorem Sound.steps_run {ops : List Operation} (k : m.Sound {} mem)
    (hrun : m.run ops = some next) : Scene.Steps (fun _ => True) m.scene next.scene := by
  induction ops generalizing m mem with
  | nil =>
      cases hrun
      exact .refl _
  | cons op rest ih =>
      rw [run_cons] at hrun
      rcases Option.bind_eq_some_iff.mp hrun with ⟨after, hafter, hrest⟩
      rcases k.after? hafter with ⟨mem', kafter⟩
      exact ((k.steps_after? hafter).mono fun _ _ => trivial).trans (ih kafter hrest)

/-- Over a run, a resident page of a file gives up its frame, and was still modified until then if
it was modified at first, or it stays where it is. -/
theorem Reachable.parts_or_stays {x : FileExtent} {ops : List Operation} (h : m.Reachable)
    (hpage : m.page? p va = some page) (hframe : page.frame = some f)
    (hfile : page.state = .file x) (hrun : m.run ops = some next) :
    (∃ bytes evicted earlier,
      .parted (ownerOf p page) (some x) bytes evicted :: earlier <:+ next.movements ∧
        m.movements <:+ earlier ∧ (m.modified (ownerOf p page) = true →
          (ownerOf p page).modified m.layout earlier = true)) ∨
      next.page? p va = some page ∧ next.ShowsModification p page f ∧
        (m.modified (ownerOf p page) = true → next.modified (ownerOf p page) = true) := by
  rcases h.sound with ⟨mem, k⟩
  have haddress := (k.placed p va page hpage).address
  subst haddress
  have hsight : m.scene.sight p page.va =
      ⟨some page, m.entryAt p page.va, some (m.pool.content f)⟩ := sight_of_frame hpage hframe
  rcases (k.steps_run hrun).stays hsight with ⟨bytes, evicted, earlier, hparted, hkept⟩ | hstays
  · rw [hfile] at hparted
    exact Or.inl ⟨bytes, evicted, earlier, hparted, hkept⟩
  · rcases hstays.1 with ⟨entry, content, hstill⟩
    have hpage' : next.page? p page.va = some page := congrArg Sight.page hstill
    have hnext := h.later hrun
    rcases hnext.sound with ⟨mem', knext⟩
    exact Or.inr ⟨hpage', knext.showsModification hnext.recorded hpage' hframe hfile, hstays.2⟩

/-- A modified page that has its mapping does not lose its changes. When it gave up its frame, what
its frame held was sent to the file right before, with the answer of the file, which accepted all
bytes if the page was evicted. Until then it keeps its frame, it stays modified, and its mapping
says so, unless the unit refuses to map the page again. -/
theorem modified_page_saved {config : Config} {hardware : Hardware} {start : Machine}
    (hboot : boot config hardware = .ok start) (ops : List Operation) :
    (start.last ops).files.map BackingFile.unread =
        replay (start.files.map BackingFile.unread) (start.last ops).movements ∧
      (∀ write earlier, .wroteBack write :: earlier <:+ (start.last ops).movements →
        write.Answered (replay (start.files.map BackingFile.unread) earlier)) ∧
      (∀ o x bytes evicted earlier,
        .parted o (some x) bytes evicted :: earlier <:+ (start.last ops).movements →
          x.readBytes ≠ 0 → o.modified start.layout earlier = true → o.stranded earlier = false →
          SavedBefore o x bytes evicted earlier ∧
            ∃ before op after m recent, ops = before ++ op :: after ∧ start.run before = some m ∧
              earlier = recent ++ m.movements ∧ m.Finds op recent o x bytes) ∧
      ∀ before m, start.run before = some m →
        ∀ p va page f x, m.page? p va = some page → page.frame = some f → page.state = .file x →
          m.ShowsModification p page f ∧ ∀ after next, m.run after = some next →
            (∃ bytes evicted earlier,
              .parted (ownerOf p page) (some x) bytes evicted :: earlier <:+ next.movements ∧
                m.movements <:+ earlier ∧ (m.modified (ownerOf p page) = true →
                  (ownerOf p page).modified m.layout earlier = true)) ∨
              next.page? p va = some page ∧ next.ShowsModification p page f ∧
                (m.modified (ownerOf p page) = true →
                  next.modified (ownerOf p page) = true) := by
  rcases accounted_of_boot hboot ops with ⟨hnone, haccounted⟩
  refine ⟨haccounted.files, haccounted.answers, ?_, ?_⟩
  · intro o x bytes evicted earlier hparted hsome hmodified hlinked
    have hamid := haccounted.parts o x bytes evicted earlier hparted hsome
    rw [hnone, List.append_nil] at hamid
    exact ⟨haccounted.saved o x bytes evicted earlier hparted hsome hmodified hlinked,
      hamid hmodified hlinked⟩
  · intro before m hbefore p va page f x hpage hframe hfile
    have hm : m.Reachable := ⟨config, hardware, start, before, hboot, hbefore⟩
    rcases hm.sound with ⟨mem, k⟩
    refine ⟨k.showsModification hm.recorded hpage hframe hfile, ?_⟩
    intro after next hafter
    exact hm.parts_or_stays hpage hframe hfile hafter

def pickyFile (refused : Nat → Bool) : BackingFile :=
  { BackingFile.patterned 16 with
    writing := ⟨fun call => if refused call then .refused else .whole, 0⟩ }

def writeThenEvict : List Operation :=
  [.map 0 0x1000 16 true 0 0, .claim 0 0x1000, .write 0 0x1000 [7], .map 1 0x2000 48 true 1 0,
    .claim 1 0x2000, .read 1 0x2000 1, .claim 1 0x2010, .read 1 0x2010 1, .claim 1 0x2020]

/-- Whether the last page that parted with its frame was evicted although it was modified, with a
history that passes a check. -/
def lastEvicted (m : Machine) (check : Owner → FileExtent → List Event → Bool) : Bool :=
  match m.movements with
  | _ :: .parted o (some x) _ true :: earlier =>
      x.readBytes != 0 && o.modified m.layout earlier && check o x earlier
  | _ => false

theorem exists_of_lastEvicted {check : Owner → FileExtent → List Event → Bool}
    (h : m.lastEvicted check = true) :
    ∃ o x bytes earlier, .parted o (some x) bytes true :: earlier <:+ m.movements ∧
      x.readBytes ≠ 0 ∧ o.modified m.layout earlier = true ∧ check o x earlier = true := by
  unfold lastEvicted at h
  split at h
  · rename_i filled o x bytes earlier hmovements
    rw [Bool.and_eq_true, Bool.and_eq_true, bne_iff_ne] at h
    exact ⟨o, x, bytes, earlier, hmovements ▸ List.suffix_cons _ _, h.1.1, h.1.2, h.2⟩
  · contradiction

def refusedFor (o : Owner) : Event → Bool
  | .wroteBack write => write.page == o && write.accepted.isNone
  | _ => false

/-- The file refuses the page at first. The page is mapped again, and the next eviction saves what
its frame holds. -/
theorem saved_at_second_eviction : ∃ start ops o x bytes before,
    boot smallConfig (smallHardware none [pickyFile fun call => call == 0, .patterned 64]) =
      .ok start ∧
    .parted o (some x) bytes true :: .wroteBack ⟨o, x.file, x.offset,
      bytes.take x.readBytes.toNat, some x.readBytes.toNat⟩ :: before <:+
        (start.last ops).movements ∧
    before.any (refusedFor o) = true ∧
    ∃ first op rest m recent, ops = first ++ op :: rest ∧ start.run first = some m ∧
      m.Finds op recent o x bytes := by
  rcases exists_run smallConfig
    (smallHardware none [pickyFile fun call => call == 0, .patterned 64])
    (.start (.always true) :: .start (.always true) :: writeThenEvict)
    (fun _ m => m.lastEvicted fun o _ earlier =>
      !o.stranded earlier && earlier.tail.any (refusedFor o)) (by decide +kernel) with
    ⟨start, m, hboot, hrun, hcheck⟩
  rcases exists_of_lastEvicted hcheck with ⟨o, x, bytes, earlier, hparted, hsome, hmodified, hlast⟩
  rw [Bool.and_eq_true, Bool.not_eq_true'] at hlast
  have hreachable : start.Reachable := ⟨_, _, start, [], hboot, rfl⟩
  rcases hreachable.sound with ⟨mem, k⟩
  have hlayout : m.layout = start.layout := (k.steps_run hrun).layout_eq
  rw [hlayout] at hmodified
  rw [← last_of_run hrun] at hparted
  rcases (modified_page_saved hboot _).2.2.1 o x bytes true earlier hparted hsome hmodified
    hlast.1 with ⟨⟨accepted, before, rfl, haccepted⟩, first, op, rest, n, recent, hops, hfirst, -,
      hfinds⟩
  rw [haccepted rfl] at hparted
  exact ⟨start, _, o, x, bytes, before, hboot, hparted, hlast.2, first, op, rest, n, recent, hops,
    hfirst, hfinds⟩

/-- The file refuses the page, and the unit refuses to map it again. The next eviction takes its
frame, and the file never gets the bytes. -/
theorem not_always_saved : ¬∀ (m : Machine) o x bytes earlier, m.Reachable →
    .parted o (some x) bytes true :: earlier <:+ m.movements → x.readBytes ≠ 0 →
    o.modified m.layout earlier = true → ∃ write, .wroteBack write ∈ earlier ∧
      write.page = o ∧ write.accepted = some x.readBytes.toNat := by
  intro hall
  have hrun := Reachable.of_run smallConfig
    (smallHardware none [pickyFile fun call => call == 0, .patterned 64])
    (.start (.budget 1) :: .start (.always true) :: writeThenEvict)
    (fun m => m.lastEvicted fun o x earlier => earlier.all fun event => match event with
      | .wroteBack write => write.page != o || write.accepted != some x.readBytes.toNat
      | _ => true) (by decide +kernel)
  rcases hrun with ⟨m, hm, hcheck⟩
  rcases exists_of_lastEvicted hcheck with ⟨o, x, bytes, earlier, hparted, hsome, hmodified, hlast⟩
  rcases hall m o x bytes earlier hm hparted hsome hmodified with ⟨write, hwrite, rfl, haccepted⟩
  have hrefused := List.all_eq_true.mp hlast _ hwrite
  simp [haccepted] at hrefused

end Machine
end DemandPaging
