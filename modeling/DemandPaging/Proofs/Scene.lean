import DemandPaging.Proofs.FlatMemory
import DemandPaging.Proofs.Machine.Views
import DemandPaging.Proofs.Origin
import Mathlib.Logic.Relation

/-!
# Scenes

A scene is what one sees of a machine by looking at the content of its pages alone: the pages with
their entries and the content of their frames, the file mappings, the files, and the movements of
content so far. Locks, reports, free frames, slots and accessed bits are out of sight. A deed is
the least that can happen in a scene; whatever a routine does is a sequence of deeds.
-/

namespace DemandPaging

/-! ## What is seen -/

/-- What is seen at an address of a process: the page that is registered there, its entry in the
memory management unit, and the content of its frame. -/
structure Sight where
  page : Option Page
  /-- The entry without its accessed bit. -/
  entry : Option PageEntry
  content : Option Bytes

def Sight.blank : Sight :=
  ⟨none, none, none⟩

def Event.isMovement : Event → Bool
  | reported _ | acquired _ | seized _ | released _ | contended _ => false
  | _ => true

def BackingFile.unread (file : BackingFile) : BackingFile :=
  { file with reading := { file.reading with calls := 0 } }

@[ext]
structure Scene where
  layout : Layout
  sight : Nat → Vaddr → Sight
  mappings : Nat → AddressMap FileMapping
  /-- The files, whose reads are not counted. -/
  files : List BackingFile
  /-- Which calls for a mapping the unit of a process lets through. -/
  accepts : Nat → Nat → Bool
  /-- The latest first. -/
  movements : List Event

/-- A number of bytes from an address on includes a byte of the page with a given base. -/
def Layout.touches (l : Layout) (va : Vaddr) (count : Nat) (base : Vaddr) : Bool :=
  (List.range count).any fun i => Word.alignDown (va + UInt64.ofNat i) l.pageSize == base

namespace Scene

variable (v : Scene)

def file (f : Nat) : BackingFile :=
  v.files.getD f (.ofBytes [])

def see (p : Nat) (va : Vaddr) (s : Sight) : Scene :=
  { v with sight := setAt v.sight p va s }

def noted (event : Event) : Scene :=
  { v with movements := event :: v.movements }

def grouped (p : Nat) (groups : AddressMap FileMapping) : Scene :=
  { v with mappings := fun q => if q = p then groups else v.mappings q }

/-- What is sent to a file when a page is written back, and the answer. -/
def writeOf (owner : Owner) (x : FileExtent) (bytes : Bytes) : FileWrite :=
  ⟨owner, x.file, x.offset, bytes.take x.readBytes.toNat,
    ((v.file x.file).write x.offset.toNat (bytes.take x.readBytes.toNat)).1⟩

def written (owner : Owner) (x : FileExtent) (bytes : Bytes) : Scene :=
  { v with
    files := v.files.set x.file
      ((v.file x.file).write x.offset.toNat (bytes.take x.readBytes.toNat)).2
    movements := .wroteBack (v.writeOf owner x bytes) :: v.movements }

def SentBack (owner : Owner) (x : FileExtent) (bytes : Bytes) (accepted : Option Nat) : Prop :=
  ∃ earlier, v.movements =
    .wroteBack ⟨owner, x.file, x.offset, bytes.take x.readBytes.toNat, accepted⟩ :: earlier

def stored (p : Nat) (va : Vaddr) (data : Bytes) : Scene :=
  { v with
    sight := fun q base =>
      if q = p then
        { page := (v.sight q base).page
          entry := (v.sight q base).entry.map fun e =>
            { e with dirty := e.dirty || v.layout.touches va data.length base }
          content := (v.sight q base).content.map fun content => content.stored base va data }
      else v.sight q base }

end Scene

/-! ## Deeds -/

/-- A page has changes that its file must get before the page can go. -/
def Page.Unsaved (page : Page) (entry : Option PageEntry) (x : FileExtent) : Prop :=
  page.state = .file x ∧ x.readBytes ≠ 0 ∧ entry.any PageEntry.dirty = true

inductive PageState.Evicted : PageState → PageState → Prop where
  | anon (slot : Nat) : Evicted (.anon none) (.anon (some slot))
  | file (x : FileExtent) : Evicted (.file x) (.file x)

/-- What can happen in a scene. A page is named as it was before. -/
inductive Deed where
  | start (process : Nat)
  | register (process : Nat) (page : Page)
  /-- The file mappings of a process change at the given bases. -/
  | regroup (process : Nat) (bases : List Vaddr)
  | load (process : Nat) (page : Page)
  /-- A page is sent to its file, which may refuse it. -/
  | save (process : Nat) (page : Page)
  | evict (process : Nat) (page : Page)
  /-- A page loses its mapping but not its frame. -/
  | strand (process : Nat) (page : Page)
  /-- An anonymous page without a mapping gets one. -/
  | relink (process : Nat) (page : Page)
  | remove (process : Nat) (page : Page)
  /-- A registered copy gets its content. -/
  | clone (process : Nat) (copy : Page)
  | store (process : Nat) (va : Vaddr) (data : Bytes)

namespace Scene

/-- How a deed changes a scene. -/
inductive Step : Deed → Scene → Scene → Prop where
  | start {v : Scene} {p : Nat} (accepts : Nat → Bool) (vacant : ∀ va, v.sight p va = .blank) :
      Step (.start p) v { v with accepts := fun q => if q = p then accepts else v.accepts q }
  | register {v : Scene} {p : Nat} {page : Page} (free : v.sight p page.va = .blank)
      (idle : page.frame = none) :
      Step (.register p page) v (v.see p page.va ⟨some page, none, none⟩)
  | regroup {v : Scene} {p : Nat} {bases : List Vaddr} (groups : AddressMap FileMapping)
      (kept : ∀ base ∉ bases, groups.get? base = (v.mappings p).get? base) :
      Step (.regroup p bases) v (v.grouped p groups)
  | load {v : Scene} {p f : Nat} {page : Page} {bytes : Bytes}
      (sight : v.sight p page.va = ⟨some page, none, none⟩) (idle : page.frame = none)
      (image : ∀ x, page.state.loaded = .file x →
        bytes = x.image v.files v.layout.pageBytes ∧ x.readBytes.toNat ≤ v.layout.pageBytes) :
      Step (.load p page) v
        ((v.see p page.va
          ⟨some { page with frame := some f, state := page.state.loaded },
            some ⟨f, page.writable, false, false⟩, some bytes⟩).noted
          (.filled ⟨p, page.va, page.id⟩ (page.stateClass == .uninit)))
  | save {v : Scene} {p : Nat} {page : Page} {entry : Option PageEntry} {bytes : Bytes}
      {x : FileExtent} (sight : v.sight p page.va = ⟨some page, entry, some bytes⟩)
      (unsaved : page.Unsaved entry x) :
      Step (.save p page) v (v.written ⟨p, page.va, page.id⟩ x bytes)
  | evict {v : Scene} {p : Nat} {page : Page} {entry : Option PageEntry} {bytes : Bytes}
      {state : PageState} (sight : v.sight p page.va = ⟨some page, entry, some bytes⟩)
      (evicted : page.state.Evicted state)
      (saved : ∀ x, page.Unsaved entry x →
        v.SentBack ⟨p, page.va, page.id⟩ x bytes (some x.readBytes.toNat)) :
      Step (.evict p page) v
        ((v.see p page.va ⟨some { page with state := state, frame := none }, none, none⟩).noted
          (.parted ⟨p, page.va, page.id⟩ page.state.extent bytes true))
  | strand {v : Scene} {p : Nat} {page : Page} {entry : Option PageEntry} {bytes : Bytes}
      (sight : v.sight p page.va = ⟨some page, entry, some bytes⟩)
      (refused : ∃ call, v.accepts p call = false) :
      Step (.strand p page) v
        ((v.see p page.va ⟨some page, none, some bytes⟩).noted (.stranded ⟨p, page.va, page.id⟩))
  | relink {v : Scene} {p f : Nat} {page : Page} {bytes : Bytes}
      (sight : v.sight p page.va = ⟨some page, none, some bytes⟩) (frame : page.frame = some f)
      (anon : page.state = .anon none) :
      Step (.relink p page) v
        (v.see p page.va ⟨some page, some ⟨f, page.writable, false, false⟩, some bytes⟩)
  /-- A page without a frame is gone. -/
  | forget {v : Scene} {p : Nat} {page : Page}
      (sight : v.sight p page.va = ⟨some page, none, none⟩) :
      Step (.remove p page) v (v.see p page.va .blank)
  | remove {v : Scene} {p : Nat} {page : Page} {entry : Option PageEntry} {bytes : Bytes}
      (sight : v.sight p page.va = ⟨some page, entry, some bytes⟩)
      (saved : ∀ x, page.Unsaved entry x →
        ∃ accepted, v.SentBack ⟨p, page.va, page.id⟩ x bytes accepted) :
      Step (.remove p page) v
        ((v.see p page.va .blank).noted
          (.parted ⟨p, page.va, page.id⟩ page.state.extent bytes false))
  | clone {v : Scene} {p f : Nat} {copy : Page} {bytes : Bytes} {dirty : Bool}
      (sight : v.sight p copy.va = ⟨some copy, none, none⟩) (idle : copy.frame = none) :
      Step (.clone p copy) v
        ((v.see p copy.va
          ⟨some { copy with frame := some f }, some ⟨f, copy.writable, dirty, false⟩,
            some bytes⟩).noted (.cloned ⟨p, copy.va, copy.id⟩ dirty))
  | store {v : Scene} {p : Nat} {va : Vaddr} {data : Bytes}
      (writable : ∀ i, i < data.length → ∃ e,
        (v.sight p (Word.alignDown (va + UInt64.ofNat i) v.layout.pageSize)).entry = some e ∧
          e.writable = true) :
      Step (.store p va data) v ((v.stored p va data).noted (.stored p va data.length))

theorem Step.layout_eq {deed : Deed} {v w : Scene} (hstep : Step deed v w) :
    w.layout = v.layout := by
  cases hstep <;> rfl

def Steps (allowed : Deed → Prop) : Scene → Scene → Prop :=
  Relation.ReflTransGen fun v w => ∃ deed, allowed deed ∧ Step deed v w

namespace Steps

variable {allowed allowed' : Deed → Prop} {u v w : Scene}

theorem refl (v : Scene) : Steps allowed v v :=
  Relation.ReflTransGen.refl

theorem trans (h : Steps allowed u v) (h' : Steps allowed v w) : Steps allowed u w :=
  Relation.ReflTransGen.trans h h'

theorem single (deed : Deed) (hallowed : allowed deed) (h : Step deed v w) : Steps allowed v w :=
  Relation.ReflTransGen.single ⟨deed, hallowed, h⟩

theorem of_eq (h : w = v) : Steps allowed v w := by
  rw [h]
  exact refl v

theorem mono (h : Steps allowed v w) (hallowed : ∀ deed, allowed deed → allowed' deed) :
    Steps allowed' v w := by
  induction h with
  | refl => exact refl v
  | tail _ hstep ih =>
      rcases hstep with ⟨deed, hdeed, hstep⟩
      exact ih.trans (single deed (hallowed deed hdeed) hstep)

theorem keeps {P : Scene → Prop} (h : Steps allowed v w)
    (hstep : ∀ deed v w, allowed deed → Step deed v w → P v → P w) (hv : P v) : P w := by
  induction h with
  | refl => exact hv
  | tail _ hdeed ih =>
      rcases hdeed with ⟨deed, hallowed, hdeed⟩
      exact hstep deed _ _ hallowed hdeed ih

theorem layout_eq (h : Steps allowed v w) : w.layout = v.layout := by
  refine h.keeps (P := fun w => w.layout = v.layout) ?_ rfl
  intro deed u w _ hstep hu
  exact hstep.layout_eq.trans hu

theorem mappings_eq (h : Steps allowed v w) (hallowed : ∀ p bases, ¬allowed (.regroup p bases)) :
    w.mappings = v.mappings := by
  refine h.keeps (P := fun w => w.mappings = v.mappings) ?_ rfl
  intro deed u w hdeed hstep hu
  cases hstep with
  | regroup groups kept => exact (hallowed _ _ hdeed).elim
  | start accepts vacant => exact hu
  | register free idle => exact hu
  | load sight idle image => exact hu
  | save sight unsaved => exact hu
  | evict sight evicted saved => exact hu
  | strand sight refused => exact hu
  | relink sight frame anon => exact hu
  | forget sight => exact hu
  | remove sight saved => exact hu
  | clone sight idle => exact hu
  | store writable => exact hu

end Steps

/-! ## Laws of sights -/

variable {v : Scene} {p q : Nat} {va wa : Vaddr} {s t : Sight}

@[simp]
theorem sight_see_self : (v.see p va s).sight p va = s :=
  setAt_self

@[simp]
theorem layout_see : (v.see p va s).layout = v.layout := rfl

@[simp]
theorem movements_see : (v.see p va s).movements = v.movements := rfl

@[simp]
theorem layout_noted {event : Event} : (v.noted event).layout = v.layout := rfl

@[simp]
theorem movements_noted {event : Event} :
    (v.noted event).movements = event :: v.movements := rfl

theorem sight_see_of_ne (h : ¬(q = p ∧ wa = va)) : (v.see p va s).sight q wa = v.sight q wa :=
  setAt_of_ne h

theorem see_see : (v.see p va s).see p va t = v.see p va t :=
  congrArg (fun sight => { v with sight := sight }) setAt_setAt

theorem grouped_self {groups : AddressMap FileMapping} (h : v.mappings p = groups) :
    v.grouped p groups = v := by
  unfold grouped
  congr 1
  funext q
  split
  · rename_i hq
    rw [hq, h]
  · rfl

theorem mappings_grouped_self {groups : AddressMap FileMapping} :
    (v.grouped p groups).mappings p = groups :=
  if_pos rfl

theorem mappings_grouped_of_ne {groups : AddressMap FileMapping} (h : q ≠ p) :
    (v.grouped p groups).mappings q = v.mappings q :=
  if_neg h

theorem page_stored {data : Bytes} (q : Nat) :
    ((v.stored p va data).sight q wa).page = (v.sight q wa).page := by
  unfold stored
  dsimp only
  split <;> rfl

theorem see_self (h : v.sight p va = s) : v.see p va s = v :=
  congrArg (fun sight => { v with sight := sight }) (setAt_eq_self h)

end Scene
end DemandPaging
