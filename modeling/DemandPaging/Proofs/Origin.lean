import DemandPaging.BackingFile
import DemandPaging.Page
import DemandPaging.Proofs.FlatMemory

/-!
# First contents

The bytes that a page has after its first load: those of its extent and then zeros, those that its
loader lays over a zeroed page, or zeros alone.
-/

namespace DemandPaging

/-! ## Overlays -/

theorem Bytes.overlay_eq_append {buffer data : Bytes} (h : data.length ≤ buffer.length) :
    overlay buffer 0 data = data ++ buffer.drop data.length := by
  unfold overlay
  rw [List.take_zero, List.nil_append, Nat.zero_add]
  apply List.take_of_length_le
  rw [List.length_append, List.length_drop]
  omega

theorem Bytes.overlay_zeros {buffer data : Bytes} (h : data.length ≤ buffer.length) :
    overlay (overlay buffer 0 data) data.length (filled (buffer.length - data.length) 0) =
      overlay (filled buffer.length 0) 0 data := by
  have hzeros : data.length ≤ (filled buffer.length 0).length := by
    rw [length_filled]
    exact h
  have hlength : (data ++ buffer.drop data.length).length = buffer.length := by
    rw [List.length_append, List.length_drop]
    omega
  have hnothing : (data ++ buffer.drop data.length).drop
      (data.length + (buffer.length - data.length)) = [] := by
    apply List.drop_eq_nil_of_le
    omega
  rw [overlay_eq_append h, overlay_eq_append hzeros, overlay, hlength, List.take_left,
    length_filled, hnothing, List.append_nil, filled, filled, List.drop_replicate]
  apply List.take_of_length_le
  rw [List.length_append, List.length_replicate]
  omega

/-! ## Files -/

theorem BackingFile.read_eq_some {file : BackingFile} {offset count : Nat} {data : Bytes}
    (h : (file.read offset count).1 = some data) (hwhole : data.length = count) :
    data = (file.content.drop offset).take count := by
  unfold read at h
  split at h
  · cases h
    rfl
  · cases h
    apply List.take_of_length_le
    rw [List.length_take] at hwhole
    have hle : ((file.content.drop offset).take count).length ≤ count := by
      rw [List.length_take]
      exact Nat.min_le_left _ _
    omega
  · contradiction

/-! ## Extents and origins -/

/-- The content of a page of `n` bytes that holds an extent of one of the files: the bytes of the
extent, laid over zeros. -/
def FileExtent.image (x : FileExtent) (files : List BackingFile) (n : Nat) : Bytes :=
  Bytes.overlay (Bytes.filled n 0) 0
    (((files.getD x.file (.ofBytes [])).content.drop x.offset.toNat).take x.readBytes.toNat)

/-- The content of a page of `n` bytes after its first load, when each custom loader was run as
often before as `runs` says. -/
def Origin.image (origin : Origin) (files : List BackingFile) (runs : Nat → Nat) (n : Nat) :
    Bytes :=
  match origin with
  | .anon none => Bytes.filled n 0
  | .anon (some (.file x)) | .file x => x.image files n
  | .anon (some (.custom loader)) =>
      Bytes.overlay (Bytes.filled n 0) 0
        (loader.run (runs loader.counter) (Bytes.filled n 0)).1

theorem FileExtent.length_image (x : FileExtent) (files : List BackingFile) (n : Nat) :
    (x.image files n).length = n := by
  rw [image, Bytes.length_overlay, Bytes.length_filled]

theorem FileExtent.getElem?_image {x : FileExtent} {files : List BackingFile} {n k : Nat}
    (hfits : x.readBytes.toNat ≤ n) (hk : k < x.readBytes.toNat)
    (hfile : x.offset.toNat + k < (files.getD x.file (.ofBytes [])).content.length) :
    (x.image files n)[k]? = (files.getD x.file (.ofBytes [])).content[x.offset.toNat + k]? := by
  unfold image
  generalize (files.getD x.file (.ofBytes [])).content = content at *
  have hlength : ((content.drop x.offset.toNat).take x.readBytes.toNat).length =
      min x.readBytes.toNat (content.length - x.offset.toNat) := by
    rw [List.length_take, List.length_drop]
  rw [Bytes.overlay_eq_append (by rw [hlength, Bytes.length_filled]; omega),
    List.getElem?_append_left (by omega), List.getElem?_take_of_lt hk, List.getElem?_drop]

theorem FileExtent.getElem?_image_of_le {x : FileExtent} {n k : Nat} (files : List BackingFile)
    (hk : x.readBytes.toNat ≤ k) (hn : k < n) : (x.image files n)[k]? = some 0 := by
  unfold image
  rw [Bytes.getElem?_overlay _ _ _ _ (Nat.zero_le _) (by rwa [Bytes.length_filled]), if_neg]
  · rw [Bytes.filled, List.getElem?_replicate, if_pos hn]
  · rw [List.length_take]
    omega

theorem Origin.length_image (origin : Origin) (files : List BackingFile) (runs : Nat → Nat)
    (n : Nat) : (origin.image files runs n).length = n := by
  unfold image
  split
  · exact Bytes.length_filled n 0
  · exact FileExtent.length_image _ files n
  · exact FileExtent.length_image _ files n
  · rw [Bytes.length_overlay, Bytes.length_filled]

theorem Page.originOf_eq_anon {type : PageClass} {loader given : Option Loader}
    (h : originOf type given = .ok (.anon loader)) : loader = given := by
  unfold originOf at h
  split at h
  · cases h
    rfl
  · cases h
  · cases h
  · cases h
  · cases h

namespace PageState

def origin? : PageState → Option Origin
  | uninit origin => some origin
  | _ => none

def customLoader? : PageState → Option CustomLoader
  | uninit (.anon (some (.custom loader))) => some loader
  | _ => none

def loaded : PageState → PageState
  | uninit origin => origin.initialised
  | anon _ => .anon none
  | file x => .file x

theorem eq_uninit_of_origin? {state : PageState} {origin : Origin}
    (h : state.origin? = some origin) : state = .uninit origin := by
  cases state with
  | uninit other => exact congrArg uninit (Option.some.inj h)
  | anon slot => contradiction
  | file x => contradiction

theorem eq_uninit_of_customLoader? {state : PageState} {loader : CustomLoader}
    (h : state.customLoader? = some loader) : state = .uninit (.anon (some (.custom loader))) := by
  unfold customLoader? at h
  split at h
  · cases h
    rfl
  · contradiction

@[simp]
theorem slot_loaded (state : PageState) : state.loaded.slot = none := by
  cases state with
  | uninit origin => cases origin <;> rfl
  | anon slot => rfl
  | file x => rfl

theorem eq_anon_of_slot {state : PageState} {s : Nat} (h : state.slot = some s) :
    state = .anon (some s) := by
  cases state with
  | uninit origin => contradiction
  | anon slot => exact congrArg anon h
  | file x => contradiction

@[simp]
theorem slot_copied (state : PageState) : state.copied.slot = none := by
  cases state <;> rfl

@[simp]
theorem ownClass_copied (state : PageState) : state.copied.ownClass = state.ownClass := by
  cases state <;> rfl

theorem exists_anon_of_ownClass {state : PageState} (h : state.ownClass = .anon) :
    ∃ slot, state = .anon slot := by
  cases state with
  | uninit origin => contradiction
  | anon slot => exact ⟨slot, rfl⟩
  | file x => contradiction

theorem copied_eq_uninit_iff {state : PageState} {origin : Origin} :
    state.copied = .uninit origin ↔ state = .uninit origin := by
  cases state with
  | uninit other => exact Iff.rfl
  | anon slot => exact ⟨fun h => (by contradiction), fun h => by contradiction⟩
  | file x => exact Iff.rfl

theorem copied_eq_file_iff {state : PageState} {x : FileExtent} :
    state.copied = .file x ↔ state = .file x := by
  cases state with
  | uninit origin => exact Iff.rfl
  | anon slot => exact ⟨fun h => (by contradiction), fun h => by contradiction⟩
  | file y => exact Iff.rfl

theorem copied_eq_self {state : PageState} (h : state.slot = none) : state.copied = state := by
  cases state with
  | uninit origin => rfl
  | anon slot => exact congrArg anon h.symm
  | file x => rfl

@[simp]
theorem loaded_loaded (state : PageState) : state.loaded.loaded = state.loaded := by
  cases state with
  | uninit origin => cases origin <;> rfl
  | anon slot => rfl
  | file x => rfl

theorem loaded_cases (state : PageState) :
    state.loaded = .anon none ∨ ∃ x, state.loaded = .file x := by
  cases state with
  | uninit origin =>
      cases origin with
      | anon loader => exact Or.inl rfl
      | file x => exact Or.inr ⟨x, rfl⟩
  | anon slot => exact Or.inl rfl
  | file x => exact Or.inr ⟨x, rfl⟩

end PageState

/-- What a process finds after one of its pages was loaded: only a first load makes a
difference. -/
def FlatMemory.load (mem : FlatMemory) (p : Nat) (va : Vaddr) (state : PageState)
    (files : List BackingFile) (runs : Nat → Nat) (n : Nat) : FlatMemory :=
  match state.origin? with
  | some origin => mem.store p va (origin.image files runs n)
  | none => mem

end DemandPaging
