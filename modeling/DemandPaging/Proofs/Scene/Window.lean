import DemandPaging.Proofs.Scene.FileMapping

/-!
# Windows to a file

A process that maps a part of a file sees it through a window of pages. The window shows the file as
it was, with what the process wrote over it. The file differs from this only where a page of the
window has a frame and is marked as dirty.
-/

namespace DemandPaging

/-! ## Bytes written over others -/

/-- The bytes with others in the place of `count` of them from `first` on, where there are any. -/
def Bytes.overwritten (content : Bytes) (first count : Nat) (other : Nat → Option UInt8) : Bytes :=
  content.mapIdx fun j b =>
    if first ≤ j ∧ j < first + count then (other (j - first)).getD b else b

namespace Bytes

variable {content : Bytes} {first count j : Nat} {other : Nat → Option UInt8}

@[simp]
theorem length_overwritten : (content.overwritten first count other).length = content.length :=
  List.length_mapIdx

theorem getElem?_overwritten_inside (h : first ≤ j ∧ j < first + count) :
    (content.overwritten first count other)[j]? =
      content[j]?.map fun b => (other (j - first)).getD b := by
  unfold overwritten
  rw [List.getElem?_mapIdx]
  simp only [if_pos h]

theorem getElem?_overwritten_outside (h : ¬(first ≤ j ∧ j < first + count)) :
    (content.overwritten first count other)[j]? = content[j]? := by
  unfold overwritten
  rw [List.getElem?_mapIdx]
  simp only [if_neg h]
  exact Option.map_id_apply

end Bytes

abbrev Writes := Vaddr → Option UInt8

namespace Writes

def blank : Writes :=
  fun _ => none

def stored (writes : Writes) (va : Vaddr) (data : Bytes) : Writes := fun a =>
  data[(a - va).toNat]?.or (writes a)

end Writes

theorem BackingFile.write_whole {file : BackingFile} {offset : Nat} {data : Bytes}
    (hwhole : ∀ call, file.writing.outcome call = .whole)
    (hoffset : offset < file.content.length) :
    (file.write offset data).2 =
      { file with
        content := Bytes.overlay file.content offset data
        written := file.written ++ [(offset, data.length)]
        writing := file.writing.advance } := by
  unfold write
  rw [show file.writing.peek = .whole from hwhole _]
  simp only [accept, if_pos hoffset]

/-! ## Windows -/

structure Window where
  layout : Layout
  process : Nat
  start : Vaddr
  pages : Nat
  file : Nat
  /-- The first byte of the file that is seen. -/
  offset : Nat
  /-- How many bytes of the file are seen. -/
  bytes : Nat
  /-- The file when the window was opened. -/
  original : BackingFile
  inhabited : 0 < pages
  aligned : Word.isAligned start layout.pageSize = true
  inSpace : start.toNat + pages * layout.pageBytes < UInt64.size
  covered : bytes ≤ pages * layout.pageBytes
  inFile : bytes ≤ original.content.length - offset

namespace Window

variable {win : Window} {writes : Writes} {content : Bytes} {i j k : Nat}

def address (win : Window) (i : Nat) : Vaddr :=
  win.layout.pageAt win.start i

def place (win : Window) (i : Nat) : Nat :=
  win.offset + i * win.layout.pageBytes

def size (win : Window) (i : Nat) : Nat :=
  min (win.bytes - i * win.layout.pageBytes) win.layout.pageBytes

def Covers (win : Window) (q : Nat) (va : Vaddr) : Prop :=
  q = win.process ∧ ∃ i < win.pages, va = win.address i

def image (win : Window) (writes : Writes) : Bytes :=
  win.original.content.overwritten win.offset win.bytes fun k =>
    writes (win.start + UInt64.ofNat k)

structure Part (win : Window) (i : Nat) (x : FileExtent) : Prop where
  file : x.file = win.file
  offset : x.offset.toNat = win.place i
  readBytes : x.readBytes.toNat = win.size i

def Saved (win : Window) (writes : Writes) (content : Bytes) (i : Nat) : Prop :=
  ∀ k, k < win.size i → content[win.place i + k]? = (win.image writes)[win.place i + k]?

def Changed (win : Window) (writes : Writes) (i : Nat) : Prop :=
  ∃ k < win.layout.pageBytes, (writes (win.address i + UInt64.ofNat k)).isSome = true

theorem toNat_address (hi : i < win.pages) :
    (win.address i).toNat = win.start.toNat + i * win.layout.pageBytes := by
  apply Layout.toNat_pageAt
  have hle : i * win.layout.pageBytes ≤ win.pages * win.layout.pageBytes :=
    Nat.mul_le_mul_right _ (Nat.le_of_lt hi)
  have hspace := win.inSpace
  omega

theorem address_inj (hi : i < win.pages) (hj : j < win.pages)
    (h : win.address i = win.address j) : i = j := by
  have hsum := congrArg UInt64.toNat h
  rw [toNat_address hi, toNat_address hj] at hsum
  exact Nat.eq_of_mul_eq_mul_right win.layout.pageBytes_pos (Nat.add_left_cancel hsum)

theorem aligned_address (hi : i < win.pages) :
    Word.isAligned (win.address i) win.layout.pageSize = true := by
  apply Layout.isAligned_pageAt win.aligned
  have hle : i * win.layout.pageBytes ≤ win.pages * win.layout.pageBytes :=
    Nat.mul_le_mul_right _ (Nat.le_of_lt hi)
  have hspace := win.inSpace
  omega

theorem address_add (win : Window) (i k : Nat) : win.address i + UInt64.ofNat k =
    win.start + UInt64.ofNat (i * win.layout.pageBytes + k) := by
  have hsize : UInt64.ofNat win.layout.pageBytes = win.layout.pageSize := UInt64.ofNat_toNat
  unfold address Layout.pageAt
  rw [UInt64.ofNat_add, UInt64.ofNat_mul, hsize, UInt64.add_assoc]

theorem exists_address {base : Vaddr} (haligned : Word.isAligned base win.layout.pageSize = true)
    (h : (base - win.start).toNat < win.pages * win.layout.pageBytes) :
    ∃ i < win.pages, base = win.address i := by
  have hpower := win.layout.fits.1
  have hpos := win.layout.pageBytes_pos
  have hspace := win.inSpace
  have hbase : base.toNat = win.start.toNat + (base - win.start).toNat := by
    have hsum : base - win.start + win.start = base := UInt64.sub_add_cancel ..
    have hroom : (base - win.start).toNat + win.start.toNat < UInt64.size := by omega
    rw [Nat.add_comm, ← Nat.mod_eq_of_lt hroom]
    exact (congrArg UInt64.toNat hsum).symm.trans (UInt64.toNat_add ..)
  generalize (base - win.start).toNat = distance at *
  have hdiv : win.layout.pageBytes ∣ distance := by
    have hstart := (Word.isAligned_iff_mod hpower).mp win.aligned
    have hmod := (Word.isAligned_iff_mod hpower).mp haligned
    rw [hbase] at hmod
    exact (Nat.dvd_add_right (Nat.dvd_of_mod_eq_zero hstart)).mp (Nat.dvd_of_mod_eq_zero hmod)
  have hi : distance / win.layout.pageBytes < win.pages := (Nat.div_lt_iff_lt_mul hpos).mpr h
  refine ⟨distance / win.layout.pageBytes, hi, ?_⟩
  apply UInt64.toNat_inj.mp
  rw [toNat_address hi, Nat.div_mul_cancel hdiv, hbase]

theorem exists_page (hj : j < win.bytes) :
    ∃ i k, i < win.pages ∧ k < win.size i ∧ i * win.layout.pageBytes + k = j := by
  have hpos := win.layout.pageBytes_pos
  have hcovered := win.covered
  have hdiv := Nat.div_add_mod' j win.layout.pageBytes
  have hmod := Nat.mod_lt j hpos
  refine ⟨j / win.layout.pageBytes, j % win.layout.pageBytes, ?_, ?_, hdiv⟩
  · apply (Nat.div_lt_iff_lt_mul hpos).mpr
    omega
  · unfold size
    omega

theorem lt_bytes (hk : k < win.size i) : i * win.layout.pageBytes + k < win.bytes := by
  unfold size at hk
  omega

theorem place_add_lt (hk : k < win.size i) :
    win.place i + k < win.original.content.length := by
  have hlt := lt_bytes hk
  have hfile := win.inFile
  unfold place
  omega

theorem place_add_ne (hk : k < win.size i) (hj : j ≠ i) {l : Nat} (hl : l < win.size j) :
    win.place j + l ≠ win.place i + k := by
  intro heq
  have hpos := win.layout.pageBytes_pos
  have hpage : ∀ {i k : Nat}, k < win.size i →
      (i * win.layout.pageBytes + k) / win.layout.pageBytes = i := by
    intro i k hk
    have hlt : k < win.layout.pageBytes := Nat.lt_of_lt_of_le hk (Nat.min_le_right _ _)
    rw [Nat.add_comm, Nat.add_mul_div_right _ _ hpos, Nat.div_eq_of_lt hlt, Nat.zero_add]
  have hsame : j * win.layout.pageBytes + l = i * win.layout.pageBytes + k := by
    unfold place at heq
    omega
  exact hj (by rw [← hpage hl, hsame, hpage hk])

theorem getElem?_image (hk : k < win.size i) :
    (win.image writes)[win.place i + k]? = win.original.content[win.place i + k]?.map fun b =>
      (writes (win.address i + UInt64.ofNat k)).getD b := by
  have hlt := lt_bytes hk
  have hplace : win.place i + k - win.offset = i * win.layout.pageBytes + k := by
    unfold place
    omega
  unfold image
  rw [Bytes.getElem?_overwritten_inside, hplace, address_add]
  unfold place
  omega

theorem image_blank (win : Window) : win.image .blank = win.original.content := by
  apply List.ext_getElem?
  intro j
  unfold image
  by_cases hin : win.offset ≤ j ∧ j < win.offset + win.bytes
  · rw [Bytes.getElem?_overwritten_inside hin]
    exact Option.map_id_apply
  · exact Bytes.getElem?_overwritten_outside hin

theorem image_congr {writes' : Writes}
    (h : ∀ k, k < win.layout.pageBytes →
      writes' (win.address i + UInt64.ofNat k) = writes (win.address i + UInt64.ofNat k))
    (hk : k < win.size i) :
    (win.image writes')[win.place i + k]? = (win.image writes)[win.place i + k]? := by
  rw [getElem?_image hk, getElem?_image hk, h k (Nat.lt_of_lt_of_le hk (Nat.min_le_right _ _))]

/-! ## The file behind a window -/

/-- The file behind the window differs from what it was in the window alone, and it was written for
pages that the process wrote to. -/
structure Follows (win : Window) (writes : Writes) (file : BackingFile) : Prop where
  reported : file.reported = win.original.reported
  length : file.content.length = win.original.content.length
  beside : ∀ j, ¬(win.offset ≤ j ∧ j < win.offset + win.bytes) →
    file.content[j]? = win.original.content[j]?
  willing : ∀ call, file.writing.outcome call = .whole
  log : ∃ sent, file.written = win.original.written ++ sent ∧ ∀ write ∈ sent, ∃ i < win.pages,
    win.Changed writes i ∧ write = (win.place i, win.size i)

theorem Follows.write {file : BackingFile} {data : Bytes} (h : win.Follows writes file)
    (hi : i < win.pages) (hchanged : win.Changed writes i) (hsome : 0 < win.size i)
    (hlength : data.length = win.size i)
    (hdata : ∀ k, k < win.size i → data[k]? = (win.image writes)[win.place i + k]?) :
    win.Follows writes (file.write (win.place i) data).2 ∧
      win.Saved writes (file.write (win.place i) data).2.content i ∧
      ∀ j, j ≠ i → ∀ l, l < win.size j →
        (file.write (win.place i) data).2.content[win.place j + l]? =
          file.content[win.place j + l]? := by
  have hfits : ∀ {k}, k < win.size i → win.place i + k < file.content.length := by
    intro k hk
    rw [h.length]
    exact place_add_lt hk
  have hplace : win.place i < file.content.length := hfits hsome
  rw [BackingFile.write_whole h.willing hplace]
  have hbyte : ∀ j, (Bytes.overlay file.content (win.place i) data)[j]? =
      if win.place i ≤ j ∧ j < win.place i + win.size i then data[j - win.place i]?
      else file.content[j]? := by
    intro j
    rw [← hlength]
    by_cases hj : j < file.content.length
    · exact Bytes.getElem?_overlay _ _ _ _ (Nat.le_of_lt hplace) hj
    · have hout : ¬(win.place i ≤ j ∧ j < win.place i + data.length) := by
        intro hin
        have hlast := hfits (k := win.size i - 1) (by omega)
        omega
      rw [if_neg hout, List.getElem?_eq_none (by rw [Bytes.length_overlay]; omega),
        List.getElem?_eq_none (by omega)]
  refine ⟨⟨h.reported, ?_, ?_, h.willing, ?_⟩, ?_, ?_⟩
  · exact (Bytes.length_overlay _ _ _).trans h.length
  · intro j hout
    refine (hbyte j).trans ?_
    rw [if_neg, h.beside j hout]
    intro hin
    have hlt : i * win.layout.pageBytes + (j - win.place i) < win.bytes := lt_bytes (by omega)
    unfold place at hin hlt
    omega
  · rcases h.log with ⟨sent, hwritten, hall⟩
    refine ⟨sent ++ [(win.place i, data.length)], ?_, ?_⟩
    · rw [hwritten, List.append_assoc]
    · intro write hwrite
      rcases List.mem_append.mp hwrite with hearlier | hlast
      · exact hall write hearlier
      · rw [List.mem_singleton.mp hlast, hlength]
        exact ⟨i, hi, hchanged, rfl⟩
  · intro k hk
    rw [hbyte, if_pos (by omega), Nat.add_sub_cancel_left]
    exact hdata k hk
  · intro j hj l hl
    rw [hbyte, if_neg]
    intro hin
    refine place_add_ne (k := win.place j + l - win.place i) (by omega) hj hl ?_
    omega

theorem follows_original (hwilling : ∀ call, win.original.writing.outcome call = .whole) :
    win.Follows writes win.original.unread :=
  ⟨rfl, rfl, fun _ _ => rfl, hwilling, [], (List.append_nil _).symm,
    fun _ hwrite => absurd hwrite List.not_mem_nil⟩

theorem Follows.content_eq {file : BackingFile} (h : win.Follows writes file)
    (hsaved : ∀ i, i < win.pages → win.Saved writes file.content i) :
    file.content = win.image writes := by
  apply List.ext_getElem?
  intro j
  by_cases hin : win.offset ≤ j ∧ j < win.offset + win.bytes
  · have hbytes : j - win.offset < win.bytes := by omega
    rcases exists_page hbytes with ⟨i, k, hi, hk, hbyte⟩
    have hj : win.place i + k = j := by
      unfold place
      omega
    have hshown := hsaved i hi k hk
    rw [hj] at hshown
    exact hshown
  · rw [h.beside j hin]
    exact (Bytes.getElem?_overwritten_outside hin).symm

end Window

/-! ## The pages of a window -/

/-- A page that holds a part of a file, or will once it is loaded. -/
def Page.Concerns (page : Page) (f : Nat) : Prop :=
  ∃ x, page.state.loaded = .file x ∧ x.file = f

theorem Page.Concerns.congr {page old : Page} {f : Nat}
    (h : page.state.loaded = old.state.loaded) : page.Concerns f ↔ old.Concerns f := by
  unfold Concerns
  rw [h]

theorem PageState.Evicted.loaded_eq {state evicted : PageState} (h : state.Evicted evicted) :
    evicted.loaded = state.loaded := by
  cases h <;> rfl

/-- What is to be seen of a page of a window. A page that is gone or has no frame left its bytes to
the file, and so did a page that is not marked as dirty. -/
inductive Window.Sees (win : Window) (writes : Writes) (content : Bytes) (i : Nat) :
    Sight → Prop where
  | gone (saved : win.Saved writes content i) : Sees win writes content i .blank
  | absent {page : Page} {x : FileExtent} (part : win.Part i x)
      (loads : page.state.loaded = .file x) (saved : win.Saved writes content i) :
      Sees win writes content i ⟨some page, none, none⟩
  | resident {page : Page} {x : FileExtent} {e : PageEntry} {bytes : Bytes} (part : win.Part i x)
      (file : page.state = .file x) (length : bytes.length = win.layout.pageBytes)
      (shows : ∀ k, k < win.size i → bytes[k]? = (win.image writes)[win.place i + k]?)
      (clean : e.dirty = false → win.Saved writes content i)
      (dirty : e.dirty = true → win.Changed writes i) :
      Sees win writes content i ⟨some page, some e, some bytes⟩

theorem Window.Sees.mono {win : Window} {writes : Writes} {content content' : Bytes} {i : Nat}
    {s : Sight} (h : win.Sees writes content i s)
    (hsaved : win.Saved writes content i → win.Saved writes content' i) :
    win.Sees writes content' i s := by
  cases h with
  | gone saved => exact .gone (hsaved saved)
  | absent part loads saved => exact .absent part loads (hsaved saved)
  | resident part file length shows clean dirty =>
      exact .resident part file length shows (fun hclean => hsaved (clean hclean)) dirty

end DemandPaging
