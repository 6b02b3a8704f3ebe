import DemandPaging.Proofs.Machine.MappingOutcome

/-!
# Mapped ranges

A file mapping that succeeds has registered a page at every page start of its range, one after the
other, each with the part of the file behind that of the page before. Nothing else has changed but
the list of the mappings.
-/

namespace DemandPaging

def Page.MapsByte (page : Page) (position : Nat) : Prop :=
  ∃ x, page.state = .uninit (.file x) ∧ x.offset.toNat ≤ position ∧
    position < x.offset.toNat + x.readBytes.toNat

def Process.bare (process : Process) : Process :=
  { process with pages := .empty }

theorem Process.eq_of_bare {process other : Process} (h : process.bare = other.bare) :
    process.mappings = other.mappings ∧ process.mmu = other.mmu ∧
      process.tornDown = other.tornDown ∧ process.ended = other.ended := by
  simp only [bare, Process.mk.injEq, true_and] at h
  exact ⟨h.1, h.2.2.2, h.2.1, h.2.2.1⟩

/-! ## The parts of a range -/

namespace Layout

variable {l : Layout} {start stop : Vaddr} {length offset : UInt64} {f count total i j : Nat}

/-- The range up to `stop` has `count` whole pages, as few as hold `length` bytes. -/
structure RoundsUp (l : Layout) (start : Vaddr) (length : UInt64) (stop : Vaddr) (count : Nat) :
    Prop where
  aligned : start.toNat % l.pageBytes = 0
  whole : stop.toNat = start.toNat + count * l.pageBytes
  covers : length.toNat ≤ count * l.pageBytes
  least : count * l.pageBytes < length.toNat + l.pageBytes

theorem roundsUp_of_mappingEnd (haligned : Word.isAligned start l.pageSize = true)
    (hstop : l.mappingEnd start length = some stop) :
    l.RoundsUp start length stop ((stop - start).toNat / l.pageBytes) := by
  have hleast := mappingEnd_least hstop
  rcases mappingEnd_cover haligned hstop with ⟨hspan, hcover⟩
  refine ⟨(Word.isAligned_iff_mod l.fits.1).mp haligned, hspan.symm, hcover, ?_⟩
  omega

theorem RoundsUp.inside (h : l.RoundsUp start length stop count) (hi : i < count) :
    start.toNat + i * l.pageBytes + l.pageBytes ≤ stop.toNat := by
  have hle : (i + 1) * l.pageBytes ≤ count * l.pageBytes := Nat.mul_le_mul_right _ hi
  rw [Nat.succ_mul] at hle
  rw [h.whole]
  omega

theorem RoundsUp.toNat_pageAt (h : l.RoundsUp start length stop count) (hi : i < count) :
    (l.pageAt start i).toNat = start.toNat + i * l.pageBytes := by
  have hinside := h.inside hi
  have hsize := stop.toNat_lt_size
  exact Layout.toNat_pageAt (by omega)

theorem RoundsUp.pageAt_inj (h : l.RoundsUp start length stop count) (hi : i < count)
    (hj : j < count) (heq : l.pageAt start i = l.pageAt start j) : i = j := by
  have hnat := congrArg UInt64.toNat heq
  rw [h.toNat_pageAt hi, h.toNat_pageAt hj] at hnat
  exact Nat.eq_of_mul_eq_mul_right l.pageBytes_pos (Nat.add_left_cancel hnat)

theorem RoundsUp.ascending (h : l.RoundsUp start length stop count) :
    (l.pagesFrom start count).Pairwise (· < ·) := by
  refine List.pairwise_map.mpr (List.pairwise_lt_range.imp_of_mem ?_)
  intro i j hi hj hlt
  rw [List.mem_range] at hi hj
  rw [UInt64.lt_iff_toNat_lt]
  show (l.pageAt start i).toNat < (l.pageAt start j).toNat
  rw [h.toNat_pageAt hi, h.toNat_pageAt hj]
  exact Nat.add_lt_add_left (Nat.mul_lt_mul_of_pos_right hlt l.pageBytes_pos) _

theorem partAt_spec (f total : Nat) (hstart : offset.toNat + i * l.pageBytes < UInt64.size) :
    (l.partAt f offset total i).offset.toNat = offset.toNat + i * l.pageBytes ∧
      (l.partAt f offset total i).readBytes.toNat = min l.pageBytes (total - i * l.pageBytes) ∧
      (l.partAt f offset total i).readBytes.toNat + (l.partAt f offset total i).zeroBytes.toNat =
        l.pageBytes := by
  have hsize : l.pageBytes < UInt64.size := l.pageSize.toNat_lt_size
  have hread : (l.partAt f offset total i).readBytes.toNat =
      min (total - i * l.pageBytes) l.pageBytes :=
    UInt64.toNat_ofNat_of_lt' (by omega)
  have hzero : (l.partAt f offset total i).zeroBytes.toNat =
      l.pageBytes - min (total - i * l.pageBytes) l.pageBytes :=
    UInt64.toNat_ofNat_of_lt' (by omega)
  have hmul : (UInt64.ofNat i * l.pageSize).toNat = i * l.pageBytes :=
    toNat_mul_pageSize (by omega)
  refine ⟨?_, by rw [hread, Nat.min_comm], by omega⟩
  show (offset + UInt64.ofNat i * l.pageSize).toNat = _
  rw [UInt64.toNat_add, hmul]
  exact Nat.mod_eq_of_lt hstart

/-- The parts of `total` bytes that `count` pages hold are consecutive. -/
theorem exists_part_iff {first position : Nat} (htotal : total ≤ count * l.pageBytes) :
    (∃ i, i < count ∧ first + i * l.pageBytes ≤ position ∧
      position < first + i * l.pageBytes + min l.pageBytes (total - i * l.pageBytes)) ↔
      first ≤ position ∧ position < first + total := by
  have hpos := l.pageBytes_pos
  constructor
  · rintro ⟨i, -, hfrom, hto⟩
    omega
  · rintro ⟨hfrom, hto⟩
    have hdiv := Nat.div_add_mod' (position - first) l.pageBytes
    have hmod := Nat.mod_lt (position - first) hpos
    refine ⟨(position - first) / l.pageBytes, ?_, by omega, by omega⟩
    rw [Nat.div_lt_iff_lt_mul hpos]
    omega

end Layout

namespace Machine

open Routine

variable {m next : Machine} {p f index count total : Nat} {start stop base : Vaddr}
variable {length offset : UInt64} {writable : Bool}

/-! ## Pages registered one after the other -/

structure Registers (m : Machine) (p : Nat) (page : Nat → Page) (index count : Nat)
    (next : Machine) : Prop where
  added : ∀ i, i < count → next.page? p (page (index + i)).va =
    some { page (index + i) with id := m.nextId + i }
  others : ∀ q va, (∀ i, i < count → ¬(q = p ∧ va = (page (index + i)).va)) →
    next.page? q va = m.page? q va
  bare : ∀ q, (next.process q).bare = (m.process q).bare
  length : next.processes.length = m.processes.length
  beside : next = { m with processes := next.processes, nextId := m.nextId + count }

theorem registers_withPages {page : Nat → Page} (hp : p < m.processes.length)
    (hapart : ∀ i j, i < count → j < count → (page (index + i)).va = (page (index + j)).va →
      i = j) :
    m.Registers p page index count (m.withPages p page index count) := by
  induction count generalizing m index with
  | zero =>
      exact ⟨fun _ hi => absurd hi (Nat.not_lt_zero _), fun _ _ _ => rfl, fun _ => rfl, rfl, rfl⟩
  | succ count ih =>
      have hnumber : ∀ i, index + 1 + i = index + (i + 1) := by
        intro i
        omega
      have hlength : (m.withPage p (page index)).processes.length = m.processes.length :=
        length_modifyProcess m p _
      have hp' : p < (m.withPage p (page index)).processes.length := by
        rw [hlength]
        exact hp
      have hapart' : ∀ i j, i < count → j < count →
          (page (index + 1 + i)).va = (page (index + 1 + j)).va → i = j := by
        intro i j hi hj heq
        rw [hnumber, hnumber] at heq
        exact Nat.succ.inj (hapart (i + 1) (j + 1) (by omega) (by omega) heq)
      have hrest := ih (m := m.withPage p (page index)) hp' hapart'
      refine ⟨?_, ?_, ?_, hrest.length.trans hlength, ?_⟩
      · intro i hi
        cases i with
        | zero =>
            refine (hrest.others p _ ?_).trans ?_
            · rintro i hi ⟨-, heq⟩
              rw [hnumber] at heq
              exact absurd (hapart 0 (i + 1) (by omega) (by omega) heq) (by omega)
            · rw [page?_withPage hp, if_pos ⟨rfl, rfl⟩]
              rfl
        | succ i =>
            have hadded := hrest.added i (Nat.lt_of_succ_lt_succ hi)
            rw [hnumber] at hadded
            refine hadded.trans ?_
            rw [show (m.withPage p (page index)).nextId + i = m.nextId + (i + 1) by
              show m.nextId + 1 + i = _
              omega]
      · intro q va hne
        refine (hrest.others q va ?_).trans ?_
        · intro i hi
          rw [hnumber]
          exact hne (i + 1) (Nat.succ_lt_succ hi)
        · rw [page?_withPage hp]
          exact if_neg (hne 0 (Nat.succ_pos count))
      · intro q
        refine (hrest.bare q).trans ?_
        show ((m.modifyProcess p _).process q).bare = _
        exact process_modifyProcess_of_forall m p q Process.bare fun _ => rfl
      · rw [show m.nextId + (count + 1) = (m.withPage p (page index)).nextId + count by
          show _ = m.nextId + 1 + count
          omega]
        exact hrest.beside

/-! ## The list of the mappings -/

variable {mapping : FileMapping}

theorem process_listed (hp : p < m.processes.length) (q : Nat) :
    (m.modifyMappings p fun mappings => mappings.insert base mapping).process q =
      if q = p then
        { m.process q with mappings := ((m.process q).mappings.insert base mapping) }
      else m.process q :=
  process_modifyProcess m p q _ hp

theorem mappings_listed (hp : p < m.processes.length) (q : Nat) (b : Vaddr) :
    ((m.modifyMappings p fun mappings => mappings.insert base mapping).process q).mappings.get? b =
      if q = p ∧ b = base then some mapping else (m.process q).mappings.get? b := by
  rw [process_listed hp]
  by_cases hq : q = p
  · simp only [hq, if_true, true_and]
    exact AddressMap.get?_insert _ base b _
  · simp only [hq, if_false, false_and]

/-! ## Requests that succeed -/

theorem ends_mapFile_range :
    Ends (mapFile p start length writable f offset) m Anyhow
      (fun base next => base = start ∧ p < m.processes.length ∧ ∃ stop count,
        m.layout.RoundsUp start length stop count ∧ stop ≤ m.layout.userLimit ∧
        (m.process p).pages.occupied start stop = false ∧
        (∀ i, i < count → offset.toNat + i * m.layout.pageBytes < UInt64.size) ∧
        next = m.withRange p start stop length writable f offset count)
      fun _ _ => True := by
  unfold mapFile
  rw [ends_bind, ends_get]
  dsimp only
  rw [ends_bind, ends_require]
  split
  case isFalse => trivial
  case isTrue hstart =>
    rw [Bool.and_eq_true] at hstart
    rw [ends_bind, ends_require]
    split
    case isFalse => trivial
    case isTrue hwhole =>
      rw [Bool.and_eq_true, Bool.and_eq_true, bne_iff_ne, beq_iff_eq] at hwhole
      rw [ends_bind]
      cases hstop : m.layout.mappingEnd start length with
      | none => trivial
      | some stop =>
          rw [ends_orFail_some, ends_bind, ends_require]
          split
          case isFalse => trivial
          case isTrue hfree =>
            rw [Bool.not_eq_true'] at hfree
            have hrounds := Layout.roundsUp_of_mappingEnd hstart.2 hstop
            have hpos : 0 < (stop - start).toNat / m.layout.pageBytes := by
              apply Nat.pos_of_ne_zero
              intro hzero
              have hcover := hrounds.covers
              rw [hzero, Nat.zero_mul] at hcover
              exact hwhole.1.1 (UInt64.toNat_inj.mp (Nat.le_zero.mp hcover))
            rw [ends_bind]
            cases htorn : (m.process p).tornDown with
            | true =>
                exact (registerRange_of_tornDown htorn hstart.2 hpos).mono
                  (fun _ _ hfalse => hfalse.elim) fun _ _ _ => trivial
            | false =>
                refine (outcome_registerRange htorn hstart.2 hwhole.1.2 hpos rfl hrounds.whole.symm
                  hfree).anyhow.mono ?_ fun _ _ _ => trivial
                rintro _ next ⟨hwithin, rfl⟩
                rw [overshoots_iff hpos hwhole.1.2] at hwithin
                refine ⟨rfl, lt_of_tornDown_eq_false htorn, stop, _, hrounds,
                  (Layout.mappingEnd_eq_some hstop).2.1, hfree, ?_, rfl⟩
                intro i hi
                exact Nat.lt_of_not_le fun hsize => hwithin ⟨i, hi, hsize⟩

/-- The range of `count` pages from `start` on holds `total` bytes of a file from `offset` on, each
page its own part, and the pages outside the range are as before. -/
structure TilesRange (m : Machine) (p : Nat) (start : Vaddr) (writable : Bool) (f : Nat)
    (offset : UInt64) (count total : Nat) (next : Machine) : Prop where
  address : ∀ i, i < count → (m.layout.pageAt start i).toNat = start.toNat + i * m.layout.pageBytes
  /-- Each page is new, uninitialised and without a frame. -/
  pages : ∀ i, i < count → ∃ x, next.page? p (m.layout.pageAt start i) =
      some ⟨m.nextId + i, m.layout.pageAt start i, writable, false, none, some start, p,
        m.layout.pageSize, .uninit (.file x)⟩ ∧
    x.file = f ∧ x.offset.toNat = offset.toNat + i * m.layout.pageBytes ∧
    x.readBytes.toNat = min m.layout.pageBytes (total - i * m.layout.pageBytes) ∧
    x.readBytes.toNat + x.zeroBytes.toNat = m.layout.pageBytes
  /-- The pages hold these bytes of the file and no others. -/
  bytes : ∀ position, (∃ i page, i < count ∧
      next.page? p (m.layout.pageAt start i) = some page ∧ page.MapsByte position) ↔
    offset.toNat ≤ position ∧ position < offset.toNat + total
  /-- No two pages hold the same byte. -/
  apart : ∀ i j page other position, i < count → j < count →
    next.page? p (m.layout.pageAt start i) = some page →
    next.page? p (m.layout.pageAt start j) = some other →
    page.MapsByte position → other.MapsByte position → i = j
  others : ∀ q va, (∀ i, i < count → ¬(q = p ∧ va = m.layout.pageAt start i)) →
    next.page? q va = m.page? q va

theorem tilesRange_of_registers {last : Machine}
    (hrounds : m.layout.RoundsUp start length stop count) (htotal : total ≤ length.toNat)
    (hoffset : ∀ i, i < count → offset.toNat + i * m.layout.pageBytes < UInt64.size)
    (h : m.Registers p (m.layout.rangePage p start writable f offset total) 0 count next)
    (hpages : ∀ q va, last.page? q va = next.page? q va) :
    m.TilesRange p start writable f offset count total last := by
  have hpage : ∀ i, i < count → last.page? p (m.layout.pageAt start i) =
      some { m.layout.rangePage p start writable f offset total i with id := m.nextId + i } := by
    intro i hi
    have hadded := h.added i hi
    rw [Nat.zero_add] at hadded
    exact (hpages p _).trans hadded
  have hbyte : ∀ i page position, i < count →
      last.page? p (m.layout.pageAt start i) = some page → (page.MapsByte position ↔
        offset.toNat + i * m.layout.pageBytes ≤ position ∧
          position < offset.toNat + i * m.layout.pageBytes +
            min m.layout.pageBytes (total - i * m.layout.pageBytes)) := by
    intro i page position hi hfound
    rw [hpage i hi] at hfound
    cases hfound
    rcases Layout.partAt_spec f total (hoffset i hi) with ⟨hstart, hread, -⟩
    constructor
    · rintro ⟨x, hx, hfrom, hto⟩
      cases hx
      omega
    · rintro ⟨hfrom, hto⟩
      exact ⟨_, rfl, by omega, by omega⟩
  refine ⟨fun i hi => hrounds.toNat_pageAt hi, ?_, ?_, ?_, ?_⟩
  · intro i hi
    exact ⟨_, hpage i hi, rfl, Layout.partAt_spec f total (hoffset i hi)⟩
  · intro position
    rw [← Layout.exists_part_iff (Nat.le_trans htotal hrounds.covers)]
    constructor
    · rintro ⟨i, page, hi, hfound, hmaps⟩
      exact ⟨i, hi, (hbyte i page position hi hfound).mp hmaps⟩
    · rintro ⟨i, hi, hin⟩
      exact ⟨i, _, hi, hpage i hi, (hbyte i _ position hi (hpage i hi)).mpr hin⟩
  · intro i j page other position hi hj hfound hother hmaps hmaps'
    have hin := (hbyte i page position hi hfound).mp hmaps
    have hin' := (hbyte j other position hj hother).mp hmaps'
    -- The part of an earlier page ends where that of the next one starts.
    rcases Nat.lt_trichotomy i j with hlt | heq | hgt
    · have hle : (i + 1) * m.layout.pageBytes ≤ j * m.layout.pageBytes :=
        Nat.mul_le_mul_right _ hlt
      rw [Nat.succ_mul] at hle
      omega
    · exact heq
    · have hle : (j + 1) * m.layout.pageBytes ≤ i * m.layout.pageBytes :=
        Nat.mul_le_mul_right _ hgt
      rw [Nat.succ_mul] at hle
      omega
  · intro q va hne
    refine (hpages q va).trans (h.others q va ?_)
    intro i hi
    rw [Nat.zero_add]
    exact hne i hi

/-- A request that succeeds maps the least range of whole pages that holds the length, which was
free and lies in user space. The pages hold the bytes of the file from the offset on, as far as the
length and the file go. The list of the mapping has exactly these pages in ascending order, and
apart from the pages, this list and the report nothing has changed. -/
theorem mapFile_tiles_range
    (h : mapFile p start length writable f offset m = .ok base next) :
    base = start ∧ ∃ stop count total,
      m.layout.RoundsUp start length stop count ∧ stop ≤ m.layout.userLimit ∧
      total = min length.toNat ((m.file f).length.toNat - offset.toNat) ∧
      (∀ va, start ≤ va → va < stop → m.page? p va = none) ∧
      m.TilesRange p start writable f offset count total next ∧
      (next.process p).mappings.get? start =
        some ⟨start, length, (List.range count).map (m.layout.pageAt start)⟩ ∧
      ((List.range count).map (m.layout.pageAt start)).Pairwise (· < ·) ∧
      (∀ q b, ¬(q = p ∧ b = start) →
        (next.process q).mappings.get? b = (m.process q).mappings.get? b) ∧
      (∀ q, (next.process q).mmu = (m.process q).mmu ∧
        (next.process q).tornDown = (m.process q).tornDown ∧
        (next.process q).ended = (m.process q).ended) ∧
      next = { m with
        processes := next.processes
        nextId := m.nextId + count
        trace := .reported (.mapped start stop offset) :: m.trace } := by
  rcases ends_mapFile_range.of_ok h with
    ⟨rfl, hp, stop, count, hrounds, hlimit, hfree, hoffset, rfl⟩
  have htotal : ((m.file f).mappedBytes length offset).toNat =
      min length.toNat ((m.file f).length.toNat - offset.toNat) := by
    rw [BackingFile.mappedBytes, Word.toNat_min, Word.toNat_saturatingSub]
  have hapart : ∀ i j, i < count → j < count →
      m.layout.pageAt base (0 + i) = m.layout.pageAt base (0 + j) → i = j := by
    intro i j hi hj heq
    rw [Nat.zero_add, Nat.zero_add] at heq
    exact hrounds.pageAt_inj hi hj heq
  have hregisters : m.Registers p (m.layout.rangePage p base writable f offset
      ((m.file f).mappedBytes length offset).toNat) 0 count (m.withPages p
        (m.layout.rangePage p base writable f offset
          ((m.file f).mappedBytes length offset).toNat) 0 count) :=
    registers_withPages hp hapart
  unfold withRange
  rw [htotal] at hregisters ⊢
  generalize m.withPages p (m.layout.rangePage p base writable f offset
    (min length.toNat ((m.file f).length.toNat - offset.toNat))) 0 count = paged at *
  have hlength : p < (paged.recorded
      (.reported (.mapped base stop offset))).processes.length := hregisters.length.symm ▸ hp
  refine ⟨rfl, stop, count, _, hrounds, hlimit, rfl, ?_, ?_, ?_, hrounds.ascending, ?_, ?_, ?_⟩
  · intro va hfrom hto
    rw [Option.eq_none_iff_forall_ne_some]
    intro page hpage
    rw [← Bool.not_eq_true] at hfree
    exact hfree (AddressMap.occupied_eq_true_iff.mpr ⟨va, page, hpage, hfrom, hto⟩)
  · refine tilesRange_of_registers hrounds (Nat.min_le_left _ _) hoffset hregisters ?_
    intro q va
    exact page?_modifyMappings _ p q _ va
  · rw [mappings_listed hlength, if_pos ⟨rfl, rfl⟩]
    rfl
  · intro q b hne
    rw [mappings_listed hlength, if_neg hne, ← (Process.eq_of_bare (hregisters.bare q)).1]
    rfl
  · intro q
    rcases Process.eq_of_bare (hregisters.bare q) with ⟨-, hmmu, htorn, hended⟩
    rw [process_listed hlength, ← hmmu, ← htorn, ← hended]
    split <;> exact ⟨rfl, rfl, rfl⟩
  · rw [hregisters.beside]
    rfl

/-- Three pages are mapped to a file that ends in the second one. -/
theorem range_with_end_of_file : ∃ m next : Machine, m.Reachable ∧
    mapFile 0 0x2000 40 false 0 16 m = .ok 0x2000 next ∧
    (next.process 0).mappings.get? 0x2000 = some ⟨0x2000, 40, [0x2000, 0x2010, 0x2020]⟩ ∧
    (∃ page x, next.page? 0 0x2010 = some page ∧ page.state = .uninit (.file x) ∧
      x.offset.toNat = 32 ∧ x.readBytes.toNat = 4 ∧ x.zeroBytes.toNat = 12) ∧
    next.page? 0 0x2030 = m.page? 0 0x2030 := by
  have hrun := Reachable.of_run smallConfig (smallHardware none [.patterned 36])
    [.start (.always true)] (fun m => decide (m.layout.pageSize = 16) &&
      decide ((m.file 0).length = 36) && m.serves (.map 0 0x2000 40 false 0 16) fun _ _ => true)
    (by decide +kernel)
  rcases hrun with ⟨m, hm, hcheck⟩
  simp only [Bool.and_eq_true, decide_eq_true_eq] at hcheck
  rcases hcheck with ⟨⟨hsize, hlength⟩, hserves⟩
  rcases exists_of_serves hserves with ⟨reply, last, hmap, -⟩
  rcases bind_eq_ok_iff.mp hmap with ⟨base, next, hserved, -⟩
  have hbytes : m.layout.pageBytes = 16 := by
    rw [Layout.pageBytes, hsize]
    rfl
  rcases mapFile_tiles_range hserved with
    ⟨rfl, stop, count, total, hrounds, -, htotal, -, htiles, hlist, -⟩
  have hcovers : 40 ≤ count * m.layout.pageBytes := hrounds.covers
  have hleast : count * m.layout.pageBytes < 40 + m.layout.pageBytes := hrounds.least
  rw [hbytes] at hcovers hleast
  obtain rfl : count = 3 := by omega
  have htwenty : total = 20 := by
    rw [htotal, hlength]
    decide
  have hplaces : m.layout.pageAt 0x2000 0 = 0x2000 ∧ m.layout.pageAt 0x2000 1 = 0x2010 ∧
      m.layout.pageAt 0x2000 2 = 0x2020 := by
    unfold Layout.pageAt
    rw [hsize]
    decide
  rcases hplaces with ⟨hzero, hone, htwo⟩
  refine ⟨m, next, hm, hserved, ?_, ?_, ?_⟩
  · rw [hlist, ← hone, ← htwo]
    show some (FileMapping.mk 0x2000 40 [m.layout.pageAt 0x2000 0, _, _]) = _
    rw [hzero]
  · rcases htiles.pages 1 (by decide) with ⟨x, hpage, -, hoffset, hread, hzeros⟩
    rw [hbytes] at hoffset hread hzeros
    rw [hone] at hpage
    have hsixteen : (16 : UInt64).toNat = 16 := rfl
    exact ⟨_, x, hpage, rfl, by omega, by omega, by omega⟩
  · apply htiles.others
    intro i hi hat
    have hplace := htiles.address i hi
    rw [← hat.2, hbytes] at hplace
    have hwhole : (0x2030 : Vaddr).toNat = 0x2030 ∧ (0x2000 : Vaddr).toNat = 0x2000 := ⟨rfl, rfl⟩
    omega

end Machine
end DemandPaging
