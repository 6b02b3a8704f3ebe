import DemandPaging.Proofs.Machine.MappingGroups
import DemandPaging.Proofs.Scene.Mirror

/-!
# From a file to memory and back

A process maps a part of a file, reads and writes it, and takes the mapping away again. Whatever is
evicted and loaded meanwhile, what it reads is the file with its own bytes in it, and so is the file
at the end.
-/

namespace DemandPaging

/-! ## Runs beside a mapping -/

/-- An operation that leaves a mapping of a file alone: it does not map the file again, it takes no
page of the mapping away, and it is no fork. -/
def Operation.spares (op : Operation) (m : Machine) (p : Nat) (start : Vaddr) (f : Nat) : Bool :=
  match op with
  | .fork .. => false
  | .finish q | .teardown q => q != p
  | .allocate _ type _ _ loader =>
      match Page.originOf type loader with
      | .ok (.file x) => x.file != f
      | _ => true
  | .map _ _ _ _ g _ => g != f
  | .remove q va | .unmap q va => q != p || (m.lookup q va).bind Page.mapping != some start
  | _ => true

def Machine.spares (m : Machine) (p : Nat) (start : Vaddr) (f : Nat) : List Operation → Bool
  | [] => true
  | op :: rest => op.spares m p start f &&
      match m.after? op with
      | some next => next.spares p start f rest
      | none => true

namespace Writes

def served (writes : Writes) (p : Nat) (op : Operation) (reply : Reply) : Writes :=
  match op with
  | .write q va data => if q = p then writes.stored va (reply.stored va data) else writes
  | _ => writes

def along (writes : Writes) (p : Nat) (m : Machine) : List Operation → Writes
  | [] => writes
  | op :: rest =>
      match op.perform m with
      | .ok reply next => (writes.served p op reply).along p next rest
      | .error (.failed _) next => writes.along p next rest
      | .error (.aborted _) _ => writes

end Writes

namespace BackingFile

def shown (file : BackingFile) (length offset : UInt64) : Nat :=
  min length.toNat (file.content.length - offset.toNat)

def revised (file : BackingFile) (start : Vaddr) (length offset : UInt64) (writes : Writes) :
    Bytes :=
  file.content.overwritten offset.toNat (file.shown length offset) fun j =>
    writes (start + UInt64.ofNat j)

/-- Since an earlier state, a file got pages of a mapping, and only those that the process wrote
to. -/
def GotPages (file before : BackingFile) (l : Layout) (start : Vaddr) (length offset : UInt64)
    (writes : Writes) : Prop :=
  ∃ sent, file.written = before.written ++ sent ∧ ∀ write ∈ sent, ∃ i,
    write = (offset.toNat + i * l.pageBytes,
      min (before.shown length offset - i * l.pageBytes) l.pageBytes) ∧
    ∃ b < l.pageBytes, (writes (start + UInt64.ofNat (i * l.pageBytes + b))).isSome = true

end BackingFile

structure Window.OpensFor (win : Window) (m : Machine) (p : Nat) (start : Vaddr)
    (length : UInt64) (f : Nat) (offset : UInt64) : Prop where
  layout : win.layout = m.layout
  process : win.process = p
  start : win.start = start
  long : length.toNat ≤ win.pages * m.layout.pageBytes
  file : win.file = f
  original : win.original = m.file f
  bytes : win.bytes = (m.file f).shown length offset
  offset : win.offset = offset.toNat

theorem Window.OpensFor.gotPages {win : Window} {m : Machine} {p f : Nat} {start : Vaddr}
    {length offset : UInt64} {writes : Writes} {file : BackingFile}
    (h : win.OpensFor m p start length f offset) (hfollows : win.Follows writes file) :
    file.GotPages (m.file f) m.layout start length offset writes := by
  rcases h with ⟨hlayout, -, rfl, -, -, horiginal, hbytes, hoffset⟩
  rcases hfollows.log with ⟨sent, hwritten, hall⟩
  rw [horiginal] at hwritten
  rw [← hlayout]
  refine ⟨sent, hwritten, ?_⟩
  intro write hwrite
  rcases hall write hwrite with ⟨i, -, ⟨b, hb, hsome⟩, rfl⟩
  refine ⟨i, ?_, b, hb, ?_⟩
  · unfold Window.place Window.size
    rw [hoffset, hbytes]
  · rw [← Window.address_add]
    exact hsome

namespace Machine

open Routine

variable {m next last : Machine} {mem : FlatMemory} {p f : Nat} {start va : Vaddr}
  {length offset : UInt64} {writable : Bool} {win : Window} {writes : Writes}
  {c : MappingCalls}

theorem mirrors_mapFile (k : m.Sound {} mem)
    (hlength : (m.file f).length.toNat = (m.file f).content.length)
    (hwilling : ∀ call, (m.file f).writing.outcome call = .whole)
    (haccepts : ∀ call, (m.process p).mmu.accepting.outcome call = true)
    (hunmapped : ∀ q va page, m.page? q va = some page → ¬page.Concerns f) :
    Ends (mapFile p start length writable f offset) m Anyhow
      (fun _ next => ∃ win : Window, win.OpensFor m p start length f offset ∧
        next.scene.Mirrors win .blank ∧ next.scene.Opens win)
      fun _ _ => True := by
  refine (steps_mapFile k).mono ?_ fun _ _ _ => trivial
  intro _ next hnext
  rcases hnext with ⟨-, haligned, count, v, hcount, hcover, ⟨stop, -, hstop⟩, hadded, -, hscene⟩
  have htotal : ((m.file f).mappedBytes length offset).toNat =
      (m.file f).shown length offset := by
    unfold BackingFile.mappedBytes BackingFile.shown
    rw [Word.toNat_min, Word.toNat_saturatingSub, hlength]
  rw [htotal] at hadded
  let win : Window :=
    { layout := m.layout
      process := p
      start := start
      pages := count
      file := f
      offset := offset.toNat
      bytes := (m.file f).shown length offset
      original := m.file f
      inhabited := hcount
      aligned := haligned
      inSpace := hstop ▸ stop.toNat_lt_size
      covered := Nat.le_trans (Nat.min_le_left _ _) hcover
      inFile := Nat.min_le_right _ _ }
  have hadded' : m.scene.Populated win.process (win.layout.pageAt win.start)
      (win.layout.MappedPage win.process win.start writable win.file offset win.bytes) 0 win.pages
      v := hadded
  have hmirrors : next.scene.Mirrors win .blank := by
    rw [hscene]
    exact hadded'.mirrors rfl haccepts (file_scene m f) hwilling hunmapped rfl
  have hopens : next.scene.Opens win := by
    rw [hscene]
    exact hadded'.opens rfl
  exact ⟨win, ⟨rfl, rfl, rfl, hcover, rfl, rfl, rfl, rfl⟩, hmirrors, hopens⟩

/-! ## Operations -/

theorem spares_of_permits {op : Operation} {deed : Deed} (h : m.scene.Opens win)
    (hlists : ∀ q b g, (m.process q).mappings.get? b = some g → g.Lists b (m.baseAt q))
    (hspares : op.spares m win.process win.start win.file = true)
    (hwrite : ∀ va data, op ≠ .write win.process va data)
    (hmap : ∀ length writable f offset,
      op ≠ .map win.process win.start length writable f offset)
    (hpermits : op.Permits m deed) : deed.Apart win ∧ deed.Spares win := by
  have hbase : ∀ {q va}, (q != win.process ||
      (m.lookup q va).bind Page.mapping != some win.start) = true → q = win.process →
      (m.lookup q va).bind Page.mapping ≠ some win.start := by
    intro q va hspares hq
    simpa [hq] using hspares
  cases op with
  | start accepting =>
      cases hpermits
      rcases Option.bind_eq_some_iff.mp (h.linked 0 win.inhabited) with ⟨page, hpage, -⟩
      exact ⟨Nat.ne_of_gt (lt_of_page?_eq_some hpage), trivial⟩
  | finish p | teardown p => exact Deed.Clearing.spares hpermits (bne_iff_ne.mp hspares)
  | allocate p type va writable loader =>
      rcases hpermits with ⟨origin, horigin, rfl⟩
      refine ⟨?_, trivial⟩
      rintro ⟨x, hstate, hfile⟩
      cases origin with
      | anon loader => contradiction
      | file y =>
          cases hstate
          rw [Operation.spares, horigin] at hspares
          exact bne_iff_ne.mp hspares hfile
  | remove p va =>
      rcases hpermits with ⟨page, hpage, (rfl | rfl) | ⟨base, hlink, rfl⟩⟩
      · exact ⟨trivial, trivial⟩
      · refine ⟨trivial, ?_⟩
        intro hin
        have hother := hbase hspares hin.1
        rw [show m.lookup p va = some page from hpage] at hother
        exact hother
      · refine ⟨trivial, ?_⟩
        intro hp
        have hother := hbase hspares hp
        rw [show m.lookup p va = some page from hpage] at hother
        rintro hstart
        rw [List.mem_singleton.mp hstart, ← hlink] at hother
        exact hother rfl
  | claim p va => exact Deed.Claiming.spares hpermits
  | fault p f =>
      rcases hpermits with hdeed | ⟨page, -, hnew, rfl | rfl | rfl⟩
      · exact hdeed.spares
      · refine ⟨?_, trivial⟩
        rintro ⟨x, hstate, -⟩
        rw [hnew.2.2] at hstate
        contradiction
      · exact ⟨trivial, trivial⟩
      · refine ⟨trivial, ?_⟩
        intro _ hlink
        rw [hnew.2.1] at hlink
        contradiction
  | read p va length => exact hpermits.elim
  | write p va data =>
      rcases hpermits with ⟨count, rfl⟩
      refine ⟨?_, trivial⟩
      rintro rfl
      exact hwrite va data rfl
  | map p base length writable f offset =>
      rcases hpermits with ⟨page, ⟨i, hgood⟩, rfl⟩ | rfl
      · refine ⟨?_, trivial⟩
        rcases hgood.part with ⟨x, hstate, rfl, -⟩
        rintro ⟨y, hloaded, hfile⟩
        rw [hstate] at hloaded
        cases hloaded
        exact bne_iff_ne.mp hspares hfile
      · refine ⟨trivial, ?_⟩
        rintro rfl hstart
        rw [← List.mem_singleton.mp hstart] at hmap
        exact hmap length writable f offset rfl
  | unmap p va =>
      rcases hpermits with ⟨base, mapping, hlookup, hget, rfl | ⟨page, hmember, rfl | rfl⟩⟩
      · refine ⟨trivial, ?_⟩
        intro hp hstart
        rw [← List.mem_singleton.mp hstart] at hlookup
        exact hbase hspares hp hlookup
      · exact ⟨trivial, trivial⟩
      · refine ⟨trivial, ?_⟩
        rintro ⟨rfl, i, hi, hva⟩
        have hlinked := (hlists win.process base mapping hget).linked page.va hmember
        rw [hva, ← scene_link, h.linked i hi] at hlinked
        rw [← hlinked] at hlookup
        exact absurd hlookup (hbase hspares rfl)
  | fork s t => contradiction
  | classAt p va => exact hpermits.elim
  | mappingAt p va => exact hpermits.elim

theorem steps_write {data : Bytes} (k : m.Sound {} mem) :
    Ends (Operation.write p va data).perform m Anyhow
      (fun reply next => Scene.Step (.store p va (reply.stored va data)) m.scene next.scene)
      fun _ _ => False := by
  unfold Operation.perform
  rw [ends_bind]
  refine (scene_userWrite k).mono ?_ fun _ _ hfalse => hfalse
  intro result next hstep
  cases result with
  | ok done => exact hstep
  | error fault => exact hstep

theorem mirrors_perform {op : Operation} (k : m.Sound {} mem)
    (hlists : ∀ q b g, (m.process q).mappings.get? b = some g → g.Lists b (m.baseAt q))
    (hmirrors : m.scene.Mirrors win writes) (hopens : m.scene.Opens win)
    (hspares : op.spares m win.process win.start win.file = true) :
    Ends op.perform m Anyhow
      (fun reply next => next.scene.Mirrors win (writes.served win.process op reply) ∧
        next.scene.Opens win)
      fun _ next => next.scene.Mirrors win writes ∧ next.scene.Opens win := by
  by_cases hwrite : ∃ va data, op = .write win.process va data
  · rcases hwrite with ⟨va, data, rfl⟩
    refine (steps_write k).mono ?_ fun _ _ hfalse => hfalse.elim
    intro reply next hstep
    have hserved : writes.served win.process (.write win.process va data) reply =
        writes.stored va (reply.stored va data) := if_pos rfl
    rw [hserved]
    exact hstep.mirrors_store hmirrors hopens
  by_cases hmap : ∃ length writable f offset,
      op = .map win.process win.start length writable f offset
  · rcases hmap with ⟨length, writable, f, offset, rfl⟩
    unfold Operation.perform
    rw [ends_bind]
    refine (steps_mapFile k).mono ?_ ?_
    · intro _ next hnext
      rcases hnext with ⟨-, -, count, v, hcount, -, -, hadded, -⟩
      refine absurd ⟨rfl, 0, win.inhabited, ?_⟩
        (hopens.not_covers (hadded.free 0 (Nat.zero_le 0) hcount))
      unfold Window.address
      rw [← hmirrors.layout]
      rfl
    · intro _ next hscene
      rw [hscene]
      exact ⟨hmirrors, hopens⟩
  · have hserved : ∀ reply, writes.served win.process op reply = writes := by
      intro reply
      cases op with
      | write q va data =>
          refine if_neg ?_
          rintro rfl
          exact hwrite ⟨va, data, rfl⟩
      | _ => rfl
    have hkept : ∀ {next : Machine}, Scene.Steps (op.Permits m) m.scene next.scene →
        next.scene.Mirrors win writes ∧ next.scene.Opens win := by
      intro next hsteps
      refine hsteps.mirrors hmirrors hopens fun deed hdeed => ?_
      exact spares_of_permits hopens hlists hspares
        (fun va data heq => hwrite ⟨va, data, heq⟩)
        (fun length writable f offset heq => hmap ⟨length, writable, f, offset, heq⟩) hdeed
    refine (steps_perform op k).mono ?_ fun _ _ => hkept
    intro reply next hsteps
    rw [hserved]
    exact hkept hsteps

/-! ## Runs -/

theorem Reachable.mirrors_along {ops : List Operation} (hm : m.Reachable)
    (hmirrors : m.scene.Mirrors win writes) (hopens : m.scene.Opens win)
    (hspares : m.spares win.process win.start win.file ops = true)
    (hrun : m.run ops = some last) :
    last.scene.Mirrors win (writes.along win.process m ops) ∧ last.scene.Opens win := by
  induction ops generalizing m writes with
  | nil =>
      cases hrun
      exact ⟨hmirrors, hopens⟩
  | cons op rest ih =>
      rcases hm.sound with ⟨mem, k⟩
      rw [spares, Bool.and_eq_true] at hspares
      have hends := mirrors_perform k (fun q b g => hm.lists) hmirrors hopens hspares.1
      rw [run_cons] at hrun
      rcases Option.bind_eq_some_iff.mp hrun with ⟨next, hnext, hlater⟩
      have hrest := hspares.2
      rw [hnext] at hrest
      have hreachable := hm.after? hnext
      unfold Ends at hends
      rw [Writes.along]
      unfold Machine.after? at hnext
      cases hperform : op.perform m with
      | ok reply served =>
          rw [hperform] at hends hnext
          cases hnext
          exact ih hreachable hends.1 hends.2 hrest hlater
      | error stop refused =>
          rw [hperform] at hends hnext
          cases stop with
          | failed e =>
              cases hnext
              exact ih hreachable hends.1 hends.2 hrest hlater
          | aborted a => contradiction

/-! ## Reading and unmapping -/

theorem follows_of_mirrors (hmirrors : m.scene.Mirrors win writes) :
    win.Follows writes (m.file win.file) := by
  have hfollows := hmirrors.follows
  rw [file_scene] at hfollows
  exact ⟨hfollows.reported, hfollows.length, hfollows.beside, hfollows.willing, hfollows.log⟩

/-- What the process reads in the window is what the window shows. -/
theorem Sound.read_window {count : Nat} (k : m.Sound {} mem)
    (hmirrors : m.scene.Mirrors win writes) :
    Ends (Operation.read win.process va count).perform m Anyhow
      (fun reply _ => ∀ bytes, reply = .data bytes → ∀ i j, i < count → j < win.bytes →
        va + UInt64.ofNat i = win.start + UInt64.ofNat j →
        bytes[i]? = (win.image writes)[win.offset + j]?)
      fun _ _ => False := by
  unfold Operation.perform
  rw [ends_bind]
  have hread : Ends (userRead win.process va count) m Anyhow _ _ := ends_userRead k fun _ => trivial
  refine hread.mono ?_ fun _ _ hfalse => hfalse
  intro result next hend bytes hreply i j hi hj haddress
  rcases hend with ⟨-, -, hbytes⟩
  have hresult : result = .ok bytes := by
    cases result with
    | ok read =>
        cases hreply
        rfl
    | error fault => contradiction
  rcases (hbytes bytes hresult).2 i hi with ⟨page, f, hpage, hframe, hbyte, -⟩
  rcases Window.exists_page hj with ⟨n, b, hn, hb, rfl⟩
  have hlayout : m.layout = win.layout := hmirrors.layout
  have hsmall : b < win.layout.pageBytes := Nat.lt_of_lt_of_le hb (Nat.min_le_right _ _)
  have hpower := win.layout.fits.1
  have haligned := Window.aligned_address hn
  rw [haddress, ← Window.address_add] at hpage hbyte
  have hbase : m.pageBase (win.address n + UInt64.ofNat b) = win.address n := by
    rw [pageBase, hlayout, Word.alignDown_add_ofNat hpower haligned hsmall]
  have hoffset : ((win.address n + UInt64.ofNat b) % m.layout.pageSize).toNat = b := by
    have hmod := (Word.isAligned_iff_mod hpower).mp haligned
    rw [hlayout, UInt64.toNat_mod, Word.toNat_add_ofNat hpower haligned hsmall, Nat.add_mod, hmod,
      Nat.zero_add, Nat.mod_mod]
    exact Nat.mod_eq_of_lt hsmall
  rw [lookup, hbase] at hpage
  have hsight : m.scene.sight win.process (win.address n) =
      ⟨some page, m.entryAt win.process (win.address n), some (m.pool.content f)⟩ :=
    sight_of_frame hpage hframe
  rcases hmirrors.resident hn hsight with ⟨x, e, -, -, -, -, hshows, -⟩
  rw [hbyte, hoffset, hshows b hb]
  unfold Window.place
  rw [Nat.add_assoc]

/-- An unmap at an address of the window takes all its pages, and the file gets what the window
showed. -/
theorem Sound.unmap_window {a : Vaddr} {i : Nat} (k : m.Sound {} mem)
    (hmirrors : m.scene.Mirrors win writes) (hopens : m.scene.Opens win) (hi : i < win.pages)
    (ha : m.pageBase a = win.address i) :
    ∃ next, (Operation.unmap win.process a).perform m = .ok .done next ∧
      (next.file win.file).content = win.image writes ∧
      win.Follows writes (next.file win.file) := by
  have hbase : (m.lookup win.process a).bind Page.mapping = some win.start := by
    rw [lookup, ha]
    exact hopens.linked i hi
  have hlisted : ((m.process win.process).mappings.get? win.start).map FileMapping.members =
      some (win.layout.pagesFrom win.start win.pages) := hopens.listed
  have hends : Ends (Operation.unmap win.process a).perform m (fun _ => False)
      (fun reply next => reply = .done ∧ next.scene.Mirrors win writes ∧
        ∀ j, j < win.pages → next.page? win.process (win.address j) = none)
      fun _ _ => False := by
    unfold Operation.perform
    rw [ends_bind]
    refine ((ends_unmapFile k).and (steps_unmapFile k)).mono ?_ fun _ _ hfalse => hfalse.2
    intro _ next hnext
    refine ⟨rfl, ?_⟩
    rcases hnext.2 with ⟨hnone, -⟩ | ⟨base, mapping, hfound, hget, hcleared, hsteps, -⟩
    · rw [hnone win.start hbase] at hlisted
      contradiction
    · cases hbase.symm.trans hfound
      rw [hget] at hlisted
      have hmembers : mapping.members = win.layout.pagesFrom win.start win.pages :=
        Option.some.inj hlisted
      refine ⟨?_, ?_⟩
      · refine hsteps.keeps (P := fun v => v.Mirrors win writes) ?_ hmirrors.grouped
        rintro _ v w ⟨page, -, rfl | rfl⟩ hstep hv
        · exact hv.step hstep trivial fun _ _ heq => Deed.noConfusion heq
        · exact hv.step hstep trivial fun _ _ heq => Deed.noConfusion heq
      · intro j hj
        refine hcleared.gone win.process (win.address j) ⟨rfl, ?_⟩
        rw [hmembers]
        exact List.mem_map_of_mem (List.mem_range.mpr hj)
  rcases hends.exists_result with ⟨reply, next, hperform, rfl, hlast, hgone⟩
  have hfollows := follows_of_mirrors hlast
  have hsaved := fun j hj => hlast.gone hj (hgone j hj)
  rw [file_scene] at hsaved
  exact ⟨next, hperform, hfollows.content_eq hsaved, hfollows⟩

/-- A process maps a part of a file that nobody has mapped. Whatever happens after that and leaves
the mapping alone, the process reads the file with its own bytes written over it. An unmap at any
address of the mapping leaves the file with these bytes, and all that was ever written to the file
is pages that the process wrote to. -/
theorem mapping_round_trip {mapped : Machine} {reply : Reply} {ops : List Operation}
    (hm : m.Reachable) (hlength : (m.file f).length.toNat = (m.file f).content.length)
    (hwilling : ∀ call, (m.file f).writing.outcome call = .whole)
    (haccepts : ∀ call, (m.process p).mmu.accepting.outcome call = true)
    (hunmapped : ∀ q va page, m.page? q va = some page → ¬page.Concerns f)
    (hmap : (Operation.map p start length true f offset).perform m = .ok reply mapped)
    (hspares : mapped.spares p start f ops = true) (hrun : mapped.run ops = some last) :
    (∀ va count bytes next, (Operation.read p va count).perform last = .ok (.data bytes) next →
      ∀ i j, i < count → j < (m.file f).shown length offset →
        va + UInt64.ofNat i = start + UInt64.ofNat j →
        bytes[i]? = ((m.file f).revised start length offset
          (Writes.blank.along p mapped ops))[offset.toNat + j]?) ∧
      (last.file f).GotPages (m.file f) m.layout start length offset
        (Writes.blank.along p mapped ops) ∧
      ∀ a, (last.pageBase a - start).toNat < length.toNat → ∃ next,
        (Operation.unmap p a).perform last = .ok .done next ∧
          (next.file f).content =
            (m.file f).revised start length offset (Writes.blank.along p mapped ops) ∧
          (next.file f).length = (m.file f).length ∧
          (next.file f).GotPages (m.file f) m.layout start length offset
            (Writes.blank.along p mapped ops) := by
  rcases hm.sound with ⟨mem, k⟩
  rcases bind_eq_ok_iff.mp hmap with ⟨base, next, hserved, hreply⟩
  cases hreply
  have hafter : m.after? (.map p start length true f offset) = some mapped := by
    unfold Machine.after?
    rw [hmap]
  have hreachable := hm.after? hafter
  rcases (mirrors_mapFile k hlength hwilling haccepts hunmapped).of_ok hserved with
    ⟨win, hwin, hmirrors, hopens⟩
  obtain rfl := hwin.process
  obtain rfl := hwin.start
  obtain rfl := hwin.file
  rcases hreachable.mirrors_along hmirrors hopens hspares hrun with ⟨hmirrors', hopens'⟩
  rcases (hreachable.later hrun).sound with ⟨mem', k'⟩
  have himage : ∀ writes, win.image writes =
      (m.file win.file).revised win.start length offset writes := by
    intro writes
    unfold Window.image BackingFile.revised
    rw [hwin.original, hwin.offset, hwin.bytes]
  refine ⟨?_, ?_, ?_⟩
  · intro va count bytes next hread i j hi hj haddress
    rw [← himage, ← hwin.offset]
    rw [← hwin.bytes] at hj
    exact (k'.read_window hmirrors').of_ok hread bytes rfl i j hi hj haddress
  · exact hwin.gotPages (follows_of_mirrors hmirrors')
  · intro a ha
    have hbase : Word.isAligned (last.pageBase a) win.layout.pageSize = true := by
      rw [← show last.layout = win.layout from hmirrors'.layout]
      exact isAligned_pageBase last a
    have hlong := hwin.long
    rw [← hwin.layout] at hlong
    rcases Window.exists_address hbase (Nat.lt_of_lt_of_le ha hlong) with ⟨i, hi, haddress⟩
    rcases k'.unmap_window hmirrors' hopens' hi haddress with ⟨next, hunmap, hcontent, hfollows⟩
    refine ⟨next, hunmap, hcontent.trans (himage _), ?_, hwin.gotPages hfollows⟩
    unfold BackingFile.length
    rw [hfollows.reported, hfollows.length, hwin.original]

def editedPages : List Operation :=
  [.claim 0 0x2000, .write 0 0x2000 [7, 8], .claim 0 0x2010, .read 0 0x2010 1, .claim 0 0x2020,
    .write 0 0x2020 [9, 10, 11, 12, 13, 14], .claim 0 0x2000, .claim 0 0x2010,
    .write 0 0x201f [5], .claim 0 0x2000]

def isData : Reply → Bool
  | .data _ => true
  | _ => false

theorem edited_through_mapping : ∃ m mapped last next : Machine, m.Reachable ∧
    (∃ reply, (Operation.map 0 0x2000 40 true 0 16).perform m = .ok reply mapped) ∧
    mapped.run editedPages = some last ∧ last.ring.evictions = 4 ∧
    (∃ bytes after, (Operation.read 0 0x2000 2).perform last = .ok (.data bytes) after ∧
      bytes[1]? = some 8) ∧
    (Operation.unmap 0 0x2027).perform last = .ok .done next ∧
    (next.file 0).content.drop 14 = [14, 15, 7, 8, 18, 19, 20, 21, 22, 23, 24, 25, 26, 27, 28, 29,
      30, 31, 32, 33, 34, 35, 36, 37, 38, 39, 40, 41, 42, 43, 44, 45, 46, 5, 9, 10, 11, 12] := by
  have hexists := exists_run smallConfig (smallHardware none [.patterned 52]) [.start (.always true)]
    (fun _ m => decide ((m.file 0).length.toNat = (m.file 0).content.length) &&
      m.serves (.map 0 0x2000 40 true 0 16) fun _ mapped => mapped.spares 0 0x2000 0 editedPages &&
        (mapped.run editedPages).any fun last => decide (last.ring.evictions = 4) &&
          decide ((last.pageBase 0x2027 - 0x2000).toNat < 40) &&
          (last.serves (.read 0 0x2000 2) fun reply _ => isData reply) &&
          decide (((m.file 0).revised 0x2000 40 16
            (Writes.blank.along 0 mapped editedPages)).drop 14 = [14, 15, 7, 8, 18, 19, 20, 21,
              22, 23, 24, 25, 26, 27, 28, 29, 30, 31, 32, 33, 34, 35, 36, 37, 38, 39, 40, 41, 42,
              43, 44, 45, 46, 5, 9, 10, 11, 12])) (by decide +kernel)
  rcases hexists with ⟨start, m, hboot, hrun, hcheck⟩
  rw [Bool.and_eq_true, decide_eq_true_eq] at hcheck
  rcases hcheck with ⟨hlength, hmapped⟩
  have hstarted : (∀ call, (m.file 0).writing.outcome call = .whole) ∧
      (∀ call, (m.process 0).mmu.accepting.outcome call = true) ∧
      (m.file 0).shown 40 16 = 36 ∧ ∀ q va, m.page? q va = none := by
    rcases boot_eq_initial hboot with ⟨layout, area, report, rfl, -⟩
    obtain rfl : _ = m := Option.some.inj hrun
    refine ⟨fun _ => rfl, fun _ => rfl, rfl, ?_⟩
    intro q va
    cases q with
    | zero => rfl
    | succ q => rfl
  rcases hstarted with ⟨hwilling, haccepts, hshown, hblank⟩
  have hunmapped : ∀ q va page, m.page? q va = some page → ¬page.Concerns 0 := by
    intro q va page hpage
    rw [hblank] at hpage
    contradiction
  rcases exists_of_serves hmapped with ⟨reply, mapped, hmap, hmapped⟩
  rw [Bool.and_eq_true] at hmapped
  rcases (Option.any_eq_true ..).mp hmapped.2 with ⟨last, hlast, hchecks⟩
  simp only [Bool.and_eq_true, decide_eq_true_eq] at hchecks
  rcases hchecks with ⟨⟨⟨hevictions, haddress⟩, hserved⟩, hcontent⟩
  have hreachable : m.Reachable := ⟨_, _, start, _, hboot, hrun⟩
  rcases mapping_round_trip hreachable hlength hwilling haccepts hunmapped hmap hmapped.1 hlast
    with ⟨hread, -, hunmap⟩
  rcases hunmap 0x2027 haddress with ⟨next, hnext, hrevised, -⟩
  refine ⟨m, mapped, last, next, hreachable, ⟨reply, hmap⟩, hlast, hevictions, ?_, hnext, ?_⟩
  · rcases exists_of_serves hserved with ⟨served, after, hbytes, hdata⟩
    cases served with
    | data bytes =>
        have hbyte := hread 0x2000 2 bytes after hbytes 1 1 (by decide) (by rw [hshown]; decide) rfl
        have hseen := congrArg (fun content : Bytes => content[3]?) hcontent
        rw [List.getElem?_drop] at hseen
        exact ⟨bytes, after, hbytes, hbyte.trans hseen⟩
    | _ => contradiction
  · rw [hrevised]
    exact hcontent

end Machine
end DemandPaging
