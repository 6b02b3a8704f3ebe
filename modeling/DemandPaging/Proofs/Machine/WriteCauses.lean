import DemandPaging.Proofs.Scene.Abort
import DemandPaging.Proofs.Scene.Provenance

/-!
# What is written to files

A file gets bytes for one reason only: a resident page of the file is dirty when it must give up its
frame. Such a page was modified by its process since it got its content, or it is the copy of a page
that was dirty. That holds of every call of a run, also in operations that fail or abort. What a
modified page holds when it gives up its frame is what the operation found in the frame.
-/

namespace DemandPaging

theorem Operation.Permits.tidy {op : Operation} {m : Machine} {deed : Deed}
    (h : op.Permits m deed) (hfork : ∀ s t, op ≠ .fork s t)
    (hwrite : ∀ p va data, op ≠ .write p va data) : deed.Tidy := by
  have hclearing : ∀ {p : Nat}, deed.Clearing p → deed.Tidy := by
    rintro p (⟨page, -, hreleasing⟩ | ⟨bases, rfl⟩)
    · exact hreleasing.tidy
    · trivial
  cases op with
  | start accepting =>
      rw [show deed = .start m.processes.length from h]
      trivial
  | finish p => exact hclearing h
  | teardown p => exact hclearing h
  | allocate p type va writable loader =>
      rcases h with ⟨origin, -, rfl⟩
      trivial
  | remove p va =>
      rcases h with ⟨page, -, hreleasing | ⟨base, -, rfl⟩⟩
      · exact hreleasing.tidy
      · trivial
  | claim p va => exact Deed.Claiming.tidy h
  | fault p f => exact Deed.Faulting.tidy h
  | write p va data => exact absurd rfl (hwrite p va data)
  | map p base length writable f offset =>
      rcases h with ⟨page, -, rfl⟩ | rfl
      · trivial
      · trivial
  | unmap p va =>
      rcases h with ⟨base, mapping, -, -, rfl | ⟨page, -, hreleasing⟩⟩
      · trivial
      · exact hreleasing.tidy
  | fork s t => exact absurd rfl (hfork s t)
  | read | classAt | mappingAt => exact h.elim

namespace Machine

open Routine

variable {m n next : Machine} {mem : FlatMemory} {op : Operation} {ops : List Operation}
  {earlier : List Event}

/-! ## One operation -/

def left (m : Machine) (op : Operation) : Machine :=
  match op.perform m with
  | .ok _ next => next
  | .error _ next => next

theorem left_of_after? (h : m.after? op = some next) : m.left op = next := by
  unfold after? at h
  unfold left
  split at h
  · rename_i reply last hend
    rw [hend]
    exact Option.some.inj h
  · rename_i e last hend
    rw [hend]
    exact Option.some.inj h
  · contradiction

theorem left_of_perform {P : Machine → Prop}
    (hends : Ends op.perform m Anyhow (fun _ next => P next) fun _ next => P next)
    (hbreaks : Breaks op.perform m P) : P (m.left op) := by
  unfold left
  cases hend : op.perform m with
  | ok reply next => exact hends.of_ok hend
  | error stop next =>
      cases stop with
      | failed e => exact hends.of_failed hend
      | aborted a => exact hbreaks a next hend

theorem accounts_perform (op : Operation) (k : m.Sound {} mem) (hrecorded : m.scene.Recorded) :
    Ends op.perform m Anyhow
      (fun _ next => ∃ recent, m.scene.Accounts op.Copies recent next.scene)
      fun _ next => ∃ recent, m.scene.Accounts op.Copies recent next.scene := by
  have hstart : m.scene.Accounts op.Copies [] m.scene := .refl hrecorded
  have htraced : m.scene.Traced op.Copies [] m.scene := .refl hrecorded
  have hsteps : (∀ {next : Machine}, Scene.Steps (op.Permits m) m.scene next.scene →
      ∃ recent, m.scene.Accounts op.Copies recent next.scene) →
      Ends op.perform m Anyhow
        (fun _ next => ∃ recent, m.scene.Accounts op.Copies recent next.scene)
        fun _ next => ∃ recent, m.scene.Accounts op.Copies recent next.scene :=
    fun haccounts => (steps_perform op k).mono (fun _ _ => haccounts) fun _ _ => haccounts
  by_cases hfork : ∃ s t, op = .fork s t
  · rcases hfork with ⟨s, t, rfl⟩
    unfold Operation.perform
    rw [ends_bind]
    refine (steps_fork k).mono ?_ ?_
    · intro _ next hnext
      rcases hnext with ⟨v, hturns, hscene⟩
      rcases hturns.accounts hstart htraced with ⟨recent, haccounts, -⟩
      refine ⟨recent, ?_⟩
      rw [hscene]
      exact haccounts.still rfl rfl rfl
    · intro _ next hbroken
      rcases hbroken.accounts hstart htraced with ⟨recent, haccounts, -⟩
      exact ⟨recent, haccounts⟩
  by_cases hwrite : ∃ p va data, op = .write p va data
  · rcases hwrite with ⟨p, va, data, rfl⟩
    apply hsteps
    intro next hnext
    refine hstart.stores hnext ?_
    rintro deed ⟨count, rfl⟩
    exact ⟨p, va, _, rfl⟩
  · apply hsteps
    intro next hnext
    have htidy : ∀ deed, op.Permits m deed → deed.Tidy := fun deed hdeed =>
      hdeed.tidy (fun s t heq => hfork ⟨s, t, heq⟩) fun p va data heq => hwrite ⟨p, va, data, heq⟩
    rcases hstart.steps htraced hnext htidy with ⟨recent, haccounts, -⟩
    exact ⟨recent, haccounts⟩

theorem CutShort.accounts (h : m.CutShort op n) (hrecorded : m.scene.Recorded) :
    ∃ recent, m.scene.Accounts op.Copies recent n.scene := by
  have hstart : m.scene.Accounts op.Copies [] m.scene := .refl hrecorded
  have htraced : m.scene.Traced op.Copies [] m.scene := .refl hrecorded
  have haside : ∀ {before : Machine} {recent : List Event}, before.Aside n →
      m.scene.Accounts op.Copies recent before.scene →
      ∃ recent, m.scene.Accounts op.Copies recent n.scene := by
    intro before recent hbeside haccounts
    refine ⟨recent, haccounts.still hbeside.layout ?_ ?_⟩
    · exact congrArg (List.filter Event.isMovement) hbeside.trace
    · exact congrArg (List.map BackingFile.unread) hbeside.files
  cases op with
  | claim p va =>
      rcases hstart.steps htraced h fun _ hdeed => hdeed.tidy with ⟨recent, haccounts, -⟩
      exact ⟨recent, haccounts⟩
  | fault p f =>
      rcases hstart.steps htraced h fun _ hdeed => hdeed.tidy with ⟨recent, haccounts, -⟩
      exact ⟨recent, haccounts⟩
  | fork s t =>
      rcases Scene.BrokenOff.accounts h hstart htraced with ⟨recent, haccounts, -⟩
      exact ⟨recent, haccounts⟩
  | read p va length => exact haside h hstart
  | map p start length writable f offset => exact haside h hstart
  | write p va data =>
      rcases h with ⟨count, hbeside⟩
      have hstored : m.scene.Accounts (Operation.write p va data).Copies [.stored p va count]
          (m.recorded (.stored p va count)).scene := hstart.noted rfl rfl rfl nofun nofun nofun
      exact haside hbeside hstored
  | start | finish | allocate | remove | unmap | teardown | classAt | mappingAt => exact h.elim

/-- However an operation ends, all that it sent to files is accounted for. -/
theorem Sound.accounts (k : m.Sound {} mem) (hrecorded : m.scene.Recorded) (op : Operation) :
    ∃ recent, m.scene.Accounts op.Copies recent (m.left op).scene :=
  left_of_perform (P := fun n => ∃ recent, m.scene.Accounts op.Copies recent n.scene)
    (accounts_perform op k hrecorded)
    ((breaks_perform op k).mono fun _ hlast => hlast.accounts hrecorded)

/-- A call for a write is due to a page of a file that is resident and dirty when an operation
begins. It sends the bytes that the file has of the page, from its frame, to their place in the
file, and the page is modified. It is the page that the call names, or the operation is a fork that
copied it to that one before. -/
structure WriteDue (m : Machine) (op : Operation) (earlier : List Event) (write : FileWrite) :
    Prop where
  modified : write.page.modified m.layout (earlier ++ m.movements) = true
  source : ∃ p page f x, m.page? p write.page.va = some page ∧ page.frame = some f ∧
    (m.process p).mmu.isDirty write.page.va = true ∧ page.state = .file x ∧ x.readBytes ≠ 0 ∧
    write.file = x.file ∧ write.offset = x.offset ∧
    write.data = (m.pool.content f).take x.readBytes.toNat ∧
    write.data.length = x.readBytes.toNat ∧
    (p = write.page.process ∧ page.id = write.page.id ∨
      op = .fork p write.page.process ∧ .cloned write.page true ∈ earlier)

/-- When an operation begins, a page is dirty and holds in its frame the content that a page with an
extent has later. It is that page, or the operation is a fork that copied it to that page before. -/
def Finds (m : Machine) (op : Operation) (earlier : List Event) (o : Owner) (x : FileExtent)
    (bytes : Bytes) : Prop :=
  ∃ p page f, m.page? p o.va = some page ∧ page.frame = some f ∧
    (m.process p).mmu.isDirty o.va = true ∧ page.state = .file x ∧ bytes = m.pool.content f ∧
    x.readBytes.toNat ≤ bytes.length ∧
    (p = o.process ∧ page.id = o.id ∨ op = .fork p o.process ∧ .cloned o true ∈ earlier)

def CopyDue (m : Machine) (op : Operation) (copy : Owner) : Prop :=
  ∃ p page f, op = .fork p copy.process ∧ m.page? p copy.va = some page ∧ page.frame = some f ∧
    (m.process p).mmu.isDirty copy.va = true

theorem dirty_scene {p : Nat} {va : Vaddr} {page : Page} {bytes : Bytes}
    (h : m.scene.Dirty p va page bytes) :
    m.page? p va = some page ∧ (∃ f, page.frame = some f ∧ bytes = m.pool.content f) ∧
      (m.process p).mmu.isDirty va = true := by
  rcases h with ⟨entry, hsight, hdirty⟩
  have hpage : m.page? p va = some page := congrArg Sight.page hsight
  have hseen := (sight_of_page? hpage).symm.trans hsight
  have hentry : m.entryAt p va = entry := congrArg Sight.entry hseen
  rcases Option.map_eq_some_iff.mp (congrArg Sight.content hseen) with ⟨f, hframe, hcontent⟩
  refine ⟨hpage, ⟨f, hframe, hcontent.symm⟩, ?_⟩
  rw [Mmu.isDirty_eq_entry?]
  exact (congrArg (Option.any PageEntry.dirty) hentry).trans hdirty

theorem Sound.finds {o : Owner} {x : FileExtent} {bytes : Bytes} (k : m.Sound {} mem)
    (h : m.scene.Source op.Copies earlier o x bytes) : m.Finds op earlier o x bytes := by
  rcases h with ⟨p, page, hdirty, hfile, hsource⟩
  rcases dirty_scene hdirty with ⟨hpage, ⟨f, hframe, rfl⟩, hset⟩
  have hfits := (k.placed p _ page hpage).extent x hfile
  refine ⟨p, page, f, hpage, hframe, hset, hfile, rfl, ?_, hsource⟩
  rw [k.length_content (k.frame_lt hpage hframe)]
  exact hfits

theorem Sound.writeDue {write : FileWrite} (k : m.Sound {} mem)
    (h : m.scene.Due op.Copies earlier write) : m.WriteDue op earlier write := by
  rcases h.source with ⟨x, bytes, hsource, hsome, hname, hoffset, hdata⟩
  rcases k.finds hsource with ⟨p, page, f, hpage, hframe, hset, hfile, rfl, hlong, horigin⟩
  have hlength : write.data.length = x.readBytes.toNat := by
    rw [hdata]
    exact List.length_take_of_le hlong
  exact ⟨h.modified, p, page, f, x, hpage, hframe, hset, hfile, hsome, hname, hoffset, hdata,
    hlength, horigin⟩

/-! ## Runs -/

/-- The machine at the end of a sequence of operations, or where one of them aborts. -/
def last (m : Machine) : List Operation → Machine
  | [] => m
  | op :: rest =>
      match m.after? op with
      | some next => next.last rest
      | none => m.left op

/-- In a sequence of operations there is one that meets a condition on the machine that it finds and
the movements that it then made. -/
def Amid (m : Machine) (ops : List Operation) (earlier : List Event)
    (P : Machine → Operation → List Event → Prop) : Prop :=
  ∃ before op after n recent, ops = before ++ op :: after ∧ m.run before = some n ∧
    earlier = recent ++ n.movements ∧ P n op recent

theorem Amid.later {P : Machine → Operation → List Event → Prop} (hafter : m.after? op = some next)
    (h : next.Amid ops earlier P) : m.Amid (op :: ops) earlier P := by
  rcases h with ⟨before, other, after, n, recent, hops, hrun, hearlier, hmeets⟩
  refine ⟨op :: before, other, after, n, recent, ?_, ?_, hearlier, hmeets⟩
  · rw [hops, List.cons_append]
  · rw [run_cons, hafter]
    exact hrun

theorem Amid.now {P : Machine → Operation → List Event → Prop} {recent : List Event}
    (h : P m op recent) : m.Amid (op :: ops) (recent ++ m.movements) P :=
  ⟨[], op, ops, m, recent, rfl, rfl, rfl, h⟩

theorem cons_suffix_append {α : Type} {a : α} {l first second : List α}
    (h : a :: l <:+ first ++ second) :
    (∃ rest, l = rest ++ second ∧ a :: rest <:+ first) ∨ a :: l <:+ second := by
  induction first with
  | nil => exact Or.inr h
  | cons b first ih =>
      rcases List.suffix_cons_iff.mp h with heq | hlater
      · rcases List.cons.inj heq with ⟨rfl, rfl⟩
        exact Or.inl ⟨first, rfl, List.suffix_refl _⟩
      · rcases ih hlater with ⟨rest, hrest, hsuffix⟩ | hsecond
        · exact Or.inl ⟨rest, hrest, hsuffix.trans (List.suffix_cons b first)⟩
        · exact Or.inr hsecond

/-- What a run made of the files, what its calls and its dirty copies are due to, and what modified
pages of files held when they gave up their frames. -/
structure Accounted (m : Machine) (ops : List Operation) (recent : List Event) : Prop where
  layout : (m.last ops).layout = m.layout
  movements : (m.last ops).movements = recent ++ m.movements
  files : (m.last ops).files.map BackingFile.unread =
    replay (m.files.map BackingFile.unread) recent
  answers : ∀ write earlier, .wroteBack write :: earlier <:+ recent →
    write.Answered (replay (m.files.map BackingFile.unread) earlier)
  writes : ∀ write earlier, .wroteBack write :: earlier <:+ recent →
    m.Amid ops (earlier ++ m.movements) fun n op part => n.WriteDue op part write
  copies : ∀ copy earlier, .cloned copy true :: earlier <:+ recent →
    m.Amid ops (earlier ++ m.movements) fun n op _ => n.CopyDue op copy
  saved : SavedWhenParted m.layout (m.last ops).movements
  parts : ∀ o x bytes evicted earlier, .parted o (some x) bytes evicted :: earlier <:+ recent →
    x.readBytes ≠ 0 → o.modified m.layout (earlier ++ m.movements) = true →
    o.stranded (earlier ++ m.movements) = false →
    m.Amid ops (earlier ++ m.movements) fun n op part => n.Finds op part o x bytes

theorem Accounted.of_left {recent : List Event} (k : m.Sound {} mem)
    (h : m.scene.Accounts op.Copies recent (m.left op).scene)
    (hlast : m.last (op :: ops) = m.left op) : m.Accounted (op :: ops) recent := by
  constructor
  · rw [hlast]
    exact h.layout
  · rw [hlast]
    exact h.movements
  · rw [hlast]
    exact h.files
  · intro write earlier hsuffix
    exact (h.writes write earlier hsuffix).2
  · intro write earlier hsuffix
    exact .now (k.writeDue (h.writes write earlier hsuffix).1)
  · intro copy earlier hsuffix
    rcases h.clones copy (hsuffix.subset List.mem_cons_self) with ⟨p, page, bytes, hop, hdirty⟩
    rcases dirty_scene hdirty with ⟨hpage, ⟨f, hframe, -⟩, hset⟩
    exact .now ⟨p, page, f, hop, hpage, hframe, hset⟩
  · rw [hlast]
    exact h.saved
  · intro o x bytes evicted earlier hsuffix hsome hmodified hlinked
    exact .now (k.finds (h.parts o x bytes evicted earlier hsuffix hsome hmodified hlinked))

theorem Accounted.cons {first recent : List Event} (hafter : m.after? op = some next)
    (hfirst : m.Accounted [op] first) (hrest : next.Accounted ops recent) :
    m.Accounted (op :: ops) (recent ++ first) := by
  have hone : m.last [op] = next := by
    rw [last, hafter]
    rfl
  have hlast : m.last (op :: ops) = next.last ops := by
    rw [last, hafter]
  have hnext : next.movements = first ++ m.movements := by
    rw [← hone]
    exact hfirst.movements
  have hlayout : next.layout = m.layout := by
    rw [← hone]
    exact hfirst.layout
  have hfiles : next.files.map BackingFile.unread =
      replay (m.files.map BackingFile.unread) first := by
    rw [← hone]
    exact hfirst.files
  have hlater : ∀ {rest : List Event} {P : Machine → Operation → List Event → Prop},
      next.Amid ops (rest ++ next.movements) P →
      m.Amid (op :: ops) ((rest ++ first) ++ m.movements) P := by
    intro rest P hamid
    rw [List.append_assoc, ← hnext]
    exact hamid.later hafter
  have hearlier : ∀ {earlier : List Event} {P : Machine → Operation → List Event → Prop},
      m.Amid [op] earlier P → m.Amid (op :: ops) earlier P := by
    rintro earlier P ⟨before, other, after, n, part, hops, hrun, hamid⟩
    refine ⟨before, other, after ++ ops, n, part, ?_, hrun, hamid⟩
    rw [← List.cons_append, ← List.append_assoc, ← hops]
    rfl
  constructor
  · rw [hlast, hrest.layout, hlayout]
  · rw [hlast, hrest.movements, hnext, List.append_assoc]
  · rw [hlast, hrest.files, replay_append, hfiles]
  · intro write earlier hsuffix
    rcases cons_suffix_append hsuffix with ⟨rest, rfl, hrecent⟩ | hbefore
    · rw [replay_append, ← hfiles]
      exact hrest.answers write rest hrecent
    · exact hfirst.answers write earlier hbefore
  · intro write earlier hsuffix
    rcases cons_suffix_append hsuffix with ⟨rest, rfl, hrecent⟩ | hbefore
    · exact hlater (hrest.writes write rest hrecent)
    · exact hearlier (hfirst.writes write earlier hbefore)
  · intro copy earlier hsuffix
    rcases cons_suffix_append hsuffix with ⟨rest, rfl, hrecent⟩ | hbefore
    · exact hlater (hrest.copies copy rest hrecent)
    · exact hearlier (hfirst.copies copy earlier hbefore)
  · rw [hlast, ← hlayout]
    exact hrest.saved
  · intro o x bytes evicted earlier hsuffix hsome hmodified hlinked
    rcases cons_suffix_append hsuffix with ⟨rest, rfl, hrecent⟩ | hbefore
    · rw [List.append_assoc, ← hnext] at hmodified hlinked
      rw [← hlayout] at hmodified
      exact hlater (hrest.parts o x bytes evicted rest hrecent hsome hmodified hlinked)
    · exact hearlier (hfirst.parts o x bytes evicted earlier hbefore hsome hmodified hlinked)

theorem Reachable.accounted (h : m.Reachable) (ops : List Operation) :
    ∃ recent, m.Accounted ops recent := by
  induction ops generalizing m with
  | nil =>
      have hnone : ∀ {event : Event} {earlier : List Event}, ¬event :: earlier <:+ [] :=
        fun hsuffix => List.cons_ne_nil _ _ (List.suffix_nil.mp hsuffix)
      exact ⟨[], rfl, rfl, rfl, fun _ _ h => (hnone h).elim, fun _ _ h => (hnone h).elim,
        fun _ _ h => (hnone h).elim, h.recorded.saved, fun _ _ _ _ _ h => (hnone h).elim⟩
  | cons op rest ih =>
      rcases h.sound with ⟨mem, k⟩
      rcases k.accounts h.recorded op with ⟨first, haccounts⟩
      cases hafter : m.after? op with
      | none =>
          refine ⟨first, .of_left k haccounts ?_⟩
          rw [last, hafter]
      | some next =>
          have hone : m.last [op] = m.left op := by
            rw [last, hafter, left_of_after? hafter]
            rfl
          rcases ih (h.after? hafter) with ⟨recent, hrest⟩
          exact ⟨recent ++ first, .cons hafter (.of_left k haccounts hone) hrest⟩

theorem accounted_of_boot {config : Config} {hardware : Hardware} {start : Machine}
    (hboot : boot config hardware = .ok start) (ops : List Operation) :
    start.movements = [] ∧ start.Accounted ops (start.last ops).movements := by
  have hreachable : start.Reachable := ⟨config, hardware, start, [], hboot, rfl⟩
  have hnone : start.movements = [] := by
    rcases boot_eq_initial hboot with ⟨layout, area, report, rfl, -⟩
    rfl
  rcases hreachable.accounted ops with ⟨recent, haccounted⟩
  have hmovements := haccounted.movements
  rw [hnone, List.append_nil] at hmovements
  rw [hmovements]
  exact ⟨hnone, haccounted⟩

/-- In a run, whether it comes to its end or aborts, files change by the calls on record alone. Each
call is due to a modified page of the file; a page is modified if its process wrote to it since it
got its content, or if it was made by a fork from a page that was dirty. -/
theorem only_modifications_written {config : Config} {hardware : Hardware} {start : Machine}
    (hboot : boot config hardware = .ok start) (ops : List Operation) :
    (start.last ops).files.map BackingFile.unread =
        replay (start.files.map BackingFile.unread) (start.last ops).movements ∧
      (∀ write earlier, .wroteBack write :: earlier <:+ (start.last ops).movements →
        ∃ before op after m recent, ops = before ++ op :: after ∧ start.run before = some m ∧
          earlier = recent ++ m.movements ∧ m.WriteDue op recent write) ∧
      ∀ copy earlier, .cloned copy true :: earlier <:+ (start.last ops).movements →
        ∃ before op after m recent, ops = before ++ op :: after ∧ start.run before = some m ∧
          earlier = recent ++ m.movements ∧ m.CopyDue op copy := by
  rcases accounted_of_boot hboot ops with ⟨hnone, haccounted⟩
  refine ⟨haccounted.files, ?_, ?_⟩
  · intro write earlier hsuffix
    have hamid := haccounted.writes write earlier hsuffix
    rw [hnone, List.append_nil] at hamid
    exact hamid
  · intro copy earlier hsuffix
    have hamid := haccounted.copies copy earlier hsuffix
    rw [hnone, List.append_nil] at hamid
    exact hamid

def writeThenFork : List Operation :=
  [.start (.always true), .start (.always true), .map 0 0x1000 16 true 0 0, .claim 0 0x1000,
    .write 0 0x1000 [7], .fork 0 1, .teardown 1]

theorem last_of_run (hrun : m.run ops = some next) : m.last ops = next := by
  induction ops generalizing m with
  | nil => exact Option.some.inj hrun
  | cons op rest ih =>
      rw [run_cons] at hrun
      rcases Option.bind_eq_some_iff.mp hrun with ⟨after, hafter, hrest⟩
      rw [last, hafter]
      exact ih hrest

def sendsFor (process : Nat) (first : UInt8) : Event → Bool
  | .wroteBack write => write.page.process == process && write.data.head? == some first
  | _ => false

/-- The second process never wrote to the page, but the first one had. -/
theorem copy_written_at_teardown : ∃ start write earlier,
    boot smallConfig (smallHardware none [.patterned 16]) = .ok start ∧
      .wroteBack write :: earlier <:+ (start.last writeThenFork).movements ∧
      write.page.process = 1 ∧ write.data.head? = some 7 ∧
      ∃ before op after m recent, writeThenFork = before ++ op :: after ∧
        start.run before = some m ∧ earlier = recent ++ m.movements ∧
        m.WriteDue op recent write := by
  rcases exists_run smallConfig (smallHardware none [.patterned 16]) writeThenFork
    (fun _ m => m.movements.any (sendsFor 1 7)) (by decide +kernel) with
    ⟨start, m, hboot, hrun, hcheck⟩
  rcases List.any_eq_true.mp hcheck with ⟨event, hmem, hevent⟩
  cases event with
  | wroteBack write =>
      rw [sendsFor, Bool.and_eq_true, beq_iff_eq, beq_iff_eq] at hevent
      rcases List.append_of_mem hmem with ⟨later, earlier, hsplit⟩
      have hsuffix : .wroteBack write :: earlier <:+ (start.last writeThenFork).movements := by
        rw [last_of_run hrun, hsplit]
        exact List.suffix_append later _
      exact ⟨start, write, earlier, hboot, hsuffix, hevent.1, hevent.2,
        (only_modifications_written hboot writeThenFork).2.1 write earlier hsuffix⟩
  | _ => contradiction

end Machine
end DemandPaging
