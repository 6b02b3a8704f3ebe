import DemandPaging.Proofs.Machine.Operation

/-!
# Anonymous memory as a ledger

A ledger says what the addresses of anonymous pages must hold, going by the operations and their
answers alone: the last byte that was written there, or the byte from the loader of the page when
nothing was. It knows nothing of frames, slots and evictions. Every read agrees with the ledger of
the run before it.
-/

namespace DemandPaging

/-! ## Ledgers -/

/-- What an address of an anonymous page must hold. -/
inductive Cell where
  /-- The page was not loaded since it was registered with the given loader. -/
  | awaiting (loader : Option Loader)
  | byte (b : UInt8)

def Cell.filled (cell : Cell) (content : Option Loader → UInt8) : Cell :=
  match cell with
  | awaiting loader => .byte (content loader)
  | byte b => .byte b

structure Ledger where
  cells : Nat → Vaddr → Cell
  /-- Whether the page table was left behind by a copy that failed. -/
  void : Nat → Bool

namespace Ledger

def blank : Ledger :=
  ⟨fun _ _ => .awaiting none, fun _ => false⟩

def registered (l : Ledger) (m : Machine) (p : Nat) (base : Vaddr) (loader : Option Loader) :
    Ledger :=
  { l with cells := fun q a =>
      if q = p ∧ m.pageBase a = base then .awaiting loader else l.cells q a }

/-- The page that contains an address is loaded now. If it was not before, its loader produced
its bytes. -/
def loaded (l : Ledger) (m next : Machine) (p : Nat) (va : Vaddr) : Ledger :=
  { l with cells := fun q a =>
      if q = p ∧ m.pageBase a = m.pageBase va then
        (l.cells q a).filled fun loader =>
          ((Origin.anon loader).image next.files m.loaderRuns m.layout.pageBytes).getD
            (a - m.pageBase va).toNat 0
      else l.cells q a }

def stored (l : Ledger) (p : Nat) (va : Vaddr) (data : Bytes) : Ledger :=
  { l with cells := fun q a =>
      if q = p then
        match data[(a - va).toNat]? with
        | some b => .byte b
        | none => l.cells q a
      else l.cells q a }

def copied (l : Ledger) (m : Machine) (s t : Nat) : Ledger where
  cells := fun q a => if q = t ∧ (m.lookup s a).isSome = true then l.cells s a else l.cells q a
  void := fun q => l.void q || (decide (q = t) && l.void s)

def spoiled (l : Ledger) (t : Nat) : Ledger :=
  { l with void := fun q => l.void q || decide (q = t) }

def served (l : Ledger) (m : Machine) (op : Operation) (reply : Reply) (next : Machine) : Ledger :=
  match op with
  | .allocate p _ va _ loader => l.registered m p va loader
  | .claim p va => l.loaded m next p va
  | .fault p f =>
      if (m.lookup p f.va).isSome then l.loaded m next p f.va
      else (l.registered m p (m.pageBase f.va) none).loaded m next p f.va
  | .write p va data => l.stored p va (reply.stored va data)
  | .fork s t => l.copied m s t
  | _ => l

def refused (l : Ledger) (op : Operation) : Ledger :=
  match op with
  | .fork _ t => l.spoiled t
  | _ => l

def along (l : Ledger) (m : Machine) : List Operation → Ledger
  | [] => l
  | op :: rest =>
      match op.perform m with
      | .ok reply next => (l.served m op reply next).along next rest
      | .error (.failed _) next => (l.refused op).along next rest
      | .error (.aborted _) _ => l

end Ledger

/-! ## Pages and cells -/

def PageState.cell? (state : PageState) (b : UInt8) : Option Cell :=
  match state with
  | uninit (.anon loader) => some (.awaiting loader)
  | uninit (.file _) => none
  | anon _ => some (.byte b)
  | file _ => none

@[simp]
theorem PageState.cell?_copied (state : PageState) (b : UInt8) :
    state.copied.cell? b = state.cell? b := by
  cases state <;> rfl

theorem PageState.cell?_eq_of_outline {page old : Page} (h : page.outline = old.outline)
    (b : UInt8) : page.state.cell? b = old.state.cell? b := by
  have hstate : page.state.copied = old.state.copied := congrArg Page.state h
  rw [← cell?_copied page.state, hstate, cell?_copied]

/-- The pages of the machine and the bytes of the flat memory are what the ledger says. -/
def Ledger.Agrees (l : Ledger) (m : Machine) (mem : FlatMemory) : Prop :=
  ∀ p a page cell, l.void p = false → m.lookup p a = some page →
    page.state.cell? (mem p a) = some cell → l.cells p a = cell

namespace Machine

variable {m next : Machine} {mem mem' : FlatMemory} {l : Ledger} {p : Nat} {va a : Vaddr}
  {page : Page} {places : Nat → Vaddr → Prop}

theorem AlikeBut.pageBase (h : m.AlikeBut places next) (a : Vaddr) :
    next.pageBase a = m.pageBase a := by
  rw [Machine.pageBase, h.layout]
  rfl

theorem AlikeBut.lookup_cell? (h : m.AlikeBut places next) (hother : ¬places p (m.pageBase a))
    (hpage : next.lookup p a = some page) :
    ∃ old, m.lookup p a = some old ∧ ∀ b, page.state.cell? b = old.state.cell? b := by
  rw [lookup, h.pageBase] at hpage
  rcases h.page?_eq_some hother hpage with ⟨old, hold, hsame⟩
  exact ⟨old, hold, PageState.cell?_eq_of_outline hsame⟩

theorem Sound.loadedMemory_inside {origin : Origin} (k : m.Sound {} mem)
    (horigin : m.originAt? p va = some origin) (hblock : m.pageBase a = m.pageBase va) :
    m.loadedMemory next p va mem p a =
      (origin.image next.files m.loaderRuns m.layout.pageBytes).getD
        (a - m.pageBase va).toNat 0 := by
  have hin : (a - m.pageBase va).toNat < m.layout.pageBytes :=
    (Word.sub_lt_iff_alignDown_eq k.powerOfTwo (isAligned_pageBase m va) a).mpr hblock
  rw [← origin.length_image next.files m.loaderRuns m.layout.pageBytes] at hin
  rw [loadedMemory, horigin]
  simp only [FlatMemory.store, if_true, List.getD_eq_getElem?_getD]
  rw [List.getElem?_eq_getElem hin]
  rfl

theorem Sound.loadedMemory_outside {q : Nat} (k : m.Sound {} mem)
    (hother : ¬(q = p ∧ m.pageBase a = m.pageBase va)) :
    m.loadedMemory next p va mem q a = mem q a := by
  unfold loadedMemory
  cases m.originAt? p va with
  | none => rfl
  | some origin =>
      dsimp only
      by_cases hq : q = p
      · have hblock : ¬m.pageBase a = m.pageBase va := fun heq => hother ⟨hq, heq⟩
        have hout : ¬(a - m.pageBase va).toNat < m.layout.pageBytes := fun hin =>
          hblock ((Word.sub_lt_iff_alignDown_eq k.powerOfTwo (isAligned_pageBase m va) a).mp hin)
        have hlength := origin.length_image next.files m.loaderRuns m.layout.pageBytes
        simp only [FlatMemory.store, hq, if_true, List.getD_eq_getElem?_getD]
        rw [List.getElem?_eq_none (by omega), Option.getD_none]
      · rw [FlatMemory.store_of_ne hq]

end Machine

/-! ## Operations and ledgers -/

namespace Ledger
namespace Agrees

open Machine

variable {m next : Machine} {mem mem' : FlatMemory} {l : Ledger} {p : Nat} {va : Vaddr}

theorem inherits (h : l.Agrees m mem) (hinherits : m.Inherits next) : l.Agrees next mem := by
  intro p a page cell hvoid hpage hcell
  have hbase : next.pageBase a = m.pageBase a := by
    rw [pageBase, hinherits.layout]
    rfl
  rw [lookup, hbase] at hpage
  rcases hinherits.pages p _ page hpage with ⟨old, hold, hsame⟩ | ⟨x, hfile⟩
  · rw [PageState.cell?_eq_of_outline hsame] at hcell
    exact h p a old cell hvoid hold hcell
  · rw [hfile] at hcell
    contradiction

theorem registered {base : Vaddr} {loader : Option Loader} (h : l.Agrees m mem)
    (halike : m.AlikeBut (At p base) next)
    (hnew : ∀ page b cell, next.page? p base = some page → page.state.cell? b = some cell →
      cell = .awaiting loader) : (l.registered m p base loader).Agrees next mem := by
  intro q a page cell hvoid hpage hcell
  show (if q = p ∧ m.pageBase a = base then Cell.awaiting loader else l.cells q a) = cell
  by_cases hat : q = p ∧ m.pageBase a = base
  · rw [if_pos hat]
    rw [lookup, halike.pageBase, hat.1, hat.2] at hpage
    exact (hnew page _ cell hpage hcell).symm
  · rw [if_neg hat]
    rcases halike.lookup_cell? hat hpage with ⟨old, hold, hsame⟩
    rw [hsame] at hcell
    exact h q a old cell hvoid hold hcell

theorem loaded {page : Page} {f : Nat} (h : l.Agrees m mem) (k : m.Sound {} mem)
    (hresolved : m.Resolved next p va mem page f)
    (hfirst : l.void p = false → ∀ a loader, m.pageBase a = m.pageBase va →
      m.originAt? p va = some (.anon loader) → l.cells p a = .awaiting loader) :
    (l.loaded m next p va).Agrees next (m.loadedMemory next p va mem) := by
  intro q a other cell hvoid hother hcell
  show (if q = p ∧ m.pageBase a = m.pageBase va then (l.cells q a).filled _
    else l.cells q a) = cell
  by_cases hat : q = p ∧ m.pageBase a = m.pageBase va
  · rw [if_pos hat]
    rcases hat with ⟨rfl, hblock⟩
    have hsame : other = page := by
      have hlookup := hresolved.lookup
      rw [lookup, hresolved.alike.pageBase] at hlookup hother
      rw [hblock, hlookup] at hother
      exact (Option.some.inj hother).symm
    subst hsame
    have hload : ∀ loader, m.originAt? q va = some (.anon loader) → other.state = .anon none →
        (l.cells q a).filled (fun loader =>
          ((Origin.anon loader).image next.files m.loaderRuns m.layout.pageBytes).getD
            (a - m.pageBase va).toNat 0) = cell := by
      intro loader horigin hanon
      rw [hanon, k.loadedMemory_inside horigin hblock] at hcell
      rw [hfirst hvoid a loader hblock horigin]
      exact Option.some.inj hcell
    cases hold : m.lookup q va with
    | none =>
        refine hload none ?_ ?_
        · rw [originAt?, hold]
        · rw [hresolved.stack hold]
    | some old =>
        have horigin : m.originAt? q va = old.state.origin? := by
          rw [originAt?, hold]
        have hstate : other.state = old.state.loaded := by
          rw [hresolved.claimed old hold]
        cases hbefore : old.state with
        | uninit origin =>
            rw [hbefore] at horigin hstate
            cases origin with
            | anon loader => exact hload loader horigin hstate
            | file x =>
                rw [hstate] at hcell
                contradiction
        | anon slot =>
            rw [hbefore] at horigin hstate
            have hmem : m.loadedMemory next q va mem = mem := by
              rw [loadedMemory, horigin]
              rfl
            rw [hstate, hmem] at hcell
            have hlookup : m.lookup q a = some old := by
              rw [lookup, hblock]
              exact hold
            have hbyte : l.cells q a = .byte (mem q a) :=
              h q a old _ hvoid hlookup (by rw [hbefore]; rfl)
            rw [hbyte]
            exact Option.some.inj hcell
        | file x =>
            rw [hbefore] at hstate
            rw [hstate] at hcell
            contradiction
  · rw [if_neg hat]
    rcases hresolved.alike.lookup_cell? hat hother with ⟨old, hold, hsame⟩
    rw [hsame, k.loadedMemory_outside hat] at hcell
    exact h q a old cell hvoid hold hcell

theorem stored {data : Bytes} (h : l.Agrees m mem) (k : m.Sound {} mem)
    (halike : m.AlikeBut Nowhere next)
    (hresident : ∀ i, i < data.length →
      ∃ page, m.lookup p (va + UInt64.ofNat i) = some page ∧ page.isResident = true) :
    (l.stored p va data).Agrees next (mem.store p va data) := by
  intro q a page cell hvoid hpage hcell
  rcases halike.lookup_cell? id hpage with ⟨old, hold, hsame⟩
  rw [hsame] at hcell
  show (if q = p then
    match data[(a - va).toNat]? with
    | some b => Cell.byte b
    | none => l.cells q a
    else l.cells q a) = cell
  by_cases hq : q = p
  · subst hq
    simp only [FlatMemory.store, if_true, List.getD_eq_getElem?_getD] at hcell ⊢
    cases hbyte : data[(a - va).toNat]? with
    | none =>
        rw [hbyte, Option.getD_none] at hcell
        exact h q a old cell hvoid hold hcell
    | some b =>
        rw [hbyte, Option.getD_some] at hcell
        have hi : (a - va).toNat < data.length := (List.getElem?_eq_some_iff.mp hbyte).1
        rcases hresident _ hi with ⟨other, hother, hframe⟩
        have ha : va + UInt64.ofNat (a - va).toNat = a := by
          rw [UInt64.ofNat_toNat, UInt64.add_comm, UInt64.sub_add_cancel]
        rw [ha, hold] at hother
        cases hother
        rcases Option.isSome_iff_exists.mp hframe with ⟨f, hf⟩
        rcases ((k.placed q _ old hold).loaded f hf).resolve_left List.not_mem_nil with
          hanon | ⟨x, hfile⟩
        · rw [hanon] at hcell
          exact Option.some.inj hcell
        · rw [hfile] at hcell
          contradiction
  · rw [if_neg hq]
    rw [FlatMemory.store_of_ne hq] at hcell
    exact h q a old cell hvoid hold hcell

theorem copied {s t : Nat} (h : l.Agrees m mem) (hcopied : m.Copied s t next)
    (hfree : ∀ va, (m.page? s va).isSome = true → m.page? t va = none) :
    (l.copied m s t).Agrees next (mem.copy s t fun a => (m.lookup s a).isSome) := by
  intro q a page cell hvoid hpage hcell
  rcases Bool.or_eq_false_iff.mp hvoid with ⟨hvalid, hsource⟩
  show (if q = t ∧ (m.lookup s a).isSome = true then l.cells s a else l.cells q a) = cell
  by_cases hnew : q = t ∧ m.page? t (m.pageBase a) = none
  · rcases hnew with ⟨rfl, hnone⟩
    rw [lookup, hcopied.alike.pageBase] at hpage
    rcases hcopied.copies _ page hnone hpage with ⟨old, hold, houtline⟩
    have hstate : page.state.copied = old.state.copied := congrArg Page.state houtline
    have hsome : (m.lookup s a).isSome = true := by
      rw [show m.lookup s a = some old from hold]
      rfl
    have hbyte : mem.copy s q (fun a => (m.lookup s a).isSome) q a = mem s a :=
      if_pos ⟨rfl, hsome⟩
    rw [← PageState.cell?_copied, hstate, PageState.cell?_copied, hbyte] at hcell
    rw [decide_eq_true rfl, Bool.true_and] at hsource
    rw [if_pos ⟨rfl, hsome⟩]
    exact h s a old cell hsource hold hcell
  · have hkept : ¬(q = t ∧ (m.lookup s a).isSome = true) := fun hat =>
      hnew ⟨hat.1, hfree _ hat.2⟩
    have hbyte : mem.copy s t (fun a => (m.lookup s a).isSome) q a = mem q a := if_neg hkept
    rcases hcopied.alike.lookup_cell? hnew hpage with ⟨old, hold, hsame⟩
    rw [hsame, hbyte] at hcell
    rw [if_neg hkept]
    exact h q a old cell hvalid hold hcell

/-- What became of the target of a copy that failed does not matter. -/
theorem spoiled {s t : Nat} (h : l.Agrees m mem) (hcopied : m.Copied s t next)
    (hothers : ∀ q, q ≠ t → mem' q = mem q) : (l.spoiled t).Agrees next mem' := by
  intro q a page cell hvoid hpage hcell
  rcases Bool.or_eq_false_iff.mp hvoid with ⟨hvalid, hne⟩
  have hq := of_decide_eq_false hne
  rcases hcopied.alike.lookup_cell? (fun hat => hq hat.1) hpage with ⟨old, hold, hsame⟩
  rw [hsame, hothers q hq] at hcell
  exact h q a old cell hvalid hold hcell

/-- The cells of a page that was never loaded wait for its loader. -/
theorem awaiting {a : Vaddr} {loader : Option Loader} (h : l.Agrees m mem)
    (hvoid : l.void p = false) (hblock : m.pageBase a = m.pageBase va)
    (hpage : (m.lookup p va).isSome = true) (horigin : m.originAt? p va = some (.anon loader)) :
    l.cells p a = .awaiting loader := by
  rcases Option.isSome_iff_exists.mp hpage with ⟨page, hpage⟩
  rw [originAt?, hpage] at horigin
  have hlookup : m.lookup p a = some page := by
    rw [lookup, hblock]
    exact hpage
  refine h p a page _ hvoid hlookup ?_
  rw [PageState.eq_uninit_of_origin? horigin]
  rfl

/-! ## Runs and ledgers -/

theorem served {op : Operation} {reply : Reply} (h : l.Agrees m mem) (k : m.Sound {} mem)
    (hserves : op.Serves m mem reply next mem') : (l.served m op reply next).Agrees next mem' := by
  cases op with
  | allocate p type va writable loader =>
      rcases hserves with ⟨rfl, hp, origin, horigin, rfl⟩
      refine h.registered (.of_setAt rfl (page?_withPage_eq hp)) ?_
      intro page b cell hpage hcell
      rw [page?_withPage_eq hp, setAt_self] at hpage
      cases hpage
      cases origin with
      | anon other =>
          rw [Page.originOf_eq_anon horigin] at hcell
          exact (Option.some.inj hcell).symm
      | file x => contradiction
  | claim p va =>
      rcases hserves with ⟨rfl, page, f, hresolved, hpage⟩
      exact h.loaded k hresolved fun hvoid a loader hblock => h.awaiting hvoid hblock hpage
  | fault p f =>
      rcases hserves with ⟨rfl, page, frame, hresolved⟩
      show (if (m.lookup p f.va).isSome then l.loaded m next p f.va
        else (l.registered m p (m.pageBase f.va) none).loaded m next p f.va).Agrees next _
      by_cases hpage : (m.lookup p f.va).isSome = true
      · rw [if_pos hpage]
        exact h.loaded k hresolved fun hvoid a loader hblock => h.awaiting hvoid hblock hpage
      · rw [if_neg hpage]
        have hnone : m.lookup p f.va = none := Option.not_isSome_iff_eq_none.mp hpage
        have hgrown : (l.registered m p (m.pageBase f.va) none).Agrees m mem := by
          refine h.registered (.refl m) ?_
          intro other b cell hother
          rw [show m.page? p (m.pageBase f.va) = none from hnone] at hother
          contradiction
        refine hgrown.loaded k hresolved ?_
        intro _ a loader hblock horigin
        rw [originAt?, hnone] at horigin
        cases horigin
        exact if_pos ⟨rfl, hblock⟩
  | write p va data =>
      rcases hserves with ⟨rfl, halike, hresident⟩
      exact h.stored k halike hresident
  | fork s t =>
      rcases hserves with ⟨rfl, hcopied, hfree⟩
      exact h.copied hcopied hfree
  | _ =>
      rcases hserves with ⟨rfl, hinherits⟩
      exact h.inherits hinherits

theorem refused {op : Operation} (h : l.Agrees m mem) (hrefuses : op.Refuses m mem next mem') :
    (l.refused op).Agrees next mem' := by
  cases op with
  | fork s t => exact h.spoiled hrefuses.1 hrefuses.2
  | _ =>
      rcases hrefuses with ⟨rfl, hinherits⟩
      exact h.inherits hinherits

theorem along {ops : List Operation} {last : Machine} (h : l.Agrees m mem) (k : m.Sound {} mem)
    (hrun : m.run ops = some last) :
    ∃ mem', last.Sound {} mem' ∧ (l.along m ops).Agrees last mem' := by
  induction ops generalizing m mem l with
  | nil =>
      cases hrun
      exact ⟨mem, k, h⟩
  | cons op rest ih =>
      have hends := ends_perform op k
      unfold Routine.Ends at hends
      rw [run, after?] at hrun
      rw [Ledger.along]
      rcases hperform : op.perform m with ⟨reply, next⟩ | ⟨⟨e⟩ | ⟨reason⟩, next⟩
      · rw [hperform] at hends hrun
        rcases hends with ⟨mem', knext, hserves⟩
        exact ih (h.served k hserves) knext hrun
      · rw [hperform] at hends hrun
        rcases hends with ⟨mem', knext, hrefuses⟩
        exact ih (h.refused hrefuses) knext hrun
      · rw [hperform] at hrun
        contradiction

end Agrees
end Ledger

namespace Machine

/-- Every byte that a process reads from an anonymous page is the one in the ledger of the run. -/
theorem read_agrees_with_ledger {config : Config} {hardware : Hardware}
    {start m next : Machine} {ops : List Operation} {p length : Nat} {va : Vaddr} {bytes : Bytes}
    (hboot : boot config hardware = .ok start) (hrun : start.run ops = some m)
    (hvoid : (Ledger.blank.along start ops).void p = false)
    (hread : (Operation.read p va length).perform m = .ok (.data bytes) next) :
    bytes.length = length ∧ ∀ i, i < length → ∃ page,
      m.lookup p (va + UInt64.ofNat i) = some page ∧
        (page.effectiveClass = .anon → ∃ b, bytes[i]? = some b ∧
          (Ledger.blank.along start ops).cells p (va + UInt64.ofNat i) = .byte b) := by
  have hblank : Ledger.blank.Agrees start fun _ _ => 0 := by
    intro q a page cell _ hpage
    rw [lookup, page?_of_boot hboot] at hpage
    contradiction
  rcases hblank.along (boot_sound _ hboot) hrun with ⟨mem, k, hagrees⟩
  have hends := ends_read p length va k
  rw [Routine.Ends, hread] at hends
  rcases hends bytes rfl with ⟨hlength, hpages⟩
  refine ⟨hlength, ?_⟩
  intro i hi
  rcases hpages i hi with ⟨page, hpage, hresident, hbyte⟩
  refine ⟨page, hpage, ?_⟩
  intro hanon
  refine ⟨mem p (va + UInt64.ofNat i), hbyte hanon, ?_⟩
  rcases Option.isSome_iff_exists.mp hresident with ⟨f, hframe⟩
  refine hagrees p _ page _ hvoid hpage ?_
  rcases ((k.placed p _ page hpage).loaded f hframe).resolve_left List.not_mem_nil with
    hstate | ⟨x, hfile⟩
  · rw [hstate]
    rfl
  · rw [Page.effectiveClass, hfile] at hanon
    contradiction

/-- A page gets three bytes from its loader and another one from its process. Its copy keeps them
while the original is written to, and while both go to the disk and the copy comes back. -/
def forkedRun : List Operation :=
  [.start (.always true), .start (.always true),
    .allocate 0 .anon 0x1000 true (some (.custom (.constant 0 [1, 2, 3] none none))),
    .claim 0 0x1000, .write 0 0x1002 [9], .fork 0 1, .write 0 0x1002 [7],
    .allocate 0 .anon 0x2000 true none, .claim 0 0x2000,
    .allocate 0 .anon 0x3000 true none, .claim 0 0x3000, .claim 1 0x1000]

theorem read_after_fork_and_eviction : ∃ start m next : Machine,
    boot smallConfig (smallHardware (some (.blank 8 8)) []) = .ok start ∧
    start.run forkedRun = some m ∧ m.ring.evictions = 3 ∧
    (Operation.read 1 0x1000 4).perform m = .ok (.data [1, 2, 9, 0]) next ∧
    ∀ i, i < 4 → ∃ page, m.lookup 1 (0x1000 + UInt64.ofNat i) = some page ∧
      (page.effectiveClass = .anon → ∃ b, [1, 2, 9, 0][i]? = some b ∧
        (Ledger.blank.along start forkedRun).cells 1 (0x1000 + UInt64.ofNat i) = .byte b) := by
  rcases exists_run smallConfig (smallHardware (some (.blank 8 8)) []) forkedRun
    (fun start m => decide (m.ring.evictions = 3) &&
      !(Ledger.blank.along start forkedRun).void 1 &&
      match (Operation.read 1 0x1000 4).perform m with
      | .ok (.data bytes) _ => decide (bytes = [1, 2, 9, 0])
      | _ => false) (by decide +kernel) with ⟨start, m, hboot, hrun, hcheck⟩
  simp only [Bool.and_eq_true, Bool.not_eq_true', decide_eq_true_eq] at hcheck
  rcases hcheck with ⟨⟨hevictions, hvoid⟩, hbytes⟩
  split at hbytes
  · rename_i bytes next hread
    rw [of_decide_eq_true hbytes] at hread
    exact ⟨start, m, next, hboot, hrun, hevictions, hread,
      (read_agrees_with_ledger hboot hrun hvoid hread).2⟩
  · contradiction

end Machine
end DemandPaging
