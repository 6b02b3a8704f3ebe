import DemandPaging.Proofs.Scene.Groups
import DemandPaging.Proofs.Scene.Window

/-!
# Windows while pages come and go

Pages of a window get frames and lose them again, in any order, and the process writes to some of
them meanwhile. Each deed leaves the window what it shows.
-/

namespace DemandPaging

/-! ## Bytes written to a window -/

namespace Window

variable {win : Window} {writes : Writes} {content : Bytes} {i : Nat} {va : Vaddr} {data : Bytes}

theorem Changed.stored (h : win.Changed writes i) : win.Changed (writes.stored va data) i := by
  rcases h with ⟨k, hk, hsome⟩
  refine ⟨k, hk, ?_⟩
  unfold Writes.stored
  rw [Option.isSome_or, hsome, Bool.or_true]

theorem changed_of_touches (hi : i < win.pages)
    (htouched : win.layout.touches va data.length (win.address i) = true) :
    win.Changed (writes.stored va data) i := by
  rcases Layout.exists_of_touches win.layout.fits.1 (aligned_address hi) htouched with
    ⟨j, hj, k, hk, hplace⟩
  refine ⟨k, hk, ?_⟩
  have hin : (win.address i + UInt64.ofNat k - va).toNat < data.length := by
    rw [hplace, UInt64.add_comm, UInt64.add_sub_cancel, UInt64.toNat_ofNat']
    exact Nat.lt_of_le_of_lt (Nat.mod_le j _) hj
  unfold Writes.stored
  rw [List.getElem?_eq_getElem hin]
  rfl

theorem Saved.stored (h : win.Saved writes content i) (hi : i < win.pages)
    (huntouched : win.layout.touches va data.length (win.address i) = false) :
    win.Saved (writes.stored va data) content i := by
  intro k hk
  refine (h k hk).trans (image_congr ?_ hk).symm
  intro k hk
  have hfar := Layout.le_of_untouched win.layout.fits.1 (aligned_address hi) huntouched hk
  unfold Writes.stored
  rw [List.getElem?_eq_none hfar]
  rfl

theorem getElem?_stored {bytes : Bytes} {k : Nat}
    (hshows : bytes[k]? = (win.image writes)[win.place i + k]?) (hk : k < win.size i) :
    (bytes.stored (win.address i) va data)[k]? =
      (win.image (writes.stored va data))[win.place i + k]? := by
  rw [Bytes.getElem?_stored, hshows, getElem?_image hk, getElem?_image hk, Option.map_map]
  congr 1
  funext b
  simp only [Function.comp_apply, Writes.stored, List.getD_eq_getElem?_getD]
  cases data[(win.address i + UInt64.ofNat k - va).toNat]? <;> rfl

theorem Sees.stored {page : Option Page} {entry : Option PageEntry} {bytes : Option Bytes}
    (h : win.Sees writes content i ⟨page, entry, bytes⟩) (hi : i < win.pages)
    (hidle : entry = none → win.layout.touches va data.length (win.address i) = false) :
    win.Sees (writes.stored va data) content i
      ⟨page, entry.map fun e =>
          { e with dirty := e.dirty || win.layout.touches va data.length (win.address i) },
        bytes.map fun content => content.stored (win.address i) va data⟩ := by
  cases h with
  | gone saved => exact .gone (saved.stored hi (hidle rfl))
  | absent part loads saved => exact .absent part loads (saved.stored hi (hidle rfl))
  | resident part file length shows clean dirty =>
      refine .resident part file (Bytes.length_stored.trans length) ?_ ?_ ?_
      · intro k hk
        exact getElem?_stored (shows k hk) hk
      · intro hclean
        rcases Bool.or_eq_false_iff.mp hclean with ⟨hclean, huntouched⟩
        exact (clean hclean).stored hi huntouched
      · intro hdirty
        rcases (Bool.or_eq_true ..).mp hdirty with hdirty | htouched
        · exact (dirty hdirty).stored
        · exact changed_of_touches hi htouched

/-- The file behind the window does not know yet what the process wrote. -/
theorem Follows.stored {file : BackingFile} (h : win.Follows writes file) :
    win.Follows (writes.stored va data) file := by
  refine { h with log := ?_ }
  rcases h.log with ⟨sent, hwritten, hall⟩
  refine ⟨sent, hwritten, ?_⟩
  intro write hwrite
  rcases hall write hwrite with ⟨i, hi, hchanged, heq⟩
  exact ⟨i, hi, hchanged.stored, heq⟩

end Window

/-! ## Open windows and the file behind them -/

/-- What a window shows is what the process wrote over the file, whether it is in a frame or in the
file. -/
structure Scene.Mirrors (v : Scene) (win : Window) (writes : Writes) : Prop where
  layout : v.layout = win.layout
  accepts : ∀ call, v.accepts win.process call = true
  pages : ∀ i, i < win.pages → win.Sees writes (v.file win.file).content i
    (v.sight win.process (win.address i))
  others : ∀ q va page, ¬win.Covers q va → (v.sight q va).page = some page →
    ¬page.Concerns win.file
  follows : win.Follows writes (v.file win.file)
  /-- A page that was sent to the file just now is there. -/
  sent : ∀ i page entry bytes x accepted, i < win.pages →
    v.sight win.process (win.address i) = ⟨some page, entry, some bytes⟩ →
    v.SentBack ⟨win.process, win.address i, page.id⟩ x bytes accepted →
    win.Saved writes (v.file win.file).content i

/-- What can happen without a process getting in the way of a window. -/
def Deed.Apart (win : Window) : Deed → Prop
  | start q | store q _ _ => q ≠ win.process
  | register _ page => ¬page.Concerns win.file
  | clone .. => False
  | _ => True

namespace Scene

variable {v : Scene} {owner : Owner} {x : FileExtent} {bytes : Bytes} {f : Nat}

theorem file_written_self (h : (v.file x.file).content ≠ []) :
    (v.written owner x bytes).file x.file =
      ((v.file x.file).write x.offset.toNat (bytes.take x.readBytes.toNat)).2 := by
  have hlt : x.file < v.files.length := by
    apply Nat.lt_of_not_le
    intro hle
    apply h
    rw [file, List.getD_eq_getElem?_getD, List.getElem?_eq_none hle]
    rfl
  unfold written
  rw [file, List.getD_eq_getElem?_getD, List.getElem?_set_self hlt]
  rfl

theorem file_written_of_ne (h : x.file ≠ f) :
    (v.written owner x bytes).file f = v.file f := by
  unfold written
  rw [file, List.getD_eq_getElem?_getD, List.getElem?_set_ne h]
  exact (List.getD_eq_getElem?_getD ..).symm

theorem SentBack.owner_eq {owner' : Owner} {y : FileExtent} {bytes' : Bytes}
    {accepted : Option Nat} (h : (v.written owner x bytes).SentBack owner' y bytes' accepted) :
    owner' = owner := by
  rcases h with ⟨earlier, hmovements⟩
  have hlast := Event.wroteBack.inj (List.cons.inj hmovements).1
  exact (congrArg FileWrite.page hlast).symm

end Scene

namespace Scene.Mirrors

variable {v w : Scene} {win : Window} {writes : Writes} {q i : Nat} {va : Vaddr} {s : Sight}
  {page : Page} {entry : Option PageEntry} {bytes : Bytes}

theorem resident (h : v.Mirrors win writes) (hi : i < win.pages)
    (hsight : v.sight win.process (win.address i) = ⟨some page, entry, some bytes⟩) :
    ∃ x e, win.Part i x ∧ page.state = .file x ∧ entry = some e ∧
      bytes.length = win.layout.pageBytes ∧
      (∀ k, k < win.size i → bytes[k]? = (win.image writes)[win.place i + k]?) ∧
      (e.dirty = false → win.Saved writes (v.file win.file).content i) ∧
      (e.dirty = true → win.Changed writes i) := by
  have hsees := h.pages i hi
  rw [hsight] at hsees
  cases hsees with
  | resident part file length shows clean dirty =>
      exact ⟨_, _, part, file, rfl, length, shows, clean, dirty⟩

theorem idle (h : v.Mirrors win writes) (hi : i < win.pages)
    (hsight : v.sight win.process (win.address i) = ⟨some page, entry, none⟩) :
    (∃ x, win.Part i x ∧ page.state.loaded = .file x) ∧
      win.Saved writes (v.file win.file).content i := by
  have hsees := h.pages i hi
  rw [hsight] at hsees
  cases hsees with
  | absent part loads saved => exact ⟨⟨_, part, loads⟩, saved⟩

theorem gone (h : v.Mirrors win writes) (hi : i < win.pages)
    (hpage : (v.sight win.process (win.address i)).page = none) :
    win.Saved writes (v.file win.file).content i := by
  have hsees := h.pages i hi
  generalize v.sight win.process (win.address i) = sight at *
  cases hsees with
  | gone saved => exact saved
  | absent part loads saved => contradiction
  | resident part file length shows clean dirty => contradiction

theorem saved_of_parting (h : v.Mirrors win writes) (hi : i < win.pages)
    (hsight : v.sight win.process (win.address i) = ⟨some page, entry, some bytes⟩)
    (hparting : ∀ x, page.Unsaved entry x →
      ∃ accepted, v.SentBack ⟨win.process, win.address i, page.id⟩ x bytes accepted) :
    win.Saved writes (v.file win.file).content i := by
  rcases h.resident hi hsight with ⟨x, e, part, hfile, rfl, -, -, hclean, -⟩
  cases hdirty : e.dirty with
  | false => exact hclean hdirty
  | true =>
      by_cases hnone : x.readBytes = 0
      · intro k hk
        rw [← part.readBytes, hnone] at hk
        exact absurd hk (Nat.not_lt_zero k)
      · rcases hparting x ⟨hfile, hnone, hdirty⟩ with ⟨accepted, hsent⟩
        exact h.sent i page _ bytes x accepted hi hsight hsent

theorem grouped {groups : AddressMap FileMapping} (h : v.Mirrors win writes) :
    (v.grouped q groups).Mirrors win writes :=
  { h with }

theorem storeOf {data : Bytes} (h : v.Mirrors win writes) (hq : q ≠ win.process) :
    ((v.stored q va data).noted (.stored q va data.length)).Mirrors win writes := by
  refine ⟨h.layout, h.accepts, ?_, ?_, h.follows, ?_⟩
  · intro i hi
    exact (sight_stored_of_ne hq.symm).symm ▸ h.pages i hi
  · intro q' va' page hout hpage
    exact h.others q' va' page hout ((page_stored q').symm.trans hpage)
  · rintro i page entry bytes x accepted - - ⟨earlier, hmovements⟩
    cases hmovements

theorem store {data : Bytes} (h : v.Mirrors win writes)
    (hreached : ∀ i, i < data.length → ∃ e, (v.sight win.process
      (Word.alignDown (va + UInt64.ofNat i) v.layout.pageSize)).entry = some e ∧
        e.writable = true) :
    ((v.stored win.process va data).noted (.stored win.process va data.length)).Mirrors win
      (writes.stored va data) := by
  refine ⟨h.layout, h.accepts, ?_, ?_, h.follows.stored, ?_⟩
  · intro i hi
    have hstored : ((v.stored win.process va data).noted
        (.stored win.process va data.length)).sight win.process (win.address i) = _ :=
      sight_stored_self
    rw [hstored, h.layout]
    refine (h.pages i hi).stored hi ?_
    intro hnone
    rw [Layout.touches_eq_false_iff, ← h.layout]
    intro j hj heq
    rcases hreached j hj with ⟨e, hentry, -⟩
    rw [heq, hnone] at hentry
    contradiction
  · intro q va' page hout hpage
    exact h.others q va' page hout ((page_stored q).symm.trans hpage)
  · rintro i page entry bytes x accepted - - ⟨earlier, hmovements⟩
    cases hmovements

theorem see (h : v.Mirrors win writes) (hlayout : w.layout = v.layout)
    (haccepts : w.accepts = v.accepts) (hfiles : w.files = v.files)
    (hsight : w.sight = (v.see q va s).sight)
    (hpages : ∀ i, i < win.pages → q = win.process → va = win.address i →
      win.Sees writes (v.file win.file).content i s)
    (hothers : ¬win.Covers q va → ∀ page, s.page = some page → ¬page.Concerns win.file)
    (hmovements : (∃ event earlier, w.movements = event :: earlier ∧
        ∀ write, event ≠ .wroteBack write) ∨
      w.movements = v.movements ∧ (win.Covers q va → s.content = none)) :
    w.Mirrors win writes := by
  have hfile : w.file win.file = v.file win.file := by
    unfold file
    rw [hfiles]
  constructor
  · exact hlayout.trans h.layout
  · rw [haccepts]
    exact h.accepts
  · intro i hi
    rw [hsight, hfile]
    by_cases hat : win.process = q ∧ win.address i = va
    · rw [hat.1, hat.2, sight_see_self]
      exact hpages i hi hat.1.symm hat.2.symm
    · rw [sight_see_of_ne hat]
      exact h.pages i hi
  · intro q' va' page hout hpage
    rw [hsight] at hpage
    by_cases hat : q' = q ∧ va' = va
    · rw [hat.1, hat.2, sight_see_self] at hpage
      rw [hat.1, hat.2] at hout
      exact hothers hout page hpage
    · rw [sight_see_of_ne hat] at hpage
      exact h.others q' va' page hout hpage
  · rw [hfile]
    exact h.follows
  · intro i page entry bytes x accepted hi hat hsent
    rw [hfile]
    rcases hsent with ⟨before, hbefore⟩
    rcases hmovements with ⟨event, earlier, hlater, hother⟩ | ⟨hsame, hidle⟩
    · rw [hlater] at hbefore
      cases hbefore
      exact absurd rfl (hother _)
    · rw [hsight] at hat
      by_cases hplace : win.process = q ∧ win.address i = va
      · rw [hplace.1, hplace.2, sight_see_self] at hat
        have hnone := hidle ⟨hplace.1.symm, i, hi, hplace.2.symm⟩
        rw [hat] at hnone
        contradiction
      · rw [sight_see_of_ne hplace] at hat
        exact h.sent i page entry bytes x accepted hi hat ⟨before, hsame ▸ hbefore⟩

theorem saveInside {x : FileExtent} (h : v.Mirrors win writes) (hi : i < win.pages)
    (hsight : v.sight win.process (win.address i) = ⟨some page, entry, some bytes⟩)
    (hunsaved : page.Unsaved entry x) :
    (v.written ⟨win.process, win.address i, page.id⟩ x bytes).Mirrors win writes := by
  rcases h.resident hi hsight with ⟨y, e, part, hfile, rfl, hlength, hshows, -, hdirty⟩
  cases hunsaved.1.symm.trans hfile
  have hsome : 0 < win.size i := by
    rw [← part.readBytes]
    exact Nat.pos_of_ne_zero fun hzero => hunsaved.2.1 (UInt64.toNat_inj.mp hzero)
  have htake : (bytes.take (win.size i)).length = win.size i := by
    apply List.length_take_of_le
    rw [hlength]
    exact Nat.min_le_right _ _
  have hdata : ∀ k, k < win.size i →
      (bytes.take (win.size i))[k]? = (win.image writes)[win.place i + k]? := by
    intro k hk
    rw [List.getElem?_take_of_lt hk]
    exact hshows k hk
  rcases h.follows.write hi (hdirty hunsaved.2.2) hsome htake hdata with
    ⟨hfollows, hsaved, hothers⟩
  have hwritten : (v.written ⟨win.process, win.address i, page.id⟩ x bytes).file win.file =
      ((v.file win.file).write (win.place i) (bytes.take (win.size i))).2 := by
    rw [← part.file, ← part.offset, ← part.readBytes]
    refine file_written_self fun hnil => ?_
    have hplace := h.follows.length ▸ Window.place_add_lt hsome
    rw [part.file] at hnil
    rw [hnil] at hplace
    exact absurd hplace (Nat.not_lt_zero _)
  rw [← hwritten] at hfollows hsaved hothers
  refine ⟨h.layout, h.accepts, ?_, h.others, hfollows, ?_⟩
  · intro j hj
    refine (h.pages j hj).mono ?_
    intro hbefore
    by_cases hji : j = i
    · rw [hji]
      exact hsaved
    · intro l hl
      rw [hothers j hji l hl]
      exact hbefore l hl
  · intro j other entry' bytes' y accepted hj _ hsent
    rw [Window.address_inj hj hi (congrArg Owner.va hsent.owner_eq)]
    exact hsaved

theorem saveOutside {x : FileExtent} (h : v.Mirrors win writes)
    (hsight : v.sight q page.va = ⟨some page, entry, some bytes⟩)
    (hunsaved : page.Unsaved entry x) (hout : ¬win.Covers q page.va) :
    (v.written ⟨q, page.va, page.id⟩ x bytes).Mirrors win writes := by
  have hother : x.file ≠ win.file := by
    intro heq
    refine h.others q page.va page hout (congrArg Sight.page hsight) ⟨x, ?_, heq⟩
    rw [hunsaved.1]
    rfl
  have hfile : (v.written ⟨q, page.va, page.id⟩ x bytes).file win.file = v.file win.file :=
    file_written_of_ne hother
  refine ⟨h.layout, h.accepts, ?_, h.others, ?_, ?_⟩
  · intro j hj
    rw [hfile]
    exact h.pages j hj
  · rw [hfile]
    exact h.follows
  · intro j other entry' bytes' y accepted hj _ hsent
    have howner := hsent.owner_eq
    exact absurd ⟨(congrArg Owner.process howner).symm, j, hj, (congrArg Owner.va howner).symm⟩
      hout

/-- Each deed leaves the window what it shows. -/
theorem step {deed : Deed} (h : v.Mirrors win writes) (hstep : Step deed v w)
    (hapart : deed.Apart win)
    (hfree : ∀ q page, deed = .register q page → ¬win.Covers q page.va) :
    w.Mirrors win writes := by
  -- A page elsewhere that may change its state is still not one of the file.
  have hstill : ∀ {q : Nat} {page other : Page} {entry : Option PageEntry}
      {content : Option Bytes}, v.sight q page.va = ⟨some page, entry, content⟩ →
      other.state.loaded = page.state.loaded → ¬win.Covers q page.va →
      ∀ page', some other = some page' → ¬page'.Concerns win.file := by
    intro q page other entry content hsight hsame hout page' hpage'
    cases hpage'
    rw [Page.Concerns.congr hsame]
    exact h.others q page.va page hout (congrArg Sight.page hsight)
  cases hstep with
  | start accepts vacant =>
      refine { h with accepts := ?_ }
      intro call
      refine Eq.trans ?_ (h.accepts call)
      exact congrFun (if_neg fun heq => hapart heq.symm) call
  | regroup groups kept => exact h.grouped
  | @save _ p page entry bytes x sight unsaved =>
      by_cases hin : win.Covers p page.va
      · rcases hin with ⟨rfl, i, hi, hva⟩
        rw [hva] at sight ⊢
        exact h.saveInside hi sight unsaved
      · exact h.saveOutside sight unsaved hin
  | clone sight idle => exact hapart.elim
  | @store _ p va data writable => exact h.storeOf hapart
  | @register _ p page free idle =>
      have hout := hfree p page rfl
      refine h.see rfl rfl rfl rfl ?_ ?_ (Or.inr ⟨rfl, fun _ => rfl⟩)
      · intro i hi hp hva
        exact absurd ⟨hp, i, hi, hva⟩ hout
      · intro _ other hother
        cases hother
        exact hapart
  | @load _ p f page bytes sight idle image =>
      refine h.see rfl rfl rfl rfl ?_ (hstill sight (PageState.loaded_loaded _))
        (Or.inl ⟨_, _, rfl, fun _ => Event.noConfusion⟩)
      intro i hi hp hva
      subst hp
      rw [hva] at sight
      rcases h.idle hi sight with ⟨⟨x, part, hloads⟩, hsaved⟩
      rcases image x hloads with ⟨rfl, hfits⟩
      refine .resident part hloads ?_ ?_ (fun _ => hsaved) nofun
      · rw [FileExtent.length_image, h.layout]
      · intro k hk
        rw [← hsaved k hk]
        have hplace := Window.place_add_lt hk
        rw [← h.follows.length] at hplace
        rw [← part.file, ← part.offset] at hplace ⊢
        refine FileExtent.getElem?_image hfits ?_ hplace
        rw [part.readBytes]
        exact hk
  | @evict _ p page entry bytes state sight evicted saved =>
      refine h.see rfl rfl rfl rfl ?_ (hstill sight evicted.loaded_eq)
        (Or.inl ⟨_, _, rfl, fun _ => Event.noConfusion⟩)
      intro i hi hp hva
      subst hp
      rw [hva] at sight saved
      rcases h.resident hi sight with ⟨x, e, part, hfile, -⟩
      refine .absent part ?_ (h.saved_of_parting hi sight fun x hx => ⟨_, saved x hx⟩)
      rw [show PageState.loaded _ = page.state.loaded from evicted.loaded_eq, hfile]
      rfl
  | @strand _ p page entry bytes sight refused =>
      refine h.see rfl rfl rfl rfl ?_ (hstill sight rfl)
        (Or.inl ⟨_, _, rfl, fun _ => Event.noConfusion⟩)
      intro i hi hp hva
      subst hp
      rcases refused with ⟨call, hcall⟩
      rw [h.accepts call] at hcall
      contradiction
  | @relink _ p f page bytes sight frame anon =>
      -- A page of a file is not anonymous.
      have hout : ∀ i, i < win.pages → p = win.process → page.va = win.address i → False := by
        intro i hi hp hva
        subst hp
        rw [hva] at sight
        rcases h.resident hi sight with ⟨x, e, -, hfile, -⟩
        rw [anon] at hfile
        contradiction
      refine h.see rfl rfl rfl rfl ?_ (hstill sight rfl) (Or.inr ⟨rfl, ?_⟩)
      · intro i hi hp hva
        exact (hout i hi hp hva).elim
      · rintro ⟨hp, i, hi, hva⟩
        exact (hout i hi hp hva).elim
  | @forget _ p page sight =>
      refine h.see rfl rfl rfl rfl ?_ ?_ (Or.inr ⟨rfl, fun _ => rfl⟩)
      · intro i hi hp hva
        subst hp
        rw [hva] at sight
        exact .gone (h.idle hi sight).2
      · intro _ other hother
        cases hother
  | @remove _ p page entry bytes sight saved =>
      refine h.see rfl rfl rfl rfl ?_ ?_ (Or.inl ⟨_, _, rfl, fun _ => Event.noConfusion⟩)
      · intro i hi hp hva
        subst hp
        rw [hva] at sight saved
        exact .gone (h.saved_of_parting hi sight saved)
      · intro _ other hother
        cases hother

end Scene.Mirrors

/-! ## Open windows -/

structure Scene.Opens (v : Scene) (win : Window) : Prop where
  linked : ∀ i, i < win.pages → v.link win.process (win.address i) = some win.start
  listed : ((v.mappings win.process).get? win.start).map FileMapping.members =
    some (win.layout.pagesFrom win.start win.pages)

def Deed.Spares (win : Window) : Deed → Prop
  | regroup q bases => q = win.process → win.start ∉ bases
  | remove q page => win.Covers q page.va → page.mapping ≠ some win.start
  | _ => True

namespace Deed

variable {win : Window} {deed : Deed} {q : Nat} {va : Vaddr} {locks : List Lock}

theorem Evicting.spares (h : deed.Evicting locks) : deed.Apart win ∧ deed.Spares win := by
  cases deed with
  | save | evict | strand | relink => exact ⟨trivial, trivial⟩
  | start | register | regroup | load | remove | clone | store => exact h.elim

theorem Claiming.spares (h : deed.Claiming q va) : deed.Apart win ∧ deed.Spares win := by
  rcases h with hevicting | ⟨page, -, rfl⟩
  · exact hevicting.spares
  · exact ⟨trivial, trivial⟩

theorem Clearing.spares (h : deed.Clearing q) (hq : q ≠ win.process) :
    deed.Apart win ∧ deed.Spares win := by
  rcases h with ⟨page, -, rfl | rfl⟩ | ⟨bases, rfl⟩
  · exact ⟨trivial, trivial⟩
  · exact ⟨trivial, fun hin => absurd hin.1 hq⟩
  · exact ⟨trivial, fun heq => absurd heq hq⟩

end Deed

namespace Scene.Opens

variable {v w : Scene} {win : Window} {q : Nat} {va : Vaddr}

theorem not_covers (h : v.Opens win) (hfree : v.sight q va = .blank) : ¬win.Covers q va := by
  rintro ⟨rfl, i, hi, rfl⟩
  have hlink := h.linked i hi
  unfold link at hlink
  rw [hfree] at hlink
  contradiction

theorem step {deed : Deed} (h : v.Opens win) (hstep : Step deed v w) (hspares : deed.Spares win) :
    w.Opens win := by
  have hsame : ∀ {u : Scene}, u.link = v.link → u.mappings = v.mappings → u.Opens win := by
    intro u hlink hmappings
    refine ⟨?_, ?_⟩
    · rw [hlink]
      exact h.linked
    · rw [hmappings]
      exact h.listed
  have helsewhere : ∀ {q : Nat} {va : Vaddr} {s : Sight}, ¬win.Covers q va →
      (v.see q va s).Opens win := by
    intro q va s hout
    refine ⟨?_, h.listed⟩
    intro i hi
    rw [link_see, setAt_of_ne fun hat => hout ⟨hat.1.symm, i, hi, hat.2.symm⟩]
    exact h.linked i hi
  -- A page of the window says that it belongs to it.
  have hcovered : ∀ {q : Nat} {page : Page} {entry : Option PageEntry} {content : Option Bytes},
      v.sight q page.va = ⟨some page, entry, content⟩ → win.Covers q page.va →
        page.mapping = some win.start := by
    rintro q page entry content hsight ⟨rfl, i, hi, hva⟩
    have hlink := h.linked i hi
    rw [← hva, link, hsight] at hlink
    exact hlink
  cases hstep with
  | start | save => exact hsame rfl rfl
  | load sight idle image => exact hsame (link_see_same sight rfl) rfl
  | evict sight evicted saved => exact hsame (link_see_same sight rfl) rfl
  | strand sight refused => exact hsame (link_see_same sight rfl) rfl
  | relink sight frame anon => exact hsame (link_see_same sight rfl) rfl
  | clone sight idle => exact hsame (link_see_same sight rfl) rfl
  | store writable =>
      refine hsame ?_ rfl
      funext q wa
      exact congrArg (Option.bind · Page.mapping) (page_stored q)
  | register free idle => exact helsewhere (h.not_covers free)
  | forget sight => exact helsewhere fun hin => hspares hin (hcovered sight hin)
  | remove sight saved =>
      have hgone : (v.see _ _ .blank).Opens win :=
        helsewhere fun hin => hspares hin (hcovered sight hin)
      exact ⟨hgone.linked, hgone.listed⟩
  | @regroup _ p bases groups kept =>
      refine ⟨h.linked, ?_⟩
      by_cases hp : p = win.process
      · subst hp
        rw [mappings_grouped_self, kept win.start (hspares rfl)]
        exact h.listed
      · rw [mappings_grouped_of_ne fun heq => hp heq.symm]
        exact h.listed

end Scene.Opens

namespace Scene.Populated

variable {v w : Scene} {win : Window} {writable : Bool} {offset : UInt64}

theorem mirrors {groups : AddressMap FileMapping}
    (hadded : v.Populated win.process (win.layout.pageAt win.start)
      (win.layout.MappedPage win.process win.start writable win.file offset win.bytes) 0 win.pages
      w)
    (hlayout : v.layout = win.layout) (haccepts : ∀ call, v.accepts win.process call = true)
    (hfile : v.file win.file = win.original.unread)
    (hwilling : ∀ call, win.original.writing.outcome call = .whole)
    (hunmapped : ∀ q va page, (v.sight q va).page = some page → ¬page.Concerns win.file)
    (hoffset : offset.toNat = win.offset) :
    (w.grouped win.process groups).Mirrors win .blank := by
  have hbehind : (w.grouped win.process groups).file win.file = win.original.unread := by
    rw [← hfile, hadded.beside]
    rfl
  constructor
  · rw [hadded.beside]
    exact hlayout
  · rw [hadded.beside]
    exact haccepts
  · intro i hi
    rcases hadded.added i (Nat.zero_le i) hi with ⟨page, hgood, hsight⟩
    rcases hgood.part with ⟨x, hstate, hx, hplace, hsize⟩
    have hsight' : (w.grouped win.process groups).sight win.process (win.address i) =
        ⟨some page, none, none⟩ := hsight
    rw [hsight', hbehind]
    refine .absent ⟨hx, ?_, hsize⟩ (congrArg PageState.loaded hstate) ?_
    · rw [hplace, hoffset]
      rfl
    · intro k _
      rw [Window.image_blank]
      rfl
  · intro q va page hout hpage
    refine hunmapped q va page ?_
    rw [← hpage]
    refine congrArg Sight.page (hadded.others q va ?_).symm
    intro i _ hi hat
    exact hout ⟨hat.1, i, hi, hat.2⟩
  · rw [hbehind]
    exact Window.follows_original hwilling
  · intro i page entry bytes x accepted hi hsight
    rcases hadded.added i (Nat.zero_le i) hi with ⟨other, -, hother⟩
    cases congrArg Sight.content (hother.symm.trans hsight)

theorem opens {groups : AddressMap FileMapping} {mapping : FileMapping}
    (hadded : v.Populated win.process (win.layout.pageAt win.start)
      (win.layout.MappedPage win.process win.start writable win.file offset win.bytes) 0 win.pages
      w)
    (hmembers : mapping.members = win.layout.pagesFrom win.start win.pages) :
    (w.grouped win.process (groups.insert win.start mapping)).Opens win := by
  constructor
  · intro i hi
    rcases hadded.added i (Nat.zero_le i) hi with ⟨page, hgood, hsight⟩
    have hlink : w.link win.process (win.address i) = page.mapping := by
      rw [link, show w.sight win.process (win.address i) = _ from hsight]
      rfl
    exact hlink.trans hgood.link
  · rw [mappings_grouped_self, AddressMap.get?_insert, if_pos rfl, ← hmembers]
    rfl

end Scene.Populated

theorem Scene.Step.mirrors_store {v w : Scene} {win : Window} {writes : Writes} {va : Vaddr}
    {data : Bytes} (hstep : Step (.store win.process va data) v w)
    (hmirrors : v.Mirrors win writes) (hopens : v.Opens win) :
    w.Mirrors win (writes.stored va data) ∧ w.Opens win := by
  refine ⟨?_, hopens.step hstep trivial⟩
  cases hstep with
  | store writable => exact hmirrors.store writable

theorem Scene.Steps.mirrors {allowed : Deed → Prop} {v w : Scene} {win : Window}
    {writes : Writes} (h : Steps allowed v w) (hmirrors : v.Mirrors win writes)
    (hopens : v.Opens win)
    (hallowed : ∀ deed, allowed deed → deed.Apart win ∧ deed.Spares win) :
    w.Mirrors win writes ∧ w.Opens win := by
  refine h.keeps (P := fun w => w.Mirrors win writes ∧ w.Opens win) ?_ ⟨hmirrors, hopens⟩
  intro deed u w hdeed hstep hu
  rcases hallowed deed hdeed with ⟨hapart, hspares⟩
  refine ⟨hu.1.step hstep hapart ?_, hu.2.step hstep hspares⟩
  rintro q page rfl
  cases hstep with
  | register free idle => exact hu.2.not_covers free

end DemandPaging
