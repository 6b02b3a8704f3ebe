import DemandPaging.Proofs.Scene.Fork

/-!
# Pages while others are copied

To copy a page may cost other pages their frames, among them pages of the source and copies that
were made before. They remain what they are all the same: a page that is evicted keeps its content
in its slot or in its file, and a page without a frame is not touched at all.
-/

namespace DemandPaging

/-! ## What becomes of a page -/

inductive Sight.Fares : Sight → Sight → Prop where
  | stayed {page : Option Page} {entry entry' : Option PageEntry} {content : Option Bytes}
      (idle : content = none → entry' = entry) :
      Fares ⟨page, entry, content⟩ ⟨page, entry', content⟩
  | evicted {page : Page} {state : PageState} {entry : Option PageEntry} {bytes : Bytes}
      (evicted : page.state.Evicted state) :
      Fares ⟨some page, entry, some bytes⟩
        ⟨some { page with state := state, frame := none }, none, none⟩

def Page.Backed (page : Page) : Prop :=
  page.state = .anon none → page.frame ≠ none

theorem PageState.Evicted.ne_anon_none {state evicted : PageState} (h : state.Evicted evicted) :
    evicted ≠ .anon none := by
  cases h with
  | anon slot => exact nofun
  | file x => exact nofun

theorem PageState.Evicted.copied_eq {state evicted : PageState} (h : state.Evicted evicted) :
    evicted.copied = state.copied := by
  cases h <;> rfl

theorem Page.Backed.evicted {page : Page} {state : PageState} (h : page.state.Evicted state) :
    Page.Backed { page with state := state, frame := none } :=
  fun hanon => absurd hanon h.ne_anon_none

namespace Sight.Fares

variable {r s t : Sight}

theorem refl (s : Sight) : s.Fares s :=
  .stayed fun _ => rfl

theorem of_eq (h : t = s) : s.Fares t := by
  rw [h]
  exact refl s

theorem trans (h : r.Fares s) (h' : s.Fares t) : r.Fares t := by
  cases h with
  | stayed idle =>
      cases h' with
      | stayed idle' => exact .stayed fun hnone => (idle' hnone).trans (idle hnone)
      | evicted evicted => exact .evicted evicted
  | evicted evicted =>
      cases h' with
      | stayed idle' =>
          rw [idle' rfl]
          exact .evicted evicted

theorem eq_of_idle (h : s.Fares t) (hidle : s.content = none) : t = s := by
  cases h with
  | stayed idle => rw [idle hidle]
  | evicted evicted => contradiction

theorem exists_page {page : Page} (h : s.Fares t) (hpage : s.page = some page) :
    ∃ state frame, t.page = some { page with state := state, frame := frame } ∧
      (state = page.state ∧ frame = page.frame ∨ page.state.Evicted state ∧ frame = none) := by
  cases h with
  | stayed idle => exact ⟨page.state, page.frame, hpage, Or.inl ⟨rfl, rfl⟩⟩
  | evicted evicted =>
      cases hpage
      exact ⟨_, none, rfl, Or.inr ⟨evicted, rfl⟩⟩

theorem isSome_page (h : s.Fares t) : t.page.isSome = s.page.isSome := by
  cases h <;> rfl

theorem backed (h : s.Fares t) (hbacked : ∀ page, s.page = some page → page.Backed) :
    ∀ page, t.page = some page → page.Backed := by
  cases h with
  | stayed idle => exact hbacked
  | evicted evicted =>
      intro page hpage
      cases hpage
      exact .evicted evicted

end Sight.Fares

namespace Scene

variable {v w : Scene} {s t q : Nat} {va wa : Vaddr} {page copy : Page} {vas : List Vaddr}
  {locks : List Lock}

theorem Steps.fares (h : Steps (Deed.Evicting locks) v w) (q : Nat) (wa : Vaddr) :
    (v.sight q wa).Fares (w.sight q wa) := by
  refine h.keeps (P := fun w => (v.sight q wa).Fares (w.sight q wa)) ?_ (.refl _)
  intro deed u w hdeed hstep hu
  refine hu.trans ?_
  have helsewhere : ∀ {p : Nat} {va : Vaddr} {sight : Sight}, (u.sight p va).Fares sight →
      (u.sight q wa).Fares ((u.see p va sight).sight q wa) := by
    intro p va sight hfares
    by_cases hat : q = p ∧ wa = va
    · rw [hat.1, hat.2, sight_see_self]
      exact hfares
    · exact .of_eq (sight_see_of_ne hat)
  cases hstep with
  | save sight unsaved => exact .refl _
  | evict sight evicted saved =>
      refine helsewhere ?_
      rw [sight]
      exact .evicted evicted
  | strand sight refused =>
      refine helsewhere ?_
      rw [sight]
      exact .stayed nofun
  | relink sight frame anon =>
      refine helsewhere ?_
      rw [sight]
      exact .stayed nofun
  | start accepts vacant => exact hdeed.elim
  | register free idle => exact hdeed.elim
  | regroup groups kept => exact hdeed.elim
  | load sight idle image => exact hdeed.elim
  | forget sight => exact hdeed.elim
  | remove sight saved => exact hdeed.elim
  | clone sight idle => exact hdeed.elim
  | store writable => exact hdeed.elim

/-! ## One turn -/

namespace Copied

theorem fares (h : v.Copied s t page copy w) (hva : copy.va = page.va)
    (hother : ¬(q = t ∧ wa = page.va)) : (v.sight q wa).Fares (w.sight q wa) := by
  rcases h.outcome with ⟨-, -, rfl⟩ | ⟨-, u, dirty, bytes, hsteps, ⟨f, rfl⟩, -⟩
  · exact .of_eq (sight_see_of_ne hother)
  · have hfares := hsteps.fares q wa
    rw [sight_see_of_ne hother] at hfares
    refine hfares.trans (.of_eq ?_)
    rw [hva]
    exact sight_see_of_ne hother

/-- A page that has neither a frame nor a slot is copied as it is. The copy of any other page has a
frame, and that of a resident one has its bytes and its dirty bit. -/
theorem sight_copy (h : v.Copied s t page copy w) (hva : copy.va = page.va) :
    page.frame = none ∧ page.slot = none ∧ w.sight t page.va = ⟨some copy, none, none⟩ ∨
      (page.frame.isSome = true ∨ page.slot.isSome = true) ∧ ∃ f dirty bytes,
        w.sight t page.va = ⟨some { copy with frame := some f },
          some ⟨f, copy.writable, dirty, false⟩, some bytes⟩ ∧
        (page.frame.isSome = true → (v.sight s page.va).content = some bytes ∧
          dirty = (v.sight s page.va).entry.any PageEntry.dirty) := by
  rcases h.outcome with ⟨hframe, hslot, rfl⟩ |
    ⟨hsome, u, dirty, bytes, -, ⟨f, rfl⟩, hresident, -⟩
  · exact Or.inl ⟨hframe, hslot, sight_see_self⟩
  · refine Or.inr ⟨hsome, f, dirty, bytes, ?_, hresident⟩
    rw [← hva]
    exact sight_see_self

theorem backed {id : Nat} (h : v.Copied s t page { page.copyFor t with id := id } w)
    (hbacked : page.Backed) : ∀ copy, (w.sight t page.va).page = some copy → copy.Backed := by
  intro copy hcopy
  rcases h.sight_copy rfl with ⟨hframe, hslot, hsight⟩ | ⟨-, f, dirty, bytes, hsight, -⟩
  · rw [hsight] at hcopy
    cases hcopy
    intro hanon
    have hstate : page.state.copied = .anon none := hanon
    rw [PageState.copied_eq_self hslot] at hstate
    exact absurd hframe (hbacked hstate)
  · rw [hsight] at hcopy
    cases hcopy
    exact fun _ => Option.some_ne_none f

end Copied

/-! ## All turns -/

namespace Turns

theorem fares (h : Turns s t v vas w) (hother : ¬(q = t ∧ wa ∈ vas)) :
    (v.sight q wa).Fares (w.sight q wa) := by
  induction h with
  | nil v => exact .refl _
  | @cons v w u va rest page copy id found address alike copied later ih =>
      subst alike address
      refine (copied.fares rfl fun hat => hother ⟨hat.1, ?_⟩).trans
        (ih fun hin => hother ⟨hin.1, List.mem_cons_of_mem _ hin.2⟩)
      rw [hat.2]
      exact List.mem_cons_self

/-- The turn of a page, and what became of the page before and of the copy afterwards. -/
theorem turn (h : Turns s t v vas w) (hdistinct : vas.Nodup) (hva : va ∈ vas) :
    ∃ (before after : Scene) (page : Page) (id : Nat), (v.sight s va).Fares (before.sight s va) ∧
      (before.sight s va).page = some page ∧ page.va = va ∧
      before.Copied s t page { page.copyFor t with id := id } after ∧
      (after.sight t va).Fares (w.sight t va) := by
  induction h with
  | nil v => exact absurd hva List.not_mem_nil
  | @cons v w u first rest page copy id found address alike copied later ih =>
      subst alike address
      rcases List.nodup_cons.mp hdistinct with ⟨hnew, hrest⟩
      by_cases hfirst : va = page.va
      · subst hfirst
        exact ⟨v, w, page, id, .refl _, found, rfl, copied, later.fares fun hin => hnew hin.2⟩
      · have hlater := (List.mem_cons.mp hva).resolve_left hfirst
        rcases ih hrest hlater with ⟨before, after, other, id', hfares, hturn⟩
        refine ⟨before, after, other, id', (copied.fares rfl fun hat => hfirst hat.2).trans hfares,
          hturn⟩

end Turns

/-! ## Backed pages -/

def Backed (v : Scene) (p : Nat) : Prop :=
  ∀ va page, (v.sight p va).page = some page → page.Backed

theorem Turns.backed (h : Turns s t v vas w) (hsource : v.Backed s) (hq : v.Backed q) :
    w.Backed q := by
  induction h with
  | nil v => exact hq
  | @cons v w u va rest page copy id found address alike copied later ih =>
      subst alike address
      have hne : s ≠ t := by
        rintro rfl
        rw [copied.fresh] at found
        contradiction
      have hkept : ∀ {p wa}, v.Backed p → ¬(p = t ∧ wa = page.va) →
          ∀ other, (w.sight p wa).page = some other → other.Backed :=
        fun hp hother => (copied.fares rfl hother).backed (hp _)
      refine ih (fun wa => hkept hsource fun hat => hne hat.1) ?_
      intro wa
      by_cases hat : q = t ∧ wa = page.va
      · rw [hat.1, hat.2]
        exact copied.backed (hsource page.va page found)
      · exact hkept hq hat

theorem Turns.exists_copy (h : Turns s t v vas w) (hdistinct : vas.Nodup) (hva : va ∈ vas) :
    ∃ copy, (w.sight t va).page = some copy ∧
      ((∀ page, (v.sight s va).page = some page → page.Backed) → copy.Backed) := by
  rcases h.turn hdistinct hva with
    ⟨before, after, page, id, hearlier, hpage, haddress, hturn, hlater⟩
  subst haddress
  have hcopy : ∃ copy, (after.sight t page.va).page = some copy := by
    rcases hturn.sight_copy rfl with ⟨-, -, hsight⟩ | ⟨-, f, dirty, bytes, hsight, -⟩
    · rw [hsight]
      exact ⟨_, rfl⟩
    · rw [hsight]
      exact ⟨_, rfl⟩
  rcases hcopy with ⟨copy, hcopy⟩
  rcases hlater.exists_page hcopy with ⟨state, frame, hlast, -⟩
  refine ⟨_, hlast, ?_⟩
  intro hsource
  exact hlater.backed (hturn.backed (hearlier.backed hsource page hpage)) _ hlast

theorem Turns.isSome_page (h : Turns s t v vas w) (hdistinct : vas.Nodup) (q : Nat) (wa : Vaddr) :
    (w.sight q wa).page.isSome = ((v.sight q wa).page.isSome || decide (q = t ∧ wa ∈ vas)) := by
  by_cases hin : q = t ∧ wa ∈ vas
  · rcases h.exists_copy hdistinct hin.2 with ⟨copy, hcopy, -⟩
    rw [decide_eq_true hin, Bool.or_true, hin.1, hcopy]
    rfl
  · rw [decide_eq_false hin, Bool.or_false]
    exact (h.fares hin).isSome_page

theorem Turns.sight_of_idle {entry : Option PageEntry} (h : Turns s t v vas w)
    (hdistinct : vas.Nodup) (hva : va ∈ vas) (hpage : v.sight s va = ⟨some page, entry, none⟩)
    (hframe : page.frame = none) (hslot : page.slot = none) :
    ∃ id, w.sight t va = ⟨some { page.copyFor t with id := id }, none, none⟩ := by
  rcases h.turn hdistinct hva with
    ⟨before, after, other, id, hearlier, hother, haddress, hturn, hlater⟩
  subst haddress
  rw [hearlier.eq_of_idle (congrArg Sight.content hpage), hpage] at hother
  cases hother
  rcases hturn.sight_copy rfl with ⟨-, -, hsight⟩ | ⟨hsome, -⟩
  · exact ⟨id, (hlater.eq_of_idle (congrArg Sight.content hsight)).trans hsight⟩
  · rw [hframe, hslot] at hsome
    rcases hsome with hsome | hsome
    · contradiction
    · contradiction

theorem Step.backed {deed : Deed} (hstep : Step deed v w) (h : v.Backed q)
    (hregister : ∀ page, deed = .register q page → page.Backed) : w.Backed q := by
  have hsee : ∀ {p : Nat} {va : Vaddr} {sight : Sight},
      (q = p → ∀ page, sight.page = some page → page.Backed) → (v.see p va sight).Backed q := by
    intro p va sight hnew wa
    by_cases hat : q = p ∧ wa = va
    · rw [hat.1, hat.2, sight_see_self]
      exact hnew hat.1
    · rw [sight_see_of_ne hat]
      exact h wa
  have hsame : ∀ {p : Nat} {old : Page} {entry : Option PageEntry} {content : Option Bytes},
      v.sight p old.va = ⟨some old, entry, content⟩ → q = p →
      ∀ page, some old = some page → page.Backed := by
    rintro p old entry content hsight rfl page hpage
    cases hpage
    exact h old.va old (congrArg Sight.page hsight)
  have hblank : ∀ page, Sight.blank.page = some page → page.Backed := by
    intro page hpage
    cases hpage
  cases hstep with
  | start accepts vacant => exact h
  | @register _ p page free idle =>
      refine hsee ?_
      rintro rfl other hother
      cases hother
      exact hregister page rfl
  | regroup groups kept => exact h
  | load sight idle image =>
      refine hsee ?_
      rintro - other hother
      cases hother
      exact fun _ => Option.some_ne_none _
  | save sight unsaved => exact h
  | evict sight evicted saved =>
      refine hsee ?_
      rintro - other hother
      cases hother
      exact .evicted evicted
  | strand sight refused => exact hsee (hsame sight)
  | relink sight frame anon => exact hsee (hsame sight)
  | forget sight => exact hsee fun _ => hblank
  | remove sight saved => exact hsee fun _ => hblank
  | clone sight idle =>
      refine hsee ?_
      rintro - other hother
      cases hother
      exact fun _ => Option.some_ne_none _
  | @store _ p va data writable =>
      intro wa page hpage
      exact h wa page ((page_stored q).symm.trans hpage)

theorem Steps.backed {allowed : Deed → Prop} (h : Steps allowed v w) (hq : v.Backed q)
    (hregister : ∀ page, allowed (.register q page) → page.Backed) : w.Backed q := by
  refine h.keeps (P := fun w => w.Backed q) ?_ hq
  intro deed u w hdeed hstep hu
  refine hstep.backed hu ?_
  rintro page rfl
  exact hregister page hdeed

end Scene
end DemandPaging
